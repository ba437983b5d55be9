/-
# How much the IN direction takes

Since no NTB comes back, the IN direction has a capacity: there are two NTBs, each takes eight
datagrams, and one of the NTBs is sent.  Nothing is assumed about USB; `net_tx` is called after a
`net_can_tx` that returned `true`.

`refusal_final` says that the end is for ever: when `net_can_tx` has once returned `false`, it will
not return `true` again, for whatever size, and whatever happens in between.
-/
import Fx3Ncm.Ncm.TxCompletion
import Fx3Ncm.Ncm.TxLimits

namespace Fx3Ncm

open ByteMemory Runs

/-! ### The end of the phases -/

namespace TxPhase

/-- Both NTBs have been opened, and none is being filled. -/
def spent (p : TxPhase) : Bool := p.opened = 2 ∧ p.user = none

lemma spent_accept_of_refuses : ∀ {p : TxPhase}, p.accepts = false → p.accept.spent = true := by
  decide

lemma accepts_of_spent : ∀ {p : TxPhase}, p.spent = true → p.accepts = false := by decide

lemma user_of_spent : ∀ {p : TxPhase}, p.spent = true → p.user = none := by decide

lemma spent_start : ∀ {p : TxPhase}, p.spent = true → p.start.spent = true := by decide

end TxPhase

/-- No datagram will be admitted any more. -/
def TxSpent (w : World) : Prop := ∃ p : TxPhase, TxShape w p ∧ p.spent = true

section Spent

variable {w : World}

lemma TxSpent.user (h : TxSpent w) : w.tx.txUserNtb = none := by
  obtain ⟨p, hs, hp⟩ := h
  exact hs.user.trans (TxPhase.user_of_spent hp)

lemma TxSpent.start (h : TxSpent w) (env : Env) : TxSpent (txTryStart env w).2 := by
  obtain ⟨p, hs, hp⟩ := h
  rcases hs.start env with hs' | hs'
  · exact ⟨p, hs', hp⟩
  · exact ⟨p.start, hs', TxPhase.spent_start hp⟩

lemma txSpent_accept {p : TxPhase} (hs : TxShape w p) (hp : p.accepts = false) :
    TxSpent (txAcceptUserNtb w).2 :=
  ⟨p.accept, hs.accept, TxPhase.spent_accept_of_refuses hp⟩

lemma not_fits_of_user_none (h : w.tx.txUserNtb = none) (size : UInt16) :
    ¬ txDatagramFitsUserNtb size w = true := by
  rw [txDatagramFitsUserNtb, h]
  exact Bool.false_ne_true

/-- The step lemma: it stays so, whatever is called. -/
lemma TxSpent.step (h : TxSpent w) (input : Input) : TxSpent (Fx3Ncm.step w input) := by
  apply step_rule (I := TxSpent) h
  case quiet =>
    rintro w w' hq ⟨p, hs, hp⟩
    exact ⟨p, hs.quiet hq, hp⟩
  case complete =>
    obtain ⟨p, hs, hp⟩ := h
    intro bytes _
    exact ⟨p, hs.record rfl, hp⟩
  case zlp =>
    rintro w bytes ok - ⟨p, hs, hp⟩
    exact ⟨p, hs.record rfl, hp⟩
  case start => exact fun env h => h.start env
  case accept =>
    obtain ⟨p, hs, hp⟩ := h
    intro size _ _
    exact txSpent_accept hs (TxPhase.accepts_of_spent hp)
  case store =>
    intro i written size _ hi
    exact absurd (h.user.symm.trans hi) (by simp)

/-- The run lemma. -/
lemma TxSpent.run (h : TxSpent w) (es : List Input) : TxSpent (Runs.run Fx3Ncm.step w es) :=
  run_invariant (G := fun _ _ => True) (fun _ e hs _ => hs.step e) h
    (Along.of_forall fun _ _ => trivial)

lemma TxSpent.refuses (h : TxSpent w) (env : Env) (size : UInt16) :
    (netCanTx env size w).1 = false := by
  obtain ⟨p, hs, hp⟩ := h
  have hfits := not_fits_of_user_none (hs.user.trans (TxPhase.user_of_spent hp)) size
  have haccept : ¬ (txAcceptUserNtb w).1 = true := by
    rw [hs.accept_fst, TxPhase.accepts_of_spent hp]
    exact Bool.false_ne_true
  rw [netCanTx_of_refuses env hfits haccept]

/-- A refusal comes from the end of the phases. -/
lemma txSpent_of_refused {p : TxPhase} (hs : TxShape w p) {env : Env} {size : UInt16}
    (h : (netCanTx env size w).1 = false) : TxSpent (Fx3Ncm.step w (.netCanTx size, env)) := by
  have hfits : ¬ txDatagramFitsUserNtb size w = true := by
    intro hfits
    rw [netCanTx_of_fits env hfits] at h
    cases h
  have haccept : ¬ (txAcceptUserNtb w).1 = true := by
    intro haccept
    rw [netCanTx_of_accepts env hfits haccept] at h
    cases h
  have hp : p.accepts = false := by
    rw [← hs.accept_fst]
    exact Bool.eq_false_iff.2 haccept
  obtain ⟨p', hs', hp'⟩ := (txSpent_accept hs hp).start env
  have heq : (netCanTx env size w).2 = (txTryStart env (txAcceptUserNtb w).2).2 := by
    rw [netCanTx_of_refuses env hfits haccept]
  rw [← heq] at hs'
  exact ⟨p', hs'.quiet (.of_log_eq rfl rfl), hp'⟩

end Spent

/-- When `net_can_tx` has returned `false` in any state that is reached, it returns `false` for
ever, whatever size it is asked for, and whatever is called in between, as long as `net_tx` writes
inside its NTB (what lies behind one is not modelled): there is no use in asking again. -/
theorem refusal_final {w : World} (hw : Reached (fun _ _ => True) w) {env : Env} {size : UInt16}
    (h : (netCanTx env size w).1 = false) (es : List Input) (env' : Env) (size' : UInt16) :
    (netCanTx env' size' (run step (step w (.netCanTx size, env)) es)).1 = false := by
  obtain ⟨p, hs⟩ := TxShape.of_reached hw
  exact ((txSpent_of_refused hs h).run es).refuses env' size'

/-- Three questions for too much room are enough, also if the transfers then come to their end. -/
theorem refusal_final_example :
    (netCanTx .accepting 60 (run step (step (run step World.init [askTooMuch, askTooMuch])
      askTooMuch) [(.netUsbControlTransfer (.setInterface 1), .accepting),
        (.netUsbTransfer ncmEpDataIn 100, .accepting)])).1 = false := by
  have hrefused : (netCanTx .accepting 65535 (run step World.init [askTooMuch, askTooMuch])).1 =
      false := by
    decide +kernel
  exact refusal_final ⟨_, Along.of_forall fun _ _ => trivial, rfl⟩ hrefused _ .accepting 60

/-! ### Counting datagrams -/

/-- `net_tx` is called only after a `net_can_tx` that returned `true`. -/
def AsksFirst (w : World) (input : Input) : Prop :=
  ∀ written size, input.1 = .netTx written size → w.admitted ≠ none

/-- The room for datagrams in the user NTB. -/
def userRoom (w : World) (p : TxPhase) : ℕ :=
  if p.user = none then 0 else ncmMaxDatagramsPerNtb - w.tx.txUserNtbDatagramIndex

/-- The datagrams that are stored, together with those for which the user NTB has room, are no
more than the NTBs that have been opened can take. -/
structure TxRoom (w : World) (p : TxPhase) : Prop where
  shape : TxShape w p
  index : p.user ≠ none → w.tx.txUserNtbDatagramIndex ≤ ncmMaxDatagramsPerNtb
  count : (storedDatagrams w.log).length + userRoom w p ≤ ncmMaxDatagramsPerNtb * p.opened

/-- There is room for one datagram, if there is a user NTB. -/
def HasRoom (w : World) : Prop :=
  w.tx.txUserNtb ≠ none → w.tx.txUserNtbDatagramIndex < ncmMaxDatagramsPerNtb

lemma stored_accept {w : World} {p : TxPhase} (hs : TxShape w p) :
    storedDatagrams (txAcceptUserNtb w).2.log = storedDatagrams w.log := by
  cases hp : p.accepts with
  | false =>
    obtain ⟨-, -, hlog⟩ := txAcceptUserNtb_of_refuses hs.state hp
    exact hlog.stored
  | true =>
    obtain ⟨-, -, l, hl, hlog⟩ := txAcceptUserNtb_of_accepts hs.state hp
    rw [hlog, ← hl.stored]
    simp [storedDatagrams]

lemma stored_start {w : World} {p : TxPhase} (hs : TxShape w p) (env : Env) :
    storedDatagrams (txTryStart env w).2.log = storedDatagrams w.log := by
  rcases txTryStart_cases env hs.state with ⟨-, hq, -⟩ | ⟨-, -, -, ok, -, -, hlog⟩
  · exact hq.calls.stored
  · rw [hlog]
    simp [storedDatagrams]

namespace TxRoom

variable {w w' : World} {p : TxPhase}

lemma init : TxRoom World.init .idle := ⟨.init, fun h => absurd rfl h, le_rfl⟩

lemma quiet (h : TxRoom w p) (hq : TxQuiet w w') : TxRoom w' p := by
  have htx : w'.tx = w.tx := hq.same
  refine ⟨h.shape.quiet hq, ?_, ?_⟩
  · rw [htx]
    exact h.index
  · rw [hq.calls.stored, userRoom, htx]
    exact h.count

/-- Recording a call that stores no datagram. -/
lemma record (h : TxRoom w p) {c : Call} (hsent : sentNtbs [c] = [])
    (hstored : storedDatagrams [c] = []) : TxRoom (w.record c) p := by
  refine ⟨h.shape.record hsent, h.index, ?_⟩
  have hlog : storedDatagrams (w.record c).log = storedDatagrams w.log ++ storedDatagrams [c] :=
    List.filterMap_append
  rw [hlog, hstored, List.append_nil]
  exact h.count

/-- What the user NTB has no room for is lost, but the next NTB has as much. -/
lemma accept (h : TxRoom w p) : TxRoom (txAcceptUserNtb w).2 p.accept := by
  have hcount := h.count
  have hstored := stored_accept h.shape
  cases hp : p.accepts with
  | false =>
    have huser := TxPhase.user_accept_of_refuses hp
    refine ⟨h.shape.accept, fun h' => absurd huser h', ?_⟩
    rw [hstored, userRoom, if_pos huser, TxPhase.opened_accept_of_refuses hp]
    omega
  | true =>
    obtain ⟨-, htx, -⟩ := txAcceptUserNtb_of_accepts h.shape.state hp
    have huser := TxPhase.user_accept hp
    refine ⟨h.shape.accept, fun _ => ?_, ?_⟩
    · rw [htx]
      exact Nat.zero_le _
    · rw [hstored, userRoom, huser, if_neg (Option.some_ne_none _), htx, TxPhase.opened_accept hp,
        Nat.mul_succ]
      change _ + (ncmMaxDatagramsPerNtb - 0) ≤ _
      omega

lemma start (h : TxRoom w p) (env : Env) : ∃ p', TxRoom (txTryStart env w).2 p' := by
  have hstored := stored_start h.shape env
  rcases txTryStart_cases env h.shape.state with ⟨-, hq, -⟩ | ⟨hp, -, -, ok, -, htx, -⟩
  · exact ⟨p, h.quiet hq⟩
  · have hs : TxShape (txTryStart env w).2 p.start := by
      rcases h.shape.start env with hs | hs
      · have hu := hs.usbd
        rw [htx, TxPhase.usbd_eq_none_of_startable hp] at hu
        exact absurd ((TxPhase.usbd_start hp).symm.trans hu) (by simp)
      · exact hs
    have hindex : (txTryStart env w).2.tx.txUserNtbDatagramIndex = w.tx.txUserNtbDatagramIndex := by
      rw [htx]
      rfl
    have huser : p.start.user ≠ none → p.user ≠ none := by
      intro hne
      obtain ⟨i, hi⟩ := Option.ne_none_iff_exists'.1 hne
      rw [TxPhase.user_start hi]
      exact Option.some_ne_none i
    refine ⟨p.start, hs, ?_, ?_⟩
    · rw [hindex]
      exact fun hne => h.index (huser hne)
    · have hcount := h.count
      rw [hstored, TxPhase.opened_start]
      by_cases hnone : p.start.user = none
      · rw [userRoom, if_pos hnone]
        omega
      · rw [userRoom, if_neg (huser hnone)] at hcount
        rw [userRoom, if_neg hnone, hindex]
        exact hcount

/-- Storing a datagram where there is room for one. -/
lemma store (h : TxRoom w p) {i : NtbPtr} (hi : p.user = some i) (written : List UInt8) (size : ℕ)
    (hroom : w.tx.txUserNtbDatagramIndex < ncmMaxDatagramsPerNtb) :
    TxRoom (txStoreDatagram i written size w) p := by
  have hne : p.user ≠ none := by
    rw [hi]
    exact Option.some_ne_none i
  have hindex : (txStoreDatagram i written size w).tx.txUserNtbDatagramIndex =
      w.tx.txUserNtbDatagramIndex + 1 := by
    simp only [ncmMaxDatagramsPerNtb] at hroom
    exact Nat.mod_eq_of_lt (by omega)
  have hstored : (storedDatagrams (txStoreDatagram i written size w).log).length =
      (storedDatagrams w.log).length + 1 := by
    simp [txStoreDatagram, storedDatagrams]
  refine ⟨h.shape.store hi written size, fun _ => ?_, ?_⟩
  · rw [hindex]
    exact hroom
  · have hcount := h.count
    rw [userRoom, if_neg hne] at hcount ⊢
    rw [hindex, hstored]
    omega

end TxRoom

/-! ### Runs -/

section Runs

variable {w : World}

lemma HasRoom.quiet {w w' : World} (h : HasRoom w) (hq : TxQuiet w w') : HasRoom w' := by
  rw [HasRoom, show w'.tx = w.tx from hq.same]
  exact h

lemma HasRoom.start {p : TxPhase} (hs : TxShape w p) (h : HasRoom w) (env : Env) :
    HasRoom (txTryStart env w).2 := by
  rcases txTryStart_cases env hs.state with ⟨-, hq, -⟩ | ⟨-, -, -, ok, -, htx, -⟩
  · exact h.quiet hq
  · intro hne
    obtain ⟨i, hi⟩ := Option.ne_none_iff_exists'.1 hne
    rw [htx] at hi ⊢
    refine h ?_
    rw [hs.user, TxPhase.user_start hi]
    exact Option.some_ne_none i

/-- The invariant of runs in which `net_can_tx` is asked first. -/
structure TxCounted (w : World) : Prop where
  room : ∃ p, TxRoom w p
  admitted : w.admitted ≠ none → HasRoom w

/-- A positive answer of `net_can_tx` means room for one datagram. -/
lemma hasRoom_of_admitted {p : TxPhase} (hs : TxShape w p) {env : Env} {size : UInt16}
    (h : (netCanTx env size w).1 = true) : HasRoom (netCanTx env size w).2 := by
  by_cases hfits : txDatagramFitsUserNtb size w = true
  · obtain ⟨-, -, hindex, -⟩ := user_of_fits hfits
    rw [netCanTx_of_fits env hfits]
    exact fun _ => hindex
  · by_cases haccept : (txAcceptUserNtb w).1 = true
    · obtain ⟨-, htx, -⟩ := txAcceptUserNtb_of_accepts hs.state (hs.accept_fst.symm.trans haccept)
      rw [netCanTx_of_accepts env hfits haccept]
      intro _
      rw [htx]
      exact Nat.succ_pos 7
    · rw [netCanTx_of_refuses env hfits haccept] at h
      cases h

/-- The step lemma for the count. -/
lemma TxCounted.room_step (h : TxCounted w) {input : Input} (hG : AsksFirst w input) :
    ∃ p, TxRoom (step w input) p := by
  obtain ⟨p, hroom⟩ := h.room
  apply step_rule (I := fun w => ∃ p, TxRoom w p) ⟨p, hroom⟩
  case quiet =>
    rintro w w' hq ⟨p, hroom⟩
    exact ⟨p, hroom.quiet hq⟩
  case complete =>
    intro bytes _
    exact ⟨p, hroom.record rfl rfl⟩
  case zlp =>
    rintro w bytes ok - ⟨p, hroom⟩
    exact ⟨p, hroom.record rfl rfl⟩
  case start =>
    rintro w env ⟨p, hroom⟩
    exact hroom.start env
  case accept =>
    intro size _ _
    exact ⟨p.accept, hroom.accept⟩
  case store =>
    intro i written size hinput hi
    have hlt := h.admitted (hG written size hinput) (by rw [hi]; exact Option.some_ne_none i)
    exact ⟨p, hroom.store (hroom.shape.user.symm.trans hi) written size.toNat hlt⟩

/-- The step lemma for the admission: it lasts until the next `net_can_tx` or `net_tx`, or until
the user NTB is handed to USB. -/
lemma TxCounted.admitted_step (h : TxCounted w) {input : Input}
    (ha : (step w input).admitted ≠ none) : HasRoom (step w input) := by
  obtain ⟨p, hroom⟩ := h.room
  obtain ⟨event, env⟩ := input
  -- a step that is neither of the two keeps what was admitted
  have hother : (∀ size, event ≠ .netCanTx size) → (∀ written size, event ≠ .netTx written size) →
      (step w (event, env)).admitted = w.admitted → HasRoom (step w (event, env)) := by
    intro hcan htx hadmitted
    rw [hadmitted] at ha
    have hrule : ∃ p, TxShape (step w (event, env)) p ∧ HasRoom (step w (event, env)) := by
      apply step_rule (I := fun w => ∃ p, TxShape w p ∧ HasRoom w) ⟨p, hroom.shape, h.admitted ha⟩
      case quiet =>
        rintro w w' hq ⟨p, hs, hr⟩
        exact ⟨p, hs.quiet hq, hr.quiet hq⟩
      case complete =>
        intro bytes _
        exact ⟨p, hroom.shape.record rfl, h.admitted ha⟩
      case zlp =>
        rintro w bytes ok - ⟨p, hs, hr⟩
        exact ⟨p, hs.record rfl, hr⟩
      case start =>
        rintro w env ⟨p, hs, hr⟩
        rcases hs.start env with hs' | hs'
        · exact ⟨p, hs', hr.start hs env⟩
        · exact ⟨p.start, hs', hr.start hs env⟩
      case accept =>
        intro size hinput _
        exact absurd hinput (hcan size)
      case store =>
        intro i written size hinput _
        exact absurd hinput (htx written size)
    obtain ⟨-, -, hr⟩ := hrule
    exact hr
  cases event with
  | netCanTx size =>
    have hcan : (netCanTx env size w).1 = true := by
      by_contra hcan
      exact ha (if_neg hcan)
    exact (hasRoom_of_admitted hroom.shape hcan).quiet (.of_log_eq rfl rfl)
  | netTx written size => exact absurd rfl ha
  | _ => exact hother nofun nofun rfl

lemma TxCounted.step (h : TxCounted w) {input : Input} (hG : AsksFirst w input) :
    TxCounted (Fx3Ncm.step w input) :=
  ⟨h.room_step hG, h.admitted_step⟩

lemma txCounted_init : TxCounted World.init := ⟨⟨.idle, .init⟩, fun ha => absurd rfl ha⟩

/-- No more than sixteen datagrams are ever stored, and one NTB is sent. -/
lemma TxCounted.le (h : TxCounted w) :
    (storedDatagrams w.log).length ≤ 2 * ncmMaxDatagramsPerNtb ∧ (sentNtbs w.log).length ≤ 1 := by
  obtain ⟨p, hroom⟩ := h.room
  have hcount := hroom.count
  have hopened := p.opened_le
  refine ⟨?_, ?_⟩
  · simp only [ncmMaxDatagramsPerNtb] at hcount ⊢
    omega
  · rcases p.usbd_cases with hu | hu
    · rw [hroom.shape.unsent hu]
      exact Nat.zero_le 1
    · obtain ⟨ok, hsent⟩ := hroom.shape.sent hu
      rw [hsent]
      exact le_rfl

end Runs

end Fx3Ncm
