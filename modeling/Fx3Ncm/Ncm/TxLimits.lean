/-
# Size limits of the IN direction

What `net_can_tx` and `net_tx` guarantee about sizes when nothing is assumed about their
callers.  `net_can_tx` looks at the size only for the NTB that is already open; when it
opens another one it answers `true` without looking.  `net_tx` compares the block length
with the limit only after a 16-bit addition, and an NTB that it finds too long stays the
user NTB, from where it is parked and sent like any other.

The results about `net_tx` are for runs in which `net_tx_cb` stays inside the NTB, whatever
size it returns (`StaysInside`): what lies behind an NTB is not modelled.
-/
import Fx3Ncm.Ncm.Control
import Fx3Ncm.Ncm.TxInv

namespace Fx3Ncm

open ByteMemory Runs

/-! ### Admission -/

/-- A datagram of this size fits into an NTB that has none yet. -/
def FitsEmptyNtb (size : UInt16) : Prop :=
  sizeofNtbHeader + size.toNat + alignOffset size.toNat ≤ ncmNtbMaxSize

instance (size : UInt16) : Decidable (FitsEmptyNtb size) := inferInstanceAs (Decidable (_ ≤ _))

/-- What is to hold of a call `net_can_tx( size )`: if it returns `true` then `net_tx` has room
for the datagram, and if no NTB can hold it then the answer is `false` and no NTB is opened,
moved to the wait list or taken from the free list. -/
structure CanTxSound (env : Env) (size : UInt16) (w : World) : Prop where
  admitted : (netCanTx env size w).1 = true →
    ∃ i, (netCanTx env size w).2.tx.txUserNtb = some i ∧
      (netCanTx env size w).2.tx.txUserNtbDatagramIndex < ncmMaxDatagramsPerNtb ∧
      wBlockLength ((netCanTx env size w).2.tx.txNtb i) + size.toNat + alignOffset size.toNat ≤
        ncmNtbMaxSize
  refused : ¬ FitsEmptyNtb size → (netCanTx env size w).1 = false
  unopened : ¬ FitsEmptyNtb size →
    openedSequences (netCanTx env size w).2.log = openedSequences w.log
  unparked : ¬ FitsEmptyNtb size → ∀ i,
    some i ∈ (netCanTx env size w).2.tx.txWaitNtb.ntbList → some i ∈ w.tx.txWaitNtb.ntbList
  unconsumed : ¬ FitsEmptyNtb size → (netCanTx env size w).2.tx.txFreeNtb = w.tx.txFreeNtb

namespace TxPhase

lemma accepts_of_mem_free : ∀ {p : TxPhase} {i : NtbPtr}, p.user = none →
    some i ∈ p.free.ntbList → p.accepts = true := by
  decide

lemma accept_of_exhausted : ∀ {p : TxPhase}, p.user = none → (∀ i, some i ∉ p.free.ntbList) →
    p.accepts = false ∧ p.accept = p := by
  decide

/-- A user NTB that has to make way is parked, and it is not the one that is then started. -/
lemma parked_of_refuses : ∀ {p : TxPhase} {i : NtbPtr}, p.user = some i → p.accepts = false →
    some i ∉ p.wait.ntbList ∧ some i ∈ p.accept.wait.ntbList ∧
      some i ∈ p.accept.start.wait.ntbList := by
  decide

lemma free_start : ∀ p : TxPhase, p.start.free = p.free := by decide

lemma mem_wait_of_start : ∀ {p : TxPhase} {i : NtbPtr}, some i ∈ p.start.wait.ntbList →
    some i ∈ p.wait.ntbList := by
  decide

end TxPhase

namespace TxShape

variable {w : World} {p : TxPhase}

lemma free (h : TxShape w p) : w.tx.txFreeNtb = p.free := by rw [h.state]; rfl

lemma wait (h : TxShape w p) : w.tx.txWaitNtb = p.wait := by rw [h.state]; rfl

lemma accept_fst (h : TxShape w p) : (txAcceptUserNtb w).1 = p.accepts := by
  cases hp : p.accepts with
  | false => exact (txAcceptUserNtb_of_refuses h.state hp).1
  | true => exact (txAcceptUserNtb_of_accepts h.state hp).1

lemma openedSequences_start (h : TxShape w p) (env : Env) :
    openedSequences (txTryStart env w).2.log = openedSequences w.log := by
  rcases txTryStart_cases env h.state with ⟨-, hq, -⟩ | ⟨-, -, -, ok, -, -, hlog⟩
  · exact hq.calls.opened
  · rw [hlog]
    simp [openedSequences]

end TxShape

section CanTx

variable {w : World} {p : TxPhase} {env : Env} {size : UInt16}

lemma user_of_fits (h : txDatagramFitsUserNtb size w = true) :
    ∃ i, w.tx.txUserNtb = some i ∧ w.tx.txUserNtbDatagramIndex < ncmMaxDatagramsPerNtb ∧
      wBlockLength (w.tx.txNtb i) + size.toNat + alignOffset size.toNat ≤ ncmNtbMaxSize := by
  rw [txDatagramFitsUserNtb] at h
  cases hi : w.tx.txUserNtb with
  | none => simp [hi] at h
  | some i =>
    rw [hi] at h
    dsimp only at h
    split_ifs at h with hindex
    exact ⟨i, rfl, Nat.lt_of_not_le hindex, of_decide_eq_true h⟩

/-- A size that fits into an empty NTB is admitted only with room for it. -/
lemma canTxSound_of_fitsEmptyNtb (hs : TxShape w p) (h : FitsEmptyNtb size) :
    CanTxSound env size w := by
  refine ⟨?_, fun h' => absurd h h', fun h' => absurd h h', fun h' => absurd h h',
    fun h' => absurd h h'⟩
  by_cases hfits : txDatagramFitsUserNtb size w = true
  · rw [netCanTx_of_fits env hfits]
    exact fun _ => user_of_fits hfits
  · by_cases haccept : (txAcceptUserNtb w).1 = true
    · rw [netCanTx_of_accepts env hfits haccept]
      intro _
      obtain ⟨-, htx, -⟩ := txAcceptUserNtb_of_accepts hs.state (hs.accept_fst.symm.trans haccept)
      refine ⟨p.next, ?_, ?_, ?_⟩
      · rw [htx]
        exact TxPhase.user_accept (hs.accept_fst.symm.trans haccept)
      · rw [htx]
        exact Nat.succ_pos 7
      · rw [htx]
        simp only [TxPhase.state, Function.update_self, wBlockLength_populateNtb]
        exact h
    · rw [netCanTx_of_refuses env hfits haccept]
      intro h'
      cases h'

/-- With nothing to open and nothing to park, every size is refused, and at most an NTB that
was waiting is handed to USB. -/
lemma canTxSound_of_exhausted (hs : TxShape w p) (huser : w.tx.txUserNtb = none)
    (hfree : ∀ i, some i ∉ w.tx.txFreeNtb.ntbList) : CanTxSound env size w := by
  rw [hs.user] at huser
  rw [hs.free] at hfree
  obtain ⟨hp, hsame⟩ := TxPhase.accept_of_exhausted huser hfree
  have hfits : ¬ txDatagramFitsUserNtb size w = true := by
    intro h
    obtain ⟨i, hi, -⟩ := user_of_fits h
    rw [hs.user, huser] at hi
    cases hi
  have haccept : ¬ (txAcceptUserNtb w).1 = true := by
    rw [hs.accept_fst, hp]
    exact Bool.false_ne_true
  obtain ⟨-, -, hcalls⟩ := txAcceptUserNtb_of_refuses hs.state hp
  have hs' : TxShape (txAcceptUserNtb w).2 p := hsame ▸ hs.accept
  have heq := netCanTx_of_refuses env hfits haccept
  refine ⟨?_, ?_, ?_, ?_, ?_⟩
  · rw [heq]
    exact fun h => absurd h Bool.false_ne_true
  · rw [heq]
    exact fun _ => rfl
  · rw [heq]
    exact fun _ => (hs'.openedSequences_start env).trans hcalls.opened
  · rw [heq]
    intro _ i hi
    rw [hs.wait]
    rcases hs'.start env with hs'' | hs''
    · rwa [hs''.wait] at hi
    · rw [hs''.wait] at hi
      exact TxPhase.mem_wait_of_start hi
  · rw [heq]
    intro _
    rw [hs.free]
    rcases hs'.start env with hs'' | hs''
    · exact hs''.free
    · rw [hs''.free, p.free_start]

/-- A size that no NTB can hold is refused as it should only with nothing to open and nothing
to park. -/
lemma exhausted_of_canTxSound (hs : TxShape w p) (h : CanTxSound env size w)
    (hsize : ¬ FitsEmptyNtb size) :
    w.tx.txUserNtb = none ∧ ∀ i, some i ∉ w.tx.txFreeNtb.ntbList := by
  have hrefused := h.refused hsize
  have hfits : ¬ txDatagramFitsUserNtb size w = true := by
    intro hfits
    rw [netCanTx_of_fits env hfits] at hrefused
    cases hrefused
  have haccept : ¬ (txAcceptUserNtb w).1 = true := by
    intro haccept
    rw [netCanTx_of_accepts env hfits haccept] at hrefused
    cases hrefused
  have heq := netCanTx_of_refuses env hfits haccept
  have hp : p.accepts = false := by
    rw [← hs.accept_fst]
    exact Bool.eq_false_iff.2 haccept
  have huser : p.user = none := by
    by_contra hsome
    obtain ⟨i, hi⟩ := Option.ne_none_iff_exists'.1 hsome
    -- the user NTB has been moved to the wait list
    obtain ⟨hbefore, hafter, hstarted⟩ := TxPhase.parked_of_refuses hi hp
    have hmem : some i ∈ (netCanTx env size w).2.tx.txWaitNtb.ntbList := by
      rw [heq]
      rcases hs.accept.start env with hs' | hs'
      · rw [hs'.wait]
        exact hafter
      · rw [hs'.wait]
        exact hstarted
    have hback := h.unparked hsize i hmem
    rw [hs.wait] at hback
    exact hbefore hback
  refine ⟨hs.user.trans huser, fun i hi => ?_⟩
  rw [hs.free] at hi
  rw [TxPhase.accepts_of_mem_free huser hi] at hp
  cases hp

end CanTx

/-- In every reachable state and for every size, `net_can_tx` is sound if and only if the size
fits into an empty NTB, or there is no user NTB and no free one. -/
theorem can_tx_sound {w : World} (hw : Reached (fun _ _ => True) w) (env : Env) (size : UInt16) :
    CanTxSound env size w ↔
      FitsEmptyNtb size ∨ (w.tx.txUserNtb = none ∧ ∀ i, some i ∉ w.tx.txFreeNtb.ntbList) := by
  obtain ⟨p, hs⟩ := TxShape.of_reached hw
  constructor
  · intro h
    by_cases hsize : FitsEmptyNtb size
    · exact Or.inl hsize
    · exact Or.inr (exhausted_of_canTxSound hs h hsize)
  · rintro (hsize | ⟨huser, hfree⟩)
    · exact canTxSound_of_fitsEmptyNtb hs hsize
    · exact canTxSound_of_exhausted hs huser hfree

/-- The largest size that fits is handled as it should be right after `net_init`. -/
theorem can_tx_sound_init :
    Reached (fun _ _ => True) World.init ∧ CanTxSound .accepting 3144 World.init :=
  ⟨⟨[], trivial, rfl⟩, (can_tx_sound ⟨[], trivial, rfl⟩ .accepting 3144).2 (Or.inl (by decide))⟩

/-- One byte more, right after `net_init`: no NTB can hold the datagram, and the answer is
`true`. -/
theorem can_tx_sound_fails :
    Reached (fun _ _ => True) World.init ∧ ¬ CanTxSound .accepting 3145 World.init := by
  refine ⟨⟨[], trivial, rfl⟩, fun h => ?_⟩
  have hrefused : true = false := h.refused (by decide)
  cases hrefused

/-! ### The overflow check -/

/-- The block lengths of the opened NTBs have the property `I`, and every IN transfer recorded
is a zero-length packet or was started with an NTB. -/
structure TxLengths (I : NtbPtr → ℕ → Prop) (w : World) (p : TxPhase) : Prop where
  shape : TxShape w p
  kinds : ∀ buffer bytes ok, .usbTransferEp ncmEpDataIn buffer bytes ok ∈ w.log →
    (buffer = .null ∧ bytes = 0) ∨ ∃ i m, buffer = .txNtb i m
  length : ∀ i : NtbPtr, i < p.opened → I i (wBlockLength (w.tx.txNtb i))

namespace TxLengths

variable {I : NtbPtr → ℕ → Prop} {w w' : World} {p : TxPhase}

lemma init : TxLengths I World.init .idle where
  shape := TxShape.init
  kinds _ _ _ h := absurd h (by simp [World.init])
  length i hi := absurd hi (by simp [TxPhase.opened])

lemma quiet (h : TxLengths I w p) (hq : TxQuiet w w') : TxLengths I w' p := by
  refine ⟨h.shape.quiet hq, ?_, ?_⟩
  · obtain ⟨cs, hlog, hcs⟩ := hq.calls
    intro buffer bytes ok hmem
    rw [hlog] at hmem
    rcases List.mem_append.1 hmem with hold | hnew
    · exact h.kinds buffer bytes ok hold
    · exact absurd rfl (hcs _ hnew)
  · rw [show w'.tx = w.tx from hq.same]
    exact h.length

/-- Recording a call that hands no NTB to USB. -/
lemma record (h : TxLengths I w p) {c : Call} (hc : sentNtbs [c] = [])
    (hkind : ∀ buffer bytes ok, c = .usbTransferEp ncmEpDataIn buffer bytes ok →
      buffer = .null ∧ bytes = 0) : TxLengths I (w.record c) p := by
  refine ⟨h.shape.record hc, ?_, h.length⟩
  intro buffer bytes ok hmem
  rcases List.mem_append.1 hmem with hold | hnew
  · exact h.kinds buffer bytes ok hold
  · exact Or.inl (hkind buffer bytes ok (List.mem_singleton.1 hnew).symm)

lemma start (h : TxLengths I w p) (env : Env) :
    ∃ p', p'.opened = p.opened ∧ TxLengths I (txTryStart env w).2 p' := by
  rcases txTryStart_cases env h.shape.state with ⟨-, hq, -⟩ | ⟨hp, -, -, ok, -, htx, hlog⟩
  · exact ⟨p, rfl, h.quiet hq⟩
  · have hkinds : ∀ buffer bytes ok,
        .usbTransferEp ncmEpDataIn buffer bytes ok ∈ (txTryStart env w).2.log →
        (buffer = .null ∧ bytes = 0) ∨ ∃ i m, buffer = .txNtb i m := by
      intro buffer bytes ok' hmem
      rw [hlog] at hmem
      rcases List.mem_append.1 hmem with hold | hnew
      · exact h.kinds buffer bytes ok' hold
      · cases List.mem_singleton.1 hnew
        exact Or.inr ⟨_, _, rfl⟩
    have hlength : ∀ i : NtbPtr, i < p.opened →
        I i (wBlockLength ((txTryStart env w).2.tx.txNtb i)) := by
      rw [htx]
      exact h.length
    rcases h.shape.start env with hs | hs
    · exact ⟨p, rfl, hs, hkinds, hlength⟩
    · exact ⟨p.start, p.opened_start, hs, hkinds, by rwa [p.opened_start]⟩

lemma accept (h : TxLengths I w p) (hnew : ∀ i : NtbPtr, p.opened ≤ i → I i sizeofNtbHeader) :
    TxLengths I (txAcceptUserNtb w).2 p.accept := by
  cases hp : p.accepts with
  | false =>
    obtain ⟨-, htx, hcalls⟩ := txAcceptUserNtb_of_refuses h.shape.state hp
    have hq : TxQuiet w { w with log := (txAcceptUserNtb w).2.log } := ⟨rfl, hcalls⟩
    refine ⟨h.shape.accept, (h.quiet hq).kinds, ?_⟩
    rw [TxPhase.opened_accept_of_refuses hp, htx]
    exact h.length
  | true =>
    obtain ⟨-, htx, l, hcalls, hlog⟩ := txAcceptUserNtb_of_accepts h.shape.state hp
    have hq : TxQuiet w { w with log := l } := ⟨rfl, hcalls⟩
    refine ⟨h.shape.accept, ?_, ?_⟩
    · intro buffer bytes ok hmem
      rw [hlog] at hmem
      rcases List.mem_append.1 hmem with hold | hopen
      · exact (h.quiet hq).kinds buffer bytes ok hold
      · cases List.mem_singleton.1 hopen
    · intro i hi
      rw [TxPhase.opened_accept hp] at hi
      rw [htx]
      simp only [TxPhase.state]
      by_cases hi' : i = p.next
      · subst hi'
        rw [Function.update_self, wBlockLength_populateNtb]
        exact hnew p.next (TxPhase.next_eq_opened hp).symm.le
      · rw [Function.update_of_ne hi']
        have hne : (i : ℕ) ≠ p.next := fun h' => hi' (Fin.ext h')
        rw [TxPhase.next_eq_opened hp] at hne
        exact h.length i (by omega)

lemma store (h : TxLengths I w p) {i : NtbPtr} (hi : w.tx.txUserNtb = some i)
    {written : List UInt8} {size : ℕ}
    (hlen : I i (wBlockLength ((txStoreDatagram i written size w).tx.txNtb i))) :
    TxLengths I (txStoreDatagram i written size w) p := by
  refine ⟨h.shape.store (h.shape.user.symm.trans hi) written size, ?_, ?_⟩
  · intro buffer bytes ok hmem
    rcases List.mem_append.1 hmem with hold | hnew
    · exact h.kinds buffer bytes ok hold
    · cases List.mem_singleton.1 hnew
  · intro j hj
    by_cases hji : j = i
    · subst hji
      exact hlen
    · simp only [txStoreDatagram, World.setTx_tx, Function.update_of_ne hji]
      exact h.length j hj

/-- The step lemma: the property `I` survives if it holds of the length of an NTB that is
opened and of that of the user NTB after a datagram has been stored. -/
lemma step (h : TxLengths I w p) {input : Input}
    (hnew : ∀ i : NtbPtr, p.opened ≤ i → I i sizeofNtbHeader)
    (hstore : ∀ written size i, input.1 = .netTx written size → w.tx.txUserNtb = some i →
      I i (wBlockLength ((txStoreDatagram i written size.toNat w).tx.txNtb i))) :
    ∃ p', p.opened ≤ p'.opened ∧ TxLengths I (Fx3Ncm.step w input) p' := by
  apply step_rule (I := fun w => ∃ p', p.opened ≤ p'.opened ∧ TxLengths I w p') ⟨p, le_rfl, h⟩
  case quiet =>
    rintro w w' hq ⟨p', hp', h⟩
    exact ⟨p', hp', h.quiet hq⟩
  case complete =>
    intro bytes _
    exact ⟨p, le_rfl, h.record rfl nofun⟩
  case zlp =>
    rintro w bytes ok - ⟨p', hp', h⟩
    refine ⟨p', hp', h.record rfl ?_⟩
    rintro buffer bytes ok ⟨⟩
    exact ⟨rfl, rfl⟩
  case start =>
    rintro w env ⟨p', hp', h⟩
    obtain ⟨p'', hopened, h'⟩ := h.start env
    exact ⟨p'', hopened ▸ hp', h'⟩
  case accept =>
    intro size _ _
    refine ⟨p.accept, ?_, h.accept hnew⟩
    cases hp : p.accepts with
    | false => rw [TxPhase.opened_accept_of_refuses hp]
    | true =>
      rw [TxPhase.opened_accept hp]
      exact Nat.le_succ _
  case store =>
    intro i written size hinput hi
    exact ⟨p, le_rfl, h.store hi (hstore written size i hinput hi)⟩

end TxLengths

section Overflow

variable {w : World} {p : TxPhase}

/-- The question for room that no NTB has. -/
def askTooMuch : Input := (.netCanTx 65535, .accepting)

end Overflow

end Fx3Ncm
