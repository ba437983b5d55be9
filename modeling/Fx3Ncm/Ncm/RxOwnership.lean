/-
# Ownership of the receive NTBs

The invariant of the OUT direction over all runs, and two results about who holds a receive
NTB.  Each receive NTB has exactly one holder as long as no OUT transfer is completed: the
completion puts the NTB into the wait list and leaves it in `rx_usbd_ntb` as well.  For the
same reason the OUT endpoint is never armed again after the first completion; and selecting
the interface does not arm it at all.
-/
import Fx3Ncm.Ncm.RxPhase

namespace Fx3Ncm

open ByteMemory Runs

/-! ### The invariant -/

/-- The holders of the OUT direction are those of phase `p`, and an OUT transfer can be pending
only for an NTB that has not been filled yet. -/
structure RxShape (w : World) (p : RxPhase) : Prop where
  state : w.rx = p.state w.rx.rxNtb w.rx.rxUserNtbDatagramIndex
  stable : p ≠ .waiting
  pending_le : pending ncmEpDataOut w.log ≤ if p = .armed then 1 else 0

lemma pendingOut_walkCalls (l : List Call) (i : NtbPtr) (m : Mem) (j : ℕ) (ok pushed : Bool) :
    pending ncmEpDataOut (l ++ walkCalls i m j ok pushed) = pending ncmEpDataOut l := by
  refine pending_append_of_step_eq fun c hc n => ?_
  rw [walkCalls, List.mem_append] at hc
  rcases hc with hc | hc
  · simp only [offerCalls, List.mem_cons, List.not_mem_nil, or_false] at hc
    rcases hc with rfl | rfl <;> rfl
  · split_ifs at hc
    · rw [List.mem_singleton] at hc
      subst hc
      rfl
    · simp only [List.mem_cons, List.not_mem_nil, or_false] at hc
      rcases hc with rfl | rfl <;> rfl
    · exact absurd hc List.not_mem_nil

namespace RxShape

variable {w w' : World} {p : RxPhase}

lemma usbd (h : RxShape w p) : w.rx.rxUsbdNtb = p.usbd := by rw [h.state]; rfl

lemma init : RxShape World.init .fresh := ⟨rfl, by decide, le_rfl⟩

/-- The same holders, and the same pending transfers. -/
lemma congr (h : RxShape w p) {ntb : NtbPtr → Mem} {index : ℕ} (hrx : w'.rx = p.state ntb index)
    (hpending : pending ncmEpDataOut w'.log = pending ncmEpDataOut w.log) : RxShape w' p := by
  refine ⟨by rw [hrx]; rfl, h.stable, ?_⟩
  rw [hpending]
  exact h.pending_le

lemma quiet (h : RxShape w p) (hq : RxQuiet w w') : RxShape w' p := by
  have hrx : w'.rx = w.rx := hq.same
  exact h.congr (hrx.trans h.state) hq.calls.pendingOut

/-- A completion of an IN transfer pushes `rx_usbd_ntb` to the free list, which refuses it. -/
lemma push (h : RxShape w p) : RxShape (pushRxFree w.rx.rxUsbdNtb w).2 p := by
  rw [pushRxFree_usbd h.state]
  exact h.congr h.state (pending_append_singleton _ _ _)

/-- `rx_update_user_ntb` leaves the holders as they are, unless an NTB waits. -/
lemma update (h : RxShape w p) (env : Env) : RxShape (rxUpdateUserNtb env w).2 p ∧
    pending ncmEpDataOut (rxUpdateUserNtb env w).2.log = pending ncmEpDataOut w.log ∧
    (rxUpdateUserNtb env w).2.interfaceActive = w.interfaceActive := by
  have hfetch := RxPhase.fetch_of_ne_waiting h.stable
  rcases p.user_cases with hu | hu
  · have heq := rxUpdateUserNtb_of_none env h.state (by rw [hfetch]; exact hu)
    rw [heq]
    exact ⟨h.congr rfl rfl, rfl, rfl⟩
  · obtain ⟨hrx, hlog, hactive⟩ :=
      rxUpdateUserNtb_of_some env h.state (by rw [hfetch]; exact hu) rfl
    rw [hfetch] at hrx
    have hpending : pending ncmEpDataOut (rxUpdateUserNtb env w).2.log =
        pending ncmEpDataOut w.log := by
      rw [hlog]
      exact pendingOut_walkCalls _ _ _ _ _ _
    exact ⟨h.congr hrx hpending, hpending, hactive⟩

/-- The completion of an OUT transfer up to the attempt to start the next one. -/
lemma dataOut (h : RxShape w p) (env : Env) (bytes : UInt16) :
    RxShape (rxUpdateUserNtb env (netDataOut bytes (recordCompletion ncmEpDataOut bytes w))).2
        p.complete.fetch ∧
      (rxUpdateUserNtb env (netDataOut bytes
        (recordCompletion ncmEpDataOut bytes w))).2.interfaceActive = w.interfaceActive := by
  set w₁ := recordCompletion ncmEpDataOut bytes w with hw₁
  have hrx₁ : w₁.rx = p.state w.rx.rxNtb w.rx.rxUserNtbDatagramIndex := h.state
  have hpending₁ : pending ncmEpDataOut w₁.log = pending ncmEpDataOut w.log - 1 := by
    have hlog : w₁.log = w.log ++ [.netUsbTransfer ncmEpDataOut bytes.toNat
      (w.rx.rxUsbdNtb.map w.rx.rxNtb)] := rfl
    rw [hlog, pending_append_singleton]
    rfl
  obtain ⟨ok, heq⟩ := netDataOut_eq bytes hrx₁ h.stable
  set w₂ := netDataOut bytes w₁ with hw₂
  have hrx₂ : w₂.rx = p.complete.state w.rx.rxNtb w.rx.rxUserNtbDatagramIndex := by rw [heq]; rfl
  -- at most one transfer was pending, and it has been completed
  have hpending₂ : pending ncmEpDataOut w₂.log = 0 := by
    have hle := h.pending_le
    have hlog : w₂.log = w₁.log ++ [.pushNtb .rxWait p.usbd ok] := by rw [heq]; rfl
    rw [hlog, pending_append_singleton]
    change pending ncmEpDataOut w₁.log = 0
    rw [hpending₁]
    split_ifs at hle <;> omega
  have hactive₂ : w₂.interfaceActive = w.interfaceActive := by rw [heq]; rfl
  have hof : ∀ {w' : World} {ntb : NtbPtr → Mem} {index : ℕ},
      w'.rx = p.complete.fetch.state ntb index → pending ncmEpDataOut w'.log = 0 →
      RxShape w' p.complete.fetch := by
    intro w' ntb index hrx hpending
    refine ⟨by rw [hrx]; rfl, RxPhase.fetch_ne_waiting _, ?_⟩
    rw [hpending]
    exact Nat.zero_le _
  rcases p.complete.fetch.user_cases with hu | hu
  · have hfetch := RxPhase.fetch_eq_of_user_none hu
    rw [rxUpdateUserNtb_of_none env hrx₂ hu]
    refine ⟨hof (by rw [hfetch]; rfl) hpending₂, hactive₂⟩
  · obtain ⟨hrx, hlog, hactive⟩ := rxUpdateUserNtb_of_some env hrx₂ hu rfl
    refine ⟨hof hrx ?_, hactive.trans hactive₂⟩
    rw [hlog, pendingOut_walkCalls]
    exact hpending₂

/-- `rx_try_start` either changes nothing or hands `rx_ntb[0]` to USB. -/
lemma start (h : RxShape w p) (env : Env) :
    ((rxTryStart env w).2 = w ∧ ¬ (p.usbd = none ∧ w.interfaceActive = 1 ∧
      env.usbEpBusy ncmEpDataOut = false)) ∨
    (p.usbd = none ∧ w.interfaceActive = 1 ∧ env.usbEpBusy ncmEpDataOut = false ∧
      RxShape (rxTryStart env w).2 p.start ∧
      (rxTryStart env w).2.interfaceActive = w.interfaceActive ∧
      pending ncmEpDataOut (rxTryStart env w).2.log =
        if env.usbTransferEp ncmEpDataOut (.rxNtb 0) ncmNtbMaxSize = true then 1 else 0) := by
  by_cases hcan : p.usbd = none ∧ w.interfaceActive = 1 ∧ env.usbEpBusy ncmEpDataOut = false
  · obtain ⟨hu, hactive, hbusy⟩ := hcan
    obtain ⟨hrx, hlog, hactive'⟩ := rxTryStart_of_free env h.state hu hactive hbusy
    have harmed := RxPhase.start_eq_armed hu
    -- a transfer is pending only while `rx_usbd_ntb` is set
    have hzero : pending ncmEpDataOut w.log = 0 := by
      have hle := h.pending_le
      rw [if_neg (by rintro rfl; cases hu)] at hle
      omega
    have hpending : pending ncmEpDataOut (rxTryStart env w).2.log =
        if env.usbTransferEp ncmEpDataOut (.rxNtb 0) ncmNtbMaxSize = true then 1 else 0 := by
      rw [hlog]
      cases env.usbTransferEp ncmEpDataOut (.rxNtb 0) ncmNtbMaxSize with
      | true =>
        rw [if_pos rfl, if_pos rfl, pending_append_singleton, hzero]
        rfl
      | false =>
        rw [if_neg (by simp), if_neg (by simp), List.append_cons, pending_append_singleton,
          pending_append_singleton, hzero]
        rfl
    refine Or.inr ⟨hu, hactive, hbusy, ⟨by rw [hrx]; rfl, ?_, ?_⟩, hactive', hpending⟩
    · rw [harmed]
      decide
    · rw [hpending, harmed, if_pos rfl]
      split_ifs
      · exact le_rfl
      · exact Nat.zero_le 1
  · refine Or.inl ⟨?_, hcan⟩
    have hb : w.rx.rxUsbdNtb ≠ none ∨ w.interfaceActive ≠ 1 ∨
        env.usbEpBusy ncmEpDataOut = true := by
      rw [h.usbd]
      by_contra hno
      push Not at hno
      exact hcan ⟨hno.1, hno.2.1, by simpa using hno.2.2⟩
    rw [rxTryStart_of_blocked env hb]

lemma write (h : RxShape w p) (block : Mem) : RxShape (usbWrite block w) p := by
  rw [usbWrite]
  split
  · exact h
  · rename_i i _
    have hrx : ∀ ntb, ({ w.rx with rxNtb := ntb } : RxState) =
        p.state ntb w.rx.rxUserNtbDatagramIndex := by
      intro ntb
      rw [h.state]
      rfl
    exact h.congr (hrx _) rfl

end RxShape

/-! ### The moves of a step -/

/-- The state in which a step calls `rx_update_user_ntb`, if it does. -/
def rxCall (w : World) (input : Input) : Option World :=
  match input.1 with
  | .netRxRenew | .rxUpdateUserNtb => some w
  | .netUsbTransfer ep bytes =>
    if ep = ncmEpDataOut then some (netDataOut bytes (recordCompletion ncmEpDataOut bytes w))
    else none
  | .netUsbControlTransfer request =>
    if request.type = usbTypeStandard ∧ request.bRequest = usbReqSetInterface ∧
      request.wValue.toNat % 2 ^ 8 ≠ 0
    then some { w with interfaceActive := request.wValue.toNat % 2 ^ 8 } else none
  | _ => none

/-- What a step can do to the OUT direction.  A property that survives each of these moves
survives the step. -/
lemma rx_step_rule {I : World → Prop} {w : World} {input : Input} (hw : I w)
    (quiet : ∀ {w w' : World}, RxQuiet w w' → I w → I w')
    (push : ∀ {w : World}, I w → I (pushRxFree w.rx.rxUsbdNtb w).2)
    (update : ∀ {v : World}, RxQuiet w v → rxCall w input = some v →
      I (rxUpdateUserNtb input.2 v).2)
    (start : ∀ {w : World}, I w → I (rxTryStart input.2 w).2)
    (dataOut : ∀ bytes, input.1 = .netUsbTransfer ncmEpDataOut bytes →
      I (rxUpdateUserNtb input.2 (netDataOut bytes (recordCompletion ncmEpDataOut bytes w))).2)
    (write : ∀ block, input.1 = .usbWrite block → I (usbWrite block w)) :
    I (step w input) := by
  have hrecord : ∀ {w : World} {c : Call}, c.NotRx → I w → I (w.record c) := by
    intro w c hc h
    have hq : RxQuiet w (w.record c) := .of_log_append rfl rfl hc
    exact quiet hq h
  have hq : RxQuiet (perform w input) (step w input) := .of_log_eq rfl rfl
  refine quiet hq ?_
  obtain ⟨event, env⟩ := input
  cases event with
  | netCanTx size => exact quiet (rxQuiet_netCanTx env w size) hw
  | netTx written size => exact quiet (rxQuiet_netTx env w written size) hw
  | netRxRenew => exact start (update (.refl w) rfl)
  | rxUpdateUserNtb => exact update (.refl w) rfl
  | netUsbTransfer ep bytes =>
    change I (netUsbTransfer env ep bytes w)
    rw [netUsbTransfer]
    split_ifs with hout hin hnotify
    · subst hout
      exact start (dataOut bytes rfl)
    · -- completions of IN transfers push `rx_usbd_ntb` to the free list
      subst hin
      have hpush := push (hrecord (c := .netUsbTransfer ncmEpDataIn bytes.toNat none) hout hw)
      rw [netDataIn_eq]
      split_ifs
      · exact quiet (rxQuiet_txTryStart env _) hpush
      · exact hrecord hout hpush
    · exact quiet (rxQuiet_txNotification env _ true) (hrecord hout hw)
    · exact hrecord hout hw
  | netUsbControlTransfer request =>
    change I (netUsbControlTransfer env request w).2
    rw [netUsbControlTransfer]
    split_ifs with htype hget hset
    · exact hrecord trivial hw
    · have hactive : RxQuiet w { w with interfaceActive := request.wValue.toNat % 2 ^ 8 } :=
        .of_log_eq rfl rfl
      refine hrecord trivial ?_
      split_ifs with hvalue
      · exact quiet (rxQuiet_txNotification env _ false)
          (update hactive (if_pos ⟨htype, hset, hvalue⟩))
      · exact quiet hactive hw
    · exact hw
    · exact hrecord trivial hw
    · exact hw
    · exact hw
  | usbWrite block => exact write block rfl

/-- The step lemma: the holders stay those of some phase. -/
lemma RxShape.step {w : World} {p : RxPhase} (h : RxShape w p) (input : Input) :
    ∃ p', RxShape (step w input) p' := by
  apply rx_step_rule (I := fun w => ∃ p, RxShape w p) ⟨p, h⟩
  case quiet =>
    rintro w w' hq ⟨p, h⟩
    exact ⟨p, h.quiet hq⟩
  case push =>
    rintro w ⟨p, h⟩
    exact ⟨p, h.push⟩
  case update =>
    intro v hq _
    exact ⟨p, ((h.quiet hq).update _).1⟩
  case start =>
    rintro w ⟨p, h⟩
    rcases h.start input.2 with ⟨heq, -⟩ | ⟨-, -, -, h', -⟩
    · rw [heq]
      exact ⟨p, h⟩
    · exact ⟨p.start, h'⟩
  case dataOut =>
    intro bytes _
    exact ⟨_, (h.dataOut _ bytes).1⟩
  case write =>
    intro block _
    exact ⟨p, h.write block⟩

/-- The run lemma. -/
lemma RxShape.of_reached {G : World → Input → Prop} {w : World} (hw : Reached G w) :
    ∃ p, RxShape w p := by
  refine hw.invariant (I := fun w => ∃ p, RxShape w p) ⟨.fresh, RxShape.init⟩ ?_
  rintro w input ⟨p, h⟩ -
  exact h.step input

/-! ### Ownership -/

/-- Each receive NTB is held by exactly one slot of the two lists, `rx_usbd_ntb` or
`rx_user_ntb`. -/
def RxOwned (w : World) : Prop :=
  ∀ i, (w.rx.rxFreeNtb.ntbList ++ w.rx.rxWaitNtb.ntbList ++
    [w.rx.rxUsbdNtb, w.rx.rxUserNtb]).count (some i) = 1

lemma RxShape.owned_iff {w : World} {p : RxPhase} (h : RxShape w p) :
    RxOwned w ↔ p = .fresh ∨ p = .armed := by
  rw [RxOwned, h.state]
  exact p.count_holders_iff

/-- As long as no OUT transfer is completed the holders are those of the first two phases. -/
lemma RxShape.step_of_not_dataOut {w : World} {p : RxPhase} (h : RxShape w p)
    (hp : p = .fresh ∨ p = .armed) {input : Input}
    (hinput : ∀ bytes, input.1 ≠ .netUsbTransfer ncmEpDataOut bytes) :
    ∃ p', RxShape (Fx3Ncm.step w input) p' ∧ (p' = .fresh ∨ p' = .armed) := by
  apply rx_step_rule (I := fun w => ∃ p, RxShape w p ∧ (p = .fresh ∨ p = .armed)) ⟨p, h, hp⟩
  case quiet =>
    rintro w w' hq ⟨p, h, hp⟩
    exact ⟨p, h.quiet hq, hp⟩
  case push =>
    rintro w ⟨p, h, hp⟩
    exact ⟨p, h.push, hp⟩
  case update =>
    intro v hq _
    exact ⟨p, ((h.quiet hq).update _).1, hp⟩
  case start =>
    rintro w ⟨p, h, hp⟩
    rcases h.start input.2 with ⟨heq, -⟩ | ⟨hu, -, -, h', -⟩
    · rw [heq]
      exact ⟨p, h, hp⟩
    · exact ⟨p.start, h', Or.inr (RxPhase.start_eq_armed hu)⟩
  case dataOut =>
    intro bytes hin
    exact absurd hin (hinput bytes)
  case write =>
    intro block _
    exact ⟨p, h.write block, hp⟩

/-- The completion of a pending OUT transfer leaves the NTB with two holders. -/
lemma RxShape.step_of_dataOut {w : World} {p : RxPhase} (h : RxShape w p) (env : Env)
    (bytes : UInt16) (hpos : 0 < pending ncmEpDataOut w.log) :
    RxShape (Fx3Ncm.step w (.netUsbTransfer ncmEpDataOut bytes, env)) .reading := by
  obtain rfl : p = .armed := by
    by_contra hne
    have hle := h.pending_le
    rw [if_neg hne] at hle
    omega
  have hout := (h.dataOut env bytes).1
  rw [RxPhase.complete_fetch_of_armed] at hout
  have hstep : Fx3Ncm.step w (.netUsbTransfer ncmEpDataOut bytes, env) =
      { (rxTryStart env (rxUpdateUserNtb env (netDataOut bytes
        (recordCompletion ncmEpDataOut bytes w))).2).2 with admitted := w.admitted } := rfl
  rcases hout.start env with ⟨heq, -⟩ | ⟨hu, -⟩
  · rw [hstep, heq]
    have hq : ∀ w' : World, RxQuiet w' { w' with admitted := w.admitted } :=
      fun _ => .of_log_eq rfl rfl
    exact hout.quiet (hq _)
  · cases hu

/-- Along every run in which OUT completions are reported only for transfers that were started,
each receive NTB has exactly one holder in every state if and only if no OUT transfer is
completed. -/
theorem rx_ownership {es : List Input}
    (hes : Along step (CompletesPending ncmEpDataOut) World.init es) :
    Always step RxOwned World.init es ↔
      ∀ e ∈ es, ∀ bytes, e.1 ≠ .netUsbTransfer ncmEpDataOut bytes := by
  have hiff : ∀ w input, (∃ p, RxShape w p ∧ (p = .fresh ∨ p = .armed)) →
      CompletesPending ncmEpDataOut w input →
      (RxOwned (step w input) ↔ ∀ bytes, input.1 ≠ .netUsbTransfer ncmEpDataOut bytes) := by
    rintro w input ⟨p, h, hp⟩ hG
    constructor
    · intro howned bytes hin
      obtain ⟨event, env⟩ := input
      obtain rfl : event = .netUsbTransfer ncmEpDataOut bytes := hin
      have h' := h.step_of_dataOut env bytes (hG bytes rfl)
      rcases h'.owned_iff.1 howned with hp' | hp' <;> cases hp'
    · intro hinput
      obtain ⟨p', h', hp'⟩ := h.step_of_not_dataOut hp hinput
      exact h'.owned_iff.2 hp'
  have hinit : ∃ p, RxShape World.init p ∧ (p = .fresh ∨ p = .armed) :=
    ⟨.fresh, RxShape.init, Or.inl rfl⟩
  have hinit_owned : RxOwned World.init := RxShape.init.owned_iff.2 (Or.inl rfl)
  have hmem : Along step (fun _ e => ∀ bytes, e.1 ≠ .netUsbTransfer ncmEpDataOut bytes)
      World.init es ↔ ∀ e ∈ es, ∀ bytes, e.1 ≠ .netUsbTransfer ncmEpDataOut bytes :=
    along_iff_forall_mem
  rw [always_iff_along, and_iff_right hinit_owned, ← hmem]
  refine along_iff_along (I := fun w => ∃ p, RxShape w p ∧ (p = .fresh ∨ p = .armed)) ?_ hiff
    hinit hes
  rintro w input ⟨p, h, hp⟩ hG hQ
  exact h.step_of_not_dataOut hp ((hiff w input ⟨p, h, hp⟩ hG).1 hQ)

/-- Reception is started. -/
def receptionStarted : List Input :=
  [(.netUsbControlTransfer (.setInterface 1), .accepting), (.netRxRenew, .accepting)]

/-- Before the first block is received every NTB has one holder. -/
theorem rx_ownership_receptionStarted : Always step RxOwned World.init receptionStarted := by
  have hes : Along step (CompletesPending ncmEpDataOut) World.init receptionStarted := by
    refine ⟨?_, ?_, trivial⟩ <;> rintro bytes ⟨⟩
  refine (rx_ownership hes).2 ?_
  simp [receptionStarted]

/-- Once a block has been received `rx_ntb[0]` is both in `rx_usbd_ntb` and in `rx_user_ntb`. -/
theorem rx_ownership_fails :
    Along step (CompletesPending ncmEpDataOut) World.init
        (receptionStarted ++ [(.netUsbTransfer ncmEpDataOut 64, .accepting)]) ∧
      ¬ Always step RxOwned World.init
        (receptionStarted ++ [(.netUsbTransfer ncmEpDataOut 64, .accepting)]) := by
  constructor
  · refine ⟨?_, ?_, ?_, trivial⟩
    · rintro bytes ⟨⟩
    · rintro bytes ⟨⟩
    · rintro bytes ⟨⟩
      exact Nat.one_pos
  · rintro ⟨-, -, -, h⟩
    have htwo : 2 = 1 := h 0
    cases htwo

/-! ### Reception -/

/-- No endpoint is busy and every OUT transfer is accepted. -/
def OutSucceeds (_ : World) (input : Input) : Prop :=
  (∀ ep, input.2.usbEpBusy ep = false) ∧
    ∀ buffer bytes, input.2.usbTransferEp ncmEpDataOut buffer bytes = true

/-- The alternate setting selected after a control request. -/
def activeAfter (w : World) (request : UsbControlRequest) : ℕ :=
  if request.type = usbTypeStandard ∧ request.bRequest = usbReqSetInterface then
    request.wValue.toNat % 2 ^ 8
  else w.interfaceActive

/-- An OUT transfer is pending, or there is no free receive NTB. -/
def Receives (w : World) : Prop :=
  0 < pending ncmEpDataOut w.log ∨ ∀ i, some i ∉ w.rx.rxFreeNtb.ntbList

/-- What is to hold after control requests, `net_rx_renew` and completions of OUT transfers. -/
def StaysArmed (w : World) (input : Input) : Prop :=
  (∃ request, input.1 = .netUsbControlTransfer request) ∨ input.1 = .netRxRenew ∨
      (∃ bytes, input.1 = .netUsbTransfer ncmEpDataOut bytes) →
    (step w input).interfaceActive = 1 → Receives (step w input)

/-- When it does hold: a control request that leaves the interface active finds an OUT transfer
pending; `net_rx_renew` finds one pending or nothing handed to USB yet; and a completion
finds nothing handed to USB yet. -/
structure ArmedBefore (w : World) (input : Input) : Prop where
  control : ∀ request, input.1 = .netUsbControlTransfer request → activeAfter w request = 1 →
    0 < pending ncmEpDataOut w.log
  renew : input.1 = .netRxRenew → w.interfaceActive = 1 →
    0 < pending ncmEpDataOut w.log ∨ w.rx.rxUsbdNtb = none
  dataOut : ∀ bytes, input.1 = .netUsbTransfer ncmEpDataOut bytes → w.interfaceActive = 1 →
    w.rx.rxUsbdNtb = none

/-- The invariant of runs in which OUT transfers are accepted: an armed endpoint has a pending
transfer. -/
structure RxArmed (w : World) (p : RxPhase) : Prop extends RxShape w p where
  pending_of_armed : p = .armed → pending ncmEpDataOut w.log = 1

namespace RxArmed

variable {w w' : World} {p : RxPhase}

lemma init : RxArmed World.init .fresh := ⟨RxShape.init, fun h => by cases h⟩

lemma pending_pos_iff (h : RxArmed w p) : 0 < pending ncmEpDataOut w.log ↔ p = .armed := by
  constructor
  · intro hpos
    by_contra hne
    have hle := h.pending_le
    rw [if_neg hne] at hle
    omega
  · intro hp
    rw [h.pending_of_armed hp]
    exact Nat.one_pos

lemma receives_iff (h : RxArmed w p) : Receives w ↔ p = .armed := by
  rw [Receives, h.pending_pos_iff, or_iff_left]
  intro hno
  refine hno 1 ?_
  rw [h.state]
  exact p.one_mem_free

lemma usbd_eq_none_iff (h : RxArmed w p) : w.rx.rxUsbdNtb = none ↔ p = .fresh := by
  rw [h.usbd]
  exact p.usbd_eq_none_iff

lemma quiet (h : RxArmed w p) (hq : RxQuiet w w') : RxArmed w' p := by
  refine ⟨h.toRxShape.quiet hq, ?_⟩
  rw [hq.calls.pendingOut]
  exact h.pending_of_armed

lemma update (h : RxArmed w p) (env : Env) : RxArmed (rxUpdateUserNtb env w).2 p ∧
    (rxUpdateUserNtb env w).2.interfaceActive = w.interfaceActive := by
  obtain ⟨hs, hpending, hactive⟩ := h.toRxShape.update env
  refine ⟨⟨hs, ?_⟩, hactive⟩
  rw [hpending]
  exact h.pending_of_armed

lemma dataOut (h : RxArmed w p) (env : Env) (bytes : UInt16) :
    RxArmed (rxUpdateUserNtb env (netDataOut bytes (recordCompletion ncmEpDataOut bytes w))).2
        p.complete.fetch ∧
      (rxUpdateUserNtb env (netDataOut bytes
        (recordCompletion ncmEpDataOut bytes w))).2.interfaceActive = w.interfaceActive := by
  obtain ⟨hs, hactive⟩ := h.toRxShape.dataOut env bytes
  exact ⟨⟨hs, fun hp => absurd hp (RxPhase.complete_fetch_ne_armed p)⟩, hactive⟩

/-- With a successful `usb_transfer_ep`, `rx_try_start` arms the endpoint if it can. -/
lemma start (h : RxArmed w p) {env : Env} (hbusy : ∀ ep, env.usbEpBusy ep = false)
    (hok : ∀ buffer bytes, env.usbTransferEp ncmEpDataOut buffer bytes = true) :
    RxArmed (rxTryStart env w).2 (if w.interfaceActive = 1 then p.start else p) ∧
      (rxTryStart env w).2.interfaceActive = w.interfaceActive := by
  rcases h.toRxShape.start env with ⟨heq, hno⟩ | ⟨hu, hactive, -, hs, hactive', hpending⟩
  · rw [heq]
    refine ⟨?_, rfl⟩
    by_cases hactive : w.interfaceActive = 1
    · have hu : p.usbd ≠ none := fun hu => hno ⟨hu, hactive, hbusy _⟩
      rw [if_pos hactive, RxPhase.start_of_usbd hu]
      exact h
    · rw [if_neg hactive]
      exact h
  · rw [if_pos hactive]
    rw [if_pos (hok _ _)] at hpending
    exact ⟨⟨hs, fun _ => hpending⟩, hactive'⟩

/-- The step lemma. -/
lemma step (h : RxArmed w p) {input : Input} (hG : OutSucceeds w input) :
    ∃ p', RxArmed (Fx3Ncm.step w input) p' := by
  apply rx_step_rule (I := fun w => ∃ p, RxArmed w p) ⟨p, h⟩
  case quiet =>
    rintro w w' hq ⟨p, h⟩
    exact ⟨p, h.quiet hq⟩
  case push =>
    rintro w ⟨p, h⟩
    refine ⟨p, h.toRxShape.push, ?_⟩
    have hlog : (pushRxFree w.rx.rxUsbdNtb w).2.log = w.log ++ [.pushNtb .rxFree w.rx.rxUsbdNtb
      (pushNtb w.rx.rxFreeNtb w.rx.rxUsbdNtb).1] := rfl
    rw [hlog, pending_append_singleton]
    exact h.pending_of_armed
  case update =>
    intro v hq _
    exact ⟨p, ((h.quiet hq).update _).1⟩
  case start =>
    rintro w ⟨p, h⟩
    exact ⟨_, (h.start hG.1 hG.2).1⟩
  case dataOut =>
    intro bytes _
    exact ⟨_, (h.dataOut _ bytes).1⟩
  case write =>
    intro block _
    refine ⟨p, h.toRxShape.write block, ?_⟩
    have hlog : (usbWrite block w).log = w.log := by
      rw [usbWrite]
      split <;> rfl
    rw [hlog]
    exact h.pending_of_armed

/-- A control request leaves the holders as they are. -/
lemma control (h : RxArmed w p) (env : Env) (request : UsbControlRequest) :
    RxArmed (netUsbControlTransfer env request w).2 p ∧
      (netUsbControlTransfer env request w).2.interfaceActive = activeAfter w request := by
  have hrecord : ∀ {w : World} {c : Call}, c.NotRx → RxArmed w p → RxArmed (w.record c) p := by
    intro w c hc h
    exact h.quiet (.of_log_append rfl rfl hc)
  have hnotify : ∀ w : World, (txNotification env false w).interfaceActive = w.interfaceActive := by
    intro w
    rw [txNotification]
    split_ifs <;> rfl
  rw [netUsbControlTransfer]
  by_cases htype : request.type = usbTypeStandard
  · rw [if_pos htype]
    split_ifs with hget hset
    · refine ⟨hrecord trivial h, ?_⟩
      rw [activeAfter, if_neg]
      · rfl
      · rintro ⟨-, hset⟩
        exact absurd (hget.symm.trans hset) (by decide)
    · rw [activeAfter, if_pos ⟨htype, hset⟩, setInterface]
      have hactive : RxArmed { w with interfaceActive := request.wValue.toNat % 2 ^ 8 } p :=
        h.quiet (.of_log_eq rfl rfl)
      obtain ⟨hupdate, hsame⟩ := hactive.update env
      split_ifs
      · refine ⟨hrecord trivial (hupdate.quiet (rxQuiet_txNotification env _ false)), ?_⟩
        exact (hnotify _).trans hsame
      · exact ⟨hrecord trivial hactive, rfl⟩
    · rw [activeAfter, if_neg fun h' => hset h'.2]
      exact ⟨h, rfl⟩
  · have hafter : activeAfter w request = w.interfaceActive := if_neg fun h' => htype h'.1
    rw [if_neg htype, hafter]
    split_ifs
    · exact ⟨hrecord trivial h, rfl⟩
    · exact ⟨h, rfl⟩
    · exact ⟨h, rfl⟩

lemma setAdmitted (h : RxArmed w p) (size : Option UInt16) :
    RxArmed { w with admitted := size } p := by
  have hq : RxQuiet w { w with admitted := size } := .of_log_eq rfl rfl
  exact h.quiet hq

/-! The three entry points after which reception is to be armed. -/

lemma staysArmed_control_iff (h : RxArmed w p) (request : UsbControlRequest) (env : Env) :
    StaysArmed w (.netUsbControlTransfer request, env) ↔
      ArmedBefore w (.netUsbControlTransfer request, env) := by
  obtain ⟨h', hactive⟩ := h.control env request
  have hiff : Receives (Fx3Ncm.step w (.netUsbControlTransfer request, env)) ↔
      0 < pending ncmEpDataOut w.log :=
    (h'.setAdmitted w.admitted).receives_iff.trans h.pending_pos_iff.symm
  constructor
  · intro hQ
    refine ⟨?_, nofun, nofun⟩
    rintro _ ⟨⟩ hone
    exact hiff.1 (hQ (Or.inl ⟨request, rfl⟩) (hactive.trans hone))
  · intro hC _ hone
    exact hiff.2 (hC.control request rfl (hactive.symm.trans hone))

lemma staysArmed_renew_iff (h : RxArmed w p) {env : Env} (hG : OutSucceeds w (.netRxRenew, env)) :
    StaysArmed w (.netRxRenew, env) ↔ ArmedBefore w (.netRxRenew, env) := by
  obtain ⟨hupdate, hsame⟩ := h.update env
  obtain ⟨h', hactive⟩ := hupdate.start hG.1 hG.2
  rw [hsame] at h' hactive
  have hstep := h'.setAdmitted w.admitted
  constructor
  · intro hQ
    refine ⟨nofun, ?_, nofun⟩
    intro _ hone
    have hrec := hstep.receives_iff.1 (hQ (Or.inr (Or.inl rfl)) (hactive.trans hone))
    rw [if_pos hone] at hrec
    rw [h.pending_pos_iff, h.usbd_eq_none_iff]
    exact RxPhase.start_eq_armed_iff.1 hrec
  · intro hC _ hone
    have hone' : w.interfaceActive = 1 := hactive.symm.trans hone
    refine hstep.receives_iff.2 ?_
    rw [if_pos hone', RxPhase.start_eq_armed_iff]
    have hbefore := hC.renew rfl hone'
    rwa [h.pending_pos_iff, h.usbd_eq_none_iff] at hbefore

lemma staysArmed_dataOut_iff (h : RxArmed w p) {bytes : UInt16} {env : Env}
    (hG : OutSucceeds w (.netUsbTransfer ncmEpDataOut bytes, env)) :
    StaysArmed w (.netUsbTransfer ncmEpDataOut bytes, env) ↔
      ArmedBefore w (.netUsbTransfer ncmEpDataOut bytes, env) := by
  obtain ⟨hout, hsame⟩ := h.dataOut env bytes
  obtain ⟨h', hactive⟩ := hout.start hG.1 hG.2
  rw [hsame] at h' hactive
  have hstep := h'.setAdmitted w.admitted
  constructor
  · intro hQ
    refine ⟨nofun, nofun, ?_⟩
    rintro _ ⟨⟩ hone
    have hrec := hstep.receives_iff.1 (hQ (Or.inr (Or.inr ⟨bytes, rfl⟩)) (hactive.trans hone))
    rw [if_pos hone] at hrec
    rw [h.usbd_eq_none_iff]
    exact (RxPhase.complete_fetch_start_eq_armed_iff h.stable).1 hrec
  · intro hC _ hone
    have hone' : w.interfaceActive = 1 := hactive.symm.trans hone
    refine hstep.receives_iff.2 ?_
    rw [if_pos hone', RxPhase.complete_fetch_start_eq_armed_iff h.stable, ← h.usbd_eq_none_iff]
    exact hC.dataOut bytes rfl hone'

lemma staysArmed_iff (h : RxArmed w p) {input : Input} (hG : OutSucceeds w input) :
    StaysArmed w input ↔ ArmedBefore w input := by
  obtain ⟨event, env⟩ := input
  cases event with
  | netUsbControlTransfer request => exact h.staysArmed_control_iff request env
  | netRxRenew => exact h.staysArmed_renew_iff hG
  | netUsbTransfer ep bytes =>
    by_cases hep : ep = ncmEpDataOut
    · subst hep
      exact h.staysArmed_dataOut_iff hG
    · -- completions on the other endpoints promise nothing
      constructor
      · intro _
        refine ⟨nofun, nofun, ?_⟩
        rintro bytes' hin
        cases hin
        exact absurd rfl hep
      · rintro - (⟨_, hin⟩ | hin | ⟨bytes', hin⟩)
        · cases hin
        · cases hin
        · cases hin
          exact absurd rfl hep
  | _ =>
    constructor
    · intro _
      exact ⟨nofun, nofun, nofun⟩
    · rintro - (⟨_, hin⟩ | hin | ⟨_, hin⟩) <;> cases hin

end RxArmed

/-- Along every run in which no endpoint is busy and OUT transfers are accepted, reception is
armed after a control request, a `net_rx_renew` or the completion of an OUT transfer if and
only if it was armed before, or could be armed by `rx_try_start`. -/
theorem rx_stays_armed {es : List Input} (hes : Along step OutSucceeds World.init es) :
    Along step (fun w input => StaysArmed w input ↔ ArmedBefore w input) World.init es := by
  refine Along.of_invariant (I := fun w => ∃ p, RxArmed w p) ?_ ?_ ⟨.fresh, RxArmed.init⟩ hes
  · rintro w input ⟨p, h⟩ hG
    exact h.step hG
  · rintro w input ⟨p, h⟩ hG
    exact h.staysArmed_iff hG

/-- A `net_rx_renew` after the interface has been selected arms reception. -/
theorem rx_stays_armed_receptionStarted :
    StaysArmed (step World.init (.netUsbControlTransfer (.setInterface 1), .accepting))
      (.netRxRenew, .accepting) := by
  have hes : Along step OutSucceeds World.init receptionStarted :=
    ⟨⟨fun _ => rfl, fun _ _ => rfl⟩, ⟨fun _ => rfl, fun _ _ => rfl⟩, trivial⟩
  obtain ⟨-, hrenew, -⟩ := rx_stays_armed hes
  exact hrenew.2 ⟨nofun, fun _ _ => Or.inr rfl, nofun⟩

/-- Selecting the interface does not arm reception, and a completion does not arm it again. -/
theorem rx_stays_armed_fails :
    Along step OutSucceeds World.init
        (receptionStarted ++ [(.netUsbTransfer ncmEpDataOut 64, .accepting)]) ∧
      ¬ StaysArmed World.init (.netUsbControlTransfer (.setInterface 1), .accepting) ∧
      ¬ StaysArmed (run step World.init receptionStarted)
        (.netUsbTransfer ncmEpDataOut 64, .accepting) := by
  refine ⟨⟨?_, ?_, ?_, trivial⟩, ?_, ?_⟩
  · exact ⟨fun _ => rfl, fun _ _ => rfl⟩
  · exact ⟨fun _ => rfl, fun _ _ => rfl⟩
  · exact ⟨fun _ => rfl, fun _ _ => rfl⟩
  · intro h
    rcases h (Or.inl ⟨_, rfl⟩) rfl with hpending | hfree
    · exact absurd (show 0 < 0 from hpending) (by decide)
    · exact hfree 0 (List.mem_cons_self)
  · intro h
    rcases h (Or.inr (Or.inr ⟨_, rfl⟩)) rfl with hpending | hfree
    · exact absurd (show 0 < 0 from hpending) (by decide)
    · exact hfree 1 (List.mem_cons_of_mem _ List.mem_cons_self)

end Fx3Ncm
