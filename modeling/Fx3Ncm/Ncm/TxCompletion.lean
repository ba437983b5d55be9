/-
# Completions of IN transfers

What a completion on the IN endpoint does to the transmit side.  While `tx_usbd_ntb` is set,
a completion changes nothing on the transmit side but may start a zero-length packet.  Two
results follow.  An admission by `net_can_tx` survives everything that other contexts can do
before the matching `net_tx`.  And an NTB whose transfer has been completed is never given
back: the transmit side keeps its promises only as long as no transfer comes to its end.
-/
import Fx3Ncm.Ncm.TxStream

namespace Fx3Ncm

open ByteMemory Runs

/-- A completion that reports `bytes` bytes starts a zero-length packet. -/
def StartsZlp (env : Env) (bytes : UInt16) : Prop :=
  bytes.toNat ≠ 0 ∧ bytes.toNat % ncmEpSize = 0 ∧ env.usbTransferEp ncmEpDataIn .null 0 = true

instance (env : Env) (bytes : UInt16) : Decidable (StartsZlp env bytes) :=
  inferInstanceAs (Decidable (_ ∧ _ ∧ _))

section Completion

variable {w : World} {p : TxPhase}

/-- A completion while `tx_usbd_ntb` is set. -/
lemma dataIn_of_usbd {i : NtbPtr} (h : w.tx.txUsbdNtb = some i) (env : Env) (bytes : UInt16) :
    (step w (.netUsbTransfer ncmEpDataIn bytes, env)).tx = w.tx ∧
      sentNtbs (step w (.netUsbTransfer ncmEpDataIn bytes, env)).log = sentNtbs w.log ∧
      pending ncmEpDataIn (step w (.netUsbTransfer ncmEpDataIn bytes, env)).log =
        pending ncmEpDataIn w.log - 1 + if StartsZlp env bytes then 1 else 0 := by
  set w₁ := (pushRxFree w.rx.rxUsbdNtb (recordCompletion ncmEpDataIn bytes w)).2 with hw₁
  have htx : w₁.tx = w.tx := rfl
  have hlog : w₁.log = w.log ++ [.netUsbTransfer ncmEpDataIn bytes.toNat none] ++
      [.pushNtb .rxFree w.rx.rxUsbdNtb (pushNtb w.rx.rxFreeNtb w.rx.rxUsbdNtb).1] := rfl
  have hsent : sentNtbs w₁.log = sentNtbs w.log := by
    rw [hlog, sentNtbs_record rfl, sentNtbs_record rfl]
  have hpending : pending ncmEpDataIn w₁.log = pending ncmEpDataIn w.log - 1 := by
    rw [hlog, pending_append_singleton, pending_append_singleton]
    simp [pendingStep]
  have hstep : step w (.netUsbTransfer ncmEpDataIn bytes, env) =
      { netDataIn env bytes (recordCompletion ncmEpDataIn bytes w) with
        admitted := w.admitted } := rfl
  -- `tx_usbd_ntb` has not been cleared, so that no other NTB can be started
  have hstart : txTryStart env w₁ = (false, w₁) := by
    rw [txTryStart, if_pos (by rw [htx, h]; rfl)]
  have hin : netDataIn env bytes (recordCompletion ncmEpDataIn bytes w) =
      if bytes.toNat = 0 ∨ bytes.toNat % ncmEpSize ≠ 0 then (txTryStart env w₁).2
      else w₁.record (.usbTransferEp ncmEpDataIn .null 0 (env.usbTransferEp ncmEpDataIn .null 0)) :=
    netDataIn_eq env bytes _
  rw [hstep, hin]
  by_cases hz : bytes.toNat = 0 ∨ bytes.toNat % ncmEpSize ≠ 0
  · have hno : ¬ StartsZlp env bytes := by
      rintro ⟨h₁, h₂, -⟩
      rcases hz with hz | hz
      · exact h₁ hz
      · exact hz h₂
    rw [if_pos hz, hstart, if_neg hno]
    exact ⟨htx, hsent, hpending⟩
  · rw [if_neg hz]
    obtain ⟨hz₁, hz₂⟩ := not_or.1 hz
    refine ⟨htx, ?_, ?_⟩
    · rw [← hsent]
      exact sentNtbs_record rfl w₁.log
    · change pending ncmEpDataIn (w₁.log ++ [_]) = _
      rw [pending_append_singleton, hpending, pendingStep]
      by_cases hok : env.usbTransferEp ncmEpDataIn .null 0 = true
      · rw [if_pos ⟨rfl, hok⟩, if_pos ⟨hz₁, not_not.1 hz₂, hok⟩]
      · rw [if_neg fun h' => hok h'.2, if_neg fun h' => hok h'.2.2, Nat.add_zero]

/-- As long as `tx_usbd_ntb` is `NULL` no IN transfer is pending. -/
def IdleWithoutUsbd (w : World) : Prop :=
  w.tx.txUsbdNtb = none → pending ncmEpDataIn w.log = 0

lemma exists_usbd_of_pending (h : IdleWithoutUsbd w) (hp : 0 < pending ncmEpDataIn w.log) :
    ∃ i, w.tx.txUsbdNtb = some i := by
  cases hu : w.tx.txUsbdNtb with
  | none => exact absurd (h hu) (by omega)
  | some i => exact ⟨i, rfl⟩

lemma pendingIn_accept (hs : TxShape w p) :
    pending ncmEpDataIn (txAcceptUserNtb w).2.log = pending ncmEpDataIn w.log := by
  cases hp : p.accepts with
  | false =>
    obtain ⟨-, -, hlog⟩ := txAcceptUserNtb_of_refuses hs.state hp
    exact hlog.pendingIn
  | true =>
    obtain ⟨-, -, l, hl, hlog⟩ := txAcceptUserNtb_of_accepts hs.state hp
    rw [hlog, pending_append_singleton, ← hl.pendingIn]
    rfl

lemma pendingIn_store (i : NtbPtr) (written : List UInt8) (size : ℕ) :
    pending ncmEpDataIn (txStoreDatagram i written size w).log = pending ncmEpDataIn w.log :=
  pending_append_singleton _ _ _

/-- The step lemma. -/
lemma IdleWithoutUsbd.step (h : IdleWithoutUsbd w) (hs : TxShape w p) {input : Input}
    (hG : CompletesPending ncmEpDataIn w input) : IdleWithoutUsbd (step w input) := by
  -- a zero-length packet is started only on a completion, and then `tx_usbd_ntb` is set
  have hrule : ∃ p', TxShape (Fx3Ncm.step w input) p' ∧ (p'.usbd = none →
      pending ncmEpDataIn (Fx3Ncm.step w input).log = 0 ∧
      ∀ bytes, input.1 ≠ .netUsbTransfer ncmEpDataIn bytes) := by
    have hnone : p.usbd = none → pending ncmEpDataIn w.log = 0 ∧
        ∀ bytes, input.1 ≠ .netUsbTransfer ncmEpDataIn bytes := by
      intro hu
      have hidle := h (hs.usbd.trans hu)
      refine ⟨hidle, fun bytes hinput => ?_⟩
      have hpos := hG bytes hinput
      omega
    apply step_rule (I := fun w => ∃ p, TxShape w p ∧ (p.usbd = none →
      pending ncmEpDataIn w.log = 0 ∧ ∀ bytes, input.1 ≠ .netUsbTransfer ncmEpDataIn bytes))
      ⟨p, hs, hnone⟩
    case quiet =>
      rintro w w' hq ⟨p, hs, hn⟩
      refine ⟨p, hs.quiet hq, ?_⟩
      rw [hq.calls.pendingIn]
      exact hn
    case complete =>
      intro bytes hinput
      refine ⟨p, hs.record rfl, fun hu => ?_⟩
      exact absurd hinput ((hnone hu).2 bytes)
    case zlp =>
      rintro w bytes ok hinput ⟨p, hs, hn⟩
      refine ⟨p, hs.record rfl, fun hu => ?_⟩
      exact absurd hinput ((hn hu).2 bytes)
    case start =>
      rintro w env ⟨p, hs, hn⟩
      rcases txTryStart_cases env hs.state with ⟨-, hq, -⟩ | ⟨hstart, -, -, ok, -, htx, -⟩
      · refine ⟨p, hs.quiet hq, ?_⟩
        rw [hq.calls.pendingIn]
        exact hn
      · have hu := TxPhase.usbd_start hstart
        rcases hs.start env with hs' | hs'
        · have h' := hs'.usbd
          rw [htx] at h'
          exact ⟨p, hs', fun hu' => absurd (hu.symm.trans (h'.trans hu')) (by simp)⟩
        · exact ⟨p.start, hs', fun hu' => absurd (hu.symm.trans hu') (by simp)⟩
    case accept =>
      intro size _ _
      refine ⟨p.accept, hs.accept, ?_⟩
      rw [p.usbd_accept, pendingIn_accept hs]
      exact hnone
    case store =>
      intro i written size _ hi
      refine ⟨p, hs.store (hs.user.symm.trans hi) written size.toNat, ?_⟩
      rw [pendingIn_store]
      exact hnone
  obtain ⟨p', hs', hn⟩ := hrule
  exact fun hu => (hn (hs'.usbd.symm.trans hu)).1

/-- Other contexts do not change the transmit side. -/
lemma tx_step_of_other (h : IdleWithoutUsbd w) {input : Input}
    (hG : CompletesPending ncmEpDataIn w input) (hcan : ∀ size, input.1 ≠ .netCanTx size)
    (htx : ∀ written size, input.1 ≠ .netTx written size) : (step w input).tx = w.tx := by
  by_cases htouch : input.1.TouchesTx
  · obtain ⟨event, env⟩ := input
    cases event with
    | netCanTx size => exact absurd rfl (hcan size)
    | netTx written size => exact absurd rfl (htx written size)
    | netUsbTransfer ep bytes =>
      obtain rfl : ep = ncmEpDataIn := htouch
      obtain ⟨i, hi⟩ := exists_usbd_of_pending h (hG bytes rfl)
      exact (dataIn_of_usbd hi env bytes).1
    | _ => exact absurd htouch id
  · exact (txQuiet_step w htouch).same

end Completion

/-! ### Admissions -/

section Admission

variable {w : World} {p : TxPhase}

/-- After a successful `net_can_tx` there is a user NTB. -/
lemma exists_user_of_netCanTx (hs : TxShape w p) {env : Env} {size : UInt16}
    (h : (netCanTx env size w).1 = true) : ∃ i, (netCanTx env size w).2.tx.txUserNtb = some i := by
  by_cases hfits : txDatagramFitsUserNtb size w = true
  · rw [netCanTx_of_fits env hfits]
    rw [txDatagramFitsUserNtb] at hfits
    cases hi : w.tx.txUserNtb with
    | none => simp [hi] at hfits
    | some i => exact ⟨i, rfl⟩
  · by_cases haccept : (txAcceptUserNtb w).1 = true
    · rw [netCanTx_of_accepts env hfits haccept]
      cases hp : p.accepts with
      | false =>
        have h' := (txAcceptUserNtb_of_refuses hs.state hp).1
        exact absurd (h'.symm.trans haccept) (by decide)
      | true =>
        obtain ⟨-, htx, -⟩ := txAcceptUserNtb_of_accepts hs.state hp
        refine ⟨p.next, ?_⟩
        rw [htx]
        exact TxPhase.user_accept hp
    · rw [netCanTx_of_refuses env hfits haccept] at h
      exact absurd h (by simp)

/-- `net_tx` stores the datagram in the user NTB, whether or not the NTB is then handed to USB. -/
lemma netTx_stores (hs : TxShape w p) {i : NtbPtr} (hi : w.tx.txUserNtb = some i) (env : Env)
    (written : List UInt8) (size : UInt16) :
    (netTx env written size w).tx.txNtb i =
        appendDatagram (w.tx.txNtb i) w.tx.txUserNtbDatagramIndex written size.toNat ∧
      (netTx env written size w).tx.txUserNtbDatagramIndex =
        (w.tx.txUserNtbDatagramIndex + 1) % 2 ^ 16 ∧
      storedDatagrams (netTx env written size w).log = storedDatagrams w.log ++ [written] := by
  have hs' := hs.store (hs.user.symm.trans hi) written size.toNat
  set w' := txStoreDatagram i written size.toNat w with hw'
  have hntb : w'.tx.txNtb i =
      appendDatagram (w.tx.txNtb i) w.tx.txUserNtbDatagramIndex written size.toNat := by
    simp [hw', txStoreDatagram]
  have hindex : w'.tx.txUserNtbDatagramIndex = (w.tx.txUserNtbDatagramIndex + 1) % 2 ^ 16 := rfl
  have hstored : storedDatagrams w'.log = storedDatagrams w.log ++ [written] := by
    simp [hw', txStoreDatagram, storedDatagrams]
  have hnet : netTx env written size w =
      if wBlockLength (w'.tx.txNtb i) > ncmNtbMaxSize then w' else (txTryStart env w').2 := by
    rw [netTx, hi]
  rw [hnet]
  split_ifs
  · exact ⟨hntb, hindex, hstored⟩
  · rcases txTryStart_cases env hs'.state with ⟨-, hq, -⟩ | ⟨-, -, -, ok, -, htx, hlog⟩
    · rw [show (txTryStart env w').2.tx = w'.tx from hq.same, hq.calls.stored]
      exact ⟨hntb, hindex, hstored⟩
    · refine ⟨?_, ?_, ?_⟩
      · rw [htx]
        exact hntb
      · rw [htx]
        exact hindex
      · rw [hlog, ← hstored]
        simp [storedDatagrams]

end Admission

/-- The steps of other contexts than the one that calls `net_can_tx` and `net_tx`. -/
def OtherContext (w : World) (input : Input) : Prop :=
  (∀ size, input.1 ≠ .netCanTx size) ∧ (∀ written size, input.1 ≠ .netTx written size) ∧
    ∀ ep, CompletesPending ep w input

/-- What is to hold of a step and of the state after it.  When a transfer ends, that is, when a
completion starts no zero-length packet, its NTB is free again and `tx_usbd_ntb` is `NULL` or
another NTB that has just been handed to USB.  With no IN transfer pending `tx_usbd_ntb` is
`NULL`, and `tx_try_start` then hands an NTB to USB whenever there is one to send. -/
structure Recycles (w : World) (input : Input) : Prop where
  freed : ∀ bytes x, input.1 = .netUsbTransfer ncmEpDataIn bytes → ¬ StartsZlp input.2 bytes →
    w.tx.txUsbdNtb = some x → some x ∈ (step w input).tx.txFreeNtb.ntbList ∧
      ((step w input).tx.txUsbdNtb = none ∨ ∃ y data n ok, y ≠ x ∧
        (step w input).tx.txUsbdNtb = some y ∧ (step w input).log.getLast? =
          some (.usbTransferEp ncmEpDataIn (.txNtb y data) n ok))
  idle : pending ncmEpDataIn (step w input).log = 0 → (step w input).tx.txUsbdNtb = none
  starts : pending ncmEpDataIn (step w input).log = 0 → (step w input).interfaceActive = 1 →
    ((∃ i, some i ∈ (step w input).tx.txWaitNtb.ntbList) ∨
      (step w input).tx.txUserNtb ≠ none ∧ (step w input).tx.txUserNtbDatagramIndex ≠ 0) →
    ∀ env, env.usbEpBusy ncmEpDataIn = false → ∃ i data n ok,
      (txTryStart env (step w input)).2.log =
        (step w input).log ++ [.usbTransferEp ncmEpDataIn (.txNtb i data) n ok]

/-- No transfer of an NTB ends in the step: a completion starts a zero-length packet, and no NTB
handed to USB has been refused. -/
structure NothingEnds (w : World) (input : Input) : Prop where
  zlp : ∀ bytes, input.1 = .netUsbTransfer ncmEpDataIn bytes → StartsZlp input.2 bytes
  accepted : ∀ i data n, (i, data, n, false) ∉ sentNtbs (step w input).log

/-- Exactly the NTBs handed to USB are pending. -/
structure InFlight (w : World) : Prop where
  shape : ∃ p, TxShape w p
  pending_eq : pending ncmEpDataIn w.log = (sentNtbs w.log).length
  accepted : ∀ i data n, (i, data, n, false) ∉ sentNtbs w.log

/-- The NTBs handed to USB and accepted. -/
def acceptedNtbs (log : List Call) : List (NtbPtr × Mem × ℕ × Bool) :=
  (sentNtbs log).filter fun s => s.2.2.2

lemma acceptedNtbs_congr {l l' : List Call} (h : sentNtbs l' = sentNtbs l) :
    acceptedNtbs l' = acceptedNtbs l := by
  rw [acceptedNtbs, h]
  rfl

/-- Handing an NTB to USB counts for both if it is accepted and for none otherwise. -/
lemma pendingIn_sent (l : List Call) (i : NtbPtr) (data : Mem) (n : ℕ) (ok : Bool) :
    pending ncmEpDataIn (l ++ [.usbTransferEp ncmEpDataIn (.txNtb i data) n ok]) +
        (acceptedNtbs l).length =
      (acceptedNtbs (l ++ [.usbTransferEp ncmEpDataIn (.txNtb i data) n ok])).length +
        pending ncmEpDataIn l := by
  rw [pending_append_singleton]
  cases ok with
  | false => simp [pendingStep, acceptedNtbs, sentNtbs, Nat.add_comm]
  | true =>
    simp [pendingStep, acceptedNtbs, sentNtbs]
    omega

lemma acceptedNtbs_eq {log : List Call} (h : ∀ i data n, (i, data, n, false) ∉ sentNtbs log) :
    acceptedNtbs log = sentNtbs log := by
  refine List.filter_eq_self.2 ?_
  rintro ⟨i, data, n, ok⟩ hs
  cases ok with
  | false => exact absurd hs (h i data n)
  | true => rfl

namespace InFlight

variable {w : World}

lemma init : InFlight World.init :=
  ⟨⟨.idle, TxShape.init⟩, rfl, fun _ _ _ => List.not_mem_nil⟩

lemma idleWithoutUsbd (h : InFlight w) : IdleWithoutUsbd w := by
  obtain ⟨p, hs⟩ := h.shape
  intro hu
  rw [h.pending_eq, hs.unsent (hs.usbd.symm.trans hu)]
  rfl

lemma idle (h : InFlight w) (hpending : pending ncmEpDataIn w.log = 0) :
    w.tx.txUsbdNtb = none := by
  obtain ⟨p, hs⟩ := h.shape
  rcases p.usbd_cases with hu | hu
  · rw [hs.usbd, hu]
  · obtain ⟨ok, hsent⟩ := hs.sent hu
    rw [h.pending_eq, hsent] at hpending
    simp at hpending

end InFlight

section Recycling

variable {w : World} {p : TxPhase} {input : Input}

/-- A step that is not a completion adds the NTBs accepted in it to the pending transfers. -/
lemma pendingIn_step (hs : TxShape w p)
    (hinput : ∀ bytes, input.1 ≠ .netUsbTransfer ncmEpDataIn bytes) :
    pending ncmEpDataIn (step w input).log + (acceptedNtbs w.log).length =
      (acceptedNtbs (step w input).log).length + pending ncmEpDataIn w.log := by
  have hrule : (∃ p', TxShape (step w input) p') ∧
      pending ncmEpDataIn (step w input).log + (acceptedNtbs w.log).length =
        (acceptedNtbs (step w input).log).length + pending ncmEpDataIn w.log := by
    apply step_rule (I := fun w' => (∃ p', TxShape w' p') ∧
      pending ncmEpDataIn w'.log + (acceptedNtbs w.log).length =
        (acceptedNtbs w'.log).length + pending ncmEpDataIn w.log) ⟨⟨p, hs⟩, Nat.add_comm _ _⟩
    case quiet =>
      rintro w₁ w₂ hq ⟨⟨p, hs⟩, heq⟩
      refine ⟨⟨p, hs.quiet hq⟩, ?_⟩
      rw [hq.calls.pendingIn, acceptedNtbs_congr hq.calls.sent]
      exact heq
    case complete =>
      intro bytes hin
      exact absurd hin (hinput bytes)
    case zlp =>
      intro w' bytes ok hin
      exact absurd hin (hinput bytes)
    case start =>
      rintro w' env ⟨⟨p, hs⟩, heq⟩
      refine ⟨?_, ?_⟩
      · rcases hs.start env with hs' | hs'
        · exact ⟨p, hs'⟩
        · exact ⟨p.start, hs'⟩
      · rcases txTryStart_cases env hs.state with ⟨-, hq, -⟩ | ⟨-, -, -, ok, -, -, hlog⟩
        · rw [hq.calls.pendingIn, acceptedNtbs_congr hq.calls.sent]
          exact heq
        · have hsent := pendingIn_sent w'.log 0 (w'.tx.txNtb 0) (wBlockLength (w'.tx.txNtb 0)) ok
          rw [hlog]
          omega
    case accept =>
      intro size _ _
      refine ⟨⟨p.accept, hs.accept⟩, ?_⟩
      rw [pendingIn_accept hs, acceptedNtbs_congr hs.sentNtbs_accept, Nat.add_comm]
    case store =>
      intro i written size _ hi
      refine ⟨⟨p, hs.store (hs.user.symm.trans hi) written size.toNat⟩, ?_⟩
      have hsent : sentNtbs (txStoreDatagram i written size.toNat w).log = sentNtbs w.log := by
        exact sentNtbs_record rfl w.log
      rw [pendingIn_store, acceptedNtbs_congr hsent, Nat.add_comm]
  exact hrule.2

/-- With nothing in flight, `tx_try_start` hands an NTB to USB if there is one to send. -/
lemma txTryStart_of_idle (hs : TxShape w p) (hidle : w.tx.txUsbdNtb = none)
    (hactive : w.interfaceActive = 1)
    (hwork : (∃ i, some i ∈ w.tx.txWaitNtb.ntbList) ∨
      w.tx.txUserNtb ≠ none ∧ w.tx.txUserNtbDatagramIndex ≠ 0)
    {env : Env} (hbusy : env.usbEpBusy ncmEpDataIn = false) : ∃ i data n ok,
      (txTryStart env w).2.log = w.log ++ [.usbTransferEp ncmEpDataIn (.txNtb i data) n ok] := by
  have hwork' : (∃ i, some i ∈ p.wait.ntbList) ∨
      p.user ≠ none ∧ w.tx.txUserNtbDatagramIndex ≠ 0 := by
    rw [hs.state] at hwork
    exact hwork
  have hstart := TxPhase.startable_of_work (hs.usbd.symm.trans hidle) hwork'
  exact ⟨_, _, _, _, (txTryStart_of_startable env hs.state hstart hactive hbusy).2.2⟩

/-- While nothing ends, the NTBs handed to USB are those that are pending. -/
lemma InFlight.step (h : InFlight w) (hG : CompletesPending ncmEpDataIn w input)
    (hC : NothingEnds w input) : InFlight (step w input) := by
  obtain ⟨p, hs⟩ := h.shape
  refine ⟨hs.step input, ?_, hC.accepted⟩
  by_cases hinput : ∃ bytes, input.1 = .netUsbTransfer ncmEpDataIn bytes
  · obtain ⟨bytes, hin⟩ := hinput
    have hpos := hG bytes hin
    have hzlp := hC.zlp bytes hin
    obtain ⟨event, env⟩ := input
    obtain rfl : event = .netUsbTransfer ncmEpDataIn bytes := hin
    obtain ⟨i, hi⟩ := exists_usbd_of_pending h.idleWithoutUsbd hpos
    obtain ⟨-, hsent, hpending⟩ := dataIn_of_usbd hi env bytes
    rw [hpending, if_pos hzlp, hsent, ← h.pending_eq]
    omega
  · have heq := pendingIn_step hs fun bytes hin => hinput ⟨bytes, hin⟩
    rw [acceptedNtbs_eq h.accepted, acceptedNtbs_eq hC.accepted, h.pending_eq] at heq
    omega

/-- If an NTB is refused then nothing is pending, although `tx_usbd_ntb` has been set. -/
lemma InFlight.pending_of_refused {p' : TxPhase} (h : InFlight w) (hs : TxShape w p)
    (hG : CompletesPending ncmEpDataIn w input) (hs' : TxShape (Fx3Ncm.step w input) p')
    {i : NtbPtr} {data : Mem} {n : ℕ}
    (hmem : (i, data, n, false) ∈ sentNtbs (Fx3Ncm.step w input).log) :
    pending ncmEpDataIn (Fx3Ncm.step w input).log = 0 := by
  have hinput : ∀ bytes, input.1 ≠ .netUsbTransfer ncmEpDataIn bytes := by
    intro bytes hin
    obtain ⟨event, env⟩ := input
    obtain rfl : event = .netUsbTransfer ncmEpDataIn bytes := hin
    obtain ⟨x, hx⟩ := exists_usbd_of_pending h.idleWithoutUsbd (hG bytes rfl)
    rw [(dataIn_of_usbd hx env bytes).2.1] at hmem
    exact h.accepted i data n hmem
  have heq := pendingIn_step hs hinput
  have hnone : acceptedNtbs (Fx3Ncm.step w input).log = [] := by
    rcases p'.usbd_cases with hu | hu
    · rw [acceptedNtbs, hs'.unsent hu]
      rfl
    · obtain ⟨ok, hsent⟩ := hs'.sent hu
      rw [hsent, List.mem_singleton] at hmem
      cases hmem
      rw [acceptedNtbs, hsent]
      rfl
  rw [hnone, acceptedNtbs_eq h.accepted, ← h.pending_eq, List.length_nil] at heq
  omega

end Recycling

/-- Along every run in which each completion of an IN transfer is reported for a transfer that
was started, NTBs are recycled exactly as long as no transfer of an NTB ends. -/
theorem tx_recycling {es : List Input}
    (hes : Along step (CompletesPending ncmEpDataIn) World.init es) :
    Along step Recycles World.init es ↔ Along step NothingEnds World.init es := by
  have hiff : ∀ w input, InFlight w → CompletesPending ncmEpDataIn w input →
      (Recycles w input ↔ NothingEnds w input) := by
    intro w input h hG
    obtain ⟨p, hs⟩ := h.shape
    obtain ⟨p', hs'⟩ := hs.step input
    constructor
    · intro hQ
      refine ⟨?_, ?_⟩
      · -- the NTB whose transfer has ended would have to be free
        intro bytes hin
        by_contra hno
        obtain ⟨i, hi⟩ := exists_usbd_of_pending h.idleWithoutUsbd (hG bytes hin)
        obtain ⟨hfree, -⟩ := hQ.freed bytes i hin hno hi
        obtain ⟨event, env⟩ := input
        obtain rfl : event = .netUsbTransfer ncmEpDataIn bytes := hin
        rw [(dataIn_of_usbd hi env bytes).1, hs.state] at hfree
        exact TxPhase.not_mem_free_of_usbd (hs.usbd.symm.trans hi) hfree
      · -- an NTB that was refused stays in `tx_usbd_ntb` with nothing pending
        intro i data n hmem
        have hpending := h.pending_of_refused hs hG hs' hmem
        rw [hs'.unsent (hs'.usbd.symm.trans (hQ.idle hpending))] at hmem
        exact List.not_mem_nil hmem
    · intro hC
      have h' := h.step hG hC
      refine ⟨?_, h'.idle, ?_⟩
      · intro bytes x hin hno
        exact absurd (hC.zlp bytes hin) hno
      · intro hpending hactive hwork env hbusy
        exact txTryStart_of_idle hs' (h'.idle hpending) hactive hwork hbusy
  refine along_iff_along (I := InFlight) ?_ hiff InFlight.init hes
  intro w input h hG hQ
  exact h.step hG ((hiff w input h hG).1 hQ)

/-- The transfer of `oneDatagram` is started and stays pending. -/
theorem tx_recycling_oneDatagram : Along step Recycles World.init oneDatagram := by
  have hes : Along step (CompletesPending ncmEpDataIn) World.init oneDatagram := by
    refine ⟨?_, ?_, ?_, trivial⟩ <;> rintro bytes ⟨⟩
  refine (tx_recycling hes).2 ⟨⟨?_, ?_⟩, ⟨?_, ?_⟩, ⟨?_, ?_⟩, trivial⟩
  · rintro bytes ⟨⟩
  · exact fun _ _ _ => List.not_mem_nil
  · rintro bytes ⟨⟩
  · exact fun _ _ _ => List.not_mem_nil
  · rintro bytes ⟨⟩
  · rintro i data n hmem
    cases List.mem_singleton.1 hmem

/-- When the transfer of `oneDatagram` is completed `tx_ntb[0]` does not become free, and
`tx_usbd_ntb` still points to it with nothing pending. -/
theorem tx_recycling_fails :
    Along step (CompletesPending ncmEpDataIn) World.init
        (oneDatagram ++ [(.netUsbTransfer ncmEpDataIn 60, .accepting)]) ∧
      ¬ Along step Recycles World.init
        (oneDatagram ++ [(.netUsbTransfer ncmEpDataIn 60, .accepting)]) := by
  constructor
  · refine ⟨?_, ?_, ?_, ?_, trivial⟩
    · rintro bytes ⟨⟩
    · rintro bytes ⟨⟩
    · rintro bytes ⟨⟩
    · rintro bytes ⟨⟩
      exact Nat.one_pos
  · rintro ⟨-, -, -, hlast, -⟩
    have husbd := hlast.idle rfl
    cases husbd

end Fx3Ncm
