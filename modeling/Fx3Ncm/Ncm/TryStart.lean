/-
# Starts that fail

`rx_try_start` and `tx_try_start` return `false` for two kinds of reasons.  If there is no
NTB they could hand to USB they leave everything as it was.  If `usb_transfer_ep` refuses
the NTB, both have moved it to `rx_usbd_ntb` (`tx_usbd_ntb`) before, and neither takes it
out again: the state has changed, and since the first check of both functions is that this
pointer is `NULL` no later call starts anything.

`rxCandidate` and `txCandidate` are the NTB that a call would hand to USB; everything below
is by cases on them.
-/
import Fx3Ncm.Ncm.Driver

namespace Fx3Ncm

open Runs

/-- The NTB that `rx_try_start` hands to USB. -/
def rxCandidate (env : Env) (w : World) : Option NtbPtr :=
  if w.rx.rxUsbdNtb = none ∧ w.interfaceActive = 1 ∧ env.usbEpBusy ncmEpDataOut = false then
    (popNtb w.rx.rxFreeNtb).1
  else none

/-- The NTB that `tx_try_start` hands to USB: the first one waiting, or the user NTB if it has
datagrams. -/
def txCandidate (env : Env) (w : World) : Option NtbPtr :=
  if w.tx.txUsbdNtb = none ∧ w.interfaceActive = 1 ∧ env.usbEpBusy ncmEpDataIn = false then
    match (popNtb w.tx.txWaitNtb).1 with
    | some i => some i
    | none => if w.tx.txUserNtbDatagramIndex = 0 then none else w.tx.txUserNtb
  else none

/-- `usb_transfer_ep` refuses the NTB that `rx_try_start` passes to it. -/
def RxRefused (env : Env) (w : World) : Prop :=
  ∃ i, rxCandidate env w = some i ∧
    env.usbTransferEp ncmEpDataOut (.rxNtb i) ncmNtbMaxSize = false

/-- `usb_transfer_ep` refuses the NTB that `tx_try_start` passes to it. -/
def TxRefused (env : Env) (w : World) : Prop :=
  ∃ i, txCandidate env w = some i ∧ env.usbTransferEp ncmEpDataIn
    (.txNtb i (w.tx.txNtb i)) (wBlockLength (w.tx.txNtb i)) = false

/-- The endpoint is not busy and takes every transfer. -/
def Env.Willing (env : Env) (ep : UInt8) : Prop :=
  env.usbEpBusy ep = false ∧ ∀ buffer bytes, env.usbTransferEp ep buffer bytes = true

/-- What is to hold of a call of `rx_try_start`: if it returns `false` then `rx_usbd_ntb` and the
NTBs in `rx_free_ntb` are as before, and after a refused transfer it can be tried again. -/
structure RxIntact (env : Env) (w : World) : Prop where
  usbd : (rxTryStart env w).1 = false → (rxTryStart env w).2.rx.rxUsbdNtb = w.rx.rxUsbdNtb
  free : (rxTryStart env w).1 = false →
    ∀ i, some i ∈ (rxTryStart env w).2.rx.rxFreeNtb.ntbList ↔ some i ∈ w.rx.rxFreeNtb.ntbList
  retry : RxRefused env w → ∀ env' : Env, env'.Willing ncmEpDataOut →
    (rxTryStart env' (rxTryStart env w).2).1 = true

/-- What is to hold of a call of `tx_try_start`. -/
structure TxIntact (env : Env) (w : World) : Prop where
  usbd : (txTryStart env w).1 = false → (txTryStart env w).2.tx.txUsbdNtb = w.tx.txUsbdNtb
  user : (txTryStart env w).1 = false → (txTryStart env w).2.tx.txUserNtb = w.tx.txUserNtb
  wait : (txTryStart env w).1 = false →
    (txTryStart env w).2.tx.txWaitNtb.ntbList = w.tx.txWaitNtb.ntbList
  retry : TxRefused env w → ∀ env' : Env, env'.Willing ncmEpDataIn →
    (txTryStart env' (txTryStart env w).2).1 = true

lemma popNtb_of_none {α : Type} {list : NtbList α} (h : (popNtb list).1 = none) :
    (popNtb list).2 = list := by
  rw [popNtb] at h ⊢
  split at h
  · rfl
  · cases h

section Rx

variable {env : Env} {w : World} {i : NtbPtr}

lemma rxTryStart_of_candidate_none (h : rxCandidate env w = none) :
    rxTryStart env w = (false, w) := by
  rw [rxTryStart]
  split_ifs with husbd hactive hbusy
  · rfl
  · rfl
  · rfl
  · have hnone : w.rx.rxUsbdNtb = none := by simpa using husbd
    rw [rxCandidate, if_pos ⟨hnone, not_not.1 hactive, by simpa using hbusy⟩] at h
    have hsame : w.setRx { w.rx with
        rxFreeNtb := (popNtb w.rx.rxFreeNtb).2
        rxUsbdNtb := (popNtb w.rx.rxFreeNtb).1 } = w := by
      rw [popNtb_of_none h, h, ← hnone]
      rfl
    dsimp only
    rw [hsame, h]

lemma open_of_rxCandidate (h : rxCandidate env w = some i) :
    w.rx.rxUsbdNtb = none ∧ w.interfaceActive = 1 ∧ env.usbEpBusy ncmEpDataOut = false := by
  by_contra hclosed
  rw [rxCandidate, if_neg hclosed] at h
  cases h

lemma rxTryStart_of_candidate (h : rxCandidate env w = some i) :
    (rxTryStart env w).1 = env.usbTransferEp ncmEpDataOut (.rxNtb i) ncmNtbMaxSize ∧
      (rxTryStart env w).2.rx.rxUsbdNtb = some i := by
  obtain ⟨husbd, hactive, hbusy⟩ := open_of_rxCandidate h
  rw [rxCandidate, if_pos ⟨husbd, hactive, hbusy⟩] at h
  rw [rxTryStart, if_neg (by simp [husbd]), if_neg (by simp [hactive]), if_neg (by simp [hbusy])]
  simp only [h, usbTransferEp]
  split_ifs with hok
  · exact ⟨rfl, rfl⟩
  · exact ⟨by simpa using hok, rfl⟩

lemma rxIntact_iff : RxIntact env w ↔ ¬ RxRefused env w := by
  constructor
  · rintro h ⟨i, hi, hrefused⟩
    obtain ⟨hanswer, husbd⟩ := rxTryStart_of_candidate hi
    have hsame := h.usbd (hanswer.trans hrefused)
    rw [husbd, (open_of_rxCandidate hi).1] at hsame
    cases hsame
  · intro hno
    cases hi : rxCandidate env w with
    | none =>
      have heq := rxTryStart_of_candidate_none hi
      exact ⟨fun _ => by rw [heq], fun _ _ => by rw [heq], fun h => absurd h hno⟩
    | some i =>
      have hstarted : (rxTryStart env w).1 ≠ false := by
        rw [(rxTryStart_of_candidate hi).1]
        exact fun hrefused => hno ⟨i, hi, hrefused⟩
      exact ⟨fun h => absurd h hstarted, fun h => absurd h hstarted, fun h => absurd h hno⟩

end Rx

section Tx

variable {env : Env} {w : World} {i : NtbPtr}

lemma txTryStart_of_candidate_none (h : txCandidate env w = none) :
    txTryStart env w = (false, w) := by
  rw [txTryStart]
  split_ifs with husbd hactive hbusy
  · rfl
  · rfl
  · rfl
  · have hnone : w.tx.txUsbdNtb = none := by simpa using husbd
    rw [txCandidate, if_pos ⟨hnone, not_not.1 hactive, by simpa using hbusy⟩] at h
    -- nothing is waiting, and the user NTB is missing or empty
    have hwait : (popNtb w.tx.txWaitNtb).1 = none := by
      cases hpop : (popNtb w.tx.txWaitNtb).1 with
      | none => rfl
      | some i =>
        rw [hpop] at h
        cases h
    have huser : w.tx.txUserNtb = none ∨ w.tx.txUserNtbDatagramIndex = 0 := by
      rw [hwait] at h
      by_cases hindex : w.tx.txUserNtbDatagramIndex = 0
      · exact Or.inr hindex
      · exact Or.inl (by simpa [hindex] using h)
    have hsame : w.setTx { w.tx with
        txWaitNtb := (popNtb w.tx.txWaitNtb).2
        txUsbdNtb := (popNtb w.tx.txWaitNtb).1 } = w := by
      rw [popNtb_of_none hwait, hwait, ← hnone]
      rfl
    dsimp only
    rw [hsame, hwait, if_pos ⟨rfl, huser⟩]

lemma open_of_txCandidate (h : txCandidate env w = some i) :
    w.tx.txUsbdNtb = none ∧ w.interfaceActive = 1 ∧ env.usbEpBusy ncmEpDataIn = false := by
  by_contra hclosed
  rw [txCandidate, if_neg hclosed] at h
  cases h

lemma txTryStart_of_candidate (h : txCandidate env w = some i) :
    (txTryStart env w).1 = env.usbTransferEp ncmEpDataIn (.txNtb i (w.tx.txNtb i))
        (wBlockLength (w.tx.txNtb i)) ∧
      (txTryStart env w).2.tx.txUsbdNtb = some i := by
  obtain ⟨husbd, hactive, hbusy⟩ := open_of_txCandidate h
  rw [txCandidate, if_pos ⟨husbd, hactive, hbusy⟩] at h
  rw [txTryStart, if_neg (by simp [husbd]), if_neg (by simp [hactive]), if_neg (by simp [hbusy])]
  cases hwait : (popNtb w.tx.txWaitNtb).1 with
  | some j =>
    rw [hwait] at h
    obtain rfl : j = i := Option.some.inj h
    simp [hwait, txStartTransfer, usbTransferEp]
  | none =>
    rw [hwait] at h
    by_cases hindex : w.tx.txUserNtbDatagramIndex = 0
    · simp [hindex] at h
    · have huser : w.tx.txUserNtb = some i := by simpa [hindex] using h
      simp [hwait, hindex, huser, txStartTransfer, usbTransferEp]

lemma txIntact_iff : TxIntact env w ↔ ¬ TxRefused env w := by
  constructor
  · rintro h ⟨i, hi, hrefused⟩
    obtain ⟨hanswer, husbd⟩ := txTryStart_of_candidate hi
    have hsame := h.usbd (hanswer.trans hrefused)
    rw [husbd, (open_of_txCandidate hi).1] at hsame
    cases hsame
  · intro hno
    cases hi : txCandidate env w with
    | none =>
      have heq := txTryStart_of_candidate_none hi
      exact ⟨fun _ => by rw [heq], fun _ => by rw [heq], fun _ => by rw [heq],
        fun h => absurd h hno⟩
    | some i =>
      have hstarted : (txTryStart env w).1 ≠ false := by
        rw [(txTryStart_of_candidate hi).1]
        exact fun hrefused => hno ⟨i, hi, hrefused⟩
      exact ⟨fun h => absurd h hstarted, fun h => absurd h hstarted,
        fun h => absurd h hstarted, fun h => absurd h hno⟩

end Tx

/-! ### Failed starts -/

/-- In every state, a call of `rx_try_start` or of `tx_try_start` that returns `false` leaves its
direction as it was if and only if it does not get as far as a refused transfer. -/
theorem failed_start (env : Env) (w : World) :
    (RxIntact env w ↔ ¬ RxRefused env w) ∧ (TxIntact env w ↔ ¬ TxRefused env w) :=
  ⟨rxIntact_iff, txIntact_iff⟩

/-- The environment in which no endpoint is busy and every transfer is refused. -/
def Env.unwilling : Env where
  usbEpBusy _ := false
  usbTransferEp _ _ _ := false
  netRxCb := true

/-- With the interface selected, a refused transfer leaves `rx_ntb[0]` in `rx_usbd_ntb`; and if a
datagram has been stored before, it leaves `tx_ntb[0]` in `tx_usbd_ntb`. -/
theorem failed_start_fails :
    ¬ RxIntact .unwilling (run step World.init
        [(.netUsbControlTransfer (.setInterface 1), .accepting)]) ∧
      ¬ TxIntact .unwilling (run step World.init
        [(.netCanTx 1, .accepting), (.netTx [0x2a] 1, .accepting),
          (.netUsbControlTransfer (.setInterface 1), .accepting)]) := by
  constructor
  · intro h
    have hsame : some (0 : NtbPtr) = none := h.usbd rfl
    cases hsame
  · intro h
    have hsame : some (0 : NtbPtr) = none := h.usbd rfl
    cases hsame

end Fx3Ncm
