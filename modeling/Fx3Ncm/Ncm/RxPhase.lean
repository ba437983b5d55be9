/-
# The phases of the OUT direction

As on the transmit side, the holders of the OUT direction go through only a few
combinations, named by `RxPhase`.  Since `rx_usbd_ntb` and `rx_user_ntb` are never cleared,
`rx_ntb[0]` is the only NTB that USB ever fills, and it stays in `rx_usbd_ntb` while the user
reads it; `rx_ntb[1]` stays in slot 1 of the free list, which is also the slot that every
later push to this list aims at.

The second half says what one call of `rx_update_user_ntb` does to an NTB that the user is
reading, in any state.
-/
import Fx3Ncm.Ncm.History
import Mathlib.Data.Fintype.Basic

namespace Fx3Ncm

open ByteMemory Runs

/-- What the OUT direction holds where: nothing is handed to USB (`fresh`); `rx_ntb[0]` is
(`armed`); it has been filled and waits (`waiting`, only inside `net_usb_transfer`); the user
reads it (`reading`); the user reads it and it waits once more, after a completion that no
transfer belongs to (`requeued`). -/
inductive RxPhase where
  | fresh
  | armed
  | waiting
  | reading
  | requeued
deriving DecidableEq, Repr

namespace RxPhase

instance : Fintype RxPhase where
  elems := {fresh, armed, waiting, reading, requeued}
  complete p := by cases p <;> decide

/-- `rx_free_ntb` -/
def free : RxPhase → NtbList NtbPtr
  | fresh => ⟨[some 0, some 1], 0, 1⟩
  | _ => ⟨[none, some 1], 1, 1⟩

/-- `rx_wait_ntb` -/
def wait : RxPhase → NtbList NtbPtr
  | fresh | armed => ⟨[none, none], 0, 0⟩
  | waiting => ⟨[some 0, none], 0, 1⟩
  | reading => ⟨[none, none], 1, 1⟩
  | requeued => ⟨[none, some 0], 1, 1⟩

/-- `rx_usbd_ntb` -/
def usbd : RxPhase → Option NtbPtr
  | fresh => none
  | _ => some 0

/-- `rx_user_ntb` -/
def user : RxPhase → Option NtbPtr
  | reading | requeued => some 0
  | _ => none

/-- The phase after an NTB has been handed to USB. -/
def start : RxPhase → RxPhase
  | fresh => armed
  | p => p

/-- The phase after the NTB that USB filled has been put into the wait list. -/
def complete : RxPhase → RxPhase
  | armed => waiting
  | reading => requeued
  | p => p

/-- The phase after the user has fetched a waiting NTB. -/
def fetch : RxPhase → RxPhase
  | waiting => reading
  | p => p

/-- The state of the OUT direction in a phase. -/
def state (p : RxPhase) (rxNtb : NtbPtr → Mem) (index : ℕ) : RxState where
  rxNtb := rxNtb
  rxFreeNtb := p.free
  rxWaitNtb := p.wait
  rxUsbdNtb := p.usbd
  rxUserNtb := p.user
  rxUserNtbDatagramIndex := index

/-! ### The abstract machine -/

/-- The free list takes nothing back. -/
lemma pushNtb_free_usbd : ∀ p : RxPhase, pushNtb p.free p.usbd = (false, p.free) := by decide

lemma pushNtb_free_user : ∀ p : RxPhase, pushNtb p.free p.user = (false, p.free) := by decide

lemma pushNtb_wait_usbd : ∀ {p : RxPhase}, p ≠ waiting →
    (pushNtb p.wait p.usbd).2 = p.complete.wait := by
  decide

lemma popNtb_wait : ∀ {p : RxPhase}, p.user = none →
    popNtb p.wait = (p.fetch.user, p.fetch.wait) := by
  decide

lemma popNtb_free : ∀ {p : RxPhase}, p.usbd = none → popNtb p.free = (some 0, p.start.free) := by
  decide

lemma usbd_start : ∀ p : RxPhase, p.start.usbd = some 0 := by decide

lemma user_cases : ∀ p : RxPhase, p.user = none ∨ p.user = some 0 := by decide

@[simp] lemma free_complete : ∀ p : RxPhase, p.complete.free = p.free := by decide

@[simp] lemma usbd_complete : ∀ p : RxPhase, p.complete.usbd = p.usbd := by decide

@[simp] lemma user_complete : ∀ p : RxPhase, p.complete.user = p.user := by decide

@[simp] lemma free_fetch : ∀ p : RxPhase, p.fetch.free = p.free := by decide

@[simp] lemma usbd_fetch : ∀ p : RxPhase, p.fetch.usbd = p.usbd := by decide

lemma fetch_of_user : ∀ {p : RxPhase}, p.user ≠ none → p.fetch = p := by decide

lemma fetch_eq_of_user_none : ∀ {p : RxPhase}, p.fetch.user = none → p.fetch = p := by decide

lemma wait_start : ∀ {p : RxPhase}, p.start.wait = p.wait := by decide

lemma user_start : ∀ {p : RxPhase}, p.start.user = p.user := by decide

lemma start_of_usbd : ∀ {p : RxPhase}, p.usbd ≠ none → p.start = p := by decide

lemma start_eq_armed : ∀ {p : RxPhase}, p.usbd = none → p.start = armed := by decide

lemma fetch_ne_waiting : ∀ p : RxPhase, p.fetch ≠ waiting := by decide

lemma fetch_of_ne_waiting : ∀ {p : RxPhase}, p ≠ waiting → p.fetch = p := by decide

/-- Every NTB has exactly one holder until the first completion. -/
lemma count_holders_iff : ∀ p : RxPhase,
    (∀ i : NtbPtr, (p.free.ntbList ++ p.wait.ntbList ++ [p.usbd, p.user]).count (some i) = 1) ↔
      p = fresh ∨ p = armed := by
  decide

/-- There is always a free NTB. -/
lemma one_mem_free : ∀ p : RxPhase, some 1 ∈ p.free.ntbList := by decide

lemma usbd_eq_none_iff : ∀ p : RxPhase, p.usbd = none ↔ p = fresh := by decide

lemma complete_fetch_ne_armed : ∀ p : RxPhase, p.complete.fetch ≠ armed := by decide

lemma start_eq_armed_iff : ∀ {p : RxPhase}, p.start = armed ↔ p = armed ∨ p = fresh := by decide

lemma complete_fetch_start_eq_armed_iff : ∀ {p : RxPhase}, p ≠ waiting →
    (p.complete.fetch.start = armed ↔ p = fresh) := by
  decide

lemma complete_fetch_of_armed : armed.complete.fetch = reading := rfl

end RxPhase

/-! ### One call of `rx_update_user_ntb` -/

/-- The cursor after the datagram of entry `j` has been offered. -/
def cursorStep (m : Mem) (j : ℕ) (ok : Bool) : ℕ :=
  if ok = true ∧ EntryUsed m (j + 1) then (j + 1) % 2 ^ 16 else j

/-- The calls recorded when the datagram of entry `j` of the block `m` in `rx_ntb[i]` is offered:
the offer itself, and if it is taken the look at the next entry, and if that entry ends the
table the push to the free list. -/
def walkCalls (i : NtbPtr) (m : Mem) (j : ℕ) (ok pushed : Bool) : List Call :=
  offerCalls i m j ok ++
    if ok = true then .ndpEntry i (ndp16DatagramOffset m + 4 * (j + 1)) ::
      if EntryUsed m (j + 1) then [] else [.pushNtb .rxFree (some i) pushed]
    else []

/-- Nothing is fetched while the user has an NTB. -/
lemma rxFetchUserNtb_of_user {w : World} {i : NtbPtr} (h : w.rx.rxUserNtb = some i) :
    rxFetchUserNtb w = w := by
  rw [rxFetchUserNtb, if_neg (by simp [h])]

/-- Once the user has an NTB it makes no difference when it was fetched. -/
lemma rxUpdateUserNtb_fetch (env : Env) {w : World} {i : NtbPtr}
    (h : (rxFetchUserNtb w).rx.rxUserNtb = some i) :
    rxUpdateUserNtb env (rxFetchUserNtb w) = rxUpdateUserNtb env w := by
  simp only [rxUpdateUserNtb, rxFetchUserNtb_of_user h]

/-- The user has the block `m` in `rx_ntb[i]` and reads entry `j` next. -/
structure Reading (w : World) (i : NtbPtr) (m : Mem) (j : ℕ) : Prop where
  user : w.rx.rxUserNtb = some i
  block : w.rx.rxNtb i = m
  index : w.rx.rxUserNtbDatagramIndex = j

namespace Reading

variable {w : World} {i : NtbPtr} {m : Mem} {j : ℕ}

/-- One call of `rx_update_user_ntb` while the user has an NTB. -/
lemma update (h : Reading w i m j) (env : Env) :
    (rxUpdateUserNtb env w).2.rx = { w.rx with
        rxUserNtbDatagramIndex := cursorStep m j env.netRxCb
        rxFreeNtb := if env.netRxCb = true ∧ ¬ EntryUsed m (j + 1)
          then (pushNtb w.rx.rxFreeNtb (some i)).2 else w.rx.rxFreeNtb } ∧
      (rxUpdateUserNtb env w).2.log =
        w.log ++ walkCalls i m j env.netRxCb (pushNtb w.rx.rxFreeNtb (some i)).1 ∧
      (rxUpdateUserNtb env w).2.interfaceActive = w.interfaceActive := by
  obtain ⟨huser, hblock, hindex⟩ := h
  subst hblock hindex
  have hupdate : rxUpdateUserNtb env w = rxOfferDatagram env i w := by
    simp only [rxUpdateUserNtb, rxFetchUserNtb_of_user huser, huser]
  rw [hupdate]
  cases hok : env.netRxCb with
  | false =>
    rw [rxOfferDatagram_of_refused env i w hok]
    simp [recordOffer, walkCalls, cursorStep]
  | true =>
    by_cases hused : EntryUsed (w.rx.rxNtb i) (w.rx.rxUserNtbDatagramIndex + 1)
    · rw [rxOfferDatagram_of_used env i w hok hused]
      simp [recordOffer, walkCalls, cursorStep, hused]
    · rw [rxOfferDatagram_of_last env i w hok hused, huser]
      simp [recordOffer, walkCalls, cursorStep, hused, pushRxFree]

lemma update_reading (h : Reading w i m j) (env : Env) :
    Reading (rxUpdateUserNtb env w).2 i m (cursorStep m j env.netRxCb) := by
  obtain ⟨hrx, -, -⟩ := h.update env
  refine ⟨?_, ?_, ?_⟩ <;> rw [hrx]
  · exact h.user
  · exact h.block

end Reading

/-! ### The driver follows the abstract machine -/

section Refinement

variable {w : World} {p : RxPhase} {ntb : NtbPtr → Mem} {index : ℕ}

lemma setRx_self (w : World) : w.setRx w.rx = w := rfl

lemma rxFetchUserNtb_eq (h : w.rx = p.state ntb index) :
    rxFetchUserNtb w = w.setRx (p.fetch.state ntb (if p.user = none then 0 else index)) := by
  have huser : w.rx.rxUserNtb = p.user := by rw [h]; rfl
  have hwait : w.rx.rxWaitNtb = p.wait := by rw [h]; rfl
  by_cases hnone : p.user = none
  · rw [rxFetchUserNtb, if_pos (huser.trans hnone), hwait, RxPhase.popNtb_wait hnone,
      if_pos hnone, h]
    simp only [RxPhase.state, RxPhase.free_fetch, RxPhase.usbd_fetch]
  · rw [rxFetchUserNtb, if_neg (by rw [huser]; exact hnone), if_neg hnone,
      RxPhase.fetch_of_user hnone, ← h, setRx_self]

/-- `rx_update_user_ntb` when there is nothing to read. -/
lemma rxUpdateUserNtb_of_none (env : Env) (h : w.rx = p.state ntb index)
    (hp : p.fetch.user = none) :
    (rxUpdateUserNtb env w).2 = w.setRx (p.state ntb 0) := by
  have hfetch := RxPhase.fetch_eq_of_user_none hp
  have huser : p.user = none := by rw [← hfetch]; exact hp
  have heq := rxFetchUserNtb_eq h
  rw [hfetch, if_pos huser] at heq
  have hnone : (w.setRx (p.state ntb 0)).rx.rxUserNtb = none := huser
  simp only [rxUpdateUserNtb, heq, hnone]

/-- `rx_update_user_ntb` when there is an NTB to read: the user fetches it if necessary, and the
datagram at the cursor is offered. -/
lemma rxUpdateUserNtb_of_some (env : Env) (h : w.rx = p.state ntb index)
    (hp : p.fetch.user = some 0) {j : ℕ} (hj : j = if p.user = none then 0 else index) :
    (rxUpdateUserNtb env w).2.rx =
        p.fetch.state ntb (cursorStep (ntb 0) j env.netRxCb) ∧
      (rxUpdateUserNtb env w).2.log = w.log ++ walkCalls 0 (ntb 0) j env.netRxCb false ∧
      (rxUpdateUserNtb env w).2.interfaceActive = w.interfaceActive := by
  have heq := rxFetchUserNtb_eq h
  rw [← hj] at heq
  set w' := w.setRx (p.fetch.state ntb j) with hw'
  have hread : Reading w' 0 (ntb 0) j := ⟨hp, rfl, rfl⟩
  have hpush : pushNtb w'.rx.rxFreeNtb (some 0) = (false, p.fetch.free) := by
    have h' := p.fetch.pushNtb_free_user
    rw [hp] at h'
    exact h'
  have hagain : rxUpdateUserNtb env w = rxUpdateUserNtb env w' := by
    rw [← heq, rxUpdateUserNtb_fetch env (by rw [heq]; exact hread.user)]
  obtain ⟨hrx, hlog, hactive⟩ := hread.update env
  rw [hagain]
  refine ⟨?_, ?_, hactive⟩
  · rw [hrx, hpush]
    split_ifs <;> rfl
  · rw [hlog, hpush]
    rfl

/-- The free list refuses the NTB that is in `rx_usbd_ntb`. -/
lemma pushRxFree_usbd (h : w.rx = p.state ntb index) :
    (pushRxFree w.rx.rxUsbdNtb w).2 = w.record (.pushNtb .rxFree p.usbd false) := by
  have hfree : w.rx.rxFreeNtb = p.free := by rw [h]; rfl
  have husbd : w.rx.rxUsbdNtb = p.usbd := by rw [h]; rfl
  have hsame : ({ w.rx with rxFreeNtb := p.free } : RxState) = w.rx := by rw [← hfree]
  rw [pushRxFree, hfree, husbd, p.pushNtb_free_usbd]
  simp only [hsame, setRx_self]

/-- The completion of an OUT transfer moves the NTB to the wait list. -/
lemma netDataOut_eq (bytes : UInt16) (h : w.rx = p.state ntb index) (hp : p ≠ .waiting) :
    ∃ ok, netDataOut bytes w =
      (w.setRx (p.complete.state ntb index)).record (.pushNtb .rxWait p.usbd ok) := by
  have hwait : w.rx.rxWaitNtb = p.wait := by rw [h]; rfl
  have husbd : w.rx.rxUsbdNtb = p.usbd := by rw [h]; rfl
  have hrx : ({ w.rx with rxWaitNtb := p.complete.wait } : RxState) =
      p.complete.state ntb index := by
    rw [h]
    simp only [RxPhase.state, RxPhase.free_complete, RxPhase.usbd_complete, RxPhase.user_complete]
  refine ⟨(pushNtb p.wait p.usbd).1, ?_⟩
  change (pushRxWait w.rx.rxUsbdNtb w).2 = _
  rw [pushRxWait, hwait, husbd]
  simp only [RxPhase.pushNtb_wait_usbd hp, hrx]

/-- `rx_try_start` while `rx_usbd_ntb` is set, or while traffic is not allowed. -/
lemma rxTryStart_of_blocked (env : Env) (hb : w.rx.rxUsbdNtb ≠ none ∨ w.interfaceActive ≠ 1 ∨
    env.usbEpBusy ncmEpDataOut = true) : rxTryStart env w = (false, w) := by
  rw [rxTryStart]
  split_ifs with h₁ h₂ h₃
  · rfl
  · rfl
  · rfl
  · rcases hb with hb | hb | hb
    · exact absurd (Option.isSome_iff_ne_none.2 hb) h₁
    · exact absurd hb h₂
    · exact absurd hb h₃

/-- `rx_try_start` when `rx_ntb[0]` can be handed to USB.  It is not taken back if it is refused. -/
lemma rxTryStart_of_free (env : Env) (h : w.rx = p.state ntb index) (hp : p.usbd = none)
    (hactive : w.interfaceActive = 1) (hbusy : env.usbEpBusy ncmEpDataOut = false) :
    (rxTryStart env w).2.rx = p.start.state ntb index ∧
      (rxTryStart env w).2.log = w.log ++
        .usbTransferEp ncmEpDataOut (.rxNtb 0) ncmNtbMaxSize
          (env.usbTransferEp ncmEpDataOut (.rxNtb 0) ncmNtbMaxSize) ::
        (if env.usbTransferEp ncmEpDataOut (.rxNtb 0) ncmNtbMaxSize = true then []
          else [.pushNtb .rxFree (some 0) false]) ∧
      (rxTryStart env w).2.interfaceActive = w.interfaceActive := by
  have husbd : w.rx.rxUsbdNtb = none := by rw [h]; exact hp
  have hfree : w.rx.rxFreeNtb = p.free := by rw [h]; rfl
  -- `list_back` of the free list does not leave slot 1, which holds `rx_ntb[1]`
  have hpush : pushNtb p.start.free (some 0) = (false, p.start.free) := by
    have h' := p.start.pushNtb_free_usbd
    rw [p.usbd_start] at h'
    exact h'
  rw [rxTryStart, if_neg (by simp [husbd]), if_neg (by simp [hactive]), if_neg (by simp [hbusy]),
    hfree, RxPhase.popNtb_free hp]
  have hrx : ({ w.rx with rxFreeNtb := p.start.free, rxUsbdNtb := some 0 } : RxState) =
      p.start.state ntb index := by
    rw [h]
    simp only [RxPhase.state, RxPhase.wait_start, RxPhase.user_start, p.usbd_start]
  cases hok : env.usbTransferEp ncmEpDataOut (.rxNtb 0) ncmNtbMaxSize with
  | true =>
    simp only [usbTransferEp, hok, hrx, if_true]
    exact ⟨rfl, rfl, rfl⟩
  | false =>
    -- the NTB is pushed back, to no effect, and stays in `rx_usbd_ntb`
    simp only [usbTransferEp, hok, hrx, pushRxFree, World.record_rx, World.setRx_rx]
    refine ⟨?_, ?_, rfl⟩
    · change ({ p.start.state ntb index with
        rxFreeNtb := (pushNtb p.start.free p.start.usbd).2 } : RxState) = _
      rw [p.usbd_start, hpush]
      rfl
    · change w.log ++ [_] ++
        [.pushNtb .rxFree p.start.usbd (pushNtb p.start.free p.start.usbd).1] = _
      rw [p.usbd_start, hpush, List.append_assoc]
      rfl

end Refinement

end Fx3Ncm
