/-
# The phases of the IN direction

In every run the four holders of the IN direction (the free list, the wait list, the NTB
USB is sending and the NTB the user is filling) go through only nine combinations.
`TxPhase` names them, and `TxPhase.accept` and `TxPhase.start` are the two ways to get
from one to the next: opening a new user NTB, and handing an NTB to USB.  This is an
abstract machine without memory and without an environment; the lemmas below say that
`tx_accept_user_ntb` and `tx_try_start` follow it.

Once `tx_usbd_ntb` has been set no phase ever clears it, so `tx_ntb[0]` is the only NTB
that is handed to USB.
-/
import Fx3Ncm.Ncm.History
import Mathlib.Data.Fintype.Basic

namespace Fx3Ncm

open ByteMemory

/-- What the IN direction holds where.

* before anything is sent: nothing is open (`idle`), `tx_ntb[0]` is being filled
  (`filling`), it waits and `tx_ntb[1]` is being filled (`parked`), both wait (`full`);
* `tx_ntb[0]` was sent directly: `tx_ntb[1]` is free (`sent`), is being filled
  (`sentFilling`), waits (`sentParked`);
* `tx_ntb[0]` was sent from the wait list: `tx_ntb[1]` is being filled (`unparkedFilling`),
  waits (`unparked`). -/
inductive TxPhase where
  | idle
  | filling
  | parked
  | full
  | sent
  | sentFilling
  | sentParked
  | unparkedFilling
  | unparked
deriving DecidableEq, Repr

namespace TxPhase

instance : Fintype TxPhase where
  elems := {idle, filling, parked, full, sent, sentFilling, sentParked, unparkedFilling, unparked}
  complete p := by cases p <;> decide

/-- `tx_free_ntb` -/
def free : TxPhase → NtbList NtbPtr
  | idle => ⟨[some 0, some 1], 0, 1⟩
  | filling | sent => ⟨[none, some 1], 1, 1⟩
  | _ => ⟨[none, none], 1, 1⟩

/-- `tx_wait_ntb` -/
def wait : TxPhase → NtbList NtbPtr
  | parked => ⟨[some 0, none], 0, 1⟩
  | full => ⟨[some 0, some 1], 0, 1⟩
  | sentParked => ⟨[some 1, none], 0, 1⟩
  | unparkedFilling => ⟨[none, none], 1, 1⟩
  | unparked => ⟨[none, some 1], 1, 1⟩
  | _ => ⟨[none, none], 0, 0⟩

/-- `tx_usbd_ntb` -/
def usbd : TxPhase → Option NtbPtr
  | idle | filling | parked | full => none
  | _ => some 0

/-- `tx_user_ntb` -/
def user : TxPhase → Option NtbPtr
  | filling => some 0
  | parked | sentFilling | unparkedFilling => some 1
  | _ => none

/-- The number of NTBs that have been opened. -/
def opened : TxPhase → ℕ
  | idle => 0
  | filling | sent => 1
  | _ => 2

/-- Opening a new user NTB succeeds. -/
def accepts : TxPhase → Bool
  | idle | filling | sent => true
  | _ => false

/-- The phase after an attempt to open a new user NTB. -/
def accept : TxPhase → TxPhase
  | idle => filling
  | filling => parked
  | parked => full
  | sent => sentFilling
  | sentFilling => sentParked
  | unparkedFilling => unparked
  | p => p

/-- The NTB that is opened next. -/
def next : TxPhase → NtbPtr
  | idle => 0
  | _ => 1

/-- There is something to hand to USB, when the user NTB holds `index` datagrams. -/
def startable : TxPhase → ℕ → Prop
  | filling, index => index ≠ 0
  | parked, _ | full, _ => True
  | _, _ => False

/-- The phase after `tx_ntb[0]` has been handed to USB. -/
def start : TxPhase → TxPhase
  | filling => sent
  | parked => unparkedFilling
  | full => unparked
  | p => p

/-- The state of the IN direction in a phase. -/
def state (p : TxPhase) (txNtb : NtbPtr → Mem) (index seq : ℕ) : TxState where
  txNtb := txNtb
  txFreeNtb := p.free
  txWaitNtb := p.wait
  txUsbdNtb := p.usbd
  txUserNtb := p.user
  txUserNtbDatagramIndex := index
  txSeqCount := seq

/-! ### The abstract machine -/

lemma user_add_one_eq_opened :
    ∀ {p : TxPhase} {i : NtbPtr}, p.user = some i → i + 1 = p.opened := by
  decide

lemma user_ne_usbd : ∀ {p : TxPhase} {i : NtbPtr}, p.user = some i → p.usbd ≠ some i := by
  decide

lemma next_eq_opened : ∀ {p : TxPhase}, p.accepts = true → (p.next : ℕ) = p.opened := by
  decide

lemma user_accept : ∀ {p : TxPhase}, p.accepts = true → p.accept.user = some p.next := by
  decide

lemma user_accept_of_refuses : ∀ {p : TxPhase}, p.accepts = false → p.accept.user = none := by
  decide

lemma opened_accept : ∀ {p : TxPhase}, p.accepts = true → p.accept.opened = p.opened + 1 := by
  decide

lemma opened_accept_of_refuses :
    ∀ {p : TxPhase}, p.accepts = false → p.accept.opened = p.opened := by
  decide

@[simp] lemma usbd_accept : ∀ p : TxPhase, p.accept.usbd = p.usbd := by decide

@[simp] lemma opened_start : ∀ p : TxPhase, p.start.opened = p.opened := by decide

lemma usbd_start {p : TxPhase} {index : ℕ} (h : p.startable index) :
    p.start.usbd = some 0 := by
  cases p <;> first | rfl | exact h.elim

lemma usbd_eq_none_of_startable {p : TxPhase} {index : ℕ} (h : p.startable index) :
    p.usbd = none := by
  cases p <;> first | rfl | exact h.elim

lemma usbd_cases : ∀ p : TxPhase, p.usbd = none ∨ p.usbd = some 0 := by decide

lemma opened_pos_of_usbd : ∀ {p : TxPhase}, p.usbd = some 0 → 0 < p.opened := by decide

lemma next_ne_zero_of_usbd : ∀ {p : TxPhase}, p.usbd = some 0 → p.next ≠ 0 := by decide

lemma opened_le : ∀ p : TxPhase, p.opened ≤ 2 := by decide

/-- In each phase every NTB has exactly one holder. -/
lemma count_holders : ∀ (p : TxPhase) (i : NtbPtr),
    (p.free.ntbList ++ p.wait.ntbList ++ [p.usbd, p.user]).count (some i) = 1 := by
  decide

/-- Starting leaves the user NTB alone, unless it is the one that is started. -/
lemma user_start {p : TxPhase} {i : NtbPtr} (h : p.start.user = some i) : p.user = some i := by
  cases p <;> first | exact h | simp [start, user] at h

/-- An empty user NTB is not taken from the user. -/
lemma user_start_of_startable_zero {p : TxPhase} {i : NtbPtr} (h : p.startable 0)
    (hi : p.user = some i) : p.start.user = some i := by
  cases p <;> first | exact hi | exact absurd rfl h

/-- What has been opened and is not the new user NTB had been opened before. -/
lemma lt_opened_of_accept : ∀ {p : TxPhase} {i : NtbPtr},
    (i : ℕ) < p.accept.opened → p.accept.user ≠ some i → (i : ℕ) < p.opened := by
  decide

/-- NTBs that wait or are in flight have been opened. -/
lemma lt_opened_of_held : ∀ {p : TxPhase} {i : NtbPtr},
    some i ∈ p.wait.ntbList ∨ p.usbd = some i → (i : ℕ) < p.opened := by
  decide

/-- Without an NTB in flight, whatever waits or has been filled can be handed to USB. -/
lemma startable_of_work {p : TxPhase} {index : ℕ} (hu : p.usbd = none)
    (h : (∃ i, some i ∈ p.wait.ntbList) ∨ p.user ≠ none ∧ index ≠ 0) : p.startable index := by
  cases p with
  | idle => simp [wait, user] at h
  | filling =>
    rcases h with ⟨i, hi⟩ | ⟨-, hindex⟩
    · simp [wait] at hi
    · exact hindex
  | parked | full => trivial
  | _ => simp [usbd] at hu

/-- An NTB that was handed to USB is not free. -/
lemma not_mem_free_of_usbd : ∀ {p : TxPhase} {i : NtbPtr}, p.usbd = some i →
    some i ∉ p.free.ntbList := by
  decide

end TxPhase

/-! ### The driver follows the abstract machine -/

section Refinement

variable {w : World} {p : TxPhase} {ntb : NtbPtr → Mem} {index seq : ℕ}

/-- `tx_accept_user_ntb` when a free NTB can be opened. -/
lemma txAcceptUserNtb_of_accepts (h : w.tx = p.state ntb index seq) (hp : p.accepts = true) :
    (txAcceptUserNtb w).1 = true ∧
      (txAcceptUserNtb w).2.tx = p.accept.state
        (Function.update ntb p.next (populateNtb (ntb p.next) seq)) 0 ((seq + 1) % 2 ^ 16) ∧
      ∃ l, Continues Call.NotTx w.log l ∧ (txAcceptUserNtb w).2.log =
        l ++ [.openNtb p.next (wSequence (populateNtb (ntb p.next) seq))] := by
  cases p with
  | idle =>
    refine ⟨?_, ?_, _, .refl _, ?_⟩ <;>
      simp [txAcceptUserNtb, txOpenUserNtb, h, TxPhase.state, TxPhase.user, TxPhase.free, popNtb,
        TxPhase.next, TxPhase.accept, TxPhase.wait, TxPhase.usbd]
  | filling =>
    have hpush : Call.NotTx (.pushNtb .txWait (some 0) true) := trivial
    refine ⟨?_, ?_, _, .single hpush, ?_⟩ <;>
      simp [txAcceptUserNtb, txOpenUserNtb, pushTxWait, h, TxPhase.state, TxPhase.user,
        TxPhase.free, popNtb, pushNtb, TxPhase.next, TxPhase.accept, TxPhase.wait, TxPhase.usbd]
  | sent =>
    refine ⟨?_, ?_, _, .refl _, ?_⟩ <;>
      simp [txAcceptUserNtb, txOpenUserNtb, h, TxPhase.state, TxPhase.user, TxPhase.free, popNtb,
        TxPhase.next, TxPhase.accept, TxPhase.wait, TxPhase.usbd]
  | _ => simp [TxPhase.accepts] at hp

/-- `tx_accept_user_ntb` when no NTB can be opened.  The user NTB may still be parked. -/
lemma txAcceptUserNtb_of_refuses (h : w.tx = p.state ntb index seq) (hp : p.accepts = false) :
    (txAcceptUserNtb w).1 = false ∧
      (txAcceptUserNtb w).2.tx = p.accept.state ntb index seq ∧
      Continues Call.NotTx w.log (txAcceptUserNtb w).2.log := by
  cases p with
  | idle | filling | sent => simp [TxPhase.accepts] at hp
  | parked | sentFilling | unparkedFilling =>
    have hpush : Call.NotTx (.pushNtb .txWait (some 1) true) := trivial
    refine ⟨?_, ?_, [.pushNtb .txWait (some 1) true], ?_, by simpa using hpush⟩ <;>
      simp [txAcceptUserNtb, txOpenUserNtb, pushTxWait, h, TxPhase.state, TxPhase.user,
        TxPhase.free, popNtb, pushNtb, TxPhase.accept, TxPhase.wait, TxPhase.usbd]
  | full | sentParked | unparked =>
    refine ⟨?_, ?_, [], ?_, by simp⟩ <;>
      simp [txAcceptUserNtb, txOpenUserNtb, h, TxPhase.state, TxPhase.user, TxPhase.free, popNtb,
        TxPhase.accept, TxPhase.wait, TxPhase.usbd]

/-- `tx_try_start` when there is nothing to do. -/
lemma txTryStart_of_not_startable (env : Env) (h : w.tx = p.state ntb index seq)
    (hp : ¬ p.startable index) :
    (txTryStart env w).1 = false ∧ (txTryStart env w).2.tx = w.tx ∧
      (txTryStart env w).2.log = w.log := by
  -- the interface being off or the endpoint busy leads to the same result
  have hoff : ∀ (b b' : Prop) [Decidable b] [Decidable b'] (x : Bool × World),
      x.1 = false ∧ x.2.tx = w.tx ∧ x.2.log = w.log →
        (if b then (false, w) else if b' then (false, w) else x).1 = false ∧
        (if b then (false, w) else if b' then (false, w) else x).2.tx = w.tx ∧
        (if b then (false, w) else if b' then (false, w) else x).2.log = w.log := by
    intro b b' _ _ x hx
    split_ifs
    · exact ⟨rfl, rfl, rfl⟩
    · exact ⟨rfl, rfl, rfl⟩
    · exact hx
  have hpop : ∀ l : NtbList NtbPtr, l = ⟨[none, none], 0, 0⟩ → popNtb l = (none, l) := by
    rintro l rfl
    rfl
  cases p with
  | parked | full => exact absurd trivial hp
  | idle =>
    have husbd : w.tx.txUsbdNtb = none := by rw [h]; rfl
    have huser : w.tx.txUserNtb = none := by rw [h]; rfl
    have hwait := hpop w.tx.txWaitNtb (by rw [h]; rfl)
    unfold txTryStart
    rw [if_neg (by simp [husbd])]
    refine hoff _ _ _ ?_
    simp only [hwait, huser, World.setTx_tx, true_or, and_self, if_true, World.setTx_log]
    rw [h]
    exact ⟨trivial, rfl, trivial⟩
  | filling =>
    obtain rfl : index = 0 := by simpa [TxPhase.startable] using hp
    have husbd : w.tx.txUsbdNtb = none := by rw [h]; rfl
    have hindex' : w.tx.txUserNtbDatagramIndex = 0 := by rw [h]; rfl
    have hwait := hpop w.tx.txWaitNtb (by rw [h]; rfl)
    unfold txTryStart
    rw [if_neg (by simp [husbd])]
    refine hoff _ _ _ ?_
    simp only [hwait, hindex', World.setTx_tx, or_true, and_self, if_true, World.setTx_log]
    rw [h]
    exact ⟨trivial, rfl, trivial⟩
  | _ =>
    have husbd : w.tx.txUsbdNtb = some 0 := by rw [h]; rfl
    simp [txTryStart, husbd]

/-- `tx_try_start` when traffic is not allowed or the endpoint is busy. -/
lemma txTryStart_of_blocked (env : Env)
    (hb : w.interfaceActive ≠ 1 ∨ env.usbEpBusy ncmEpDataIn = true) :
    txTryStart env w = (false, w) := by
  unfold txTryStart
  dsimp only
  split_ifs with h₁ h₂ h₃
  · rfl
  · rfl
  · rfl
  all_goals
    rcases hb with hb | hb
    · exact absurd hb h₂
    · exact absurd hb h₃

/-- `tx_try_start` when there is something to send: `tx_ntb[0]` is handed to USB. -/
lemma txTryStart_of_startable (env : Env) (h : w.tx = p.state ntb index seq)
    (hp : p.startable index) (hactive : w.interfaceActive = 1)
    (hbusy : env.usbEpBusy ncmEpDataIn = false) :
    (txTryStart env w).1 = env.usbTransferEp ncmEpDataIn (.txNtb 0 (ntb 0)) (wBlockLength (ntb 0)) ∧
      (txTryStart env w).2.tx = p.start.state ntb index seq ∧
      (txTryStart env w).2.log = w.log ++ [.usbTransferEp ncmEpDataIn (.txNtb 0 (ntb 0))
        (wBlockLength (ntb 0))
        (env.usbTransferEp ncmEpDataIn (.txNtb 0 (ntb 0)) (wBlockLength (ntb 0)))] := by
  have hbusy' : env.usbEpBusy 130 = false := hbusy
  cases p with
  | filling =>
    have hindex : index ≠ 0 := hp
    refine ⟨?_, ?_, ?_⟩ <;>
      simp [txTryStart, txStartTransfer, usbTransferEp, h, hactive, hbusy', hindex, TxPhase.state,
        TxPhase.user, TxPhase.free, popNtb, TxPhase.start, TxPhase.wait, TxPhase.usbd]
  | parked | full =>
    refine ⟨?_, ?_, ?_⟩ <;>
      simp [txTryStart, txStartTransfer, usbTransferEp, h, hactive, hbusy', TxPhase.state,
        TxPhase.user, TxPhase.free, popNtb, TxPhase.start, TxPhase.wait, TxPhase.usbd]
  | _ => exact absurd hp id

/-- `tx_try_start` either leaves the IN direction alone or hands `tx_ntb[0]` to USB. -/
lemma txTryStart_cases (env : Env) (h : w.tx = p.state ntb index seq) :
    ((txTryStart env w).1 = false ∧ TxQuiet w (txTryStart env w).2 ∧
      ¬ (p.startable index ∧ w.interfaceActive = 1 ∧ env.usbEpBusy ncmEpDataIn = false)) ∨
    (p.startable index ∧ w.interfaceActive = 1 ∧ env.usbEpBusy ncmEpDataIn = false ∧
      ∃ ok, (txTryStart env w).1 = ok ∧ (txTryStart env w).2.tx = p.start.state ntb index seq ∧
      (txTryStart env w).2.log = w.log ++ [.usbTransferEp ncmEpDataIn (.txNtb 0 (ntb 0))
        (wBlockLength (ntb 0)) ok]) := by
  by_cases hp : p.startable index
  · by_cases hactive : w.interfaceActive = 1
    · cases hbusy : env.usbEpBusy ncmEpDataIn with
      | false =>
        obtain ⟨h₁, h₂, h₃⟩ := txTryStart_of_startable env h hp hactive hbusy
        exact Or.inr ⟨hp, hactive, rfl, _, h₁, h₂, h₃⟩
      | true =>
        rw [txTryStart_of_blocked env (Or.inr hbusy)]
        exact Or.inl ⟨rfl, .refl w, by simp⟩
    · rw [txTryStart_of_blocked env (Or.inl hactive)]
      exact Or.inl ⟨rfl, .refl w, fun h' => hactive h'.2.1⟩
  · obtain ⟨h₁, h₂, h₃⟩ := txTryStart_of_not_startable env h hp
    exact Or.inl ⟨h₁, .of_log_eq h₂ h₃, fun h' => hp h'.1⟩

end Refinement

end Fx3Ncm
