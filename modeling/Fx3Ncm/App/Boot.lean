/-
# Start-up and the alternate setting

`net_init` is called by `lwipThread_Entry`, control requests are handled by
`appThread_Entry`, and nothing orders the two threads.  This module is about the runs of
these two kinds of steps from the zeroed `ncm_if`, and about what `interface_active` means
to its readers: `GET_INTERFACE` reports it, the notifications are sent when it is not zero,
and `rx_try_start` and `tx_try_start` let traffic pass when it equals one.
-/
import Fx3Ncm.Ncm.Control

namespace Fx3Ncm

open Runs

/-- A step of one of the two threads. -/
inductive BootStep where
  /-- `lwipThread_Entry` calls `net_init`. -/
  | netInit
  /-- `appThread_Entry` passes a request to `net_usb_control_transfer`. -/
  | control (request : UsbControlRequest) (env : Env)

/-- The driver during start-up, the `wValue` of the last `SET_INTERFACE` request, and whether the
host was told that the link is up: a connection notification was sent, and the host has not
selected the setting zero since. -/
structure Boot where
  driver : World
  selected : Option UInt16
  told : Bool

namespace Boot

/-- Before anything has run, `ncm_if` is zeroed memory. -/
def init : Boot where
  driver := { NcmInterface.zero with log := [], admitted := none }
  selected := none
  told := false

/-- The number of connection notifications that have been sent. -/
def connections (w : World) : ℕ := (notified w.log).count notifyConnection

/-- One step. -/
def step (s : Boot) : BootStep → Boot
  | .netInit => { s with driver := { Fx3Ncm.netInit with log := s.driver.log, admitted := none } }
  | .control request env =>
    let driver := (netUsbControlTransfer env request s.driver).2
    let told := s.told || decide (connections s.driver < connections driver)
    if request.IsSetInterface then
      { driver := driver
        selected := some request.wValue
        told := told && decide (request.wValue ≠ 0) }
    else { s with driver := driver, told := told }

end Boot

/-- The request is a `GET_INTERFACE`, as `net_usb_control_transfer` recognises it. -/
def UsbControlRequest.IsGetInterface (request : UsbControlRequest) : Prop :=
  request.type = usbTypeStandard ∧ request.bRequest = usbReqGetInterface

/-- `GET_INTERFACE` is answered with the setting `value`. -/
def Reports (w : World) (value : UInt16) : Prop :=
  ∃ b : UInt8, b.toNat = value.toNat ∧ ∀ env request, request.IsGetInterface →
    (netUsbControlTransfer env request w).2.log = w.log ++ [.usbTransferEp0 [b] 1]

/-- What is to hold of a step: afterwards `GET_INTERFACE` reports the setting requested last; a
connection notification is sent only if the traffic gates are open afterwards; and they are
open as long as the host has been told that the link is up. -/
structure OneMeaning (s : Boot) (e : BootStep) : Prop where
  reports : ∀ value, (s.step e).selected = some value → Reports (s.step e).driver value
  opens : Boot.connections s.driver < Boot.connections (s.step e).driver →
    (s.step e).driver.interfaceActive = 1
  stays : (s.step e).told = true → (s.step e).driver.interfaceActive = 1

/-- The condition on a step: a requested setting fits into 8 bits, and one that is neither zero
nor one is requested only when no notification goes with it or is in force; and `net_init` runs
only with the setting zero. -/
def Consistent (s : Boot) : BootStep → Prop
  | .netInit => s.driver.interfaceActive = 0
  | .control request _ => request.IsSetInterface →
      request.wValue.toNat < 2 ^ 8 ∧
        (request.wValue ≠ 0 → s.driver.notificationState = .waiting ∨ s.told = true →
          request.wValue = 1)

/-! ### What the steps do -/

section Steps

variable (s : Boot) {request : UsbControlRequest} (env : Env)

lemma count_notificationPair : notificationPair.count notifyConnection = 1 := by decide

/-- A request that is not a `SET_INTERFACE` leaves the control state alone. -/
lemma controlQuiet_netUsbControlTransfer (w : World) (h : ¬ request.IsSetInterface) :
    ControlQuiet w (netUsbControlTransfer env request w).2 := by
  have hq := controlQuiet_step w (.netUsbControlTransfer request, env)
    (by rintro _ ⟨⟩; exact h) id
  exact ⟨hq.same, hq.calls⟩

lemma step_control_of_not_setInterface (h : ¬ request.IsSetInterface) :
    (s.step (.control request env)).selected = s.selected ∧
      (s.step (.control request env)).told = s.told ∧
      ControlQuiet s.driver (s.step (.control request env)).driver := by
  have hq := controlQuiet_netUsbControlTransfer env s.driver h
  have hsame : Boot.connections (netUsbControlTransfer env request s.driver).2 =
      Boot.connections s.driver := by
    rw [Boot.connections, hq.calls.notifying.notified]
    exact congrArg (List.count notifyConnection) (List.append_nil _)
  simp only [Boot.step, if_neg h, hsame, lt_irrefl, decide_false, Bool.or_false, true_and]
  exact hq

/-- The connection notifications sent by a `SET_INTERFACE` request. -/
lemma connections_setInterface (w : World) (wValue : UInt16) :
    Boot.connections w < Boot.connections (setInterface env wValue w) ↔
      wValue.toNat % 2 ^ 8 ≠ 0 ∧ w.notificationState = .waiting := by
  rw [Boot.connections, Boot.connections, (control_setInterface env w wValue).2.notified,
    List.count_append]
  split_ifs with h
  · rw [show notified (notifyCalls env) = notificationPair from rfl, count_notificationPair]
    exact iff_of_true (Nat.lt_succ_self _) h
  · exact iff_of_false (lt_irrefl _) h

/-- A `SET_INTERFACE` request stores the setting and sends a connection notification if it is
not zero and the notification state is `WAITING`. -/
lemma step_control_of_setInterface (h : request.IsSetInterface) :
    (s.step (.control request env)).selected = some request.wValue ∧
      (s.step (.control request env)).driver.interfaceActive = request.wValue.toNat % 2 ^ 8 ∧
      (Boot.connections s.driver < Boot.connections (s.step (.control request env)).driver ↔
        request.wValue.toNat % 2 ^ 8 ≠ 0 ∧ s.driver.notificationState = .waiting) ∧
      ((s.step (.control request env)).told = true ↔ request.wValue ≠ 0 ∧
        (s.told = true ∨
          request.wValue.toNat % 2 ^ 8 ≠ 0 ∧ s.driver.notificationState = .waiting)) := by
  have hsent := connections_setInterface env s.driver request.wValue
  simp only [Boot.step, if_pos h, netUsbControlTransfer_of_isSetInterface env s.driver h]
  refine ⟨trivial, ?_, hsent, ?_⟩
  · exact congrArg Control.active (control_setInterface env s.driver request.wValue).1
  · rw [Bool.and_eq_true, Bool.or_eq_true, decide_eq_true_iff, decide_eq_true_iff, hsent]
    exact and_comm

/-- `GET_INTERFACE` reports the low byte of the setting stored. -/
lemma reports_iff (w : World) (value : UInt16) :
    Reports w value ↔ w.interfaceActive % 2 ^ 8 = value.toNat := by
  have hget : ∀ env request, UsbControlRequest.IsGetInterface request →
      (netUsbControlTransfer env request w).2.log =
        w.log ++ [.usbTransferEp0 [UInt8.ofNat w.interfaceActive] 1] := by
    intro env request h
    rw [netUsbControlTransfer, if_pos h.1, if_pos h.2]
    rfl
  constructor
  · rintro ⟨b, hb, h⟩
    have hcall := h .accepting ⟨0, 0, 0, 0x0A, 0, 0, 0⟩ ⟨rfl, rfl⟩
    rw [hget _ _ ⟨rfl, rfl⟩] at hcall
    simp only [List.append_cancel_left_eq, List.cons.injEq, Call.usbTransferEp0.injEq,
      and_true] at hcall
    rw [← hb, ← hcall, UInt8.toNat_ofNat']
  · intro h
    exact ⟨UInt8.ofNat w.interfaceActive, by rw [UInt8.toNat_ofNat', h], hget⟩

end Steps

/-! ### The invariant and the two directions -/

/-- As long as the setting had one meaning: it is the one requested last, and one if the host has
been told that the link is up. -/
structure BootInv (s : Boot) : Prop where
  unset : s.selected = none → s.driver.interfaceActive = 0 ∧ s.told = false
  set : ∀ value, s.selected = some value → s.driver.interfaceActive = value.toNat
  up : s.told = true → s.driver.interfaceActive = 1
  small : s.driver.interfaceActive < 2 ^ 8

namespace BootInv

variable {s : Boot} {e : BootStep}

lemma init : BootInv Boot.init where
  unset _ := ⟨rfl, rfl⟩
  set _ h := nomatch h
  up h := nomatch h
  small := by decide

/-- The step lemma. -/
lemma step (h : BootInv s) (hQ : OneMeaning s e) : BootInv (s.step e) := by
  have hset : ∀ value, (s.step e).driver.interfaceActive < 2 ^ 8 →
      (s.step e).selected = some value → (s.step e).driver.interfaceActive = value.toNat := by
    intro value hsmall hvalue
    rw [← (reports_iff _ _).1 (hQ.reports value hvalue), Nat.mod_eq_of_lt hsmall]
  cases e with
  | netInit =>
    have hsmall : (s.step .netInit).driver.interfaceActive < 2 ^ 8 := Nat.two_pow_pos 8
    exact ⟨fun hnone => ⟨rfl, (h.unset hnone).2⟩, fun value => hset value hsmall, hQ.stays, hsmall⟩
  | control request env =>
    by_cases hrequest : request.IsSetInterface
    · obtain ⟨hsel, hactive, -⟩ := step_control_of_setInterface s env hrequest
      have hsmall : (s.step (.control request env)).driver.interfaceActive < 2 ^ 8 := by
        rw [hactive]
        exact Nat.mod_lt _ (by decide)
      refine ⟨fun hnone => ?_, fun value => hset value hsmall, hQ.stays, hsmall⟩
      rw [hsel] at hnone
      cases hnone
    · obtain ⟨hsel, htold, hq⟩ := step_control_of_not_setInterface s env hrequest
      have hactive := congrArg Control.active hq.same
      have hsmall : (s.step (.control request env)).driver.interfaceActive < 2 ^ 8 :=
        lt_of_eq_of_lt hactive h.small
      refine ⟨fun hnone => ?_, fun value => hset value hsmall, hQ.stays, hsmall⟩
      rw [hsel] at hnone
      rw [htold]
      exact ⟨hactive.trans (h.unset hnone).1, (h.unset hnone).2⟩

/-- For `net_init`. -/
lemma oneMeaning_netInit_iff (h : BootInv s) :
    OneMeaning s .netInit ↔ s.driver.interfaceActive = 0 := by
  constructor
  · intro hQ
    cases hsel : s.selected with
    | none => exact (h.unset hsel).1
    | some value =>
      -- `GET_INTERFACE` reports zero now
      have hreports : 0 = value.toNat := (reports_iff _ _).1 (hQ.reports value hsel)
      rw [h.set value hsel, ← hreports]
  · intro hzero
    refine ⟨?_, fun hsent => absurd hsent (lt_irrefl _), ?_⟩
    · intro value hsel
      refine (reports_iff _ _).2 ?_
      rw [← h.set value hsel, hzero]
      rfl
    · intro htold
      rw [h.up htold] at hzero
      cases hzero

/-- For a `SET_INTERFACE` request. -/
lemma oneMeaning_setInterface_iff {request : UsbControlRequest} {env : Env}
    (hrequest : request.IsSetInterface) :
    OneMeaning s (.control request env) ↔ request.wValue.toNat < 2 ^ 8 ∧
      (request.wValue ≠ 0 → s.driver.notificationState = .waiting ∨ s.told = true →
        request.wValue = 1) := by
  obtain ⟨hsel, hactive, hsent, htold⟩ :=
    step_control_of_setInterface s env hrequest
  have hone : request.wValue.toNat = 1 ↔ request.wValue = 1 :=
    ⟨fun h => UInt16.toNat_inj.1 h, fun h => congrArg UInt16.toNat h⟩
  have hzero : request.wValue ≠ 0 ↔ request.wValue.toNat ≠ 0 :=
    not_congr ⟨fun h => congrArg UInt16.toNat h, fun h => UInt16.toNat_inj.1 h⟩
  constructor
  · intro hQ
    have hreports := (reports_iff _ _).1 (hQ.reports _ hsel)
    rw [hactive, Nat.mod_mod] at hreports
    have hlt : request.wValue.toNat < 2 ^ 8 := hreports ▸ Nat.mod_lt _ (by decide)
    refine ⟨hlt, fun hne hwhy => ?_⟩
    have hup : (s.step (.control request env)).told = true := by
      refine htold.2 ⟨hne, ?_⟩
      rcases hwhy with hwait | hup
      · exact Or.inr ⟨hreports.symm ▸ hzero.1 hne, hwait⟩
      · exact Or.inl hup
    have h := hQ.stays hup
    rwa [hactive, hreports, hone] at h
  · rintro ⟨hlt, hC⟩
    have hmod : request.wValue.toNat % 2 ^ 8 = request.wValue.toNat := Nat.mod_eq_of_lt hlt
    rw [hmod] at hactive hsent htold
    refine ⟨?_, ?_, ?_⟩
    · intro value hvalue
      rw [hsel] at hvalue
      cases hvalue
      rw [reports_iff, hactive, hmod]
    · intro h
      obtain ⟨hne, hwait⟩ := hsent.1 h
      rw [hactive, hone]
      exact hC (hzero.2 hne) (Or.inl hwait)
    · intro h
      obtain ⟨hne, hwhy⟩ := htold.1 h
      rw [hactive, hone]
      rcases hwhy with hup | ⟨-, hwait⟩
      · exact hC hne (Or.inr hup)
      · exact hC hne (Or.inl hwait)

/-- Any other request changes nothing. -/
lemma oneMeaning_of_not_setInterface (h : BootInv s) {request : UsbControlRequest} {env : Env}
    (hrequest : ¬ request.IsSetInterface) : OneMeaning s (.control request env) := by
  obtain ⟨hsel, htold, hq⟩ := step_control_of_not_setInterface s env hrequest
  have hactive : (s.step (.control request env)).driver.interfaceActive =
    s.driver.interfaceActive := congrArg Control.active hq.same
  refine ⟨?_, ?_, ?_⟩
  · intro value hvalue
    rw [hsel] at hvalue
    rw [reports_iff, hactive, Nat.mod_eq_of_lt h.small]
    exact h.set value hvalue
  · intro hsent
    rw [Boot.connections, Boot.connections, hq.calls.notifying.notified, List.count_append] at hsent
    exact absurd hsent (lt_irrefl _)
  · rw [htold, hactive]
    exact h.up

lemma oneMeaning_iff (h : BootInv s) : OneMeaning s e ↔ Consistent s e := by
  cases e with
  | netInit => exact h.oneMeaning_netInit_iff
  | control request env =>
    by_cases hrequest : request.IsSetInterface
    · rw [oneMeaning_setInterface_iff hrequest]
      exact ⟨fun h _ => h, fun h => h hrequest⟩
    · exact iff_of_true (h.oneMeaning_of_not_setInterface hrequest)
        fun h' => absurd h' hrequest

end BootInv

/-- In every order of `net_init` and control requests, the alternate setting has one meaning
throughout if and only if every step is consistent. -/
theorem alternate_setting (es : List BootStep) :
    Along Boot.step OneMeaning Boot.init es ↔ Along Boot.step Consistent Boot.init es :=
  along_iff_along (G := fun _ _ => True) (fun _ _ h _ hQ => h.step hQ)
    (fun _ _ h _ => h.oneMeaning_iff) BootInv.init (Along.of_forall fun _ _ => trivial)

/-- The setting 2 is announced to the host and refused by the traffic gates; the setting 256 is
reported as 0; and `net_init` erases a setting that was selected and announced before it. -/
theorem alternate_setting_fails :
    ¬ Along Boot.step OneMeaning Boot.init [.netInit, .control (.setInterface 2) .accepting] ∧
      ¬ Along Boot.step OneMeaning Boot.init [.netInit, .control (.setInterface 256) .accepting] ∧
      ¬ Along Boot.step OneMeaning Boot.init
        [.control (.setInterface 1) .accepting, .netInit] := by
  refine ⟨?_, ?_, ?_⟩
  · rintro ⟨-, h, -⟩
    have hopen : 2 = 1 := h.opens (by decide)
    cases hopen
  · rintro ⟨-, h, -⟩
    have hreports : 0 = 256 := (reports_iff _ _).1 (h.reports 256 rfl)
    cases hreports
  · rintro ⟨-, h, -⟩
    have hstays : 0 = 1 := h.stays (by decide)
    cases hstays

end Fx3Ncm
