/-
# The control state and the notifications

The alternate setting `interface_active` and the notification state are written by two
kinds of steps only: a `SET_INTERFACE` request, and a completion on `NCM_EP_NOTIFY`.
`Control` is an abstract machine with these two fields.  It reads no NTB and no answer of
the environment, and it knows when the pair of notifications is sent.  The driver follows
it step by step (`control_step`, `notified_step`).

The pair is two transfers, and each of the two completions moves the notification state on.
The first one brings it back to `WAITING`, where the second one sends the pair again.
-/
import Fx3Ncm.Ncm.History

namespace Fx3Ncm

open ByteMemory Runs

/-! ### The abstract machine -/

/-- The alternate setting selected and the notification state. -/
structure Control where
  active : ℕ
  notification : NotifyState
deriving DecidableEq, Repr

/-- The request is a `SET_INTERFACE`, as `net_usb_control_transfer` recognises it. -/
def UsbControlRequest.IsSetInterface (request : UsbControlRequest) : Prop :=
  request.type = usbTypeStandard ∧ request.bRequest = usbReqSetInterface

instance (request : UsbControlRequest) : Decidable request.IsSetInterface :=
  inferInstanceAs (Decidable (_ ∧ _))

/-- The setting that is stored by a `SET_INTERFACE` request. -/
def UsbControlRequest.setting (request : UsbControlRequest) : ℕ := request.wValue.toNat % 2 ^ 8

/-- A `SET_INTERFACE` request that stores a nonzero setting. -/
def Event.Activates : Event → Prop
  | .netUsbControlTransfer request => request.IsSetInterface ∧ request.setting ≠ 0
  | _ => False

instance : DecidablePred Event.Activates := fun event =>
  match event with
  | .netUsbControlTransfer request =>
    inferInstanceAs (Decidable (request.IsSetInterface ∧ request.setting ≠ 0))
  | .netCanTx _ | .netTx _ _ | .netRxRenew | .rxUpdateUserNtb | .netUsbTransfer _ _
  | .usbWrite _ => inferInstanceAs (Decidable False)

/-- A completion of a notification. -/
def Event.CompletesNotification : Event → Prop
  | .netUsbTransfer ep _ => ep = ncmEpNotify
  | _ => False

instance : DecidablePred Event.CompletesNotification := fun event =>
  match event with
  | .netUsbTransfer ep _ => inferInstanceAs (Decidable (ep = ncmEpNotify))
  | .netCanTx _ | .netTx _ _ | .netRxRenew | .rxUpdateUserNtb | .netUsbControlTransfer _
  | .usbWrite _ => inferInstanceAs (Decidable False)

namespace Control

/-- The notification state after a completion. -/
def nextNotification : NotifyState → NotifyState
  | .waiting => .connected
  | .speedChange => .speedChange
  | .connected => .waiting

/-- The control state after an event. -/
def step (c : Control) : Event → Control
  | .netUsbControlTransfer request =>
    if request.IsSetInterface then
      { active := request.setting
        notification := if request.setting ≠ 0 ∧ c.notification = .waiting then .connected
          else c.notification }
    else c
  | .netUsbTransfer ep _ =>
    if ep = ncmEpNotify then { c with notification := nextNotification c.notification } else c
  | _ => c

/-- The pair of notifications is sent: the state is `WAITING`, and a setting is selected or a
completion is reported. -/
def Notifies (c : Control) (event : Event) : Prop :=
  c.notification = .waiting ∧ (event.Activates ∨ event.CompletesNotification)

instance (c : Control) (event : Event) : Decidable (c.Notifies event) :=
  inferInstanceAs (Decidable (_ ∧ _))

lemma notifies_control_iff {c : Control} {request : UsbControlRequest}
    (h : request.IsSetInterface) : c.Notifies (.netUsbControlTransfer request) ↔
      request.setting ≠ 0 ∧ c.notification = .waiting := by
  simp only [Notifies, Event.Activates, Event.CompletesNotification, h, true_and, or_false]
  exact and_comm

lemma notifies_notify_iff {c : Control} {bytes : UInt16} :
    c.Notifies (.netUsbTransfer ncmEpNotify bytes) ↔ c.notification = .waiting := by
  simp [Notifies, Event.CompletesNotification]

end Control

/-- The control state of the driver. -/
def World.control (w : World) : Control := ⟨w.interfaceActive, w.notificationState⟩

/-- The messages passed to `usb_transfer_ep` for `NCM_EP_NOTIFY`. -/
def notified (log : List Call) : List (List UInt8) :=
  log.filterMap fun
    | .usbTransferEp ep (.message bytes) _ _ => if ep = ncmEpNotify then some bytes else none
    | _ => none

/-- The two notifications that `tx_notification` sends. -/
def notificationPair : List (List UInt8) := [notifySpeed, notifyConnection]

/-! ### What leaves the control state alone -/

/-- The call passes something to `NCM_EP_NOTIFY`. -/
def Call.isNotify : Call → Bool
  | .usbTransferEp ep _ _ _ => ep == ncmEpNotify
  | _ => false

/-- Calls that do not use `NCM_EP_NOTIFY`. -/
def Call.NotNotify (c : Call) : Prop := c.isNotify = false

/-- The control state and the notifications are not touched. -/
abbrev ControlQuiet : World → World → Prop := Quiet World.control Call.NotNotify

/-- The two calls in which `tx_notification` sends the pair. -/
def notifyCalls (env : Env) : List Call :=
  [.usbTransferEp ncmEpNotify (.message notifySpeed) notifySpeed.length
      (env.usbTransferEp ncmEpNotify (.message notifySpeed) notifySpeed.length),
    .usbTransferEp ncmEpNotify (.message notifyConnection) notifyConnection.length
      (env.usbTransferEp ncmEpNotify (.message notifyConnection) notifyConnection.length)]

/-- The record `l'` continues `l`, and the calls that are new and use `NCM_EP_NOTIFY` are `ns`. -/
def Notifying (ns l l' : List Call) : Prop := ∃ cs, l' = l ++ cs ∧ cs.filter Call.isNotify = ns

lemma Continues.notifying {l l' : List Call} (h : Continues Call.NotNotify l l') :
    Notifying [] l l' := by
  obtain ⟨cs, hlog, hcs⟩ := h
  refine ⟨cs, hlog, List.filter_eq_nil_iff.2 fun c hc => ?_⟩
  rw [Bool.not_eq_true]
  exact hcs c hc

lemma Notifying.trans {ns ns' l l' l'' : List Call} (h : Notifying ns l l')
    (h' : Notifying ns' l' l'') : Notifying (ns ++ ns') l l'' := by
  obtain ⟨cs, rfl, rfl⟩ := h
  obtain ⟨cs', rfl, rfl⟩ := h'
  exact ⟨cs ++ cs', by rw [List.append_assoc], List.filter_append ..⟩

/-- The messages are read off the calls that use the endpoint. -/
lemma notified_filter (cs : List Call) : notified (cs.filter Call.isNotify) = notified cs := by
  induction cs with
  | nil => rfl
  | cons c cs ih =>
    have hcons : ∀ cs : List Call, notified (c :: cs) = notified [c] ++ notified cs :=
      fun cs => by rw [notified, ← List.singleton_append, List.filterMap_append]; rfl
    by_cases hc : c.isNotify = true
    · rw [List.filter_cons_of_pos hc, hcons, hcons cs, ih]
    · have hnone : notified [c] = [] := by
        cases c with
        | usbTransferEp ep buffer bytes ok =>
          have hep : ep ≠ ncmEpNotify := by
            rintro rfl
            exact hc rfl
          cases buffer with
          | message data =>
            simp only [notified, List.filterMap_cons, if_neg hep, List.filterMap_nil]
          | _ => rfl
        | _ => rfl
      rw [List.filter_cons_of_neg hc, hcons, hnone, ih, List.nil_append]

lemma Notifying.notified {ns l l' : List Call} (h : Notifying ns l l') :
    notified l' = notified l ++ notified ns := by
  obtain ⟨cs, rfl, rfl⟩ := h
  rw [notified_filter, Fx3Ncm.notified, List.filterMap_append]
  rfl

section ControlQuiet

variable (env : Env) (w : World)

lemma controlQuiet_setRx (rx : RxState) : ControlQuiet w (w.setRx rx) := .of_log_eq rfl rfl

lemma controlQuiet_setTx (tx : TxState) : ControlQuiet w (w.setTx tx) := .of_log_eq rfl rfl

lemma controlQuiet_record {c : Call} (hc : c.NotNotify) : ControlQuiet w (w.record c) :=
  .of_log_append rfl rfl hc

lemma controlQuiet_pushRxFree (ntb : Option NtbPtr) : ControlQuiet w (pushRxFree ntb w).2 :=
  .of_log_append rfl rfl rfl

lemma controlQuiet_rxUpdateUserNtb : ControlQuiet w (rxUpdateUserNtb env w).2 := by
  refine (offerQuiet_rxUpdateUserNtb env w).weaken (fun x => Control.mk x.2.1 x.2.2) fun c hc => ?_
  cases c <;> first | rfl | exact absurd hc id

lemma controlQuiet_rxTryStart : ControlQuiet w (rxTryStart env w).2 := by
  unfold rxTryStart
  dsimp only
  split_ifs
  · exact .refl w
  · exact .refl w
  · exact .refl w
  · split
    · exact controlQuiet_setRx w _
    · have hstart : ∀ (w : World) (c : Call) (rx : RxState), c.NotNotify →
          ControlQuiet w ((w.setRx rx).record c) :=
        fun w c rx hc => (controlQuiet_setRx w rx).trans (controlQuiet_record _ hc)
      split_ifs
      · exact hstart w _ _ (by simp [Call.NotNotify, Call.isNotify])
      · exact (hstart w _ _ (by simp [Call.NotNotify, Call.isNotify])).trans
          (controlQuiet_pushRxFree _ _)

lemma controlQuiet_netRxRenew : ControlQuiet w (netRxRenew env w) :=
  (controlQuiet_rxUpdateUserNtb env w).trans (controlQuiet_rxTryStart env _)

lemma controlQuiet_txAcceptUserNtb : ControlQuiet w (txAcceptUserNtb w).2 := by
  have hopen : ∀ w : World, ControlQuiet w (txOpenUserNtb w).2 := by
    intro w
    unfold txOpenUserNtb
    dsimp only
    split
    · exact controlQuiet_setTx w _
    · exact .of_log_append rfl rfl rfl
  have hpush : ControlQuiet w (pushTxWait w.tx.txUserNtb w).2 := .of_log_append rfl rfl rfl
  unfold txAcceptUserNtb
  dsimp only
  split_ifs
  · exact hpush.trans (hopen _)
  · exact hpush
  · exact hopen w

lemma controlQuiet_txTryStart : ControlQuiet w (txTryStart env w).2 := by
  have hstart : ∀ w : World, ControlQuiet w (txStartTransfer env w).2 := by
    intro w
    unfold txStartTransfer
    split
    · exact .refl w
    · exact controlQuiet_record w (by simp [Call.NotNotify, Call.isNotify])
  unfold txTryStart
  dsimp only
  split_ifs
  · exact .refl w
  · exact .refl w
  · exact .refl w
  · exact controlQuiet_setTx w _
  · refine Quiet.trans ?_ (hstart _)
    exact .of_log_eq rfl rfl
  · exact (controlQuiet_setTx w _).trans (hstart _)

lemma controlQuiet_netCanTx (size : UInt16) : ControlQuiet w (netCanTx env size w).2 := by
  unfold netCanTx
  dsimp only
  split_ifs
  · exact .refl w
  · exact controlQuiet_txAcceptUserNtb w
  · exact (controlQuiet_txAcceptUserNtb w).trans (controlQuiet_txTryStart env _)

lemma controlQuiet_netTx (written : List UInt8) (size : UInt16) :
    ControlQuiet w (netTx env written size w) := by
  have hstore : ∀ i, ControlQuiet w (txStoreDatagram i written size.toNat w) :=
    fun i => .of_log_append rfl rfl rfl
  unfold netTx
  split
  · exact .refl w
  · dsimp only
    split_ifs
    · exact hstore _
    · exact (hstore _).trans (controlQuiet_txTryStart env _)

lemma controlQuiet_netUsbTransfer {ep : UInt8} (hep : ep ≠ ncmEpNotify) (bytes : UInt16) :
    ControlQuiet w (netUsbTransfer env ep bytes w) := by
  have hrecord : ControlQuiet w (recordCompletion ep bytes w) := .of_log_append rfl rfl rfl
  refine hrecord.trans ?_
  unfold netUsbTransfer
  dsimp only
  split_ifs
  · refine Quiet.trans ?_ (controlQuiet_netRxRenew env _)
    exact .of_log_append rfl rfl rfl
  · rw [netDataIn_eq]
    split_ifs
    · exact (controlQuiet_pushRxFree _ _).trans (controlQuiet_txTryStart env _)
    · exact (controlQuiet_pushRxFree _ _).trans
        (controlQuiet_record _ (by simp [Call.NotNotify, Call.isNotify]))
  · exact .refl _

lemma controlQuiet_usbWrite (block : Mem) : ControlQuiet w (usbWrite block w) := by
  unfold usbWrite
  split
  · exact .refl w
  · exact controlQuiet_setRx w _

end ControlQuiet

/-! ### The driver follows the abstract machine -/

section Refinement

variable (env : Env) (w : World)

/-- `tx_notification` in the state `WAITING` sends the pair. -/
lemma txNotification_of_waiting (force : Bool) (h : w.notificationState = .waiting) :
    (txNotification env force w).control = ⟨w.interfaceActive, .connected⟩ ∧
      Notifying (notifyCalls env) w.log (txNotification env force w).log := by
  have hpass : ¬ ((!force && decide (w.notificationState ≠ .waiting)) = true) := by simp [h]
  rw [txNotification, if_neg hpass, if_pos h]
  exact ⟨rfl, notifyCalls env, by simp [usbTransferEp, notifyCalls], rfl⟩

/-- `tx_notification` in another state sends nothing. -/
lemma txNotification_of_not_waiting (force : Bool) (h : w.notificationState ≠ .waiting) :
    (txNotification env force w).control =
        ⟨w.interfaceActive, if force then Control.nextNotification w.notificationState
          else w.notificationState⟩ ∧
      Notifying [] w.log (txNotification env force w).log := by
  cases force with
  | false =>
    rw [txNotification, if_pos (by simp [h])]
    exact ⟨rfl, (Continues.refl _).notifying⟩
  | true =>
    rw [txNotification, if_neg (by simp), if_neg h]
    cases hn : w.notificationState with
    | waiting => exact absurd hn h
    | speedChange =>
      rw [if_neg (by decide)]
      exact ⟨by simp [World.control, Control.nextNotification, hn], (Continues.refl _).notifying⟩
    | connected => exact ⟨rfl, (Continues.refl _).notifying⟩

/-- A `SET_INTERFACE` request. -/
lemma control_setInterface (wValue : UInt16) :
    (setInterface env wValue w).control =
        ⟨wValue.toNat % 2 ^ 8, if wValue.toNat % 2 ^ 8 ≠ 0 ∧ w.notificationState = .waiting
          then .connected else w.notificationState⟩ ∧
      Notifying (if wValue.toNat % 2 ^ 8 ≠ 0 ∧ w.notificationState = .waiting then notifyCalls env
        else []) w.log (setInterface env wValue w).log := by
  have hstatus : ∀ w : World, Notifying [] w.log (w.record .usbControlStatus).log :=
    fun w => (controlQuiet_record w (c := .usbControlStatus) rfl).calls.notifying
  rw [setInterface]
  by_cases hv : wValue.toNat % 2 ^ 8 = 0
  · simp only [hv, ne_eq, not_true_eq_false, if_false, false_and]
    exact ⟨rfl, hstatus _⟩
  · simp only [hv, ne_eq, not_false_eq_true, if_true, true_and]
    have hq := controlQuiet_rxUpdateUserNtb env { w with interfaceActive := wValue.toNat % 2 ^ 8 }
    set w' := (rxUpdateUserNtb env { w with interfaceActive := wValue.toNat % 2 ^ 8 }).2
    have hactive : w'.interfaceActive = wValue.toNat % 2 ^ 8 := congrArg Control.active hq.same
    have hstate : w'.notificationState = w.notificationState :=
      congrArg Control.notification hq.same
    by_cases hwait : w.notificationState = .waiting
    · obtain ⟨hc, hn⟩ := txNotification_of_waiting env w' false (hstate.trans hwait)
      rw [if_pos hwait, if_pos hwait, ← hactive]
      refine ⟨hc, ?_⟩
      have hlog := (hq.calls.notifying.trans hn).trans (hstatus _)
      rwa [List.nil_append, List.append_nil] at hlog
    · obtain ⟨hc, hn⟩ :=
        txNotification_of_not_waiting env w' false fun h => hwait (hstate.symm.trans h)
      rw [if_neg hwait, if_neg hwait, ← hactive, ← hstate]
      exact ⟨hc, (hq.calls.notifying.trans hn).trans (hstatus _)⟩

/-- A completion on `NCM_EP_NOTIFY`. -/
lemma control_netUsbTransfer_notify (bytes : UInt16) :
    (netUsbTransfer env ncmEpNotify bytes w).control =
        ⟨w.interfaceActive, Control.nextNotification w.notificationState⟩ ∧
      Notifying (if w.notificationState = .waiting then notifyCalls env else []) w.log
        (netUsbTransfer env ncmEpNotify bytes w).log := by
  set w' := recordCompletion ncmEpNotify bytes w
  have hq : ControlQuiet w w' := .of_log_append rfl rfl rfl
  have hrecord := hq.calls.notifying
  have heq : netUsbTransfer env ncmEpNotify bytes w = txNotification env true w' := rfl
  rw [heq]
  by_cases hwait : w.notificationState = .waiting
  · obtain ⟨hc, hn⟩ := txNotification_of_waiting env w' true hwait
    rw [if_pos hwait, hwait]
    exact ⟨hc, hrecord.trans hn⟩
  · obtain ⟨hc, hn⟩ := txNotification_of_not_waiting env w' true hwait
    rw [if_neg hwait]
    exact ⟨hc, hrecord.trans hn⟩

/-- The steps that leave the control state alone. -/
lemma controlQuiet_step (input : Input)
    (hset : ∀ request, input.1 = .netUsbControlTransfer request → ¬ request.IsSetInterface)
    (hnotify : ¬ input.1.CompletesNotification) :
    ControlQuiet w (step w input) := by
  have hq : ControlQuiet (perform w input) (step w input) := .of_log_eq rfl rfl
  refine Quiet.trans ?_ hq
  obtain ⟨event, env⟩ := input
  cases event with
  | netCanTx size => exact controlQuiet_netCanTx env w size
  | netTx written size => exact controlQuiet_netTx env w written size
  | netRxRenew => exact controlQuiet_netRxRenew env w
  | rxUpdateUserNtb => exact controlQuiet_rxUpdateUserNtb env w
  | netUsbTransfer ep bytes => exact controlQuiet_netUsbTransfer env w hnotify bytes
  | netUsbControlTransfer request =>
    change ControlQuiet w (netUsbControlTransfer env request w).2
    unfold netUsbControlTransfer
    split_ifs with htype hget hset'
    · exact controlQuiet_record w rfl
    · exact absurd ⟨htype, hset'⟩ (hset request rfl)
    · exact .refl w
    · exact controlQuiet_record w rfl
    · exact .refl w
    · exact .refl w
  | usbWrite block => exact controlQuiet_usbWrite w block

/-- What a `SET_INTERFACE` request does. -/
lemma netUsbControlTransfer_of_isSetInterface {request : UsbControlRequest}
    (h : request.IsSetInterface) :
    netUsbControlTransfer env request w = (true, setInterface env request.wValue w) := by
  rw [netUsbControlTransfer, if_pos h.1, if_neg, if_pos h.2]
  rw [h.2]
  decide

/-- The simulation step: the driver follows the control machine, and it sends the pair of
notifications when that machine says so. -/
lemma step_follows (input : Input) :
    (step w input).control = w.control.step input.1 ∧
      Notifying (if w.control.Notifies input.1 then notifyCalls input.2 else []) w.log
        (step w input).log := by
  obtain ⟨event, env⟩ := input
  by_cases hset : ∃ request, event = .netUsbControlTransfer request ∧ request.IsSetInterface
  · obtain ⟨request, rfl, hrequest⟩ := hset
    have heq : step w (.netUsbControlTransfer request, env) =
        { setInterface env request.wValue w with admitted := w.admitted } := by
      change { (netUsbControlTransfer env request w).2 with admitted := w.admitted } = _
      rw [netUsbControlTransfer_of_isSetInterface env w hrequest]
    obtain ⟨hc, hn⟩ := control_setInterface env w request.wValue
    rw [heq]
    simp only [Control.step, if_pos hrequest, Control.notifies_control_iff hrequest]
    exact ⟨hc, hn⟩
  · by_cases hnotify : event.CompletesNotification
    · cases event with
      | netUsbTransfer ep bytes =>
        obtain rfl : ep = ncmEpNotify := hnotify
        obtain ⟨hc, hn⟩ := control_netUsbTransfer_notify env w bytes
        simp only [Control.step, if_pos, Control.notifies_notify_iff]
        exact ⟨hc, hn⟩
      | _ => exact absurd hnotify id
    · have hq := controlQuiet_step w (event, env)
        (fun request h hrequest => hset ⟨request, h, hrequest⟩) hnotify
      have hsilent : ¬ w.control.Notifies event := by
        rintro ⟨-, hact | hcomp⟩
        · cases event with
          | netUsbControlTransfer request => exact hset ⟨request, rfl, hact.1⟩
          | _ => exact hact
        · exact hnotify hcomp
      have hstay : w.control.step event = w.control := by
        cases event with
        | netUsbControlTransfer request => exact if_neg fun h => hset ⟨request, rfl, h⟩
        | netUsbTransfer ep bytes => exact if_neg hnotify
        | _ => rfl
      rw [if_neg hsilent, hstay]
      exact ⟨hq.same, hq.calls.notifying⟩

lemma notified_step (input : Input) : notified (step w input).log = notified w.log ++
    if w.control.Notifies input.1 then notificationPair else [] := by
  rw [(step_follows w input).2.notified]
  split_ifs <;> rfl

end Refinement

/-! ### Notifications and requests -/

/-- The number of `SET_INTERFACE` requests of a run that store a nonzero setting.  It is at most
the number of those with a nonzero `wValue`. -/
def activations (es : List Input) : ℕ := es.countP fun input => input.1.Activates

/-- The step sends no notification. -/
def Silent (w : World) (input : Input) : Prop :=
  notified (step w input).log = notified w.log

/-- What is to hold of a run: notifications are sent only while such a request is processed; at
every time whole pairs have been sent, and not more than there were requests; and with no
notification pending, nothing but a request makes the driver send one. -/
structure NotifiesOnRequest (es : List Input) : Prop where
  requested : Along step (fun w input => ¬ Silent w input → input.1.Activates) World.init es
  counted : ∀ es', es' <+: es → ∃ n ≤ activations es',
    notified (run step World.init es').log = (List.replicate n notificationPair).flatten
  quiescent : Along step (fun w input => pending ncmEpNotify w.log = 0 → ¬ input.1.Activates →
    Silent w input) World.init es

/-- No completion of a notification is reported in the state `WAITING`. -/
def CompletesOutsideWaiting (w : World) (input : Input) : Prop :=
  input.1.CompletesNotification → w.notificationState ≠ .waiting

lemma silent_iff {w : World} {input : Input} :
    Silent w input ↔ ¬ w.control.Notifies input.1 := by
  rw [Silent, notified_step]
  split_ifs with h
  · simp [h, notificationPair]
  · simp [h]

lemma requested_iff (w : World) (input : Input) :
    (¬ Silent w input → input.1.Activates) ↔ CompletesOutsideWaiting w input := by
  rw [silent_iff, not_not, Control.Notifies, CompletesOutsideWaiting]
  constructor
  · intro h hcomp hwait
    have hact := h ⟨hwait, Or.inr hcomp⟩
    obtain ⟨event, env⟩ := input
    cases event with
    | netUsbTransfer ep bytes => exact hact
    | _ => exact hcomp
  · rintro h ⟨hwait, hact | hcomp⟩
    · exact hact
    · exact absurd hwait (h hcomp)

/-- While notifications are only sent on request, a run sends at most one pair for each. -/
lemma counted_of_requested {es : List Input} {w : World} {n : ℕ}
    (hw : notified w.log = (List.replicate n notificationPair).flatten)
    (h : Along step (fun w input => ¬ Silent w input → input.1.Activates) w es) :
    ∃ m ≤ activations es,
      notified (run step w es).log = (List.replicate (n + m) notificationPair).flatten := by
  induction es generalizing w n with
  | nil => exact ⟨0, le_rfl, hw⟩
  | cons input es ih =>
    obtain ⟨hrequested, hrest⟩ := h
    by_cases hsilent : Silent w input
    · obtain ⟨m, hm, heq⟩ := ih (hsilent.trans hw) hrest
      refine ⟨m, hm.trans ?_, heq⟩
      exact (List.sublist_cons_self input es).countP_le
    · have hact := hrequested hsilent
      have hsent : notified (step w input).log =
          (List.replicate (n + 1) notificationPair).flatten := by
        rw [notified_step, if_pos (not_not.1 (mt silent_iff.2 hsilent)), hw, List.replicate_succ',
          List.flatten_concat]
      obtain ⟨m, hm, heq⟩ := ih hsent hrest
      refine ⟨m + 1, ?_, ?_⟩
      · rw [activations, List.countP_cons_of_pos (by simpa using hact)]
        exact Nat.succ_le_succ hm
      · rw [← Nat.add_assoc, Nat.add_right_comm]
        exact heq

/-- Without a pending notification there is no completion that could trigger one. -/
lemma quiescent_of_completesPending {w : World} {input : Input}
    (hG : CompletesPending ncmEpNotify w input) (hnone : pending ncmEpNotify w.log = 0)
    (hact : ¬ input.1.Activates) : Silent w input := by
  rw [silent_iff]
  rintro ⟨-, hact' | hcomp⟩
  · exact hact hact'
  · obtain ⟨event, env⟩ := input
    cases event with
    | netUsbTransfer ep bytes =>
      obtain rfl : ep = ncmEpNotify := hcomp
      exact absurd (hG bytes rfl) (by simp [hnone])
    | _ => exact hcomp

/-- In every run in which completions on `NCM_EP_NOTIFY` are reported only for notifications that
were started, notifications are sent on request only if and only if no completion is reported
while the notification state is `WAITING`. -/
theorem notifications_on_request {es : List Input}
    (hG : Along step (CompletesPending ncmEpNotify) World.init es) :
    NotifiesOnRequest es ↔ Along step CompletesOutsideWaiting World.init es := by
  have hiff : Along step (fun w input => ¬ Silent w input → input.1.Activates) World.init es ↔
      Along step CompletesOutsideWaiting World.init es :=
    along_iff_along (I := fun _ => True) (fun _ _ _ _ _ => trivial)
      (fun w input _ _ => requested_iff w input) trivial hG
  constructor
  · exact fun h => hiff.1 h.requested
  · intro h
    have hrequested := hiff.2 h
    refine ⟨hrequested, ?_, ?_⟩
    · rintro es' ⟨rest, rfl⟩
      obtain ⟨n, hn, heq⟩ := counted_of_requested (n := 0) rfl (along_append.1 hrequested).1
      rw [Nat.zero_add] at heq
      exact ⟨n, hn, heq⟩
    · exact Along.of_invariant (I := fun _ => True) (fun _ _ _ _ => trivial)
        (fun _ _ _ hG => quiescent_of_completesPending hG) trivial hG

/-- One request and the first of its two completions. -/
theorem notifications_on_request_first :
    Along step (CompletesPending ncmEpNotify) World.init
        [(.netUsbControlTransfer (.setInterface 1), .accepting),
          (.netUsbTransfer ncmEpNotify 16, .accepting)] ∧
      NotifiesOnRequest [(.netUsbControlTransfer (.setInterface 1), .accepting),
        (.netUsbTransfer ncmEpNotify 16, .accepting)] := by
  have hG : Along step (CompletesPending ncmEpNotify) World.init
      [(.netUsbControlTransfer (.setInterface 1), .accepting),
        (.netUsbTransfer ncmEpNotify 16, .accepting)] :=
    ⟨nofun, fun _ _ => by decide, trivial⟩
  exact ⟨hG, (notifications_on_request hG).2 ⟨nofun, fun _ => by decide, trivial⟩⟩

/-- The second completion of the pair sends it again: two pairs after one request. -/
theorem notifications_on_request_fails :
    Along step (CompletesPending ncmEpNotify) World.init
        [(.netUsbControlTransfer (.setInterface 1), .accepting),
          (.netUsbTransfer ncmEpNotify 16, .accepting),
          (.netUsbTransfer ncmEpNotify 8, .accepting)] ∧
      ¬ NotifiesOnRequest [(.netUsbControlTransfer (.setInterface 1), .accepting),
        (.netUsbTransfer ncmEpNotify 16, .accepting),
        (.netUsbTransfer ncmEpNotify 8, .accepting)] := by
  refine ⟨⟨nofun, fun _ _ => by decide, fun _ _ => by decide, trivial⟩, ?_⟩
  intro h
  obtain ⟨n, hn, heq⟩ := h.counted _ List.prefix_rfl
  have hone : n ≤ 1 := hn
  have hlen : 4 = n * 2 := by
    have hlen := congrArg List.length heq
    rwa [List.length_flatten, List.map_replicate, List.sum_replicate_nat] at hlen
  omega

end Fx3Ncm
