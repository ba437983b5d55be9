/-
# The discipline of the DMA channels

An operation on a DMA channel on behalf of an endpoint needs a channel that exists and that
was created with the socket of this endpoint.  The life of the channels is bound to
`glIsApplnActive`, which the event callback keeps; the driver, which causes most operations,
knows only its own `interface_active`.

Two handles have their names against their use: `glChHandleBulkSink` is created for the IN
endpoint and used for the OUT endpoint, and the callback for halted endpoints resets each
of the two bulk channels for the endpoint of the other.
-/
import Fx3Ncm.App.Deferred
import Fx3Ncm.Ncm.RxPhase

namespace Fx3Ncm

open Runs

/-! ### The discipline -/

/-- The socket of an endpoint. -/
def endpointSocket (ep : UInt8) : Option Socket :=
  if ep = cyFxEpNotifier then some .cons1
  else if ep = cyFxEpConsumer then some .cons2
  else if ep = cyFxEpProducer then some .prod2
  else none

/-- The channel exists and was created with the socket of the endpoint. -/
def ServesEndpoint (channels : DmaChannel → Option Socket) (channel : DmaChannel) (ep : UInt8) :
    Prop :=
  (channels channel).isSome ∧ channels channel = endpointSocket ep

/-- The operation is in order, given the channels that exist. -/
def DmaOp.Allowed (channels : DmaChannel → Option Socket) : DmaOp → Prop
  | .create channel _ _ => channels channel = none
  | .destroy channel => (channels channel).isSome
  | .setXfer channel ep | .reset channel ep | .getBuffer channel ep
  | .commitBuffer channel ep _ => ServesEndpoint channels channel ep
  | .copy _ _ _ => True

/-- The effect is not an operation on a channel, or one that is in order. -/
def Effect.Allowed (s : Firmware) : Effect → Prop
  | .dma op => op.Allowed s.channels
  | _ => True

/-- What is to hold of a step: each operation on a channel is in order when it is made. -/
def Disciplined (s : Firmware) (input : FirmwareInput) : Prop :=
  Along Firmware.apply Effect.Allowed (s.respond input).1 (s.respond input).2

/-- The entry points that go on to `rx_try_start`. -/
def Event.StartsReceive : Event → Prop
  | .netRxRenew => True
  | .netUsbTransfer ep _ => ep = ncmEpDataOut
  | _ => False

/-- The condition on a call of the driver: the notifications are sent only while the application is
active, and `rx_try_start` is not reached with the interface selected. -/
def DriverReady (s : Firmware) (event : Event) : Prop :=
  (s.driver.control.Notifies event → s.glIsApplnActive = true) ∧
    ¬ (event.StartsReceive ∧ s.driver.interfaceActive = 1)

/-- The condition on a step: the driver is called in order, and no request to clear the halt of a
bulk endpoint comes while the application is active. -/
def FirmwareReady (s : Firmware) (input : FirmwareInput) : Prop :=
  match input.1 with
  | .usbEvent _ => True
  | .setup setupdat0 setupdat1 => ¬ (IsClearHalt setupdat0 ∧ s.glIsApplnActive = true ∧
      (wIndex setupdat1 = cyFxEpProducer.toUInt16 ∨ wIndex setupdat1 = cyFxEpConsumer.toUInt16))
  | .wake => s.ctrlTask = true →
      DriverReady s (.netUsbControlTransfer (setupRequest s.glSetupdat0 s.glSetupdat1))
  | .driver event => DriverReady s event

/-! ### Lists of effects that keep the channels -/

/-- The effect neither creates nor destroys a channel. -/
def Effect.Keeps : Effect → Prop
  | .dma (.create _ _ _) | .dma (.destroy _) => False
  | _ => True

/-- The effect also leaves `glIsApplnActive` as it is. -/
def Effect.Steady : Effect → Prop
  | .dma (.create _ _ _) | .dma (.destroy _) | .setActive _ => False
  | _ => True

lemma Effect.Steady.keeps {effect : Effect} (h : effect.Steady) : effect.Keeps := by
  cases effect with
  | dma op => cases op <;> first | exact h.elim | trivial
  | _ => trivial

lemma apply_channels_of_keeps {effect : Effect} (h : effect.Keeps) (s : Firmware) :
    (s.apply effect).channels = s.channels := by
  cases effect with
  | dma op => cases op <;> first | rfl | exact h.elim
  | _ => rfl

lemma Effect.allowed_congr {s s' : Firmware} (h : s'.channels = s.channels) (effect : Effect) :
    effect.Allowed s' ↔ effect.Allowed s := by
  cases effect with
  | dma op => rw [Effect.Allowed, Effect.Allowed, h]
  | _ => exact Iff.rfl

/-- Where the channels stay the same, the order of the effects does not matter. -/
lemma along_allowed_iff {effects : List Effect} (h : ∀ effect ∈ effects, effect.Keeps)
    (s : Firmware) : Along Firmware.apply Effect.Allowed s effects ↔
      ∀ effect ∈ effects, effect.Allowed s := by
  induction effects generalizing s with
  | nil => simp
  | cons effect effects ih =>
    have hkeep := apply_channels_of_keeps (h effect List.mem_cons_self) s
    rw [along_cons, ih (fun e he => h e (List.mem_cons_of_mem _ he)), List.forall_mem_cons]
    refine and_congr_right fun _ => ?_
    exact forall_congr' fun e => imp_congr_right fun _ => Effect.allowed_congr hkeep e

lemma foldl_channels_of_keeps {effects : List Effect} (h : ∀ effect ∈ effects, effect.Keeps)
    (s : Firmware) : (effects.foldl Firmware.apply s).channels = s.channels := by
  induction effects generalizing s with
  | nil => rfl
  | cons effect effects ih =>
    rw [List.foldl_cons, ih (fun e he => h e (List.mem_cons_of_mem _ he)),
      apply_channels_of_keeps (h effect List.mem_cons_self)]

/-- The flag is changed only by starting and stopping. -/
lemma foldl_active {effects : List Effect} (h : ∀ effect ∈ effects, effect.Steady)
    (s : Firmware) : (effects.foldl Firmware.apply s).glIsApplnActive = s.glIsApplnActive := by
  induction effects generalizing s with
  | nil => rfl
  | cons effect effects ih =>
    rw [List.foldl_cons, ih fun e he => h e (List.mem_cons_of_mem _ he)]
    cases effect with
    | dma op => cases op <;> rfl
    | setActive a => exact (h _ List.mem_cons_self).elim
    | _ => rfl

/-! ### What the driver does while no receive NTB has been handed over -/

/-- Calls that pass nothing to `NCM_EP_DATA_OUT`. -/
def Call.NotDataOut : Call → Prop
  | .usbTransferEp ep _ _ _ => ep ≠ ncmEpDataOut
  | _ => True

/-- The OUT direction is not touched and nothing is passed to its endpoint. -/
abbrev ReceiveQuiet : World → World → Prop := Quiet (fun w => w.rx) Call.NotDataOut

lemma receiveQuiet_of_rxQuiet {w w' : World} (h : RxQuiet w w') : ReceiveQuiet w w' := by
  refine ⟨h.same, h.calls.mono fun c hc => ?_⟩
  cases c with
  | usbTransferEp ep buffer bytes ok => exact hc
  | _ => trivial

section Fresh

variable {w : World} (env : Env)

lemma rxUpdateUserNtb_of_fresh (h : w.rx = World.init.rx) : (rxUpdateUserNtb env w).2 = w := by
  have hphase : w.rx = RxPhase.fresh.state (fun _ _ => 0) 0 := h
  rw [rxUpdateUserNtb_of_none env hphase rfl, ← hphase, setRx_self]

/-- `rx_usbd_ntb` is `NULL`, so pushing it to a list does nothing. -/
lemma receiveQuiet_pushRxFree (h : w.rx = World.init.rx) :
    ReceiveQuiet w (pushRxFree w.rx.rxUsbdNtb w).2 := by
  refine .of_log_append ?_ rfl trivial
  simp only [pushRxFree, World.record_rx, World.setRx_rx, h]
  rfl

lemma receiveQuiet_netDataOut (h : w.rx = World.init.rx) (bytes : UInt16) :
    ReceiveQuiet w (netDataOut bytes w) := by
  refine .of_log_append ?_ rfl trivial
  simp only [netDataOut, rxValidateDatagram, if_true, pushRxWait, World.record_rx, World.setRx_rx,
    h]
  rfl

lemma receiveQuiet_netRxRenew (h : w.rx = World.init.rx) (hactive : w.interfaceActive ≠ 1) :
    ReceiveQuiet w (netRxRenew env w) := by
  rw [netRxRenew, rxUpdateUserNtb_of_fresh env h,
    rxTryStart_of_blocked env (Or.inr (Or.inl hactive))]
  exact .refl w

lemma receiveQuiet_netUsbTransfer (h : w.rx = World.init.rx) {ep : UInt8} (bytes : UInt16)
    (hstart : ¬ (ep = ncmEpDataOut ∧ w.interfaceActive = 1)) :
    ReceiveQuiet w (netUsbTransfer env ep bytes w) := by
  have hrecord : ReceiveQuiet w (recordCompletion ep bytes w) := .of_log_append rfl rfl trivial
  have h' : (recordCompletion ep bytes w).rx = World.init.rx := h
  refine hrecord.trans ?_
  rw [netUsbTransfer]
  split_ifs with hout hin hnotify
  · have hdata := receiveQuiet_netDataOut h' bytes
    refine hdata.trans (receiveQuiet_netRxRenew env ?_ fun hactive => hstart ⟨hout, hactive⟩)
    exact (show _ = _ from hdata.same).trans h'
  · have hpush := receiveQuiet_pushRxFree h'
    rw [netDataIn_eq]
    split_ifs
    · exact hpush.trans (receiveQuiet_of_rxQuiet (rxQuiet_txTryStart env _))
    · exact hpush.trans (.of_log_append rfl rfl (by simp [Call.NotDataOut]))
  · exact receiveQuiet_of_rxQuiet (rxQuiet_txNotification env _ true)
  · exact .refl _

lemma receiveQuiet_netUsbControlTransfer (h : w.rx = World.init.rx)
    (request : UsbControlRequest) : ReceiveQuiet w (netUsbControlTransfer env request w).2 := by
  have hset : ∀ v, ReceiveQuiet w (setInterface env v w) := by
    intro v
    have hactive : ReceiveQuiet w { w with interfaceActive := v.toNat % 2 ^ 8 } :=
      .of_log_eq rfl rfl
    have hstatus : ∀ w : World, ReceiveQuiet w (w.record .usbControlStatus) :=
      fun w => .of_log_append rfl rfl trivial
    rw [setInterface]
    dsimp only
    split_ifs
    · have hupdate : (rxUpdateUserNtb env { w with interfaceActive := v.toNat % 2 ^ 8 }).2 =
          { w with interfaceActive := v.toNat % 2 ^ 8 } := rxUpdateUserNtb_of_fresh env h
      rw [hupdate]
      refine hactive.trans (Quiet.trans ?_ (hstatus _))
      exact receiveQuiet_of_rxQuiet (rxQuiet_txNotification env _ false)
    · exact hactive.trans (hstatus _)
  rw [netUsbControlTransfer]
  split_ifs
  · exact .of_log_append rfl rfl trivial
  · exact hset _
  · exact .refl w
  · exact .of_log_append rfl rfl trivial
  · exact .refl w
  · exact .refl w

/-- A step that does not reach `rx_try_start` with the interface selected. -/
lemma receiveQuiet_step (h : w.rx = World.init.rx) (event : Event)
    (hstart : ¬ (event.StartsReceive ∧ w.interfaceActive = 1)) :
    ReceiveQuiet w (step w (event, env)) := by
  have hq : ReceiveQuiet (perform w (event, env)) (step w (event, env)) := .of_log_eq rfl rfl
  refine Quiet.trans ?_ hq
  cases event with
  | netCanTx size => exact receiveQuiet_of_rxQuiet (rxQuiet_netCanTx env w size)
  | netTx written size => exact receiveQuiet_of_rxQuiet (rxQuiet_netTx env w written size)
  | netRxRenew => exact receiveQuiet_netRxRenew env h fun hactive => hstart ⟨trivial, hactive⟩
  | rxUpdateUserNtb =>
    change ReceiveQuiet w (rxUpdateUserNtb env w).2
    rw [rxUpdateUserNtb_of_fresh env h]
    exact .refl w
  | netUsbTransfer ep bytes => exact receiveQuiet_netUsbTransfer env h bytes hstart
  | netUsbControlTransfer request => exact receiveQuiet_netUsbControlTransfer env h request
  | usbWrite block =>
    have hnone : w.rx.rxUsbdNtb = none := by rw [h]; rfl
    change ReceiveQuiet w (usbWrite block w)
    rw [usbWrite, hnone]
    exact .refl w

/-- With the interface selected, `net_rx_renew` passes an NTB to the OUT endpoint. -/
lemma netRxRenew_of_active (h : w.rx = World.init.rx) (hactive : w.interfaceActive = 1)
    (hbusy : env.usbEpBusy ncmEpDataOut = false) :
    ∃ cs c, (netRxRenew env w).log = w.log ++ cs ∧ c ∈ cs ∧ ¬ c.NotDataOut := by
  have hphase : w.rx = RxPhase.fresh.state (fun _ _ => 0) 0 := h
  obtain ⟨-, hlog, -⟩ := rxTryStart_of_free env hphase rfl hactive hbusy
  rw [netRxRenew, rxUpdateUserNtb_of_fresh env h, hlog]
  exact ⟨_, _, rfl, List.mem_cons_self, fun hne => hne rfl⟩

/-- A step that reaches `rx_try_start` with the interface selected. -/
lemma dataOut_of_startsReceive (h : w.rx = World.init.rx) {event : Event}
    (hstart : event.StartsReceive) (hactive : w.interfaceActive = 1)
    (hbusy : env.usbEpBusy ncmEpDataOut = false) :
    ∃ cs c, (step w (event, env)).log = w.log ++ cs ∧ c ∈ cs ∧ ¬ c.NotDataOut := by
  cases event with
  | netRxRenew => exact netRxRenew_of_active env h hactive hbusy
  | netUsbTransfer ep bytes =>
    obtain rfl : ep = ncmEpDataOut := hstart
    set v := netDataOut bytes (recordCompletion ncmEpDataOut bytes w) with hv
    have hrecord : ReceiveQuiet w (recordCompletion ncmEpDataOut bytes w) :=
      .of_log_append rfl rfl trivial
    have hq : ReceiveQuiet w v :=
      hrecord.trans (receiveQuiet_netDataOut (w := recordCompletion ncmEpDataOut bytes w) h bytes)
    have hrx : v.rx = World.init.rx := (show v.rx = w.rx from hq.same).trans h
    obtain ⟨cs₀, hlog₀, -⟩ := hq.calls
    obtain ⟨cs, c, hlog, hc, hout⟩ := netRxRenew_of_active env hrx hactive hbusy
    refine ⟨cs₀ ++ cs, c, ?_, List.mem_append_right _ hc, hout⟩
    change (netRxRenew env v).log = _
    rw [hlog, hlog₀, List.append_assoc]
  | _ => exact hstart.elim

end Fresh

/-! ### The invariant -/

/-- The channels that `CyFxAppStart` creates. -/
def startedChannels : DmaChannel → Option Socket
  | .notifier => some .cons1
  | .bulkSink => some .cons2
  | .bulkSrc => some .prod2

/-- The channels exist while the application is active. -/
def ChannelsMatch (s : Firmware) : Prop :=
  s.channels = if s.glIsApplnActive then startedChannels else fun _ => none

lemma channelsMatch_of_active {s : Firmware} (h : s.channels = startedChannels)
    (hactive : s.glIsApplnActive = true) : ChannelsMatch s := by
  rw [ChannelsMatch, h, hactive, if_pos rfl]

lemma channelsMatch_of_inactive {s : Firmware} (h : s.channels = fun _ => none)
    (hactive : s.glIsApplnActive = false) : ChannelsMatch s := by
  rw [ChannelsMatch, h, hactive, if_neg Bool.false_ne_true]

/-- The invariant as long as the discipline has been kept: the channels exist while the
application is active, and no receive NTB has been handed over. -/
structure ChannelInv (s : Firmware) : Prop where
  channels : ChannelsMatch s
  fresh : s.driver.rx = World.init.rx

section Driver

variable {s : Firmware}

lemma notifier_serves_iff (h : ChannelInv s) :
    ServesEndpoint s.channels .notifier ncmEpNotify ↔ s.glIsApplnActive = true := by
  rw [ServesEndpoint, h.channels]
  cases s.glIsApplnActive with
  | false => simp
  | true => simp [startedChannels, endpointSocket]

/-- `glChHandleBulkSink` never belongs to the OUT endpoint. -/
lemma not_bulkSink_serves (h : ChannelInv s) :
    ¬ ServesEndpoint s.channels .bulkSink ncmEpDataOut := by
  rw [ServesEndpoint, h.channels]
  cases s.glIsApplnActive with
  | false => simp
  | true => simp [startedChannels, endpointSocket]

/-- `glChHandleBulkSrc` never belongs to the IN endpoint. -/
lemma not_bulkSrc_serves (h : ChannelInv s) :
    ¬ ServesEndpoint s.channels .bulkSrc ncmEpDataIn := by
  rw [ServesEndpoint, h.channels]
  cases s.glIsApplnActive with
  | false => simp
  | true => simp [startedChannels, endpointSocket]

lemma steady_callEffects (c : Call) : ∀ effect ∈ Firmware.callEffects c, effect.Steady := by
  intro effect h
  cases c with
  | usbTransferEp ep buffer bytes ok =>
    obtain ⟨op, hop, rfl⟩ := List.mem_map.1 h
    simp only [Firmware.usbTransferEp, dmaTransfer, SdkStatus.success] at hop
    split_ifs at hop <;> simp at hop <;> rcases hop with rfl | rfl | rfl <;> trivial
  | _ => exact absurd h List.not_mem_nil

/-- When the operations of a call of the driver are in order. -/
lemma allowed_callEffects_iff (h : ChannelInv s) (c : Call) :
    (∀ effect ∈ Firmware.callEffects c, effect.Allowed s) ↔
      c.NotDataOut ∧ (c.isNotify = true → s.glIsApplnActive = true) := by
  cases c with
  | usbTransferEp ep buffer bytes ok =>
    by_cases hnotify : ep = ncmEpNotify
    · subst hnotify
      have heffects : Firmware.callEffects (.usbTransferEp ncmEpNotify buffer bytes ok) =
        [.dma (.getBuffer .notifier ncmEpNotify), .dma (.copy .notifier ncmEpNotify bytes),
          .dma (.commitBuffer .notifier ncmEpNotify bytes)] := rfl
      rw [heffects, ← notifier_serves_iff h]
      simp [Effect.Allowed, DmaOp.Allowed, Call.NotDataOut, Call.isNotify]
    · by_cases hout : ep = ncmEpDataOut
      · subst hout
        refine iff_of_false ?_ fun h' => h'.1 rfl
        intro hall
        exact not_bulkSink_serves h
          (hall (.dma (.getBuffer .bulkSink ncmEpDataOut)) List.mem_cons_self)
      · have heffects : Firmware.callEffects (.usbTransferEp ep buffer bytes ok) = [] := by
          rw [Firmware.callEffects, Firmware.usbTransferEp, if_neg hnotify, if_neg hout]
          rfl
        rw [heffects]
        refine iff_of_true (by simp) ⟨hout, fun h' => absurd (eq_of_beq h') hnotify⟩
  | _ => exact iff_of_true (by simp [Firmware.callEffects]) ⟨trivial, fun h' => by cases h'⟩

/-- A call of the driver keeps the discipline exactly if the calls `cs` it makes are in order. -/
lemma along_callDriver_iff_calls (h : ChannelInv s) {event : Event} {netRxCb : Bool}
    {cs : List Call}
    (hlog : (step s.driver (event, Firmware.env netRxCb)).log = s.driver.log ++ cs) :
    Along Firmware.apply Effect.Allowed (Firmware.callDriver event netRxCb s).1
        (Firmware.callDriver event netRxCb s).2 ↔
      ∀ c ∈ cs, c.NotDataOut ∧ (c.isNotify = true → s.glIsApplnActive = true) := by
  have heffects : (Firmware.callDriver event netRxCb s).2 = cs.flatMap Firmware.callEffects := by
    change List.flatMap _ (List.drop _ (step s.driver (event, Firmware.env netRxCb)).log) = _
    rw [hlog, List.drop_left]
  have hkeeps : ∀ effect ∈ cs.flatMap Firmware.callEffects, effect.Keeps := by
    intro effect heffect
    obtain ⟨c, -, hc⟩ := List.mem_flatMap.1 heffect
    exact (steady_callEffects c effect hc).keeps
  have hsame : (∀ effect ∈ cs.flatMap Firmware.callEffects,
      effect.Allowed (Firmware.callDriver event netRxCb s).1) ↔
      ∀ effect ∈ cs.flatMap Firmware.callEffects, effect.Allowed s :=
    forall_congr' fun e => imp_congr_right fun _ => Effect.allowed_congr rfl e
  rw [heffects, along_allowed_iff hkeeps, hsame, List.forall_mem_flatMap]
  exact forall_congr' fun c => imp_congr_right fun _ => allowed_callEffects_iff h c

/-- A call of the driver keeps the discipline exactly if it is made in order. -/
lemma along_callDriver_iff (h : ChannelInv s) (event : Event) (netRxCb : Bool) :
    Along Firmware.apply Effect.Allowed (Firmware.callDriver event netRxCb s).1
      (Firmware.callDriver event netRxCb s).2 ↔ DriverReady s event := by
  obtain ⟨cs, hlog, hfilter⟩ := (step_follows s.driver (event, Firmware.env netRxCb)).2
  rw [along_callDriver_iff_calls h hlog]
  constructor
  · intro hall
    refine ⟨fun hnotifies => ?_, ?_⟩
    · rw [if_pos hnotifies] at hfilter
      have hmem : ∀ c ∈ notifyCalls (Firmware.env netRxCb), c ∈ cs := by
        intro c hc
        rw [← hfilter] at hc
        exact (List.mem_filter.1 hc).1
      exact (hall _ (hmem _ List.mem_cons_self)).2 rfl
    · rintro ⟨hstart, hactive⟩
      obtain ⟨cs', c, hlog', hc, hout⟩ :=
        dataOut_of_startsReceive (Firmware.env netRxCb) h.fresh hstart hactive rfl
      rw [hlog, List.append_cancel_left_eq] at hlog'
      exact hout (hall c (hlog' ▸ hc)).1
  · rintro ⟨hnotify, hstart⟩ c hc
    constructor
    · obtain ⟨cs', hlog', hcs'⟩ :=
        (receiveQuiet_step (Firmware.env netRxCb) h.fresh event hstart).calls
      rw [hlog, List.append_cancel_left_eq] at hlog'
      exact hcs' c (hlog' ▸ hc)
    · intro hc'
      refine hnotify (of_not_not fun hsilent => ?_)
      rw [if_neg hsilent, List.filter_eq_nil_iff] at hfilter
      exact hfilter c hc hc'

/-- A call of the driver made in order keeps the invariant. -/
lemma ChannelInv.callDriver (h : ChannelInv s) {event : Event} (netRxCb : Bool)
    (hC : DriverReady s event) : ChannelInv (Firmware.callDriver event netRxCb s).1 := by
  refine ⟨h.channels, ?_⟩
  have hq := receiveQuiet_step (Firmware.env netRxCb) h.fresh event hC.2
  exact (show (Firmware.callDriver event netRxCb s).1.driver.rx = _ from hq.same).trans h.fresh

end Driver

/-! ### Starting and stopping -/

section StartStop

variable {s : Firmware}

/-- `CyFxAppStop` destroys the channels that exist. -/
lemma along_cyFxAppStop (h : s.channels = startedChannels) :
    Along Firmware.apply Effect.Allowed s cyFxAppStop ∧
      (cyFxAppStop.foldl Firmware.apply s).channels = (fun _ => none) ∧
      (cyFxAppStop.foldl Firmware.apply s).glIsApplnActive = false := by
  refine ⟨?_, ?_, rfl⟩
  · simp [cyFxAppStop, endpoints, Effect.Allowed, DmaOp.Allowed, Firmware.apply, h,
      startedChannels]
  · funext channel
    cases channel <;> rfl

/-- `CyFxAppStart` creates channels where there were none. -/
lemma along_cyFxAppStart (h : s.channels = fun _ => none) :
    Along Firmware.apply Effect.Allowed s cyFxAppStart ∧
      (cyFxAppStart.foldl Firmware.apply s).channels = startedChannels ∧
      (cyFxAppStart.foldl Firmware.apply s).glIsApplnActive = true := by
  refine ⟨?_, ?_, rfl⟩
  · simp [cyFxAppStart, endpoints, Effect.Allowed, DmaOp.Allowed, Firmware.apply, h,
      ServesEndpoint, endpointSocket]
  · funext channel
    cases channel <;> rfl

/-- The event callback keeps the discipline and the invariant. -/
lemma cyFxAppUSBEventCB_of_channelsMatch (h : ChannelsMatch s) (type : UsbEventType) :
    Along Firmware.apply Effect.Allowed s (cyFxAppUSBEventCB s.glIsApplnActive type) ∧
      ChannelsMatch ((cyFxAppUSBEventCB s.glIsApplnActive type).foldl Firmware.apply s) := by
  cases hactive : s.glIsApplnActive with
  | false =>
    have hnone := h
    rw [ChannelsMatch, hactive, if_neg Bool.false_ne_true] at hnone
    obtain ⟨hstart, hchannels, hflag⟩ := along_cyFxAppStart hnone
    cases type with
    | setconf => exact ⟨hstart, channelsMatch_of_active hchannels hflag⟩
    | _ => exact ⟨trivial, h⟩
  | true =>
    have hstarted := h
    rw [ChannelsMatch, hactive, if_pos rfl] at hstarted
    obtain ⟨hstop, hnone, hoff⟩ := along_cyFxAppStop hstarted
    cases type with
    | setconf =>
      obtain ⟨hstart, hchannels, hflag⟩ := along_cyFxAppStart hnone
      refine ⟨along_append.2 ⟨hstop, hstart⟩, ?_⟩
      change ChannelsMatch (List.foldl Firmware.apply s (cyFxAppStop ++ cyFxAppStart))
      rw [List.foldl_append]
      exact channelsMatch_of_active hchannels hflag
    | reset | disconnect => exact ⟨hstop, channelsMatch_of_inactive hnone hoff⟩
    | connect | other => exact ⟨trivial, h⟩

end StartStop

/-! ### Setup packets -/

section SetupPackets

variable {s : Firmware} (setupdat0 setupdat1 : UInt32)

lemma steady_cyFxAppUSBSetupCB (active : Bool) :
    ∀ effect ∈ (cyFxAppUSBSetupCB setupdat0 setupdat1 active).2, effect.Steady := by
  intro effect h
  obtain ⟨test, htest, heffect⟩ := List.mem_flatMap.1 h
  have hhandle : ∀ (condition : Prop) [Decidable condition] (effects : List Effect),
      effect ∈ (handleIf condition effects).2 → effect ∈ effects := by
    intro condition _ effects hmem
    rw [handleIf] at hmem
    split_ifs at hmem
    · exact hmem
    · exact absurd hmem List.not_mem_nil
  simp only [setupTests, List.mem_cons, List.not_mem_nil, or_false] at htest
  rcases htest with rfl | rfl | rfl | rfl | rfl | rfl
  all_goals
    have hmem := hhandle _ _ heffect
    simp only [clearHalt, List.mem_cons, List.not_mem_nil, or_false] at hmem
  · subst hmem
    cases active <;> trivial
  · rcases hmem with rfl | rfl | rfl | rfl | rfl | rfl | rfl | rfl <;> trivial
  · rcases hmem with rfl | rfl | rfl | rfl | rfl | rfl | rfl | rfl <;> trivial
  all_goals
    subst hmem
    trivial

/-- The setup callback keeps the discipline exactly if it has no halt to clear. -/
lemma along_cyFxAppUSBSetupCB_iff (h : ChannelInv s) :
    Along Firmware.apply Effect.Allowed s
        (cyFxAppUSBSetupCB setupdat0 setupdat1 s.glIsApplnActive).2 ↔
      ¬ (IsClearHalt setupdat0 ∧ s.glIsApplnActive = true ∧
        (wIndex setupdat1 = cyFxEpProducer.toUInt16 ∨
          wIndex setupdat1 = cyFxEpConsumer.toUInt16)) := by
  rw [along_allowed_iff fun effect he => (steady_cyFxAppUSBSetupCB _ _ _ effect he).keeps]
  constructor
  · rintro hall ⟨hhalt, hactive, hep | hep⟩
    · refine not_bulkSink_serves h (hall (.dma (.reset .bulkSink cyFxEpProducer)) ?_)
      refine List.mem_flatMap.2 ⟨_, List.mem_cons_of_mem _ List.mem_cons_self, ?_⟩
      rw [handleIf, if_pos ⟨hhalt, hactive, hep⟩]
      simp [clearHalt]
    · refine not_bulkSrc_serves h (hall (.dma (.reset .bulkSrc cyFxEpConsumer)) ?_)
      refine List.mem_flatMap.2
        ⟨_, List.mem_cons_of_mem _ (List.mem_cons_of_mem _ List.mem_cons_self), ?_⟩
      rw [handleIf, if_pos ⟨hhalt, hactive, hep⟩]
      simp [clearHalt]
  · intro hno effect he
    have hproducer : ¬ (IsClearHalt setupdat0 ∧ s.glIsApplnActive = true ∧
        wIndex setupdat1 = cyFxEpProducer.toUInt16) :=
      fun h' => hno ⟨h'.1, h'.2.1, Or.inl h'.2.2⟩
    have hconsumer : ¬ (IsClearHalt setupdat0 ∧ s.glIsApplnActive = true ∧
        wIndex setupdat1 = cyFxEpConsumer.toUInt16) :=
      fun h' => hno ⟨h'.1, h'.2.1, Or.inr h'.2.2⟩
    rw [cyFxAppUSBSetupCB_effects, List.mem_append] at he
    rcases he with he | he
    · simp only [answerEffects, setupTests, List.take_succ_cons, List.take_zero,
        List.flatMap_cons, List.flatMap_nil, List.append_nil, handleIf, if_neg hproducer,
        if_neg hconsumer] at he
      split_ifs at he <;> simp at he <;> subst he <;> trivial
    · split_ifs at he
      · rw [List.mem_singleton] at he
        subst he
        trivial
      · exact absurd he List.not_mem_nil

end SetupPackets

/-! ### Runs -/

/-- Effects that neither create nor destroy a channel, nor start or stop the application, keep the
invariant. -/
lemma ChannelInv.foldl {s : Firmware} (h : ChannelInv s) {effects : List Effect}
    (heffects : ∀ effect ∈ effects, effect.Steady) :
    ChannelInv (effects.foldl Firmware.apply s) := by
  have hchannels := foldl_channels_of_keeps (fun effect he => (heffects effect he).keeps) s
  have hactive := foldl_active heffects s
  refine ⟨?_, ?_⟩
  · rw [ChannelsMatch, hchannels, hactive]
    exact h.channels
  · rw [(Firmware.foldl_calls _ _).1]
    exact h.fresh

lemma steady_driverEffects {w w' : World} {effect : Effect}
    (h : effect ∈ Firmware.driverEffects w w') : effect.Steady := by
  obtain ⟨c, -, hc⟩ := List.mem_flatMap.1 h
  exact steady_callEffects c effect hc

/-- What the thread does when the flag is set. -/
lemma respond_wake {s : Firmware} (hflag : s.ctrlTask = true) (netRxCb : Bool) :
    ∃ s' : Firmware, ∃ stalls : List Effect,
      (s'.driver = s.driver ∧ s'.channels = s.channels ∧ s'.glIsApplnActive = s.glIsApplnActive) ∧
      (∀ effect ∈ stalls, ∃ ep stall toggle, effect = .stall ep stall toggle) ∧
      s.respond (.wake, netRxCb) =
        ((Firmware.callDriver (.netUsbControlTransfer (setupRequest s.glSetupdat0 s.glSetupdat1))
            netRxCb s').1,
          (Firmware.callDriver (.netUsbControlTransfer (setupRequest s.glSetupdat0 s.glSetupdat1))
            netRxCb s').2 ++ stalls) := by
  refine ⟨{ s with ctrlTask := false },
    if (netUsbControlTransfer (Firmware.env netRxCb)
      (setupRequest s.glSetupdat0 s.glSetupdat1) s.driver).1 then [] else [.stall 0 true false],
    ⟨rfl, rfl, rfl⟩, ?_, ?_⟩
  · intro effect he
    split_ifs at he
    · exact absurd he List.not_mem_nil
    · exact ⟨0, true, false, List.mem_singleton.1 he⟩
  · change s.appThread netRxCb = _
    rw [Firmware.appThread, if_pos hflag]

/-- A wake-up of the thread with a request to pass. -/
lemma ChannelInv.disciplined_wake_iff {s : Firmware} (h : ChannelInv s) (hflag : s.ctrlTask = true)
    (netRxCb : Bool) :
    (Disciplined s (.wake, netRxCb) ↔
        DriverReady s (.netUsbControlTransfer (setupRequest s.glSetupdat0 s.glSetupdat1))) ∧
      (DriverReady s (.netUsbControlTransfer (setupRequest s.glSetupdat0 s.glSetupdat1)) →
        ChannelInv (s.step (.wake, netRxCb))) := by
  obtain ⟨s', stalls, ⟨hdriver, hchannels, hactive⟩, hstalls, heq⟩ := respond_wake hflag netRxCb
  have h' : ChannelInv s' := by
    refine ⟨?_, by rw [hdriver]; exact h.fresh⟩
    rw [ChannelsMatch, hchannels, hactive]
    exact h.channels
  have hready : ∀ event, DriverReady s' event ↔ DriverReady s event := by
    intro event
    rw [DriverReady, DriverReady, hdriver, hactive]
  have hsteady : ∀ effect ∈ stalls, effect.Steady := by
    intro effect he
    obtain ⟨ep, stall, toggle, rfl⟩ := hstalls effect he
    trivial
  have hquiet : ∀ t : Firmware, Along Firmware.apply Effect.Allowed t stalls := by
    intro t
    refine (along_allowed_iff (fun effect he => (hsteady effect he).keeps) t).2 fun effect he => ?_
    obtain ⟨ep, stall, toggle, rfl⟩ := hstalls effect he
    trivial
  rw [Disciplined, Firmware.step, heq]
  constructor
  · rw [along_append, along_callDriver_iff h', hready]
    exact ⟨fun hC => hC.1, fun hC => ⟨hC, hquiet _⟩⟩
  · intro hC
    refine (h'.callDriver netRxCb ((hready _).2 hC)).foldl fun effect he => ?_
    rcases List.mem_append.1 he with he | he
    · exact steady_driverEffects he
    · exact hsteady effect he

/-- Under the invariant a step keeps the discipline exactly if it is in order, and then it keeps
the invariant. -/
lemma ChannelInv.disciplined_iff {s : Firmware} (h : ChannelInv s) (input : FirmwareInput) :
    (Disciplined s input ↔ FirmwareReady s input) ∧
      (FirmwareReady s input → ChannelInv (s.step input)) := by
  obtain ⟨event, netRxCb⟩ := input
  cases event with
  | usbEvent type =>
    obtain ⟨halong, hmatch⟩ := cyFxAppUSBEventCB_of_channelsMatch h.channels type
    refine ⟨iff_of_true halong trivial, fun _ => ⟨hmatch, ?_⟩⟩
    rw [Firmware.step, (Firmware.foldl_calls _ _).1]
    exact h.fresh
  | setup d0 d1 =>
    exact ⟨along_cyFxAppUSBSetupCB_iff d0 d1 h, fun _ => h.foldl (steady_cyFxAppUSBSetupCB d0 d1 _)⟩
  | wake =>
    cases hflag : s.ctrlTask with
    | false =>
      have heq : s.respond (.wake, netRxCb) = (s, []) := by
        simp [Firmware.respond, Firmware.appThread, hflag]
      rw [Disciplined, FirmwareReady, Firmware.step, heq]
      exact ⟨iff_of_true trivial fun h' => absurd (hflag.symm.trans h') Bool.false_ne_true,
        fun _ => h⟩
    | true =>
      obtain ⟨hiff, hinv⟩ := h.disciplined_wake_iff hflag netRxCb
      exact ⟨hiff.trans ⟨fun hC _ => hC, fun hC => hC hflag⟩, fun hC => hinv (hC hflag)⟩
  | driver event =>
    refine ⟨along_callDriver_iff h event netRxCb, fun hC => ?_⟩
    exact (h.callDriver netRxCb hC).foldl fun effect he => steady_driverEffects he

/-- In every run of the firmware, each operation on a DMA channel acts on an existing channel of
its endpoint, and no channel is created twice, if and only if every step is in order. -/
theorem channel_discipline (es : List FirmwareInput) :
    Along Firmware.step Disciplined Firmware.init es ↔
      Along Firmware.step FirmwareReady Firmware.init es := by
  have hinit : ChannelInv Firmware.init := ⟨rfl, rfl⟩
  refine along_iff_along (G := fun _ _ => True) (I := ChannelInv) ?_ ?_ hinit
    (Along.of_forall fun _ _ => trivial)
  · intro s input h _ hQ
    exact (h.disciplined_iff input).2 ((h.disciplined_iff input).1.1 hQ)
  · intro s input h _
    exact (h.disciplined_iff input).1

/-- The host configures the device and clears the halt of the OUT endpoint: the channel of the IN
endpoint is reset.  The host selects the interface after a bus reset: the notification is sent to
a channel that was destroyed.  And with the interface selected, the first `net_rx_renew` uses the
channel of the IN endpoint for the OUT endpoint. -/
theorem channel_discipline_fails :
    ¬ Along Firmware.step Disciplined Firmware.init
        [(.usbEvent .setconf, true), (.setup 0x00000102 0x00000002, true)] ∧
      ¬ Along Firmware.step Disciplined Firmware.init
        [(.usbEvent .setconf, true), (.usbEvent .reset, true), (.setup 0x00010B01 0x00000001, true),
          (.wake, true)] ∧
      ¬ Along Firmware.step Disciplined Firmware.init
        [(.usbEvent .setconf, true), (.setup 0x00010B01 0x00000001, true), (.wake, true),
          (.driver .netRxRenew, true)] := by
  have hinit : ChannelInv Firmware.init := ⟨rfl, rfl⟩
  have hconf := (hinit.disciplined_iff (.usbEvent .setconf, true)).2 trivial
  refine ⟨?_, ?_, ?_⟩
  · rintro ⟨-, h, -⟩
    exact (hconf.disciplined_iff _).1.1 h ⟨by decide, rfl, Or.inl (by decide)⟩
  · rintro ⟨-, -, -, h, -⟩
    have hreset := (hconf.disciplined_iff (.usbEvent .reset, true)).2 trivial
    have hset := (hreset.disciplined_iff (.setup 0x00010B01 0x00000001, true)).2
      fun hhalt => absurd hhalt.1 (by decide)
    have hready := (hset.disciplined_iff (.wake, true)).1.1 h (by decide)
    exact absurd (hready.1 (by decide)) (by decide)
  · rintro ⟨-, -, hwake, h, -⟩
    have hset := (hconf.disciplined_iff (.setup 0x00010B01 0x00000001, true)).2
      fun hhalt => absurd hhalt.1 (by decide)
    have hselected := (hset.disciplined_iff (.wake, true)).2 ((hset.disciplined_iff _).1.1 hwake)
    exact ((hselected.disciplined_iff _).1.1 h).2 ⟨trivial, by decide⟩

end Fx3Ncm
