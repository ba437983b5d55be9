/-
# The firmware around the driver

The part of `main.c` between the FX3 SDK and the NCM driver: starting and stopping the
application, the callbacks for USB events and setup packets, the control part of the loop
of `appThread_Entry`, and `usb_transfer_ep`.

The functions are given by what they do to the outside, a list of `Effect`s, as a function
of the globals they read; `Firmware.apply` carries an effect out.  The state holds the
globals, the DMA channels that exist, and the driver.  Every call of the SDK succeeds
(`usb_transfer_ep` is also given for calls that fail).

A setup packet is two words.  They are decoded twice: in the setup callback, which decides
what is left to the thread, and in the thread.
-/
import Fx3Ncm.Ncm.Control

namespace Fx3Ncm

open Runs

/-! ### Constants

The endpoints of `usb_desc.h`, and the masks and codes of the SDK for setup packets. -/

@[simp, reducible] def cyFxEpNotifier : UInt8 := 0x81
@[simp, reducible] def cyFxEpProducer : UInt8 := 0x02
@[simp, reducible] def cyFxEpConsumer : UInt8 := 0x82
@[simp, reducible] def requestTypeMask : UInt32 := 0xFF
@[simp, reducible] def typeMask : UInt32 := 0x60
@[simp, reducible] def targetMask : UInt32 := 0x03
@[simp, reducible] def requestMask : UInt32 := 0xFF00
@[simp, reducible] def requestPos : UInt32 := 8
@[simp, reducible] def valueMask : UInt32 := 0xFFFF0000
@[simp, reducible] def valuePos : UInt32 := 16
@[simp, reducible] def indexMask : UInt32 := 0xFFFF
@[simp, reducible] def indexPos : UInt32 := 0
@[simp, reducible] def lengthMask : UInt32 := 0xFFFF0000
@[simp, reducible] def lengthPos : UInt32 := 16
@[simp, reducible] def standardRqt : UInt8 := 0x00
@[simp, reducible] def classRqt : UInt8 := 0x20
@[simp, reducible] def targetIntf : UInt8 := 0x01
@[simp, reducible] def targetEndpt : UInt8 := 0x02
@[simp, reducible] def scClearFeature : UInt8 := 0x01
@[simp, reducible] def scSetFeature : UInt8 := 0x03
@[simp, reducible] def fsEpHalt : UInt16 := 0

/-! ### Channels and effects -/

/-- The channel handles `glChHandleNotifier`, `glChHandleBulkSink` and `glChHandleBulkSrc`. -/
inductive DmaChannel where
  | notifier
  | bulkSink
  | bulkSrc
deriving DecidableEq, Repr

/-- The USB sockets: `CY_U3P_UIB_SOCKET_CONS_1`, `CY_U3P_UIB_SOCKET_CONS_2` and
`CY_U3P_UIB_SOCKET_PROD_2`. -/
inductive Socket where
  | cons1
  | cons2
  | prod2
deriving DecidableEq, Repr

/-- The calls of the SDK that concern a DMA channel.  All but the first two are made on behalf of
the endpoint `ep`; `copy` is the `memcpy` into the buffer of the channel. -/
inductive DmaOp where
  | create (channel : DmaChannel) (socket : Socket) (size : ℕ)
  | destroy (channel : DmaChannel)
  | setXfer (channel : DmaChannel) (ep : UInt8)
  | reset (channel : DmaChannel) (ep : UInt8)
  | getBuffer (channel : DmaChannel) (ep : UInt8)
  | copy (channel : DmaChannel) (ep : UInt8) (bytes : ℕ)
  | commitBuffer (channel : DmaChannel) (ep : UInt8) (count : ℕ)
deriving DecidableEq, Repr

/-- What the functions of `main.c` do to the SDK and to the globals. -/
inductive Effect where
  /-- `CyU3PUsbAckSetup` -/
  | ackSetup
  /-- `CyU3PUsbStall` -/
  | stall (ep : UInt16) (stall toggle : Bool)
  /-- `CyU3PUsbSetEpNak` -/
  | setEpNak (ep : UInt8) (nak : Bool)
  /-- `CyU3PUsbFlushEp` -/
  | flushEp (ep : UInt8)
  /-- `CyU3PUsbResetEp` -/
  | resetEp (ep : UInt8)
  /-- `CyU3PSetEpConfig` -/
  | setEpConfig (ep : UInt8) (enable : Bool)
  /-- A call that concerns a DMA channel. -/
  | dma (op : DmaOp)
  /-- `glIsApplnActive` is assigned. -/
  | setActive (active : Bool)
  /-- The words of a setup packet are stored and `CYFX_USB_CTRL_TASK` is set. -/
  | defer (setupdat0 setupdat1 : UInt32)
deriving DecidableEq, Repr

/-! ### Start and stop -/

/-- The three endpoints, in the order in which `main.c` lists them. -/
def endpoints : List UInt8 := [cyFxEpNotifier, cyFxEpProducer, cyFxEpConsumer]

/-- `CyFxAppStart` -/
def cyFxAppStart : List Effect :=
  endpoints.map (Effect.setEpConfig · true) ++ endpoints.map Effect.flushEp ++
    ([.dma (.create .notifier .cons1 16), .dma (.setXfer .notifier cyFxEpNotifier),
      .dma (.create .bulkSink .cons2 512), .dma (.setXfer .bulkSink cyFxEpConsumer),
      .dma (.create .bulkSrc .prod2 512), .dma (.setXfer .bulkSrc cyFxEpProducer),
      .setActive true] : List Effect)

/-- `CyFxAppStop` -/
def cyFxAppStop : List Effect :=
  ([.setActive false, .dma (.destroy .notifier), .dma (.destroy .bulkSink),
      .dma (.destroy .bulkSrc)] : List Effect) ++
    endpoints.map Effect.flushEp ++ endpoints.map (Effect.setEpConfig · false)

/-- `CyU3PUsbEventType_t`, as far as `CyFxAppUSBEventCB` tells the events apart here. -/
inductive UsbEventType where
  | connect
  | setconf
  | reset
  | disconnect
  | other
deriving DecidableEq, Repr

/-- `CyFxAppUSBEventCB` -/
def cyFxAppUSBEventCB (glIsApplnActive : Bool) : UsbEventType → List Effect
  | .setconf => (if glIsApplnActive then cyFxAppStop else []) ++ cyFxAppStart
  | .reset | .disconnect => if glIsApplnActive then cyFxAppStop else []
  | .connect | .other => []

/-! ### The setup callback -/

section Setup

variable (setupdat0 setupdat1 : UInt32)

def bReqType : UInt8 := (setupdat0 &&& requestTypeMask).toUInt8
def bType : UInt8 := bReqType setupdat0 &&& typeMask.toUInt8
def bTarget : UInt8 := bReqType setupdat0 &&& targetMask.toUInt8
def bRequest : UInt8 := ((setupdat0 &&& requestMask) >>> requestPos).toUInt8
def wValue : UInt16 := ((setupdat0 &&& valueMask) >>> valuePos).toUInt16
def wIndex : UInt16 := ((setupdat1 &&& indexMask) >>> indexPos).toUInt16

/-- `SET_FEATURE` or `CLEAR_FEATURE` for the interface. -/
def IsInterfaceFeature : Prop :=
  bType setupdat0 = standardRqt ∧ bTarget setupdat0 = targetIntf ∧
    (bRequest setupdat0 = scSetFeature ∨ bRequest setupdat0 = scClearFeature) ∧
    wValue setupdat0 = 0

/-- `CLEAR_FEATURE( ENDPOINT_HALT )` -/
def IsClearHalt : Prop :=
  bType setupdat0 = standardRqt ∧ bTarget setupdat0 = targetEndpt ∧
    bRequest setupdat0 = scClearFeature ∧ wValue setupdat0 = fsEpHalt

instance : Decidable (IsInterfaceFeature setupdat0) := inferInstanceAs (Decidable (_ ∧ _))
instance : Decidable (IsClearHalt setupdat0) := inferInstanceAs (Decidable (_ ∧ _))

/-- What the callback does for a halted endpoint. -/
def clearHalt (ep : UInt8) (channel : DmaChannel) : List Effect :=
  [.setEpNak ep true, .dma (.reset channel ep), .flushEp ep, .resetEp ep, .setEpNak ep false,
    .dma (.setXfer channel ep), .stall (wIndex setupdat1) false true, .ackSetup]

/-- One of the tests of the callback: whether it sets `isHandled`, and what it does. -/
def handleIf (condition : Prop) [Decidable condition] (effects : List Effect) :
    Bool × List Effect :=
  if condition then (true, effects) else (false, [])

/-- The tests of the callback, in their order. -/
def setupTests (glIsApplnActive : Bool) : List (Bool × List Effect) :=
  [handleIf (IsInterfaceFeature setupdat0)
      [if glIsApplnActive then .ackSetup else .stall 0 true false],
    handleIf (IsClearHalt setupdat0 ∧ glIsApplnActive ∧
        wIndex setupdat1 = cyFxEpProducer.toUInt16)
      (clearHalt setupdat1 cyFxEpProducer .bulkSink),
    handleIf (IsClearHalt setupdat0 ∧ glIsApplnActive ∧
        wIndex setupdat1 = cyFxEpConsumer.toUInt16)
      (clearHalt setupdat1 cyFxEpConsumer .bulkSrc),
    handleIf (bType setupdat0 = classRqt ∧ bRequest setupdat0 = ncmGetNtbParameters)
      [.defer setupdat0 setupdat1],
    handleIf (bType setupdat0 = standardRqt ∧ bRequest setupdat0 = usbReqSetInterface)
      [.defer setupdat0 setupdat1],
    handleIf (bType setupdat0 = standardRqt ∧ bRequest setupdat0 = usbReqGetInterface)
      [.defer setupdat0 setupdat1]]

/-- `CyFxAppUSBSetupCB`: its `isHandled`, and what it does. -/
def cyFxAppUSBSetupCB (glIsApplnActive : Bool) : Bool × List Effect :=
  let tests := setupTests setupdat0 setupdat1 glIsApplnActive
  (tests.any fun t => t.1, tests.flatMap fun t => t.2)

/-- The request that `appThread_Entry` builds from the words.  Its members are bit fields, so the
values are cut to their widths. -/
def setupRequest : UsbControlRequest where
  direction := ((setupdat0 &&& requestTypeMask &&& 0x80) >>> 8).toBitVec.setWidth 1
  type := ((setupdat0 &&& requestTypeMask &&& typeMask) >>> 5).toBitVec.setWidth 2
  recipient := (setupdat0 &&& requestTypeMask &&& targetMask).toBitVec.setWidth 5
  bRequest := ((setupdat0 &&& requestMask) >>> requestPos).toUInt8
  wLength := ((setupdat1 &&& lengthMask) >>> lengthPos).toUInt16
  wValue := ((setupdat0 &&& valueMask) >>> valuePos).toUInt16
  wIndex := ((setupdat1 &&& indexMask) >>> indexPos).toUInt16

end Setup

/-! ### usb_transfer_ep -/

/-- Which calls of the SDK succeed during `usb_transfer_ep`: the two attempts to get a buffer,
and the commit. -/
structure SdkStatus where
  getBuffer : Bool
  getBufferAgain : Bool
  commitBuffer : Bool
deriving DecidableEq, Repr

/-- Every call succeeds. -/
def SdkStatus.success : SdkStatus := ⟨true, true, true⟩

/-- The calls with which `usb_transfer_ep` passes `bytes` bytes to a channel, committing `count`
of them, and whether they get as far as the commit. -/
def dmaTransfer (status : SdkStatus) (channel : DmaChannel) (ep : UInt8) (bytes count : ℕ) :
    Bool × List DmaOp :=
  let restart : List DmaOp := [.reset channel ep, .setXfer channel ep]
  let fetch : List DmaOp := if status.getBuffer then [.getBuffer channel ep]
    else [DmaOp.getBuffer channel ep] ++ restart ++ [DmaOp.getBuffer channel ep]
  if status.getBuffer || status.getBufferAgain then
    (true, fetch ++ [DmaOp.copy channel ep bytes, DmaOp.commitBuffer channel ep count] ++
      if status.commitBuffer then [] else restart)
  else (false, fetch)

/-- `usb_transfer_ep`: its result, and the calls it makes. -/
def Firmware.usbTransferEp (status : SdkStatus) (epAddr : UInt8) (bytes : ℕ) :
    Bool × List DmaOp :=
  if epAddr = ncmEpNotify then dmaTransfer status .notifier epAddr bytes bytes
  else if epAddr = ncmEpDataOut then (false, (dmaTransfer status .bulkSink epAddr bytes 2).2)
  else (false, [])

/-! ### The machine -/

/-- The globals of `main.c`, the channels that exist with the socket they were created for, and
the driver.  `ctrlTask` is the flag `CYFX_USB_CTRL_TASK` of `glBulkLpEvent`, and `entered` lists
the calls of the driver's entry points. -/
structure Firmware where
  driver : World
  glIsApplnActive : Bool
  channels : DmaChannel → Option Socket
  glSetupdat0 : UInt32
  glSetupdat1 : UInt32
  ctrlTask : Bool
  entered : List Input

/-- A step of the firmware.  The driver's entry points are called by the lwIP thread and for
completed transfers. -/
inductive FirmwareEvent where
  | usbEvent (type : UsbEventType)
  | setup (setupdat0 setupdat1 : UInt32)
  /-- The loop of `appThread_Entry` wakes up. -/
  | wake
  | driver (event : Event)

/-- A step, with the answer of `net_rx_cb` during it. -/
abbrev FirmwareInput := FirmwareEvent × Bool

namespace Firmware

/-- After the driver's `net_init`, before the host has configured the device. -/
def init : Firmware where
  driver := World.init
  glIsApplnActive := false
  channels _ := none
  glSetupdat0 := 0
  glSetupdat1 := 0
  ctrlTask := false
  entered := []

/-- What the driver gets as answers from `main.c`. -/
def env (netRxCb : Bool) : Env where
  usbEpBusy _ := false
  usbTransferEp epAddr _ bytes := (usbTransferEp .success epAddr bytes).1
  netRxCb := netRxCb

/-- The effects of a call that the driver made. -/
def callEffects : Call → List Effect
  | .usbTransferEp epAddr _ bytes _ => (usbTransferEp .success epAddr bytes).2.map .dma
  | _ => []

/-- The effects of the calls that the driver made between two of its states. -/
def driverEffects (w w' : World) : List Effect :=
  (w'.log.drop w.log.length).flatMap callEffects

/-- An entry point of the driver is called. -/
def callDriver (event : Event) (netRxCb : Bool) (s : Firmware) : Firmware × List Effect :=
  let driver := Fx3Ncm.step s.driver (event, env netRxCb)
  ({ s with driver := driver, entered := s.entered ++ [(event, env netRxCb)] },
    driverEffects s.driver driver)

/-- The control part of the loop of `appThread_Entry`, after `CyU3PEventGet` has read and cleared
the flag. -/
def appThread (netRxCb : Bool) (s : Firmware) : Firmware × List Effect :=
  if s.ctrlTask then
    let request := setupRequest s.glSetupdat0 s.glSetupdat1
    let ok := (netUsbControlTransfer (env netRxCb) request s.driver).1
    let r := callDriver (.netUsbControlTransfer request) netRxCb { s with ctrlTask := false }
    (r.1, r.2 ++ if ok then [] else [.stall 0 true false])
  else (s, [])

/-- What is done in a step. -/
def respond (s : Firmware) (input : FirmwareInput) : Firmware × List Effect :=
  match input.1 with
  | .usbEvent type => (s, cyFxAppUSBEventCB s.glIsApplnActive type)
  | .setup setupdat0 setupdat1 => (s, (cyFxAppUSBSetupCB setupdat0 setupdat1 s.glIsApplnActive).2)
  | .wake => appThread input.2 s
  | .driver event => callDriver event input.2 s

/-- Carry out an effect. -/
def apply (s : Firmware) : Effect → Firmware
  | .dma (.create channel socket _) =>
    { s with channels := Function.update s.channels channel (some socket) }
  | .dma (.destroy channel) => { s with channels := Function.update s.channels channel none }
  | .setActive active => { s with glIsApplnActive := active }
  | .defer setupdat0 setupdat1 =>
    { s with glSetupdat0 := setupdat0, glSetupdat1 := setupdat1, ctrlTask := true }
  | _ => s

/-- One step. -/
def step (s : Firmware) (input : FirmwareInput) : Firmware :=
  (s.respond input).2.foldl apply (s.respond input).1

end Firmware

end Fx3Ncm
