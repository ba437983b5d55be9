/-
# The NCM driver

`tx.c`, `rx.c` and `net.c` as functions on an explicit state.  A `World` is the driver
state together with the record of what has happened so far: the calls the driver made to
the code around it, the accesses to received datagram tables, and the completions that were
reported to it.  Each function of the source takes the world before the call and returns
its result and the world after it.

The answers of `usb_ep_busy`, `usb_transfer_ep` and `net_rx_cb` come from outside.  They
are given by an `Env`, one for each entry point called; within one entry point no two
calls have the same arguments, so this loses nothing.
-/
import Fx3Ncm.Lib.Run
import Fx3Ncm.Ncm.Struct

namespace Fx3Ncm

open ByteMemory

/-! ### The world around the driver -/

/-- What the `buffer` argument of `usb_transfer_ep` points to.  For an NTB that is to be
sent this includes its bytes at the time of the call. -/
inductive Buffer where
  | null
  | message (bytes : List UInt8)
  | rxNtb (i : NtbPtr)
  | txNtb (i : NtbPtr) (data : Mem)

/-- The ring lists of the driver. -/
inductive ListName where
  | rxFree
  | rxWait
  | txFree
  | txWait
deriving DecidableEq, Repr

/-- What is recorded of a run. -/
inductive Call where
  /-- `usb_transfer_ep` was called and gave the answer `ok`. -/
  | usbTransferEp (epAddr : UInt8) (buffer : Buffer) (bytes : ℕ) (ok : Bool)
  /-- `usb_transfer_ep0` was called on a buffer that holds `data`. -/
  | usbTransferEp0 (data : List UInt8) (bytes : ℕ)
  /-- `usb_control_status` was called. -/
  | usbControlStatus
  /-- `net_rx_cb` was offered `datagram`, the `length` bytes from offset `offset` of
  `rx_ntb[ntb]`, and answered `ok`. -/
  | netRxCb (ntb : NtbPtr) (offset length : ℕ) (datagram : List UInt8) (ok : Bool)
  /-- `net_tx_cb` wrote `written` to offset `offset` of `tx_ntb[ntb]`. -/
  | netTxCb (ntb : NtbPtr) (offset : ℕ) (written : List UInt8)
  /-- A table entry at offset `offset` of `rx_ntb[ntb]` was read. -/
  | ndpEntry (ntb : NtbPtr) (offset : ℕ)
  /-- `tx_accept_user_ntb` opened `tx_ntb[ntb]` with this `wSequence`. -/
  | openNtb (ntb : NtbPtr) (sequence : ℕ)
  /-- `push_ntb` was called and gave the answer `ok`. -/
  | pushNtb (list : ListName) (ntb : Option NtbPtr) (ok : Bool)
  /-- `net_usb_transfer` was called: a transfer was reported as completed.  For the OUT
  endpoint, `block` holds the bytes of the NTB that USB filled. -/
  | netUsbTransfer (epAddr : UInt8) (bytes : ℕ) (block : Option Mem)

/-- The answers of `usb_ep_busy`, of `usb_transfer_ep` and of `net_rx_cb` (nonzero or zero)
during one entry point. -/
structure Env where
  usbEpBusy : UInt8 → Bool
  usbTransferEp : UInt8 → Buffer → ℕ → Bool
  netRxCb : Bool

/-- The driver state, everything recorded so far, oldest first, and the size admitted: that of
the last `net_can_tx` if it returned `true` and no `net_tx` has been called since. -/
structure World extends NcmInterface where
  log : List Call
  admitted : Option UInt16

namespace World

/-- Record a call. -/
def record (w : World) (c : Call) : World := { w with log := w.log ++ [c] }

/-- Replace the fields of the OUT direction. -/
def setRx (w : World) (rx : RxState) : World := { w with rx := rx }

/-- Replace the fields of the IN direction. -/
def setTx (w : World) (tx : TxState) : World := { w with tx := tx }

variable (w : World) (c : Call) (rx : RxState) (tx : TxState)

@[simp] lemma record_log : (w.record c).log = w.log ++ [c] := rfl
@[simp] lemma record_rx : (w.record c).rx = w.rx := rfl
@[simp] lemma record_tx : (w.record c).tx = w.tx := rfl
@[simp] lemma record_interfaceActive : (w.record c).interfaceActive = w.interfaceActive := rfl
@[simp] lemma setRx_log : (w.setRx rx).log = w.log := rfl
@[simp] lemma setRx_rx : (w.setRx rx).rx = rx := rfl
@[simp] lemma setRx_tx : (w.setRx rx).tx = w.tx := rfl
@[simp] lemma setRx_interfaceActive : (w.setRx rx).interfaceActive = w.interfaceActive := rfl
@[simp] lemma setTx_log : (w.setTx tx).log = w.log := rfl
@[simp] lemma setTx_rx : (w.setTx tx).rx = w.rx := rfl
@[simp] lemma setTx_tx : (w.setTx tx).tx = tx := rfl
@[simp] lemma setTx_interfaceActive : (w.setTx tx).interfaceActive = w.interfaceActive := rfl

end World

/-- A call of `usb_transfer_ep`. -/
def usbTransferEp (env : Env) (epAddr : UInt8) (buffer : Buffer) (bytes : ℕ) (w : World) :
    Bool × World :=
  let ok := env.usbTransferEp epAddr buffer bytes
  (ok, w.record (.usbTransferEp epAddr buffer bytes ok))

/-- `push_ntb( &ncm_if.rx_free_ntb, ntb )` -/
def pushRxFree (ntb : Option NtbPtr) (w : World) : Bool × World :=
  let r := pushNtb w.rx.rxFreeNtb ntb
  (r.1, (w.setRx { w.rx with rxFreeNtb := r.2 }).record (.pushNtb .rxFree ntb r.1))

/-- `push_ntb( &ncm_if.rx_wait_ntb, ntb )` -/
def pushRxWait (ntb : Option NtbPtr) (w : World) : Bool × World :=
  let r := pushNtb w.rx.rxWaitNtb ntb
  (r.1, (w.setRx { w.rx with rxWaitNtb := r.2 }).record (.pushNtb .rxWait ntb r.1))

/-- `push_ntb( &ncm_if.tx_wait_ntb, ntb )` -/
def pushTxWait (ntb : Option NtbPtr) (w : World) : Bool × World :=
  let r := pushNtb w.tx.txWaitNtb ntb
  (r.1, (w.setTx { w.tx with txWaitNtb := r.2 }).record (.pushNtb .txWait ntb r.1))

/-! ### tx.c -/

/-- `tx_notification` -/
def txNotification (env : Env) (forceNext : Bool) (w : World) : World :=
  if !forceNext && w.notificationState ≠ .waiting then w
  else if w.notificationState = .waiting then
    let w := { w with notificationState := .speedChange }
    let w := (usbTransferEp env ncmEpNotify (.message notifySpeed) notifySpeed.length w).2
    let w := (usbTransferEp env ncmEpNotify (.message notifyConnection)
      notifyConnection.length w).2
    { w with notificationState := .connected }
  else if w.notificationState = .connected then { w with notificationState := .waiting }
  else w

/-- `tx_insert_zlp` -/
def txInsertZlp (env : Env) (size : UInt16) (w : World) : Bool × World :=
  if size.toNat = 0 ∨ size.toNat % ncmEpSize ≠ 0 then (false, w)
  else (true, (usbTransferEp env ncmEpDataIn .null 0 w).2)

/-- `tx_datagram_fits_user_ntb` -/
def txDatagramFitsUserNtb (datagramSize : UInt16) (w : World) : Bool :=
  match w.tx.txUserNtb with
  | none => false
  | some i =>
    if w.tx.txUserNtbDatagramIndex ≥ ncmMaxDatagramsPerNtb then false
    else decide (wBlockLength (w.tx.txNtb i) + datagramSize.toNat +
      alignOffset datagramSize.toNat ≤ ncmNtbMaxSize)

/-- The assignments of `tx_accept_user_ntb` that fill the header of a newly opened NTB. -/
def populateNtb (m : Mem) (sequence : ℕ) : Mem :=
  let m := write32 m 0 nth16Signature
  let m := write16 m 4 sizeofNth16
  let m := write16 m 6 sequence
  let m := write16 m 8 sizeofNtbHeader
  let m := write16 m 10 sizeofNth16
  let m := write32 m 12 ndp16SignatureNcm0
  let m := write16 m 16 (sizeofNdp16 + sizeofNdpDatagram)
  let m := write16 m 18 0
  store m ndpDatagramOffset (List.replicate sizeofNdpDatagram 0)

/-- The part of `tx_accept_user_ntb` after the old user NTB has been put away. -/
def txOpenUserNtb (w : World) : Bool × World :=
  let r := popNtb w.tx.txFreeNtb
  let w := w.setTx { w.tx with txFreeNtb := r.2, txUserNtb := r.1 }
  match r.1 with
  | none => (false, w)
  | some i =>
    let w := w.setTx { w.tx with
      txUserNtbDatagramIndex := 0
      txNtb := Function.update w.tx.txNtb i (populateNtb (w.tx.txNtb i) w.tx.txSeqCount)
      txSeqCount := (w.tx.txSeqCount + 1) % 2 ^ 16 }
    (true, w.record (.openNtb i (wSequence (w.tx.txNtb i))))

/-- `tx_accept_user_ntb` -/
def txAcceptUserNtb (w : World) : Bool × World :=
  if w.tx.txUserNtb.isSome then
    let r := pushTxWait w.tx.txUserNtb w
    if r.1 then txOpenUserNtb r.2 else (false, r.2)
  else txOpenUserNtb w

/-- The last part of `tx_try_start`: the NTB in `tx_usbd_ntb` is passed to USB.  The pointer
is not `NULL` there. -/
def txStartTransfer (env : Env) (w : World) : Bool × World :=
  match w.tx.txUsbdNtb with
  | none => (false, w)
  | some i =>
    usbTransferEp env ncmEpDataIn (.txNtb i (w.tx.txNtb i)) (wBlockLength (w.tx.txNtb i)) w

/-- `tx_try_start` -/
def txTryStart (env : Env) (w : World) : Bool × World :=
  if w.tx.txUsbdNtb.isSome then (false, w)
  else if w.interfaceActive ≠ 1 then (false, w)
  else if env.usbEpBusy ncmEpDataIn then (false, w)
  else
    let r := popNtb w.tx.txWaitNtb
    let w := w.setTx { w.tx with txWaitNtb := r.2, txUsbdNtb := r.1 }
    if r.1 = none ∧ (w.tx.txUserNtb = none ∨ w.tx.txUserNtbDatagramIndex = 0) then (false, w)
    else if r.1 = none then
      txStartTransfer env (w.setTx { w.tx with txUsbdNtb := w.tx.txUserNtb, txUserNtb := none })
    else txStartTransfer env w

/-! ### rx.c -/

/-- `rx_validate_datagram` -/
def rxValidateDatagram (_ntb : Option NtbPtr) (_size : UInt16) : Bool := true

/-- The first part of `rx_update_user_ntb`: a waiting NTB is fetched when the user has none. -/
def rxFetchUserNtb (w : World) : World :=
  if w.rx.rxUserNtb = none then
    let r := popNtb w.rx.rxWaitNtb
    w.setRx { w.rx with rxWaitNtb := r.2, rxUserNtb := r.1, rxUserNtbDatagramIndex := 0 }
  else w

/-- The datagram table the receiver walks: it starts behind the `ndp16_t` at `wNdpIndex`. -/
def ndp16DatagramOffset (m : Mem) : ℕ := wNdpIndex m + sizeofNdp16

/-- The second part of `rx_update_user_ntb`: the current datagram of the user NTB `i` is
offered, and if it is taken the next table entry decides whether the table goes on. -/
def rxOfferDatagram (env : Env) (i : NtbPtr) (w : World) : Bool × World :=
  let m := w.rx.rxNtb i
  let table := ndp16DatagramOffset m
  let j := w.rx.rxUserNtbDatagramIndex
  let w := w.record (.ndpEntry i (table + sizeofNdp16Datagram * j))
  let dIndex := wDatagramIndex m table j
  let dLength := wDatagramLength m table j
  let w := w.record (.netRxCb i dIndex dLength (load m dIndex dLength) env.netRxCb)
  if env.netRxCb then
    let w := w.record (.ndpEntry i (table + sizeofNdp16Datagram * (j + 1)))
    if wDatagramIndex m table (j + 1) ≠ 0 ∧ wDatagramLength m table (j + 1) ≠ 0 then
      (true, w.setRx { w.rx with rxUserNtbDatagramIndex := (j + 1) % 2 ^ 16 })
    else pushRxFree w.rx.rxUserNtb w
  else (true, w)

/-- `rx_update_user_ntb` -/
def rxUpdateUserNtb (env : Env) (w : World) : Bool × World :=
  let w := rxFetchUserNtb w
  match w.rx.rxUserNtb with
  | none => (true, w)
  | some i => rxOfferDatagram env i w

/-- `rx_try_start` -/
def rxTryStart (env : Env) (w : World) : Bool × World :=
  if w.rx.rxUsbdNtb.isSome then (false, w)
  else if w.interfaceActive ≠ 1 then (false, w)
  else if env.usbEpBusy ncmEpDataOut then (false, w)
  else
    let r := popNtb w.rx.rxFreeNtb
    let w := w.setRx { w.rx with rxFreeNtb := r.2, rxUsbdNtb := r.1 }
    match r.1 with
    | none => (false, w)
    | some i =>
      let t := usbTransferEp env ncmEpDataOut (.rxNtb i) ncmNtbMaxSize w
      if t.1 then t else (false, (pushRxFree t.2.rx.rxUsbdNtb t.2).2)

/-! ### net.c -/

/-- `net_can_tx` -/
def netCanTx (env : Env) (size : UInt16) (w : World) : Bool × World :=
  if txDatagramFitsUserNtb size w then (true, w)
  else
    let r := txAcceptUserNtb w
    if r.1 then (true, r.2) else (false, (txTryStart env r.2).2)

/-- The effect of `net_tx` on the bytes of the NTB: `net_tx_cb` has written `written` and
returned `size`, and the table entry `j` and the block length follow.  What is written past
`NCM_NTB_MAX_SIZE` bytes changes no other object here. -/
def appendDatagram (m : Mem) (j : ℕ) (written : List UInt8) (size : ℕ) : Mem :=
  let m := store m (wBlockLength m) written
  let m := write16 m (ndpDatagramOffset + sizeofNdp16Datagram * j) (wBlockLength m)
  let m := write16 m (ndpDatagramOffset + sizeofNdp16Datagram * j + 2) size
  write16 m 8 (wBlockLength m + (size + alignOffset size))

/-- The part of `net_tx` before the overflow check, for the user NTB `i`. -/
def txStoreDatagram (i : NtbPtr) (written : List UInt8) (size : ℕ) (w : World) : World :=
  let m := w.tx.txNtb i
  let j := w.tx.txUserNtbDatagramIndex
  (w.record (.netTxCb i (wBlockLength m) written)).setTx { w.tx with
    txNtb := Function.update w.tx.txNtb i (appendDatagram m j written size)
    txUserNtbDatagramIndex := (j + 1) % 2 ^ 16 }

/-- `net_tx`, where `net_tx_cb` writes `written` to the destination it is given and returns
`size`. -/
def netTx (env : Env) (written : List UInt8) (size : UInt16) (w : World) : World :=
  match w.tx.txUserNtb with
  | none => w
  | some i =>
    let w := txStoreDatagram i written size.toNat w
    if wBlockLength (w.tx.txNtb i) > ncmNtbMaxSize then w else (txTryStart env w).2

/-- `net_rx_renew` -/
def netRxRenew (env : Env) (w : World) : World :=
  (rxTryStart env (rxUpdateUserNtb env w).2).2

/-- The case `NCM_EP_DATA_OUT` of `net_usb_transfer` up to the call of `net_rx_renew`. -/
def netDataOut (bytes : UInt16) (w : World) : World :=
  if rxValidateDatagram w.rx.rxUsbdNtb bytes then (pushRxWait w.rx.rxUsbdNtb w).2
  else w.setRx { w.rx with rxUsbdNtb := none }

/-- The case `NCM_EP_DATA_IN` of `net_usb_transfer`. -/
def netDataIn (env : Env) (bytes : UInt16) (w : World) : World :=
  let w := (pushRxFree w.rx.rxUsbdNtb w).2
  let r := txInsertZlp env bytes w
  if r.1 then r.2 else (txTryStart env r.2).2

/-- The completion of a transfer, as it is reported to `net_usb_transfer`. -/
def recordCompletion (epAddr : UInt8) (bytes : UInt16) (w : World) : World :=
  w.record (.netUsbTransfer epAddr bytes.toNat
    (if epAddr = ncmEpDataOut then w.rx.rxUsbdNtb.map w.rx.rxNtb else none))

/-- `net_usb_transfer`, which always returns `true`. -/
def netUsbTransfer (env : Env) (epAddr : UInt8) (bytes : UInt16) (w : World) : World :=
  let w := recordCompletion epAddr bytes w
  if epAddr = ncmEpDataOut then netRxRenew env (netDataOut bytes w)
  else if epAddr = ncmEpDataIn then netDataIn env bytes w
  else if epAddr = ncmEpNotify then txNotification env true w
  else w

/-- The `SET_INTERFACE` branch of `net_usb_control_transfer`.  The 16-bit `wValue` is stored
in the 8-bit field `interface_active`. -/
def setInterface (env : Env) (wValue : UInt16) (w : World) : World :=
  let w := { w with interfaceActive := wValue.toNat % 2 ^ 8 }
  let w := if w.interfaceActive ≠ 0 then txNotification env false (rxUpdateUserNtb env w).2 else w
  w.record .usbControlStatus

/-- `net_usb_control_transfer` -/
def netUsbControlTransfer (env : Env) (request : UsbControlRequest) (w : World) : Bool × World :=
  if request.type = usbTypeStandard then
    if request.bRequest = usbReqGetInterface then
      (true, w.record (.usbTransferEp0 [UInt8.ofNat w.interfaceActive] 1))
    else if request.bRequest = usbReqSetInterface then (true, setInterface env request.wValue w)
    else (false, w)
  else if request.type = usbTypeClass then
    if request.bRequest = ncmGetNtbParameters then
      (true, w.record (.usbTransferEp0 ntbParameters ntbParameters.length))
    else (false, w)
  else (false, w)

/-! ### Runs -/

/-- One step of a run: an entry point of the driver is called, or the USB hardware writes
into the NTB of the OUT transfer. -/
inductive Event where
  | netCanTx (size : UInt16)
  /-- `net_tx`, with `net_tx_cb` writing `written` and returning `size`. -/
  | netTx (written : List UInt8) (size : UInt16)
  | netRxRenew
  | rxUpdateUserNtb
  | netUsbTransfer (epAddr : UInt8) (bytes : UInt16)
  | netUsbControlTransfer (request : UsbControlRequest)
  /-- The hardware fills `rx_usbd_ntb` with the first `NCM_NTB_MAX_SIZE` bytes of `block`. -/
  | usbWrite (block : Mem)

/-- A step of a run with the answers given during it. -/
abbrev Input := Event × Env

/-- The bytes of `m` once the hardware has written `block` over the array `data`. -/
def overwriteNtb (m block : Mem) : Mem := fun p => if p < ncmNtbMaxSize then block p else m p

/-- The hardware writes a block into `rx_usbd_ntb`. -/
def usbWrite (block : Mem) (w : World) : World :=
  match w.rx.rxUsbdNtb with
  | none => w
  | some i => w.setRx { w.rx with
      rxNtb := Function.update w.rx.rxNtb i (overwriteNtb (w.rx.rxNtb i) block) }

/-- What the driver does in a step. -/
def perform (w : World) (input : Input) : World :=
  match input.1 with
  | .netCanTx size => (netCanTx input.2 size w).2
  | .netTx written size => netTx input.2 written size w
  | .netRxRenew => netRxRenew input.2 w
  | .rxUpdateUserNtb => (rxUpdateUserNtb input.2 w).2
  | .netUsbTransfer epAddr bytes => netUsbTransfer input.2 epAddr bytes w
  | .netUsbControlTransfer request => (netUsbControlTransfer input.2 request w).2
  | .usbWrite block => usbWrite block w

/-- The size that is admitted after a step. -/
def nextAdmitted (w : World) (input : Input) : Option UInt16 :=
  match input.1 with
  | .netCanTx size => if (netCanTx input.2 size w).1 then some size else none
  | .netTx _ _ => none
  | _ => w.admitted

/-- One step. -/
def step (w : World) (input : Input) : World :=
  { perform w input with admitted := nextAdmitted w input }

@[simp] lemma step_rx (w : World) (input : Input) : (step w input).rx = (perform w input).rx := rfl
@[simp] lemma step_tx (w : World) (input : Input) : (step w input).tx = (perform w input).tx := rfl
@[simp] lemma step_log (w : World) (input : Input) : (step w input).log = (perform w input).log :=
  rfl
@[simp] lemma step_interfaceActive (w : World) (input : Input) :
    (step w input).interfaceActive = (perform w input).interfaceActive := rfl

/-- The world after `net_init`. -/
def World.init : World := { netInit with log := [], admitted := none }

/-- The states that are reached from `net_init` by steps that all satisfy `G`. -/
abbrev Reached (G : World → Input → Prop) : World → Prop := Runs.Reachable step G World.init

/-- The environment in which no endpoint is busy and every call succeeds. -/
def Env.accepting : Env where
  usbEpBusy _ := false
  usbTransferEp _ _ _ := true
  netRxCb := true

/-- The request that selects an alternate setting of the data interface. -/
def UsbControlRequest.setInterface (wValue : UInt16) : UsbControlRequest where
  recipient := 1
  type := usbTypeStandard
  direction := 0
  bRequest := usbReqSetInterface
  wValue := wValue
  wIndex := 1
  wLength := 0

end Fx3Ncm
