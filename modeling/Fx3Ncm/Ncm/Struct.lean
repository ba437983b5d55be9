/-
# The data of the NCM driver

The constants of `ncm.h`, the layout of an NTB in memory, the ring lists of
`struct.h` with `push_ntb` and `pop_ntb`, and the driver state `ncm_if`.

An NTB is a byte memory.  `nth16_t`, `ndp16_t` and the datagram table are packed
structures that overlay its bytes, so every header field is an integer at a fixed
offset.  Offsets from `NCM_NTB_MAX_SIZE` on stand for the memory behind the array
`data`; they are never aliased with another object of the model.  In `ncm_if` the memory
behind `tx_ntb[0]` is `tx_ntb[1]`, and behind that come the lists and pointers of the IN
direction, so the model says what the code does as long as nothing is written there.

A pointer `ntb_t *` into `rx_ntb` (or `tx_ntb`) is the index of the buffer it points
to, and `NULL` is `none`.
-/
import Fx3Ncm.Lib.Memory
import Mathlib.Data.Nat.Bitwise

namespace Fx3Ncm

open ByteMemory

/-! ### Constants

The constants of `ncm.h` and `desc_value.h`, under their names there. -/

@[simp, reducible] def ncmEpSize : ℕ := 512
@[simp, reducible] def ncmEpNotify : UInt8 := 0x81
@[simp, reducible] def ncmEpDataOut : UInt8 := 0x02
@[simp, reducible] def ncmEpDataIn : UInt8 := 0x82
@[simp, reducible] def ncmNtbMaxSize : ℕ := 3200
@[simp, reducible] def ncmNtbN : ℕ := 2
@[simp, reducible] def ncmMaxDatagramsPerNtb : ℕ := 8
@[simp, reducible] def ncmNdpAlignMinSize : ℕ := 4
@[simp, reducible] def nth16Signature : ℕ := 0x484D434E
@[simp, reducible] def ndp16SignatureNcm0 : ℕ := 0x304D434E
@[simp, reducible] def ncmGetNtbParameters : UInt8 := 0x80
@[simp, reducible] def usbTypeStandard : BitVec 2 := 0
@[simp, reducible] def usbTypeClass : BitVec 2 := 1
@[simp, reducible] def usbReqGetInterface : UInt8 := 0x0A
@[simp, reducible] def usbReqSetInterface : UInt8 := 0x0B

/-- `ALIGN_OFFSET(x)`: the number of bytes from `x` to the next multiple of four. -/
def alignOffset (x : ℕ) : ℕ := (4 - (x &&& (ncmNdpAlignMinSize - 1))) &&& (ncmNdpAlignMinSize - 1)

lemma alignOffset_eq (x : ℕ) : alignOffset x = (4 - x % 4) % 4 := by
  have h : ∀ y : ℕ, y &&& 3 = y % 4 := fun y => Nat.and_two_pow_sub_one_eq_mod y 2
  change (4 - (x &&& 3)) &&& 3 = (4 - x % 4) % 4
  rw [h, h]

/-! ### The layout of an NTB -/

@[simp, reducible] def sizeofNth16 : ℕ := 12
@[simp, reducible] def sizeofNdp16 : ℕ := 8
@[simp, reducible] def sizeofNdp16Datagram : ℕ := 4

/-- `sizeof(ntb->ndp_datagram)`: one entry more than the datagrams, for the terminator. -/
@[simp, reducible] def sizeofNdpDatagram : ℕ := (ncmMaxDatagramsPerNtb + 1) * sizeofNdp16Datagram

/-- The offset of `ndp_datagram` in an `ntb_def_t`. -/
@[simp, reducible] def ndpDatagramOffset : ℕ := sizeofNth16 + sizeofNdp16

/-- The length of the header area of an `ntb_def_t`. -/
@[simp, reducible] def sizeofNtbHeader : ℕ := sizeofNth16 + sizeofNdp16 + sizeofNdpDatagram

-- the 16-bit fields of `nth16_t`
def wHeaderLength (m : Mem) : ℕ := read16 m 4
def wSequence (m : Mem) : ℕ := read16 m 6
def wBlockLength (m : Mem) : ℕ := read16 m 8
def wNdpIndex (m : Mem) : ℕ := read16 m 10

/-- `wDatagramIndex` of entry `j` of the datagram table at offset `table`. -/
def wDatagramIndex (m : Mem) (table j : ℕ) : ℕ := read16 m (table + sizeofNdp16Datagram * j)

/-- `wDatagramLength` of entry `j` of the datagram table at offset `table`. -/
def wDatagramLength (m : Mem) (table j : ℕ) : ℕ := read16 m (table + sizeofNdp16Datagram * j + 2)

lemma wDatagramIndex_eq (m : Mem) (table j : ℕ) :
    wDatagramIndex m table j = read16 m (table + 4 * j) := rfl

lemma wDatagramLength_eq (m : Mem) (table j : ℕ) :
    wDatagramLength m table j = read16 m (table + 4 * j + 2) := rfl

/-! ### Ring lists -/

/-- `ntb_list_t`: a ring of `NCM_NTB_N` slots, an empty slot being `NULL`. -/
structure NtbList (α : Type) where
  ntbList : List (Option α)
  listFront : ℕ
  listBack : ℕ
deriving DecidableEq, Repr

/-- The zeroed list. -/
def NtbList.zero {α : Type} : NtbList α := ⟨List.replicate ncmNtbN none, 0, 0⟩

/-- `push_ntb`.  The assignment `ntb = NULL` of the source ends up in the function's own
parameter, so it has no effect on the caller. -/
def pushNtb {α : Type} (list : NtbList α) (ntb : Option α) : Bool × NtbList α :=
  match ntb with
  | none => (false, list)
  | some p =>
    if (list.ntbList.getD list.listBack none).isSome then (false, list)
    else (true,
      { ntbList := list.ntbList.set list.listBack (some p)
        listFront := list.listFront
        listBack := (list.listBack + (list.listBack + 1) % ncmNtbN) % 2 ^ 16 })

/-- `pop_ntb` -/
def popNtb {α : Type} (list : NtbList α) : Option α × NtbList α :=
  match list.ntbList.getD list.listFront none with
  | none => (none, list)
  | some p => (some p,
      { ntbList := list.ntbList.set list.listFront none
        listFront := (list.listFront + (list.listFront + 1) % ncmNtbN) % 2 ^ 16
        listBack := list.listBack })

/-! ### The driver state -/

/-- A pointer to one of the NTBs of one direction. -/
abbrev NtbPtr := Fin ncmNtbN

instance : NeZero ncmNtbN := ⟨Nat.succ_ne_zero 1⟩

/-- The fields of `ncm_interface_t` for the OUT direction: the NTBs themselves, the lists of
those available for USB and of those waiting for the user, the one USB is filling, the one
the user is reading, and the datagram the user reads next. -/
structure RxState where
  rxNtb : NtbPtr → Mem
  rxFreeNtb : NtbList NtbPtr
  rxWaitNtb : NtbList NtbPtr
  rxUsbdNtb : Option NtbPtr
  rxUserNtb : Option NtbPtr
  rxUserNtbDatagramIndex : ℕ

/-- The fields of `ncm_interface_t` for the IN direction: the NTBs themselves, the lists of
those available for the user and of those waiting for USB, the one USB is sending, the one the
user is filling, the table entry filled next, and the next sequence number. -/
structure TxState where
  txNtb : NtbPtr → Mem
  txFreeNtb : NtbList NtbPtr
  txWaitNtb : NtbList NtbPtr
  txUsbdNtb : Option NtbPtr
  txUserNtb : Option NtbPtr
  txUserNtbDatagramIndex : ℕ
  txSeqCount : ℕ

/-- `notifiy_state_t` -/
inductive NotifyState where
  | waiting
  | speedChange
  | connected
deriving DecidableEq, Repr

/-- `ncm_interface_t`.  The 8-bit `interface_active` is the alternate setting; traffic is
allowed when it equals `true`. -/
structure NcmInterface where
  interfaceActive : ℕ
  rx : RxState
  tx : TxState
  notificationState : NotifyState

/-- `memset(&ncm_if, 0, sizeof(ncm_if))` -/
def NcmInterface.zero : NcmInterface where
  interfaceActive := 0
  rx :=
    { rxNtb := fun _ _ => 0
      rxFreeNtb := NtbList.zero
      rxWaitNtb := NtbList.zero
      rxUsbdNtb := none
      rxUserNtb := none
      rxUserNtbDatagramIndex := 0 }
  tx :=
    { txNtb := fun _ _ => 0
      txFreeNtb := NtbList.zero
      txWaitNtb := NtbList.zero
      txUsbdNtb := none
      txUserNtb := none
      txUserNtbDatagramIndex := 0
      txSeqCount := 0 }
  notificationState := .waiting

/-- The body of the loop of `net_init`. -/
def freeNtb (s : NcmInterface) (n : NtbPtr) : NcmInterface :=
  { s with
    tx := { s.tx with txFreeNtb := (pushNtb s.tx.txFreeNtb (some n)).2 }
    rx := { s.rx with rxFreeNtb := (pushNtb s.rx.rxFreeNtb (some n)).2 } }

/-- `net_init`.  Its result does not depend on the state before the call. -/
def netInit : NcmInterface := (List.finRange ncmNtbN).foldl freeNtb NcmInterface.zero

/-! ### Requests and constant messages -/

/-- `usb_control_request_t`, with the three bit fields of `bmRequestType`. -/
structure UsbControlRequest where
  recipient : BitVec 5
  type : BitVec 2
  direction : BitVec 1
  bRequest : UInt8
  wValue : UInt16
  wIndex : UInt16
  wLength : UInt16
deriving DecidableEq, Repr

/-- The bytes of `ntb_parameters`. -/
def ntbParameters : List UInt8 :=
  leBytes 2 28 ++ leBytes 2 1 ++ leBytes 4 ncmNtbMaxSize ++ leBytes 2 1 ++ leBytes 2 0 ++
    leBytes 2 ncmNdpAlignMinSize ++ leBytes 2 0 ++ leBytes 4 ncmNdpAlignMinSize ++ leBytes 2 1 ++
    leBytes 2 0 ++ leBytes 2 ncmNdpAlignMinSize ++ leBytes 2 6

/-- The bytes of `notify_connection`. -/
def notifyConnection : List UInt8 :=
  [0xA1, 0x00] ++ leBytes 2 1 ++ leBytes 2 0 ++ leBytes 2 0

/-- The bytes of `notify_speed`. -/
def notifySpeed : List UInt8 :=
  [0xA1, 0x2a] ++ leBytes 2 0 ++ leBytes 2 0 ++ leBytes 2 8 ++
    leBytes 4 480000000 ++ leBytes 4 480000000

end Fx3Ncm
