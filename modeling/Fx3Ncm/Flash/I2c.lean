/-
# Programming of I2C EEPROMs

`fx3_i2cboot_download` spreads an image over several EEPROMs.  Each of them has its own device
address and takes `romsize` bytes; an EEPROM of 128 KB answers to two device addresses, with 64 KB
each.  A part of the image is written and read back before the next one is written, in pieces of
at most `MAX_WRITE_SIZE` bytes.

The main result, `i2c_programmed`, says where every byte of the image is when the function has
returned 0, and that every byte has been compared with what the device returned.
-/
import Fx3Ncm.Flash.Usb
import Fx3Ncm.Lib.Loop
import Mathlib.Logic.Function.Basic

namespace Fx3Ncm.Flash

open ByteMemory Loops

@[simp, reducible] def i2cPageSize : ℕ := 64

@[simp, reducible] def i2cSlaveSize : ℕ := 64 * 1024

/-- `ROUND_UP` on values of type `int`. -/
def roundUp (n v : ℤ) : ℤ := Int.tdiv (n + (v - 1)) v * v

/-! ### Vendor requests of the flash programmer -/

/-- The vendor request that writes bytes to an EEPROM. -/
def i2cWriteRequest (devAddr address : ℕ) (data : List UInt8) : ControlRequest where
  bmRequestType := 0x40
  bRequest := 0xBA
  wValue := UInt16.ofNat devAddr
  wIndex := UInt16.ofNat address
  data := data
  wLength := data.length

/-- The vendor request that reads bytes from an EEPROM. -/
def i2cReadRequest (devAddr address size : ℕ) : ControlRequest where
  bmRequestType := 0xC0
  bRequest := 0xBB
  wValue := UInt16.ofNat devAddr
  wIndex := UInt16.ofNat address
  data := []
  wLength := size

/-- `fx3_i2c_write`.  The address is the number of bytes written so far, as an `unsigned short`. -/
def fx3I2cWrite (usb : Usb) (fwBuf : Mem) (devAddr : ℕ) (start len : ℤ) (t : Trace) :
    Outcome × Trace :=
  writeLoop usb fwBuf start (fun address => i2cWriteRequest devAddr address) len t

/-- The test of what has been read: it must be complete, and equal to what is expected. -/
def verifyReply (fwBuf : Mem) (expData : ℤ) (index size : ℕ) (r : Reply) : Option Outcome :=
  if r.result ≠ size then some (.returned (-1))
  else
    match readBuf fwBuf (expData + index) size with
    | none => some .fault
    | some expected => if expected ≠ r.bytes then some (.returned (-2)) else none

/-- `fx3_i2c_read_verify`; `expData` is the offset in the image buffer of what is expected. -/
def fx3I2cReadVerify (usb : Usb) (fwBuf : Mem) (expData : ℤ) (devAddr : ℕ) (len : ℤ) (t : Trace) :
    Outcome × Trace :=
  transferLoop usb (fun address size => some (i2cReadRequest devAddr address size))
    (verifyReply fwBuf expData) 0 len.toNat t

/-! ### fx3_i2cboot_download -/

/-- The error code with which the download ends if a function that it calls fails. -/
def Outcome.orElse (code : ℤ) : Outcome → Outcome
  | returned r => if r ≠ 0 then returned code else returned 0
  | fault => fault

/-- The download goes on if it has not failed. -/
def andThen (r : Outcome × Trace) (next : Trace → Outcome × Trace) : Outcome × Trace :=
  if r.1 = .returned 0 then next r.2 else r

/-- The write of a part of the image followed by its verification, as in each of the branches. -/
def i2cProgram (usb : Usb) (fwBuf : Mem) (address : ℕ) (offset size : ℤ) (t : Trace) :
    Outcome × Trace :=
  let w := fx3I2cWrite usb fwBuf address offset size t
  andThen (w.1.orElse (-4), w.2) fun t =>
    let v := fx3I2cReadVerify usb fwBuf offset address size t
    (v.1.orElse (-3), v.2)

/-- What is written to one EEPROM; more than 64 KB are written to two device addresses. -/
def i2cEeprom (usb : Usb) (fwBuf : Mem) (address : ℕ) (offset size : ℤ) (t : Trace) :
    Outcome × Trace :=
  if size > i2cSlaveSize then
    andThen (i2cProgram usb fwBuf address offset i2cSlaveSize t) fun t =>
      i2cProgram usb fwBuf (address + 4) (offset + i2cSlaveSize) (size - i2cSlaveSize) t
  else i2cProgram usb fwBuf address offset size t

/-- The variables of the loop and the exchanges so far. -/
structure I2cState where
  address : ℕ
  offset : ℤ
  filesize : ℤ
  trace : Trace

/-- One iteration of the loop over the EEPROMs. -/
def i2cStep (usb : Usb) (fwBuf : Mem) (romsize : ℤ) (s : I2cState) :
    I2cState ⊕ (Outcome × Trace) :=
  if s.filesize ≠ 0 then
    let size := if s.filesize ≤ romsize then s.filesize else romsize
    let r := i2cEeprom usb fwBuf s.address s.offset size s.trace
    if r.1 ≠ .returned 0 then .inr r
    else .inl ⟨s.address + 1, s.offset + size, s.filesize - size, r.2⟩
  else .inr (.returned 0, s.trace)

/-- `fx3_i2cboot_download` with at most `fuel` iterations of the loop; `handle` is what
`get_fx3_prog_handle` finds. -/
def fx3I2cbootDownload (handle : Option Usb) (stat : Option File) (opens : Bool) (fuel : ℕ) :
    Option (Outcome × Trace) :=
  match handle with
  | none => some (.returned (-1), [])
  | some usb =>
    let r := readFirmwareImage stat opens true zeroBuf
    if r.code ≠ 0 then some (.returned (-2), [])
    -- the EEPROM size has been stored when the image is accepted
    else iterate (i2cStep usb r.buf (r.romsize.getD 0)) fuel
      ⟨0, 0, roundUp r.filesize i2cPageSize, []⟩

/-- The programming of a file that can be opened ends with this outcome and these exchanges. -/
def I2cDownloads (usb : Usb) (f : File) (r : Outcome × Trace) : Prop :=
  ∃ fuel, fx3I2cbootDownload (some usb) (some f) true fuel = some r

lemma i2cDownloads_iff {usb : Usb} {f : File} (h : (f.readImage true).code = 0)
    {r : Outcome × Trace} : I2cDownloads usb f r ↔
      Ends (i2cStep usb (f.readImage true).buf ((f.readImage true).romsize.getD 0))
        ⟨0, 0, roundUp (f.readImage true).filesize i2cPageSize, []⟩ r := by
  refine exists_congr fun fuel => ?_
  rw [File.readImage] at h ⊢
  simp only [fx3I2cbootDownload, h, ne_eq, not_true_eq_false, if_false]

/-! ### The contents of the EEPROMs -/

/-- The contents of the EEPROMs, by device address. -/
abbrev Rom := ℕ → Mem

/-- A write request stores its data at its device and address onwards. -/
def writeRom (rom : Rom) (q : ControlRequest) : Rom :=
  if q.bRequest = 0xBA then
    Function.update rom q.wValue.toNat (store (rom q.wValue.toNat) q.wIndex.toNat q.data)
  else rom

/-- The contents of the EEPROMs after the exchanges. -/
def romAfter (rom : Rom) (t : Trace) : Rom := (t.map Prod.fst).foldl writeRom rom

lemma romAfter_append (rom : Rom) (t t' : Trace) :
    romAfter rom (t ++ t') = romAfter (romAfter rom t) t' := by
  rw [romAfter, List.map_append, List.foldl_append]
  rfl

/-- Reads do not change the contents. -/
lemma romAfter_of_reads {t : Trace} (h : ∀ x ∈ t, x.1.bRequest = 0xBB) (rom : Rom) :
    romAfter rom t = rom := by
  induction t with
  | nil => rfl
  | cons x t ih =>
    have hx : writeRom rom x.1 = rom := by
      rw [writeRom, h x List.mem_cons_self, if_neg (by decide)]
    change romAfter (writeRom rom x.1) t = rom
    rw [hx, ih fun y hy => h y (List.mem_cons_of_mem _ hy)]

/-- The exchange has read the byte `b` from the device `d` at the address `a`. -/
structure ReadsByte (x : Exchange) (d a : ℕ) (b : UInt8) : Prop where
  bRequest : x.1.bRequest = 0xBB
  wValue : x.1.wValue.toNat = d
  le : x.1.wIndex.toNat ≤ a
  lt : a < x.1.wIndex.toNat + x.1.wLength
  byte : x.2.bytes[a - x.1.wIndex.toNat]? = some b

/-! ### Parts of the image -/

/-- A part of the image, `n` bytes from offset `o` on, has been written to the start of the device
`d`, and then every byte has been read back. -/
structure PartDone (fwBuf : Mem) (d o n : ℕ) (t t' : Trace) : Prop where
  isPrefix : t <+: t'
  effect : ∀ rom, romAfter rom t' =
    Function.update (romAfter rom t) d (store (romAfter rom t d) 0 (load fwBuf o n))
  verified : ∀ j < n, ∃ t₁ x t₂, t' = t₁ ++ x :: t₂ ∧ ReadsByte x d j (fwBuf (o + j)) ∧
    ∀ rom, romAfter rom t₁ = romAfter rom t'

section Part

variable {usb : Usb} {fwBuf : Mem} {d o n : ℕ} {t t' : Trace}

/-- The effect of requests that write pieces to one device. -/
lemma foldl_writeRom (hd : d < 2 ^ 16) {ss : List (ℕ × ℕ)} (hss : ∀ s ∈ ss, s.1 < 2 ^ 16)
    (rom : Rom) :
    (ss.map fun s => i2cWriteRequest d s.1 (load fwBuf (o + s.1) s.2)).foldl writeRom rom =
      Function.update rom d
        (ss.foldl (fun m s => store m (0 + s.1) (load fwBuf (o + s.1) s.2)) (rom d)) := by
  induction ss generalizing rom with
  | nil => exact (Function.update_eq_self d rom).symm
  | cons s ss ih =>
    have hs := hss s List.mem_cons_self
    have hdev : (UInt16.ofNat d).toNat = d := UInt16.toNat_ofNat_of_lt' hd
    have haddr : (UInt16.ofNat s.1).toNat = s.1 := UInt16.toNat_ofNat_of_lt' hs
    have hwrite : writeRom rom (i2cWriteRequest d s.1 (load fwBuf (o + s.1) s.2)) =
        Function.update rom d (store (rom d) (0 + s.1) (load fwBuf (o + s.1) s.2)) := by
      rw [writeRom, i2cWriteRequest, if_pos rfl, hdev, haddr, Nat.zero_add]
    rw [List.map_cons, List.foldl_cons, hwrite, ih fun s hs => hss s (List.mem_cons_of_mem _ hs),
      Function.update_idem, Function.update_self, List.foldl_cons]

/-- A write that succeeds has stored the part. -/
lemma fx3I2cWrite_of_returned (hd : d < 2 ^ 16) (hn : n ≤ 2 ^ 16) (h : o + n ≤ maxFwimgSize)
    (hr : fx3I2cWrite usb fwBuf d o n t = (.returned 0, t')) :
    ∃ xs, t' = t ++ xs ∧ ∀ rom, romAfter rom xs =
      Function.update rom d (store (rom d) 0 (load fwBuf o n)) := by
  obtain ⟨xs, hxs, hrequests, -⟩ := writeLoop_of_returned (fun _ _ => rfl) h hr
  refine ⟨xs, hxs, fun rom => ?_⟩
  have hlt : ∀ s ∈ spans maxWriteSize 0 n, s.1 < 2 ^ 16 := by
    intro s hs
    have hspan := mem_spans hs
    omega
  rw [romAfter, hrequests, writeRequests, foldl_writeRom hd hlt, foldl_store_spans (by decide)]
  rfl

/-- The test of a reply when what is expected is inside the buffer. -/
lemma verifyReply_natCast {a size : ℕ} (h : o + a + size ≤ maxFwimgSize) (r : Reply) :
    verifyReply fwBuf o a size r = if r.result ≠ size then some (.returned (-1))
      else if load fwBuf (o + a) size ≠ r.bytes then some (.returned (-2)) else none := by
  have ho : (o : ℤ) + (a : ℕ) = (o + a : ℕ) := by push_cast; rfl
  rw [verifyReply, ho, readBuf_natCast fwBuf h]

lemma verifyReply_ne_returned_zero (expData : ℤ) (a size : ℕ) (r : Reply) :
    verifyReply fwBuf expData a size r ≠ some (.returned 0) := by
  rw [verifyReply]
  split_ifs
  · simp
  · split
    · simp
    · split_ifs <;> simp

/-- A verification that succeeds has read every byte of the part. -/
lemma fx3I2cReadVerify_of_returned (hd : d < 2 ^ 16) (hn : n ≤ 2 ^ 16)
    (h : o + n ≤ maxFwimgSize) (hr : fx3I2cReadVerify usb fwBuf o d n t = (.returned 0, t')) :
    ∃ xs, t' = t ++ xs ∧ (∀ x ∈ xs, x.1.bRequest = 0xBB) ∧
      ∀ j < n, ∃ x ∈ xs, ReadsByte x d j (fwBuf (o + j)) := by
  rw [fx3I2cReadVerify, Int.toNat_natCast] at hr
  obtain ⟨xs, hxs, hmoves⟩ := moves_of_returned (verifyReply_ne_returned_zero o) hr
  refine ⟨xs, hxs, ?_, fun j hj => ?_⟩
  · refine forall_of_moves hmoves fun s _ x hx => ?_
    rw [← Option.some.inj hx.request]
    rfl
  · obtain ⟨s, hs, hle, hlt⟩ := exists_mem_spans (show 0 < maxWriteSize by decide) (Nat.zero_le j)
      (show j < 0 + n by omega)
    obtain ⟨x, hmem, hx⟩ := exists_of_moves hmoves hs
    have hspan := mem_spans hs
    have hjudge := hx.judge
    rw [verifyReply_natCast (by omega)] at hjudge
    split_ifs at hjudge with hresult hbytes
    have hindex : s.1 < 2 ^ 16 := by omega
    have haddr : (UInt16.ofNat s.1).toNat = s.1 := UInt16.toNat_ofNat_of_lt' hindex
    refine ⟨x, hmem, ?_⟩
    obtain ⟨q, reply⟩ := x
    obtain rfl := Option.some.inj hx.request
    refine ⟨rfl, UInt16.toNat_ofNat_of_lt' hd, haddr.trans_le hle, ?_, ?_⟩
    · rw [i2cReadRequest, haddr]
      exact hlt
    · rw [i2cReadRequest, haddr, ← not_not.1 hbytes]
      have hj' : o + s.1 + (j - s.1) = o + j := by omega
      simp [load, show j - s.1 < s.2 by omega, hj']

lemma fx3I2cReadVerify_ne_fault (h : o + n ≤ maxFwimgSize) :
    (fx3I2cReadVerify usb fwBuf o d n t).1 ≠ .fault := by
  rw [fx3I2cReadVerify, Int.toNat_natCast]
  refine transferLoop_ne_fault (fun _ _ => Option.some_ne_none _) ?_
  intro s hs r
  have hspan := mem_spans hs
  rw [verifyReply_natCast (by omega)]
  split_ifs <;> simp

end Part

/-! ### Going on after success -/

section AndThen

variable {r : Outcome × Trace} {next : Trace → Outcome × Trace} {code : ℤ} {t' : Trace}

lemma orElse_eq_fault_iff {outcome : Outcome} :
    outcome.orElse code = .fault ↔ outcome = .fault := by
  cases outcome with
  | returned c => simp only [Outcome.orElse]; split_ifs <;> simp
  | fault => simp [Outcome.orElse]

lemma orElse_eq_zero_iff {outcome : Outcome} (h : code ≠ 0) :
    outcome.orElse code = .returned 0 ↔ outcome = .returned 0 := by
  cases outcome with
  | returned c => simp only [Outcome.orElse]; split_ifs with hc <;> simp_all
  | fault => simp [Outcome.orElse]

lemma andThen_ne_fault (hr : r.1 ≠ .fault) (hnext : ∀ t, (next t).1 ≠ .fault) :
    (andThen r next).1 ≠ .fault := by
  rw [andThen]
  split_ifs
  · exact hnext _
  · exact hr

lemma andThen_returned (hr : r.1 = .returned 0) (hnext : (next r.2).1 = .returned 0) :
    (andThen r next).1 = .returned 0 := by
  rw [andThen, if_pos hr]
  exact hnext

lemma andThen_of_returned (h : andThen r next = (.returned 0, t')) :
    ∃ t, r = (.returned 0, t) ∧ next t = (.returned 0, t') := by
  rw [andThen] at h
  split_ifs at h with hr
  · exact ⟨r.2, Prod.ext hr rfl, h⟩
  · exact absurd (congrArg Prod.fst h) hr

lemma orElse_of_returned (hcode : code ≠ 0) (h : (r.1.orElse code, r.2) = (.returned 0, t')) :
    r = (.returned 0, t') := by
  obtain ⟨hzero, htrace⟩ := Prod.mk.inj h
  exact Prod.ext ((orElse_eq_zero_iff hcode).1 hzero) htrace

end AndThen

section Program

variable {usb : Usb} {fwBuf : Mem} {d o n : ℕ} {t t' : Trace}

lemma i2cProgram_ne_fault (h : o + n ≤ maxFwimgSize) :
    (i2cProgram usb fwBuf d o n t).1 ≠ .fault := by
  refine andThen_ne_fault ?_ fun t => ?_
  · exact fun hfault => writeLoop_ne_fault h (orElse_eq_fault_iff.1 hfault)
  · exact fun hfault => fx3I2cReadVerify_ne_fault h (orElse_eq_fault_iff.1 hfault)

/-- A part that has been programmed is stored and verified. -/
lemma partDone_of_returned (hd : d < 2 ^ 16) (hn : n ≤ 2 ^ 16) (h : o + n ≤ maxFwimgSize)
    (hr : i2cProgram usb fwBuf d o n t = (.returned 0, t')) : PartDone fwBuf d o n t t' := by
  rw [i2cProgram] at hr
  obtain ⟨t₁, hwrite, hverify⟩ := andThen_of_returned hr
  obtain ⟨xs, rfl, heffect⟩ :=
    fx3I2cWrite_of_returned hd hn h (orElse_of_returned (by decide) hwrite)
  obtain ⟨ys, rfl, hreads, hbytes⟩ :=
    fx3I2cReadVerify_of_returned hd hn h (orElse_of_returned (by decide) hverify)
  refine ⟨⟨xs ++ ys, by rw [List.append_assoc]⟩, fun rom => ?_, fun j hj => ?_⟩
  · rw [romAfter_append, romAfter_append, romAfter_of_reads hreads, heffect]
  · obtain ⟨x, hx, hbyte⟩ := hbytes j hj
    obtain ⟨ys₁, ys₂, rfl⟩ := List.append_of_mem hx
    refine ⟨t ++ xs ++ ys₁, x, ys₂, by simp, hbyte, fun rom => ?_⟩
    rw [romAfter_append rom (t ++ xs), romAfter_append rom (t ++ xs), romAfter_of_reads hreads,
      romAfter_of_reads fun y hy => hreads y (List.mem_append_left _ hy)]

lemma i2cEeprom_of_le (hn : n ≤ i2cSlaveSize) :
    i2cEeprom usb fwBuf d o n t = i2cProgram usb fwBuf d o n t := by
  rw [i2cEeprom, if_neg fun h => absurd (Int.ofNat_lt.1 h) (not_lt.2 hn)]

lemma i2cEeprom_of_gt {k : ℕ} (hk : 0 < k) :
    i2cEeprom usb fwBuf d o (i2cSlaveSize + k : ℕ) t =
      andThen (i2cProgram usb fwBuf d o i2cSlaveSize t) fun t =>
        i2cProgram usb fwBuf (d + 4) (o + i2cSlaveSize : ℕ) k t := by
  have hlt : ((i2cSlaveSize + k : ℕ) : ℤ) > i2cSlaveSize :=
    Int.ofNat_lt.2 (Nat.lt_add_of_pos_right hk)
  rw [i2cEeprom, if_pos hlt, Nat.cast_add, Nat.cast_add, add_sub_cancel_left]

/-- A length needs one device address, or one and a rest. -/
lemma slave_cases (n : ℕ) : n ≤ i2cSlaveSize ∨ ∃ k, 0 < k ∧ n = i2cSlaveSize + k := by
  rcases Nat.lt_or_ge i2cSlaveSize n with hn | hn
  · obtain ⟨k, rfl⟩ := Nat.exists_eq_add_of_le hn.le
    exact Or.inr ⟨k, Nat.lt_add_right_iff_pos.1 hn, rfl⟩
  · exact Or.inl hn

lemma i2cEeprom_ne_fault (h : o + n ≤ maxFwimgSize) :
    (i2cEeprom usb fwBuf d o n t).1 ≠ .fault := by
  rcases slave_cases n with hn | ⟨k, hk, rfl⟩
  · rw [i2cEeprom_of_le hn]
    exact i2cProgram_ne_fault h
  · rw [i2cEeprom_of_gt hk]
    refine andThen_ne_fault ?_ fun t => ?_
    · exact i2cProgram_ne_fault ((Nat.add_le_add_left (Nat.le_add_right _ k) o).trans h)
    · exact i2cProgram_ne_fault ((Nat.add_assoc o _ k).trans_le h)

/-- An EEPROM that has been programmed holds one part of the image, or two. -/
lemma i2cEeprom_of_returned (hd : d + 4 < 2 ^ 16) (hn : n ≤ 2 * i2cSlaveSize)
    (h : o + n ≤ maxFwimgSize) (hr : i2cEeprom usb fwBuf d o n t = (.returned 0, t')) :
    n ≤ i2cSlaveSize ∧ PartDone fwBuf d o n t t' ∨
      ∃ k t₁, 0 < k ∧ n = i2cSlaveSize + k ∧ PartDone fwBuf d o i2cSlaveSize t t₁ ∧
        PartDone fwBuf (d + 4) (o + i2cSlaveSize) k t₁ t' := by
  have hslave : i2cSlaveSize ≤ 2 ^ 16 := by decide
  have hd₀ : d < 2 ^ 16 := by omega
  rcases slave_cases n with hn' | ⟨k, hk, rfl⟩
  · rw [i2cEeprom_of_le hn'] at hr
    exact Or.inl ⟨hn', partDone_of_returned hd₀ (hn'.trans hslave) h hr⟩
  · rw [i2cEeprom_of_gt hk] at hr
    obtain ⟨t₁, hfirst, hsecond⟩ := andThen_of_returned hr
    have hk' : k ≤ 2 ^ 16 := by
      simp only [i2cSlaveSize] at hn
      omega
    refine Or.inr ⟨k, t₁, hk, rfl, ?_, ?_⟩
    · exact partDone_of_returned hd₀ hslave
        ((Nat.add_le_add_left (Nat.le_add_right _ k) o).trans h) hfirst
    · exact partDone_of_returned hd hk' ((Nat.add_assoc o _ k).trans_le h) hsecond

end Program

/-! ### Where the bytes go -/

/-- The device address for the byte of the image at offset `o`. -/
def i2cDevice (romsize o : ℕ) : ℕ :=
  o / romsize + if romsize = 131072 ∧ i2cSlaveSize ≤ o % romsize then 4 else 0

/-- The address on its device of the byte of the image at offset `o`. -/
def i2cAddress (romsize o : ℕ) : ℕ := o % romsize % i2cSlaveSize

section Placement

variable {romsize : ℕ}

/-- Only the largest EEPROM has more than one device address. -/
lemma romsize_cases (h : romsize ∈ i2cEepromSize) :
    romsize = 131072 ∨ 1024 ≤ romsize ∧ romsize ≤ i2cSlaveSize := by
  simp only [i2cEepromSize, List.mem_cons, List.not_mem_nil, or_false] at h
  simp only [i2cSlaveSize]
  omega

lemma i2cDevice_mul_add (a : ℕ) {j : ℕ} (hj : j < romsize) :
    i2cDevice romsize (a * romsize + j) =
      a + if romsize = 131072 ∧ i2cSlaveSize ≤ j then 4 else 0 := by
  have hpos : 0 < romsize := by omega
  rw [i2cDevice, Nat.mul_comm a, Nat.mul_add_div hpos, Nat.div_eq_of_lt hj, Nat.mul_add_mod,
    Nat.mod_eq_of_lt hj, Nat.add_zero]

lemma i2cAddress_mul_add (a : ℕ) {j : ℕ} (hj : j < romsize) :
    i2cAddress romsize (a * romsize + j) = j % i2cSlaveSize := by
  rw [i2cAddress, Nat.mul_comm a, Nat.mul_add_mod, Nat.mod_eq_of_lt hj]

/-- No two bytes of an image are placed at the same address of the same device. -/
lemma i2cPlacement_injective (h : romsize ∈ i2cEepromSize) {p q : ℕ} (hp : p < maxFwimgSize)
    (hq : q < maxFwimgSize) (hdev : i2cDevice romsize p = i2cDevice romsize q)
    (haddr : i2cAddress romsize p = i2cAddress romsize q) : p = q := by
  rw [i2cDevice, i2cDevice] at hdev
  rw [i2cAddress, i2cAddress] at haddr
  simp only [maxFwimgSize, i2cSlaveSize] at hp hq hdev haddr
  rcases romsize_cases h with rfl | ⟨hmin, hmax⟩
  · -- the devices of the second halves are 4 to 7
    split_ifs at hdev <;> omega
  · simp only [i2cSlaveSize] at hmax
    have hne : romsize ≠ 131072 := by omega
    have hp' := Nat.mod_lt p (show 0 < romsize by omega)
    have hq' := Nat.mod_lt q (show 0 < romsize by omega)
    simp only [hne, false_and, if_false, Nat.add_zero] at hdev
    rw [Nat.mod_eq_of_lt (hp'.trans_le hmax), Nat.mod_eq_of_lt (hq'.trans_le hmax)] at haddr
    rw [← Nat.div_add_mod p romsize, ← Nat.div_add_mod q romsize, hdev, haddr]

end Placement

/-! ### Bytes that are done -/

/-- The byte of the image at offset `p` is in its place, and it has been read back from there after
it was written. -/
structure ByteDone (image : Mem) (romsize p : ℕ) (t : Trace) : Prop where
  stored : ∀ rom, romAfter rom t (i2cDevice romsize p) (i2cAddress romsize p) = image p
  verified : ∃ t₁ x t₂, t = t₁ ++ x :: t₂ ∧
    ReadsByte x (i2cDevice romsize p) (i2cAddress romsize p) (image p) ∧
    ∀ rom, romAfter rom t₁ (i2cDevice romsize p) (i2cAddress romsize p) = image p

section Bytes

variable {image : Mem} {romsize d o n a : ℕ} {t t' : Trace}

/-- A byte stays in its place if the next part does not touch it. -/
lemma ByteDone.part {p : ℕ} (h : ByteDone image romsize p t) (hpart : PartDone image d o n t t')
    (hout : i2cDevice romsize p = d → n ≤ i2cAddress romsize p) :
    ByteDone image romsize p t' := by
  refine ⟨fun rom => ?_, ?_⟩
  · rw [hpart.effect]
    by_cases hd : i2cDevice romsize p = d
    · subst hd
      have hbehind : 0 + (load image o n).length ≤ i2cAddress romsize p := by
        rw [length_load, Nat.zero_add]
        exact hout rfl
      rw [Function.update_self, store_apply_of_ge _ hbehind]
      exact h.stored rom
    · rw [Function.update_of_ne hd]
      exact h.stored rom
  · obtain ⟨t₁, x, t₂, rfl, hread, hstored⟩ := h.verified
    obtain ⟨t₃, rfl⟩ := hpart.isPrefix
    exact ⟨t₁, x, t₂ ++ t₃, by simp, hread, hstored⟩

/-- The bytes of a part are done with it. -/
lemma PartDone.byteDone (hpart : PartDone image d o n t t') {j : ℕ} (hj : j < n)
    (hdev : i2cDevice romsize (o + j) = d) (haddr : i2cAddress romsize (o + j) = j) :
    ByteDone image romsize (o + j) t' := by
  have hstored : ∀ rom, romAfter rom t' (i2cDevice romsize (o + j)) (i2cAddress romsize (o + j)) =
      image (o + j) := by
    intro rom
    rw [hpart.effect, hdev, haddr, Function.update_self]
    simp [store, load, hj]
  obtain ⟨t₁, x, t₂, ht', hread, hrom⟩ := hpart.verified j hj
  refine ⟨hstored, t₁, x, t₂, ht', ?_, fun rom => ?_⟩
  · rw [hdev, haddr]
    exact hread
  · rw [hrom]
    exact hstored rom

/-- The image is done up to the end of a part if it is done up to its start. -/
lemma PartDone.bytesDone (hrom : romsize ∈ i2cEepromSize) (hpart : PartDone image d o n t t')
    (hbytes : ∀ p < o, ByteDone image romsize p t) (hmax : o + n ≤ maxFwimgSize)
    (hplace : ∀ j < n, i2cDevice romsize (o + j) = d ∧ i2cAddress romsize (o + j) = j) :
    ∀ p < o + n, ByteDone image romsize p t' := by
  intro p hp
  rcases Nat.lt_or_ge p o with hlt | hge
  · refine (hbytes p hlt).part hpart fun hd => ?_
    by_contra haddr
    -- otherwise a byte of the part would have the same place
    obtain ⟨hd', haddr'⟩ := hplace _ (not_le.1 haddr)
    have heq := i2cPlacement_injective hrom (by omega) (by omega) (hd.trans hd'.symm) haddr'.symm
    omega
  · obtain ⟨j, rfl⟩ := Nat.exists_eq_add_of_le hge
    obtain ⟨hd, haddr⟩ := hplace j (by omega)
    exact hpart.byteDone (by omega) hd haddr

/-- The image is done up to the end of an EEPROM if it is done up to its start. -/
lemma bytesDone_eeprom {usb : Usb} (hrom : romsize ∈ i2cEepromSize) (hn : n ≤ romsize)
    (hmax : a * romsize + n ≤ maxFwimgSize) (ha : a + 4 < 2 ^ 16)
    (hbytes : ∀ p < a * romsize, ByteDone image romsize p t)
    (hr : i2cEeprom usb image a (a * romsize : ℕ) n t = (.returned 0, t')) :
    ∀ p < a * romsize + n, ByteDone image romsize p t' := by
  have hlarge := romsize_cases hrom
  have hn' : n ≤ 2 * i2cSlaveSize := by
    simp only [i2cSlaveSize] at hlarge ⊢
    omega
  have hlower : ∀ j < romsize, j < i2cSlaveSize →
      i2cDevice romsize (a * romsize + j) = a ∧ i2cAddress romsize (a * romsize + j) = j := by
    intro j hj hslave
    rw [i2cDevice_mul_add a hj, i2cAddress_mul_add a hj,
      if_neg fun h => absurd hslave (not_lt.2 h.2), Nat.mod_eq_of_lt hslave]
    exact ⟨rfl, rfl⟩
  rcases i2cEeprom_of_returned ha hn' hmax hr with
    ⟨hsmall, hpart⟩ | ⟨k, t₁, hk, rfl, hfirst, hsecond⟩
  · refine hpart.bytesDone hrom hbytes hmax fun j hj => ?_
    exact hlower j (hj.trans_le hn) (hj.trans_le hsmall)
  · -- the second device address takes the rest
    rw [← Nat.add_assoc] at hmax ⊢
    have hfirst' := hfirst.bytesDone hrom hbytes ((Nat.le_add_right _ k).trans hmax) fun j hj =>
      hlower j (hj.trans_le ((Nat.le_add_right _ k).trans hn)) hj
    refine hsecond.bytesDone hrom hfirst' hmax fun j hj => ?_
    have hj' : i2cSlaveSize + j < romsize := (Nat.add_lt_add_left hj _).trans_le hn
    have hsize : romsize = 131072 := by
      rcases hlarge with h | ⟨-, h⟩
      · exact h
      · exact absurd (Nat.le_add_right i2cSlaveSize j) (not_le.2 (hj'.trans_le h))
    have hrest : j < i2cSlaveSize := by
      simp only [i2cSlaveSize] at hn' ⊢
      omega
    rw [Nat.add_assoc, i2cDevice_mul_add a hj', i2cAddress_mul_add a hj',
      if_pos ⟨hsize, Nat.le_add_right _ _⟩, Nat.add_mod_left, Nat.mod_eq_of_lt hrest]
    exact ⟨rfl, rfl⟩

end Bytes

/-! ### The loop over the EEPROMs -/

/-- The state of the loop when `o` of `m` bytes of the image are done. -/
structure I2cAt (image : Mem) (romsize m o : ℕ) (s : I2cState) : Prop where
  le : o ≤ m
  offset : s.offset = o
  filesize : s.filesize = m - o
  address : o < m → o = s.address * romsize
  bytes : ∀ p < o, ByteDone image romsize p s.trace

section I2cLoop

variable {usb : Usb} {image : Mem} {romsize m o : ℕ} {s s' : I2cState}

/-- One iteration, with lengths that are natural numbers. -/
lemma i2cStep_of_lt (h : I2cAt image romsize m o s) (hlt : o < m) {n : ℕ}
    (hn : n = min (m - o) romsize) :
    i2cStep usb image romsize s =
      if (i2cEeprom usb image s.address o n s.trace).1 ≠ .returned 0 then
        .inr (i2cEeprom usb image s.address o n s.trace)
      else .inl ⟨s.address + 1, (o + n : ℕ), m - (o + n : ℕ),
        (i2cEeprom usb image s.address o n s.trace).2⟩ := by
  have hsize : (if (m : ℤ) - o ≤ romsize then (m : ℤ) - o else romsize) = n := by
    split_ifs <;> omega
  have hrest : (m : ℤ) - o - n = m - (o + n : ℕ) := by
    push_cast
    omega
  rw [i2cStep, h.filesize, if_pos (by omega), h.offset, hsize]
  dsimp only
  rw [hrest, Nat.cast_add]

/-- An iteration that goes on has done an EEPROM. -/
lemma i2cStep_inl (hrom : romsize ∈ i2cEepromSize) (hm : m ≤ maxFwimgSize)
    (h : I2cAt image romsize m o s) (hs : i2cStep usb image romsize s = .inl s') :
    ∃ o' > o, I2cAt image romsize m o' s' := by
  have hpos : 1024 ≤ romsize := by
    rcases romsize_cases hrom with rfl | ⟨h, -⟩
    · decide
    · exact h
  by_cases hlt : o < m
  · have hstart := h.address hlt
    have haddress : s.address + 4 < 2 ^ 16 := by
      have hle := Nat.mul_le_mul_left s.address hpos
      simp only [maxFwimgSize] at hm
      omega
    obtain ⟨n, hn⟩ : ∃ n, n = min (m - o) romsize := ⟨_, rfl⟩
    rw [i2cStep_of_lt h hlt hn] at hs
    split_ifs at hs with hr
    cases hs
    have hbytes := bytesDone_eeprom (n := n) hrom (by omega) (by omega) haddress
      (hstart ▸ h.bytes) (Prod.ext (hstart ▸ not_not.1 hr) rfl)
    refine ⟨o + n, by omega, by omega, rfl, rfl, fun hlt' => ?_, ?_⟩
    · have hfull : n = romsize := by omega
      rw [Nat.add_mul, Nat.one_mul, ← hstart, hfull]
    · rw [← hstart] at hbytes
      exact hbytes
  · rw [i2cStep, h.filesize, if_neg (by have := h.le; omega)] at hs
    cases hs

/-- How the loop is left. -/
lemma i2cStep_inr (hm : m ≤ maxFwimgSize) (h : I2cAt image romsize m o s) {r : Outcome × Trace}
    (hr : i2cStep usb image romsize s = .inr r) :
    r.1 ≠ .fault ∧ (r.1 = .returned 0 → ∀ p < m, ByteDone image romsize p r.2) := by
  by_cases hlt : o < m
  · obtain ⟨n, hn⟩ : ∃ n, n = min (m - o) romsize := ⟨_, rfl⟩
    rw [i2cStep_of_lt h hlt hn] at hr
    split_ifs at hr with hfails
    cases hr
    exact ⟨i2cEeprom_ne_fault (by omega), fun hzero => absurd hzero hfails⟩
  · have hle := h.le
    rw [i2cStep, h.filesize, if_neg (by omega)] at hr
    cases hr
    refine ⟨by simp, fun _ p hp => h.bytes p (by omega)⟩

end I2cLoop

/-! ### The image in the EEPROMs -/

/-- The size of an image that is padded to full pages. -/
lemma roundUp_natCast (n v : ℕ) (hv : 0 < v) : roundUp n v = ((n + (v - 1)) / v * v : ℕ) := by
  have hsum : (n : ℤ) + ((v : ℤ) - 1) = (n + (v - 1) : ℕ) := by omega
  rw [roundUp, hsum, ← Int.ofNat_tdiv]
  rfl

/-- Every byte of an image of `m` bytes is in its place and has been read back from there, and no
two bytes have the same place. -/
structure Programmed (image : Mem) (romsize m : ℕ) (t : Trace) : Prop where
  bytes : ∀ o < m, ByteDone image romsize o t
  injective : ∀ o < m, ∀ o' < m, i2cDevice romsize o = i2cDevice romsize o' →
    i2cAddress romsize o = i2cAddress romsize o' → o = o'

section Download

variable {f : File}

/-- The programming of an accepted image is the loop over EEPROMs of the size that it selects. -/
lemma i2cDownloads_iff_ends (h : (f.readImage true).code = 0) (hsize : f.size ≤ maxFwimgSize) :
    ∃ romsize ∈ i2cEepromSize, (f.readImage true).romsize = some romsize ∧
      ∃ m ≤ maxFwimgSize, roundUp f.size i2cPageSize = m ∧ ∀ usb r, I2cDownloads usb f r ↔
        Ends (i2cStep usb f.image romsize) ⟨0, 0, m, []⟩ r := by
  obtain ⟨hfilesize, hbuf, hrom⟩ := readImage_of_accepted f h hsize
  obtain ⟨romsize, hmem, hselect⟩ : ∃ romsize ∈ i2cEepromSize,
      selectRomsize true (f.bytes 2) = some romsize := by
    have hlt : (f.bytes 2).toNat / 2 % 8 < i2cEepromSize.length := Nat.mod_lt _ (by decide)
    rw [selectRomsize_eq, List.getElem?_eq_getElem hlt]
    exact ⟨_, List.getElem_mem hlt, rfl⟩
  rw [hselect] at hrom
  have hround : roundUp f.size i2cPageSize = ((f.size + 63) / 64 * 64 : ℕ) :=
    roundUp_natCast f.size i2cPageSize (by decide)
  refine ⟨romsize, hmem, hrom, (f.size + 63) / 64 * 64, ?_, hround, fun usb r => ?_⟩
  · simp only [maxFwimgSize] at hsize ⊢
    omega
  · rw [i2cDownloads_iff h, hfilesize, hbuf, hrom, Option.getD_some, hround]

lemma i2cAt_start (image : Mem) (romsize m : ℕ) : I2cAt image romsize m 0 ⟨0, 0, m, []⟩ :=
  ⟨Nat.zero_le m, rfl, by simp, fun _ => (Nat.zero_mul _).symm,
    fun p hp => absurd hp (Nat.not_lt_zero p)⟩

end Download

/-- An accepted image within the limit is programmed into EEPROMs of the size that it selects.  For
every device the function ends without leaving the buffer, and if it returns 0, then the image,
padded with zeros to full pages, has been programmed. -/
theorem i2c_programmed {f : File} (h : (f.readImage true).code = 0)
    (hsize : f.size ≤ maxFwimgSize) :
    ∃ romsize ∈ i2cEepromSize, (f.readImage true).romsize = some romsize ∧
      ∀ usb, (∃ r, I2cDownloads usb f r) ∧
        ∀ r, I2cDownloads usb f r → r.1 ≠ .fault ∧
          (r.1 = .returned 0 →
            Programmed f.image romsize (roundUp f.size i2cPageSize).toNat r.2) := by
  obtain ⟨romsize, hmem, hrom, m, hpadded, hround, hends⟩ := i2cDownloads_iff_ends h hsize
  refine ⟨romsize, hmem, hrom, fun usb => ?_⟩
  rw [hround, Int.toNat_natCast]
  simp only [hends]
  have hstart := i2cAt_start f.image romsize m
  refine ⟨?_, fun r hr => ?_⟩
  · refine exists_ends (I := fun s => ∃ o, I2cAt f.image romsize m o s)
      (fun s => s.filesize.toNat) ?_ ⟨0, hstart⟩
    rintro s s' ⟨o, ho⟩ hs
    obtain ⟨o', hlt, ho'⟩ := i2cStep_inl hmem hpadded ho hs
    have hle := ho'.le
    refine ⟨⟨o', ho'⟩, ?_⟩
    rw [ho.filesize, ho'.filesize]
    omega
  · have hend : r.1 ≠ .fault ∧ (r.1 = .returned 0 → ∀ p < m, ByteDone f.image romsize p r.2) := by
      refine hr.rule (I := fun s => ∃ o, I2cAt f.image romsize m o s)
        (Q := fun r => r.1 ≠ .fault ∧
          (r.1 = .returned 0 → ∀ p < m, ByteDone f.image romsize p r.2)) ?_ ?_ ⟨0, hstart⟩
      · rintro s s' ⟨o, ho⟩ hs
        obtain ⟨o', -, ho'⟩ := i2cStep_inl hmem hpadded ho hs
        exact ⟨o', ho'⟩
      · rintro s r ⟨o, ho⟩ hs
        exact i2cStep_inr hpadded ho hs
    refine ⟨hend.1, fun hzero => ⟨hend.2 hzero, fun o ho o' ho' => ?_⟩⟩
    exact i2cPlacement_injective hmem (by omega) (by omega)

/-! ### A device that works -/

/-- A flash programmer that stores what is written and returns what is stored. -/
def eepromUsb : Usb := fun t q =>
  if q.bRequest = 0xBB then
    .moved (load (romAfter (fun _ _ => 0) t q.wValue.toNat) q.wIndex.toNat q.wLength)
  else .moved q.data

section Works

variable {fwBuf : Mem} {d o n : ℕ} {t : Trace}

/-- What is stored is verified. -/
lemma fx3I2cReadVerify_eepromUsb (hd : d < 2 ^ 16) (hn : n ≤ 2 ^ 16) (h : o + n ≤ maxFwimgSize)
    (ht : ∀ j < n, romAfter (fun _ _ => 0) t d j = fwBuf (o + j)) :
    (fx3I2cReadVerify eepromUsb fwBuf o d n t).1 = .returned 0 := by
  rw [fx3I2cReadVerify, Int.toNat_natCast]
  refine transferLoop_returned (I := fun t => ∀ j < n,
    romAfter (fun _ _ => 0) t d j = fwBuf (o + j)) ht fun s hs t ht => ⟨_, rfl, ?_, ?_⟩
  · have hspan := mem_spans hs
    have hindex : s.1 < 2 ^ 16 := by omega
    have hdev : (UInt16.ofNat d).toNat = d := UInt16.toNat_ofNat_of_lt' hd
    have haddr : (UInt16.ofNat s.1).toNat = s.1 := UInt16.toNat_ofNat_of_lt' hindex
    have hreply : eepromUsb t (i2cReadRequest d s.1 s.2) = .moved (load fwBuf (o + s.1) s.2) := by
      rw [eepromUsb, i2cReadRequest, if_pos rfl, hdev, haddr]
      refine congrArg Reply.moved (List.map_congr_left fun j hj => ?_)
      have hj' : j < s.2 := List.mem_range.1 hj
      rw [ht (s.1 + j) (by omega), Nat.add_assoc]
    rw [verifyReply_natCast (by omega), hreply, if_neg, if_neg]
    · exact not_not.2 rfl
    · simp [Reply.result]
  · intro j hj
    rw [romAfter_append, romAfter_of_reads, ht j hj]
    intro x hx
    rw [List.mem_singleton.1 hx]
    rfl

lemma i2cProgram_eepromUsb (hd : d < 2 ^ 16) (hn : n ≤ 2 ^ 16) (h : o + n ≤ maxFwimgSize) :
    (i2cProgram eepromUsb fwBuf d o n t).1 = .returned 0 := by
  have hwrite : (fx3I2cWrite eepromUsb fwBuf d o n t).1 = .returned 0 :=
    writeLoop_of_succeeds (fun _ _ => rfl) (fun _ _ _ => rfl) h
  obtain ⟨t', ht'⟩ : ∃ t', fx3I2cWrite eepromUsb fwBuf d o n t = (.returned 0, t') :=
    ⟨_, Prod.ext hwrite rfl⟩
  obtain ⟨xs, rfl, heffect⟩ := fx3I2cWrite_of_returned hd hn h ht'
  rw [i2cProgram, ht']
  refine andThen_returned rfl ?_
  refine (orElse_eq_zero_iff (by decide)).2 (fx3I2cReadVerify_eepromUsb hd hn h fun j hj => ?_)
  rw [romAfter_append, heffect, Function.update_self]
  simp [store, load, hj]

lemma i2cEeprom_eepromUsb (hd : d + 4 < 2 ^ 16) (hn : n ≤ 2 * i2cSlaveSize)
    (h : o + n ≤ maxFwimgSize) : (i2cEeprom eepromUsb fwBuf d o n t).1 = .returned 0 := by
  rcases slave_cases n with hn' | ⟨k, hk, rfl⟩
  · rw [i2cEeprom_of_le hn']
    exact i2cProgram_eepromUsb (by omega) hn' h
  · rw [i2cEeprom_of_gt hk]
    have hk' : k ≤ 2 ^ 16 := by
      simp only [i2cSlaveSize] at hn
      omega
    rw [← Nat.add_assoc] at h
    refine andThen_returned ?_ (i2cProgram_eepromUsb hd hk' h)
    exact i2cProgram_eepromUsb (by omega) (by decide) ((Nat.le_add_right _ k).trans h)

/-- With this device every accepted image within the limit is programmed. -/
lemma i2cDownloads_eepromUsb {f : File} (h : (f.readImage true).code = 0)
    (hsize : f.size ≤ maxFwimgSize) {r : Outcome × Trace} (hr : I2cDownloads eepromUsb f r) :
    r.1 = .returned 0 := by
  obtain ⟨romsize, hmem, -, m, hpadded, -, hends⟩ := i2cDownloads_iff_ends h hsize
  refine ((hends _ _).1 hr).rule (I := fun s => ∃ o, I2cAt f.image romsize m o s)
    (Q := fun r => r.1 = .returned 0) ?_ ?_ ⟨0, i2cAt_start f.image romsize m⟩
  · rintro s s' ⟨o, ho⟩ hs
    obtain ⟨o', -, ho'⟩ := i2cStep_inl hmem hpadded ho hs
    exact ⟨o', ho'⟩
  · rintro s r ⟨o, ho⟩ hs
    by_cases hlt : o < m
    · obtain ⟨n, hn⟩ : ∃ n, n = min (m - o) romsize := ⟨_, rfl⟩
      have hstart := ho.address hlt
      have hlarge := romsize_cases hmem
      rw [i2cStep_of_lt ho hlt hn, if_neg] at hs
      · cases hs
      · -- the device takes the EEPROM, so that the loop goes on
        rw [not_not]
        refine i2cEeprom_eepromUsb ?_ ?_ (by omega)
        · have hle := Nat.mul_le_mul_left s.address (show 1024 ≤ romsize by omega)
          simp only [maxFwimgSize] at hpadded
          omega
        · simp only [i2cSlaveSize] at hlarge ⊢
          omega
    · have hle := ho.le
      rw [i2cStep, ho.filesize, if_neg (by omega)] at hs
      cases hs
      rfl

end Works

/-- A file of 70000 bytes takes two device addresses. -/
theorem i2c_programmed_longFile :
    ∃ t, I2cDownloads eepromUsb longFile (.returned 0, t) ∧
      Programmed longFile.image 131072 70016 t := by
  obtain ⟨romsize, -, hrom, hall⟩ := i2c_programmed (longFile_accepted true) (by decide)
  obtain rfl : 131072 = romsize := by
    rw [(readImage_of_accepted _ (longFile_accepted true) (by decide)).2.2] at hrom
    exact Option.some.inj hrom
  obtain ⟨⟨outcome, t⟩, hr⟩ := (hall eepromUsb).1
  obtain rfl : outcome = .returned 0 :=
    i2cDownloads_eepromUsb (longFile_accepted true) (by decide) hr
  exact ⟨t, hr, ((hall eepromUsb).2 _ hr).2 rfl⟩

end Fx3Ncm.Flash
