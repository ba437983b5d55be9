/-
# Download to the RAM of the device

`fx3_usbboot_download` reads an image and sends its sections to the device with the vendor
request `0xA0`, in pieces of at most `MAX_WRITE_SIZE` bytes.  A request without data makes the
device jump to an address.

The section lengths come from the file and are not checked.  The loader leaves its buffer if a
section does, and it is content with a file that ends before a section without data is found.
The results say for which files the loader does its work all the same.
-/
import Fx3Ncm.Flash.Sections
import Fx3Ncm.Flash.Usb
import Fx3Ncm.Lib.Loop

namespace Fx3Ncm.Flash

open ByteMemory Loops

/-! ### Vendor writes -/

/-- `GET_LSW` -/
def getLsw (v : UInt32) : UInt16 := (v &&& 0xFFFF).toUInt16

/-- `GET_MSW` -/
def getMsw (v : UInt32) : UInt16 := (v >>> 16).toUInt16

/-- The vendor request that writes bytes to an address; without bytes it is a jump. -/
def ramRequest (address : UInt32) (data : List UInt8) : ControlRequest where
  bmRequestType := 0x40
  bRequest := 0xA0
  wValue := getLsw address
  wIndex := getMsw address
  data := data
  wLength := data.length

/-- `fx3_ram_write`; `buf` is the offset in the image buffer from which the bytes are taken. -/
def fx3RamWrite (usb : Usb) (fwBuf : Mem) (buf : ℤ) (ramAddress : UInt32) (len : ℤ) (t : Trace) :
    Outcome × Trace :=
  writeLoop usb fwBuf buf (fun index => ramRequest (ramAddress + UInt32.ofNat index)) len t

/-! ### fx3_usbboot_download -/

/-- `data_p[..]` for a word at an offset of the image buffer. -/
def readWord (fwBuf : Mem) (o : ℤ) : Option UInt32 :=
  (readBuf fwBuf o 4).map fun bs => UInt32.ofNat (leNat bs)

/-- The loop that adds the data words to the checksum. -/
def addWords (fwBuf : Mem) (o : ℤ) : ℕ → UInt32 → Option UInt32
  | 0, checksum => some checksum
  | n + 1, checksum =>
    match readWord fwBuf o with
    | none => none
    | some w => addWords fwBuf (o + 4) n (checksum + w)

/-- The variables of the section loop and the exchanges so far. -/
structure LoaderState where
  index : ℤ
  checksum : UInt32
  trace : Trace

/-- One iteration of the section loop. -/
def sectionStep (usb : Usb) (fwBuf : Mem) (filesize : ℤ) (s : LoaderState) :
    LoaderState ⊕ (Outcome × Trace) :=
  if s.index < filesize then
    match readWord fwBuf s.index, readWord fwBuf (s.index + 4) with
    | some length, some address =>
      if length ≠ 0 then
        match addWords fwBuf (s.index + 8) length.toNat s.checksum with
        | none => .inr (.fault, s.trace)
        | some checksum =>
          let r := fx3RamWrite usb fwBuf (s.index + 8) address (toInt (length * 4).toNat) s.trace
          match r.1 with
          | .fault => .inr r
          | .returned code =>
            if code ≠ 0 then .inr (.returned (-3), r.2)
            -- the sum is one of `unsigned int`s and is assigned to an `int`
            else .inl ⟨toInt (s.index + (8 + length * 4).toNat), checksum, r.2⟩
      else
        match readWord fwBuf (s.index + 8) with
        | none => .inr (.fault, s.trace)
        | some w =>
          if s.checksum ≠ w then .inr (.returned (-4), s.trace)
          -- the result of the jump is ignored
          else .inr (.returned 0, (controlTransfer usb (ramRequest address []) s.trace).2)
    | _, _ => .inr (.fault, s.trace)
  else .inr (.returned 0, s.trace)

/-- The section loop starts behind the header. -/
def LoaderState.start : LoaderState := ⟨4, 0, []⟩

/-- `fx3_usbboot_download` with at most `fuel` iterations of the section loop; `calloc` tells
whether the buffer can be allocated. -/
def fx3UsbbootDownload (usb : Usb) (calloc : Bool) (stat : Option File) (opens : Bool)
    (fuel : ℕ) : Option (Outcome × Trace) :=
  if !calloc then some (.returned (-1), [])
  else
    let r := readFirmwareImage stat opens false zeroBuf
    if r.code ≠ 0 then some (.returned (-2), [])
    else iterate (sectionStep usb r.buf r.filesize) fuel .start

/-- The download of a file that can be opened ends with this outcome and these exchanges. -/
def Downloads (usb : Usb) (f : File) (r : Outcome × Trace) : Prop :=
  ∃ fuel, fx3UsbbootDownload usb true (some f) true fuel = some r

lemma downloads_iff {usb : Usb} {f : File} (h : (f.readImage false).code = 0)
    {r : Outcome × Trace} : Downloads usb f r ↔
      Ends (sectionStep usb (f.readImage false).buf (f.readImage false).filesize) .start r := by
  have hdownload : ∀ fuel, fx3UsbbootDownload usb true (some f) true fuel =
      iterate (sectionStep usb (f.readImage false).buf (f.readImage false).filesize) fuel
        .start := by
    intro fuel
    rw [File.readImage] at h ⊢
    simp only [fx3UsbbootDownload, h, Bool.not_true, Bool.false_eq_true, ne_eq,
      not_true_eq_false, if_false]
  exact exists_congr fun fuel => by rw [hdownload]

/-! ### Words in the buffer -/

/-- The offsets of the second and the third word of a section. -/
lemma header_offsets (i : ℕ) : (i : ℤ) + 4 = (i + 4 : ℕ) ∧ (i : ℤ) + 8 = (i + 8 : ℕ) := by
  push_cast
  exact ⟨rfl, rfl⟩

lemma readWord_natCast (fwBuf : Mem) {i : ℕ} (h : i + 4 ≤ maxFwimgSize) :
    readWord fwBuf i = some (word fwBuf i) := by
  rw [readWord, readBuf_natCast fwBuf h]
  rfl

lemma readWord_eq_none (fwBuf : Mem) {i : ℕ} (h : maxFwimgSize < i + 4) :
    readWord fwBuf i = none := by
  rw [readWord, readBuf, if_neg (by simp only [maxFwimgSize] at h ⊢; omega)]
  rfl

/-- The loop adds the data words if they are inside the buffer. -/
lemma addWords_natCast (fwBuf : Mem) {o n : ℕ} (h : o + 4 * n ≤ maxFwimgSize)
    (checksum : UInt32) : addWords fwBuf o n checksum =
      some ((dataWords (load fwBuf o (4 * n))).foldl (· + ·) checksum) := by
  induction n generalizing o checksum with
  | zero => rfl
  | succ n ih =>
    rw [addWords, readWord_natCast fwBuf (by omega), dataWords_load_succ, (header_offsets o).1]
    exact ih (by omega) _

/-- The loop leaves the buffer if the data words do. -/
lemma addWords_eq_none (fwBuf : Mem) {o n : ℕ} (hn : 0 < n) (h : maxFwimgSize < o + 4 * n)
    (checksum : UInt32) : addWords fwBuf o n checksum = none := by
  induction n generalizing o checksum with
  | zero => omega
  | succ n ih =>
    rw [addWords]
    rcases Nat.lt_or_ge maxFwimgSize (o + 4) with ho | ho
    · rw [readWord_eq_none fwBuf ho]
    · rw [readWord_natCast fwBuf ho, (header_offsets o).1]
      exact ih (by omega) (by omega) _

/-! ### The requests of a section -/

/-- The requests that write the bytes to an address. -/
def ramRequests (address : UInt32) (data : List UInt8) : List ControlRequest :=
  (spans maxWriteSize 0 data.length).map fun s =>
    ramRequest (address + UInt32.ofNat s.1) ((data.drop s.1).take s.2)

/-- The requests that write the sections. -/
def sectionRequests (secs : List Section) : List ControlRequest :=
  secs.flatMap fun s => ramRequests s.address s.data

lemma sectionRequests_concat (secs : List Section) (s : Section) :
    sectionRequests (secs ++ [s]) = sectionRequests secs ++ ramRequests s.address s.data := by
  simp [sectionRequests]

/-- `fx3_ram_write` sends the requests for the data. -/
lemma writeRequests_ram (fwBuf : Mem) (b n : ℕ) (address : UInt32) :
    writeRequests fwBuf b (fun index => ramRequest (address + UInt32.ofNat index)) n =
      ramRequests address (load fwBuf b n) := by
  rw [writeRequests, ramRequests, length_load]
  refine List.map_congr_left fun s hs => ?_
  have hspan := mem_spans hs
  rw [take_drop_load fwBuf (by omega)]

/-- A vendor write of at least one byte and at most `MAX_WRITE_SIZE` bytes. -/
structure IsRamWrite (q : ControlRequest) : Prop where
  bRequest : q.bRequest = 0xA0
  pos : 1 ≤ q.data.length
  le : q.data.length ≤ maxWriteSize
  wLength : q.wLength = q.data.length

lemma isRamWrite_of_mem_ramRequests {address : UInt32} {data : List UInt8} {q : ControlRequest}
    (h : q ∈ ramRequests address data) : IsRamWrite q := by
  obtain ⟨s, hs, rfl⟩ := List.mem_map.1 h
  have hspan := mem_spans hs
  have hlen : ((data.drop s.1).take s.2).length = s.2 := by
    rw [List.length_take, List.length_drop]
    omega
  exact ⟨rfl, hlen.symm ▸ hspan.1, hlen.symm ▸ hspan.2.1, rfl⟩

lemma isRamWrite_of_mem_sectionRequests {secs : List Section} {q : ControlRequest}
    (h : q ∈ sectionRequests secs) : IsRamWrite q := by
  obtain ⟨s, -, hq⟩ := List.mem_flatMap.1 h
  exact isRamWrite_of_mem_ramRequests hq

lemma ramRequests_ne_nil (address : UInt32) {data : List UInt8} (h : 0 < data.length) :
    ramRequests address data ≠ [] := by
  rw [ramRequests, spans_of_pos (by decide) h]
  exact List.cons_ne_nil _ _

/-- Sections with data are told apart by the number of their requests. -/
lemma length_sectionRequests_lt {m : Mem} {n j k : ℕ} (h : HasSections m n k) (hjk : j < k) :
    (sectionRequests (sections m j)).length < (sectionRequests (sections m k)).length := by
  induction k with
  | zero => omega
  | succ k ih =>
    have hdata : 0 < (sectionAt m (sectionStart m k)).data.length := by
      rw [sectionAt, length_load]
      exact dataLength_pos (h k (Nat.lt_succ_self k)).1
    have hpos := List.length_pos_iff.2
      (ramRequests_ne_nil (sectionAt m (sectionStart m k)).address hdata)
    rw [sections_succ, sectionRequests_concat, List.length_append]
    rcases Nat.lt_succ_iff_lt_or_eq.1 hjk with hlt | rfl
    · have hlen := ih (h.of_le (Nat.le_succ k)) hlt
      omega
    · omega

/-! ### The effect of the requests -/

lemma toNat_getLsw (v : UInt32) : (getLsw v).toNat = v.toNat % 2 ^ 16 := by
  have hmask : v.toNat &&& 0xFFFF = v.toNat % 2 ^ 16 := Nat.and_two_pow_sub_one_eq_mod v.toNat 16
  rw [getLsw, UInt32.toNat_toUInt16, UInt32.toNat_and]
  change (v.toNat &&& 0xFFFF) % 2 ^ 16 = _
  rw [hmask, Nat.mod_mod]

lemma toNat_getMsw (v : UInt32) : (getMsw v).toNat = v.toNat / 2 ^ 16 := by
  have hlt := v.toNat_lt
  have hdiv : v.toNat / 2 ^ 16 < 2 ^ 16 := by omega
  rw [getMsw, UInt32.toNat_toUInt16, UInt32.toNat_shiftRight]
  simpa [Nat.shiftRight_eq_div_pow] using hdiv

/-- The address a request is for. -/
def requestAddress (q : ControlRequest) : UInt32 :=
  (q.wIndex.toUInt32 <<< 16) ||| q.wValue.toUInt32

lemma requestAddress_ramRequest (address : UInt32) (data : List UInt8) :
    requestAddress (ramRequest address data) = address := by
  have hlt := address.toNat_lt
  have hor := Nat.shiftLeft_add_eq_or_of_lt (Nat.mod_lt address.toNat (show 0 < 2 ^ 16 by decide))
    (address.toNat / 2 ^ 16)
  have hshift : (address.toNat / 2 ^ 16) <<< 16 % 2 ^ 32 = (address.toNat / 2 ^ 16) <<< 16 := by
    rw [Nat.shiftLeft_eq]
    omega
  rw [← UInt32.toNat_inj, requestAddress, ramRequest, UInt32.toNat_or, UInt32.toNat_shiftLeft,
    UInt16.toNat_toUInt32, UInt16.toNat_toUInt32, toNat_getLsw, toNat_getMsw]
  change (address.toNat / 2 ^ 16) <<< 16 % 2 ^ 32 ||| address.toNat % 2 ^ 16 = address.toNat
  rw [hshift, ← hor, Nat.shiftLeft_eq]
  omega

/-- The effect of a vendor request on the memory. -/
def applyRequest (ram : Ram) (q : ControlRequest) : Ram := storeRam ram (requestAddress q) q.data

/-- The pieces from an offset on write what is left of the data. -/
lemma foldl_applyRequest_spans (ram : Ram) (address : UInt32) (data : List UInt8) (o n : ℕ)
    (h : o + n = data.length) :
    ((spans maxWriteSize o n).map fun s => ramRequest (address + UInt32.ofNat s.1)
        ((data.drop s.1).take s.2)).foldl applyRequest ram =
      storeRam ram (address + UInt32.ofNat o) (data.drop o) := by
  fun_induction spans maxWriteSize o n generalizing ram with
  | case1 o n hpos ih =>
    have hpiece : ((data.drop o).take (min n maxWriteSize)).length = min n maxWriteSize := by
      rw [List.length_take, List.length_drop]
      omega
    have hsplit : data.drop o =
        (data.drop o).take (min n maxWriteSize) ++ data.drop (o + min n maxWriteSize) := by
      rw [← List.drop_drop, List.take_append_drop]
    rw [List.map_cons, List.foldl_cons, ih _ (by omega), applyRequest, requestAddress_ramRequest]
    conv_rhs => rw [hsplit, storeRam_append, hpiece]
    rw [UInt32.ofNat_add, UInt32.add_assoc]
    rfl
  | case2 o n hpos =>
    obtain rfl : n = 0 := by simp at hpos; omega
    rw [List.drop_eq_nil_of_le (by omega)]
    rfl

lemma foldl_applyRequest_ramRequests (ram : Ram) (address : UInt32) (data : List UInt8) :
    (ramRequests address data).foldl applyRequest ram = storeRam ram address data := by
  rw [ramRequests, foldl_applyRequest_spans ram address data 0 _ (Nat.zero_add _)]
  simp

/-- The requests for the sections write the sections. -/
lemma foldl_applyRequest_sectionRequests (ram : Ram) (secs : List Section) :
    (sectionRequests secs).foldl applyRequest ram = overlay ram secs := by
  induction secs generalizing ram with
  | nil => rfl
  | cons s secs ih =>
    rw [sectionRequests, List.flatMap_cons, List.foldl_append, foldl_applyRequest_ramRequests]
    exact ih _

/-! ### The section loop -/

/-- The section number `k`, or the three words of the one that ends the image, lie inside the
buffer. -/
def SectionFits (fwBuf : Mem) (k : ℕ) : Prop :=
  (word fwBuf (sectionStart fwBuf k) = 0 → sectionStart fwBuf k + 12 ≤ maxFwimgSize) ∧
    (word fwBuf (sectionStart fwBuf k) ≠ 0 → sectionStart fwBuf (k + 1) ≤ maxFwimgSize)

/-- The request to jump to the entry point. -/
def jumpRequest (m : Mem) (k : ℕ) : ControlRequest := ramRequest (entryPoint m k) []

/-- The state of the section loop when `k` sections have been sent. -/
structure LoaderAt (fwBuf : Mem) (k : ℕ) (s : LoaderState) : Prop where
  hasSections : HasSections fwBuf maxFwimgSize k
  index : s.index = sectionStart fwBuf k
  sum : s.checksum = checksum (sections fwBuf k)
  requests : s.trace.map Prod.fst = sectionRequests (sections fwBuf k)
  complete : ∀ x ∈ s.trace, Complete x

/-- How the section loop is left when `k` sections have been sent. -/
inductive Leaves (usb : Usb) (fwBuf : Mem) (filesize : ℤ) (k : ℕ) (s : LoaderState) :
    Outcome × Trace → Prop
  | pastEnd (hend : filesize ≤ sectionStart fwBuf k) :
      Leaves usb fwBuf filesize k s (.returned 0, s.trace)
  | outside (hlt : sectionStart fwBuf k < filesize) (hfits : ¬ SectionFits fwBuf k) :
      Leaves usb fwBuf filesize k s (.fault, s.trace)
  | writeFails (t : Trace) (husb : ¬ Succeeds usb) :
      Leaves usb fwBuf filesize k s (.returned (-3), t)
  | badChecksum (hlt : sectionStart fwBuf k < filesize) (hfits : SectionFits fwBuf k)
      (hterm : word fwBuf (sectionStart fwBuf k) = 0)
      (hsum : word fwBuf (sectionStart fwBuf k + 8) ≠ checksum (sections fwBuf k)) :
      Leaves usb fwBuf filesize k s (.returned (-4), s.trace)
  | boots (hlt : sectionStart fwBuf k < filesize) (hfits : SectionFits fwBuf k)
      (hterm : word fwBuf (sectionStart fwBuf k) = 0)
      (hsum : word fwBuf (sectionStart fwBuf k + 8) = checksum (sections fwBuf k)) :
      Leaves usb fwBuf filesize k s
        (.returned 0, s.trace ++ [(jumpRequest fwBuf k, usb s.trace (jumpRequest fwBuf k))])

section SectionLoop

variable {usb : Usb} {fwBuf : Mem} {filesize : ℤ} {k : ℕ} {s s' : LoaderState}

lemma LoaderAt.start (fwBuf : Mem) : LoaderAt fwBuf 0 .start :=
  ⟨hasSections_zero _, rfl, rfl, rfl, fun _ hx => absurd hx List.not_mem_nil⟩

/-- A section that leaves the buffer. -/
lemma sectionStep_outside (h : LoaderAt fwBuf k s) (hlt : sectionStart fwBuf k < filesize)
    (hfits : ¬ SectionFits fwBuf k) :
    sectionStep usb fwBuf filesize s = .inr (.fault, s.trace) := by
  obtain ⟨h4, h8⟩ := header_offsets (sectionStart fwBuf k)
  rw [sectionStep, h.index, if_pos hlt, h4, h8]
  rcases Nat.lt_or_ge maxFwimgSize (sectionStart fwBuf k + 8) with hhead | hhead
  · -- the address is already outside
    have haddr : maxFwimgSize < sectionStart fwBuf k + 4 + 4 := by omega
    rw [readWord_eq_none fwBuf haddr]
    cases readWord fwBuf (sectionStart fwBuf k) with
    | none => rfl
    | some w => rfl
  · rw [readWord_natCast fwBuf (by omega), readWord_natCast fwBuf (by omega)]
    by_cases hterm : word fwBuf (sectionStart fwBuf k) = 0
    · have hthird : maxFwimgSize < sectionStart fwBuf k + 8 + 4 := by
        by_contra hle
        exact hfits ⟨fun _ => by omega, fun hdata => absurd hterm hdata⟩
      dsimp only
      rw [if_neg (not_not.2 hterm), readWord_eq_none fwBuf hthird]
    · have hend : maxFwimgSize < sectionStart fwBuf (k + 1) := by
        by_contra hle
        exact hfits ⟨fun h₀ => absurd h₀ hterm, fun _ => not_lt.1 hle⟩
      have hpos := dataLength_pos hterm
      rw [sectionStart, dataLength] at hend
      rw [dataLength] at hpos
      dsimp only
      rw [if_pos hterm, addWords_eq_none fwBuf (by omega) hend]

/-- The section that ends the image. -/
lemma sectionStep_terminator (usb : Usb) (h : LoaderAt fwBuf k s)
    (hlt : sectionStart fwBuf k < filesize)
    (hterm : word fwBuf (sectionStart fwBuf k) = 0) (hfits : SectionFits fwBuf k) :
    sectionStep usb fwBuf filesize s =
      if word fwBuf (sectionStart fwBuf k + 8) = checksum (sections fwBuf k) then
        .inr (.returned 0,
          s.trace ++ [(jumpRequest fwBuf k, usb s.trace (jumpRequest fwBuf k))])
      else .inr (.returned (-4), s.trace) := by
  have hin := hfits.1 hterm
  obtain ⟨h4, h8⟩ := header_offsets (sectionStart fwBuf k)
  rw [sectionStep, h.index, if_pos hlt, h4, h8, readWord_natCast fwBuf (by omega),
    readWord_natCast fwBuf (by omega), readWord_natCast fwBuf (by omega)]
  dsimp only
  rw [if_neg (not_not.2 hterm), h.sum]
  by_cases hsum : word fwBuf (sectionStart fwBuf k + 8) = checksum (sections fwBuf k)
  · rw [if_neg (not_not.2 hsum.symm), if_pos hsum]
    rfl
  · rw [if_pos (Ne.symm hsum), if_neg hsum]

/-- The number of data bytes as the loader computes it. -/
lemma toNat_mul_four {i : ℕ} (h : dataLength fwBuf i ≤ maxFwimgSize) :
    (word fwBuf i * 4).toNat = dataLength fwBuf i := by
  rw [dataLength] at h ⊢
  simp only [maxFwimgSize] at h
  rw [UInt32.toNat_mul]
  simp only [UInt32.reduceToNat]
  omega

/-- The index of the next section as the loader computes it. -/
lemma toInt_nextIndex {i : ℕ} (h : i + 8 + dataLength fwBuf i ≤ maxFwimgSize) :
    toInt (i + (8 + word fwBuf i * 4).toNat) = (i + 8 + dataLength fwBuf i : ℕ) := by
  have hsum : (8 + word fwBuf i * 4).toNat = 8 + dataLength fwBuf i := by
    rw [UInt32.toNat_add, toNat_mul_four (by omega)]
    simp only [maxFwimgSize] at h
    simp only [UInt32.reduceToNat]
    omega
  rw [hsum, ← Nat.cast_add, ← Nat.add_assoc, toInt_of_le h]

/-- A section with data, when it is known how the write ends. -/
lemma sectionStep_data (h : LoaderAt fwBuf k s) (hlt : sectionStart fwBuf k < filesize)
    (hdata : word fwBuf (sectionStart fwBuf k) ≠ 0) (hfits : SectionFits fwBuf k) {code : ℤ}
    {t : Trace}
    (hwrite : fx3RamWrite usb fwBuf (sectionStart fwBuf k + 8 : ℕ)
      (word fwBuf (sectionStart fwBuf k + 4)) (dataLength fwBuf (sectionStart fwBuf k)) s.trace =
        (.returned code, t)) :
    sectionStep usb fwBuf filesize s = if code ≠ 0 then .inr (.returned (-3), t)
      else .inl ⟨sectionStart fwBuf (k + 1), checksum (sections fwBuf (k + 1)), t⟩ := by
  have hin := hfits.2 hdata
  rw [sectionStart] at hin
  obtain ⟨h4, h8⟩ := header_offsets (sectionStart fwBuf k)
  have hlen : dataLength fwBuf (sectionStart fwBuf k) ≤ maxFwimgSize := by omega
  rw [sectionStep, h.index, if_pos hlt, h4, h8, readWord_natCast fwBuf (by omega),
    readWord_natCast fwBuf (by omega)]
  dsimp only
  rw [if_pos hdata, addWords_natCast fwBuf hin, toNat_mul_four hlen, toInt_of_le hlen,
    toInt_nextIndex hin, hwrite, h.sum, sections_succ, checksum_concat]
  rfl

/-- A section with data: it is sent, or a transfer fails. -/
lemma sectionStep_section (usb : Usb) (h : LoaderAt fwBuf k s)
    (hlt : sectionStart fwBuf k < filesize)
    (hdata : word fwBuf (sectionStart fwBuf k) ≠ 0) (hfits : SectionFits fwBuf k) :
    (∃ s', sectionStep usb fwBuf filesize s = .inl s' ∧ LoaderAt fwBuf (k + 1) s') ∨
      ∃ t, sectionStep usb fwBuf filesize s = .inr (.returned (-3), t) ∧ ¬ Succeeds usb := by
  have hend := hfits.2 hdata
  have hin := hend
  rw [sectionStart] at hin
  obtain ⟨outcome, t, hwrite⟩ : ∃ outcome t, fx3RamWrite usb fwBuf (sectionStart fwBuf k + 8 : ℕ)
      (word fwBuf (sectionStart fwBuf k + 4)) (dataLength fwBuf (sectionStart fwBuf k)) s.trace =
        (outcome, t) := ⟨_, _, rfl⟩
  cases outcome with
  | fault => exact absurd (congrArg Prod.fst hwrite) (writeLoop_ne_fault hin)
  | returned code =>
    have hstep := sectionStep_data h hlt hdata hfits hwrite
    by_cases hcode : code = 0
    · subst hcode
      rw [if_neg (by simp)] at hstep
      obtain ⟨xs, rfl, hreq, hcomplete⟩ := writeLoop_of_returned (fun _ _ => rfl) hin hwrite
      rw [writeRequests_ram] at hreq
      refine Or.inl ⟨_, hstep, h.hasSections.succ hdata hend, rfl, rfl, ?_, ?_⟩
      · rw [List.map_append, h.requests, hreq, sections_succ, sectionRequests_concat]
        rfl
      · intro x hx
        rcases List.mem_append.1 hx with hx | hx
        · exact h.complete x hx
        · exact hcomplete x hx
    · rw [if_pos hcode] at hstep
      refine Or.inr ⟨t, hstep, fun husb => hcode ?_⟩
      have hzero := (congrArg Prod.fst hwrite).symm.trans
        (writeLoop_of_succeeds (fun _ _ => rfl) (fun t _ _ => husb t _) hin)
      exact Outcome.returned.inj hzero

/-- What an iteration can do: it sends a section, or the loop is left. -/
lemma sectionStep_cases (usb : Usb) (filesize : ℤ) (h : LoaderAt fwBuf k s) :
    (∃ s', sectionStep usb fwBuf filesize s = .inl s' ∧ sectionStart fwBuf k < filesize ∧
        LoaderAt fwBuf (k + 1) s') ∨
      ∃ r, sectionStep usb fwBuf filesize s = .inr r ∧ Leaves usb fwBuf filesize k s r := by
  by_cases hlt : sectionStart fwBuf k < filesize
  · by_cases hfits : SectionFits fwBuf k
    · by_cases hterm : word fwBuf (sectionStart fwBuf k) = 0
      · have hstep := sectionStep_terminator usb h hlt hterm hfits
        by_cases hsum : word fwBuf (sectionStart fwBuf k + 8) = checksum (sections fwBuf k)
        · rw [if_pos hsum] at hstep
          exact Or.inr ⟨_, hstep, .boots hlt hfits hterm hsum⟩
        · rw [if_neg hsum] at hstep
          exact Or.inr ⟨_, hstep, .badChecksum hlt hfits hterm hsum⟩
      · rcases sectionStep_section usb h hlt hterm hfits with
          ⟨s', hs', hat⟩ | ⟨t, ht, husb⟩
        · exact Or.inl ⟨s', hs', hlt, hat⟩
        · exact Or.inr ⟨_, ht, .writeFails t husb⟩
    · exact Or.inr ⟨_, sectionStep_outside h hlt hfits, .outside hlt hfits⟩
  · refine Or.inr ⟨_, ?_, .pastEnd (not_lt.1 hlt)⟩
    rw [sectionStep, h.index, if_neg hlt]

lemma sectionStep_inl (h : LoaderAt fwBuf k s) (hs : sectionStep usb fwBuf filesize s = .inl s') :
    sectionStart fwBuf k < filesize ∧ LoaderAt fwBuf (k + 1) s' := by
  rcases sectionStep_cases usb filesize h with ⟨s'', hs'', h'⟩ | ⟨r, hr, -⟩
  · obtain rfl := Sum.inl.inj (hs.symm.trans hs'')
    exact h'
  · cases hs.symm.trans hr

lemma sectionStep_inr (h : LoaderAt fwBuf k s) {r : Outcome × Trace}
    (hr : sectionStep usb fwBuf filesize s = .inr r) : Leaves usb fwBuf filesize k s r := by
  rcases sectionStep_cases usb filesize h with ⟨s', hs', -⟩ | ⟨r', hr', h'⟩
  · cases hr.symm.trans hs'
  · obtain rfl := Sum.inr.inj (hr.symm.trans hr')
    exact h'

lemma exists_loaderAt_of_visits (h : Visits (sectionStep usb fwBuf filesize) .start s) :
    ∃ k, LoaderAt fwBuf k s := by
  refine h.invariant (I := fun s => ∃ k, LoaderAt fwBuf k s) ?_ ⟨0, .start fwBuf⟩
  rintro s s' ⟨k, hk⟩ hs
  exact ⟨k + 1, (sectionStep_inl hk hs).2⟩

/-- The index increases in every iteration. -/
lemma LoaderAt.index_lt (h : LoaderAt fwBuf k s) (h' : LoaderAt fwBuf (k + 1) s') :
    s.index < s'.index := by
  rw [h.index, h'.index]
  exact_mod_cast sectionStart_strictMono fwBuf (Nat.lt_succ_self k)

/-- The section loop is always left. -/
lemma exists_ends_sectionStep (usb : Usb) (fwBuf : Mem) (filesize : ℤ) :
    ∃ r, Ends (sectionStep usb fwBuf filesize) .start r := by
  refine exists_ends (I := fun s => ∃ k, LoaderAt fwBuf k s)
    (fun s => (filesize - s.index).toNat) ?_ ⟨0, .start fwBuf⟩
  rintro s s' ⟨k, hk⟩ hs
  obtain ⟨hlt, hk'⟩ := sectionStep_inl hk hs
  have hindex := hk.index_lt hk'
  rw [← hk.index] at hlt
  exact ⟨⟨k + 1, hk'⟩, by omega⟩

lemma leaves_of_ends {r : Outcome × Trace} (h : Ends (sectionStep usb fwBuf filesize) .start r) :
    ∃ k s, LoaderAt fwBuf k s ∧ Leaves usb fwBuf filesize k s r := by
  refine h.rule (I := fun s => ∃ k, LoaderAt fwBuf k s)
    (Q := fun r => ∃ k s, LoaderAt fwBuf k s ∧ Leaves usb fwBuf filesize k s r) ?_ ?_
    ⟨0, .start fwBuf⟩
  · rintro s s' ⟨k, hk⟩ hs
    exact ⟨k + 1, (sectionStep_inl hk hs).2⟩
  · rintro s r ⟨k, hk⟩ hr
    exact ⟨k, s, hk, sectionStep_inr hk hr⟩

/-- When every transfer succeeds, the loop gets to every section before the end of the file. -/
lemma exists_visits (husb : Succeeds usb) (h : HasSections fwBuf maxFwimgSize k)
    (hlt : sectionStart fwBuf k < filesize) :
    ∃ s, Visits (sectionStep usb fwBuf filesize) .start s ∧ LoaderAt fwBuf k s := by
  induction k with
  | zero => exact ⟨_, .refl, .start fwBuf⟩
  | succ k ih =>
    have hmono := sectionStart_strictMono fwBuf (Nat.lt_add_one k)
    obtain ⟨s, hvisits, hat⟩ := ih (h.of_le (Nat.le_succ k)) (by omega)
    obtain ⟨hdata, hend⟩ := h k (Nat.lt_succ_self k)
    rcases sectionStep_cases usb filesize hat with ⟨s', hs', -, hat'⟩ | ⟨r, hr, hleaves⟩
    · exact ⟨s', hvisits.tail hs', hat'⟩
    · cases hleaves with
      | pastEnd hpast => omega
      | outside _ hfits => exact absurd ⟨fun h₀ => absurd h₀ hdata, fun _ => hend⟩ hfits
      | writeFails _ hfails => exact absurd husb hfails
      | badChecksum _ _ hterm => exact absurd hterm hdata
      | boots _ _ hterm => exact absurd hterm hdata

end SectionLoop

end Fx3Ncm.Flash
