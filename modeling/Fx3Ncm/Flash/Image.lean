/-
# Firmware images

`read_firmware_image` of the flash tool `download_fx3.cpp`: a file is checked and read into a
buffer.  An image begins with the letters `CY`, a byte `bImageCTL` and a byte `bImageType`.

The header is read by three small reads to the start of the buffer, whose results are not looked
at.  At the end of a short file a read leaves the byte before it in place, and so a file of three
bytes can pass the test for the fourth one.  The size of the file is stored in an `int` before it
is compared with the limit.  `image_acceptance` says that these are the only two ways in which a
file is accepted that is not an image.
-/
import Fx3Ncm.Lib.Memory
import Mathlib.Data.Int.Basic

namespace Fx3Ncm.Flash

open ByteMemory

/-! ### Constants -/

@[simp, reducible] def maxFwimgSize : ℕ := 512 * 1024

/-- `i2c_eeprom_size` -/
def i2cEepromSize : List ℕ := [1024, 2048, 4096, 8192, 16384, 32768, 65536, 131072]

/-- The value of an `int` to which the integer `n` is assigned. -/
def toInt (n : ℤ) : ℤ := Int.bmod n (2 ^ 32)

/-- The value of a `size_t` to which the integer `n` is assigned. -/
def toSize (n : ℤ) : ℕ := (n % 2 ^ 64).toNat

lemma toInt_of_le {n : ℕ} (h : n ≤ maxFwimgSize) : toInt n = n := by
  rw [toInt, Int.bmod_def]
  simp only [maxFwimgSize] at h
  omega

lemma toInt_toNat_le (n : ℕ) : (toInt n).toNat ≤ n := by
  rw [toInt, Int.bmod_def]
  omega

/-! ### Files -/

/-- A regular file: its size, which is a 64-bit `off_t`, and its bytes. -/
structure File where
  size : ℕ
  bytes : Mem
  size_lt : size < 2 ^ 63

namespace File

variable (f : File)

/-- `read( fd, buf, count )` with the file offset at `pos`: the buffer and the offset after it. -/
def read (pos count : ℕ) (buf : Mem) : Mem × ℕ :=
  let n := min count (f.size - pos)
  (store buf 0 (load f.bytes pos n), pos + n)

/-- The file followed by zeros. -/
def image : Mem := fun p => if p < f.size then f.bytes p else 0

/-- The part of the file that is read, followed by zeros: as many bytes as the size is as an
`int`. -/
def loaded : Mem := fun p => if p < (toInt f.size).toNat then f.bytes p else 0

lemma loaded_eq_image {f : File} (h : f.size ≤ maxFwimgSize) : f.loaded = f.image := by
  funext p
  rw [loaded, image, toInt_of_le h, Int.toNat_natCast]

lemma loaded_of_lt {p : ℕ} (h : p < (toInt f.size).toNat) : f.loaded p = f.bytes p := if_pos h

lemma read_apply (pos count : ℕ) (buf : Mem) (p : ℕ) :
    (f.read pos count buf).1 p = if p < min count (f.size - pos) then f.bytes (pos + p)
      else buf p := by
  change store buf 0 (load f.bytes pos (min count (f.size - pos))) p = _
  split_ifs with hp
  · simp [store, load, hp]
  · refine store_apply_of_ge buf ?_
    rw [length_load]
    omega

end File

/-! ### read_firmware_image -/

/-- What `read_firmware_image` returns and what it stores through its arguments: the file size,
the EEPROM size if it is asked for, and the buffer. -/
structure ImageResult where
  code : ℤ
  filesize : ℤ
  romsize : Option ℕ
  buf : Mem

/-- What is stored in `*romsize` for the byte `bImageCTL`, if the caller asks for it. -/
def selectRomsize (romsize : Bool) (bImageCTL : UInt8) : Option ℕ :=
  if romsize then i2cEepromSize[((bImageCTL >>> 1) &&& 0x07).toNat]? else none

/-- `read_firmware_image`.  `stat` is what `stat` finds under the file name and `opens` tells
whether `open` succeeds; `romsize` tells whether the caller asks for the EEPROM size. -/
def readFirmwareImage (stat : Option File) (opens romsize : Bool) (buf : Mem) : ImageResult :=
  match stat with
  | none => ⟨-1, 0, none, buf⟩
  | some f =>
    let filesize := toInt f.size
    if filesize > maxFwimgSize then ⟨-2, filesize, none, buf⟩
    else if !opens then ⟨-3, filesize, none, buf⟩
    else
      let r := f.read 0 2 buf
      if ¬ (r.1 0 = 0x43 ∧ r.1 1 = 0x59) then ⟨-4, filesize, none, r.1⟩
      else
        let r := f.read r.2 1 r.1
        if r.1 0 &&& 0x01 ≠ 0 then ⟨-5, filesize, none, r.1⟩
        else
          let rom := selectRomsize romsize (r.1 0)
          let r := f.read r.2 1 r.1
          if ¬ r.1 0 = 0xB0 then ⟨-6, filesize, rom, r.1⟩
          else ⟨0, filesize, rom, (f.read 0 (toSize filesize) r.1).1⟩

/-- The zero-filled buffer that `calloc` returns. -/
def zeroBuf : Mem := fun _ => 0

/-- The file is read with a zero-filled buffer. -/
def File.readImage (f : File) (romsize : Bool) : ImageResult :=
  readFirmwareImage (some f) true romsize zeroBuf

/-! ### The header as it is seen -/

section Header

variable (f : File)

/-- The three reads of the header, one after the other. -/
def headerRead : ℕ → Mem × ℕ
  | 0 => f.read 0 2 zeroBuf
  | n + 1 => f.read (headerRead n).2 1 (headerRead n).1

lemma headerRead_pos (n : ℕ) : (headerRead f n).2 = min (n + 2) f.size := by
  induction n with
  | zero => simp [headerRead, File.read]
  | succ n ih =>
    rw [headerRead, File.read, ih]
    omega

/-- The first two bytes of a file that is long enough, and zeros otherwise. -/
lemma headerRead_zero {p : ℕ} (hp : p < 2) :
    (headerRead f 0).1 p = if p < f.size then f.bytes p else 0 := by
  rw [headerRead, File.read_apply, Nat.zero_add]
  refine if_congr ?_ rfl rfl
  omega

/-- A read of one byte beyond the end leaves the byte before it in place. -/
lemma headerRead_succ (n : ℕ) :
    (headerRead f (n + 1)).1 0 = if n + 2 < f.size then f.bytes (n + 2)
      else (headerRead f n).1 0 := by
  rw [headerRead, File.read_apply, headerRead_pos]
  split_ifs with h₁ h₂ h₂
  · rw [Nat.add_zero, Nat.min_eq_left (by omega)]
  · omega
  · omega
  · rfl

/-- The file begins like an image. -/
structure HasHeader : Prop where
  letterC : f.bytes 0 = 0x43
  letterY : f.bytes 1 = 0x59
  executable : f.bytes 2 &&& 0x01 = 0
  imageType : f.bytes 3 = 0xB0

/-- The file of three bytes whose last byte is taken for two of the header. -/
structure IsStub : Prop where
  size : f.size = 3
  letterC : f.bytes 0 = 0x43
  letterY : f.bytes 1 = 0x59
  imageType : f.bytes 2 = 0xB0

/-- `read_firmware_image` in terms of the bytes it sees. -/
lemma readImage_eq (romsize : Bool) : f.readImage romsize =
    if toInt f.size > maxFwimgSize then ⟨-2, toInt f.size, none, zeroBuf⟩
    else if ¬ ((headerRead f 0).1 0 = 0x43 ∧ (headerRead f 0).1 1 = 0x59) then
      ⟨-4, toInt f.size, none, (headerRead f 0).1⟩
    else if (headerRead f 1).1 0 &&& 0x01 ≠ 0 then ⟨-5, toInt f.size, none, (headerRead f 1).1⟩
    else
      let rom := selectRomsize romsize ((headerRead f 1).1 0)
      if ¬ (headerRead f 2).1 0 = 0xB0 then ⟨-6, toInt f.size, rom, (headerRead f 2).1⟩
      else ⟨0, toInt f.size, rom, (f.read 0 (toSize (toInt f.size)) (headerRead f 2).1).1⟩ := rfl

/-- What is accepted: the size as an `int` must not exceed the limit, and the bytes seen are
those of an image or of the stub. -/
lemma readImage_code_iff (romsize : Bool) : (f.readImage romsize).code = 0 ↔
    toInt f.size ≤ maxFwimgSize ∧ (IsStub f ∨ 4 ≤ f.size ∧ HasHeader f) := by
  have h₀ := headerRead_zero f (show 0 < 2 by decide)
  have h₁ := headerRead_zero f (show 1 < 2 by decide)
  have h₂ := headerRead_succ f 0
  have h₃ := headerRead_succ f 1
  have hcode : (f.readImage romsize).code = 0 ↔ toInt f.size ≤ maxFwimgSize ∧
      ((headerRead f 0).1 0 = 0x43 ∧ (headerRead f 0).1 1 = 0x59) ∧
      (headerRead f 1).1 0 &&& 0x01 = 0 ∧ (headerRead f 2).1 0 = 0xB0 := by
    rw [readImage_eq]
    split_ifs with hsize hletters hexec htype
    · exact iff_of_false (by simp) fun h => absurd h.1 (not_le.2 hsize)
    · exact iff_of_false (by simp) fun h => hexec h.2.2.1
    · exact iff_of_true rfl ⟨not_lt.1 hsize, hletters, not_not.1 hexec, htype⟩
    · exact iff_of_false (by simp) fun h => htype h.2.2.2
    · exact iff_of_false (by simp) fun h => hletters h.2.1
  rw [hcode]
  refine and_congr_right fun _ => ?_
  rcases Nat.lt_or_ge f.size 3 with hsize | hsize
  · -- the letters themselves are taken for the byte after them, and they have bit 0 set
    refine iff_of_false ?_ ?_
    · rintro ⟨⟨hC, -⟩, hexec, -⟩
      rw [h₂, if_neg (by omega), hC] at hexec
      exact absurd hexec (by decide)
    · rintro (h | h)
      · have := h.size
        omega
      · omega
  · rw [if_pos (by omega)] at h₀ h₁ h₂
    rw [h₀, h₁, h₃, h₂]
    rcases Nat.lt_or_ge 3 f.size with hlong | hshort
    · rw [if_pos hlong]
      constructor
      · rintro ⟨⟨hC, hY⟩, hexec, htype⟩
        exact Or.inr ⟨hlong, hC, hY, hexec, htype⟩
      · rintro (h | ⟨-, h⟩)
        · have := h.size
          omega
        · exact ⟨⟨h.letterC, h.letterY⟩, h.executable, h.imageType⟩
    · rw [if_neg (by omega)]
      constructor
      · rintro ⟨⟨hC, hY⟩, -, htype⟩
        exact Or.inl ⟨by omega, hC, hY, htype⟩
      · rintro (h | ⟨h, -⟩)
        · refine ⟨⟨h.letterC, h.letterY⟩, ?_, h.imageType⟩
          change f.bytes 2 &&& 0x01 = 0
          rw [h.imageType]
          decide
        · omega

/-- The reads of the header change only the first two bytes of the buffer. -/
lemma headerRead_of_ge {p : ℕ} (hp : 2 ≤ p) (n : ℕ) : (headerRead f n).1 p = 0 := by
  induction n with
  | zero =>
    rw [headerRead, File.read_apply, if_neg (by omega)]
    rfl
  | succ n ih => rw [headerRead, File.read_apply, if_neg (by omega), ih]

/-- What is stored for a file that is accepted. -/
lemma readImage_eq_of_accepted {romsize : Bool} (h : (f.readImage romsize).code = 0) :
    f.readImage romsize = ⟨0, toInt f.size, selectRomsize romsize ((headerRead f 1).1 0),
      (f.read 0 (toSize (toInt f.size)) (headerRead f 2).1).1⟩ := by
  rw [readImage_eq] at h ⊢
  split_ifs at h ⊢ with hlimit hletters hexec htype
  · simp at h
  · simp at h
  · rfl
  · simp at h
  · simp at h

/-- What is stored for a file that is accepted and whose size is not too small as an `int`. -/
lemma readImage_buf {romsize : Bool} (h : (f.readImage romsize).code = 0)
    (hsize : 2 ≤ toInt f.size) : (f.readImage romsize).buf = f.loaded := by
  have hle := toInt_toNat_le f.size
  have hlt := f.size_lt
  have hread : toSize (toInt f.size) = (toInt f.size).toNat := by
    rw [toSize]
    omega
  rw [readImage_eq_of_accepted f h, hread]
  funext p
  dsimp only
  rw [File.read_apply, Nat.sub_zero, Nat.min_eq_left hle, Nat.zero_add, File.loaded]
  split_ifs with hp
  · rfl
  · exact headerRead_of_ge f (by omega) 2

/-- What is stored for a file that is accepted and within the limit. -/
lemma readImage_of_accepted {romsize : Bool} (h : (f.readImage romsize).code = 0)
    (hsize : f.size ≤ maxFwimgSize) :
    (f.readImage romsize).filesize = f.size ∧ (f.readImage romsize).buf = f.image ∧
      (f.readImage romsize).romsize = selectRomsize romsize (f.bytes 2) := by
  have hlen : 3 ≤ f.size := by
    rcases ((readImage_code_iff f romsize).1 h).2 with hstub | ⟨hlong, -⟩
    · exact hstub.size.ge
    · omega
  have hctl : (headerRead f 1).1 0 = f.bytes 2 := by
    rw [headerRead_succ, if_pos (by omega)]
  have hbuf : (f.readImage romsize).buf = f.image := by
    rw [readImage_buf f h (by rw [toInt_of_le hsize]; omega), File.loaded_eq_image hsize]
  refine ⟨?_, hbuf, ?_⟩
  · rw [readImage_eq_of_accepted f h, toInt_of_le hsize]
  · rw [readImage_eq_of_accepted f h, hctl]

end Header

/-! ### Acceptance -/

/-- Acceptance is exact: `read_firmware_image` returns 0 for an image of a size within the limit
and for nothing else, and then it stores the size, the file and the EEPROM size selected by bits
3 to 1 of `bImageCTL`. -/
structure AcceptsExactly (f : File) (romsize : Bool) : Prop where
  code : (f.readImage romsize).code = 0 ↔
    4 ≤ f.size ∧ f.size ≤ maxFwimgSize ∧ HasHeader f
  filesize : (f.readImage romsize).code = 0 → (f.readImage romsize).filesize = f.size
  buf : (f.readImage romsize).code = 0 →
    ∀ p < maxFwimgSize, (f.readImage romsize).buf p = f.image p
  romsize : (f.readImage romsize).code = 0 → romsize = true →
    (f.readImage romsize).romsize = i2cEepromSize[(f.bytes 2).toNat / 2 % 8]?

/-- The size of the file is beyond the limit, but not as an `int`. -/
def SizeWraps (f : File) : Prop := maxFwimgSize < f.size ∧ toInt f.size ≤ maxFwimgSize

lemma selectRomsize_eq (b : UInt8) : selectRomsize true b = i2cEepromSize[b.toNat / 2 % 8]? := by
  have hindex : ((b >>> 1) &&& 0x07).toNat = b.toNat / 2 % 8 := by
    have hmask := Nat.and_two_pow_sub_one_eq_mod (b.toNat / 2) 3
    simpa [Nat.shiftRight_eq_div_pow] using hmask
  rw [selectRomsize, if_pos rfl, hindex]

/-- For every regular file acceptance is exact, unless it is the stub of three bytes, or its size
wraps to one within the limit and it begins like an image. -/
theorem image_acceptance (f : File) (romsize : Bool) :
    AcceptsExactly f romsize ↔ ¬ IsStub f ∧ ¬ (SizeWraps f ∧ HasHeader f) := by
  have hcode := readImage_code_iff f romsize
  constructor
  · rintro ⟨hiff, -, -, -⟩
    refine ⟨fun hstub => ?_, ?_⟩
    · have hsize := hstub.size
      have hint : toInt f.size ≤ maxFwimgSize := by
        rw [hsize]
        decide
      have h := (hiff.1 (hcode.2 ⟨hint, Or.inl hstub⟩)).1
      omega
    · rintro ⟨⟨hlarge, hint⟩, hheader⟩
      have hlong : 4 ≤ f.size := le_trans (by decide) hlarge.le
      have h := hiff.1 (hcode.2 ⟨hint, Or.inr ⟨hlong, hheader⟩⟩)
      exact absurd h.2.1 (not_le.2 hlarge)
  · rintro ⟨hstub, hwraps⟩
    have hvalid : (f.readImage romsize).code = 0 →
        4 ≤ f.size ∧ f.size ≤ maxFwimgSize ∧ HasHeader f := by
      intro h
      obtain ⟨hint, hstub' | ⟨hlong, hheader⟩⟩ := hcode.1 h
      · exact absurd hstub' hstub
      · refine ⟨hlong, ?_, hheader⟩
        by_contra hlarge
        exact hwraps ⟨⟨not_le.1 hlarge, hint⟩, hheader⟩
    refine ⟨⟨hvalid, ?_⟩, ?_, ?_, ?_⟩
    · rintro ⟨hlong, hsize, hheader⟩
      refine hcode.2 ⟨?_, Or.inr ⟨hlong, hheader⟩⟩
      rw [toInt_of_le hsize]
      exact_mod_cast hsize
    · exact fun h => (readImage_of_accepted f h (hvalid h).2.1).1
    · intro h p _
      rw [(readImage_of_accepted f h (hvalid h).2.1).2.1]
    · intro h hrom
      subst hrom
      rw [(readImage_of_accepted f h (hvalid h).2.1).2.2, selectRomsize_eq]

/-- The file with the bytes given. -/
def File.ofBytes (bs : List UInt8) (h : bs.length < 2 ^ 63) : File where
  size := bs.length
  bytes := fun p => bs.getD p 0
  size_lt := h

/-- A file that ends behind its header. -/
def headerFile : File := File.ofBytes [0x43, 0x59, 0x00, 0xB0] (by decide)

lemma headerFile_accepted (romsize : Bool) : (headerFile.readImage romsize).code = 0 :=
  (readImage_code_iff _ _).2 ⟨by decide, Or.inr ⟨by decide, rfl, rfl, rfl, rfl⟩⟩

/-- A file of 70000 bytes, which selects the largest EEPROM. -/
def longFile : File where
  size := 70000
  bytes := fun p => [0x43, 0x59, 0x0E, 0xB0].getD p 0x2a
  size_lt := by decide

lemma longFile_accepted (romsize : Bool) : (longFile.readImage romsize).code = 0 :=
  (readImage_code_iff _ _).2 ⟨by decide, Or.inr ⟨by decide, rfl, rfl, rfl, rfl⟩⟩

/-- The stub: the letters and the byte that stands for `bImageCTL` and `bImageType`. -/
def stubFile : File := File.ofBytes [0x43, 0x59, 0xB0] (by decide)

/-- A file of three bytes is accepted as an image. -/
theorem image_acceptance_fails : ¬ AcceptsExactly stubFile false := by
  rintro ⟨hiff, -, -, -⟩
  have hstub : IsStub stubFile := ⟨rfl, rfl, rfl, rfl⟩
  have hcode := (readImage_code_iff stubFile false).2 ⟨by decide, Or.inl hstub⟩
  exact absurd (hiff.1 hcode).1 (by decide)

end Fx3Ncm.Flash
