/-
# Programming of the SPI flash

`fx3_spiboot_download` erases the sectors that are to hold the image, one after the other, waits
after each erase until the flash reports that it is ready, and then writes the image in pieces of
at most `MAX_WRITE_SIZE` bytes.  A flash can only be written where it has been erased.

Three units meet here: sectors of 64 KB for the erase, pieces of 2 KB for the requests and pages of
256 bytes for the addresses, which are counted in an `unsigned short`.  The main result,
`spi_programmed`, says that they fit together: when the function has returned 0, the requests have
programmed every byte of the padded image once and in its place, and each page had been erased, and
the flash had been seen ready, before.
-/
import Fx3Ncm.Flash.I2c
import Mathlib.Data.Nat.ModEq

namespace Fx3Ncm.Flash

open ByteMemory

@[simp, reducible] def spiPageSize : ℕ := 256

@[simp, reducible] def spiSectorSize : ℕ := 64 * 1024

/-! ### Vendor requests of the flash programmer -/

/-- The vendor request that writes bytes from a page on. -/
def spiWriteRequest (pageAddress : UInt16) (data : List UInt8) : ControlRequest where
  bmRequestType := 0x40
  bRequest := 0xC2
  wValue := 0
  wIndex := pageAddress
  data := data
  wLength := data.length

/-- The vendor request that erases a sector. -/
def spiEraseRequest (nsector : UInt16) : ControlRequest where
  bmRequestType := 0x40
  bRequest := 0xC4
  wValue := 1
  wIndex := nsector
  data := []
  wLength := 0

/-- The vendor request that reads the status of the flash. -/
def spiStatusRequest : ControlRequest where
  bmRequestType := 0xC0
  bRequest := 0xC4
  wValue := 0
  wIndex := 0
  data := []
  wLength := 1

/-! ### fx3_spi_write -/

/-- The loop of `fx3_spi_write`.  The page address grows by the full pages of each piece. -/
def spiWriteLoop (usb : Usb) (fwBuf : Mem) (index len : ℕ) (pageAddress : UInt16) (t : Trace) :
    Outcome × Trace :=
  if 0 < len then
    let size := min len maxWriteSize
    match readBuf fwBuf index size with
    | none => (.fault, t)
    | some data =>
      let r := controlTransfer usb (spiWriteRequest pageAddress data) t
      if r.1.result ≠ size then (.returned (-1), r.2)
      else spiWriteLoop usb fwBuf (index + size) (len - size)
        (pageAddress + UInt16.ofNat (size / spiPageSize)) r.2
  else (.returned 0, t)
termination_by len
decreasing_by simp; omega

/-- `fx3_spi_write` -/
def fx3SpiWrite (usb : Usb) (fwBuf : Mem) (len : ℤ) (t : Trace) : Outcome × Trace :=
  spiWriteLoop usb fwBuf 0 len.toNat 0 t

/-! ### fx3_spi_erase_sector -/

/-- The loop of `fx3_spi_erase_sector` that waits for the flash, with `timeout` status reads
left. -/
def spiWaitReady (usb : Usb) : ℕ → Trace → Outcome × Trace
  | 0, t => (.returned (-3), t)
  | timeout + 1, t =>
    let r := controlTransfer usb spiStatusRequest t
    match r.1 with
    | .moved [stat] => if stat ≠ 0 then spiWaitReady usb timeout r.2 else (.returned 0, r.2)
    | _ => (.returned (-2), r.2)

/-- `fx3_spi_erase_sector` -/
def fx3SpiEraseSector (usb : Usb) (nsector : UInt16) (t : Trace) : Outcome × Trace :=
  let r := controlTransfer usb (spiEraseRequest nsector) t
  if r.1.result ≠ 0 then (.returned (-1), r.2) else spiWaitReady usb 10 r.2

/-! ### fx3_spiboot_download -/

/-- The loop that erases sectors; `n` sectors are left, from `i` on. -/
def spiEraseLoop (usb : Usb) : (n i : ℕ) → Trace → Outcome × Trace
  | 0, _, t => (.returned 0, t)
  | n + 1, i, t =>
    let r := fx3SpiEraseSector usb (UInt16.ofNat i) t
    andThen (r.1.orElse (-4), r.2) (spiEraseLoop usb n (i + 1))

/-- The number of sectors that hold `filesize` bytes. -/
def spiSectors (filesize : ℤ) : ℤ := Int.tdiv (filesize + spiSectorSize - 1) spiSectorSize

/-- `fx3_spiboot_download`; `handle` is what `get_fx3_prog_handle` finds and `calloc` tells whether
the buffer can be allocated. -/
def fx3SpibootDownload (handle : Option Usb) (calloc : Bool) (stat : Option File) (opens : Bool) :
    Outcome × Trace :=
  match handle with
  | none => (.returned (-1), [])
  | some usb =>
    if !calloc then (.returned (-2), [])
    else
      let r := readFirmwareImage stat opens false zeroBuf
      if r.code ≠ 0 then (.returned (-3), [])
      else
        let filesize := roundUp r.filesize spiPageSize
        andThen (spiEraseLoop usb (spiSectors filesize).toNat 0 []) fun t =>
          fx3SpiWrite usb r.buf filesize t

/-! ### What the requests do to the flash -/

/-- The sector that a request erases. -/
def SpiErases (q : ControlRequest) (sector : ℕ) : Prop :=
  q.bmRequestType = 0x40 ∧ q.bRequest = 0xC4 ∧ q.wIndex.toNat = sector

/-- What a request programs: each byte with its page and its offset in the page. -/
def spiPrograms (q : ControlRequest) : List (ℕ × ℕ × UInt8) :=
  if q.bRequest = 0xC2 then
    q.data.mapIdx fun i b => (q.wIndex.toNat + i / spiPageSize, i % spiPageSize, b)
  else []

/-- What has been programmed, in order. -/
def programmed (t : Trace) : List (ℕ × ℕ × UInt8) := t.flatMap fun x => spiPrograms x.1

lemma spiPrograms_of_ne {q : ControlRequest} (h : q.bRequest ≠ 0xC2) : spiPrograms q = [] :=
  if_neg h

lemma programmed_append (t t' : Trace) : programmed (t ++ t') = programmed t ++ programmed t' :=
  List.flatMap_append

/-- The status read that has found the flash ready. -/
def spiReady : Exchange := (spiStatusRequest, .moved [0])

/-- A sector has been erased, and status reads have followed until the flash was ready. -/
def ErasedBy (sector : ℕ) (xs : Trace) : Prop :=
  ∃ e waits, xs = e :: (waits ++ [spiReady]) ∧ SpiErases e.1 sector ∧ Complete e ∧
    ∀ x ∈ waits, x.1 = spiStatusRequest

/-- A sector has been erased and seen ready in the course of these exchanges. -/
def Erased (sector : ℕ) (t : Trace) : Prop := ∃ t₁ xs t₂, t = t₁ ++ xs ++ t₂ ∧ ErasedBy sector xs

lemma Erased.append {sector : ℕ} {t : Trace} (h : Erased sector t) (t' : Trace) :
    Erased sector (t ++ t') := by
  obtain ⟨t₁, xs, t₂, rfl, hxs⟩ := h
  exact ⟨t₁, xs, t₂ ++ t', by simp, hxs⟩

/-! ### The contents of the flash -/

/-- An erased byte has all bits set. -/
def eraseSector (flash : Mem) (sector : ℕ) : Mem :=
  fun a => if a / spiSectorSize = sector then 0xFF else flash a

/-- Programming clears bits; it does not set any. -/
def programByte (flash : Mem) (b : ℕ × ℕ × UInt8) : Mem :=
  Function.update flash (b.1 * spiPageSize + b.2.1)
    (flash (b.1 * spiPageSize + b.2.1) &&& b.2.2)

/-- The effect of a request on the contents. -/
def spiEffect (flash : Mem) (q : ControlRequest) : Mem :=
  if q.bmRequestType = 0x40 ∧ q.bRequest = 0xC4 then eraseSector flash q.wIndex.toNat
  else (spiPrograms q).foldl programByte flash

/-- The contents of the flash after the exchanges. -/
def flashAfter (flash : Mem) (t : Trace) : Mem := t.foldl (fun flash x => spiEffect flash x.1) flash

lemma flashAfter_append (flash : Mem) (t t' : Trace) :
    flashAfter flash (t ++ t') = flashAfter (flashAfter flash t) t' :=
  List.foldl_append

lemma flashAfter_of_writes {t : Trace} (h : ∀ x ∈ t, x.1.bRequest = 0xC2) (flash : Mem) :
    flashAfter flash t = (programmed t).foldl programByte flash := by
  induction t generalizing flash with
  | nil => rfl
  | cons x t ih =>
    have hx : spiEffect flash x.1 = (spiPrograms x.1).foldl programByte flash := by
      rw [spiEffect, h x List.mem_cons_self, if_neg]
      exact fun hc => absurd hc.2 (by decide)
    change flashAfter (spiEffect flash x.1) t = (spiPrograms x.1 ++ programmed t).foldl _ _
    rw [List.foldl_append, hx, ih fun y hy => h y (List.mem_cons_of_mem _ hy)]

/-- Consecutive bytes that are programmed from the first page on. -/
lemma foldl_programByte (flash image : Mem) (n a : ℕ) :
    ((List.range n).map fun o => (o / spiPageSize, o % spiPageSize, image o)).foldl
      programByte flash a = if a < n then flash a &&& image a else flash a := by
  induction n with
  | zero => rfl
  | succ n ih =>
    rw [List.range_succ, List.map_append, List.foldl_append, List.map_cons, List.map_nil,
      List.foldl_cons, List.foldl_nil, programByte, Nat.div_add_mod']
    by_cases ha : a = n
    · subst ha
      rw [Function.update_self, ih, if_neg (lt_irrefl a), if_pos (Nat.lt_succ_self a)]
    · rw [Function.update_of_ne ha, ih]
      have hlt : a < n ↔ a < n + 1 := by omega
      simp only [hlt]

/-! ### The erase -/

/-- Status reads do not change the contents. -/
lemma flashAfter_of_status {t : Trace} (h : ∀ x ∈ t, x.1 = spiStatusRequest) (flash : Mem) :
    flashAfter flash t = flash := by
  induction t with
  | nil => rfl
  | cons x t ih =>
    have hx : spiEffect flash x.1 = flash := by
      rw [h x List.mem_cons_self]
      rfl
    change flashAfter (spiEffect flash x.1) t = flash
    rw [hx, ih fun y hy => h y (List.mem_cons_of_mem _ hy)]

namespace ErasedBy

variable {sector : ℕ} {xs : Trace}

/-- One erase, and nothing but status reads after it. -/
lemma exists_eq_cons (h : ErasedBy sector xs) :
    ∃ e ys, xs = e :: ys ∧ SpiErases e.1 sector ∧ ∀ y ∈ ys, y.1 = spiStatusRequest := by
  obtain ⟨e, waits, rfl, he, -, hwaits⟩ := h
  refine ⟨e, _, rfl, he, fun y hy => ?_⟩
  rcases List.mem_append.1 hy with hy | hy
  · exact hwaits y hy
  · rw [List.mem_singleton.1 hy]
    rfl

lemma bRequest (h : ErasedBy sector xs) : ∀ x ∈ xs, x.1.bRequest = 0xC4 := by
  obtain ⟨e, ys, rfl, he, hys⟩ := h.exists_eq_cons
  intro x hx
  rcases List.mem_cons.1 hx with rfl | hx
  · exact he.2.1
  · rw [hys x hx]
    rfl

lemma eq_of_mem (h : ErasedBy sector xs) {x : Exchange} (hx : x ∈ xs) {sector' : ℕ}
    (herases : SpiErases x.1 sector') : sector' = sector := by
  obtain ⟨e, ys, rfl, he, hys⟩ := h.exists_eq_cons
  rcases List.mem_cons.1 hx with rfl | hx
  · exact herases.2.2.symm.trans he.2.2
  · rw [hys x hx] at herases
    exact absurd herases.1 (by decide)

lemma flashAfter (h : ErasedBy sector xs) (flash : Mem) :
    flashAfter flash xs = eraseSector flash sector := by
  obtain ⟨e, ys, rfl, he, hys⟩ := h.exists_eq_cons
  change Flash.flashAfter (spiEffect flash e.1) ys = _
  rw [flashAfter_of_status hys, spiEffect, if_pos ⟨he.1, he.2.1⟩, he.2.2]

end ErasedBy

section Erase

variable {usb : Usb} {n i : ℕ} {t t' : Trace}

/-- The wait ends when the flash has been seen ready. -/
lemma spiWaitReady_of_returned (h : spiWaitReady usb n t = (.returned 0, t')) :
    ∃ waits, t' = t ++ (waits ++ [spiReady]) ∧ ∀ x ∈ waits, x.1 = spiStatusRequest := by
  fun_induction spiWaitReady usb n t with
  | case1 => simp at h
  | case2 n t r stat hr hstat ih =>
    obtain ⟨waits, rfl, hwaits⟩ := ih h
    refine ⟨(spiStatusRequest, r.1) :: waits, List.append_assoc _ _ _, fun x hx => ?_⟩
    rcases List.mem_cons.1 hx with rfl | hx
    · rfl
    · exact hwaits x hx
  | case3 n t r stat hr hstat =>
    obtain ⟨-, rfl⟩ := Prod.mk.inj h
    rw [not_not.1 hstat] at hr
    exact ⟨[], congrArg (fun reply => t ++ [(spiStatusRequest, reply)]) hr,
      fun x hx => absurd hx List.not_mem_nil⟩
  | case4 => simp at h

lemma spiWaitReady_ne_fault : (spiWaitReady usb n t).1 ≠ .fault := by
  fun_induction spiWaitReady usb n t with
  | case1 => simp
  | case2 n t r stat hr hstat ih => exact ih
  | case3 => simp
  | case4 => simp

lemma fx3SpiEraseSector_of_returned (hi : i < 2 ^ 16)
    (h : fx3SpiEraseSector usb (UInt16.ofNat i) t = (.returned 0, t')) :
    ∃ xs, t' = t ++ xs ∧ ErasedBy i xs := by
  rw [fx3SpiEraseSector] at h
  split_ifs at h with hresult
  · simp at h
  · obtain ⟨waits, rfl, hwaits⟩ := spiWaitReady_of_returned h
    refine ⟨_, List.append_assoc _ _ _, _, waits, rfl, ?_, not_not.1 hresult, hwaits⟩
    exact ⟨rfl, rfl, UInt16.toNat_ofNat_of_lt' hi⟩

lemma fx3SpiEraseSector_ne_fault {nsector : UInt16} :
    (fx3SpiEraseSector usb nsector t).1 ≠ .fault := by
  rw [fx3SpiEraseSector]
  split_ifs
  · simp
  · exact spiWaitReady_ne_fault

/-- The exchanges have erased the `n` sectors from `i` on, and done nothing else. -/
structure EraseDone (i n : ℕ) (xs : Trace) : Prop where
  erased : ∀ sector, i ≤ sector → sector < i + n → Erased sector xs
  bRequest : ∀ x ∈ xs, x.1.bRequest = 0xC4
  sectors : ∀ x ∈ xs, ∀ sector, SpiErases x.1 sector → i ≤ sector ∧ sector < i + n
  contents : ∀ flash a, flashAfter flash xs a =
    if i ≤ a / spiSectorSize ∧ a / spiSectorSize < i + n then 0xFF else flash a

lemma eraseDone_zero : EraseDone i 0 [] where
  erased := by omega
  bRequest x hx := absurd hx List.not_mem_nil
  sectors x hx := absurd hx List.not_mem_nil
  contents flash a := by
    rw [if_neg (by omega)]
    rfl

/-- The erase programs nothing. -/
lemma EraseDone.spiPrograms_eq_nil {xs : Trace} (h : EraseDone i n xs) {x : Exchange}
    (hx : x ∈ xs) : spiPrograms x.1 = [] := by
  refine spiPrograms_of_ne ?_
  rw [h.bRequest x hx]
  decide

/-- One more sector. -/
lemma EraseDone.cons {xs ys : Trace} (hx : ErasedBy i xs) (h : EraseDone (i + 1) n ys) :
    EraseDone i (n + 1) (xs ++ ys) where
  erased := by
    intro sector hle hlt
    rcases hle.eq_or_lt with rfl | hlt'
    · exact ⟨[], xs, ys, rfl, hx⟩
    · obtain ⟨t₁, zs, t₂, rfl, hzs⟩ := h.erased sector hlt' (by omega)
      exact ⟨xs ++ t₁, zs, t₂, by simp, hzs⟩
  bRequest := by
    intro x hmem
    rcases List.mem_append.1 hmem with hmem | hmem
    · exact hx.bRequest x hmem
    · exact h.bRequest x hmem
  sectors := by
    intro x hmem sector herases
    rcases List.mem_append.1 hmem with hmem | hmem
    · have heq := hx.eq_of_mem hmem herases
      omega
    · have hrest := h.sectors x hmem sector herases
      omega
  contents := by
    intro flash a
    rw [flashAfter_append, h.contents, hx.flashAfter, eraseSector]
    split_ifs <;> first | rfl | omega

lemma spiEraseLoop_of_returned (hi : i + n ≤ 2 ^ 16)
    (h : spiEraseLoop usb n i t = (.returned 0, t')) : ∃ xs, t' = t ++ xs ∧ EraseDone i n xs := by
  induction n generalizing i t with
  | zero =>
    obtain ⟨-, rfl⟩ := Prod.mk.inj h
    exact ⟨[], (List.append_nil t).symm, eraseDone_zero⟩
  | succ n ih =>
    obtain ⟨t₁, hfirst, hrest⟩ := andThen_of_returned h
    obtain ⟨xs, rfl, hxs⟩ :=
      fx3SpiEraseSector_of_returned (by omega) (orElse_of_returned (by decide) hfirst)
    obtain ⟨ys, rfl, hys⟩ := ih (by omega) hrest
    exact ⟨xs ++ ys, List.append_assoc _ _ _, hys.cons hxs⟩

lemma spiEraseLoop_ne_fault : (spiEraseLoop usb n i t).1 ≠ .fault := by
  induction n generalizing i t with
  | zero => simp [spiEraseLoop]
  | succ n ih =>
    refine andThen_ne_fault (fun hfault => ?_) fun t => ih
    exact fx3SpiEraseSector_ne_fault (orElse_eq_fault_iff.1 hfault)

end Erase

/-! ### The write -/

section Write

variable {usb : Usb} {fwBuf : Mem} {n : ℕ} {t t' : Trace}

/-- The request for a piece of the image: the page address is the index in pages. -/
def spiPieceRequest (index : ℕ) (data : List UInt8) : ControlRequest :=
  spiWriteRequest (UInt16.ofNat (index / spiPageSize)) data

lemma pageSize_dvd : spiPageSize ∣ maxWriteSize := by decide

/-- The page address counts the pages that have been written: only the last piece may end inside a
page, and nothing is written after it. -/
lemma spiWriteLoop_eq {index len : ℕ} {pageAddress : UInt16}
    (h : len = 0 ∨ maxWriteSize ∣ index ∧ pageAddress = UInt16.ofNat (index / spiPageSize)) :
    spiWriteLoop usb fwBuf index len pageAddress t =
      transferLoop usb (fun index size => (readBuf fwBuf index size).map (spiPieceRequest index))
        (fun _ size r => if r.result ≠ size then some (.returned (-1)) else none) index len t := by
  fun_induction spiWriteLoop usb fwBuf index len pageAddress t with
  | case1 index len pageAddress t hlen size hread =>
    rw [transferLoop, if_pos hlen]
    dsimp only
    rw [hread]
    rfl
  | case2 index len pageAddress t hlen size data hread r hresult =>
    obtain ⟨-, rfl⟩ := h.resolve_left hlen.ne'
    rw [transferLoop, if_pos hlen]
    dsimp only
    rw [hread]
    dsimp only [Option.map_some, spiPieceRequest]
    rw [if_pos hresult]
  | case3 index len pageAddress t hlen size data hread r hresult ih =>
    obtain ⟨hdvd, rfl⟩ := h.resolve_left hlen.ne'
    have hnext : len - size = 0 ∨ maxWriteSize ∣ index + size ∧
        UInt16.ofNat (index / spiPageSize) + UInt16.ofNat (size / spiPageSize) =
          UInt16.ofNat ((index + size) / spiPageSize) := by
      rcases Nat.lt_or_ge len maxWriteSize with hlt | hge
      · left
        omega
      · right
        have hsize : size = maxWriteSize := Nat.min_eq_right hge
        have hpages : (index + size) / spiPageSize = index / spiPageSize + size / spiPageSize :=
          Nat.add_div_of_dvd_right (pageSize_dvd.trans hdvd)
        rw [hpages, UInt16.ofNat_add]
        exact ⟨(Nat.dvd_add_right hdvd).2 hsize.symm.dvd, rfl⟩
    rw [transferLoop, if_pos hlen]
    dsimp only
    rw [hread]
    dsimp only [Option.map_some, spiPieceRequest]
    rw [if_neg hresult]
    exact ih hnext
  | case4 index len pageAddress t hlen =>
    rw [transferLoop, if_neg hlen]

lemma fx3SpiWrite_eq :
    fx3SpiWrite usb fwBuf n t = writeLoop usb fwBuf (0 : ℕ) spiPieceRequest n t := by
  have hpage : (0 : UInt16) = UInt16.ofNat (0 / spiPageSize) := rfl
  rw [fx3SpiWrite, writeLoop, spiWriteLoop_eq (Or.inr ⟨dvd_zero _, hpage⟩)]
  simp only [Nat.cast_zero, zero_add]

lemma fx3SpiWrite_ne_fault (h : n ≤ maxFwimgSize) :
    (fx3SpiWrite usb fwBuf n t).1 ≠ .fault := by
  rw [fx3SpiWrite_eq]
  exact writeLoop_ne_fault ((Nat.zero_add n).trans_le h)

/-- What a piece of the image programs. -/
lemma spiPrograms_piece {s : ℕ × ℕ} (hdvd : maxWriteSize ∣ s.1) (hlt : s.1 < maxFwimgSize) :
    spiPrograms (spiPieceRequest s.1 (load fwBuf (0 + s.1) s.2)) =
      (List.range s.2).map fun i =>
        ((s.1 + i) / spiPageSize, (s.1 + i) % spiPageSize, fwBuf (s.1 + i)) := by
  obtain ⟨c, hc⟩ : spiPageSize ∣ s.1 := pageSize_dvd.trans hdvd
  have hpage : (UInt16.ofNat (s.1 / spiPageSize)).toNat = s.1 / spiPageSize := by
    have hlt' : s.1 / spiPageSize < 2 ^ 16 := by
      simp only [maxFwimgSize, spiPageSize] at hlt ⊢
      omega
    exact UInt16.toNat_ofNat_of_lt' hlt'
  rw [spiPrograms, spiPieceRequest, spiWriteRequest, if_pos rfl, hpage, load]
  apply List.ext_getElem
  · simp
  · intro i h₁ h₂
    simp only [List.getElem_mapIdx, List.getElem_map, List.getElem_range, Nat.zero_add, hc,
      Nat.mul_add_mod, Nat.mul_add_div (show 0 < spiPageSize by decide),
      Nat.mul_div_cancel_left c (show 0 < spiPageSize by decide)]

/-- A write that succeeds has programmed every byte once, in order, and nothing else. -/
lemma fx3SpiWrite_of_returned (h : n ≤ maxFwimgSize)
    (hr : fx3SpiWrite usb fwBuf n t = (.returned 0, t')) :
    ∃ xs, t' = t ++ xs ∧ (∀ x ∈ xs, x.1.bRequest = 0xC2) ∧ programmed xs =
      (List.range n).map fun o => (o / spiPageSize, o % spiPageSize, fwBuf o) := by
  rw [fx3SpiWrite_eq] at hr
  obtain ⟨xs, hxs, hrequests, -⟩ :=
    writeLoop_of_returned (fun _ _ => rfl) ((Nat.zero_add n).trans_le h) hr
  refine ⟨xs, hxs, ?_, ?_⟩
  · intro x hx
    have hmem : x.1 ∈ writeRequests fwBuf 0 spiPieceRequest n :=
      hrequests ▸ List.mem_map_of_mem hx
    obtain ⟨s, -, hs⟩ := List.mem_map.1 hmem
    rw [← hs]
    rfl
  · have hflat : programmed xs =
        (writeRequests fwBuf 0 spiPieceRequest n).flatMap spiPrograms := by
      rw [← hrequests, List.flatMap_map]
      rfl
    have hpieces := flatMap_spans (show 0 < maxWriteSize by decide)
      (fun o => (o / spiPageSize, o % spiPageSize, fwBuf o)) 0 n
    simp only [Nat.zero_add] at hpieces
    rw [hflat, writeRequests, List.flatMap_map, ← hpieces]
    refine List.flatMap_congr fun s hs => ?_
    have hspan := mem_spans hs
    exact spiPrograms_piece (dvd_of_mem_spans (dvd_zero _) hs) (by omega)

end Write

/-! ### The image in the flash -/

/-- The image, padded to `m` bytes, is in the flash.  Every byte has been programmed once and in its
place; every page that was programmed had been erased, and the flash had been seen ready, before;
and no sector that does not hold a byte of the image has been erased. -/
structure SpiProgrammed (image : Mem) (m : ℕ) (t : Trace) : Prop where
  programmed : programmed t =
    (List.range m).map fun o => (o / spiPageSize, o % spiPageSize, image o)
  erased : ∀ t₁ x t₂, t = t₁ ++ x :: t₂ → ∀ b ∈ spiPrograms x.1,
    Erased (b.1 * spiPageSize / spiSectorSize) t₁
  sectors : ∀ x ∈ t, ∀ sector, SpiErases x.1 sector → ∃ o < m, o / spiSectorSize = sector
  stored : ∀ flash, ∀ o < m, flashAfter flash t o = image o
  kept : ∀ flash a, (∀ o < m, o / spiSectorSize ≠ a / spiSectorSize) →
    flashAfter flash t a = flash a

/-- The number of sectors that hold `m` bytes. -/
def sectorCount (m : ℕ) : ℕ := (m + 65535) / 65536

/-- These are the sectors with a byte of the image. -/
lemma lt_sectorCount_iff {sector m : ℕ} :
    sector < sectorCount m ↔ ∃ o < m, o / spiSectorSize = sector := by
  simp only [sectorCount, spiSectorSize]
  constructor
  · intro h
    exact ⟨sector * 65536, by omega, by omega⟩
  · rintro ⟨o, ho, rfl⟩
    omega

section Image

variable {image : Mem} {m : ℕ} {xs ws : Trace}

/-- A split of two parts of a trace before something that happens only in the second part. -/
lemma prefix_of_split {P : Exchange → Prop} (hxs : ∀ x ∈ xs, ¬ P x) {t₁ t₂ : Trace} {x : Exchange}
    (hx : P x) (h : xs ++ ws = t₁ ++ x :: t₂) : ∃ ys, t₁ = xs ++ ys ∧ x ∈ ws := by
  rcases List.append_eq_append_iff.1 h with ⟨ys, rfl, rfl⟩ | ⟨ys, rfl, hys⟩
  · exact ⟨ys, rfl, by simp⟩
  · cases ys with
    | nil =>
      rw [List.nil_append] at hys
      exact ⟨[], by simp, hys ▸ List.mem_cons_self⟩
    | cons y ys =>
      obtain ⟨rfl, -⟩ := List.cons.inj hys
      exact absurd hx (hxs x (by simp))

/-- The erase and the write together. -/
lemma spiProgrammed_append (he : EraseDone 0 (sectorCount m) xs)
    (hws : ∀ x ∈ ws, x.1.bRequest = 0xC2)
    (hprogrammed : programmed ws =
      (List.range m).map fun o => (o / spiPageSize, o % spiPageSize, image o)) :
    SpiProgrammed image m (xs ++ ws) where
  programmed := by
    have hnone : programmed xs = [] :=
      List.flatMap_eq_nil_iff.2 fun x hx => he.spiPrograms_eq_nil hx
    rw [programmed_append, hnone, List.nil_append, hprogrammed]
  erased := by
    intro t₁ x t₂ ht b hb
    have hnot : ∀ x ∈ xs, ¬ b ∈ spiPrograms x.1 := by
      intro y hy
      rw [he.spiPrograms_eq_nil hy]
      exact List.not_mem_nil
    obtain ⟨ys, rfl, hx⟩ := prefix_of_split hnot hb ht
    have hmem : b ∈ Flash.programmed ws := List.mem_flatMap.2 ⟨x, hx, hb⟩
    rw [hprogrammed] at hmem
    obtain ⟨o, ho, rfl⟩ := List.mem_map.1 hmem
    -- a page begins in the sector that holds its bytes
    have hsector : o / spiPageSize * spiPageSize / spiSectorSize = o / spiSectorSize := by
      simp only [spiPageSize, spiSectorSize]
      omega
    have hlt := lt_sectorCount_iff.2 ⟨o, List.mem_range.1 ho, hsector.symm⟩
    exact (he.erased _ (Nat.zero_le _) ((Nat.zero_add _).symm ▸ hlt)).append ys
  sectors := by
    intro x hx sector herases
    rcases List.mem_append.1 hx with hx | hx
    · have hlt := (he.sectors x hx sector herases).2
      rw [Nat.zero_add] at hlt
      exact lt_sectorCount_iff.1 hlt
    · exact absurd ((hws x hx).symm.trans herases.2.1) (by decide)
  stored := by
    intro flash o ho
    have hlt : o / spiSectorSize < 0 + sectorCount m := by
      rw [Nat.zero_add]
      exact lt_sectorCount_iff.2 ⟨o, ho, rfl⟩
    rw [flashAfter_append, flashAfter_of_writes hws, hprogrammed, foldl_programByte, if_pos ho,
      he.contents, if_pos ⟨Nat.zero_le _, hlt⟩]
    exact UInt8.neg_one_and
  kept := by
    intro flash a ha
    have hout : ¬ a / spiSectorSize < 0 + sectorCount m := by
      rw [Nat.zero_add, lt_sectorCount_iff]
      rintro ⟨o, ho, heq⟩
      exact ha o ho heq
    have hge : ¬ a < m := fun hlt => ha a hlt rfl
    rw [flashAfter_append, flashAfter_of_writes hws, hprogrammed, foldl_programByte, if_neg hge,
      he.contents, if_neg fun h => hout h.2]

/-- An erase and a write that succeed have programmed the image. -/
lemma spiProgrammed_of_returned {usb : Usb} {r : Outcome × Trace} (hm : m ≤ maxFwimgSize)
    (h : andThen (spiEraseLoop usb (sectorCount m) 0 []) (fun t => fx3SpiWrite usb image m t) = r)
    (hzero : r.1 = .returned 0) : SpiProgrammed image m r.2 := by
  obtain ⟨outcome, t⟩ := r
  obtain rfl : outcome = .returned 0 := hzero
  obtain ⟨t₁, herase, hwrite⟩ := andThen_of_returned h
  have hsectors : 0 + sectorCount m ≤ 2 ^ 16 := by
    simp only [maxFwimgSize, sectorCount] at hm ⊢
    omega
  obtain ⟨xs, rfl, hxs⟩ := spiEraseLoop_of_returned hsectors herase
  obtain ⟨ws, rfl, hrequests, hprogrammed⟩ := fx3SpiWrite_of_returned hm hwrite
  exact spiProgrammed_append hxs hrequests hprogrammed

end Image

lemma spiSectors_natCast (n : ℕ) : spiSectors n = sectorCount n := by
  have hsum : (n : ℤ) + (spiSectorSize : ℕ) - 1 = (n + 65535 : ℕ) := by
    simp only [spiSectorSize]
    omega
  rw [spiSectors, hsum, ← Int.ofNat_tdiv]
  rfl

/-- The download of an accepted image, with lengths that are natural numbers. -/
lemma fx3SpibootDownload_of_accepted {f : File} (h : (f.readImage false).code = 0)
    (hsize : f.size ≤ maxFwimgSize) (usb : Usb) {m : ℕ}
    (hm : roundUp f.size spiPageSize = m) :
    fx3SpibootDownload (some usb) true (some f) true =
      andThen (spiEraseLoop usb (sectorCount m) 0 [])
        fun t => fx3SpiWrite usb f.image m t := by
  obtain ⟨hfilesize, hbuf, -⟩ := readImage_of_accepted f h hsize
  rw [File.readImage] at h hfilesize hbuf
  rw [fx3SpibootDownload]
  dsimp only
  rw [if_neg (by decide), if_neg (not_not.2 h), hfilesize, hbuf, hm, spiSectors_natCast,
    Int.toNat_natCast]

/-- The limit is a number of full pages. -/
lemma roundUp_spiPageSize_le {n : ℕ} (h : n ≤ maxFwimgSize) :
    ∃ m : ℕ, m ≤ maxFwimgSize ∧ roundUp n spiPageSize = m := by
  refine ⟨_, ?_, roundUp_natCast n spiPageSize (by decide)⟩
  simp only [maxFwimgSize, spiPageSize] at h ⊢
  omega

/-- An accepted image within the limit is programmed into the SPI flash.  For every device the
function stays inside the buffer, and if it returns 0, then the image, padded with zeros to full
pages, has been programmed. -/
theorem spi_programmed {f : File} (h : (f.readImage false).code = 0)
    (hsize : f.size ≤ maxFwimgSize) (handle : Option Usb) (calloc : Bool) :
    (fx3SpibootDownload handle calloc (some f) true).1 ≠ .fault ∧
      ((fx3SpibootDownload handle calloc (some f) true).1 = .returned 0 →
        SpiProgrammed f.image (roundUp f.size spiPageSize).toNat
          (fx3SpibootDownload handle calloc (some f) true).2) := by
  rcases handle with _ | usb
  · have hfails : fx3SpibootDownload none calloc (some f) true = (.returned (-1), []) := rfl
    rw [hfails]
    simp
  cases calloc with
  | false =>
    have hfails : fx3SpibootDownload (some usb) false (some f) true = (.returned (-2), []) := rfl
    rw [hfails]
    simp
  | true =>
    obtain ⟨m, hpadded, hround⟩ := roundUp_spiPageSize_le hsize
    rw [fx3SpibootDownload_of_accepted h hsize usb hround, hround, Int.toNat_natCast]
    refine ⟨andThen_ne_fault spiEraseLoop_ne_fault fun t => fx3SpiWrite_ne_fault hpadded, ?_⟩
    exact spiProgrammed_of_returned hpadded rfl

/-! ### A device that works -/

/-- A flash programmer that does what it is asked; the flash is never busy. -/
def spiUsb : Usb := fun _ q => if q = spiStatusRequest then .moved [0] else .moved q.data

lemma spiEraseLoop_spiUsb (n i : ℕ) (t : Trace) :
    (spiEraseLoop spiUsb n i t).1 = .returned 0 := by
  induction n generalizing i t with
  | zero => rfl
  | succ n ih => exact andThen_returned rfl (ih (i + 1) _)

lemma spiWriteLoop_spiUsb {fwBuf : Mem} {index len : ℕ} {pageAddress : UInt16} {t : Trace}
    (h : index + len ≤ maxFwimgSize) :
    (spiWriteLoop spiUsb fwBuf index len pageAddress t).1 = .returned 0 := by
  fun_induction spiWriteLoop spiUsb fwBuf index len pageAddress t with
  | case1 index len pageAddress t hlen size hread =>
    rw [readBuf_natCast fwBuf (by omega)] at hread
    cases hread
  | case2 index len pageAddress t hlen size data hread r hr =>
    rw [readBuf_natCast fwBuf (by omega)] at hread
    obtain rfl := Option.some.inj hread
    refine absurd ?_ hr
    change ((load fwBuf index size).length : ℤ) = size
    rw [length_load]
  | case3 index len pageAddress t hlen size data hread r hr ih => exact ih (by omega)
  | case4 => rfl

/-- With this device every accepted image within the limit is programmed. -/
lemma fx3SpibootDownload_spiUsb {f : File} (h : (f.readImage false).code = 0)
    (hsize : f.size ≤ maxFwimgSize) :
    (fx3SpibootDownload (some spiUsb) true (some f) true).1 = .returned 0 := by
  obtain ⟨m, hpadded, hround⟩ := roundUp_spiPageSize_le hsize
  rw [fx3SpibootDownload_of_accepted h hsize spiUsb hround]
  refine andThen_returned (spiEraseLoop_spiUsb _ _ _) (spiWriteLoop_spiUsb ?_)
  rw [Int.toNat_natCast, Nat.zero_add]
  exact hpadded

/-- A file of 70000 bytes takes two sectors. -/
theorem spi_programmed_longFile :
    (fx3SpibootDownload (some spiUsb) true (some longFile) true).1 = .returned 0 ∧
      SpiProgrammed longFile.image 70144
        (fx3SpibootDownload (some spiUsb) true (some longFile) true).2 := by
  have hrun := fx3SpibootDownload_spiUsb (longFile_accepted false) (by decide)
  exact ⟨hrun, (spi_programmed (longFile_accepted false) (by decide) (some spiUsb) true).2 hrun⟩

end Fx3Ncm.Flash
