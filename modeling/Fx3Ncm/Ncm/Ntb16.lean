/-
# The NTB16 format

What the bytes of an NTB mean.  `datagrams m` is the list of datagrams that a walk of
the datagram table of `m` yields; it is the meaning of a block for its receiver.
`Encodes m seq ds` says that the bytes `m` are exactly what the transmit side of the
driver is meant to build for the datagrams `ds`: the headers, the table, the data and
the terminating zero entries.  `WellFormed m k` lists the properties of the format that
can be stated without the datagrams.

The two operations of the driver on the bytes of an NTB, `populateNtb` and
`appendDatagram`, keep `Encodes`.
-/
import Fx3Ncm.Ncm.Driver
import Mathlib.Data.List.Induction

namespace Fx3Ncm

open ByteMemory

/-! ### The receiver's view -/

/-- Entry `j` of the table is one that the receiver goes on to. -/
def EntryUsed (m : Mem) (j : ℕ) : Prop :=
  wDatagramIndex m (ndp16DatagramOffset m) j ≠ 0 ∧ wDatagramLength m (ndp16DatagramOffset m) j ≠ 0

instance (m : Mem) (j : ℕ) : Decidable (EntryUsed m j) :=
  inferInstanceAs (Decidable (_ ∧ _))

/-- The bytes that entry `j` of the table describes. -/
def entryDatagram (m : Mem) (j : ℕ) : List UInt8 :=
  load m (wDatagramIndex m (ndp16DatagramOffset m) j) (wDatagramLength m (ndp16DatagramOffset m) j)

/-- The datagrams of a block: the entries of the table up to the first that is not used.
A block of `NCM_NTB_MAX_SIZE` bytes has no room for more entries than are looked at. -/
def datagrams (m : Mem) : List (List UInt8) :=
  ((List.range (ncmNtbMaxSize / sizeofNdp16Datagram)).takeWhile fun j => EntryUsed m j).map
    (entryDatagram m)

lemma takeWhile_range_eq {p : ℕ → Bool} {k n : ℕ} (hk : k < n) (hp : ∀ j < k, p j = true)
    (hpk : p k = false) : (List.range n).takeWhile p = List.range k := by
  have hsplit : List.range n = List.range k ++ k :: (List.range' (k + 1) (n - (k + 1))) := by
    rw [List.range_eq_range', List.range_eq_range', ← List.range'_succ,
      show n - (k + 1) + 1 = n - k by omega]
    have h : List.range' 0 k ++ List.range' (0 + k) (n - k) = List.range' 0 (k + (n - k)) :=
      List.range'_append_1
    rw [show k + (n - k) = n by omega, Nat.zero_add] at h
    exact h.symm
  rw [hsplit, List.takeWhile_append_of_pos (fun j hj => hp j (List.mem_range.1 hj)),
    List.takeWhile_cons_of_neg (by simp [hpk]), List.append_nil]

/-- The datagrams of a block whose table has `k` entries. -/
lemma datagrams_eq {m : Mem} {k : ℕ} (hk : k < 800) (hused : ∀ j < k, EntryUsed m j)
    (hend : ¬ EntryUsed m k) : datagrams m = (List.range k).map (entryDatagram m) := by
  change (((List.range 800).takeWhile fun j => EntryUsed m j).map (entryDatagram m)) = _
  rw [takeWhile_range_eq hk (fun j hj => by simpa using hused j hj) (by simpa using hend)]

/-! ### The sender's view -/

/-- The room a datagram takes in a block. -/
def paddedLength (d : List UInt8) : ℕ := d.length + alignOffset d.length

/-- The length of the block for a list of datagrams, which is also where the next one goes. -/
def blockLength (ds : List (List UInt8)) : ℕ := sizeofNtbHeader + (ds.map paddedLength).sum

/-- The bytes `m` encode the datagrams `ds` with sequence number `seq`. -/
structure Encodes (m : Mem) (seq : ℕ) (ds : List (List UInt8)) : Prop where
  signature : read32 m 0 = nth16Signature
  headerLength : wHeaderLength m = sizeofNth16
  sequence : wSequence m = seq
  block : wBlockLength m = blockLength ds
  ndpIndex : wNdpIndex m = sizeofNth16
  ndpSignature : read32 m 12 = ndp16SignatureNcm0
  ndpLength : read16 m 16 = sizeofNdp16 + sizeofNdpDatagram
  nextNdpIndex : read16 m 18 = 0
  index : ∀ j (_ : j < ds.length),
    wDatagramIndex m ndpDatagramOffset j = blockLength (ds.take j)
  length : ∀ j (_ : j < ds.length), wDatagramLength m ndpDatagramOffset j = ds[j].length
  data : ∀ j (_ : j < ds.length), load m (blockLength (ds.take j)) ds[j].length = ds[j]
  terminated : ∀ j, ds.length ≤ j → j ≤ ncmMaxDatagramsPerNtb →
    wDatagramIndex m ndpDatagramOffset j = 0 ∧ wDatagramLength m ndpDatagramOffset j = 0
  count_le : ds.length ≤ ncmMaxDatagramsPerNtb
  fits : blockLength ds ≤ ncmNtbMaxSize

/-- The properties of a well-formed NTB16 with `k` datagrams. -/
structure WellFormed (m : Mem) (k : ℕ) : Prop where
  signature : read32 m 0 = nth16Signature
  headerLength : wHeaderLength m = 12
  ndpIndex : wNdpIndex m = 12
  ndpSignature : read32 m 12 = ndp16SignatureNcm0
  ndpLength : read16 m 16 = 44
  nextNdpIndex : read16 m 18 = 0
  count_le : k ≤ ncmMaxDatagramsPerNtb
  nonzero : ∀ j < k, wDatagramIndex m 20 j ≠ 0 ∧ wDatagramLength m 20 j ≠ 0
  aligned : ∀ j < k, 4 ∣ wDatagramIndex m 20 j
  first : 0 < k → wDatagramIndex m 20 0 = 56
  next : ∀ j, j + 1 < k → wDatagramIndex m 20 (j + 1) =
    wDatagramIndex m 20 j + (wDatagramLength m 20 j + 3) / 4 * 4
  disjoint : ∀ i j, i < j → j < k →
    wDatagramIndex m 20 i + wDatagramLength m 20 i ≤ wDatagramIndex m 20 j
  terminated : ∀ j, k ≤ j → j ≤ 8 → wDatagramIndex m 20 j = 0 ∧ wDatagramLength m 20 j = 0
  blockLength : wBlockLength m =
    56 + ((List.range k).map fun j => (wDatagramLength m 20 j + 3) / 4 * 4).sum
  block_aligned : 4 ∣ wBlockLength m
  block_le : wBlockLength m ≤ ncmNtbMaxSize

/-! ### Lengths -/

lemma paddedLength_eq (d : List UInt8) : paddedLength d = (d.length + 3) / 4 * 4 := by
  rw [paddedLength, alignOffset_eq]
  omega

@[simp] lemma blockLength_nil : blockLength [] = 56 := rfl

lemma blockLength_append_singleton (ds : List (List UInt8)) (d : List UInt8) :
    blockLength (ds ++ [d]) = blockLength ds + paddedLength d := by
  simp only [blockLength, List.map_append, List.map_cons, List.map_nil, List.sum_append,
    List.sum_cons, List.sum_nil]
  omega

lemma le_blockLength (ds : List (List UInt8)) : 56 ≤ blockLength ds :=
  Nat.le_add_right _ _

lemma blockLength_take_succ {ds : List (List UInt8)} {j : ℕ} (hj : j < ds.length) :
    blockLength (ds.take (j + 1)) = blockLength (ds.take j) + paddedLength ds[j] := by
  rw [List.take_succ_eq_append_getElem hj, blockLength_append_singleton]

lemma blockLength_take_mono (ds : List (List UInt8)) {i j : ℕ} (hij : i ≤ j) :
    blockLength (ds.take i) ≤ blockLength (ds.take j) := by
  induction j, hij using Nat.le_induction with
  | base => exact le_rfl
  | succ j _ ih =>
    by_cases hj : j < ds.length
    · rw [blockLength_take_succ hj]
      omega
    · rw [List.take_of_length_le (i := j + 1) (by omega)]
      rwa [List.take_of_length_le (i := j) (by omega)] at ih

/-- A datagram ends before the start of every later one, and before the end of the block. -/
lemma blockLength_take_add_le {ds : List (List UInt8)} {i j : ℕ} (hi : i < ds.length)
    (hij : i < j) :
    blockLength (ds.take i) + ds[i].length ≤ blockLength (ds.take j) := by
  have h := blockLength_take_mono ds (show i + 1 ≤ j by omega)
  rw [blockLength_take_succ hi, paddedLength] at h
  omega

lemma four_dvd_blockLength (ds : List (List UInt8)) : 4 ∣ blockLength ds := by
  induction ds using List.reverseRecOn with
  | nil => exact ⟨14, rfl⟩
  | append_singleton ds d ih =>
    rw [blockLength_append_singleton, paddedLength_eq]
    exact Nat.dvd_add ih (Nat.dvd_mul_left 4 _)

/-! ### Opening an NTB -/

/-- Opening an NTB gives the encoding of no datagrams, whatever its bytes were. -/
lemma encodes_populateNtb (m : Mem) {seq : ℕ} (hseq : seq < 65536) :
    Encodes (populateNtb m seq) seq [] := by
  have htable : ∀ o, 20 ≤ o → o + 2 ≤ 56 → read16 (populateNtb m seq) o = 0 := by
    intro o h₁ h₂
    exact read16_store_zero _ h₁ h₂
  constructor
  case terminated =>
    intro j _ hj
    simp only [ncmMaxDatagramsPerNtb] at hj
    exact ⟨htable _ (by simp) (by simp; omega), htable _ (by simp; omega) (by simp; omega)⟩
  case index | length | data => simp
  case count_le | fits => simp
  case sequence =>
    simp (disch := simp) only [wSequence, populateNtb, read16_store_of_disjoint,
      read16_write16_of_disjoint, read16_write32_of_disjoint, read16_write16_self]
    exact Nat.mod_eq_of_lt hseq
  all_goals
    simp (disch := simp) [wHeaderLength, wBlockLength, wNdpIndex, populateNtb,
      read16_store_of_disjoint, read32_store_of_disjoint, read16_write16_of_disjoint,
      read16_write32_of_disjoint, read32_write16_of_disjoint, read32_write32_of_disjoint]

/-! ### Appending a datagram -/

section Append

variable {m : Mem} {j : ℕ} {written : List UInt8} {size : ℕ}

/-- The steps of `appendDatagram` when the data is written behind the header area, so that
the block length read back in between is still the one from before. -/
lemma appendDatagram_eq (hB : 56 ≤ wBlockLength m) :
    appendDatagram m j written size =
      write16 (write16 (write16 (store m (wBlockLength m) written)
        (20 + 4 * j) (wBlockLength m)) (20 + 4 * j + 2) size)
        8 (wBlockLength m + (size + alignOffset size)) := by
  have h₁ : wBlockLength (store m (wBlockLength m) written) = wBlockLength m :=
    read16_store_of_disjoint m (by omega)
  have h₂ : ∀ (m' : Mem) (v v' : ℕ),
      wBlockLength (write16 (write16 m' (20 + 4 * j) v) (20 + 4 * j + 2) v') = wBlockLength m' := by
    intro m' v v'
    rw [wBlockLength, read16_write16_of_disjoint _ (by omega),
      read16_write16_of_disjoint _ (by omega)]
    rfl
  change write16 (write16 (write16 _ (20 + 4 * j) _) (20 + 4 * j + 2) size) 8
    (wBlockLength (write16 (write16 _ (20 + 4 * j) _) (20 + 4 * j + 2) size) + _) = _
  rw [h₂, h₁]

/-- Integers that are neither the block length, nor part of the entry written, nor part of
the data written, are unchanged. -/
lemma read16_appendDatagram (hB : 56 ≤ wBlockLength m) {o : ℕ}
    (h8 : o + 2 ≤ 8 ∨ 10 ≤ o) (hentry : o + 2 ≤ 20 + 4 * j ∨ 24 + 4 * j ≤ o)
    (hdata : o + 2 ≤ wBlockLength m) :
    read16 (appendDatagram m j written size) o = read16 m o := by
  rw [appendDatagram_eq hB, read16_write16_of_disjoint _ (by omega),
    read16_write16_of_disjoint _ (by omega), read16_write16_of_disjoint _ (by omega),
    read16_store_of_disjoint _ (by omega)]

lemma read32_appendDatagram (hB : 56 ≤ wBlockLength m) (hj : j ≤ 8) {o : ℕ}
    (h8 : o + 4 ≤ 8 ∨ 10 ≤ o) (hentry : o + 4 ≤ 20) :
    read32 (appendDatagram m j written size) o = read32 m o := by
  rw [appendDatagram_eq hB, read32_write16_of_disjoint _ (by omega),
    read32_write16_of_disjoint _ (by omega), read32_write16_of_disjoint _ (by omega),
    read32_store_of_disjoint _ (by omega)]

/-- Earlier data is unchanged. -/
lemma load_appendDatagram (hB : 56 ≤ wBlockLength m) (hj : j ≤ 8) {o n : ℕ} (ho : 56 ≤ o)
    (hdata : o + n ≤ wBlockLength m) :
    load (appendDatagram m j written size) o n = load m o n := by
  rw [appendDatagram_eq hB, load_write16_of_disjoint _ (by omega),
    load_write16_of_disjoint _ (by omega), load_write16_of_disjoint _ (by omega),
    load_store_of_disjoint _ (by omega)]

/-- The data written is found where the block ended before. -/
lemma load_appendDatagram_self (hB : 56 ≤ wBlockLength m) (hj : j ≤ 8) :
    load (appendDatagram m j written size) (wBlockLength m) written.length = written := by
  rw [appendDatagram_eq hB, load_write16_of_disjoint _ (by omega),
    load_write16_of_disjoint _ (by omega), load_write16_of_disjoint _ (by omega),
    load_store_self]

lemma wBlockLength_appendDatagram (hB : 56 ≤ wBlockLength m) :
    wBlockLength (appendDatagram m j written size) =
      (wBlockLength m + (size + alignOffset size)) % 65536 := by
  conv_lhs => rw [wBlockLength, appendDatagram_eq hB]
  exact read16_write16_self _ _ _

/-- The new entry points to the data written. -/
lemma wDatagramIndex_appendDatagram_self (hB : 56 ≤ wBlockLength m) (hj : j ≤ 8) :
    wDatagramIndex (appendDatagram m j written size) 20 j = wBlockLength m := by
  rw [wDatagramIndex_eq, appendDatagram_eq hB, read16_write16_of_disjoint _ (by omega),
    read16_write16_of_disjoint _ (by omega), read16_write16_self]
  exact Nat.mod_eq_of_lt (read16_lt m 8)

lemma wDatagramLength_appendDatagram_self (hB : 56 ≤ wBlockLength m) (hj : j ≤ 8)
    (hsize : size < 65536) :
    wDatagramLength (appendDatagram m j written size) 20 j = size := by
  rw [wDatagramLength_eq, appendDatagram_eq hB, read16_write16_of_disjoint _ (by omega),
    read16_write16_self, Nat.mod_eq_of_lt hsize]

end Append

/-- Appending a datagram that fits gives the encoding of the longer list. -/
lemma Encodes.append {m : Mem} {seq : ℕ} {ds : List (List UInt8)} {d : List UInt8}
    (h : Encodes m seq ds) (hcount : ds.length < ncmMaxDatagramsPerNtb)
    (hfits : blockLength ds + paddedLength d ≤ ncmNtbMaxSize) :
    Encodes (appendDatagram m ds.length d d.length) seq (ds ++ [d]) := by
  have hB : 56 ≤ wBlockLength m := by rw [h.block]; exact le_blockLength ds
  have hj : ds.length ≤ 8 := h.count_le
  simp only [ncmMaxDatagramsPerNtb, ncmNtbMaxSize] at hcount hfits
  have hd : d.length < 65536 := by rw [paddedLength] at hfits; omega
  -- the header outside `wBlockLength` and the new entry is as before
  have hold : ∀ o, o + 2 ≤ 56 → (o + 2 ≤ 8 ∨ 10 ≤ o) →
      (o + 2 ≤ 20 + 4 * ds.length ∨ 24 + 4 * ds.length ≤ o) →
      read16 (appendDatagram m ds.length d d.length) o = read16 m o := by
    intro o h56 h8 hentry
    exact read16_appendDatagram hB h8 hentry (by omega)
  have htake : ∀ j ≤ ds.length, (ds ++ [d]).take j = ds.take j := by
    intro j hj'
    rw [List.take_append_of_le_length hj']
  refine
    { signature := (read32_appendDatagram hB hj (by omega) (by omega)).trans h.signature
      headerLength := (hold _ (by omega) (by omega) (by omega)).trans h.headerLength
      sequence := (hold _ (by omega) (by omega) (by omega)).trans h.sequence
      block := ?_
      ndpIndex := (hold _ (by omega) (by omega) (by omega)).trans h.ndpIndex
      ndpSignature := (read32_appendDatagram hB hj (by omega) (by omega)).trans h.ndpSignature
      ndpLength := (hold _ (by omega) (by omega) (by omega)).trans h.ndpLength
      nextNdpIndex := (hold _ (by omega) (by omega) (by omega)).trans h.nextNdpIndex
      index := ?_
      length := ?_
      data := ?_
      terminated := ?_
      count_le := by simp; omega
      fits := by rw [blockLength_append_singleton]; exact hfits }
  · rw [wBlockLength_appendDatagram hB, h.block, blockLength_append_singleton, paddedLength]
    rw [paddedLength] at hfits
    omega
  · intro j hjlt
    rw [List.length_append, List.length_singleton] at hjlt
    rw [htake j (by omega)]
    by_cases hlast : j = ds.length
    · subst hlast
      rw [List.take_length, ← h.block]
      exact wDatagramIndex_appendDatagram_self hB hj
    · rw [← h.index j (by omega)]
      exact hold _ (by simp; omega) (by simp; omega) (by simp; omega)
  · intro j hjlt
    rw [List.length_append, List.length_singleton] at hjlt
    by_cases hlast : j = ds.length
    · subst hlast
      rw [List.getElem_concat_length rfl]
      exact wDatagramLength_appendDatagram_self hB hj hd
    · rw [List.getElem_append_left (by omega), ← h.length j (by omega)]
      exact hold _ (by simp; omega) (by simp; omega) (by simp; omega)
  · intro j hjlt
    rw [List.length_append, List.length_singleton] at hjlt
    rw [htake j (by omega)]
    by_cases hlast : j = ds.length
    · subst hlast
      rw [List.getElem_concat_length rfl, List.take_length, ← h.block]
      exact load_appendDatagram_self hB hj
    · have hlt : j < ds.length := by omega
      rw [List.getElem_append_left hlt]
      rw [load_appendDatagram hB hj (le_blockLength _), h.data j hlt]
      -- the older datagrams end before the block does, where the new one is written
      rw [h.block]
      have hle := blockLength_take_add_le hlt hlt
      rwa [List.take_length] at hle
  · intro j hge hle
    rw [List.length_append, List.length_singleton] at hge
    simp only [ncmMaxDatagramsPerNtb] at hle
    obtain ⟨hi, hl⟩ := h.terminated j (by omega) (by simpa using hle)
    exact ⟨(hold _ (by simp; omega) (by simp; omega) (by simp; omega)).trans hi,
      (hold _ (by simp; omega) (by simp; omega) (by simp; omega)).trans hl⟩

/-! ### What an encoding means to the receiver -/

section Receiver

variable {m : Mem} {seq : ℕ} {ds : List (List UInt8)}

lemma Encodes.ndp16DatagramOffset_eq (h : Encodes m seq ds) :
    ndp16DatagramOffset m = ndpDatagramOffset := by
  rw [ndp16DatagramOffset, h.ndpIndex]

lemma Encodes.entryUsed (h : Encodes m seq ds) (hne : ∀ d ∈ ds, d ≠ []) {j : ℕ}
    (hj : j < ds.length) : EntryUsed m j := by
  rw [EntryUsed, h.ndp16DatagramOffset_eq, h.index j hj, h.length j hj]
  have hpos := List.length_pos_of_ne_nil (hne ds[j] (List.getElem_mem hj))
  have hB := le_blockLength (ds.take j)
  omega

lemma Encodes.not_entryUsed (h : Encodes m seq ds) : ¬ EntryUsed m ds.length := by
  rw [EntryUsed, h.ndp16DatagramOffset_eq, (h.terminated ds.length le_rfl h.count_le).1]
  simp

lemma Encodes.entryDatagram_eq (h : Encodes m seq ds) {j : ℕ} (hj : j < ds.length) :
    entryDatagram m j = ds[j] := by
  rw [entryDatagram, h.ndp16DatagramOffset_eq, h.index j hj, h.length j hj, h.data j hj]

/-- The walk of the table of an encoding gives back the datagrams, provided none is empty. -/
lemma Encodes.datagrams_eq (h : Encodes m seq ds) (hne : ∀ d ∈ ds, d ≠ []) :
    datagrams m = ds := by
  have hcount : ds.length ≤ 8 := h.count_le
  rw [Fx3Ncm.datagrams_eq (by omega) (fun j hj => h.entryUsed hne hj) h.not_entryUsed]
  apply List.ext_getElem
  · simp
  · intro j h₁ h₂
    simp [h.entryDatagram_eq h₂]

/-- An encoding of non-empty datagrams is a well-formed NTB16. -/
lemma Encodes.wellFormed (h : Encodes m seq ds) (hne : ∀ d ∈ ds, d ≠ []) :
    WellFormed m ds.length := by
  have hlen : ∀ j (hj : j < ds.length), wDatagramLength m 20 j = ds[j].length := h.length
  have hidx : ∀ j (_ : j < ds.length), wDatagramIndex m 20 j = blockLength (ds.take j) := h.index
  refine
    { signature := h.signature, headerLength := h.headerLength, ndpIndex := h.ndpIndex
      ndpSignature := h.ndpSignature, ndpLength := h.ndpLength, nextNdpIndex := h.nextNdpIndex
      count_le := h.count_le, terminated := h.terminated
      nonzero := ?_, aligned := ?_, first := ?_, next := ?_, disjoint := ?_, blockLength := ?_
      block_aligned := ?_, block_le := ?_ }
  · intro j hj
    have hused := h.entryUsed hne hj
    rwa [EntryUsed, h.ndp16DatagramOffset_eq] at hused
  · intro j hj
    rw [hidx j hj]
    exact four_dvd_blockLength _
  · intro hpos
    rw [hidx 0 hpos, List.take_zero, blockLength_nil]
  · intro j hj
    rw [hidx (j + 1) hj, hidx j (by omega), hlen j (by omega), blockLength_take_succ,
      paddedLength_eq]
  · intro i j hij hj
    rw [hidx i (by omega), hidx j hj, hlen i (by omega)]
    exact blockLength_take_add_le (by omega) hij
  · have hmap : (List.range ds.length).map (fun j => (wDatagramLength m 20 j + 3) / 4 * 4) =
        ds.map paddedLength := by
      apply List.ext_getElem
      · simp
      · intro j h₁ h₂
        have hj : j < ds.length := by simpa using h₁
        simp [hlen j hj, paddedLength_eq]
    rw [h.block, hmap]
    rfl
  · rw [h.block]
    exact four_dvd_blockLength ds
  · rw [h.block]
    exact h.fits

end Receiver

end Fx3Ncm
