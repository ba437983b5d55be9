/-
# The sections of a firmware image

After the header of four bytes an image is a sequence of sections: a word that holds the number
of data words, a word that holds an address, and the data.  A section without data ends the
sequence; its address is the entry point, and a third word holds the sum of all data words.

Nothing here is about the loader.  The offsets at which the sections start depend only on the
bytes, so they are defined for every memory; `HasSections m n k` says that the first `k` of them
are sections with data that end by offset `n`.
-/
import Fx3Ncm.Flash.Image
import Mathlib.Order.Monotone.Basic

namespace Fx3Ncm.Flash

open ByteMemory

/-! ### Words and sections -/

/-- The 32-bit word at offset `i`. -/
def word (m : Mem) (i : ℕ) : UInt32 := UInt32.ofNat (leNat (load m i 4))

lemma word_congr {m m' : Mem} {i : ℕ} (h : ∀ p, i ≤ p → p < i + 4 → m p = m' p) :
    word m i = word m' i := by
  rw [word, word, load_congr h]

/-- Bytes taken together to 32-bit words. -/
def dataWords : List UInt8 → List UInt32
  | a :: b :: c :: d :: bs => UInt32.ofNat (leNat [a, b, c, d]) :: dataWords bs
  | _ => []

lemma dataWords_load_succ (m : Mem) (o n : ℕ) :
    dataWords (load m o (4 * (n + 1))) = word m o :: dataWords (load m (o + 4) (4 * n)) := by
  rw [Nat.mul_succ, Nat.add_comm, load_add]
  rfl

structure Section where
  address : UInt32
  data : List UInt8
deriving DecidableEq, Repr

/-- The sum of all data words. -/
def checksum (secs : List Section) : UInt32 :=
  (secs.flatMap fun s => dataWords s.data).foldl (· + ·) 0

lemma checksum_concat (secs : List Section) (s : Section) :
    checksum (secs ++ [s]) = (dataWords s.data).foldl (· + ·) (checksum secs) := by
  simp [checksum]

/-! ### The sequence of sections -/

section Sequence

variable (m : Mem)

/-- The number of data bytes of the section at offset `i`. -/
def dataLength (i : ℕ) : ℕ := 4 * (word m i).toNat

/-- The section at offset `i`. -/
def sectionAt (i : ℕ) : Section := ⟨word m (i + 4), load m (i + 8) (dataLength m i)⟩

/-- The offset at which the section number `k` starts. -/
def sectionStart : ℕ → ℕ
  | 0 => 4
  | k + 1 => sectionStart k + 8 + dataLength m (sectionStart k)

/-- The first `k` sections. -/
def sections (k : ℕ) : List Section := (List.range k).map fun j => sectionAt m (sectionStart m j)

/-- The first `k` sections have data and end by offset `n`. -/
def HasSections (n k : ℕ) : Prop :=
  ∀ j < k, word m (sectionStart m j) ≠ 0 ∧ sectionStart m (j + 1) ≤ n

lemma sections_succ (k : ℕ) :
    sections m (k + 1) = sections m k ++ [sectionAt m (sectionStart m k)] := by
  rw [sections, List.range_succ, List.map_append]
  rfl

lemma sectionStart_strictMono : StrictMono (sectionStart m) := by
  refine strictMono_nat_of_lt_succ fun k => ?_
  rw [sectionStart]
  omega

lemma four_le_sectionStart (k : ℕ) : 4 ≤ sectionStart m k :=
  (sectionStart_strictMono m).monotone (Nat.zero_le k)

variable {m}

lemma dataLength_pos {i : ℕ} (h : word m i ≠ 0) : 0 < dataLength m i := by
  have hne : (word m i).toNat ≠ 0 := fun h₀ => h (UInt32.toNat_inj.1 h₀)
  rw [dataLength]
  omega

lemma hasSections_zero (n : ℕ) : HasSections m n 0 := fun j hj => absurd hj (Nat.not_lt_zero j)

lemma HasSections.succ {n k : ℕ} (h : HasSections m n k) (hdata : word m (sectionStart m k) ≠ 0)
    (hend : sectionStart m (k + 1) ≤ n) : HasSections m n (k + 1) := by
  intro j hj
  rcases Nat.lt_succ_iff_lt_or_eq.1 hj with hj | rfl
  · exact h j hj
  · exact ⟨hdata, hend⟩

lemma HasSections.of_le {n j k : ℕ} (h : HasSections m n k) (hjk : j ≤ k) : HasSections m n j :=
  fun i hi => h i (lt_of_lt_of_le hi hjk)

/-- Only the last section can be beyond an offset. -/
lemma HasSections.of_sectionStart_le {n n' k : ℕ} (h : HasSections m n k)
    (hk : sectionStart m k ≤ n') : HasSections m n' k :=
  fun j hj => ⟨(h j hj).1, ((sectionStart_strictMono m).monotone hj).trans hk⟩

/-- A section without data is behind the sections with data. -/
lemma HasSections.le_of_terminator {n k k' : ℕ} (h : HasSections m n k)
    (h' : word m (sectionStart m k') = 0) : k ≤ k' := by
  by_contra hlt
  exact (h k' (not_le.1 hlt)).1 h'

/-- The sections up to an offset depend only on the bytes up to there. -/
lemma sectionStart_congr {m' : Mem} {k : ℕ} (h : ∀ p < sectionStart m k, m p = m' p) :
    sectionStart m' k = sectionStart m k := by
  induction k with
  | zero => rfl
  | succ k ih =>
    have hlt := sectionStart_strictMono m (Nat.lt_succ_self k)
    have hstart := ih fun p hp => h p (hp.trans hlt)
    have hword : word m' (sectionStart m k) = word m (sectionStart m k) := by
      refine (word_congr fun p _ hp => h p ?_).symm
      rw [sectionStart]
      omega
    rw [sectionStart, sectionStart, hstart, dataLength, dataLength, hword]

lemma sectionStart_congr_of_le {m' : Mem} {j k : ℕ} (h : ∀ p < sectionStart m k, m p = m' p)
    (hjk : j ≤ k) : sectionStart m' j = sectionStart m j :=
  sectionStart_congr fun p hp => h p (hp.trans_le ((sectionStart_strictMono m).monotone hjk))

lemma word_sectionStart_congr {m' : Mem} {j k : ℕ} (h : ∀ p < sectionStart m k, m p = m' p)
    (hjk : j < k) : word m' (sectionStart m j) = word m (sectionStart m j) := by
  have hle : sectionStart m (j + 1) ≤ sectionStart m k :=
    (sectionStart_strictMono m).monotone hjk
  rw [sectionStart] at hle
  exact (word_congr fun p _ hp => h p (by omega)).symm

lemma sections_congr {m' : Mem} {k : ℕ} (h : ∀ p < sectionStart m k, m p = m' p) :
    sections m' k = sections m k := by
  refine List.map_congr_left fun j hj => ?_
  have hjk : j < k := List.mem_range.1 hj
  have hle : sectionStart m (j + 1) ≤ sectionStart m k :=
    (sectionStart_strictMono m).monotone hjk
  rw [sectionStart] at hle
  rw [sectionStart_congr_of_le h hjk.le, sectionAt, sectionAt, dataLength, dataLength,
    word_sectionStart_congr h hjk]
  congr 1
  · exact (word_congr fun p _ hp => h p (by omega)).symm
  · refine (load_congr fun p _ hp => h p ?_).symm
    rw [dataLength] at hle
    omega

lemma HasSections.congr {m' : Mem} {n k : ℕ} (hm : HasSections m n k)
    (h : ∀ p < sectionStart m k, m p = m' p) : HasSections m' n k := by
  intro j hj
  rw [sectionStart_congr_of_le h hj.le, sectionStart_congr_of_le h hj,
    word_sectionStart_congr h hj]
  exact hm j hj

end Sequence

/-! ### Images -/

/-- The first `size` bytes of the memory are an image with `k` sections; more bytes may follow
the section that ends it. -/
structure IsImage (m : Mem) (size k : ℕ) : Prop where
  hasSections : HasSections m size k
  terminator_le : sectionStart m k + 12 ≤ size
  terminator : word m (sectionStart m k) = 0
  sum : word m (sectionStart m k + 8) = checksum (sections m k)

/-- The entry point of an image with `k` sections. -/
def entryPoint (m : Mem) (k : ℕ) : UInt32 := word m (sectionStart m k + 4)

/-! ### The memory of the device -/

/-- A memory with 32-bit addresses. -/
abbrev Ram := UInt32 → UInt8

/-- The bytes are written from an address on; after the last address comes the first one. -/
def storeRam (ram : Ram) (address : UInt32) : List UInt8 → Ram
  | [] => ram
  | b :: bs => storeRam (Function.update ram address b) (address + 1) bs

/-- The sections are written one after the other. -/
def overlay (ram : Ram) (secs : List Section) : Ram :=
  secs.foldl (fun ram s => storeRam ram s.address s.data) ram

lemma storeRam_append (ram : Ram) (address : UInt32) (xs ys : List UInt8) :
    storeRam ram address (xs ++ ys) =
      storeRam (storeRam ram address xs) (address + UInt32.ofNat xs.length) ys := by
  induction xs generalizing ram address with
  | nil => simp [storeRam]
  | cons x xs ih =>
    have hlen : address + UInt32.ofNat (xs.length + 1) =
        address + 1 + UInt32.ofNat xs.length := by
      rw [Nat.add_comm, UInt32.ofNat_add, UInt32.add_assoc]
      rfl
    rw [List.cons_append, storeRam, storeRam, ih, List.length_cons, hlen]

end Fx3Ncm.Flash
