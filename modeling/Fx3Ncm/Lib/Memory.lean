/-
# Byte memories

A memory is a total function from byte offsets to bytes.  Everything that is read
or written goes through two operations on ranges: `load m o n` is the list of the
`n` bytes from offset `o` on, and `store m o bs` replaces the bytes from offset `o`
on by `bs`.  Integers are stored little-endian, in a fixed number of bytes, and a
value that does not fit is truncated.

The lemmas below are all that proofs about memories need: a load of what was just
stored, and a load from a range that a store does not touch.
-/
import Mathlib.Data.List.Basic
import Mathlib.Data.List.Range
import Mathlib.Tactic.Ring

namespace ByteMemory

/-- A memory, as seen from some base address. -/
abbrev Mem := ℕ → UInt8

/-- The `n` bytes from offset `o` on. -/
def load (m : Mem) (o n : ℕ) : List UInt8 := (List.range n).map fun j => m (o + j)

/-- The memory after writing the bytes `bs` from offset `o` on. -/
def store (m : Mem) (o : ℕ) (bs : List UInt8) : Mem :=
  fun p => if o ≤ p then (bs[p - o]?).getD (m p) else m p

/-! ### Ranges -/

@[simp] lemma length_load (m : Mem) (o n : ℕ) : (load m o n).length = n := by
  simp [load]

/-- A load depends only on the bytes of its range. -/
lemma load_congr {m m' : Mem} {o n : ℕ} (h : ∀ p, o ≤ p → p < o + n → m p = m' p) :
    load m o n = load m' o n := by
  apply List.map_congr_left
  intro j hj
  exact h (o + j) (by omega) (by have := List.mem_range.1 hj; omega)

lemma store_apply_of_lt (m : Mem) {o p : ℕ} (bs : List UInt8) (h : p < o) :
    store m o bs p = m p := by
  simp [store, show ¬ o ≤ p by omega]

lemma store_apply_of_ge (m : Mem) {o p : ℕ} {bs : List UInt8} (h : o + bs.length ≤ p) :
    store m o bs p = m p := by
  simp [store, List.getElem?_eq_none (show bs.length ≤ p - o by omega)]

/-- A store does not change the bytes outside its range. -/
lemma store_apply_of_disjoint (m : Mem) {o p : ℕ} {bs : List UInt8}
    (h : p < o ∨ o + bs.length ≤ p) : store m o bs p = m p := by
  rcases h with h | h
  · exact store_apply_of_lt m bs h
  · exact store_apply_of_ge m h

/-- What was stored is loaded again. -/
@[simp] lemma load_store_self (m : Mem) (o : ℕ) (bs : List UInt8) :
    load (store m o bs) o bs.length = bs := by
  apply List.ext_getElem
  · simp
  · intro j h₁ h₂
    have hj : (bs[j]?).getD (m (o + j)) = bs[j] := by
      rw [List.getElem?_eq_getElem h₂, Option.getD_some]
    simpa [load, store] using hj

/-- A load from a range that the store does not touch. -/
lemma load_store_of_disjoint (m : Mem) {o o' n : ℕ} {bs : List UInt8}
    (h : o + n ≤ o' ∨ o' + bs.length ≤ o) : load (store m o' bs) o n = load m o n := by
  apply load_congr
  intro p h₁ h₂
  exact store_apply_of_disjoint m (by omega)

/-- A load from inside the stored range. -/
lemma load_store_inside (m : Mem) {o o' n : ℕ} {bs : List UInt8}
    (h₁ : o' ≤ o) (h₂ : o + n ≤ o' + bs.length) :
    load (store m o' bs) o n = (bs.drop (o - o')).take n := by
  apply List.ext_getElem
  · simp; omega
  · intro j hj₁ hj₂
    have hj : j < n := by simpa using hj₁
    have hlt : o - o' + j < bs.length := by omega
    have hget : (bs[o - o' + j]?).getD (m (o + j)) = bs[o - o' + j] := by
      rw [List.getElem?_eq_getElem hlt, Option.getD_some]
    simpa [load, store, show o' ≤ o + j by omega,
      show o + j - o' = o - o' + j by omega] using hget

/-- A range is loaded in two parts. -/
lemma load_add (m : Mem) (o a b : ℕ) : load m o (a + b) = load m o a ++ load m (o + a) b := by
  simp [load, List.range_add, Nat.add_assoc]

/-- A part of a range that has been loaded. -/
lemma take_drop_load (m : Mem) {o n a b : ℕ} (h : a + b ≤ n) :
    ((load m o n).drop a).take b = load m (o + a) b := by
  rw [← Nat.add_sub_cancel' h, load_add, load_add, List.append_assoc,
    List.drop_left' (length_load m o a), List.take_left' (length_load m (o + a) b)]

@[simp] lemma store_nil (m : Mem) (o : ℕ) : store m o [] = m := by
  funext p
  simp [store]

/-- Bytes are stored in two parts. -/
lemma store_append (m : Mem) (o : ℕ) (xs ys : List UInt8) :
    store m o (xs ++ ys) = store (store m o xs) (o + xs.length) ys := by
  funext p
  by_cases h₁ : p < o
  · rw [store_apply_of_lt m _ h₁, store_apply_of_lt _ _ (by omega), store_apply_of_lt m _ h₁]
  · by_cases h₂ : p < o + xs.length
    · rw [store_apply_of_lt _ _ h₂]
      simp [store, show o ≤ p by omega, List.getElem?_append_left (show p - o < xs.length by omega)]
    · have h₃ : xs.length ≤ p - o := by omega
      simp [store, show o ≤ p by omega, show o + xs.length ≤ p by omega,
        List.getElem?_append_right h₃, List.getElem?_eq_none h₃, Nat.sub_sub]

/-! ### Little-endian integers -/

/-- The value of a list of bytes, least significant byte first. -/
def leNat : List UInt8 → ℕ
  | [] => 0
  | b :: bs => b.toNat + 256 * leNat bs

/-- The `w` least significant bytes of `v`, least significant byte first. -/
def leBytes : ℕ → ℕ → List UInt8
  | 0, _ => []
  | w + 1, v => UInt8.ofNat v :: leBytes w (v / 256)

@[simp] lemma length_leBytes (w v : ℕ) : (leBytes w v).length = w := by
  induction w generalizing v with
  | zero => rfl
  | succ w ih => simp [leBytes, ih]

lemma leNat_lt (bs : List UInt8) : leNat bs < 256 ^ bs.length := by
  induction bs with
  | nil => simp [leNat]
  | cons b bs ih =>
    have hb := b.toNat_lt
    simp only [leNat, List.length_cons, pow_succ]
    omega

/-- Encoding truncates to the width, and decoding gives the truncated value back. -/
lemma leNat_leBytes (w v : ℕ) : leNat (leBytes w v) = v % 256 ^ w := by
  induction w generalizing v with
  | zero => simp [leBytes, leNat, Nat.mod_one]
  | succ w ih =>
    have hlow : (UInt8.ofNat v).toNat = v % 256 := by simp
    rw [leBytes, leNat, ih, hlow, Nat.pow_succ, Nat.mul_comm (256 ^ w), Nat.mod_mul]

lemma leNat_replicate_zero (w : ℕ) : leNat (List.replicate w 0) = 0 := by
  induction w with
  | zero => rfl
  | succ w ih => simp [List.replicate_succ, leNat, ih]

/-- The 16-bit integer at offset `o`. -/
def read16 (m : Mem) (o : ℕ) : ℕ := leNat (load m o 2)

/-- The 32-bit integer at offset `o`. -/
def read32 (m : Mem) (o : ℕ) : ℕ := leNat (load m o 4)

/-- Store a 16-bit integer at offset `o`. -/
def write16 (m : Mem) (o v : ℕ) : Mem := store m o (leBytes 2 v)

/-- Store a 32-bit integer at offset `o`. -/
def write32 (m : Mem) (o v : ℕ) : Mem := store m o (leBytes 4 v)

lemma read16_lt (m : Mem) (o : ℕ) : read16 m o < 65536 := by
  simpa [read16] using leNat_lt (load m o 2)

@[simp] lemma read16_write16_self (m : Mem) (o v : ℕ) :
    read16 (write16 m o v) o = v % 65536 := by
  have h := load_store_self m o (leBytes 2 v)
  rw [length_leBytes] at h
  rw [read16, write16, h, leNat_leBytes]
  norm_num

@[simp] lemma read32_write32_self (m : Mem) (o v : ℕ) :
    read32 (write32 m o v) o = v % 4294967296 := by
  have h := load_store_self m o (leBytes 4 v)
  rw [length_leBytes] at h
  rw [read32, write32, h, leNat_leBytes]
  norm_num

/-- Integers outside the range of a store are unchanged. -/
lemma read16_store_of_disjoint (m : Mem) {o o' : ℕ} {bs : List UInt8}
    (h : o + 2 ≤ o' ∨ o' + bs.length ≤ o) : read16 (store m o' bs) o = read16 m o := by
  rw [read16, read16, load_store_of_disjoint m h]

lemma read32_store_of_disjoint (m : Mem) {o o' : ℕ} {bs : List UInt8}
    (h : o + 4 ≤ o' ∨ o' + bs.length ≤ o) : read32 (store m o' bs) o = read32 m o := by
  rw [read32, read32, load_store_of_disjoint m h]

lemma read16_write16_of_disjoint (m : Mem) {o o' v : ℕ} (h : o + 2 ≤ o' ∨ o' + 2 ≤ o) :
    read16 (write16 m o' v) o = read16 m o :=
  read16_store_of_disjoint m (by simpa using h)

lemma read16_write32_of_disjoint (m : Mem) {o o' v : ℕ} (h : o + 2 ≤ o' ∨ o' + 4 ≤ o) :
    read16 (write32 m o' v) o = read16 m o :=
  read16_store_of_disjoint m (by simpa using h)

lemma read32_write16_of_disjoint (m : Mem) {o o' v : ℕ} (h : o + 4 ≤ o' ∨ o' + 2 ≤ o) :
    read32 (write16 m o' v) o = read32 m o :=
  read32_store_of_disjoint m (by simpa using h)

lemma read32_write32_of_disjoint (m : Mem) {o o' v : ℕ} (h : o + 4 ≤ o' ∨ o' + 4 ≤ o) :
    read32 (write32 m o' v) o = read32 m o :=
  read32_store_of_disjoint m (by simpa using h)

lemma load_write16_of_disjoint (m : Mem) {o o' n v : ℕ} (h : o + n ≤ o' ∨ o' + 2 ≤ o) :
    load (write16 m o' v) o n = load m o n :=
  load_store_of_disjoint m (by simpa using h)

/-- An integer inside a zeroed range is zero. -/
lemma read16_store_zero (m : Mem) {o o' n : ℕ} (h₁ : o' ≤ o) (h₂ : o + 2 ≤ o' + n) :
    read16 (store m o' (List.replicate n 0)) o = 0 := by
  rw [read16, load_store_inside m h₁ (by simpa using h₂)]
  rw [List.drop_replicate, List.take_replicate, leNat_replicate_zero]

/-- The integers of two memories agree where their bytes do. -/
lemma read16_congr {m m' : Mem} {o : ℕ} (h : ∀ p, o ≤ p → p < o + 2 → m p = m' p) :
    read16 m o = read16 m' o := by
  rw [read16, read16, load_congr h]

end ByteMemory
