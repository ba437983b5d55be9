/-
# Copying and comparing memory

`CyU3PMemCopy` and `CyU3PMemCmp` of `cyfx_tx.c`, and the `memcmp` that `main.c` provides for the
network stack.  The loops are as in the source, eight bytes at a time and then
byte by byte.

`CyU3PMemCopy` is documented as the equivalent of `memcpy`, but it chooses its direction by the
order of the two blocks: `mem_copy_eq` says that it moves a block, also onto a part of itself.
-/
import Fx3Ncm.Lib.Memory

namespace Fx3Ncm

open ByteMemory

/-! ### The model -/

/-- The assignment `*dest = *src` of one byte. -/
def assign (m : Mem) (dest src : ℕ) : Mem := store m dest [m src]

/-- The assignments `dest[i] = src[i]` of an unrolled loop, for the indices in their order. -/
def assigns (m : Mem) (dest src : ℕ) (is : List ℕ) : Mem :=
  is.foldl (fun m i => assign m (dest + i) (src + i)) m

/-- Upwards, byte by byte. -/
def copyUpBytes (m : Mem) (dest src : ℕ) : ℕ → Mem
  | 0 => m
  | count + 1 => copyUpBytes (assign m dest src) (dest + 1) (src + 1) count

/-- Upwards, eight bytes at a time, and then byte by byte. -/
def copyUp (m : Mem) (dest src count : ℕ) : Mem :=
  if 8 ≤ count then
    copyUp (assigns m dest src [0, 1, 2, 3, 4, 5, 6, 7]) (dest + 8) (src + 8) (count - 8)
  else copyUpBytes m dest src count
termination_by count

/-- Downwards, byte by byte, from pointers to the ends of the blocks. -/
def copyDownBytes (m : Mem) (dest src : ℕ) : ℕ → Mem
  | 0 => m
  | count + 1 => copyDownBytes (assign m (dest - 1) (src - 1)) (dest - 1) (src - 1) count

/-- Downwards, eight bytes at a time, and then byte by byte. -/
def copyDown (m : Mem) (dest src count : ℕ) : Mem :=
  if 8 ≤ count then
    copyDown (assigns m (dest - 8) (src - 8) [7, 6, 5, 4, 3, 2, 1, 0]) (dest - 8) (src - 8)
      (count - 8)
  else copyDownBytes m dest src count
termination_by count

/-- `CyU3PMemCopy` -/
def cyU3PMemCopy (m : Mem) (dest src count : ℕ) : Mem :=
  if src < dest then copyDown m (dest + count) (src + count) count else copyUp m dest src count

/-- `CyU3PMemCmp` -/
def cyU3PMemCmp (m : Mem) (s1 s2 : ℕ) : ℕ → ℤ
  | 0 => 0
  | n + 1 =>
    if m s1 ≠ m s2 then ((m s1).toNat : ℤ) - (m s2).toNat else cyU3PMemCmp m (s1 + 1) (s2 + 1) n

/-- The loop of `memcmp`: `n`, `l` and `r` when it is left. -/
def memcmpLoop (m : Mem) (l r : ℕ) : ℕ → ℕ × ℕ × ℕ
  | 0 => (0, l, r)
  | n + 1 => if m l = m r then memcmpLoop m (l + 1) (r + 1) n else (n + 1, l, r)

/-- `memcmp` -/
def memcmp (m : Mem) (vl vr n : ℕ) : ℤ :=
  match memcmpLoop m vl vr n with
  | (n, l, r) => if n ≠ 0 then ((m l).toNat : ℤ) - (m r).toNat else 0

/-! ### Copying -/

/-- Stores to two ranges, one behind the other. -/
lemma store_store_of_le (m : Mem) {o o' : ℕ} {bs bs' : List UInt8} (h : o + bs.length ≤ o') :
    store (store m o' bs') o bs = store (store m o bs) o' bs' := by
  ext p
  by_cases h₁ : p < o'
  · rw [store_apply_of_lt _ _ h₁]
    by_cases h₂ : p < o
    · rw [store_apply_of_lt _ _ h₂, store_apply_of_lt _ _ h₁, store_apply_of_lt _ _ h₂]
    · simp only [store, if_pos (show o ≤ p by omega), if_neg (show ¬ o' ≤ p by omega)]
  · rw [store_apply_of_ge _ (show o + bs.length ≤ p by omega)]
    simp only [store, if_pos (show o' ≤ p by omega), if_pos (show o ≤ p by omega),
      List.getElem?_eq_none (show bs.length ≤ p - o by omega), Option.getD_none]

lemma load_succ (m : Mem) (o n : ℕ) : load m o (n + 1) = m o :: load m (o + 1) n := by
  rw [Nat.add_comm, load_add]
  rfl

lemma load_succ_last (m : Mem) (o n : ℕ) : load m o (n + 1) = load m o n ++ [m (o + n)] := by
  rw [load_add]
  rfl

/-- Copying upwards does not overwrite what is still to be copied if the destination is not above
the source. -/
lemma copyUpBytes_eq (m : Mem) {dest src : ℕ} (h : dest ≤ src) (n : ℕ) :
    copyUpBytes m dest src n = store m dest (load m src n) := by
  induction n generalizing m dest src with
  | zero => exact (store_nil m dest).symm
  | succ n ih =>
    have hload : load (assign m dest src) (src + 1) n = load m (src + 1) n :=
      load_store_of_disjoint m (.inr (by simpa using h))
    rw [copyUpBytes, ih (assign m dest src) (by omega), hload, load_succ,
      ← List.singleton_append, store_append]
    rfl

lemma copyUp_eq (m : Mem) {dest src : ℕ} (h : dest ≤ src) (count : ℕ) :
    copyUp m dest src count = store m dest (load m src count) := by
  induction count using Nat.strong_induction_on generalizing m dest src with
  | _ count ih =>
    rw [copyUp]
    split_ifs with h8
    · have hunroll : assigns m dest src [0, 1, 2, 3, 4, 5, 6, 7] = store m dest (load m src 8) :=
        copyUpBytes_eq m h 8
      have hload : load (store m dest (load m src 8)) (src + 8) (count - 8) =
          load m (src + 8) (count - 8) :=
        load_store_of_disjoint m (.inr (by simpa using h))
      have hcount : load m src count = load m src 8 ++ load m (src + 8) (count - 8) := by
        rw [← load_add, Nat.add_sub_cancel' h8]
      rw [hunroll, ih (count - 8) (by omega) _ (by omega), hload, hcount, store_append, length_load]
    · exact copyUpBytes_eq m h count

/-- Copying downwards does not overwrite what is still to be copied if the source is not above the
destination. -/
lemma copyDownBytes_eq (m : Mem) {dest src : ℕ} (h : src ≤ dest) (n : ℕ) :
    copyDownBytes m (dest + n) (src + n) n = store m dest (load m src n) := by
  induction n generalizing m with
  | zero => exact (store_nil m dest).symm
  | succ n ih =>
    have hload : load (assign m (dest + n) (src + n)) src n = load m src n :=
      load_store_of_disjoint m (.inl (by omega))
    have hswap : store (assign m (dest + n) (src + n)) dest (load m src n) =
        store (store m dest (load m src n)) (dest + n) [m (src + n)] :=
      store_store_of_le m (by rw [length_load])
    rw [copyDownBytes, Nat.add_succ_sub_one, Nat.add_succ_sub_one, ih, hload, hswap,
      load_succ_last, store_append, length_load]

lemma copyDown_eq (m : Mem) {dest src : ℕ} (h : src ≤ dest) (count : ℕ) :
    copyDown m (dest + count) (src + count) count = store m dest (load m src count) := by
  induction count using Nat.strong_induction_on generalizing m with
  | _ count ih =>
    rw [copyDown]
    split_ifs with h8
    · obtain ⟨n, rfl⟩ := Nat.exists_eq_add_of_le' h8
      have hunroll : assigns m (dest + n) (src + n) [7, 6, 5, 4, 3, 2, 1, 0] =
          store m (dest + n) (load m (src + n) 8) :=
        copyDownBytes_eq m (show src + n ≤ dest + n by omega) 8
      have hload : load (store m (dest + n) (load m (src + n) 8)) src n = load m src n :=
        load_store_of_disjoint m (.inl (by omega))
      have hswap : store (store m (dest + n) (load m (src + n) 8)) dest (load m src n) =
          store (store m dest (load m src n)) (dest + n) (load m (src + n) 8) :=
        store_store_of_le m (by rw [length_load])
      rw [← Nat.add_assoc, ← Nat.add_assoc, Nat.add_sub_cancel, Nat.add_sub_cancel,
        Nat.add_sub_cancel, hunroll, ih n (by omega), hload, hswap, load_add, store_append,
        length_load]
    · exact copyDownBytes_eq m h count

/-- `CyU3PMemCopy` moves a block: the destination becomes what the source was before the call,
however the two overlap, and nothing else changes. -/
theorem mem_copy_eq (m : Mem) (dest src count : ℕ) :
    cyU3PMemCopy m dest src count = store m dest (load m src count) := by
  rw [cyU3PMemCopy]
  split_ifs with h
  · exact copyDown_eq m (Nat.le_of_lt h) count
  · exact copyUp_eq m (Nat.le_of_not_lt h) count

/-! ### Comparing -/

/-- The two comparisons are the same function. -/
lemma memcmp_eq (m : Mem) (s1 s2 n : ℕ) : memcmp m s1 s2 n = cyU3PMemCmp m s1 s2 n := by
  induction n generalizing s1 s2 with
  | zero => rfl
  | succ n ih =>
    rw [cyU3PMemCmp, memcmp, memcmpLoop]
    by_cases h : m s1 = m s2
    · rw [if_pos h, if_neg (not_not.2 h), ← ih]
      rfl
    · rw [if_neg h, if_pos h]
      rfl

lemma toNat_sub_eq_zero {a b : UInt8} : ((a.toNat : ℤ) - b.toNat = 0) ↔ a = b := by
  rw [sub_eq_zero, Nat.cast_inj, UInt8.toNat_inj]

lemma toNat_sub_neg {a b : UInt8} : ((a.toNat : ℤ) - b.toNat < 0) ↔ a < b := by
  rw [sub_neg, Nat.cast_lt, UInt8.lt_iff_toNat_lt]

/-- `CyU3PMemCmp` and `memcmp` compare two blocks in lexicographic order: the result is zero if they
are equal, and negative if the first one comes before the second one. -/
theorem mem_cmp_lex (m : Mem) (s1 s2 n : ℕ) :
    memcmp m s1 s2 n = cyU3PMemCmp m s1 s2 n ∧
      (cyU3PMemCmp m s1 s2 n = 0 ↔ load m s1 n = load m s2 n) ∧
      (cyU3PMemCmp m s1 s2 n < 0 ↔ load m s1 n < load m s2 n) := by
  refine ⟨memcmp_eq m s1 s2 n, ?_⟩
  induction n generalizing s1 s2 with
  | zero => exact ⟨by simp [cyU3PMemCmp, load], by simp [cyU3PMemCmp, load]⟩
  | succ n ih =>
    rw [cyU3PMemCmp, load_succ, load_succ, List.cons_lt_cons_iff, List.cons_eq_cons]
    split_ifs with h
    · exact ⟨by rw [toNat_sub_eq_zero]; simp [h], by rw [toNat_sub_neg]; simp [h]⟩
    · rw [not_not] at h
      obtain ⟨hzero, hneg⟩ := ih (s1 + 1) (s2 + 1)
      rw [hzero, hneg]
      exact ⟨by simp [h], by simp [h]⟩

end Fx3Ncm
