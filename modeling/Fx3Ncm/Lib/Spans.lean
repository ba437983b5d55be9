/-
# Ranges cut into spans

`spans k o n` cuts the range of `n` bytes from offset `o` on into spans of at most `k` bytes, as
a loop does that handles a long range piece by piece.  A span is its offset and its size.

The spans cover the range: every byte is in one of them, they list the range in order, and storing
them one after the other stores the range.
-/
import Fx3Ncm.Lib.Memory

namespace ByteMemory

/-- The spans of a range. -/
def spans (k o n : ℕ) : List (ℕ × ℕ) :=
  if 0 < n ∧ 0 < k then (o, min n k) :: spans k (o + min n k) (n - min n k) else []
termination_by n
decreasing_by omega

variable {k : ℕ}

@[simp] lemma spans_zero (k o : ℕ) : spans k o 0 = [] := by
  rw [spans]
  simp

lemma spans_of_pos (hk : 0 < k) {n : ℕ} (hn : 0 < n) (o : ℕ) :
    spans k o n = (o, min n k) :: spans k (o + min n k) (n - min n k) := by
  rw [spans, if_pos ⟨hn, hk⟩]

/-- A span is not empty, is not longer than `k` and lies inside the range. -/
lemma mem_spans {o n : ℕ} {s : ℕ × ℕ} (h : s ∈ spans k o n) :
    0 < s.2 ∧ s.2 ≤ k ∧ o ≤ s.1 ∧ s.1 + s.2 ≤ o + n := by
  fun_induction spans k o n with
  | case1 o n hpos ih =>
    rcases List.mem_cons.1 h with rfl | h
    · simp only
      omega
    · have h' := ih h
      omega
  | case2 => exact absurd h List.not_mem_nil

/-- Every byte of the range is in a span. -/
lemma exists_mem_spans (hk : 0 < k) {o n p : ℕ} (h₁ : o ≤ p) (h₂ : p < o + n) :
    ∃ s ∈ spans k o n, s.1 ≤ p ∧ p < s.1 + s.2 := by
  fun_induction spans k o n with
  | case1 o n hpos ih =>
    by_cases hp : p < o + min n k
    · exact ⟨_, List.mem_cons_self, h₁, hp⟩
    · obtain ⟨s, hs, hs'⟩ := ih (by omega) (by omega)
      exact ⟨s, List.mem_cons_of_mem _ hs, hs'⟩
  | case2 o n hpos => omega

/-- The spans begin at multiples of their size. -/
lemma dvd_of_mem_spans {o n : ℕ} {s : ℕ × ℕ} (ho : k ∣ o) (h : s ∈ spans k o n) : k ∣ s.1 := by
  fun_induction spans k o n with
  | case1 o n hpos ih =>
    rcases List.mem_cons.1 h with rfl | h
    · exact ho
    · -- only the last span may be short
      rcases Nat.lt_or_ge n k with hlt | hge
      · rw [Nat.min_eq_left hlt.le, Nat.sub_self, spans_zero] at h
        exact absurd h List.not_mem_nil
      · rw [Nat.min_eq_right hge] at h ih
        exact ih ((Nat.dvd_add_right ho).2 dvd_rfl) h
  | case2 => exact absurd h List.not_mem_nil

/-- Span by span, all bytes of the range, each of them once and in order. -/
lemma flatMap_spans {α : Type*} (hk : 0 < k) (f : ℕ → α) (o n : ℕ) :
    ((spans k o n).flatMap fun s => (List.range s.2).map fun i => f (s.1 + i)) =
      (List.range n).map fun i => f (o + i) := by
  fun_induction spans k o n with
  | case1 o n hpos ih =>
    have hn : min n k + (n - min n k) = n := by omega
    rw [List.flatMap_cons, ih]
    conv_rhs => rw [← hn, List.range_add, List.map_append, List.map_map]
    simp only [Function.comp_def, Nat.add_assoc]
  | case2 o n hpos =>
    obtain rfl : n = 0 := by omega
    rfl

/-- Spans stored one after the other. -/
lemma foldl_store_spans (hk : 0 < k) (src m : Mem) (a b o n : ℕ) :
    (spans k o n).foldl (fun m s => store m (a + s.1) (load src (b + s.1) s.2)) m =
      store m (a + o) (load src (b + o) n) := by
  fun_induction spans k o n generalizing m with
  | case1 o n hpos ih =>
    have hn : min n k + (n - min n k) = n := by omega
    rw [List.foldl_cons, ih]
    conv_rhs => rw [← hn, load_add, store_append, length_load]
    rw [Nat.add_assoc, Nat.add_assoc]
  | case2 o n hpos =>
    obtain rfl : n = 0 := by omega
    exact (store_nil m (a + o)).symm

end ByteMemory
