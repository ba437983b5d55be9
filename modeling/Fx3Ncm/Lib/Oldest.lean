/-
# A sweep that remembers the oldest candidate

A loop walks over a list and remembers, among the elements that satisfy a condition, one of
greatest age.  It compares with `≥`, starting from age `0`, so of several oldest elements it ends
with the last one, and it ends with none only if there is no candidate at all.

`Holds p age l best` says that `best` is what such a loop remembers after the list `l`; the list
grows at its end, as in the loop.
-/
import Mathlib.Data.List.Basic

namespace Oldest

variable {α : Type*}

/-- What a loop remembers: a candidate, if it has seen one, and its age. -/
abbrev Best (α : Type*) := Option α × ℕ

/-- A candidate is seen. -/
def see (age : α → ℕ) (best : Best α) (x : α) : Best α :=
  if best.2 ≤ age x then (some x, age x) else best

/-- Of the elements of `l` that satisfy `p`, `x` is the oldest, and the last one of that age. -/
structure IsOldest (p : α → Prop) (age : α → ℕ) (l : List α) (x : α) : Prop where
  holds : p x
  le : ∀ y ∈ l, p y → age y ≤ age x
  last : ∃ l₁ l₂, l = l₁ ++ x :: l₂ ∧ ∀ y ∈ l₂, p y → age y < age x

/-- `best` is what is remembered of `l`. -/
inductive Holds (p : α → Prop) (age : α → ℕ) (l : List α) : Best α → Prop
  | nothing (h : ∀ y ∈ l, ¬ p y) : Holds p age l (none, 0)
  | just {x : α} (h : IsOldest p age l x) : Holds p age l (some x, age x)

variable {p : α → Prop} {age : α → ℕ} {l : List α} {best : Best α} {x : α}

/-- An element that is no candidate changes nothing. -/
lemma IsOldest.skip (h : IsOldest p age l x) {y : α} (hy : p y → age y < age x) :
    IsOldest p age (l ++ [y]) x := by
  refine ⟨h.holds, ?_, ?_⟩
  · intro z hz hpz
    rcases List.mem_append.1 hz with hz | hz
    · exact h.le z hz hpz
    · obtain rfl := List.mem_singleton.1 hz
      exact Nat.le_of_lt (hy hpz)
  · obtain ⟨l₁, l₂, rfl, hlt⟩ := h.last
    refine ⟨l₁, l₂ ++ [y], by simp, ?_⟩
    intro z hz hpz
    rcases List.mem_append.1 hz with hz | hz
    · exact hlt z hz hpz
    · obtain rfl := List.mem_singleton.1 hz
      exact hy hpz

lemma isOldest_concat (hx : p x) (hle : ∀ y ∈ l, p y → age y ≤ age x) :
    IsOldest p age (l ++ [x]) x := by
  refine ⟨hx, ?_, l, [], rfl, by simp⟩
  intro y hy hpy
  rcases List.mem_append.1 hy with hy | hy
  · exact hle y hy hpy
  · obtain rfl := List.mem_singleton.1 hy
    exact Nat.le_refl _

@[simp] lemma holds_nil : Holds p age [] (none, 0) := .nothing (by simp)

lemma Holds.skip (h : Holds p age l best) (hx : ¬ p x) : Holds p age (l ++ [x]) best := by
  cases h with
  | nothing h =>
    refine .nothing fun y hy => ?_
    rcases List.mem_append.1 hy with hy | hy
    · exact h y hy
    · obtain rfl := List.mem_singleton.1 hy
      exact hx
  | just h => exact .just (h.skip fun hpx => absurd hpx hx)

lemma Holds.see (h : Holds p age l best) (hx : p x) : Holds p age (l ++ [x]) (see age best x) := by
  cases h with
  | nothing h =>
    have hsee : Oldest.see age (none, 0) x = (some x, age x) := if_pos (Nat.zero_le _)
    rw [hsee]
    exact .just (isOldest_concat hx fun y hy hpy => absurd hpy (h y hy))
  | @just z h =>
    by_cases hle : age z ≤ age x
    · have hsee : Oldest.see age (some z, age z) x = (some x, age x) := if_pos hle
      rw [hsee]
      exact .just (isOldest_concat hx fun y hy hpy => Nat.le_trans (h.le y hy hpy) hle)
    · have hsee : Oldest.see age (some z, age z) x = (some z, age z) := if_neg hle
      rw [hsee]
      exact .just (h.skip fun _ => Nat.lt_of_not_le hle)

/-- Nothing is remembered only if there is no candidate. -/
lemma Holds.not_of_none (h : Holds p age l best) (hb : best.1 = none) : ∀ y ∈ l, ¬ p y := by
  cases h with
  | nothing h => exact h
  | just h => cases hb

lemma Holds.isOldest (h : Holds p age l best) (hb : best.1 = some x) : IsOldest p age l x := by
  cases h with
  | nothing h => cases hb
  | just h =>
    obtain rfl := Option.some.inj hb
    exact h

end Oldest
