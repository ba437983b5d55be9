/-
# Doubly linked lists

Elements are linked through two maps: `prev x` is the element below `x` in the list and `next x`
the one above it, and `nil` stands for no element.  `Chain nil prev next up xs` says that `xs` is
linked, with `up` above its first element.

* `Chain.push`: an element is put on top of a list;
* `Chain.remove`: an element is taken out, by a change of the element above it and of the one below
  it, wherever in the list it is;
* `Chain.follow_eq`: following `prev` from the first element visits the list.
-/
import Mathlib.Data.List.Basic
import Mathlib.Data.List.Nodup

namespace Linked

variable {α : Type*} {nil : α} {prev next prev' next' : α → α} {up x : α} {xs ys : List α}

/-- The elements are linked in both directions. -/
def Chain (nil : α) (prev next : α → α) : α → List α → Prop
  | _, [] => True
  | up, x :: xs => next x = up ∧ prev x = xs.headD nil ∧ Chain nil prev next x xs

/-- The links of a list are those of its elements. -/
lemma Chain.congr (h : Chain nil prev next up xs) (hprev : ∀ x ∈ xs, prev' x = prev x)
    (hnext : ∀ x ∈ xs, next' x = next x) : Chain nil prev' next' up xs := by
  induction xs generalizing up with
  | nil => trivial
  | cons x xs ih =>
    obtain ⟨h₁, h₂, h₃⟩ := h
    refine ⟨?_, ?_, ?_⟩
    · rw [hnext x List.mem_cons_self, h₁]
    · rw [hprev x List.mem_cons_self, h₂]
    · exact ih h₃ (fun y hy => hprev y (List.mem_cons_of_mem x hy))
        (fun y hy => hnext y (List.mem_cons_of_mem x hy))

lemma headD_mem_or (xs : List α) (nil : α) : xs.headD nil ∈ xs ∨ xs.headD nil = nil := by
  cases xs with
  | nil => exact .inr rfl
  | cons x xs => exact .inl List.mem_cons_self

/-- The element below one in the middle of a list. -/
lemma Chain.prev_eq (h : Chain nil prev next up (xs ++ x :: ys)) : prev x = ys.headD nil := by
  induction xs generalizing up with
  | nil => exact h.2.1
  | cons y xs ih => exact ih h.2.2

/-- The element above one in the middle of a list. -/
lemma Chain.next_mem_or (h : Chain nil prev next up (xs ++ x :: ys)) :
    next x ∈ xs ∨ xs = [] ∧ next x = up := by
  induction xs generalizing up with
  | nil => exact .inr ⟨rfl, h.1⟩
  | cons y xs ih =>
    rcases ih h.2.2 with hmem | ⟨-, heq⟩
    · exact .inl (List.mem_cons_of_mem y hmem)
    · exact .inl (heq ▸ List.mem_cons_self)

variable [DecidableEq α]

/-- The elements that are visited from `x` on along `prev`, at most `n` of them. -/
def follow (nil : α) (prev : α → α) : ℕ → α → List α
  | 0, _ => []
  | n + 1, x => if x = nil then [] else x :: follow nil prev n (prev x)

lemma Chain.follow_eq (h : Chain nil prev next up xs) (hnil : nil ∉ xs) {n : ℕ}
    (hn : xs.length ≤ n) : follow nil prev n (xs.headD nil) = xs := by
  induction xs generalizing up n with
  | nil => cases n <;> simp [follow]
  | cons x xs ih =>
    obtain ⟨-, h₂, h₃⟩ := h
    rw [List.mem_cons, not_or] at hnil
    cases n with
    | zero => simp at hn
    | succ n =>
      rw [List.headD_cons, follow, if_neg (Ne.symm hnil.1), h₂,
        ih h₃ hnil.2 (Nat.le_of_succ_le_succ hn)]

/-- A new element on top of a list: it is linked to the element that was on top. -/
lemma Chain.push (h : Chain nil prev next nil xs) (hnd : xs.Nodup)
    (hprev : ∀ y ∈ xs, prev' y = prev y)
    (hnext : ∀ y ∈ xs, next' y = if y = xs.headD nil then x else next y)
    (hx₁ : prev' x = xs.headD nil) (hx₂ : next' x = nil) :
    Chain nil prev' next' nil (x :: xs) := by
  refine ⟨hx₂, hx₁, ?_⟩
  cases xs with
  | nil => trivial
  | cons y ys =>
    obtain ⟨-, h₂, h₃⟩ := h
    obtain ⟨hy, -⟩ := List.nodup_cons.1 hnd
    refine ⟨?_, ?_, ?_⟩
    · rw [hnext y List.mem_cons_self, List.headD_cons, if_pos rfl]
    · rw [hprev y List.mem_cons_self, h₂]
    · refine h₃.congr (fun z hz => hprev z (List.mem_cons_of_mem y hz)) fun z hz => ?_
      have hne : z ≠ y := fun heq => hy (heq ▸ hz)
      rw [hnext z (List.mem_cons_of_mem y hz), List.headD_cons, if_neg hne]

/-- An element is taken out: the element above it and the one below it are linked to each other. -/
lemma Chain.remove (h : Chain nil prev next up (xs ++ x :: ys)) (hnd : (xs ++ x :: ys).Nodup)
    (hnil : nil ∉ xs ++ x :: ys) (hup : up ∉ xs ++ x :: ys)
    (hprev : ∀ y ∈ xs ++ ys, prev' y = if y = next x then prev x else prev y)
    (hnext : ∀ y ∈ xs ++ ys, next' y = if y = prev x then next x else next y) :
    Chain nil prev' next' up (xs ++ ys) := by
  -- along the elements above `x`; each is the `up` of the next one
  induction xs generalizing up with
  | nil =>
    obtain ⟨hn, hp, hch⟩ := h
    cases ys with
    | nil => trivial
    | cons y ys =>
      obtain ⟨-, h₂, h₃⟩ := hch
      obtain ⟨-, hnd⟩ := List.nodup_cons.1 hnd
      obtain ⟨hy, -⟩ := List.nodup_cons.1 hnd
      have hne : ∀ z ∈ y :: ys, z ≠ next x := by
        rintro z hz rfl
        exact hup (hn ▸ List.mem_cons_of_mem x hz)
      refine ⟨?_, ?_, ?_⟩
      · rw [hnext y List.mem_cons_self, hp, List.headD_cons, if_pos rfl, hn]
      · rw [hprev y List.mem_cons_self, if_neg (hne y List.mem_cons_self), h₂]
      · refine h₃.congr (fun z hz => ?_) fun z hz => ?_
        · rw [hprev z (List.mem_cons_of_mem y hz), if_neg (hne z (List.mem_cons_of_mem y hz))]
        · have hzy : z ≠ y := fun heq => hy (heq ▸ hz)
          rw [hnext z (List.mem_cons_of_mem y hz), hp, List.headD_cons, if_neg hzy]
  | cons a xs ih =>
    obtain ⟨h₁, h₂, h₃⟩ := h
    have hpx := h₃.prev_eq
    have hnx := h₃.next_mem_or
    rw [List.cons_append] at hnd hnil hup
    obtain ⟨ha, hnd'⟩ := List.nodup_cons.1 hnd
    rw [List.mem_cons, not_or] at hnil hup
    have hap : a ≠ prev x := by
      intro heq
      rcases headD_mem_or ys nil with hmem | hnil'
      · exact ha (heq ▸ hpx ▸ List.mem_append_right xs (List.mem_cons_of_mem x hmem))
      · exact hnil.1 (heq.trans (hpx.trans hnil')).symm
    refine ⟨?_, ?_, ?_⟩
    · rw [hnext a List.mem_cons_self, if_neg hap, h₁]
    · rw [hprev a List.mem_cons_self]
      rcases hnx with hmem | ⟨rfl, heq⟩
      · have hax : a ≠ next x := fun heq => ha (heq ▸ List.mem_append_left _ hmem)
        rw [if_neg hax, h₂]
        cases xs with
        | nil => cases hmem
        | cons b xs => rfl
      · rw [if_pos heq.symm, hpx]
        rfl
    · exact ih h₃ hnd' hnil.2 ha (fun y hy => hprev y (List.mem_cons_of_mem a hy))
        (fun y hy => hnext y (List.mem_cons_of_mem a hy))

end Linked
