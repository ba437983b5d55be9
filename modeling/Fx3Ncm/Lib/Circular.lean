/-
# Circular logs

A writer stores entries one after the other into `N` slots and begins again at the first slot when
it has filled the last one.  The log is the list of all entries; the slots hold the last `N` of
them, which is an invariant that the structure carries.

A reader follows the writer with a cursor of its own.  `next` moves a cursor to the next slot, and
`gap` is the number of moves from one cursor to another: the measure of a loop that moves a cursor
until it has caught up.
-/
import Mathlib.Data.List.Basic
import Mathlib.Data.Nat.ModEq
import Mathlib.Logic.Function.Basic

/-- The slots of a circular log and all entries that have been logged. -/
structure CircularLog (α : Type*) (N : ℕ) where
  slots : ℕ → α
  log : List α
  /-- The last `N` entries are in their slots. -/
  holds : ∀ i (h : i < log.length), log.length ≤ i + N → slots (i % N) = log[i]

namespace CircularLog

variable {α : Type*} {N : ℕ}

/-- The empty log, with anything in the slots. -/
def empty (slots : ℕ → α) : CircularLog α N where
  slots := slots
  log := []
  holds i h := absurd h (Nat.not_lt_zero i)

/-- Two entries less than a round apart are in different slots. -/
lemma mod_ne_mod {i j : ℕ} (h₁ : i < j) (h₂ : j < i + N) : i % N ≠ j % N := by
  intro h
  have hdvd : N ∣ j - i := (Nat.modEq_iff_dvd' h₁.le).1 h
  have hle := Nat.le_of_dvd (by omega) hdvd
  omega

/-- A position within a round of another one in front of it, in the same slot, is that position. -/
lemma eq_of_mod_eq {i j : ℕ} (h₁ : i ≤ j) (h₂ : j < i + N) (h : i % N = j % N) : i = j := by
  rcases h₁.eq_or_lt with rfl | hlt
  · rfl
  · exact absurd h (mod_ne_mod hlt h₂)

/-- The writer's position: the slot for the next entry. -/
def position (c : CircularLog α N) : ℕ := c.log.length % N

/-- One more entry is logged. -/
def push (c : CircularLog α N) (x : α) : CircularLog α N where
  slots := Function.update c.slots c.position x
  log := c.log ++ [x]
  holds := by
    intro i h hN
    rw [List.length_append, List.length_singleton] at h hN
    rcases Nat.lt_succ_iff_lt_or_eq.1 h with hlt | rfl
    · have hne : i % N ≠ c.position := mod_ne_mod hlt (by omega)
      rw [Function.update_of_ne hne, c.holds i hlt (by omega), List.getElem_append_left hlt]
    · rw [position, Function.update_self, List.getElem_concat_length rfl]

@[simp] lemma log_push (c : CircularLog α N) (x : α) : (c.push x).log = c.log ++ [x] := rfl

/-! ### Cursors -/

/-- The slot after a slot. -/
def next (N i : ℕ) : ℕ := if i + 1 = N then 0 else i + 1

/-- The number of moves from the slot `j` to the slot `i`. -/
def gap (N i j : ℕ) : ℕ := if j ≤ i then i - j else i + N - j

lemma next_lt {i : ℕ} (h : i < N) : next N i < N := by
  rw [next]
  split_ifs <;> omega

lemma next_mod (hN : 0 < N) (i : ℕ) : next N (i % N) = (i + 1) % N := by
  have hlt := Nat.mod_lt i hN
  have hmod : (i + 1) % N = (i % N + 1) % N := (Nat.mod_add_mod i N 1).symm
  rw [next, hmod]
  split_ifs with h
  · rw [h, Nat.mod_self]
  · exact (Nat.mod_eq_of_lt (by omega)).symm

lemma gap_lt {i j : ℕ} (hi : i < N) (hj : j < N) : gap N i j < N := by
  rw [gap]
  split_ifs <;> omega

/-- A move brings the cursor closer. -/
lemma gap_next {i j : ℕ} (hi : i < N) (hj : j < N) (h : j ≠ i) :
    gap N i (next N j) + 1 = gap N i j := by
  rw [gap, gap, next]
  split_ifs <;> omega

end CircularLog
