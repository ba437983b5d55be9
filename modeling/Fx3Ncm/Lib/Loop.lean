/-
# Loops that may run on

A loop is a step function `step : σ → σ ⊕ ρ`: from a state it goes on to another one, or it
leaves with a result.  `iterate step n s` runs it for at most `n` iterations, and `Ends step s r`
says that it leaves with the result `r` after some number of them.  A loop that does not
terminate has no `r` with `Ends step s r`.

The rules:

* `Ends.rule`: what holds at the start and is kept by every iteration holds when the loop is
  left (partial correctness);
* `exists_ends`: a loop with a variant that decreases in every iteration is left;
* `Ends.settles`: the result of a loop does not depend on the bound on its iterations.

`Visits step s t` says that the loop that starts in `s` gets to `t`.
-/
import Mathlib.Logic.Relation
import Mathlib.Data.Nat.Basic

namespace Loops

variable {σ ρ : Type*} {step : σ → σ ⊕ ρ} {s s' t : σ} {r r' : ρ}

/-- At most `n` iterations of a loop; there is no result if it has not been left by then. -/
def iterate (step : σ → σ ⊕ ρ) : ℕ → σ → Option ρ
  | 0, _ => none
  | n + 1, s =>
    match step s with
    | .inl s' => iterate step n s'
    | .inr r => some r

/-- The loop is left with the result `r`. -/
def Ends (step : σ → σ ⊕ ρ) (s : σ) (r : ρ) : Prop := ∃ n, iterate step n s = some r

/-- The loop that starts in `s` gets to `t`. -/
def Visits (step : σ → σ ⊕ ρ) : σ → σ → Prop :=
  Relation.ReflTransGen fun s s' => step s = .inl s'

lemma iterate_of_inl (h : step s = .inl s') (n : ℕ) :
    iterate step (n + 1) s = iterate step n s' := by
  rw [iterate, h]

lemma iterate_of_inr (h : step s = .inr r) (n : ℕ) : iterate step (n + 1) s = some r := by
  rw [iterate, h]

lemma ends_of_inr (h : step s = .inr r) : Ends step s r := ⟨1, iterate_of_inr h 0⟩

lemma ends_of_inl (h : step s = .inl s') (h' : Ends step s' r) : Ends step s r := by
  obtain ⟨n, hn⟩ := h'
  exact ⟨n + 1, (iterate_of_inl h n).trans hn⟩

/-- More iterations than needed do no harm. -/
lemma iterate_of_le {m n : ℕ} (h : iterate step n s = some r) (hle : n ≤ m) :
    iterate step m s = some r := by
  induction n generalizing m s with
  | zero => cases h
  | succ n ih =>
    obtain ⟨m, rfl⟩ : ∃ k, m = k + 1 := ⟨m - 1, by omega⟩
    cases hc : step s with
    | inl s' =>
      rw [iterate_of_inl hc] at h ⊢
      exact ih h (by omega)
    | inr r' =>
      rw [iterate_of_inr hc] at h ⊢
      exact h

/-- A computation with a bound on its iterations has a result, and it does not depend on the bound
if this is large enough. -/
def Settles {α : Type*} (f : ℕ → Option α) : Prop := ∃ n a, ∀ m, n ≤ m → f m = some a

lemma settles_some {α : Type*} (a : α) : Settles fun _ => some a := ⟨0, a, fun _ _ => rfl⟩

lemma Ends.settles (h : Ends step s r) : Settles fun n => iterate step n s := by
  obtain ⟨n, hn⟩ := h
  exact ⟨n, r, fun m hm => iterate_of_le hn hm⟩

/-- The result of one computation may be used in another one. -/
lemma Settles.bind {α β : Type*} {f : ℕ → Option α} {g : ℕ → α → Option β} (hf : Settles f)
    (hg : ∀ a, Settles fun n => g n a) : Settles fun n => (f n).bind (g n) := by
  obtain ⟨n, a, hn⟩ := hf
  obtain ⟨m, b, hm⟩ := hg a
  refine ⟨max n m, b, fun k hk => ?_⟩
  have hk' : g k a = some b := hm k (by omega)
  simp only [hn k (by omega), Option.bind_some, hk']

lemma Settles.map {α β : Type*} {f : ℕ → Option α} (hf : Settles f) (g : α → β) :
    Settles fun n => (f n).map g := by
  obtain ⟨n, a, hn⟩ := hf
  exact ⟨n, g a, fun k hk => by simp only [hn k hk, Option.map_some]⟩

/-- The rule of partial correctness. -/
lemma Ends.rule {I : σ → Prop} {Q : ρ → Prop} (hstep : ∀ s s', I s → step s = .inl s' → I s')
    (hend : ∀ s r, I s → step s = .inr r → Q r) (hs : I s) (h : Ends step s r) : Q r := by
  obtain ⟨n, hn⟩ := h
  induction n generalizing s with
  | zero => cases hn
  | succ n ih =>
    cases hc : step s with
    | inl s' =>
      rw [iterate_of_inl hc] at hn
      exact ih (hstep s s' hs hc) hn
    | inr r' =>
      rw [iterate_of_inr hc] at hn
      cases hn
      exact hend s r hs hc

lemma Ends.of_inr (h : step s = .inr r') (hr : Ends step s r) : r = r' := by
  obtain ⟨n, hn⟩ := hr
  cases n with
  | zero => cases hn
  | succ n =>
    rw [iterate_of_inr h] at hn
    exact (Option.some.inj hn).symm

/-- The rule of termination: the loop is left if a variant decreases in every iteration. -/
lemma exists_ends {I : σ → Prop} (μ : σ → ℕ)
    (hstep : ∀ s s', I s → step s = .inl s' → I s' ∧ μ s' < μ s) (hs : I s) :
    ∃ r, Ends step s r := by
  induction hn : μ s using Nat.strong_induction_on generalizing s with
  | _ n ih =>
    cases hc : step s with
    | inl s' =>
      obtain ⟨hs', hlt⟩ := hstep s s' hs hc
      obtain ⟨r, hr⟩ := ih (μ s') (hn ▸ hlt) hs' rfl
      exact ⟨r, ends_of_inl hc hr⟩
    | inr r => exact ⟨r, ends_of_inr hc⟩

/-- What holds at the start and is kept by every iteration holds of every state visited. -/
lemma Visits.invariant {I : σ → Prop} (hstep : ∀ s s', I s → step s = .inl s' → I s')
    (hs : I s) (h : Visits step s t) : I t := by
  induction h with
  | refl => exact hs
  | tail _ hc ih => exact hstep _ _ ih hc

/-- A loop is left from every state it visits with the result of the whole. -/
lemma Visits.ends (h : Visits step s t) (hr : Ends step t r) : Ends step s r := by
  induction h using Relation.ReflTransGen.head_induction_on with
  | refl => exact hr
  | head hc _ ih => exact ends_of_inl hc ih

end Loops
