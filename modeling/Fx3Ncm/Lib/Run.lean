/-
# Runs of a deterministic machine under a step condition

A machine is a step function `step : σ → ε → σ`.  A run is a list of inputs.  The
environment's promises are a relation between the state before a step and the input
of that step: `Along step G s es` says that every step of the run `es` from `s`
satisfies `G`.  A few rules carry all proofs about runs:

* `run_invariant`: what every allowed step preserves holds at the end of every
  allowed run, that is, in every reachable state;
* `Along.of_invariant`: what holds of every allowed step from a state of the invariant
  holds along every run;
* `along_iff_along`: two properties of single steps that agree in the states of an
  invariant agree along every allowed run;
* `always_iff_along`: a property of states holds throughout a run if it holds at the
  start and after every step;
* `exists_prefix_of_measure`: if some inputs lower a measure and the others do not raise it,
  then a run with enough of them comes to where the measure leads.
-/
import Mathlib.Data.List.Basic

namespace Runs

variable {σ ε : Type*} {step : σ → ε → σ}

/-- The state at the end of a run. -/
def run (step : σ → ε → σ) (s : σ) (es : List ε) : σ := es.foldl step s

/-- Every step of the run satisfies `G`, a relation between the state before the step
and the input. -/
def Along (step : σ → ε → σ) (G : σ → ε → Prop) : σ → List ε → Prop
  | _, [] => True
  | s, e :: es => G s e ∧ Along step G (step s e) es

/-- Every state of the run, the first and the last included, satisfies `P`. -/
def Always (step : σ → ε → σ) (P : σ → Prop) : σ → List ε → Prop
  | s, [] => P s
  | s, e :: es => P s ∧ Always step P (step s e) es

/-- The states at the ends of the runs from `s` whose steps all satisfy `G`. -/
def Reachable (step : σ → ε → σ) (G : σ → ε → Prop) (s t : σ) : Prop :=
  ∃ es, Along step G s es ∧ run step s es = t

@[simp] lemma run_nil (s : σ) : run step s [] = s := rfl

@[simp] lemma run_cons (s : σ) (e : ε) (es : List ε) :
    run step s (e :: es) = run step (step s e) es := rfl

lemma run_append (s : σ) (es es' : List ε) :
    run step s (es ++ es') = run step (run step s es) es' :=
  List.foldl_append

@[simp] lemma along_nil (G : σ → ε → Prop) (s : σ) : Along step G s [] := trivial

@[simp] lemma along_cons (G : σ → ε → Prop) (s : σ) (e : ε) (es : List ε) :
    Along step G s (e :: es) ↔ G s e ∧ Along step G (step s e) es := Iff.rfl

lemma Along.of_forall {G : σ → ε → Prop} (h : ∀ s e, G s e) {s : σ} {es : List ε} :
    Along step G s es := by
  induction es generalizing s with
  | nil => trivial
  | cons e es ih => exact ⟨h s e, ih⟩

lemma along_iff_forall_mem {C : ε → Prop} {s : σ} {es : List ε} :
    Along step (fun _ e => C e) s es ↔ ∀ e ∈ es, C e := by
  induction es generalizing s with
  | nil => simp
  | cons e es ih => simp [ih]

lemma along_append {G : σ → ε → Prop} {s : σ} {es es' : List ε} :
    Along step G s (es ++ es') ↔ Along step G s es ∧ Along step G (run step s es) es' := by
  induction es generalizing s with
  | nil => simp
  | cons e es ih => simp [ih, and_assoc]

lemma along_and {G G' : σ → ε → Prop} {s : σ} {es : List ε} :
    Along step (fun s e => G s e ∧ G' s e) s es ↔ Along step G s es ∧ Along step G' s es := by
  induction es generalizing s with
  | nil => simp
  | cons e es ih => simp [ih, and_and_and_comm]

/-- The invariant rule. -/
lemma run_invariant {G : σ → ε → Prop} {I : σ → Prop}
    (hstep : ∀ s e, I s → G s e → I (step s e)) {s : σ} {es : List ε} (hs : I s)
    (hG : Along step G s es) : I (run step s es) := by
  induction es generalizing s with
  | nil => exact hs
  | cons e es ih => exact ih (hstep s e hs hG.1) hG.2

lemma Reachable.invariant {G : σ → ε → Prop} {I : σ → Prop} {s t : σ}
    (h : Reachable step G s t) (hs : I s) (hstep : ∀ s e, I s → G s e → I (step s e)) : I t := by
  obtain ⟨es, hes, rfl⟩ := h
  exact run_invariant hstep hs hes

/-- What holds of every allowed step from a state of the invariant holds along every run. -/
lemma Along.of_invariant {G R : σ → ε → Prop} {I : σ → Prop}
    (hstep : ∀ s e, I s → G s e → I (step s e)) (hR : ∀ s e, I s → G s e → R s e) {s : σ}
    {es : List ε} (hs : I s) (hG : Along step G s es) : Along step R s es := by
  induction es generalizing s with
  | nil => trivial
  | cons e es ih => exact ⟨hR s e hs hG.1, ih (hstep s e hs hG.1) hG.2⟩

/-- Two properties of steps that agree in the states of an invariant agree along every allowed
run.  The invariant need only be kept by steps that have the property. -/
lemma along_iff_along {G Q C : σ → ε → Prop} {I : σ → Prop}
    (hstep : ∀ s e, I s → G s e → Q s e → I (step s e))
    (hQC : ∀ s e, I s → G s e → (Q s e ↔ C s e)) {s : σ} {es : List ε} (hs : I s)
    (hG : Along step G s es) : Along step Q s es ↔ Along step C s es := by
  induction es generalizing s with
  | nil => exact Iff.rfl
  | cons e es ih =>
    rw [along_cons, along_cons, ← hQC s e hs hG.1]
    exact and_congr_right fun hQ => ih (hstep s e hs hG.1 hQ) hG.2

/-- A property of states holds throughout a run if it holds at its start and every step leads
to a state that has it. -/
lemma always_iff_along {P : σ → Prop} {s : σ} {es : List ε} :
    Always step P s es ↔ P s ∧ Along step (fun s e => P (step s e)) s es := by
  induction es generalizing s with
  | nil => simp [Always]
  | cons e es ih => simp [Always, ih]

/-- The progress rule.  In the states of `I` the inputs of `tick` lower the measure and the others
do not raise it, unless the step leads to `Q`. -/
lemma exists_prefix_of_measure {tick : ε → Bool} {I Q : σ → Prop} (μ : σ → ℕ)
    (hstep : ∀ s e, I s → Q (step s e) ∨
      I (step s e) ∧ μ (step s e) + (if tick e then 1 else 0) ≤ μ s)
    {s : σ} {es : List ε} (hs : I s) (hes : μ s < es.countP tick) :
    ∃ es₁ es₂, es = es₁ ++ es₂ ∧ Q (run step s es₁) := by
  induction es generalizing s with
  | nil => exact absurd hes (by simp)
  | cons e es ih =>
    rcases hstep s e hs with hQ | ⟨hI, hμ⟩
    · exact ⟨[e], es, rfl, hQ⟩
    · rw [List.countP_cons] at hes
      obtain ⟨es₁, es₂, rfl, hQ⟩ := ih hI (by split_ifs at hes hμ <;> omega)
      exact ⟨e :: es₁, es₂, rfl, hQ⟩

end Runs
