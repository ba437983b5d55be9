/-
# A mailbox with one slot

A producer posts messages into a slot that holds one of them, overwriting what is there;
a consumer that looks into the slot takes what it finds and leaves the slot empty.
`delivered` says which messages get through: those after which the consumer comes before
the producer does.  The machine takes exactly these, each of them once and in the order of
posting (`taken_run`).
-/
import Fx3Ncm.Lib.Run

namespace Mailbox

open Runs

variable {μ : Type*}

/-- What a step has to do with the mailbox. -/
inductive Action (μ : Type*) where
  | post (m : μ)
  | take
  | other

/-- The message in the slot, and the messages taken so far. -/
structure State (μ : Type*) where
  slot : Option μ
  taken : List μ

/-- One step. -/
def step (s : State μ) : Action μ → State μ
  | .post m => { s with slot := some m }
  | .take => { slot := none, taken := s.taken ++ s.slot.toList }
  | .other => s

/-- The consumer comes before the next message is posted. -/
def TakenFirst : List (Action μ) → Bool
  | [] => false
  | .post _ :: _ => false
  | .take :: _ => true
  | .other :: as => TakenFirst as

/-- The messages of a run that are taken before they are overwritten. -/
def delivered : List (Action μ) → List μ
  | [] => []
  | .post m :: as => if TakenFirst as then m :: delivered as else delivered as
  | .take :: as => delivered as
  | .other :: as => delivered as

/-- The message in the slot at the start of a run, if it is delivered. -/
def deliveredFirst (slot : Option μ) (as : List (Action μ)) : List μ :=
  if TakenFirst as then slot.toList else []

lemma taken_run_append (s : State μ) (as : List (Action μ)) :
    (run step s as).taken = s.taken ++ deliveredFirst s.slot as ++ delivered as := by
  induction as generalizing s with
  | nil => simp [delivered, deliveredFirst, TakenFirst]
  | cons a as ih =>
    rw [run_cons, ih]
    cases a with
    | post m =>
      -- what was in the slot is lost, and the new message is in its place
      cases h : TakenFirst as <;> simp [step, delivered, deliveredFirst, TakenFirst, h]
    | take => simp [step, delivered, deliveredFirst, TakenFirst]
    | other => rfl

/-- From the empty mailbox. -/
lemma taken_run (as : List (Action μ)) : (run step ⟨none, []⟩ as).taken = delivered as := by
  rw [taken_run_append]
  simp [deliveredFirst]

end Mailbox
