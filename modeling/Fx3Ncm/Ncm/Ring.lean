/-
# The ring lists as queues

`push_ntb` and `pop_ntb` are compared with a FIFO queue of capacity `NCM_NTB_N`.  The
indices are advanced by `list += (list + 1) % NCM_NTB_N`, which goes from 0 to 1 and stays
there.  So a list is a queue for its first round: as long as nothing has been popped, both
slots are used in order.  After the first pop only slot 1 is left, and the list is a queue
of capacity one: a push is refused although a slot is free.

`Shows list q` relates a list and the queue it stands for; it lists all the states a list can
be in as long as the two agree.
-/
import Fx3Ncm.Lib.Run
import Fx3Ncm.Ncm.Struct

namespace Fx3Ncm

/-! ### Bounded queues

A queue of capacity `n` is a list, oldest element first. -/

namespace Fifo

variable {α : Type}

/-- The operations on a queue. -/
inductive Op (α : Type) where
  | push (a : α)
  | pop

/-- What an operation answers: whether the element was queued, or the oldest element. -/
inductive Answer (α : Type) where
  | pushed (ok : Bool)
  | popped (a : Option α)

/-- The answer of an operation on the queue `q` of capacity `n`, and the queue after it. -/
def apply (n : ℕ) (q : List α) : Op α → Answer α × List α
  | .push a => if q.length < n then (.pushed true, q ++ [a]) else (.pushed false, q)
  | .pop => (.popped q.head?, q.tail)

end Fifo

/-! ### Ring lists beside queues -/

open Runs Fifo

variable {α : Type}

/-- The operations of a queue on a ring list. -/
def NtbList.apply (list : NtbList α) : Op α → Answer α × NtbList α
  | .push p => (.pushed (pushNtb list (some p)).1, (pushNtb list (some p)).2)
  | .pop => (.popped (popNtb list).1, (popNtb list).2)

/-- The same operation on a ring list and on a queue. -/
def fifoStep (s : NtbList α × List α) (op : Op α) : NtbList α × List α :=
  ((s.1.apply op).2, (Fifo.apply ncmNtbN s.2 op).2)

/-- The operation gives the answer of the queue, a refused push changes nothing, and the indices
stay valid. -/
structure MatchesFifo (s : NtbList α × List α) (op : Op α) : Prop where
  answer : (s.1.apply op).1 = (Fifo.apply ncmNtbN s.2 op).1
  unchanged : (s.1.apply op).1 = .pushed false → (s.1.apply op).2 = s.1
  front_lt : (s.1.apply op).2.listFront < ncmNtbN
  back_lt : (s.1.apply op).2.listBack < ncmNtbN

/-- Nothing is pushed while an element is queued and `list_front` has left slot 0. -/
def PushesInFirstRound (s : NtbList α × List α) (op : Op α) : Prop :=
  ∀ p, op = .push p → s.1.listFront = 0 ∨ s.1.ntbList.getD s.1.listFront none = none

/-- The list shows the queue. -/
inductive Shows : NtbList α → List α → Prop
  | empty : Shows ⟨[none, none], 0, 0⟩ []
  | one (a : α) : Shows ⟨[some a, none], 0, 1⟩ [a]
  | two (a b : α) : Shows ⟨[some a, some b], 0, 1⟩ [a, b]
  | emptied : Shows ⟨[none, none], 1, 1⟩ []
  | last (a : α) : Shows ⟨[none, some a], 1, 1⟩ [a]

namespace Shows

variable {list : NtbList α} {q : List α}

lemma zero : Shows (NtbList.zero : NtbList α) [] := empty

/-- `pop_ntb` is the operation of the queue. -/
lemma pop (h : Shows list q) :
    (list.apply .pop).1 = (Fifo.apply ncmNtbN q .pop).1 ∧
      Shows (list.apply .pop).2 (Fifo.apply ncmNtbN q .pop).2 := by
  cases h with
  | empty => exact ⟨rfl, empty⟩
  | one a => exact ⟨rfl, emptied⟩
  | two a b => exact ⟨rfl, last b⟩
  | emptied => exact ⟨rfl, emptied⟩
  | last a => exact ⟨rfl, by simpa [NtbList.apply, popNtb, Fifo.apply] using emptied⟩

/-- So is `push_ntb` in the first round, or when the list is empty. -/
lemma push (h : Shows list q) (p : α)
    (hfirst : list.listFront = 0 ∨ list.ntbList.getD list.listFront none = none) :
    (list.apply (.push p)).1 = (Fifo.apply ncmNtbN q (.push p)).1 ∧
      Shows (list.apply (.push p)).2 (Fifo.apply ncmNtbN q (.push p)).2 := by
  cases h with
  | empty => exact ⟨rfl, one p⟩
  | one a => exact ⟨rfl, by simpa [NtbList.apply, pushNtb, Fifo.apply] using two a p⟩
  | two a b => exact ⟨rfl, two a b⟩
  | emptied => exact ⟨rfl, by simpa [NtbList.apply, pushNtb, Fifo.apply] using last p⟩
  | last a =>
    rcases hfirst with hfront | hslot
    · cases hfront
    · cases hslot

/-- After the first pop a list with one element refuses a push that the queue takes. -/
lemma push_of_last (h : Shows list q) (p : α) (hfront : list.listFront ≠ 0)
    (hslot : list.ntbList.getD list.listFront none ≠ none) :
    (list.apply (.push p)).1 = .pushed false ∧
      (Fifo.apply ncmNtbN q (.push p)).1 = .pushed true := by
  cases h with
  | last a => exact ⟨rfl, rfl⟩
  | emptied => exact absurd rfl hslot
  | empty => exact absurd rfl hfront
  | one a => exact absurd rfl hfront
  | two a b => exact absurd rfl hfront

/-- The step lemma. -/
lemma apply (h : Shows list q) {op : Op α} (hfirst : PushesInFirstRound (list, q) op) :
    (list.apply op).1 = (Fifo.apply ncmNtbN q op).1 ∧
      Shows (list.apply op).2 (Fifo.apply ncmNtbN q op).2 := by
  cases op with
  | push p => exact h.push p (hfirst p rfl)
  | pop => exact h.pop

lemma index_lt (h : Shows list q) : list.listFront < ncmNtbN ∧ list.listBack < ncmNtbN := by
  cases h <;> simp

end Shows

lemma NtbList.apply_of_refused {list : NtbList α} {op : Op α}
    (h : (list.apply op).1 = .pushed false) : (list.apply op).2 = list := by
  cases op with
  | pop => cases h
  | push p =>
    change Answer.pushed (pushNtb list (some p)).1 = .pushed false at h
    change (pushNtb list (some p)).2 = list
    rw [pushNtb] at h ⊢
    split_ifs at h ⊢
    · rfl
    · cases h

lemma Shows.matchesFifo_iff {list : NtbList α} {q : List α} (h : Shows list q) (op : Op α) :
    MatchesFifo (list, q) op ↔ PushesInFirstRound (list, q) op := by
  constructor
  · rintro hmatch p rfl
    by_contra hno
    obtain ⟨hfront, hslot⟩ := not_or.1 hno
    obtain ⟨hring, hqueue⟩ := h.push_of_last p hfront hslot
    have hanswer := hring.symm.trans (hmatch.answer.trans hqueue)
    cases hanswer
  · intro hfirst
    obtain ⟨hanswer, hshows⟩ := h.apply hfirst
    exact ⟨hanswer, NtbList.apply_of_refused, hshows.index_lt.1, hshows.index_lt.2⟩

/-- A zeroed list answers a sequence of operations as a FIFO queue of capacity `NCM_NTB_N` does
if and only if nothing is pushed while an element is queued after the first pop. -/
theorem ntb_list_fifo (ops : List (Op α)) :
    Along fifoStep MatchesFifo (NtbList.zero, []) ops ↔
      Along fifoStep PushesInFirstRound (NtbList.zero, []) ops := by
  have hsteps : Along fifoStep (fun _ _ => True) ((NtbList.zero : NtbList α), []) ops :=
    Along.of_forall fun _ _ => trivial
  refine along_iff_along (I := fun s => Shows s.1 s.2) ?_ ?_ Shows.zero hsteps
  · rintro ⟨list, q⟩ op h - hmatch
    exact (h.apply ((h.matchesFifo_iff op).1 hmatch)).2
  · rintro ⟨list, q⟩ op h -
    exact h.matchesFifo_iff op

/-- With one of two elements popped the list is half full and refuses a push. -/
theorem ntb_list_fifo_fails :
    ¬ Along fifoStep MatchesFifo (NtbList.zero, []) [.push 1, .push 2, .pop, .push 3] := by
  rintro ⟨-, -, -, h, -⟩
  have hanswer : Answer.pushed false = (Answer.pushed true : Answer ℕ) := h.answer
  cases hanswer

end Fx3Ncm
