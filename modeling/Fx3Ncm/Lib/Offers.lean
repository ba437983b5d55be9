/-
# Offering the items of a stream

A supplier offers the items of a stream to a consumer that may refuse.  `Follows s os` is
the contract of the supplier: each offer in `os` is the first item of `s` that has not been
accepted yet.  A refused item is therefore offered again, an accepted one never, and none is
skipped; in particular the accepted items are a prefix of the stream.
-/
import Mathlib.Data.List.Induction

namespace Offers

variable {α : Type*}

/-- Each offer, an item with the consumer's answer, is the first item not yet accepted. -/
def Follows : List α → List (α × Bool) → Prop
  | _, [] => True
  | s, (a, ok) :: os => s.head? = some a ∧ Follows (if ok then s.tail else s) os

/-- The items accepted by the consumer. -/
def accepted (os : List (α × Bool)) : List α :=
  os.filterMap fun o => if o.2 then some o.1 else none

@[simp] lemma accepted_nil : accepted ([] : List (α × Bool)) = [] := rfl

lemma accepted_cons_true (a : α) (os : List (α × Bool)) :
    accepted ((a, true) :: os) = a :: accepted os := rfl

lemma accepted_cons_false (a : α) (os : List (α × Bool)) :
    accepted ((a, false) :: os) = accepted os := rfl

lemma accepted_append (os os' : List (α × Bool)) :
    accepted (os ++ os') = accepted os ++ accepted os' := List.filterMap_append

@[simp] lemma follows_nil (s : List α) : Follows s [] := trivial

/-- One more offer keeps the contract exactly if it is the item that is due. -/
lemma follows_append_singleton {s : List α} {os : List (α × Bool)} {a : α} {ok : Bool} :
    Follows s (os ++ [(a, ok)]) ↔ Follows s os ∧ s[(accepted os).length]? = some a := by
  induction os generalizing s with
  | nil => simp [Follows, List.head?_eq_getElem?]
  | cons o os ih =>
    obtain ⟨b, ok'⟩ := o
    rw [List.cons_append, Follows, Follows, ih, and_assoc]
    cases ok' with
    | false => rfl
    | true => simp [accepted_cons_true]

/-- Offering the item that is due. -/
lemma Follows.append_due {s : List α} {os : List (α × Bool)} (h : Follows s os) {j : ℕ}
    (hj : (accepted os).length = j) (hlt : j < s.length) (ok : Bool) :
    Follows s (os ++ [(s[j], ok)]) := by
  subst hj
  exact follows_append_singleton.2 ⟨h, List.getElem?_eq_getElem hlt⟩

/-- The accepted items are the first ones of the stream, in order. -/
lemma Follows.accepted_eq_take {s : List α} {os : List (α × Bool)} (h : Follows s os) :
    accepted os = s.take (accepted os).length := by
  induction os generalizing s with
  | nil => simp
  | cons o os ih =>
    obtain ⟨b, ok⟩ := o
    obtain ⟨hhead, hrest⟩ := h
    cases ok with
    | false =>
      rw [accepted_cons_false]
      exact ih hrest
    | true =>
      cases s with
      | nil => simp at hhead
      | cons c s =>
        obtain rfl : c = b := by simpa using hhead
        have hrest' : Follows s os := hrest
        rw [accepted_cons_true, List.length_cons, List.take_succ_cons, ← ih hrest']

lemma Follows.accepted_prefix {s : List α} {os : List (α × Bool)} (h : Follows s os) :
    accepted os <+: s := by
  rw [h.accepted_eq_take]
  exact List.take_prefix _ _

end Offers
