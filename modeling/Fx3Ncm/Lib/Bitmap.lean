/-
# Bits in arrays of words

An array of words of `w` bits is read as one sequence of bits: bit `i` is bit `i % w` of word
`i / w`.  `span s e` is the word whose bits from `s` up to `e` are set; taking it into a word or
out of it sets or clears a range of bits, and a range that is longer than a word is changed one
word after the other.
-/
import Mathlib.Data.List.Basic
import Mathlib.Data.Nat.Bitwise
import Mathlib.Tactic.Ring

namespace Bitmap

variable {w : ℕ}

/-- Bit `i` of an array of words; there are no set bits behind its end. -/
def bit (ws : List (BitVec w)) (i : ℕ) : Bool := (ws.getD (i / w) 0).getLsbD (i % w)

/-- The word whose bits from `s` up to `e` are set. -/
def span (w s e : ℕ) : BitVec w := BitVec.ofNat w (2 ^ e - 2 ^ s)

/-- A word with the bits of a mask set or cleared. -/
def apply (value : Bool) (x mask : BitVec w) : BitVec w :=
  if value then x ||| mask else x &&& ~~~mask

/-! ### Masks -/

lemma testBit_two_pow_sub {s e : ℕ} (h : s ≤ e) (i : ℕ) :
    (2 ^ e - 2 ^ s).testBit i = decide (s ≤ i ∧ i < e) := by
  have hfactor : 2 ^ e - 2 ^ s = 2 ^ s * (2 ^ (e - s) - 1) := by
    rw [Nat.mul_sub, ← pow_add, Nat.add_sub_cancel' h, mul_one]
  rw [hfactor, Nat.testBit_two_pow_mul, Nat.testBit_two_pow_sub_one]
  by_cases hi : s ≤ i <;> simp [hi]
  omega

lemma getLsbD_span {s e : ℕ} (h : s ≤ e) {i : ℕ} (hi : i < w) :
    (span w s e).getLsbD i = decide (s ≤ i ∧ i < e) := by
  rw [span, BitVec.getLsbD_ofNat, testBit_two_pow_sub h]
  simp [hi]

lemma getLsbD_apply (value : Bool) (x mask : BitVec w) {i : ℕ} (hi : i < w) :
    (apply value x mask).getLsbD i = if mask.getLsbD i then value else x.getLsbD i := by
  cases value
  · simp only [apply, Bool.false_eq_true, if_false, BitVec.getLsbD_and, BitVec.getLsbD_not, hi]
    cases mask.getLsbD i <;> simp
  · simp only [apply, if_true, BitVec.getLsbD_or]
    cases mask.getLsbD i <;> simp

/-! ### Arrays -/

lemma bit_of_le {ws : List (BitVec w)} {i : ℕ} (h : w * ws.length ≤ i) : bit ws i = false := by
  rcases Nat.eq_zero_or_pos w with rfl | hw
  · simp [bit]
  · have hlen : ws.length ≤ i / w := (Nat.le_div_iff_mul_le hw).2 (by rwa [mul_comm])
    simp [bit, List.getElem?_eq_none hlen]

lemma div_eq_and_mod_eq {k b : ℕ} (hb : b < w) : (w * k + b) / w = k ∧ (w * k + b) % w = b := by
  constructor
  · rw [Nat.mul_add_div (by omega), Nat.div_eq_of_lt hb, add_zero]
  · rw [Nat.mul_add_mod, Nat.mod_eq_of_lt hb]

lemma bit_eq_getLsbD {ws : List (BitVec w)} {k b : ℕ} {x : BitVec w} (hx : ws[k]? = some x)
    (hb : b < w) : bit ws (w * k + b) = x.getLsbD b := by
  obtain ⟨hdiv, hmod⟩ := div_eq_and_mod_eq (k := k) hb
  rw [bit, hdiv, hmod, List.getD_eq_getElem?_getD, hx, Option.getD_some]

/-- Two arrays of the same length with the same bits are equal. -/
lemma ext_bit {ws ws' : List (BitVec w)} (hlen : ws.length = ws'.length)
    (h : ∀ i < w * ws.length, bit ws i = bit ws' i) : ws = ws' := by
  apply List.ext_getElem hlen
  intro k hk hk'
  apply BitVec.eq_of_getLsbD_eq
  intro b hb
  have hlt : w * k + b < w * ws.length := by
    calc w * k + b < w * k + w := by omega
      _ = w * (k + 1) := by ring
      _ ≤ w * ws.length := Nat.mul_le_mul_left w hk
  have hbit := h (w * k + b) hlt
  rwa [bit_eq_getLsbD (List.getElem?_eq_getElem hk) hb,
    bit_eq_getLsbD (List.getElem?_eq_getElem hk') hb] at hbit

/-- Changing the bits from `s` up to `e` of one word. -/
lemma bit_set_apply {ws : List (BitVec w)} {k s e : ℕ} {x : BitVec w} (hx : ws[k]? = some x)
    (hse : s ≤ e) (he : e ≤ w) (value : Bool) (i : ℕ) :
    bit (ws.set k (apply value x (span w s e))) i =
      if w * k + s ≤ i ∧ i < w * k + e then value else bit ws i := by
  rcases Nat.eq_zero_or_pos w with rfl | hw
  · simp [bit]
    omega
  have hk : k < ws.length := (List.getElem?_eq_some_iff.1 hx).1
  have hi := Nat.div_add_mod i w
  have hlt := Nat.mod_lt i hw
  by_cases hik : i / w = k
  · rw [bit, hik, List.getD_eq_getElem?_getD, List.getElem?_set_self hk, Option.getD_some,
      getLsbD_apply value _ _ hlt, getLsbD_span hse hlt, ← hi, hik, bit_eq_getLsbD hx hlt]
    simp
  · have hout : ¬ (w * k + s ≤ i ∧ i < w * k + e) := by
      rintro ⟨h₁, h₂⟩
      apply hik
      apply Nat.div_eq_of_lt_le
      · rw [mul_comm]
        omega
      · calc i < w * k + w := by omega
          _ = (k + 1) * w := by ring
    rw [if_neg hout, bit, bit, List.getD_eq_getElem?_getD, List.getD_eq_getElem?_getD,
      List.getElem?_set_ne (Ne.symm hik)]

end Bitmap
