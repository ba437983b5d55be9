/-
# Blocks in a bitmap

An allocator of whole lines keeps one bit a line.  A block of `len ≥ 2` lines is marked by ones for
all its lines but the last, whose bit stays zero: the zero ends the block, so that two blocks side
by side can be told apart and a block can be found again from its first line.  `Packing hi` is a
list of blocks below `hi` that do not overlap, and `mark` is its bitmap.

`Packing.insert`: `len + 1` zeros in a row have room for a block of `len` lines behind the first of
them.

`Scanned` is the invariant of a scan that counts the zeros in a row; it finds the first place that
fits (`Scanned.first`) and does not pass over one (`Scanned.none`).
-/
import Mathlib.Data.List.Pairwise
import Mathlib.Data.List.Basic

namespace Blocks

/-! ### Runs of zeros -/

/-- There are `n` zeros from `p` on, between `lo` and `hi`. -/
structure Fits (b : ℕ → Bool) (n lo hi p : ℕ) : Prop where
  lo_le : lo ≤ p
  le_hi : p + n ≤ hi
  clear : ∀ i, p ≤ i → i < p + n → b i = false

/-- The first place that fits. -/
def First (b : ℕ → Bool) (n lo hi p : ℕ) : Prop :=
  Fits b n lo hi p ∧ ∀ q, Fits b n lo hi q → p ≤ q

/-- The place that a search finds that begins at `mid` and goes on from the start: the first one
behind `mid`, or the first one before it if there is none behind. -/
def Next (b : ℕ → Bool) (n mid hi p : ℕ) : Prop :=
  First b n mid hi p ∨ (∀ q, ¬ Fits b n mid hi q) ∧ First b n 0 mid p

/-- Such a search finds nothing. -/
def Full (b : ℕ → Bool) (n mid hi : ℕ) : Prop :=
  (∀ q, ¬ Fits b n mid hi q) ∧ ∀ q, ¬ Fits b n 0 mid q

lemma Fits.mono {b : ℕ → Bool} {n lo hi p lo' hi' : ℕ} (h : Fits b n lo hi p) (hlo : lo' ≤ lo)
    (hhi : hi ≤ hi') : Fits b n lo' hi' p :=
  ⟨Nat.le_trans hlo h.lo_le, Nat.le_trans h.le_hi hhi, h.clear⟩

lemma Next.fits {b : ℕ → Bool} {n mid hi p : ℕ} (h : Next b n mid hi p) (hmid : mid ≤ hi) :
    Fits b n 0 hi p := by
  rcases h with h | h
  · exact h.1.mono (Nat.zero_le mid) (Nat.le_refl hi)
  · exact h.2.1.mono (Nat.le_refl 0) hmid

/-- A search that begins at the start finds the first place of all. -/
lemma Next.first {b : ℕ → Bool} {n hi p : ℕ} (h : Next b (n + 1) 0 hi p) :
    First b (n + 1) 0 hi p := by
  rcases h with h | ⟨-, h, -⟩
  · exact h
  · have := h.le_hi
    omega

/-- A scan from `lo` has come to `i`, with `c` zeros in a row just before. -/
structure Scanned (b : ℕ → Bool) (n lo i c : ℕ) : Prop where
  le : lo + c ≤ i
  clear : ∀ j, i ≤ j + c → j < i → b j = false
  stop : lo + c = i ∨ ∃ j, j + c + 1 = i ∧ b j = true
  none : ∀ p, ¬ Fits b n lo i p

namespace Scanned

variable {b : ℕ → Bool} {n lo i c : ℕ}

lemma start (hn : 0 < n) : Scanned b n lo lo 0 where
  le := Nat.le_refl lo
  clear j h₁ h₂ := by omega
  stop := .inl rfl
  none p h := by
    have := h.lo_le
    have := h.le_hi
    omega

/-- A place that fits and ends at the next bit is within the zeros that have been counted. -/
lemma le_of_fits (h : Scanned b n lo i c) {p : ℕ} (hp : Fits b n lo (i + 1) p) :
    p + n = i + 1 ∧ n ≤ c + 1 := by
  have hend : p + n = i + 1 := by
    by_contra hne
    exact h.none p ⟨hp.lo_le, by have := hp.le_hi; omega, hp.clear⟩
  refine ⟨hend, ?_⟩
  rcases h.stop with heq | ⟨j, hj, hbj⟩
  · have := hp.lo_le
    omega
  · -- the bit that stopped the count is not one of the zeros of the place
    by_contra hlt
    have hclear := hp.clear j (by omega) (by omega)
    rw [hbj] at hclear
    cases hclear

lemma taken (h : Scanned b n lo i c) (hi : b i = true) (hn : 0 < n) :
    Scanned b n lo (i + 1) 0 where
  le := by have := h.le; omega
  clear j h₁ h₂ := by omega
  stop := .inr ⟨i, rfl, hi⟩
  none p hp := by
    obtain ⟨hend, -⟩ := h.le_of_fits hp
    have hclear := hp.clear i (by omega) (by omega)
    rw [hi] at hclear
    cases hclear

lemma clear_succ (h : Scanned b n lo i c) (hi : b i = false) {j : ℕ} (h₁ : i ≤ j + c)
    (h₂ : j < i + 1) : b j = false := by
  rcases Nat.lt_succ_iff_lt_or_eq.1 h₂ with hlt | rfl
  · exact h.clear j h₁ hlt
  · exact hi

lemma free (h : Scanned b n lo i c) (hi : b i = false) (hc : c + 1 < n) :
    Scanned b n lo (i + 1) (c + 1) where
  le := by have := h.le; omega
  clear j h₁ h₂ := h.clear_succ hi (by omega) h₂
  stop := by
    rcases h.stop with heq | ⟨j, hj, hbj⟩
    · exact .inl (by omega)
    · exact .inr ⟨j, by omega, hbj⟩
  none p hp := by
    obtain ⟨-, hle⟩ := h.le_of_fits hp
    omega

/-- The zero that completes the count completes the first place that fits. -/
lemma first (h : Scanned b n lo i c) (hi : b i = false) (hc : c + 1 = n) {hi' : ℕ}
    (hle : i < hi') : First b n lo hi' (i - c) := by
  have hlo := h.le
  refine ⟨⟨by omega, by omega, ?_⟩, ?_⟩
  · intro j h₁ h₂
    exact h.clear_succ hi (by omega) (by omega)
  · intro q hq
    by_contra hlt
    exact h.none q ⟨hq.lo_le, by omega, hq.clear⟩

end Scanned

/-! ### Packings -/

/-- The lines from `start` on, `len` of them. -/
structure Block where
  start : ℕ
  len : ℕ
deriving DecidableEq, Repr

namespace Block

/-- The line after the last one. -/
def fin (e : Block) : ℕ := e.start + e.len

/-- Two blocks do not overlap. -/
def Apart (e f : Block) : Prop := e.fin ≤ f.start ∨ f.fin ≤ e.start

instance : Std.Symm Apart := ⟨fun _ _ h => Or.symm h⟩

/-- The lines of a block whose bits are set: all but the last. -/
def Marks (e : Block) (i : ℕ) : Prop := e.start ≤ i ∧ i + 1 < e.fin

instance (e : Block) (i : ℕ) : Decidable (e.Marks i) := instDecidableAnd

end Block

/-- Blocks of at least two lines between line 1 and line `hi` that do not overlap.  Line 0 is never
part of a block: a block has a zero in front of it. -/
structure Packing (hi : ℕ) where
  live : List Block
  two_le : ∀ e ∈ live, 2 ≤ e.len
  pos : ∀ e ∈ live, 1 ≤ e.start
  fin_le : ∀ e ∈ live, e.fin ≤ hi
  apart : live.Pairwise Block.Apart

namespace Packing

variable {hi : ℕ}

/-- No blocks. -/
def empty (hi : ℕ) : Packing hi := ⟨[], by simp, by simp, by simp, .nil⟩

/-- The bitmap of a packing. -/
def mark (P : Packing hi) (i : ℕ) : Bool := decide (∃ e ∈ P.live, e.Marks i)

lemma mark_eq_true {P : Packing hi} {i : ℕ} : P.mark i = true ↔ ∃ e ∈ P.live, e.Marks i := by
  rw [mark, decide_eq_true_iff]

lemma mark_eq_false {P : Packing hi} {i : ℕ} : P.mark i = false ↔ ∀ e ∈ P.live, ¬ e.Marks i := by
  rw [mark, decide_eq_false_iff_not]
  simp

@[simp] lemma mark_empty (i : ℕ) : (empty hi).mark i = false :=
  mark_eq_false.2 (by simp [empty])

/-- Two blocks of a packing are the same or apart. -/
lemma eq_or_apart (P : Packing hi) {e f : Block} (he : e ∈ P.live) (hf : f ∈ P.live) :
    e = f ∨ e.Apart f := by
  by_cases h : e = f
  · exact .inl h
  · exact .inr (P.apart.forall he hf h)

/-- A line that a block marks is not in another block. -/
lemma eq_of_marks (P : Packing hi) {e f : Block} (he : e ∈ P.live) (hf : f ∈ P.live) {i : ℕ}
    (hm : e.Marks i) (h₁ : f.start ≤ i + 1) (h₂ : i < f.fin) : f = e := by
  rcases P.eq_or_apart hf he with rfl | hap
  · rfl
  · have := hm.1
    have := hm.2
    rcases hap with h | h <;> simp only [Block.fin] at * <;> omega

lemma mark_of_marks (P : Packing hi) {e : Block} (he : e ∈ P.live) {i : ℕ} (h : e.Marks i) :
    P.mark i = true := mark_eq_true.2 ⟨e, he, h⟩

/-- The bit of the last line of a block is zero. -/
lemma mark_last (P : Packing hi) {e : Block} (he : e ∈ P.live) {i : ℕ} (h : i + 1 = e.fin) :
    P.mark i = false := by
  rw [mark_eq_false]
  intro f hf hm
  have hlen := P.two_le e he
  have heq : e = f := P.eq_of_marks hf he hm (by simp only [Block.fin] at h; omega) (by omega)
  subst heq
  have := hm.2
  omega

/-! ### Operations -/

/-- A block that goes into `len + 1` zeros, behind the first of them. -/
def insert (P : Packing hi) (p len : ℕ) (hlen : 2 ≤ len) (h : Fits P.mark (len + 1) 0 hi p) :
    Packing hi where
  live := ⟨p + 1, len⟩ :: P.live
  two_le := by
    rintro e (_ | ⟨_, he⟩)
    · exact hlen
    · exact P.two_le e he
  pos := by
    rintro e (_ | ⟨_, he⟩)
    · exact Nat.le_add_left 1 p
    · exact P.pos e he
  fin_le := by
    rintro e (_ | ⟨_, he⟩)
    · have := h.le_hi
      simp only [Block.fin]
      omega
    · exact P.fin_le e he
  apart := by
    refine List.pairwise_cons.2 ⟨?_, P.apart⟩
    intro e he
    have he₂ := P.two_le e he
    by_contra hap
    -- a block that overlaps the new one marks the first zero or the first line of its own in it
    have hzero : ∀ i, p ≤ i → i < p + (len + 1) → ¬ e.Marks i := fun i h₁ h₂ =>
      mark_eq_false.1 (h.clear i h₁ h₂) e he
    have hout := hzero (max p e.start)
    simp only [Block.Apart, Block.fin, Block.Marks] at hap hout
    omega

lemma mark_insert (P : Packing hi) {p len : ℕ} (hlen : 2 ≤ len)
    (h : Fits P.mark (len + 1) 0 hi p) (i : ℕ) :
    (P.insert p len hlen h).mark i =
      if p + 1 ≤ i ∧ i < p + 1 + (len - 1) then true else P.mark i := by
  have hiff : (p + 1 ≤ i ∧ i < p + 1 + (len - 1)) ↔ Block.Marks ⟨p + 1, len⟩ i := by
    simp only [Block.Marks, Block.fin]
    omega
  by_cases hm : Block.Marks ⟨p + 1, len⟩ i
  · rw [if_pos (hiff.2 hm), mark_eq_true]
    exact ⟨_, List.mem_cons_self, hm⟩
  · rw [if_neg (fun hn => hm (hiff.1 hn))]
    simp [mark, insert, hm]

/-- A packing without one of its blocks. -/
def erase (P : Packing hi) (e : Block) : Packing hi where
  live := P.live.filter (· ≠ e)
  two_le f hf := P.two_le f (List.mem_of_mem_filter hf)
  pos f hf := P.pos f (List.mem_of_mem_filter hf)
  fin_le f hf := P.fin_le f (List.mem_of_mem_filter hf)
  apart := P.apart.filter _

lemma mem_erase (P : Packing hi) {e f : Block} :
    f ∈ (P.erase e).live ↔ f ∈ P.live ∧ f ≠ e := by
  simp [erase]

lemma mark_erase (P : Packing hi) {e : Block} (he : e ∈ P.live) (i : ℕ) :
    (P.erase e).mark i = if e.Marks i then false else P.mark i := by
  split_ifs with hm
  · rw [mark_eq_false]
    intro f hf hfm
    obtain ⟨hf, hne⟩ := P.mem_erase.1 hf
    exact hne (P.eq_of_marks he hf hm (by have := hfm.1; omega) (by have := hfm.2; omega))
  · rw [mark, mark]
    congr 1
    apply propext
    constructor
    · rintro ⟨f, hf, hfm⟩
      exact ⟨f, (P.mem_erase.1 hf).1, hfm⟩
    · rintro ⟨f, hf, hfm⟩
      refine ⟨f, P.mem_erase.2 ⟨hf, ?_⟩, hfm⟩
      rintro rfl
      exact hm hfm

end Packing

end Blocks
