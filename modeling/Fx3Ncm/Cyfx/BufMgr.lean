/-
# The DMA buffer manager: its bitmap

The buffer heap hands out cache lines of 32 bytes and keeps one bit a line in `usedStatus`, an
array of 32-bit words.  The three loops of `cyfx_tx.c` over that array are modelled here, each as
the code runs it, word by word and bit by bit:

* `cyU3PDmaBufMgrSetStatus` sets or clears a range of bits (`setStatus_eq`);
* the search of `CyU3PDmaBufferAlloc` looks for zeros in a row (`search_spec`);
* the count of `CyU3PDmaBufferFree` counts the ones from a line on (`countOnes_spec`).

A loop that read or wrote a word outside the array would have no result.
-/
import Fx3Ncm.Lib.Bitmap
import Fx3Ncm.Lib.Blocks
import Fx3Ncm.Lib.Loop

namespace Fx3Ncm

open Bitmap Blocks Loops

/-! ### The model -/

/-- The words of `usedStatus`. -/
abbrev StatusWords := List (BitVec 32)

/-- The variables of `CyU3PDmaBufMgrSetStatus`. -/
structure SetStatusLoop where
  wordnum : ℕ
  numBits : ℕ
  startbit : ℕ
  endbit : ℕ
  mask : BitVec 32
  usedStatus : StatusWords

/-- The mask of the first word. -/
def firstMask (startbit endbit : ℕ) : BitVec 32 :=
  (if endbit = 32 then 0xFFFFFFFF#32 else (1#32 <<< endbit) - 1#32) - ((1#32 <<< startbit) - 1#32)

/-- The loop that updates one word after the other. -/
def setStatusStep (value : Bool) (l : SetStatusLoop) :
    SetStatusLoop ⊕ Option StatusWords :=
  if l.numBits = 0 then .inr (some l.usedStatus)
  else
    match l.usedStatus[l.wordnum]? with
    | none => .inr none
    | some x =>
      let usedStatus := l.usedStatus.set l.wordnum (apply value x l.mask)
      let numBits := l.numBits - (l.endbit - l.startbit)
      if 32 ≤ numBits then .inl ⟨l.wordnum + 1, numBits, 0, 32, 0xFFFFFFFF#32, usedStatus⟩
      else .inl ⟨l.wordnum + 1, numBits, 0, numBits, (1#32 <<< numBits) - 1#32, usedStatus⟩

/-- `CyU3PDmaBufMgrSetStatus` -/
def cyU3PDmaBufMgrSetStatus (usedStatus : StatusWords) (startPos numBits : ℕ) (value : Bool) :
    Option StatusWords :=
  let startbit := startPos % 32
  let endbit := min 32 (startbit + numBits)
  (iterate (setStatusStep value) (numBits + 1)
    ⟨startPos / 32, numBits, startbit, endbit, firstMask startbit endbit, usedStatus⟩).join

/-- The variables of the search of `CyU3PDmaBufferAlloc`, with the `searchPos` that it stores. -/
structure Search where
  wordnum : ℕ
  bitnum : ℕ
  count : ℕ
  start : ℕ
  tmp : ℕ
  searchPos : ℕ
deriving DecidableEq, Repr

/-- The end of an iteration: on to the next bit, and from the last word back to the first. -/
def Search.advance (statusSize : ℕ) (s : Search) : Search :=
  if s.bitnum + 1 = 32 then
    if s.wordnum + 1 = statusSize then
      { s with bitnum := 0, wordnum := 0, tmp := s.tmp + 1, count := 0 }
    else { s with bitnum := 0, wordnum := s.wordnum + 1, tmp := s.tmp + 1 }
  else { s with bitnum := s.bitnum + 1 }

/-- The `start` that goes with the zeros counted so far and the one that is looked at: the line
behind the first of them. -/
def Search.startLine (s : Search) : ℕ :=
  if s.count = 0 then 32 * s.wordnum + s.bitnum + 1 else s.start

/-- One bit of the search for `want` zeros in a row. -/
def searchStep (usedStatus : StatusWords) (statusSize want : ℕ) (s : Search) :
    Search ⊕ Option Search :=
  if s.tmp < statusSize then
    match usedStatus[s.wordnum]? with
    | none => .inr none
    | some x =>
      if x &&& (1#32 <<< s.bitnum) = 0#32 then
        let count := s.count + 1
        if count = want then
          .inr (some { s with start := s.startLine, count := count, searchPos := s.wordnum })
        else .inl (Search.advance statusSize { s with start := s.startLine, count := count })
      else .inl (Search.advance statusSize { s with count := 0 })
  else .inr (some s)

/-- The search, from the word `searchPos` on. -/
def searchLines (usedStatus : StatusWords) (statusSize searchPos want : ℕ) : Option Search :=
  (iterate (searchStep usedStatus statusSize want) (32 * statusSize + 1)
    ⟨searchPos, 0, 0, 0, 0, searchPos⟩).join

/-- One bit of the count of `CyU3PDmaBufferFree`. -/
def countStep (usedStatus : StatusWords) (statusSize : ℕ) (s : ℕ × ℕ × ℕ) :
    (ℕ × ℕ × ℕ) ⊕ Option ℕ :=
  let (wordnum, bitnum, count) := s
  if wordnum < statusSize then
    match usedStatus[wordnum]? with
    | none => .inr none
    | some x =>
      if x &&& (1#32 <<< bitnum) = 0#32 then .inr (some count)
      else if bitnum + 1 = 32 then .inl (wordnum + 1, 0, count + 1)
      else .inl (wordnum, bitnum + 1, count + 1)
  else .inr (some count)

/-- The number of ones in a row from the line `start` on. -/
def countOnes (usedStatus : StatusWords) (statusSize start : ℕ) : Option ℕ :=
  (iterate (countStep usedStatus statusSize) (32 * statusSize + 1)
    (start / 32, start % 32, 0)).join

/-! ### Masks and bits -/

lemma ones_eq {e : ℕ} (h : e < 32) : (1#32 <<< e) - 1#32 = BitVec.ofNat 32 (2 ^ e - 1) := by
  have hpow : 2 ^ e < 2 ^ 32 := Nat.pow_lt_pow_right (by decide) h
  have hone : 1#32 <<< e = BitVec.ofNat 32 (2 ^ e) := by
    apply BitVec.eq_of_toNat_eq
    simp [BitVec.toNat_shiftLeft, Nat.shiftLeft_eq]
  rw [hone]
  exact BitVec.ofNat_sub_ofNat_of_le _ _ (by decide) (Nat.one_le_two_pow)

lemma nextMask_eq {n : ℕ} (h : n < 32) : (1#32 <<< n) - 1#32 = span 32 0 n := by
  rw [ones_eq h, span, pow_zero]

lemma fullMask_eq : (0xFFFFFFFF#32 : BitVec 32) = span 32 0 32 := by decide

lemma firstMask_eq {s e : ℕ} (hs : s < 32) (hse : s ≤ e) (he : e ≤ 32) :
    firstMask s e = span 32 s e := by
  have hpow : 2 ^ s ≤ 2 ^ e := Nat.pow_le_pow_right (by decide) hse
  have hfirst : (if e = 32 then 0xFFFFFFFF#32 else (1#32 <<< e) - 1#32) =
      BitVec.ofNat 32 (2 ^ e - 1) := by
    split_ifs with h
    · rw [h]
      decide
    · exact ones_eq (by omega)
  have hlt : 2 ^ s - 1 < 2 ^ 32 := by
    have := Nat.pow_lt_pow_right (a := 2) (by decide) hs
    omega
  rw [firstMask, hfirst, ones_eq hs, BitVec.ofNat_sub_ofNat_of_le _ _ hlt (by omega), span]
  congr 1
  have := Nat.one_le_two_pow (n := s)
  omega

/-- The test of one bit. -/
lemma and_shiftLeft_eq_zero {x : BitVec 32} {b : ℕ} (hb : b < 32) :
    x &&& (1#32 <<< b) = 0#32 ↔ x.getLsbD b = false := by
  constructor
  · intro h
    have hbit := congrArg (fun y => y.getLsbD b) h
    simpa [hb] using hbit
  · intro h
    apply BitVec.eq_of_getLsbD_eq
    intro i hi
    by_cases hib : i = b
    · simp [hib, h]
    · simp [hi]
      omega

/-- The same, of a bit of the array. -/
lemma bit_eq_false_iff {ws : StatusWords} {k b : ℕ} {x : BitVec 32} (hx : ws[k]? = some x)
    (hb : b < 32) : bit ws (32 * k + b) = false ↔ x &&& (1#32 <<< b) = 0#32 := by
  rw [bit_eq_getLsbD hx hb, and_shiftLeft_eq_zero hb]

/-! ### Setting and clearing a range -/

/-- The variables belong together: the mask covers the bits of the word that are to be changed. -/
structure SetStatusLoop.Shape (l : SetStatusLoop) : Prop where
  startbit_lt : l.startbit < 32
  endbit_eq : l.endbit = min 32 (l.startbit + l.numBits)
  mask_eq : l.mask = span 32 l.startbit l.endbit
  bound : 32 * l.wordnum + l.startbit + l.numBits ≤ 32 * l.usedStatus.length

/-- The line that comes next. -/
def SetStatusLoop.pos (l : SetStatusLoop) : ℕ := 32 * l.wordnum + l.startbit

/-- One word: the bits up to the end of the word, or of the range, are changed, and the rest of the
range is left. -/
lemma setStatusStep_of_pos {l : SetStatusLoop} (h : l.Shape) (hpos : 0 < l.numBits)
    (value : Bool) :
    ∃ l', setStatusStep value l = .inl l' ∧ l'.Shape ∧ l'.numBits < l.numBits ∧
      l'.usedStatus.length = l.usedStatus.length ∧
      (∀ i, (l'.pos ≤ i ∧ i < l'.pos + l'.numBits) ↔
        (32 * l.wordnum + l.endbit ≤ i ∧ i < l.pos + l.numBits)) ∧
      ∀ i, bit l'.usedStatus i =
        if l.pos ≤ i ∧ i < 32 * l.wordnum + l.endbit then value else bit l.usedStatus i := by
  obtain ⟨hstart, hend, hmask, hbound⟩ := h
  have hword : l.wordnum < l.usedStatus.length := by omega
  have hx := List.getElem?_eq_getElem hword
  set x := l.usedStatus[l.wordnum]
  have hstep : setStatusStep value l = .inl
      ⟨l.wordnum + 1, l.numBits - (l.endbit - l.startbit), 0,
        min 32 (l.numBits - (l.endbit - l.startbit)),
        span 32 0 (min 32 (l.numBits - (l.endbit - l.startbit))),
        l.usedStatus.set l.wordnum (apply value x l.mask)⟩ := by
    rw [setStatusStep, if_neg (by omega), hx]
    dsimp only
    split_ifs with hle
    · rw [min_eq_left hle, fullMask_eq]
    · rw [min_eq_right (by omega), nextMask_eq (by omega)]
  refine ⟨_, hstep, ⟨by simp, by simp, rfl, ?_⟩, ?_, by simp, ?_, ?_⟩
  · simp only [List.length_set]
    omega
  · simp only
    omega
  · intro i
    simp only [SetStatusLoop.pos]
    omega
  · intro i
    rw [hmask, bit_set_apply hx (by omega) (by omega)]
    rfl

lemma iterate_setStatusStep (value : Bool) {n : ℕ} {l : SetStatusLoop} (h : l.Shape)
    (hn : l.numBits < n) :
    ∃ ws, iterate (setStatusStep value) n l = some (some ws) ∧
      ws.length = l.usedStatus.length ∧
      ∀ i, bit ws i = if l.pos ≤ i ∧ i < l.pos + l.numBits then value else bit l.usedStatus i := by
  -- one word an iteration; what it leaves of the range is changed by the rest of the loop
  induction n generalizing l with
  | zero => omega
  | succ n ih =>
    rcases Nat.eq_zero_or_pos l.numBits with hzero | hpos
    · have hstep : setStatusStep value l = .inr (some l.usedStatus) := by
        rw [setStatusStep, if_pos hzero]
      refine ⟨_, iterate_of_inr hstep n, rfl, fun i => ?_⟩
      rw [if_neg (by omega)]
    · have hend := h.endbit_eq
      have hstart := h.startbit_lt
      obtain ⟨l', hstep, hshape, hlt, hlen, hrest, hbits⟩ := setStatusStep_of_pos h hpos value
      obtain ⟨ws, hws, hwslen, hwsbits⟩ := ih hshape (by omega)
      refine ⟨ws, (iterate_of_inl hstep n).trans hws, hwslen.trans hlen, fun i => ?_⟩
      have hi := hrest i
      have hposeq : l.pos = 32 * l.wordnum + l.startbit := rfl
      rw [hwsbits, hbits]
      by_cases hleft : l'.pos ≤ i ∧ i < l'.pos + l'.numBits
      · rw [if_pos hleft, if_pos (by omega)]
      · rw [if_neg hleft]
        by_cases hword : l.pos ≤ i ∧ i < 32 * l.wordnum + l.endbit
        · rw [if_pos hword, if_pos (by omega)]
        · rw [if_neg hword, if_neg (by omega)]

/-- `CyU3PDmaBufMgrSetStatus` changes the bits of its range and no other bit. -/
lemma setStatus_eq {ws : StatusWords} (startPos numBits : ℕ)
    (h : startPos + numBits ≤ 32 * ws.length) (value : Bool) :
    ∃ ws', cyU3PDmaBufMgrSetStatus ws startPos numBits value = some ws' ∧
      ws'.length = ws.length ∧
      ∀ i, bit ws' i =
        if startPos ≤ i ∧ i < startPos + numBits then value else bit ws i := by
  have hmod := Nat.mod_lt startPos (show 0 < 32 by decide)
  have hdiv := Nat.div_add_mod startPos 32
  have hshape : SetStatusLoop.Shape ⟨startPos / 32, numBits, startPos % 32,
      min 32 (startPos % 32 + numBits),
      firstMask (startPos % 32) (min 32 (startPos % 32 + numBits)), ws⟩ :=
    ⟨hmod, rfl, firstMask_eq hmod (by omega) (by omega), by simp only; omega⟩
  obtain ⟨ws', hws, hlen, hbits⟩ := iterate_setStatusStep value hshape (Nat.lt_succ_self _)
  refine ⟨ws', ?_, hlen, ?_⟩
  · rw [cyU3PDmaBufMgrSetStatus, hws]
    rfl
  · intro i
    rw [hbits i, SetStatusLoop.pos, hdiv]

/-! ### The search -/

section Search

variable {ws : StatusWords} {searchPos want : ℕ}

/-- The line that is looked at. -/
def Search.pos (s : Search) : ℕ := 32 * s.wordnum + s.bitnum

/-- How many lines are still to be looked at. -/
def Search.left (statusSize : ℕ) (s : Search) : ℕ := 32 * (statusSize - s.tmp) - s.bitnum

/-- What is known of the lines that have been looked at: the search is behind `searchPos`, or it
has found nothing there and begun again at the first line. -/
def Search.Looked (ws : StatusWords) (searchPos want : ℕ) (s : Search) : Prop :=
  (searchPos ≤ s.wordnum ∧ s.wordnum < ws.length ∧ s.tmp + searchPos = s.wordnum ∧
    Scanned (bit ws) want (32 * searchPos) s.pos s.count) ∨
  ((∀ q, ¬ Fits (bit ws) want (32 * searchPos) (32 * ws.length) q) ∧
    s.pos ≤ 32 * searchPos ∧ s.tmp = ws.length - searchPos + s.wordnum ∧
    Scanned (bit ws) want 0 s.pos s.count)

/-- The invariant of the search. -/
structure Search.Inv (ws : StatusWords) (searchPos want : ℕ) (s : Search) : Prop where
  bitnum_lt : s.bitnum < 32
  count_lt : s.count < want
  start_eq : 0 < s.count → s.start + s.count = s.pos + 1
  searchPos_eq : s.searchPos = searchPos
  looked : s.Looked ws searchPos want

/-- What the search comes to. -/
def Search.Result (ws : StatusWords) (searchPos want : ℕ) (r : Search) : Prop :=
  (r.count = want ∧ r.searchPos < ws.length ∧
    ∃ p, r.start = p + 1 ∧ Next (bit ws) want (32 * searchPos) (32 * ws.length) p) ∨
  (r.count < want ∧ r.searchPos = searchPos ∧
    Full (bit ws) want (32 * searchPos) (32 * ws.length))

/-- On to the next line, when the line has been looked at. -/
lemma Search.Inv.advance {s t : Search} (h : s.Inv ws searchPos want)
    (hpos : searchPos < ws.length) (htmp : s.tmp < ws.length)
    (ht : t = { s with start := t.start, count := t.count }) (hcount : t.count < want)
    (hstart : 0 < t.count → t.start + t.count = s.pos + 2)
    (hscan : ∀ lo, Scanned (bit ws) want lo s.pos s.count →
      Scanned (bit ws) want lo (s.pos + 1) t.count) :
    (t.advance ws.length).Inv ws searchPos want ∧
      (t.advance ws.length).left ws.length < s.left ws.length := by
  obtain ⟨hbit, -, -, hsp, hlooked⟩ := h
  have hword : t.wordnum = s.wordnum := by rw [ht]
  have hbitnum : t.bitnum = s.bitnum := by rw [ht]
  have htmp' : t.tmp = s.tmp := by rw [ht]
  have hsp' : t.searchPos = searchPos := by rw [ht]; exact hsp
  have hspos : s.pos = 32 * s.wordnum + s.bitnum := rfl
  have hwant : 0 < want := by omega
  rw [Search.advance]
  split_ifs with hlast hwrap
  · -- the search comes to the end of the array: it is behind `searchPos`
    refine ⟨⟨by simp, hwant, by simp, hsp', .inr ⟨?_, ?_, ?_, ?_⟩⟩, ?_⟩
    · rcases hlooked with ⟨h₁, h₂, h₃, h₄⟩ | ⟨h₁, -⟩
      · have hend := (hscan _ h₄).none
        rwa [show s.pos + 1 = 32 * ws.length by omega] at hend
      · exact h₁
    · simp [Search.pos]
    · simp only
      rcases hlooked with ⟨h₁, h₂, h₃, h₄⟩ | ⟨h₁, h₂, h₃, h₄⟩ <;> omega
    · exact Scanned.start hwant
    · simp only [Search.left]
      omega
  · refine ⟨⟨by simp, hcount, ?_, hsp', ?_⟩, ?_⟩
    · intro hc
      simp only [Search.pos]
      have := hstart hc
      omega
    · have hnext : 32 * (t.wordnum + 1) + 0 = s.pos + 1 := by omega
      rcases hlooked with ⟨h₁, h₂, h₃, h₄⟩ | ⟨h₁, h₂, h₃, h₄⟩
      · refine .inl ⟨by simp only; omega, by simp only; omega, by simp only; omega, ?_⟩
        simp only [Search.pos, hnext]
        exact hscan _ h₄
      · refine .inr ⟨h₁, by simp only [Search.pos]; omega, by simp only; omega, ?_⟩
        simp only [Search.pos, hnext]
        exact hscan _ h₄
    · simp only [Search.left]
      omega
  · refine ⟨⟨by simp only; omega, hcount, ?_, hsp', ?_⟩, ?_⟩
    · intro hc
      simp only [Search.pos]
      have := hstart hc
      omega
    · have hnext : 32 * t.wordnum + (t.bitnum + 1) = s.pos + 1 := by omega
      rcases hlooked with ⟨h₁, h₂, h₃, h₄⟩ | ⟨h₁, h₂, h₃, h₄⟩
      · refine .inl ⟨by simp only; omega, by simp only; omega, by simp only; omega, ?_⟩
        simp only [Search.pos, hnext]
        exact hscan _ h₄
      · refine .inr ⟨h₁, by simp only [Search.pos]; omega, by simp only; omega, ?_⟩
        simp only [Search.pos, hnext]
        exact hscan _ h₄
    · simp only [Search.left]
      omega

lemma Search.Inv.wordnum_lt {s : Search} (h : s.Inv ws searchPos want)
    (htmp : s.tmp < ws.length) : s.wordnum < ws.length := by
  rcases h.looked with ⟨-, h, -⟩ | ⟨-, -, h, -⟩ <;> omega

lemma Search.Inv.count_le {s : Search} (h : s.Inv ws searchPos want) : s.count ≤ s.pos := by
  rcases h.looked with ⟨-, -, -, h⟩ | ⟨-, -, -, h⟩ <;> have := h.le <;> omega

/-- The zero that completes the count. -/
lemma Search.Inv.next {s : Search} (h : s.Inv ws searchPos want) (htmp : s.tmp < ws.length)
    (hpos : searchPos < ws.length) (hbit : bit ws s.pos = false) (hcount : s.count + 1 = want) :
    Next (bit ws) want (32 * searchPos) (32 * ws.length) (s.pos - s.count) := by
  have hspos : s.pos = 32 * s.wordnum + s.bitnum := rfl
  have hlt := h.bitnum_lt
  rcases h.looked with ⟨h₁, h₂, h₃, h₄⟩ | ⟨h₁, h₂, h₃, h₄⟩
  · exact .inl (h₄.first hbit hcount (by omega))
  · exact .inr ⟨h₁, h₄.first hbit hcount (by omega)⟩

lemma Search.Inv.startLine_add {s : Search} (h : s.Inv ws searchPos want) :
    s.startLine + s.count = s.pos + 1 := by
  rw [Search.startLine]
  split_ifs with hc
  · rw [hc, Search.pos, Nat.add_zero]
  · exact h.start_eq (by omega)

/-- One bit of the search: it goes on with the invariant, or it is over with a result. -/
lemma searchStep_cases {s : Search} (h : s.Inv ws searchPos want) (hpos : searchPos < ws.length) :
    (∃ s', searchStep ws ws.length want s = .inl s' ∧ s'.Inv ws searchPos want ∧
      s'.left ws.length < s.left ws.length) ∨
    ∃ r, searchStep ws ws.length want s = .inr (some r) ∧ r.Result ws searchPos want := by
  have hwant : 0 < want := by have := h.count_lt; omega
  have hstart := h.startLine_add
  have hspos : s.pos = 32 * s.wordnum + s.bitnum := rfl
  by_cases htmp : s.tmp < ws.length
  · have hword := h.wordnum_lt htmp
    have hx := List.getElem?_eq_getElem hword
    have htest := bit_eq_false_iff hx h.bitnum_lt
    by_cases hzero : ws[s.wordnum] &&& (1#32 <<< s.bitnum) = 0#32
    · by_cases hcount : s.count + 1 = want
      · -- the count is complete
        refine .inr ⟨{ s with start := s.startLine, count := s.count + 1, searchPos := s.wordnum },
          ?_, .inl ⟨hcount, hword, s.pos - s.count, ?_,
            h.next htmp hpos (htest.2 hzero) hcount⟩⟩
        · rw [searchStep, if_pos htmp, hx]
          dsimp only
          rw [if_pos hzero, if_pos hcount]
        · simp only
          have := h.count_le
          omega
      · refine .inl ⟨_, ?_, h.advance hpos htmp
          (t := { s with start := s.startLine, count := s.count + 1 }) rfl ?_ ?_ ?_⟩
        · rw [searchStep, if_pos htmp, hx]
          dsimp only
          rw [if_pos hzero, if_neg hcount]
        · have := h.count_lt
          simp only
          omega
        · intro _
          simp only
          omega
        · intro lo hlo
          exact hlo.free (htest.2 hzero) (by have := h.count_lt; omega)
    · refine .inl ⟨_, ?_, h.advance hpos htmp (t := { s with count := 0 }) rfl hwant (by simp) ?_⟩
      · rw [searchStep, if_pos htmp, hx]
        dsimp only
        rw [if_neg hzero]
      · intro lo hlo
        rw [← htest, Bool.not_eq_false] at hzero
        exact hlo.taken hzero hwant
  · -- all words have been looked at
    right
    refine ⟨s, by rw [searchStep, if_neg htmp], .inr ⟨h.count_lt, h.searchPos_eq, ?_⟩⟩
    rcases h.looked with ⟨h₁, h₂, h₃, -⟩ | ⟨h₁, h₂, h₃, h₄⟩
    · omega
    · refine ⟨h₁, ?_⟩
      have hend := h₄.none
      rwa [show s.pos = 32 * searchPos by omega] at hend

lemma iterate_searchStep {n : ℕ} {s : Search} (h : s.Inv ws searchPos want)
    (hpos : searchPos < ws.length) (hn : s.left ws.length < n) :
    ∃ r, iterate (searchStep ws ws.length want) n s = some (some r) ∧
      r.Result ws searchPos want := by
  induction n generalizing s with
  | zero => omega
  | succ n ih =>
    rcases searchStep_cases h hpos with ⟨s', hstep, hinv, hlt⟩ | ⟨r, hstep, hr⟩
    · obtain ⟨r, hr, hres⟩ := ih hinv (by omega)
      exact ⟨r, (iterate_of_inl hstep n).trans hr, hres⟩
    · exact ⟨r, iterate_of_inr hstep n, hr⟩

/-- The search ends, stays inside the array, and finds the next place that fits, if there is
one. -/
lemma search_spec (hwant : 0 < want) (hpos : searchPos < ws.length) :
    ∃ r, searchLines ws ws.length searchPos want = some r ∧ r.Result ws searchPos want := by
  have hinv : Search.Inv ws searchPos want ⟨searchPos, 0, 0, 0, 0, searchPos⟩ :=
    ⟨by simp, hwant, by simp, rfl,
      .inl ⟨Nat.le_refl _, hpos, Nat.zero_add _, Scanned.start hwant⟩⟩
  obtain ⟨r, hr, hres⟩ := iterate_searchStep hinv hpos
    (n := 32 * ws.length + 1) (by simp [Search.left])
  exact ⟨r, by rw [searchLines, hr]; rfl, hres⟩

end Search

/-! ### The count -/

/-- One bit of the count: a one is counted, and at a zero or behind the array the count is over. -/
lemma countStep_cases (ws : StatusWords) (wordnum : ℕ) {bitnum : ℕ} (hbit : bitnum < 32)
    (count : ℕ) :
    (bit ws (32 * wordnum + bitnum) = true ∧ wordnum < ws.length ∧
      ∃ wordnum' bitnum', bitnum' < 32 ∧ 32 * wordnum' + bitnum' = 32 * wordnum + bitnum + 1 ∧
      countStep ws ws.length (wordnum, bitnum, count) = .inl (wordnum', bitnum', count + 1)) ∨
    (bit ws (32 * wordnum + bitnum) = false ∧
      countStep ws ws.length (wordnum, bitnum, count) = .inr (some count)) := by
  by_cases hword : wordnum < ws.length
  · have hx := List.getElem?_eq_getElem hword
    have htest := bit_eq_false_iff hx hbit
    by_cases hzero : ws[wordnum] &&& (1#32 <<< bitnum) = 0#32
    · refine .inr ⟨htest.2 hzero, ?_⟩
      rw [countStep, if_pos hword, hx]
      dsimp only
      rw [if_pos hzero]
    · have hone : bit ws (32 * wordnum + bitnum) = true := by
        rwa [← htest, Bool.not_eq_false] at hzero
      refine .inl ⟨hone, hword, ?_⟩
      rw [countStep, if_pos hword, hx]
      dsimp only
      rw [if_neg hzero]
      split_ifs with hlast
      · exact ⟨wordnum + 1, 0, by omega, by omega, rfl⟩
      · exact ⟨wordnum, bitnum + 1, by omega, by omega, rfl⟩
  · refine .inr ⟨bit_of_le (by omega), ?_⟩
    rw [countStep, if_neg hword]

lemma iterate_countStep {ws : StatusWords} {n bitnum : ℕ} (wordnum count : ℕ) (hbit : bitnum < 32)
    (hn : 32 * ws.length < 32 * wordnum + bitnum + n) (hn₀ : 0 < n) :
    ∃ k, iterate (countStep ws ws.length) n (wordnum, bitnum, count) = some (some (count + k)) ∧
      (∀ i, i < k → bit ws (32 * wordnum + bitnum + i) = true) ∧
      bit ws (32 * wordnum + bitnum + k) = false := by
  induction n generalizing wordnum bitnum count with
  | zero => omega
  | succ n ih =>
    rcases countStep_cases ws wordnum hbit count with
      ⟨hone, hword, wordnum', bitnum', hbit', hpos, hstep⟩ | ⟨hzero, hstep⟩
    · obtain ⟨k, hk, hones, hend⟩ := ih wordnum' (count + 1) hbit' (by omega) (by omega)
      refine ⟨k + 1, ?_, ?_, ?_⟩
      · rw [iterate_of_inl hstep, hk, Nat.add_right_comm, Nat.add_assoc]
      · intro i hi
        rcases Nat.eq_zero_or_pos i with rfl | hpos'
        · exact hone
        · have := hones (i - 1) (by omega)
          rwa [hpos, show 32 * wordnum + bitnum + 1 + (i - 1) = 32 * wordnum + bitnum + i by omega]
            at this
      · rwa [hpos, Nat.add_assoc, Nat.add_comm 1 k] at hend
    · exact ⟨0, iterate_of_inr hstep n, by simp, hzero⟩

/-- The count is the number of ones in a row from `start` on. -/
lemma countOnes_spec (ws : StatusWords) (start : ℕ) :
    ∃ k, countOnes ws ws.length start = some k ∧
      (∀ i, start ≤ i → i < start + k → bit ws i = true) ∧ bit ws (start + k) = false := by
  have hdiv := Nat.div_add_mod start 32
  obtain ⟨k, hk, hones, hend⟩ := iterate_countStep (start / 32) 0
    (Nat.mod_lt start (show 0 < 32 by decide))
    (show 32 * ws.length < 32 * (start / 32) + start % 32 + (32 * ws.length + 1) by omega)
    (by omega)
  rw [hdiv] at hones hend
  refine ⟨k, ?_, ?_, hend⟩
  · rw [countOnes, hk, Nat.zero_add]
    rfl
  · intro i h₁ h₂
    have hi := hones (i - start) (by omega)
    rwa [Nat.add_sub_cancel' h₁] at hi

end Fx3Ncm
