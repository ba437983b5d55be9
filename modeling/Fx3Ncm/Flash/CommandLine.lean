/-
# The command line of the flash tool

The loop of the `main` function of `download_fx3.cpp` over its arguments.  The options for the
target and for the help are compared without regard to case, the one for the image with it; an
option without a value at the end is skipped; options may be repeated.

`command_line_exact` says which command lines are accepted, and what they mean.
-/
import Mathlib.Data.Int.Notation
import Mathlib.Data.List.Basic
import Mathlib.Tactic.SplitIfs

namespace Fx3Ncm.Flash

/-! ### The model -/

/-- `fx3_fw_target`; the value `FW_TARGET_NONE` is `none`. -/
inductive FwTarget where
  | ram
  | i2c
  | spi
deriving DecidableEq, Repr

/-- `strcasecmp (a, b) == 0` -/
def strcaseeq (a b : String) : Bool :=
  decide (a.toList.map Char.toLower = b.toList.map Char.toLower)

def isHelp (a : String) : Bool := strcaseeq a "-h" || strcaseeq a "--help"

def isTarget (a : String) : Bool := strcaseeq a "-t" || strcaseeq a "--target"

def isImage (a : String) : Bool := a == "-i" || a == "--image"

/-- The three comparisons that set the target; it keeps its value if none of them applies. -/
def selectTarget (v : String) (tgt : Option FwTarget) : Option FwTarget :=
  let tgt := if strcaseeq v "ram" then some .ram else tgt
  let tgt := if strcaseeq v "i2c" then some .i2c else tgt
  if strcaseeq v "spi" then some .spi else tgt

/-- The variables of `main` that hold the options. -/
structure ToolOptions where
  filename : Option String
  tgtStr : Option String
  tgt : Option FwTarget
deriving DecidableEq, Repr

/-- The error codes of `main`. -/
@[simp, reducible] def einval : ℤ := 22

@[simp, reducible] def enodev : ℤ := 19

/-- The loop over the arguments.  The loop may end `main` with a return value. -/
def parseArguments : List String → ToolOptions → Except ℤ ToolOptions
  | [], o => .ok o
  | [a], o =>
    if isHelp a then .error 0
    -- an option without a value is skipped
    else if isTarget a || isImage a then .ok o
    else .error (-einval)
  | a :: v :: args, o =>
    if isHelp a then .error 0
    else if isTarget a then
      match selectTarget v o.tgt with
      | none => .error (-einval)
      | some tgt => parseArguments args { o with tgtStr := some v, tgt := some tgt }
    else if isImage a then parseArguments args { o with filename := some v }
    else .error (-einval)

/-- A complete command line. -/
structure Command where
  filename : String
  tgtStr : Option String
  tgt : FwTarget
deriving DecidableEq, Repr

/-- The part of `main` that reads the arguments. -/
def readCommand (args : List String) : Except ℤ Command :=
  match parseArguments args ⟨none, none, none⟩ with
  | .error r => .error r
  | .ok ⟨some filename, tgtStr, some tgt⟩ => .ok ⟨filename, tgtStr, tgt⟩
  | .ok _ => .error (-einval)

/-! ### The command line, as it is meant -/

/-- The target with this name. -/
def targetOf (v : String) : Option FwTarget := selectTarget v none

/-- The values of the options `-t` among pairs of an option and its value. -/
def targets (ps : List (String × String)) : List String :=
  (ps.filter fun p => isTarget p.1).map Prod.snd

/-- The values of the options `-i`. -/
def images (ps : List (String × String)) : List String :=
  (ps.filter fun p => isImage p.1).map Prod.snd

/-- The arguments are these pairs, and perhaps an option at the end without a value. -/
structure Splits (args : List String) (ps : List (String × String)) : Prop where
  options : ∀ p ∈ ps, isTarget p.1 = true ∨ isImage p.1 = true
  rest : ∃ rest, args = ps.flatMap (fun p => [p.1, p.2]) ++ rest ∧
    (rest = [] ∨ ∃ a, rest = [a] ∧ (isTarget a = true ∨ isImage a = true))

lemma selectTarget_eq (v : String) (tgt : Option FwTarget) :
    selectTarget v tgt = (targetOf v).or tgt := by
  simp only [targetOf, selectTarget]
  split_ifs <;> rfl

lemma isHelp_of_isTarget {a : String} (h : isTarget a = true) : isHelp a = false := by
  simp only [isTarget, isHelp, strcaseeq, Bool.or_eq_true, decide_eq_true_eq,
    Bool.or_eq_false_iff, decide_eq_false_iff_not] at h ⊢
  rcases h with h | h
  · rw [h]
    decide
  · rw [h]
    decide

lemma isImage_cases {a : String} (h : isImage a = true) :
    isHelp a = false ∧ isTarget a = false := by
  simp only [isImage, Bool.or_eq_true, beq_iff_eq] at h
  rcases h with rfl | rfl
  · decide
  · decide

lemma isImage_of_isTarget {a : String} (h : isTarget a = true) : isImage a = false := by
  by_contra himage
  rw [Bool.not_eq_false] at himage
  rw [(isImage_cases himage).2] at h
  cases h

section Parser

variable {a v : String} {args : List String} {ps : List (String × String)} {o o' : ToolOptions}

lemma targets_cons_target (h : isTarget a = true) : targets ((a, v) :: ps) = v :: targets ps := by
  simp [targets, h]

lemma targets_cons_image (h : isImage a = true) : targets ((a, v) :: ps) = targets ps := by
  simp [targets, (isImage_cases h).2]

lemma images_cons_target (h : isTarget a = true) : images ((a, v) :: ps) = images ps := by
  simp [images, isImage_of_isTarget h]

lemma images_cons_image (h : isImage a = true) : images ((a, v) :: ps) = v :: images ps := by
  simp [images, h]

lemma getLast?_cons_or {α : Type*} (x : α) (xs : List α) (y : Option α) :
    (x :: xs).getLast?.or y = xs.getLast?.or (some x) := by
  rw [List.getLast?_cons]
  cases xs.getLast? <;> rfl

/-- What the loop makes of the pairs: the last values count, and of the targets the last one that
is known. -/
def ToolOptions.after (o : ToolOptions) (ps : List (String × String)) : ToolOptions where
  filename := (images ps).getLast?.or o.filename
  tgtStr := (targets ps).getLast?.or o.tgtStr
  tgt := ((targets ps).filterMap targetOf).getLast?.or o.tgt

/-- As long as there is no target, a name that is not known ends the loop. -/
def TargetsKnown (o : ToolOptions) (ps : List (String × String)) : Prop :=
  o.tgt = none → ∀ v ∈ (targets ps).head?, targetOf v ≠ none

lemma after_cons_image (h : isImage a = true) :
    o.after ((a, v) :: ps) = { o with filename := some v }.after ps := by
  simp only [ToolOptions.after, targets_cons_image h, images_cons_image h, getLast?_cons_or]

lemma after_cons_target (h : isTarget a = true) {tgt : FwTarget}
    (ht : selectTarget v o.tgt = some tgt) :
    o.after ((a, v) :: ps) = { o with tgtStr := some v, tgt := some tgt }.after ps := by
  simp only [ToolOptions.after, targets_cons_target h, images_cons_target h, getLast?_cons_or,
    ToolOptions.mk.injEq, true_and]
  rw [selectTarget_eq] at ht
  cases hv : targetOf v with
  | none =>
    rw [hv, Option.none_or] at ht
    rw [List.filterMap_cons_none hv, ht]
  | some t =>
    rw [hv, Option.some_or] at ht
    rw [List.filterMap_cons_some hv, getLast?_cons_or, ht]

lemma Splits.nil : Splits [] [] := ⟨by simp, [], rfl, .inl rfl⟩

lemma Splits.single (h : isTarget a = true ∨ isImage a = true) : Splits [a] [] :=
  ⟨by simp, [a], rfl, .inr ⟨a, rfl, h⟩⟩

lemma Splits.cons (h : isTarget a = true ∨ isImage a = true) (hs : Splits args ps) :
    Splits (a :: v :: args) ((a, v) :: ps) := by
  obtain ⟨hps, rest, rfl, hrest⟩ := hs
  refine ⟨?_, rest, rfl, hrest⟩
  intro p hp
  rcases List.mem_cons.1 hp with rfl | hp
  · exact h
  · exact hps p hp

/-- What the loop accepts. -/
lemma splits_of_parse (h : parseArguments args o = .ok o') :
    ∃ ps, Splits args ps ∧ TargetsKnown o ps ∧ o' = o.after ps := by
  fun_induction parseArguments args o with
  | case1 o =>
    cases h
    exact ⟨[], .nil, fun _ _ hv => (Option.not_mem_none _ hv).elim, rfl⟩
  | case2 | case5 | case6 | case9 => cases h
  | case3 a o hhelp hflag =>
    cases h
    rw [Bool.or_eq_true] at hflag
    exact ⟨[], .single hflag, fun _ _ hv => (Option.not_mem_none _ hv).elim, rfl⟩
  | case4 => cases h
  | case7 a v args o hhelp htarget tgt ht ih =>
    obtain ⟨ps, hps, -, rfl⟩ := ih h
    refine ⟨(a, v) :: ps, hps.cons (.inl htarget), ?_, (after_cons_target htarget ht).symm⟩
    intro hnone v' hv'
    rw [targets_cons_target htarget] at hv'
    obtain rfl : v = v' := Option.some.inj hv'
    rw [selectTarget_eq, hnone, Option.or_none] at ht
    rw [ht]
    exact Option.some_ne_none tgt
  | case8 a v args o hhelp htarget himage ih =>
    obtain ⟨ps, hps, hknown, rfl⟩ := ih h
    refine ⟨(a, v) :: ps, hps.cons (.inr himage), ?_, (after_cons_image himage).symm⟩
    intro hnone
    rw [targets_cons_image himage]
    exact hknown hnone

/-- What is accepted by the loop, the other way round. -/
lemma parse_of_splits (h : Splits args ps) (hknown : TargetsKnown o ps) :
    parseArguments args o = .ok (o.after ps) := by
  obtain ⟨hps, rest, rfl, hrest⟩ := h
  induction ps generalizing o with
  | nil =>
    rcases hrest with rfl | ⟨a, rfl, ha | ha⟩
    · rfl
    · simp [parseArguments, isHelp_of_isTarget ha, ha, ToolOptions.after, targets, images]
    · simp [parseArguments, isImage_cases ha, ha, ToolOptions.after, targets, images]
  | cons p ps ih =>
    obtain ⟨a, v⟩ := p
    have hps' : ∀ p ∈ ps, isTarget p.1 = true ∨ isImage p.1 = true :=
      fun p hp => hps p (List.mem_cons_of_mem _ hp)
    rw [List.flatMap_cons, List.append_assoc, List.cons_append, List.cons_append, List.nil_append,
      parseArguments]
    rcases hps _ List.mem_cons_self with ha | ha
    · obtain ⟨tgt, ht⟩ : ∃ tgt, selectTarget v o.tgt = some tgt := by
        rw [selectTarget_eq, ← Option.isSome_iff_exists, Option.isSome_or, Bool.or_eq_true]
        cases ho : o.tgt with
        | some t => exact .inr rfl
        | none =>
          refine .inl (Option.isSome_iff_ne_none.2 (hknown ho v ?_))
          rw [targets_cons_target ha]
          rfl
      simp only [isHelp_of_isTarget ha, ha, ht, Bool.false_eq_true, if_false, if_true]
      rw [after_cons_target ha ht]
      exact ih (fun hnone => by cases hnone) hps'
    · simp only [isImage_cases ha, ha, Bool.false_eq_true, if_false, if_true]
      rw [after_cons_image ha]
      refine ih (fun hnone => ?_) hps'
      have hknown' := hknown hnone
      rwa [targets_cons_image ha] at hknown'

lemma parse_ok_iff : parseArguments args o = .ok o' ↔
    ∃ ps, Splits args ps ∧ TargetsKnown o ps ∧ o' = o.after ps := by
  refine ⟨splits_of_parse, ?_⟩
  rintro ⟨ps, hps, hknown, rfl⟩
  exact parse_of_splits hps hknown

end Parser

/-- The command lines that are accepted: pairs of an option and a value, and perhaps an option
without one at the end.  The last file counts; the first target must be known, and the last one
that is known counts, while the one that is announced is the last one of all. -/
theorem command_line_exact (args : List String) (c : Command) :
    readCommand args = .ok c ↔ ∃ ps, Splits args ps ∧ (images ps).getLast? = some c.filename ∧
      (∃ v, (targets ps).head? = some v ∧ targetOf v ≠ none) ∧
      (targets ps).getLast? = c.tgtStr ∧
      ((targets ps).filterMap targetOf).getLast? = some c.tgt := by
  have hread : readCommand args = .ok c ↔
      parseArguments args ⟨none, none, none⟩ = .ok ⟨some c.filename, c.tgtStr, some c.tgt⟩ := by
    obtain ⟨filename, tgtStr, tgt⟩ := c
    rw [readCommand]
    split <;> simp_all
  rw [hread, parse_ok_iff]
  refine exists_congr fun ps => and_congr_right fun _ => ?_
  simp only [TargetsKnown, ToolOptions.after, ToolOptions.mk.injEq, Option.or_none, true_imp_iff]
  constructor
  · rintro ⟨hknown, hfile, hstr, htgt⟩
    refine ⟨hfile.symm, ?_, hstr.symm, htgt.symm⟩
    cases hv : (targets ps).head? with
    | none =>
      rw [List.head?_eq_none_iff.1 hv] at htgt
      cases htgt
    | some v => exact ⟨v, rfl, hknown v hv⟩
  · rintro ⟨hfile, ⟨v, hv, hknown⟩, hstr, htgt⟩
    refine ⟨?_, hfile.symm, hstr.symm, htgt.symm⟩
    intro v' hv'
    rw [hv] at hv'
    obtain rfl : v = v' := Option.some.inj hv'
    exact hknown

/-- The target that is announced need not be a target. -/
example : readCommand ["-t", "ram", "--image", "app.img", "-T", "flash", "-i"] =
    .ok ⟨"app.img", some "flash", .ram⟩ := by
  decide

end Fx3Ncm.Flash
