import Mathlib.Data.List.Induction
import TreeScript.Options

/-!
# Proofs — the arguments of a run

The arguments that `Options.parse` accepts are those of a grammar that looks at no state: each is a
flag, a depth limit, or a path, and at most one is a path (`Options.Grammatical`).  What they are
read as does not depend on where the flags and the path stand, and on the depth limits only through
the last one (`Options.Reads`); and arguments that are refused are refused at the first one with
which they leave the grammar (`options_exact`).

One more argument either keeps all of this or is the one complained about (`Options.add_spec`); the
arguments read so far are the invariant of the loop over them (`Options.addAll_spec`).
-/

namespace TreeScript

namespace Options

/-! ### The grammar of arguments -/

/-- The arguments that switch something on by being there. -/
def flags : List String :=
  ["--strict-operands", "--lenient-arity", "--ieee-division", "--print-result"]

/-- Whether an argument starts with a dash. -/
def dashed (argument : String) : Bool := argument.toList.head? = some '-'

/-- The text after `--max-depth=`, in an argument that starts so. -/
def depthText? (argument : String) : Option String :=
  if "--max-depth=".toList.isPrefixOf argument.toList then
    some (String.ofList (argument.toList.drop "--max-depth=".length))
  else none

/-- The digits, at least one, spell the number in the decimal system. -/
inductive Spells : List Char → Nat → Prop where
  | digit {c : Char} : c.isDigit → Spells [c] (c.toNat - '0'.toNat)
  | more {digits : List Char} {n : Nat} {c : Char} : Spells digits n → c.isDigit →
      Spells (digits ++ [c]) (10 * n + (c.toNat - '0'.toNat))

/-- What a depth limit can be: `none`, or a number below `2 ^ 64`, perhaps after a plus sign. -/
inductive Limit : String → Option Nat → Prop where
  | none : Limit "none" none
  | number {digits : List Char} {n : Nat} : Spells digits n → n < Nat.pow 2 64 →
      Limit (String.ofList digits) (some n)
  | plus {digits : List Char} {n : Nat} : Spells digits n → n < Nat.pow 2 64 →
      Limit (String.ofList ('+' :: digits)) (some n)

/-- The argument fits by itself. -/
inductive Admissible : String → Prop where
  | flag {argument : String} : argument ∈ flags → Admissible argument
  | depth {text : String} {limit : Option Nat} : Limit text limit →
      Admissible ("--max-depth=" ++ text)
  | path {argument : String} : dashed argument = false → Admissible argument

/-- Each argument fits by itself, and at most one of them is a path. -/
structure Grammatical (arguments : List String) : Prop where
  each : ∀ argument ∈ arguments, Admissible argument
  path : arguments.countP (dashed · = false) ≤ 1

/-- The texts of the depth limits among the arguments, in their order. -/
def depthTexts (arguments : List String) : List String := arguments.filterMap depthText?

/-- What the arguments, taken as a whole, ask for. -/
structure Reads (arguments : List String) (options : Options) : Prop where
  mixedOperands : options.policy.mixedOperands ≠ Policy.default.mixedOperands ↔
    "--strict-operands" ∈ arguments
  arity : options.policy.arity ≠ Policy.default.arity ↔ "--lenient-arity" ∈ arguments
  zeroDivision : options.policy.zeroDivision ≠ Policy.default.zeroDivision ↔
    "--ieee-division" ∈ arguments
  printResult : options.printResult ≠ false ↔ "--print-result" ∈ arguments
  defaultDepth : depthTexts arguments = [] →
    options.policy.maxCallDepth = Policy.default.maxCallDepth
  lastDepth {text : String} : (depthTexts arguments).getLast? = some text →
    Limit text options.policy.maxCallDepth
  path {argument : String} : options.path = some argument ↔
    argument ∈ arguments ∧ dashed argument = false

/-- What is said about an argument that does not fit, or not any more. -/
inductive Complaint : String → String → Prop where
  | depth {text : String} : (∀ limit, ¬ Limit text limit) →
      Complaint ("--max-depth=" ++ text) ("invalid --max-depth value '" ++ text ++ "'")
  | unknown {argument : String} : dashed argument = true → argument ∉ flags →
      depthText? argument = none → Complaint argument ("unknown option '" ++ argument ++ "'")
  | path {argument : String} : dashed argument = false →
      Complaint argument ("unexpected argument '" ++ argument ++ "'")

/-! ### Depth limits -/

theorem drop_depthOption (rest : List Char) :
    ("--max-depth=".toList ++ rest).drop "--max-depth=".length = rest := by
  rw [← String.length_toList, List.drop_left]

/-- The text of a limit is what follows the name of the option. -/
theorem depthText?_eq_some_iff {argument text : String} :
    depthText? argument = some text ↔ argument = "--max-depth=" ++ text := by
  rw [depthText?]
  constructor
  · intro h
    split at h <;> cases h
    rename_i hstart
    obtain ⟨rest, hrest⟩ := List.isPrefixOf_iff_prefix.mp hstart
    rw [← String.toList_inj, String.toList_append, ← hrest, drop_depthOption]
    simp
  · rintro rfl
    rw [String.toList_append, drop_depthOption, String.ofList_toList, if_pos]
    exact List.isPrefixOf_iff_prefix.mpr (List.prefix_append ..)

theorem dashed_of_depthText? {argument text : String} (h : depthText? argument = some text) :
    dashed argument = true := by
  rw [depthText?_eq_some_iff.mp h, dashed, String.toList_append]
  rfl

theorem dashed_of_mem_flags {argument : String} (h : argument ∈ flags) :
    dashed argument = true ∧ depthText? argument = none := by
  revert argument
  decide

/-- Digits spell the number that they denote in base ten. -/
theorem spells_iff {digits : List Char} {n : Nat} : Spells digits n ↔
    digits ≠ [] ∧ (∀ c ∈ digits, c.isDigit) ∧ Nat.ofDigitChars 10 digits 0 = n := by
  constructor
  · intro h
    induction h with
    | digit hc => simp [hc, Nat.ofDigitChars]
    | more _ hc ih =>
        obtain ⟨-, hdigits, rfl⟩ := ih
        refine ⟨by simp, by simpa [or_imp, forall_and] using ⟨hdigits, hc⟩, ?_⟩
        simp [Nat.ofDigitChars]
  · rintro ⟨hne, hdigits, rfl⟩
    induction digits using List.reverseRecOn with
    | nil => exact absurd rfl hne
    | append_singleton digits c ih =>
        have hc : c.isDigit := hdigits c (by simp)
        cases digits with
        | nil => simpa [Nat.ofDigitChars] using Spells.digit hc
        | cons first digits =>
            have hbefore := ih (by simp) fun c' hc' => hdigits c' (List.mem_append_left _ hc')
            simpa [Nat.ofDigitChars] using hbefore.more hc

/-- What becomes of the digits of a limit, with or without a sign before them. -/
theorem readDigits_eq_some_iff {digits : List Char} {n : Nat} :
    (if digits.isEmpty || !digits.all Char.isDigit then none
      else if Nat.ofDigitChars 10 digits 0 < Nat.pow 2 64 then some (Nat.ofDigitChars 10 digits 0)
        else none) = some n ↔ Spells digits n ∧ n < Nat.pow 2 64 := by
  have hcondition : (digits.isEmpty || !digits.all Char.isDigit) = true ↔
      ¬(digits ≠ [] ∧ ∀ c ∈ digits, c.isDigit) := by
    simp [imp_iff_not_or]
  rw [spells_iff]
  split
  · rename_i hbad
    refine ⟨nofun, ?_⟩
    rintro ⟨⟨hne, hdigits, -⟩, -⟩
    exact absurd ⟨hne, hdigits⟩ (hcondition.mp hbad)
  · rename_i hgood
    obtain ⟨hne, hdigits⟩ := not_not.mp (mt hcondition.mpr hgood)
    split
    · rename_i hlt
      constructor
      · rintro ⟨⟩
        exact ⟨⟨hne, hdigits, rfl⟩, hlt⟩
      · rintro ⟨⟨-, -, rfl⟩, -⟩
        rfl
    · rename_i hge
      refine ⟨nofun, ?_⟩
      rintro ⟨⟨-, -, rfl⟩, hlt⟩
      exact absurd hlt hge

/-- A depth is read from digits only, perhaps after a plus sign, and only if it fits in 64 bits. -/
theorem readDepth?_eq_some_iff {text : String} {n : Nat} : readDepth? text = some n ↔
    ∃ digits, (text.toList = digits ∨ text.toList = '+' :: digits) ∧ Spells digits n ∧
      n < Nat.pow 2 64 := by
  rw [readDepth?]
  split
  · rename_i digits htext
    refine readDigits_eq_some_iff.trans ⟨fun h => ⟨digits, .inr htext, h⟩, ?_⟩
    rintro ⟨digits', hdigits | hdigits, hspells, hlt⟩
    · -- a plus sign is no digit
      cases (spells_iff.mp hspells).2.1 '+' (by simp [← hdigits, htext])
    · cases htext.symm.trans hdigits
      exact ⟨hspells, hlt⟩
  · rename_i hplus
    refine readDigits_eq_some_iff.trans ⟨fun h => ⟨text.toList, .inl rfl, h⟩, ?_⟩
    rintro ⟨digits, rfl | hdigits, h⟩
    · exact h
    · exact absurd hdigits (hplus digits)

theorem readLimit_of_readDepth? {text : String} {n : Nat} (h : readDepth? text = some n) :
    readLimit text = .ok (some n) := by
  have hne : text ≠ "none" := by
    rintro rfl
    cases h
  rw [readLimit, if_neg hne, h]

/-- **A depth limit is read** as what it can be, and nothing else is read. -/
theorem readLimit_eq_ok_iff {text : String} {limit : Option Nat} :
    readLimit text = .ok limit ↔ Limit text limit := by
  constructor
  · intro h
    rw [readLimit] at h
    split at h
    · rename_i hnone
      cases h
      exact hnone ▸ .none
    · split at h <;> cases h
      rename_i n hdepth
      obtain ⟨digits, htext, hspells, hlt⟩ := readDepth?_eq_some_iff.mp hdepth
      rw [← String.ofList_toList (s := text)]
      rcases htext with htext | htext <;> rw [htext]
      · exact .number hspells hlt
      · exact .plus hspells hlt
  · rintro (_ | ⟨hspells, hlt⟩ | ⟨hspells, hlt⟩)
    · rfl
    · exact readLimit_of_readDepth?
        (readDepth?_eq_some_iff.mpr ⟨_, .inl String.toList_ofList, hspells, hlt⟩)
    · exact readLimit_of_readDepth?
        (readDepth?_eq_some_iff.mpr ⟨_, .inr String.toList_ofList, hspells, hlt⟩)

/-- What is not a depth limit is reported. -/
theorem readLimit_eq_error {text : String} {fault : OptionFault}
    (h : readLimit text = .error fault) :
    fault = .invalidDepth text ∧ ∀ limit, ¬ Limit text limit := by
  constructor
  · rw [readLimit] at h
    split at h
    · cases h
    · split at h <;> cases h
      rfl
  · intro limit hlimit
    cases h.symm.trans (readLimit_eq_ok_iff.mpr hlimit)

/-! ### What one argument does -/

/-- What an argument is, by its text alone. -/
inductive Shape : String → Argument → Prop where
  | strictOperands : Shape "--strict-operands" .strictOperands
  | lenientArity : Shape "--lenient-arity" .lenientArity
  | ieeeDivision : Shape "--ieee-division" .ieeeDivision
  | printResult : Shape "--print-result" .printResult
  | maxDepth {argument text : String} : depthText? argument = some text →
      Shape argument (.maxDepth text)
  | unknown {argument : String} : dashed argument = true → argument ∉ flags →
      depthText? argument = none → Shape argument (.unknown argument)
  | path {argument : String} : dashed argument = false → Shape argument (.path argument)

/-- An argument is understood by its shape. -/
theorem shape_of (argument : String) : Shape argument (Argument.of argument) := by
  rw [Argument.of]
  split_ifs with hstrict hlenient hieee hprint hdepth hdash
  · exact hstrict ▸ .strictOperands
  · exact hlenient ▸ .lenientArity
  · exact hieee ▸ .ieeeDivision
  · exact hprint ▸ .printResult
  · exact .maxDepth (if_pos hdepth)
  · refine .unknown (decide_eq_true hdash) ?_ (if_neg hdepth)
    simp [flags, hstrict, hlenient, hieee, hprint]
  · exact .path (decide_eq_false hdash)

/-- What an argument that is accepted changes. -/
structure Adds (options : Options) (argument : String) (options' : Options) : Prop where
  mixedOperands : options'.policy.mixedOperands =
    if argument = "--strict-operands" then .strict else options.policy.mixedOperands
  arity : options'.policy.arity =
    if argument = "--lenient-arity" then .lenient else options.policy.arity
  zeroDivision : options'.policy.zeroDivision =
    if argument = "--ieee-division" then .ieee else options.policy.zeroDivision
  printResult : options'.printResult =
    if argument = "--print-result" then true else options.printResult
  limit {text : String} : depthText? argument = some text →
    Limit text options'.policy.maxCallDepth
  sameLimit : depthText? argument = none →
    options'.policy.maxCallDepth = options.policy.maxCallDepth
  path : options'.path = if dashed argument then options.path else some argument
  free : dashed argument = false → options.path = none

theorem not_mem_flags_of_depthText? {argument text : String} (h : depthText? argument = some text) :
    argument ∉ flags := by
  intro hflag
  cases h.symm.trans (dashed_of_mem_flags hflag).2

theorem not_mem_flags_of_not_dashed {argument : String} (h : dashed argument = false) :
    argument ∉ flags := by
  intro hflag
  cases h.symm.trans (dashed_of_mem_flags hflag).1

theorem depthText?_of_not_dashed {argument : String} (h : dashed argument = false) :
    depthText? argument = none := by
  cases htext : depthText? argument with
  | none => rfl
  | some text => cases h.symm.trans (dashed_of_depthText? htext)

/-- A flag leaves the depth limit and the path alone. -/
theorem adds_flag {options options' : Options} {argument : String} (hflag : argument ∈ flags)
    (hmixed : options'.policy.mixedOperands =
      if argument = "--strict-operands" then .strict else options.policy.mixedOperands)
    (harity : options'.policy.arity =
      if argument = "--lenient-arity" then .lenient else options.policy.arity)
    (hzero : options'.policy.zeroDivision =
      if argument = "--ieee-division" then .ieee else options.policy.zeroDivision)
    (hprint : options'.printResult =
      if argument = "--print-result" then true else options.printResult)
    (hlimit : options'.policy.maxCallDepth = options.policy.maxCallDepth)
    (hpath : options'.path = options.path) : Adds options argument options' := by
  obtain ⟨hdashed, hdepth⟩ := dashed_of_mem_flags hflag
  exact {
    mixedOperands := hmixed
    arity := harity
    zeroDivision := hzero
    printResult := hprint
    limit := fun htext => by cases hdepth.symm.trans htext
    sameLimit := fun _ => hlimit
    path := by rw [if_pos hdashed, hpath]
    free := fun hpath => by cases hdashed.symm.trans hpath }

/-- Any other argument leaves the settings alone that flags switch on. -/
theorem adds_other {options : Options} {argument : String} (hflags : argument ∉ flags)
    {limit : Option Nat} {path : Option String}
    (hlimit : ∀ text, depthText? argument = some text → Limit text limit)
    (hsame : depthText? argument = none → limit = options.policy.maxCallDepth)
    (hpath : path = if dashed argument then options.path else some argument)
    (hfree : dashed argument = false → options.path = none) :
    Adds options argument
      { options with policy := { options.policy with maxCallDepth := limit }, path := path } := by
  simp only [flags, List.mem_cons, List.not_mem_nil, or_false, not_or] at hflags
  obtain ⟨hstrict, hlenient, hieee, hprint⟩ := hflags
  exact {
    mixedOperands := (if_neg hstrict).symm
    arity := (if_neg hlenient).symm
    zeroDivision := (if_neg hieee).symm
    printResult := (if_neg hprint).symm
    limit := hlimit _
    sameLimit := hsame
    path := hpath
    free := hfree }

/-- An option adds its limit. -/
theorem adds_limit {options : Options} {argument text : String} {limit : Option Nat}
    (htext : depthText? argument = some text) (hlimit : Limit text limit) :
    Adds options argument
      { options with policy := { options.policy with maxCallDepth := limit } } := by
  have hdashed := dashed_of_depthText? htext
  refine adds_other (not_mem_flags_of_depthText? htext) ?_ ?_ (if_pos hdashed).symm ?_
  · intro text' htext'
    cases htext.symm.trans htext'
    exact hlimit
  · intro hnone
    cases htext.symm.trans hnone
  · intro hpath
    cases hdashed.symm.trans hpath

theorem adds_path {options : Options} {argument : String} (hdashed : dashed argument = false)
    (hfree : options.path = none) :
    Adds options argument { options with path := some argument } := by
  have hnone := depthText?_of_not_dashed hdashed
  refine adds_other (not_mem_flags_of_not_dashed hdashed) ?_ (fun _ => rfl) ?_ fun _ => hfree
  · intro text htext
    cases hnone.symm.trans htext
  · rw [hdashed]
    rfl

/-- **One argument** is accepted and changes the options as it should, or it is complained about. -/
theorem add_cases (options : Options) (argument : String) :
    (∃ options', options.add argument = .ok options' ∧ Admissible argument ∧
        Adds options argument options') ∨
      ∃ fault, options.add argument = .error fault ∧ Complaint argument fault.message ∧
        (dashed argument = false → options.path ≠ none) := by
  have hshape := shape_of argument
  rw [add]
  generalize Argument.of argument = shape at hshape ⊢
  cases hshape with
  | strictOperands | lenientArity | ieeeDivision | printResult =>
      exact .inl ⟨_, rfl, .flag (by decide), adds_flag (by decide) rfl rfl rfl rfl rfl rfl⟩
  | @maxDepth _ text htext =>
      cases hread : readLimit text with
      | ok limit =>
          have hlimit := readLimit_eq_ok_iff.mp hread
          refine .inl ⟨_, by simp only [hread, Except.map], ?_, adds_limit htext hlimit⟩
          rw [depthText?_eq_some_iff.mp htext]
          exact .depth hlimit
      | error fault =>
          obtain ⟨rfl, hnone⟩ := readLimit_eq_error hread
          refine .inr ⟨.invalidDepth text, by simp only [hread, Except.map], ?_, fun hpath => ?_⟩
          · rw [depthText?_eq_some_iff.mp htext]
            exact .depth hnone
          · cases hpath.symm.trans (dashed_of_depthText? htext)
  | unknown hdashed hflags hdepth =>
      refine .inr ⟨_, rfl, .unknown hdashed hflags hdepth, fun hpath => ?_⟩
      cases hdashed.symm.trans hpath
  | path hdashed =>
      cases hpath : options.path with
      | none => exact .inl ⟨_, rfl, .path hdashed, adds_path hdashed hpath⟩
      | some _ => exact .inr ⟨_, rfl, .path hdashed, by simp⟩

/-! ### What the arguments so far amount to -/

theorem depthTexts_concat (before : List String) (argument : String) :
    depthTexts (before ++ [argument]) = depthTexts before ++ (depthText? argument).toList := by
  rw [depthTexts, depthTexts, List.filterMap_append]
  cases htext : depthText? argument <;> simp [htext]

/-- What comes first in a list of arguments that are fine is fine. -/
theorem Grammatical.of_append {before after : List String} (h : Grammatical (before ++ after)) :
    Grammatical before where
  each argument hargument := h.each argument (List.mem_append_left _ hargument)
  path := by
    have hpath := h.path
    rw [List.countP_append] at hpath
    omega

/-- Once left, the grammar is left for good. -/
theorem not_grammatical {before after : List String} {argument : String}
    (h : ¬ Grammatical (before ++ [argument])) : ¬ Grammatical (before ++ argument :: after) := by
  intro hall
  rw [← List.singleton_append, ← List.append_assoc] at hall
  exact h hall.of_append

/-- One more argument stays within the grammar if it fits by itself, and is no second path. -/
theorem grammatical_concat {before : List String} {argument : String} :
    Grammatical (before ++ [argument]) ↔ Grammatical before ∧ Admissible argument ∧
      (dashed argument = false → ∀ other ∈ before, dashed other = true) := by
  constructor
  · intro h
    refine ⟨h.of_append, h.each argument (by simp), fun hargument => ?_⟩
    have hpath := h.path
    rw [List.countP_append, List.countP_singleton, hargument] at hpath
    have hnone : before.countP (dashed · = false) = 0 := by simpa using hpath
    simpa using hnone
  · rintro ⟨⟨heach, hpath⟩, hargument, hfirst⟩
    refine ⟨?_, ?_⟩
    · intro other hother
      rcases List.mem_append.mp hother with hother | hother
      · exact heach other hother
      · rw [List.mem_singleton.mp hother]
        exact hargument
    · rw [List.countP_append, List.countP_singleton]
      cases hdashed : dashed argument with
      | true => simpa using hpath
      | false => simpa using hfirst hdashed

theorem grammatical_nil : Grammatical [] := ⟨by simp, by simp⟩

theorem reads_nil : Reads [] {} := by
  constructor <;> simp [Policy.default, depthTexts]

/-- A setting that a flag switches on has been switched on by one of the arguments so far. -/
theorem switched_concat {α : Type} {value initial on : α} {flag argument : String}
    {before : List String} (hon : on ≠ initial) (h : value ≠ initial ↔ flag ∈ before) :
    (if argument = flag then on else value) ≠ initial ↔ flag ∈ before ++ [argument] := by
  by_cases heq : argument = flag
  · simp [heq, hon]
  · simp [heq, Ne.symm heq, h]

theorem Reads.concat {before : List String} {options options' : Options} {argument : String}
    (h : Reads before options) (hadds : Adds options argument options') :
    Reads (before ++ [argument]) options' where
  mixedOperands := by
    rw [hadds.mixedOperands]
    exact switched_concat (by decide) h.mixedOperands
  arity := by
    rw [hadds.arity]
    exact switched_concat (by decide) h.arity
  zeroDivision := by
    rw [hadds.zeroDivision]
    exact switched_concat (by decide) h.zeroDivision
  printResult := by
    rw [hadds.printResult]
    exact switched_concat (by decide) h.printResult
  defaultDepth hnone := by
    rw [depthTexts_concat, List.append_eq_nil_iff] at hnone
    obtain ⟨hbefore, hargument⟩ := hnone
    rw [hadds.sameLimit (by simpa using hargument)]
    exact h.defaultDepth hbefore
  lastDepth {text} hlast := by
    rw [depthTexts_concat] at hlast
    cases hargument : depthText? argument with
    | none =>
        rw [hargument] at hlast
        rw [hadds.sameLimit hargument]
        exact h.lastDepth (by simpa using hlast)
    | some last =>
        rw [hargument] at hlast
        obtain rfl : last = text := by simpa using hlast
        exact hadds.limit hargument
  path {other} := by
    rw [hadds.path, List.mem_append, List.mem_singleton]
    cases hdashed : dashed argument with
    | true =>
        rw [if_pos rfl, h.path]
        refine and_congr_left fun hother => ?_
        have hne : other ≠ argument := by
          rintro rfl
          cases hdashed.symm.trans hother
        simp [hne]
    | false =>
        rw [if_neg Bool.false_ne_true, Option.some.injEq]
        constructor
        · rintro rfl
          exact ⟨.inr rfl, hdashed⟩
        · rintro ⟨hmem | rfl, hother⟩
          · -- there was no path before this one
            cases (hadds.free hdashed).symm.trans (h.path.mpr ⟨hmem, hother⟩)
          · rfl

theorem Admissible.limit {argument text : String} (h : Admissible argument)
    (htext : depthText? argument = some text) : ∃ limit, Limit text limit := by
  cases h with
  | flag hflag => exact absurd hflag (not_mem_flags_of_depthText? htext)
  | @depth text' limit hlimit =>
      cases (depthText?_eq_some_iff.mpr rfl).symm.trans htext
      exact ⟨limit, hlimit⟩
  | path hdashed => cases (depthText?_of_not_dashed hdashed).symm.trans htext

/-- What is complained about does not fit by itself, if it is not a path. -/
theorem Complaint.not_admissible {argument message : String} (h : Complaint argument message)
    (hdashed : dashed argument = true) : ¬ Admissible argument := by
  intro hadmissible
  cases h with
  | depth hnone =>
      obtain ⟨limit, hlimit⟩ := hadmissible.limit (depthText?_eq_some_iff.mpr rfl)
      exact hnone limit hlimit
  | unknown _ hflags hdepth =>
      cases hadmissible with
      | flag hflag => exact hflags hflag
      | depth => cases hdepth.symm.trans (depthText?_eq_some_iff.mpr rfl)
      | path hpath => cases hdashed.symm.trans hpath
  | path hpath => cases hdashed.symm.trans hpath

/-! ### Reading the arguments -/

/-- **One more argument** keeps to the grammar and is read as it should, or it leaves the grammar
and is complained about. -/
theorem add_spec {before : List String} {options : Options} (hgrammar : Grammatical before)
    (hreads : Reads before options) (argument : String) :
    (∃ options', options.add argument = .ok options' ∧ Grammatical (before ++ [argument]) ∧
        Reads (before ++ [argument]) options') ∨
      ∃ fault, options.add argument = .error fault ∧ ¬ Grammatical (before ++ [argument]) ∧
        Complaint argument fault.message := by
  rcases options.add_cases argument with
    ⟨options', hadd, hadmissible, hadds⟩ | ⟨fault, hadd, hcomplaint, htaken⟩
  · refine .inl ⟨options', hadd, grammatical_concat.mpr ⟨hgrammar, hadmissible, ?_⟩,
      hreads.concat hadds⟩
    intro hpath other hother
    by_contra hdashed
    have hfound := hreads.path.mpr ⟨hother, Bool.eq_false_iff.mpr hdashed⟩
    cases (hadds.free hpath).symm.trans hfound
  · refine .inr ⟨fault, hadd, fun hlonger => ?_, hcomplaint⟩
    obtain ⟨-, hadmissible, hfirst⟩ := grammatical_concat.mp hlonger
    cases hdashed : dashed argument with
    | true => exact hcomplaint.not_admissible hdashed hadmissible
    | false =>
        obtain ⟨other, hother⟩ := Option.ne_none_iff_exists'.mp (htaken hdashed)
        obtain ⟨hmem, hpath⟩ := hreads.path.mp hother
        cases (hfirst hdashed other hmem).symm.trans hpath

/-- **The loop over the arguments** keeps to the grammar, or stops at the first argument that leaves
it. -/
theorem addAll_spec {before : List String} {options : Options} (hgrammar : Grammatical before)
    (hreads : Reads before options) (after : List String) :
    (∃ options', options.addAll after = .ok options' ∧ Grammatical (before ++ after) ∧
        Reads (before ++ after) options') ∨
      ∃ fault initial argument rest, options.addAll after = .error fault ∧
        after = initial ++ argument :: rest ∧ Grammatical (before ++ initial) ∧
        ¬ Grammatical (before ++ initial ++ [argument]) ∧ Complaint argument fault.message := by
  induction after generalizing before options with
  | nil => exact .inl ⟨options, rfl, by simpa using hgrammar, by simpa using hreads⟩
  | cons argument after ih =>
      rw [addAll]
      rcases add_spec hgrammar hreads argument with
        ⟨options', hadd, hgrammar', hreads'⟩ | ⟨fault, hadd, hleaves, hcomplaint⟩
      · rw [hadd]
        have hlater := ih hgrammar' hreads'
        simp only [List.append_assoc, List.singleton_append] at hlater
        refine hlater.imp_right ?_
        rintro ⟨fault, initial, last, rest, hfault, rfl, hinitial⟩
        exact ⟨fault, argument :: initial, last, rest, hfault, rfl, by simpa using hinitial⟩
      · rw [hadd]
        exact .inr ⟨fault, [], argument, after, rfl, rfl, by simpa using hgrammar,
          by simpa using hleaves, hcomplaint⟩

/-! ### Arguments in another order -/

theorem Limit.unique {text : String} {limit limit' : Option Nat} (h : Limit text limit)
    (h' : Limit text limit') : limit = limit' := by
  rw [← readLimit_eq_ok_iff] at h h'
  cases h.symm.trans h'
  rfl

/-- A setting with one value beside its initial one is known, if it is known whether it was
changed. -/
theorem eq_of_changed_iff {α : Type} {initial a b : α}
    (hother : ∀ a b : α, a ≠ initial → b ≠ initial → a = b) (h : a ≠ initial ↔ b ≠ initial) :
    a = b := by
  by_cases ha : a = initial
  · rw [ha, not_not.mp (mt h.mpr (not_not.mpr ha))]
  · exact hother a b ha (h.mp ha)

/-- A list of arguments is read in one way only. -/
theorem Reads.unique {arguments : List String} {options options' : Options}
    (h : Reads arguments options) (h' : Reads arguments options') : options = options' := by
  have hmixed : options.policy.mixedOperands = options'.policy.mixedOperands :=
    eq_of_changed_iff (by rintro ⟨⟩ ⟨⟩ <;> simp [Policy.default])
      (h.mixedOperands.trans h'.mixedOperands.symm)
  have harity : options.policy.arity = options'.policy.arity :=
    eq_of_changed_iff (by rintro ⟨⟩ ⟨⟩ <;> simp [Policy.default]) (h.arity.trans h'.arity.symm)
  have hzero : options.policy.zeroDivision = options'.policy.zeroDivision :=
    eq_of_changed_iff (by rintro ⟨⟩ ⟨⟩ <;> simp [Policy.default])
      (h.zeroDivision.trans h'.zeroDivision.symm)
  have hprint : options.printResult = options'.printResult :=
    eq_of_changed_iff (by decide) (h.printResult.trans h'.printResult.symm)
  have hlimit : options.policy.maxCallDepth = options'.policy.maxCallDepth := by
    cases hlast : (depthTexts arguments).getLast? with
    | none =>
        have hnone := List.getLast?_eq_none_iff.mp hlast
        rw [h.defaultDepth hnone, h'.defaultDepth hnone]
    | some text => exact (h.lastDepth hlast).unique (h'.lastDepth hlast)
  have hpath : options.path = options'.path := Option.ext fun _ => h.path.trans h'.path.symm
  obtain ⟨⟨_, _, _, _⟩, _, _⟩ := options
  obtain ⟨⟨_, _, _, _⟩, _, _⟩ := options'
  rw [mk.injEq, Policy.mk.injEq]
  exact ⟨⟨hmixed, harity, hzero, hlimit⟩, hprint, hpath⟩

theorem Grammatical.perm {arguments arguments' : List String} (h : Grammatical arguments)
    (hperm : arguments.Perm arguments') : Grammatical arguments' where
  each argument hargument := h.each argument (hperm.mem_iff.mpr hargument)
  path := hperm.countP_eq _ ▸ h.path

/-- The order of the arguments counts only among the depth limits. -/
theorem Reads.perm {arguments arguments' : List String} {options : Options}
    (h : Reads arguments options) (hperm : arguments.Perm arguments')
    (hdepth : depthTexts arguments' = depthTexts arguments) : Reads arguments' options where
  mixedOperands := h.mixedOperands.trans hperm.mem_iff
  arity := h.arity.trans hperm.mem_iff
  zeroDivision := h.zeroDivision.trans hperm.mem_iff
  printResult := h.printResult.trans hperm.mem_iff
  defaultDepth hnone := h.defaultDepth (hdepth ▸ hnone)
  lastDepth hlast := h.lastDepth (hdepth ▸ hlast)
  path := h.path.trans (and_congr_left fun _ => hperm.mem_iff)

/-! ### Options -/

/-- Arguments are accepted within the grammar, and read as they should; or they are refused where
they leave it. -/
theorem parse_spec (arguments : List String) :
    (∃ options, parse arguments = .ok options ∧ Grammatical arguments ∧ Reads arguments options) ∨
      ∃ fault before argument after, parse arguments = .error fault ∧
        arguments = before ++ argument :: after ∧ Grammatical before ∧
        ¬ Grammatical (before ++ [argument]) ∧ Complaint argument fault.message :=
  addAll_spec grammatical_nil reads_nil arguments

end Options

/-- **Options are read exactly as their grammar says.**  Arguments are accepted if and only if they
are grammatical.  What they are read as is told by `Options.Reads`, and stays the same in any order
that leaves the depth limits in theirs.  If they are refused, then with what there is to complain
about the first argument that takes them out of the grammar. -/
theorem options_exact (arguments : List String) :
    ((∃ options, Options.parse arguments = .ok options) ↔ Options.Grammatical arguments) ∧
    (∀ options, Options.parse arguments = .ok options → Options.Reads arguments options ∧
      ∀ arguments' : List String, arguments.Perm arguments' →
        Options.depthTexts arguments' = Options.depthTexts arguments →
        Options.parse arguments' = .ok options) ∧
    ∀ fault, Options.parse arguments = .error fault → ∃ before argument after,
      arguments = before ++ argument :: after ∧
      (∀ initial, initial <+: before → Options.Grammatical initial) ∧
      ¬ Options.Grammatical (before ++ [argument]) ∧ Options.Complaint argument fault.message := by
  rcases Options.parse_spec arguments with
    ⟨options, hparse, hgrammar, hreads⟩ |
      ⟨fault, before, argument, after, hparse, rfl, hgrammar, hleaves, hcomplaint⟩
  · refine ⟨iff_of_true ⟨options, hparse⟩ hgrammar, ?_, ?_⟩
    · intro options' hparse'
      cases hparse.symm.trans hparse'
      refine ⟨hreads, fun arguments' hperm hdepth => ?_⟩
      rcases Options.parse_spec arguments' with
        ⟨options', hparse', -, hreads'⟩ |
          ⟨fault, before, argument, after, -, rfl, -, hleaves, -⟩
      · rw [hparse', hreads'.unique (hreads.perm hperm hdepth)]
      · exact absurd (hgrammar.perm hperm) (Options.not_grammatical hleaves)
    · intro fault hfault
      cases hparse.symm.trans hfault
  · refine ⟨iff_of_false ?_ (Options.not_grammatical hleaves), ?_, ?_⟩
    · rintro ⟨options, hok⟩
      cases hparse.symm.trans hok
    · intro options hok
      cases hparse.symm.trans hok
    · intro fault' hfault
      cases hparse.symm.trans hfault
      refine ⟨before, argument, after, rfl, ?_, hleaves, hcomplaint⟩
      rintro initial ⟨rest, rfl⟩
      exact hgrammar.of_append

/-- What follows from a last depth limit of 12, a flag and a path. -/
def limitedOptions : Options :=
  ⟨{ Policy.default with maxCallDepth := some 12 }, true, some "a.json"⟩

/-- Of two depth limits the last one holds, wherever the flag and the path stand; and `2 ^ 64` is no
limit. -/
theorem options_exact_reordered :
    Options.parse ["--max-depth=none", "a.json", "--print-result", "--max-depth=+12"] =
      .ok limitedOptions ∧
    Options.parse ["--print-result", "--max-depth=none", "--max-depth=+12", "a.json"] =
      .ok limitedOptions ∧
    ¬ Options.Grammatical ["a.json", "--max-depth=18446744073709551616"] := by
  have hparse : Options.parse ["--max-depth=none", "a.json", "--print-result", "--max-depth=+12"] =
      .ok limitedOptions := rfl
  have hrefused : Options.parse ["a.json", "--max-depth=18446744073709551616"] =
      .error (.invalidDepth "18446744073709551616") := rfl
  refine ⟨hparse, ?_, fun hgrammar => ?_⟩
  · exact ((options_exact _).2.1 _ hparse).2 _ (by decide) rfl
  · obtain ⟨options, hok⟩ := (options_exact _).1.mpr hgrammar
    cases hrefused.symm.trans hok

end TreeScript
