import CollationRules.CommandLine.Job
import CollationRules.Proofs.Collation.Enclosing
import CollationRules.Proofs.CommandLine.Grammar
import Mathlib.Data.Nat.Digits.Defs

/-! What the arguments of a command line ask for. It is said here without a job, and a job does
what the arguments ask for that it was made from. -/

namespace CollationRules.CommandLine

open Markup (Spacing)

/-- A number below 2⁶⁴ in decimal digits, after a plus sign or none. -/
def IsCount (text : List Char) (count : Nat) : Prop :=
  ∃ digits, (text = digits ∨ text = '+' :: digits) ∧ digits ≠ [] ∧
    (∀ c ∈ digits, c.isDigit = true) ∧
    Nat.ofDigits 10 (digits.reverse.map fun c => c.toNat - '0'.toNat) = count ∧ count < 2 ^ 64

namespace Arguments

variable (args : Arguments)

/-- A number of spaces that an option gives. -/
def GivesSpaces (count : Nat) : Prop :=
  ∃ text, args.value? .spaces = some text ∧ IsCount text.toList count

/-- The layout that the options ask for: some number of spaces in place of a tab. -/
inductive Indents : Layout → Prop
  | tab (missing : args.value? .spaces = none) : Indents {}
  | spaces {count : Nat} (given : args.GivesSpaces count) : Indents { indent := .spaces count }

/-- The type of collation that an option gives, and otherwise the standard one. -/
def kindOf (flag : Flag) : List Char := ((args.value? flag).map String.toList).getD standardKind

/-- The base that the options give. -/
def base? : Option Base :=
  (args.value? .base).map fun source => ⟨source.toList, args.kindOf .baseType⟩

/-- What comes of compiling a text in the way that the options ask for. -/
inductive Compiles (source : List Char) : Except Failure (List Char) → Prop
  | fragment {layout : Layout} {result : Except Failure (List Char)} {next : Compiler}
      (given : args.has .fragment) (indents : args.Indents layout)
      (compiled : ({ layout } : Compiler).compile? source = some (result, next)) :
      Compiles source result
  | element {layout : Layout} {result : Except Failure (List Char)} {next : Collation}
      (missing : ¬args.has .fragment) (indents : args.Indents layout)
      (rendered : ({ kind := args.kindOf .type, base := args.base?, compiler := { layout } } :
        Collation).render? [source] = some (result, next)) :
      Compiles source result

/-- Arguments that ask for the compilation of a file. -/
structure IsRequest : Prop where
  help : args.has .help = false
  input : ∃ input, args.free = [input]
  /-- The type of a base stands with a base. -/
  base : args.value? .baseType ≠ none → args.value? .base ≠ none
  layout : ∃ layout, args.Indents layout

end Arguments

/-! ### Options -/

theorem foldl_digits (digits : List Char) :
    digits.foldl (fun n c => n * 10 + (c.toNat - '0'.toNat)) 0 =
      Nat.ofDigits 10 (digits.reverse.map fun c => c.toNat - '0'.toNat) := by
  rw [Nat.ofDigits_eq_foldr, List.foldr_map, List.foldr_reverse]
  congr
  funext n c
  rw [Nat.cast_id, Nat.add_comm, Nat.mul_comm]

/-- What stands after a sign, or without one, is read as a number if it is made of digits. -/
theorem readCount?_eq_some {text digits : List Char} {count : Nat}
    (h : text = '+' :: digits ∨ text = digits ∧ digits.head? ≠ some '+') :
    readCount? text = some count ↔ digits ≠ [] ∧ (∀ c ∈ digits, c.isDigit = true) ∧
      Nat.ofDigits 10 (digits.reverse.map fun c => c.toNat - '0'.toNat) = count ∧
      count < 2 ^ 64 := by
  have hread : readCount? text = if digits.isEmpty || !digits.all Char.isDigit then none
      else if Nat.ofDigits 10 (digits.reverse.map fun c => c.toNat - '0'.toNat) < 2 ^ 64 then
        some (Nat.ofDigits 10 (digits.reverse.map fun c => c.toNat - '0'.toNat)) else none := by
    rw [← foldl_digits]
    rcases h with rfl | ⟨rfl, hsign⟩
    · rfl
    · have hplain : ∀ rest, text = '+' :: rest → False := by
        rintro rest rfl
        exact hsign rfl
      simp only [readCount?]
      rfl
  rw [hread]
  simp only [Option.ite_none_left_eq_some, Option.ite_none_right_eq_some, Bool.or_eq_true,
    Bool.not_eq_true', not_or, Bool.not_eq_false, List.isEmpty_iff, List.all_eq_true,
    Option.some.injEq]
  grind

theorem readCount?_eq_some_iff {text : List Char} {count : Nat} :
    readCount? text = some count ↔ IsCount text count := by
  constructor
  · intro h
    by_cases hsign : text.head? = some '+'
    · obtain ⟨digits, rfl⟩ := List.head?_eq_some_iff.1 hsign
      exact ⟨digits, .inr rfl, (readCount?_eq_some (.inl rfl)).1 h⟩
    · exact ⟨text, .inl rfl, (readCount?_eq_some (.inr ⟨rfl, hsign⟩)).1 h⟩
  · rintro ⟨digits, rfl | rfl, hne, hdigits, h⟩
    · refine (readCount?_eq_some (.inr ⟨rfl, fun hsign => ?_⟩)).2 ⟨hne, hdigits, h⟩
      exact absurd (hdigits _ (List.mem_of_head? hsign)) (by decide)
    · exact (readCount?_eq_some (.inl rfl)).2 ⟨hne, hdigits, h⟩

section

variable {args : Arguments}

theorem inputOf_eq_ok_iff {input : String} : inputOf args = .ok input ↔ args.free = [input] := by
  unfold inputOf
  split <;> simp_all

theorem baseOf_eq_ok_iff {base : Option Base} :
    baseOf args = .ok base ↔
      (args.value? .baseType ≠ none → args.value? .base ≠ none) ∧ args.base? = base := by
  unfold baseOf
  split <;> simp_all [Arguments.base?, Arguments.kindOf]

/-- A job has the number of spaces that the options ask for. -/
theorem spacesOf_eq_ok_iff {spaces : Option Nat} :
    spacesOf args = .ok spaces ↔
      (spaces = none ∧ args.value? .spaces = none) ∨
        ∃ count, spaces = some count ∧ args.GivesSpaces count := by
  unfold spacesOf Arguments.GivesSpaces
  cases htext : args.value? .spaces with
  | none => simp [eq_comm]
  | some text =>
    cases hcount : readCount? text.toList with
    | none => simp [← readCount?_eq_some_iff, hcount]
    | some count => simp [← readCount?_eq_some_iff, hcount, eq_comm]

/-- The options ask for a layout if their number of spaces can be read. -/
theorem exists_spacesOf_iff :
    (∃ spaces, spacesOf args = .ok spaces) ↔ ∃ layout, args.Indents layout := by
  constructor
  · rintro ⟨spaces, h⟩
    rcases spacesOf_eq_ok_iff.1 h with ⟨-, missing⟩ | ⟨count, -, given⟩
    · exact ⟨_, .tab missing⟩
    · exact ⟨_, .spaces given⟩
  · rintro ⟨_, missing | ⟨given⟩⟩
    · exact ⟨none, spacesOf_eq_ok_iff.2 (.inl ⟨rfl, missing⟩)⟩
    · exact ⟨_, spacesOf_eq_ok_iff.2 (.inr ⟨_, rfl, given⟩)⟩

end

/-! ### Jobs -/

namespace Job

variable {job : Job} {args : Arguments}

theorem indents_of_layout? (h : spacesOf args = .ok job.spaces) {layout : Layout}
    (hlayout : job.layout? = some layout) : args.Indents layout := by
  unfold layout? at hlayout
  rcases spacesOf_eq_ok_iff.1 h with ⟨hspaces, missing⟩ | ⟨count, hspaces, given⟩
  · rw [hspaces] at hlayout
    cases hlayout
    exact .tab missing
  · rw [hspaces] at hlayout
    obtain ⟨-, hindent⟩ := Option.ite_none_right_eq_some.1 hlayout
    cases hindent
    exact .spaces given

theorem compiles_of_markup? (hkind : job.kind = args.kindOf .type) (hbase : job.base = args.base?)
    (hfragment : job.fragment = args.has .fragment) (hspaces : spacesOf args = .ok job.spaces)
    {source : List Char} {result : Except Failure (List Char)}
    (h : job.markup? source = some result) : args.Compiles source result := by
  obtain ⟨layout, hlayout, h⟩ := Option.bind_eq_some_iff.1 h
  have indents := indents_of_layout? hspaces hlayout
  split at h
  · rename_i hgiven
    obtain ⟨⟨_, next⟩, hcompiled, h⟩ := Option.bind_eq_some_iff.1 h
    cases h
    exact .fragment (hfragment ▸ hgiven) indents hcompiled
  · rename_i hmissing
    obtain ⟨⟨_, next⟩, hrendered, h⟩ := Option.bind_eq_some_iff.1 h
    cases h
    rw [hkind, hbase] at hrendered
    exact .element (hfragment ▸ hmissing) indents hrendered

/-- No line of the output is indented by more than two steps. -/
theorem isSome_markup? (h : ∀ count, job.spaces = some count → count < 2 ^ 62)
    (source : List Char) : (job.markup? source).isSome := by
  obtain ⟨layout, hlayout, hdepth, hsize⟩ : ∃ layout, job.layout? = some layout ∧
      layout.depth = 0 ∧ layout.indent.size * 2 ≤ Markup.maxTextSize := by
    unfold layout?
    cases hspaces : job.spaces with
    | none => exact ⟨{}, rfl, rfl, by decide⟩
    | some count =>
      have hcount := h count hspaces
      have htwo : (Spacing.spaces count).size * 2 ≤ Markup.maxTextSize := by
        rw [Spacing.size_spaces, Markup.maxTextSize]
        omega
      refine ⟨{ indent := .spaces count }, if_pos (Spacing.fits_iff.2 ?_), rfl, htwo⟩
      exact Nat.le_trans (Nat.le_mul_of_pos_right _ Nat.two_pos) htwo
  have hfragment : (({ layout } : Compiler).compile? source).isSome := by
    rw [Compiler.compile?, Option.isSome_map]
    refine Compiler.isSome_append? source (by rw [hdepth]; decide) ?_
    rw [hdepth]
    exact Nat.le_trans (Nat.mul_le_mul_left _ (by decide)) hsize
  have helement : (({ kind := job.kind, base := job.base, compiler := { layout } } :
      Collation).render? [source]).isSome := by
    rw [Collation.render?, Option.isSome_map]
    refine (Collation.Reached.new job.kind job.base layout).isSome_append? [source]
      (Markup.Builder.fits_iff.2 rfl) ?_ ?_ <;> rw [Layout.depth_builder, hdepth]
    · decide
    · exact hsize
  obtain ⟨_, hcompiled⟩ := Option.isSome_iff_exists.1 hfragment
  obtain ⟨_, hrendered⟩ := Option.isSome_iff_exists.1 helement
  rw [markup?, hlayout]
  simp only [bind, Option.bind]
  split
  · rw [hcompiled]
    rfl
  · rw [hrendered]
    rfl

end Job

/-! ### Commands -/

/-- A job does what arguments ask for. -/
structure Job.Serves (job : Job) (args : Arguments) : Prop where
  input : args.free = [job.input]
  output : args.value? .output = job.output
  markup : ∀ source result, job.markup? source = some result → args.Compiles source result
  /-- Only the indentation can be too long for memory. -/
  overflow : ∀ source, job.markup? source = none → ∃ count, args.GivesSpaces count ∧ 2 ^ 62 ≤ count

/-- What is made of the words of a command line. -/
inductive Command.Answers (words : List String) : Except UsageError Command → Prop
  | refused {e : UsageError} (unfit : ∀ args : Arguments, args.AreGiven words →
      args.has .help = false ∧ ¬args.IsRequest) : Answers words (.error e)
  | help {args : Arguments} (given : args.AreGiven words) (help : args.has .help) :
      Answers words (.ok .usage)
  | compile {args : Arguments} {job : Job} (given : args.AreGiven words)
      (request : args.IsRequest) (serves : job.Serves args) : Answers words (.ok (.compile job))

section

variable {parser : OptionParser} (documented : parser.Documented) {words : List String}
  {args : Arguments} (hargs : args.AreGiven words) (hhelp : args.has .help = false)

include documented hargs

theorem Command.parse_help (h : args.has .help = true) : parse parser words = .ok .usage := by
  simp only [parse, (documented words args).2 hargs, bind, Except.bind, h]
  rfl

theorem Arguments.AreGiven.unique {other : Arguments} (hother : other.AreGiven words) :
    other = args :=
  Except.ok.inj (((documented words other).2 hother).symm.trans ((documented words args).2 hargs))

include hhelp

theorem Command.parse_compile :
    parse parser words = do
      let input ← inputOf args
      let base ← baseOf args
      let spaces ← spacesOf args
      return .compile {
        input, base, spaces
        output := args.value? .output
        kind := args.kindOf .type
        fragment := args.has .fragment } := by
  simp only [parse, (documented words args).2 hargs, bind, Except.bind, hhelp]
  rfl

theorem Command.Answers.refused_of (h : ¬args.IsRequest) (e : UsageError) :
    Answers words (.error e) := by
  refine .refused fun other hother => ?_
  rw [hargs.unique documented hother]
  exact ⟨hhelp, h⟩

end

theorem Job.serves {args : Arguments} {job : Job} (hinput : args.free = [job.input])
    (houtput : args.value? .output = job.output) (hkind : job.kind = args.kindOf .type)
    (hbase : job.base = args.base?) (hfragment : job.fragment = args.has .fragment)
    (hspaces : spacesOf args = .ok job.spaces) : job.Serves args := by
  refine ⟨hinput, houtput, fun source result =>
    compiles_of_markup? hkind hbase hfragment hspaces, fun source hnone => ?_⟩
  by_contra hsmall
  have hsome : (job.markup? source).isSome := by
    refine isSome_markup? (fun count hcount => ?_) source
    rcases spacesOf_eq_ok_iff.1 hspaces with ⟨hnone, -⟩ | ⟨other, hother, given⟩
    · rw [hnone] at hcount
      cases hcount
    · obtain rfl : other = count := Option.some.inj (hother.symm.trans hcount)
      exact Nat.lt_of_not_le fun hle => hsmall ⟨other, given, hle⟩
  rw [hnone] at hsome
  cases hsome

theorem Command.parse_answers {parser : OptionParser} (documented : parser.Documented)
    (words : List String) : Answers words (parse parser words) := by
  cases hparsed : parser.parse words with
  | error e =>
    rw [parse, hparsed]
    refine .refused fun args hargs => ?_
    rw [(documented words args).2 hargs] at hparsed
    cases hparsed
  | ok args =>
    have hargs := (documented words args).1 hparsed
    cases hhelp : args.has .help with
    | true =>
      rw [parse_help documented hargs hhelp]
      exact .help hargs hhelp
    | false =>
      rw [parse_compile documented hargs hhelp]
      have hrefused := Answers.refused_of documented hargs hhelp
      -- Each of the three checks is one that a request passes.
      cases hinput : inputOf args with
      | error e =>
        refine hrefused (fun request => ?_) e
        obtain ⟨input, hfree⟩ := request.input
        rw [inputOf_eq_ok_iff.2 hfree] at hinput
        cases hinput
      | ok input =>
        cases hbase : baseOf args with
        | error e =>
          refine hrefused (fun request => ?_) e
          rw [baseOf_eq_ok_iff.2 ⟨request.base, rfl⟩] at hbase
          cases hbase
        | ok base =>
          cases hspaces : spacesOf args with
          | error e =>
            refine hrefused (fun request => ?_) e
            obtain ⟨spaces, hok⟩ := exists_spacesOf_iff.2 request.layout
            rw [hok] at hspaces
            cases hspaces
          | ok spaces =>
            have hfree := inputOf_eq_ok_iff.1 hinput
            obtain ⟨hkind, rfl⟩ := baseOf_eq_ok_iff.1 hbase
            have hlayout := exists_spacesOf_iff.1 ⟨spaces, hspaces⟩
            exact .compile hargs ⟨hhelp, ⟨input, hfree⟩, hkind, hlayout⟩
              (Job.serves hfree rfl rfl rfl rfl hspaces)

end CollationRules.CommandLine
