import CollationRules.Collation.Compiler
import CollationRules.Proofs.Markup.Lines
import CollationRules.Proofs.Rule.Declared
import CollationRules.Proofs.Rule.TokenOrder

/-! What a compilation adds to a builder, in terms of what the runs of the rule string contribute:
the lines of the settings that they declare, and a block of the lines that they are written as. -/

namespace CollationRules

open Markup (Builder Name Spacing line block attributePieces textPieces elementPieces)

/-! ### Lines -/

/-- The lines of settings, each by its content. -/
def Settings.lines (s : Settings) : List (List Markup.Token) :=
  let attributes := s.attributes.map fun setting => (setting.name.markup, setting.value)
  let element := .openTag "settings" :: attributePieces attributes ++ [.closeEmpty]
  (if attributes.isEmpty then [] else [element]) ++
    s.directives.map fun directive => elementPieces directive.kind.markup directive.set

/-- Settings are written as their lines, and none of them is left. -/
theorem Settings.flush_eq (s : Settings) (b : Builder) :
    s.flush b = (b.add (s.lines.flatMap (line b.indent b.depth)), {}) := by
  obtain ⟨attributes, directives⟩ := s
  have hdirectives (b : Builder) :
      directives.foldl flushDirective (b, { attributes := [], directives }) =
        (b.add ((directives.map fun directive => elementPieces directive.kind.markup
          directive.set).flatMap (line b.indent b.depth)), {}) := by
    induction directives generalizing b with
    | nil => simp
    | cons directive rest ih =>
      refine (ih (b.textLine directive.kind.markup directive.set)).trans ?_
      simp
  cases attributes with
  | nil => exact hdirectives b
  | cons first rest =>
    refine (hdirectives (b.emptyLine "settings" _)).trans ?_
    simp [lines]

/-- What a selection of attributes takes from settings. -/
theorem Settings.filterMap_lines {α : Type} {f : Markup.Token → Option α}
    (h : Markup.OfAttributes f) (s : Settings) :
    s.lines.flatMap (List.filterMap f) = s.attributes.flatMap fun setting =>
      (f (.attributeName setting.name.markup)).toList ++
        (f (.attributeValue setting.value)).toList := by
  have hdirectives : (s.directives.map fun directive =>
      elementPieces directive.kind.markup directive.set).flatMap (List.filterMap f) = [] := by
    simp [List.flatMap_map, h.filterMap_elementPieces]
  rw [lines, List.flatMap_append, hdirectives, List.append_nil]
  cases s.attributes with
  | nil => rfl
  | cons first rest =>
    simp [Markup.filterMap_attributePieces, h.openTag, h.closeEmpty, List.flatMap_map]

def ResetPosition.pieces : ResetPosition → List Markup.Token
  | .anchor place => [.openTag place.markup, .closeEmpty]
  | .literal text => textPieces (text.filter (· != expansionMark))

def Reset.pieces (reset : Reset) : List Markup.Token :=
  let attributes := reset.before.toList.map fun level => ("before", level.name.toList)
  .openTag "reset" :: attributePieces attributes ++ reset.position.pieces ++ [.closeTag "reset"]

theorem Reset.write_eq (reset : Reset) (b : Builder) :
    reset.write b = b.add (line b.indent b.depth reset.pieces) := by
  obtain ⟨before, position⟩ := reset
  cases before <;> cases position <;>
    simp [write, pieces, ResetPosition.pieces, line, attributePieces]

def Operand.partPieces (operand : Operand) (name : Name) : List Markup.Token :=
  operand.context.toList.flatMap (elementPieces "context") ++ elementPieces name operand.head ++
    operand.extension.toList.flatMap (elementPieces "extend")

/-- The element of a rule, around the elements of its parts if it has several. -/
def Operand.pieces (operand : Operand) (name : Name) : List Markup.Token :=
  if operand.isCompound then .openTag "x" :: operand.partPieces name ++ [.closeTag "x"]
  else operand.partPieces name

theorem Operand.pieces_alone (text : List Char) (name : Name) :
    (⟨none, text, none⟩ : Operand).pieces name = elementPieces name text := by
  simp [pieces, partPieces, isCompound]

theorem Operand.write_eq (operand : Operand) (name : Name) (b : Builder) :
    operand.write name b = b.add (line b.indent b.depth (operand.pieces name)) := by
  obtain ⟨context, head, extension⟩ := operand
  cases context <;> cases extension <;> simp [write, pieces, partPieces, isCompound, line]

/-! ### Runs -/

/-- What runs contribute to the markup: declarations of settings, and lines in the block of
rules. -/
structure Contribution where
  declarations : List Declaration := []
  lines : List (List Markup.Token) := []

def Contribution.append (first second : Contribution) : Contribution where
  declarations := first.declarations ++ second.declarations
  lines := first.lines ++ second.lines

/-- What a run contributes, or what is wrong with it. -/
def Run.contribution (run : Run) : Except ConfigError Contribution :=
  match run.kind with
  | .setting =>
    match Declaration.ofText run.text with
    | .ok declarations => .ok { declarations }
    | .error cause => .error ⟨cause, run.span⟩
  | .override => .ok { declarations := [.setting ⟨.backwards, ['o', 'n']⟩] }
  | .reset =>
    match Reset.ofText run.text with
    | .ok reset => .ok { lines := [reset.pieces] }
    | .error cause => .error ⟨cause, run.span⟩
  | .relation strength =>
    .ok { lines := [(Operand.ofText run.text).pieces (strength.element run.isSequence)] }
  | .endOfRules => .ok {}

/-- What runs contribute up to the first that is wrong, and what is wrong with that one. -/
def contributions : List Run → Contribution × Option ConfigError
  | [] => ({}, none)
  | run :: rest =>
    match run.contribution with
    | .ok contribution => ((contribution.append (contributions rest).1), (contributions rest).2)
    | .error error => ({}, some error)

theorem contributions_append {runs : List Run} (h : (contributions runs).2 = none)
    (others : List Run) :
    contributions (runs ++ others) =
      ((contributions runs).1.append (contributions others).1, (contributions others).2) := by
  induction runs with
  | nil => rfl
  | cons run runs ih =>
    rw [contributions] at h
    rw [List.cons_append, contributions, contributions]
    split at h
    · rw [ih h]
      simp only [Contribution.append, List.append_assoc]
    · cases h

/-- The elements in the block of rules, those of resets and of rules. -/
inductive IsRuleElement : List Markup.Token → Prop
  | reset (reset : Reset) : IsRuleElement reset.pieces
  | relation (text : List Char) (strength : Strength) (isSequence : Bool) :
      IsRuleElement ((Operand.ofText text).pieces (strength.element isSequence))

/-- All that a run can contribute. -/
theorem Run.contribution_cases {run : Run} {contribution : Contribution}
    (h : run.contribution = .ok contribution) :
    (run.kind.inRules = false ∧ contribution.lines = []) ∨
    (run.kind = .reset ∧ ∃ reset, Reset.ofText run.text = .ok reset ∧
      contribution = { lines := [reset.pieces] }) ∨
    ∃ strength, run.kind = .relation strength ∧
      contribution =
        { lines := [(Operand.ofText run.text).pieces (strength.element run.isSequence)] } := by
  unfold Run.contribution at h
  split at h
  · rename_i hkind
    split at h <;> cases h
    exact .inl ⟨by rw [hkind]; rfl, rfl⟩
  · rename_i hkind
    cases h
    exact .inl ⟨by rw [hkind]; rfl, rfl⟩
  · rename_i hkind
    split at h
    · rename_i reset hreset
      cases h
      exact .inr (.inl ⟨hkind, reset, hreset, rfl⟩)
    · cases h
  · rename_i strength hkind
    cases h
    exact .inr (.inr ⟨strength, hkind, rfl⟩)
  · rename_i hkind
    cases h
    exact .inl ⟨by rw [hkind]; rfl, rfl⟩

theorem Run.isRuleElement {run : Run} {contribution : Contribution}
    (h : run.contribution = .ok contribution) :
    ∀ content ∈ contribution.lines, IsRuleElement content := by
  intro content hcontent
  rcases Run.contribution_cases h with ⟨-, hlines⟩ | ⟨-, reset, -, rfl⟩ | ⟨strength, -, rfl⟩
  · rw [hlines] at hcontent
    cases hcontent
  · rw [List.mem_singleton.1 hcontent]
    exact .reset reset
  · rw [List.mem_singleton.1 hcontent]
    exact .relation run.text strength run.isSequence

theorem contributions_isRuleElement (runs : List Run) :
    ∀ content ∈ (contributions runs).1.lines, IsRuleElement content := by
  induction runs with
  | nil => simp [contributions]
  | cons run rest ih =>
    unfold contributions
    split
    · rename_i contribution h
      intro content hcontent
      rcases List.mem_append.1 hcontent with hmem | hmem
      · exact Run.isRuleElement h content hmem
      · exact ih content hmem
    · simp

namespace Emission

/-- The emission to `out` when some lines stand in the block of rules, which is open. -/
def opened (out : Builder) (settings : Settings) (lines : List (List Markup.Token)) : Emission where
  out := (out.openBlock "rules" []).add (lines.flatMap (line out.indent (out.depth + 1)))
  settings
  rulesAt := some out.size

/-- The emission to `out` when some lines have been written in the block of rules. The first of them
opens the block. -/
def ofLines (out : Builder) (settings : Settings) (lines : List (List Markup.Token)) : Emission :=
  if lines.isEmpty then { out, settings } else opened out settings lines

variable (out : Builder) (settings : Settings) (lines : List (List Markup.Token))

theorem depth_opened : (opened out settings lines).out.depth = out.depth + 1 :=
  out.depth_openBlock ..

theorem indent_opened : (opened out settings lines).out.indent = out.indent :=
  out.indent_openBlock ..

theorem beginRules_ofLines :
    (ofLines out settings lines).beginRules = opened out settings lines := by
  cases lines with
  | nil => simp [ofLines, beginRules, opened]
  | cons first rest => simp [ofLines, beginRules, opened]

theorem opened_add (content : List Markup.Token) :
    { opened out settings lines with
      out := (opened out settings lines).out.add (line out.indent (out.depth + 1) content) } =
      ofLines out settings (lines ++ [content]) := by
  simp [ofLines, opened]

/-- One run contributes its declarations to the settings and its lines to the block. -/
theorem run_ofLines (run : Run) :
    (ofLines out settings lines).run run =
      run.contribution.map fun contribution =>
        ofLines out (settings.declareAll contribution.declarations)
          (lines ++ contribution.lines) := by
  have hsettings : (ofLines out settings lines).settings = settings := by
    unfold ofLines; split <;> rfl
  have hwith (settings' : Settings) :
      { ofLines out settings lines with settings := settings' } = ofLines out settings' lines := by
    unfold ofLines; split <;> rfl
  obtain ⟨kind, text, count, last, span⟩ := run
  unfold Emission.run Run.contribution
  cases kind with
  | setting =>
    cases Declaration.ofText text with
    | error cause => rfl
    | ok declarations => simp [Except.map, hsettings, hwith, Settings.declareAll]
  | override => simp [Except.map, hsettings, hwith, Settings.declareAll]
  | reset =>
    cases Reset.ofText text with
    | error cause => rfl
    | ok reset =>
      simp only [beginRules_ofLines, Reset.write_eq, depth_opened, indent_opened, opened_add]
      rfl
  | relation strength =>
    simp only [beginRules_ofLines, Operand.write_eq, depth_opened, indent_opened, opened_add]
    rfl
  | endOfRules => simp [Except.map]

/-- Runs contribute one after the other, up to the first that is wrong. -/
theorem runs_ofLines (runs : List Run) :
    (ofLines out settings lines).runs runs =
      (ofLines out (settings.declareAll (contributions runs).1.declarations)
        (lines ++ (contributions runs).1.lines), (contributions runs).2) := by
  induction runs generalizing settings lines with
  | nil => simp [Emission.runs, contributions]
  | cons run rest ih =>
    rw [Emission.runs, run_ofLines, contributions]
    cases run.contribution with
    | error error => simp [Except.map]
    | ok contribution =>
      simp only [Except.map]
      rw [ih]
      simp [Contribution.append]

end Emission

def rulesBlock (indent : Spacing) (depth : UInt64) (lines : List (List Markup.Token)) :
    List Markup.Token :=
  if lines.isEmpty then [] else block indent depth "rules" lines

theorem Emission.endRules_ofLines (out : Builder) (settings : Settings)
    (lines : List (List Markup.Token)) :
    (ofLines out settings lines).endRules = out.add (rulesBlock out.indent out.depth lines) := by
  unfold ofLines rulesBlock
  split
  · simp [endRules]
  · simp [endRules, opened, Markup.Builder.closeBlock_openBlock]

/-- At the end of an emission its lines are in place, those of the settings only if nothing is
wrong, and no settings are left. -/
theorem Emission.finish_ofLines (out : Builder) (settings : Settings)
    (lines : List (List Markup.Token)) (isRight : Bool) :
    (ofLines out settings lines).finish isRight =
      (out.add ((if isRight then settings.lines.flatMap (line out.indent out.depth) else []) ++
        rulesBlock out.indent out.depth lines), {}) := by
  have hsettings : (ofLines out settings lines).settings = settings := by
    unfold ofLines; split <;> rfl
  have hat : (ofLines out settings lines).rulesAt.getD
      (out.add (rulesBlock out.indent out.depth lines)).size = out.size := by
    unfold ofLines rulesBlock
    split <;> simp [opened]
  unfold finish
  simp only [endRules_ofLines, hsettings, hat, Settings.flush_eq, Markup.Builder.indent_fork,
    Markup.Builder.depth_fork, Markup.Builder.indent_add, Markup.Builder.depth_add]
  cases isRight with
  | true => exact congrArg (·, ({} : Settings)) (Markup.Builder.insert_fork ..)
  | false => rfl

namespace Compiler

/-- The runs of a rule string that are written: the last is left out where the syntax is wrong. -/
def writtenRuns (source : List Char) : List Run :=
  let runs := Run.ofTokens (tokens source)
  if (syntaxError? source).isSome then runs.dropLast else runs

def written (source : List Char) : Contribution := (contributions (writtenRuns source)).1

/-- The settings of a compiler with those that a rule string declares. -/
def declared (compiler : Compiler) (source : List Char) : Settings :=
  compiler.settings.declareAll (written source).declarations

variable (compiler : Compiler) (source : List Char) (out : Builder)

theorem runs_writtenRuns :
    ({ out, settings := compiler.settings } : Emission).runs (writtenRuns source) =
      (.ofLines out (compiler.declared source) (written source).lines,
        (contributions (writtenRuns source)).2) :=
  Emission.runs_ofLines out compiler.settings [] (writtenRuns source)

/-- A compilation is the end of the emission of its runs. -/
theorem append_eq_finish :
    compiler.append source out =
      let e := (({ out, settings := compiler.settings } : Emission).runs (writtenRuns source)).1
      let failure := (compiler.append source out).failure
      let (out, settings) := e.finish failure.isNone
      { compiler := { compiler with settings }, out, failure } := rfl

/-- A rule string fails with the first run that is wrong, or else with its syntax. -/
theorem failure_append :
    (compiler.append source out).failure =
      ((contributions (writtenRuns source)).2.map Failure.config).or
        ((syntaxError? source).map Failure.scan) := by
  have hruns : (compiler.append source out).failure =
      ((({ out, settings := compiler.settings } : Emission).runs (writtenRuns source)).2.map
        Failure.config).or ((syntaxError? source).map Failure.scan) := rfl
  rw [hruns, runs_writtenRuns]

/-- Nothing but its layout is left of a compiler after a compilation. -/
@[simp] theorem compiler_append :
    (compiler.append source out).compiler = { layout := compiler.layout } := by
  rw [append_eq_finish, runs_writtenRuns]
  simp only [Emission.finish_ofLines]

/-- A compilation adds the lines of the settings, which it leaves out where it fails, and then the
block of rules. -/
theorem out_append :
    (compiler.append source out).out =
      out.add ((if (compiler.append source out).failure.isSome then []
          else (compiler.declared source).lines.flatMap (line out.indent out.depth)) ++
        rulesBlock out.indent out.depth (written source).lines) := by
  rw [append_eq_finish, runs_writtenRuns]
  simp only [Emission.finish_ofLines]
  cases (compiler.append source out).failure <;> rfl

theorem out_append_of_ok {out : Builder} (hok : (compiler.append source out).failure = none) :
    (compiler.append source out).out =
      out.add ((compiler.declared source).lines.flatMap (line out.indent out.depth) ++
        rulesBlock out.indent out.depth (written source).lines) := by
  have hout := compiler.out_append source out
  rwa [hok] at hout

end Compiler
end CollationRules
