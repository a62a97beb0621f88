import CollationRules.Proofs.Collation.Text
import CollationRules.Proofs.Markup.LineText
import CollationRules.Proofs.Rule.Parts

/-! The text of resets and rules, and of the block of rules that a rule string without settings is
compiled to. -/

namespace CollationRules

open Markup (Name blockText elementText endTagText escape startText tagText wrapText)

/-! ### Resets and rules -/

def ResetPosition.text : ResetPosition → List Char
  | .anchor place => '<' :: place.markup.toList ++ ['/', '>']
  | .literal text => escape (text.filter (· != expansionMark))

def Reset.text (reset : Reset) : List Char :=
  '<' :: startText "reset" (reset.before.toList.map fun level => ("before", level.name.toList)) ++
    ['>'] ++ reset.position.text ++ endTagText "reset"

def Operand.partText (operand : Operand) (name : Name) : List Char :=
  operand.context.toList.flatMap (elementText "context") ++ elementText name operand.head ++
    operand.extension.toList.flatMap (elementText "extend")

def Operand.text (operand : Operand) (name : Name) : List Char :=
  if operand.isCompound then wrapText "x" (operand.partText name) else operand.partText name

theorem ResetPosition.text_pieces (position : ResetPosition) :
    (Markup.write .outside position.pieces).text = position.text := by
  cases position with
  | anchor place => exact Markup.text_emptyElement place.markup
  | literal text => exact Markup.text_textPieces _

theorem Reset.text_pieces (reset : Reset) :
    (Markup.write .outside reset.pieces).text = reset.text := by
  rw [pieces, reset.position.wellNested_pieces.text_element, reset.position.text_pieces]
  exact List.append_nil _

theorem Reset.text_literal {text : List Char} (h : expansionMark ∉ text) :
    (⟨none, .literal text⟩ : Reset).text = elementText "reset" text := by
  have hfilter : text.filter (· != expansionMark) = text := by
    rw [List.filter_eq_self]
    exact fun c hc => bne_iff_ne.2 fun hmark => h (hmark ▸ hc)
  simp [Reset.text, ResetPosition.text, hfilter, startText, elementText, wrapText, tagText]

theorem Operand.text_partPieces (operand : Operand) (name : Name) :
    (Markup.write .outside (operand.partPieces name)).text = operand.partText name := by
  have hpart (name : Name) (part : Option (List Char)) (rest : List Markup.Token) :
      (Markup.write .outside (part.toList.flatMap (Markup.elementPieces name) ++ rest)).text =
        part.toList.flatMap (elementText name) ++ (Markup.write .outside rest).text := by
    cases part with
    | none => rfl
    | some text => simp [Markup.text_elementPieces]
  have hlast := hpart "extend" operand.extension []
  rw [List.append_nil] at hlast
  rw [partPieces, List.append_assoc, hpart, Markup.text_elementPieces, hlast]
  simp [partText, Markup.write]

theorem Operand.text_pieces (operand : Operand) (name : Name) :
    (Markup.write .outside (operand.pieces name)).text = operand.text name := by
  unfold pieces text
  split
  · have htext := Markup.text_wrap "x" (operand.wellNested_partPieces name) []
    rw [operand.text_partPieces] at htext
    simpa [Markup.write] using htext
  · exact operand.text_partPieces name

/-- The text of a rule without an extension. -/
theorem Operand.text_split {text : List Char} (h : expansionMark ∉ text) (name : Name) :
    (Operand.split text).text name =
      if contextMark ∈ text ∧ 1 < text.length then
        wrapText "x" (elementText "context" (text.takeWhile (· != contextMark)) ++
          elementText name ((text.dropWhile (· != contextMark)).drop 1))
      else elementText name text := by
  have hbefore : text.takeWhile (· != expansionMark) = text := takeWhile_of_not_mem h
  unfold split
  simp only [hbefore, if_neg h]
  split <;> simp [Operand.text, partText, isCompound]

/-! ### Rule strings without settings -/

namespace Compiler

/-- The block of rules in the layout of a compiler, around lines that are text. -/
def rulesBody (compiler : Compiler) (lines : List (List Char)) : List Char :=
  blockText compiler.layout.indent compiler.layout.depth "rules" lines

theorem compile_of_reading {compiler : Compiler} (hr : compiler.Reached) {source : List Char}
    {found : List Lexeme} (hreading : reading source = (found, none))
    (hin : ∀ lexeme ∈ found, lexeme.kind.inRules) (hok : (contributed found).2 = none)
    (hne : (contributed found).1.lines ≠ []) :
    (compiler.compile source).1 = .ok (compiler.rulesBody
      ((contributed found).1.lines.map fun content => (Markup.write .outside content).text)) := by
  obtain ⟨hscan, rfl⟩ := reading_eq_iff.1 hreading
  have hcompiles : Compiles source := ⟨hscan, hok⟩
  have hsettings : compiler.settingsText source = [] := by
    have hdeclarations : declarations source = [] := by
      rw [declarations_eq, Lexeme.flatMap_declarations_eq_nil hin]
    rw [settingsText, settingsOf, hdeclarations]
    rfl
  have hnested : ∀ content ∈ (contributed (lexemes source)).1.lines,
      Markup.WellNested content := fun content hcontent =>
    (contributions_isRuleElement _ content hcontent).wellNested
  rw [(compile_eq_ok_iff hr _).2 ⟨hcompiles, rfl⟩, hsettings, rulesText, lines_written hcompiles,
    rulesBlock, if_neg (by simpa using hne), Markup.text_block _ _ _ hnested]
  rfl

theorem compile_of_cause {compiler : Compiler} {source : List Char} {found : List Lexeme}
    {cause : ConfigCause} (hreading : reading source = (found, none))
    (hcause : (contributed found).2 = some ⟨cause, .nowhere⟩) :
    ∃ span, (compiler.compile source).1 = .error (.config ⟨cause, span⟩) := by
  obtain ⟨hscan, rfl⟩ := reading_eq_iff.1 hreading
  rw [contributed_lexemes] at hcause
  obtain ⟨error, herror, hsame⟩ := Option.map_eq_some_iff.1 hcause
  obtain rfl : error.cause = cause := congrArg ConfigError.cause hsame
  refine ⟨error.span, ?_⟩
  rw [compile_eq, failure_append, writtenRuns_eq hscan, herror]
  rfl

end Compiler

end CollationRules
