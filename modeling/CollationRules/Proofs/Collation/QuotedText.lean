import CollationRules.Proofs.Collation.RuleText
import CollationRules.Proofs.Rule.LeadingGroup
import CollationRules.Proofs.Rule.Quoting

/-! Quoted texts in markup. Quoting is undone before a text is divided into its parts, so that a
quoted text is written as it is, save for a context mark in a rule and for bracket groups at the
beginning of a reset. -/

namespace CollationRules

open Markup (elementText wrapText)

/-! ### Reading and gathering -/

section

variable {text : List Char} (hmark : expansionMark ∉ text) (hletter : ∃ c ∈ text, c ≠ '\'')

include hmark hletter

theorem reading_quoted_reset :
    reading ('&' :: quote text) = ([⟨.reset, text⟩], none) := by
  have hread := Pass.HasRead.nothing.written
    { operator := .ampersand, text, unmarked := hmark, letter := hletter, skipped := by simp }
  rw [← outcome_source]
  simpa [QuotedRule.written, QuotedRule.lexeme, Operator.text, Operator.kind, Operator.implied]
    using hread.outcome

theorem reading_quoted_relation :
    reading ("&x<".toList ++ quote text) =
      ([⟨.reset, ['x']⟩, ⟨.relation .primary, text⟩], none) := by
  have hx : (({} : Pass).read "&x".toList).HasRead [⟨.reset, ['x']⟩] :=
    .token true [] .reset #['x'] (.inl rfl)
  have hread := hx.written
    { operator := .less, text, unmarked := hmark, letter := hletter, skipped := by simp }
  rw [← Pass.read_append] at hread
  rw [← outcome_source]
  simpa [QuotedRule.written, QuotedRule.lexeme, Operator.text, Operator.kind, Operator.implied]
    using hread.outcome

end

theorem contributed_reset (text : List Char) :
    contributed [⟨.reset, text⟩] =
      match Reset.ofText text with
      | .ok reset => ({ lines := [reset.pieces] }, none)
      | .error cause => ({}, some ⟨cause, .nowhere⟩) := by
  have hruns : contributed [⟨.reset, text⟩] =
      contributions [Run.ofToken (Lexeme.token ⟨.reset, text⟩)] := rfl
  rw [hruns, contributions]
  simp only [Run.contribution, Run.ofToken, Lexeme.token]
  cases Reset.ofText text <;> rfl

theorem contributed_relation (text : List Char) :
    contributed [⟨.reset, ['x']⟩, ⟨.relation .primary, text⟩] =
      ({ lines := [(⟨none, .literal ['x']⟩ : Reset).pieces,
          (Operand.split text).pieces "p"] }, none) := by
  rw [← Operand.ofText_eq]
  rfl

/-! ### Compiling -/

namespace Compiler

/-- A quoted text is written as it is, in a rule save for its first context mark, which divides it
unless it is all of the text, and in a reset save for bracket groups at its beginning. These are
read as if they were not quoted, and can be wrong. -/
theorem compile_quoted {compiler : Compiler} (hr : compiler.Reached) {text : List Char}
    (hmark : expansionMark ∉ text) (hletter : ∃ c ∈ text, c ≠ '\'') :
    (compiler.compile ("&x<".toList ++ quote text)).1 = .ok (compiler.rulesBody
      [elementText "reset" ['x'],
        if contextMark ∈ text ∧ 1 < text.length then
          wrapText "x" (elementText "context" (text.takeWhile (· != contextMark)) ++
            elementText "p" ((text.dropWhile (· != contextMark)).drop 1))
        else elementText "p" text]) ∧
    (¬BeginsWithGroup text → (compiler.compile ('&' :: quote text)).1 =
      .ok (compiler.rulesBody [elementText "reset" text])) ∧
    (BeginsWithGroup text →
      match Reset.ofText text with
      | .ok reset => (reset.before.isSome ∨ ∃ place, reset.position = .anchor place) ∧
          (compiler.compile ('&' :: quote text)).1 = .ok (compiler.rulesBody [reset.text])
      | .error cause => ∃ span,
          (compiler.compile ('&' :: quote text)).1 = .error (.config ⟨cause, span⟩)) := by
  have hreading := reading_quoted_reset hmark hletter
  have hcontributed := contributed_reset text
  have hcompile {reset : Reset} (hreset : Reset.ofText text = .ok reset) :
      (compiler.compile ('&' :: quote text)).1 = .ok (compiler.rulesBody [reset.text]) := by
    rw [hreset] at hcontributed
    have hok := compile_of_reading hr hreading (by simp; rfl) (by rw [hcontributed])
      (by simp [hcontributed])
    rw [hok, hcontributed, List.map_singleton, reset.text_pieces]
  refine ⟨?_, fun hnot => ?_, fun hgroup => ?_⟩
  · have hlines := contributed_relation text
    have hok := compile_of_reading hr (reading_quoted_relation hmark hletter) (by simp; decide)
      (by rw [hlines]) (by simp [hlines])
    have hx : expansionMark ∉ ['x'] := by decide
    rw [hok, hlines, List.map_cons, List.map_singleton, Reset.text_pieces, Reset.text_literal hx,
      Operand.text_pieces, Operand.text_split hmark]
  · rw [hcompile (Reset.ofText_of_not_beginsWithGroup hnot), Reset.text_literal hmark]
  · cases hreset : Reset.ofText text with
    | ok reset => exact ⟨Reset.isSome_or_anchor hgroup hreset, hcompile hreset⟩
    | error cause =>
      rw [hreset] at hcontributed
      exact compile_of_cause hreading (by rw [hcontributed])

/-- Quote marks, a slash, an anchor and an operator are literal, and so is a bar in a reset. -/
theorem compile_quoted_clock :
    let text := "o'clock/[top]<|&".toList
    (({} : Compiler).compile ("&x<".toList ++ quote text)).1 =
        .ok (({} : Compiler).rulesBody [elementText "reset" ['x'],
          wrapText "x" (elementText "context" "o'clock/[top]<".toList ++ elementText "p" ['&'])]) ∧
      (({} : Compiler).compile ('&' :: quote text)).1 =
        .ok (({} : Compiler).rulesBody [elementText "reset" text]) := by
  intro text
  have hmark : expansionMark ∉ text := by decide
  have hletter : ∃ c ∈ text, c ≠ '\'' := ⟨'o', by decide, by decide⟩
  have hgroup : ¬BeginsWithGroup text := leadingGroup?_eq_none_iff.1 (by decide)
  obtain ⟨hrelation, hreset, -⟩ := compile_quoted (.new {}) hmark hletter
  refine ⟨hrelation.trans ?_, hreset hgroup⟩
  decide +kernel

/-- A quoted bar divides the text of a rule. -/
theorem compile_quoted_bar :
    ¬∀ text, expansionMark ∉ text → (∃ c ∈ text, c ≠ '\'') →
      CollationRules.compile ("&x<".toList ++ quote text) = .ok (({} : Compiler).rulesBody
        [elementText "reset" ['x'], elementText "p" text]) ∧
      CollationRules.compile ('&' :: quote text) = .ok (({} : Compiler).rulesBody
        [elementText "reset" text]) := by
  intro hall
  obtain ⟨hrelation, -⟩ := hall "a|b".toList (by decide) ⟨'a', by decide, by decide⟩
  revert hrelation
  decide +kernel

end Compiler
end CollationRules
