import CollationRules.Proofs.Collation.Output
import CollationRules.Proofs.Markup.Names

/-! The names of elements and attributes in a collation. All of them are plain. -/

namespace CollationRules

open Markup (Name)

theorem Attribute.isPlain_markup (name : Attribute) : Markup.isPlain name.markup := by
  cases name <;> decide

theorem DirectiveKind.isPlain_markup (kind : DirectiveKind) : Markup.isPlain kind.markup := by
  cases kind <;> decide

theorem Anchor.isPlain_markup (anchor : Anchor) : Markup.isPlain anchor.markup := by
  obtain ⟨edge, zone⟩ := anchor
  cases edge <;> cases zone <;> decide

theorem Strength.isPlain_element (strength : Strength) (isSequence : Bool) :
    Markup.isPlain (strength.element isSequence) := by
  cases strength <;> cases isSequence <;> decide

section Content

variable {p : Markup.Token → Bool} (hp : Markup.HoldsOfContent p)

include hp

theorem Settings.all_lines (s : Settings) : ∀ content ∈ s.lines, content.all p := by
  intro content hcontent
  rcases List.mem_append.1 hcontent with hmem | hmem
  · split at hmem
    · cases hmem
    · have hattributes : (Markup.attributePieces (s.attributes.map fun setting =>
          (setting.name.markup, setting.value))).all p :=
        hp.attributePieces (by simp [Attribute.isPlain_markup])
      rw [List.mem_singleton.1 hmem, List.all_append, List.all_cons, hattributes,
        hp.openTag (by decide), List.all_cons, hp.closeEmpty]
      rfl
  · obtain ⟨directive, -, rfl⟩ := List.mem_map.1 hmem
    exact hp.elementPieces directive.kind.isPlain_markup directive.set

theorem ResetPosition.all_pieces (position : ResetPosition) : position.pieces.all p := by
  cases position with
  | anchor place => simp [pieces, hp.openTag place.isPlain_markup, hp.closeEmpty]
  | literal text => exact hp.textPieces _

theorem Reset.all_pieces (reset : Reset) : reset.pieces.all p := by
  have hbefore : Markup.isPlain "before" := by decide
  have hattributes : (Markup.attributePieces (reset.before.toList.map fun level =>
      ("before", level.name.toList))).all p :=
    hp.attributePieces (by simp [hbefore])
  rw [pieces, List.cons_append]
  refine hp.wrap (by decide) ?_
  rw [List.all_append, hattributes, reset.position.all_pieces hp]
  rfl

theorem Operand.all_partPieces (operand : Operand) {name : Name} (h : Markup.isPlain name) :
    (operand.partPieces name).all p := by
  have hpart (name : Name) (h : Markup.isPlain name) (part : Option (List Char)) :
      (part.toList.flatMap (Markup.elementPieces name)).all p := by
    cases part <;> simp [hp.elementPieces h]
  rw [partPieces, List.all_append, List.all_append, hpart "context" (by decide),
    hpart "extend" (by decide), hp.elementPieces h]
  rfl

theorem Operand.all_pieces (operand : Operand) {name : Name} (h : Markup.isPlain name) :
    (operand.pieces name).all p := by
  unfold pieces
  split
  · exact hp.wrap (by decide) (operand.all_partPieces hp h)
  · exact operand.all_partPieces hp h

theorem IsRuleElement.all {content : List Markup.Token} (h : IsRuleElement content) :
    content.all p := by
  cases h with
  | reset reset => exact reset.all_pieces hp
  | relation text strength isSequence =>
    exact Operand.all_pieces hp _ (strength.isPlain_element isSequence)

end Content

theorem all_isPlain_lines (indent : Markup.Spacing) (depth : UInt64)
    {lines : List (List Markup.Token)}
    (h : ∀ content ∈ lines, content.all Markup.Token.isPlain) :
    (lines.flatMap (Markup.line indent depth)).all Markup.Token.isPlain := by
  rw [List.all_flatMap, List.all_eq_true]
  intro content hcontent
  rw [Markup.all_line]
  exact h content hcontent

theorem all_isPlain_rulesBlock (indent : Markup.Spacing) (depth : UInt64)
    {lines : List (List Markup.Token)} (h : ∀ content ∈ lines, IsRuleElement content) :
    (rulesBlock indent depth lines).all Markup.Token.isPlain := by
  unfold rulesBlock
  split
  · rfl
  · have hlines :=
      all_isPlain_lines indent (depth + 1) fun content hc => (h content hc).all .isPlain
    simp only [Markup.block, List.all_append, Markup.all_line, hlines]
    decide

end CollationRules
