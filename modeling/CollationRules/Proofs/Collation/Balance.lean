import CollationRules.Proofs.Collation.Output
import CollationRules.Proofs.Markup.Nesting

/-! That a compilation leaves no element open, whether or not it fails, and that what it adds to a
builder can always be written. -/

namespace CollationRules

open Markup (WellNested textPieces elementPieces)

theorem Settings.wellNested_lines (s : Settings) : ∀ content ∈ s.lines, WellNested content := by
  intro content hcontent
  unfold lines at hcontent
  rcases List.mem_append.1 hcontent with hmem | hmem
  · split at hmem
    · simp at hmem
    · rw [List.mem_singleton.1 hmem]
      exact .empty _ _ .nil
  · obtain ⟨directive, -, rfl⟩ := List.mem_map.1 hmem
    exact .elementPieces ..

theorem Settings.wellNested_flatMap_line (s : Settings) (indent : Markup.Spacing) (depth : UInt64) :
    WellNested (s.lines.flatMap (Markup.line indent depth)) :=
  .flatMap fun content hcontent => (s.wellNested_lines content hcontent).line

theorem ResetPosition.wellNested_pieces (position : ResetPosition) :
    WellNested position.pieces := by
  cases position with
  | anchor place => exact .empty _ [] .nil
  | literal text => exact .textPieces _

theorem Reset.wellNested_pieces (reset : Reset) : WellNested reset.pieces :=
  .element _ _ reset.position.wellNested_pieces .nil

theorem Operand.wellNested_partPieces (operand : Operand) (name : Markup.Name) :
    WellNested (operand.partPieces name) := by
  have hpart (name : Markup.Name) (part : Option (List Char)) :
      WellNested (part.toList.flatMap (elementPieces name)) :=
    .flatMap fun text _ => .elementPieces name text
  exact ((hpart "context" operand.context).append (.elementPieces name operand.head)).append
    (hpart "extend" operand.extension)

theorem Operand.wellNested_pieces (operand : Operand) (name : Markup.Name) :
    WellNested (operand.pieces name) := by
  have hparts := operand.wellNested_partPieces name
  unfold pieces
  split
  · exact hparts.wrap "x"
  · exact hparts

theorem IsRuleElement.wellNested {content : List Markup.Token} (h : IsRuleElement content) :
    WellNested content := by
  cases h with
  | reset reset => exact reset.wellNested_pieces
  | relation text strength isSequence => exact Operand.wellNested_pieces ..

theorem wellNested_rulesBlock (indent : Markup.Spacing) (depth : UInt64)
    {lines : List (List Markup.Token)} (h : ∀ content ∈ lines, IsRuleElement content) :
    WellNested (rulesBlock indent depth lines) := by
  unfold rulesBlock
  split
  · exact .nil
  · exact .block indent depth "rules" fun content hcontent => (h content hcontent).wellNested

namespace Compiler

theorem wellNested_append (compiler : Compiler) (source : List Char) (out : Markup.Builder) :
    ∃ pieces, (compiler.append source out).out = out.add pieces ∧ WellNested pieces := by
  refine ⟨_, compiler.out_append source out, .append ?_ ?_⟩
  · split
    · exact .nil
    · exact Settings.wellNested_flatMap_line ..
  · exact wellNested_rulesBlock _ _ (contributions_isRuleElement _)

/-- What is built in a new builder is written as it is, as no block is open. -/
theorem render_add (layout : Layout) (pieces : List Markup.Token) :
    (layout.builder.add pieces).render =
      (Markup.write .outside pieces).result.map fun _ => (Markup.write .outside pieces).text := by
  have hfinish : (layout.builder.add pieces).finish = pieces := by
    simp [Markup.Builder.finish, Markup.Builder.closeAll, Markup.Builder.closeBlocks,
      Layout.builder]
  unfold Markup.Builder.render
  rw [hfinish]

/-- The answer of a compilation is the failure of the rules, if there is one, and otherwise the text
of what was built. -/
theorem compile_eq (compiler : Compiler) (source : List Char) :
    (compiler.compile source).1 =
      match (compiler.append source compiler.layout.builder).failure with
      | some failure => .error failure
      | none => .ok (Markup.write .outside
          (compiler.append source compiler.layout.builder).out.tokens.toList).text := by
  obtain ⟨pieces, hout, hnested⟩ := compiler.wellNested_append source compiler.layout.builder
  have htokens : (compiler.append source compiler.layout.builder).out.tokens.toList = pieces := by
    rw [hout]
    simp [Layout.builder]
  have hrender : (compiler.append source compiler.layout.builder).out.render =
      .ok (Markup.write .outside pieces).text := by
    rw [hout, render_add, hnested.write_outside]
    rfl
  unfold compile Compilation.answer
  simp only [hrender, htokens]
  cases (compiler.append source compiler.layout.builder).failure <;> rfl

theorem compile_eq_error_iff {compiler : Compiler} {source : List Char} {failure : Failure} :
    (compiler.compile source).1 = .error failure ↔
      (compiler.append source compiler.layout.builder).failure = some failure := by
  rw [compile_eq]
  cases (compiler.append source compiler.layout.builder).failure <;> simp

theorem exists_compile_eq_ok_iff {compiler : Compiler} {source : List Char} :
    (∃ text, (compiler.compile source).1 = .ok text) ↔
      (compiler.append source compiler.layout.builder).failure = none := by
  rw [compile_eq]
  cases (compiler.append source compiler.layout.builder).failure <;> simp

theorem failure_append_ne_write (compiler : Compiler) (source : List Char) (out : Markup.Builder)
    (error : Markup.WriteError) : (compiler.append source out).failure ≠ some (.write error) := by
  rw [failure_append]
  cases (contributions (writtenRuns source)).2 <;> cases syntaxError? source <;> simp

/-- Whether or not a rule string compiles, the pieces that it adds to a builder are well nested, and
the writer accepts them from outside of tags and ends there. No compilation fails in writing. -/
theorem append_balanced (compiler : Compiler) (source : List Char) (out : Markup.Builder) :
    (∃ pieces, (compiler.append source out).out.tokens.toList = out.tokens.toList ++ pieces ∧
      WellNested pieces ∧ (Markup.write .outside pieces).result = .ok .outside) ∧
    ∀ error, (compiler.compile source).1 ≠ .error (.write error) := by
  constructor
  · obtain ⟨pieces, hout, hnested⟩ := compiler.wellNested_append source out
    exact ⟨pieces, by rw [hout, Markup.Builder.tokens_add], hnested, hnested.write_outside⟩
  · intro error herror
    exact failure_append_ne_write compiler source _ error (compile_eq_error_iff.1 herror)

end Compiler
end CollationRules
