import CollationRules.Proofs.Collation.Enclosing
import CollationRules.Proofs.Markup.LineText

/-! The text of a collation: its tags, and between them the block of its base and what each rule
string is compiled to on its own, one step further in. -/

namespace CollationRules

open Markup (Builder Spacing WellNested line blockText endTagText lineText startText
  attributePieces)

/-- The block of a base as text. -/
def Base.text (base : Base) (indent : Spacing) (depth : UInt64) : List Char :=
  blockText indent depth "base"
    ['<' :: startText "alias" [("source", base.source), ("type", base.kind)] ++ ['/', '>']]

theorem Base.text_block (base : Base) (indent : Spacing) (depth : UInt64) :
    (Markup.write .outside (Markup.block indent depth "base" [base.pieces])).text =
      base.text indent depth := by
  have halias := Markup.text_empty "alias" [("source", base.source), ("type", base.kind)] []
  rw [Markup.text_block _ _ _ (List.forall_mem_singleton.2 base.wellNested_pieces),
    List.map_singleton, pieces, halias]
  simp [text, Markup.write]

namespace Compiler

def additionText (source : List Char) (indent : Spacing) (depth : UInt64) : List Char :=
  (Markup.write .outside (addition source indent depth)).text

theorem compile_eq_additionText {compiler : Compiler} (hr : compiler.Reached)
    (source : List Char) :
    (compiler.compile source).1 =
      match failure? source with
      | some failure => .error failure
      | none => .ok (additionText source compiler.layout.indent compiler.layout.depth) := by
  rw [compile_eq, append_eq hr]
  cases failure? source with
  | some failure => rfl
  | none => simp [Layout.builder, additionText, Markup.Builder.depth]

end Compiler

namespace Collation

theorem attempted_eq_self {sources : List (List Char)}
    (h : sources.findSome? Compiler.failure? = none) : attempted sources = sources := by
  induction sources with
  | nil => rfl
  | cons source rest ih =>
    obtain ⟨hsource, hrest⟩ := List.forall_mem_cons.1 (List.findSome?_eq_none_iff.1 h)
    rw [attempted, hsource, if_neg (by simp), ih (List.findSome?_eq_none_iff.2 hrest)]

/-- Rule strings compiled one by one give their texts, or the failure of the first that fails. -/
theorem mapM_compile {compiler : Compiler} (hr : compiler.Reached) (sources : List (List Char)) :
    sources.mapM (fun source => (compiler.compile source).1) =
      match sources.findSome? Compiler.failure? with
      | some failure => .error failure
      | none => .ok (sources.map fun source =>
          Compiler.additionText source compiler.layout.indent compiler.layout.depth) := by
  induction sources with
  | nil => rfl
  | cons source rest ih =>
    rw [List.mapM_cons, ih, Compiler.compile_eq_additionText hr, List.findSome?_cons]
    cases Compiler.failure? source with
    | some failure => rfl
    | none => cases rest.findSome? Compiler.failure? <;> rfl

/-- The text of a collation around a text that is indented already. -/
def text (c : Collation) (inner : List Char) : List Char :=
  let layout := c.compiler.layout
  lineText layout.indent layout.depth ('<' :: startText "collation" [("type", c.kind)] ++ ['>']) ++
    c.base.toList.flatMap (fun base => base.text layout.indent (layout.depth + 1)) ++ inner ++
    lineText layout.indent layout.depth (endTagText "collation")

theorem text_pieces (c : Collation) (sources : List (List Char)) :
    (Markup.write .outside
        (c.pieces sources c.compiler.layout.indent c.compiler.layout.depth)).text =
      c.text ((attempted sources).flatMap fun source =>
        Compiler.additionText source c.compiler.layout.indent (c.compiler.layout.depth + 1)) := by
  let indent := c.compiler.layout.indent
  let depth := c.compiler.layout.depth
  have hopen : (Markup.write .outside
      (.openTag "collation" :: attributePieces [("type", c.kind)])).result = .ok .inTag :=
    Markup.write_startTag (by decide) ..
  have hend : (Markup.write .outside [.closeTag "collation"]).result = .ok .outside := rfl
  have hclose := Markup.text_line indent depth hend (by decide) []
  have hbase : ∀ base ∈ c.base.toList,
      WellNested (Markup.block indent (depth + 1) "base" [base.pieces]) := fun base _ =>
    base.wellNested_block indent (depth + 1)
  have hsources : ∀ source ∈ attempted sources,
      WellNested (Compiler.addition source indent (depth + 1)) := fun source _ =>
    Compiler.wellNested_addition source indent (depth + 1)
  rw [List.append_nil] at hclose
  rw [pieces, innerLines, List.append_assoc, List.append_assoc,
    Markup.text_line indent depth hopen (by decide), WellNested.text_flatMap hbase,
    WellNested.text_flatMap hsources, hclose, Markup.text_startTag]
  simp [text, Base.text_block, Compiler.additionText, endTagText, Markup.write, Markup.Token.write?,
    Markup.WriterState.content?, indent, depth]

/-- Whether or not its element has been closed, the pieces of a collation are all that is
rendered. -/
theorem finish_opened (c : Collation) (sources : List (List Char)) (layout : Layout) :
    (c.opened sources layout.builder).finish = c.pieces sources layout.indent layout.depth := by
  have hblocks : (c.opened sources layout.builder).blocks = ["collation"] :=
    layout.builder.blocks_openBlock ..
  rw [Markup.Builder.finish, Markup.Builder.closeAll, hblocks, List.length_singleton,
    Markup.Builder.closeBlocks, Markup.Builder.closeBlocks, closeBlock_opened, Layout.depth_builder,
    Markup.Builder.tokens_add]
  rfl

example :
    (({ kind := "search".toList, base := some { source := "de".toList } } : Collation).render
        ["&a".toList, "".toList]).1 =
      .ok ("<collation type=\"search\">\n" ++
        "\t<base>\n\t\t<alias source=\"de\" type=\"standard\"/>\n\t</base>\n" ++
        "\t<rules>\n\t\t<reset>a</reset>\n\t</rules>\n</collation>\n").toList := by
  decide +kernel

end Collation
end CollationRules
