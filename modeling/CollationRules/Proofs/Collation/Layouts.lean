import CollationRules.Proofs.Collation.Balance
import CollationRules.Proofs.Collation.Frame
import CollationRules.Proofs.Collation.Names
import CollationRules.Proofs.Markup.Capacity

/-! What the layout has a part in. A rule string adds pieces to a builder that depend on the layout
in nothing but the spacing between them, and whether and how it fails does not depend on it. Only
where the indentation of a line is too long for memory can it not be compiled at all. -/

namespace CollationRules

namespace Markup

def Token.isSpacing : Token → Bool
  | spacing _ => true
  | _ => false

/-- Pieces without the spacing between them. -/
def unspaced (pieces : List Token) : List Token := pieces.filter (!·.isSpacing)

@[simp] theorem unspaced_append (first second : List Token) :
    unspaced (first ++ second) = unspaced first ++ unspaced second :=
  List.filter_append ..

theorem unspaced_indentation (indent : Spacing) (depth : UInt64) :
    unspaced (indentation indent depth) = [] := by
  unfold indentation
  split <;> rfl

theorem unspaced_line (indent : Spacing) (depth : UInt64) (content : List Token) :
    unspaced (line indent depth content) = unspaced content := by
  have hnewline : unspaced [.spacing .newline] = [] := rfl
  rw [line, unspaced_append, unspaced_append, unspaced_indentation, hnewline, List.nil_append,
    List.append_nil]

theorem unspaced_lines (indent : Spacing) (depth : UInt64) (lines : List (List Token)) :
    unspaced (lines.flatMap (line indent depth)) = lines.flatMap unspaced := by
  rw [unspaced, List.filter_flatMap]
  exact congrArg (lines.flatMap ·) (funext (unspaced_line indent depth))

theorem unspaced_block (indent : Spacing) (depth : UInt64) (name : Name)
    (lines : List (List Token)) :
    unspaced (block indent depth name lines) =
      .openTag name :: lines.flatMap unspaced ++ [.closeTag name] := by
  rw [block, unspaced_append, unspaced_append, unspaced_line, unspaced_line, unspaced_lines]
  rfl

end Markup

open Markup (Builder Spacing line unspaced)

namespace Compiler

/-- What is wrong with a rule string, if something is: the first of its runs that is wrong, or else
its syntax. -/
def failure? (source : List Char) : Option Failure :=
  ((contributions (writtenRuns source)).2.map Failure.config).or
    ((syntaxError? source).map Failure.scan)

/-- The lines in front of the rules of a rule string. There is none where something is wrong. -/
def frontLines (source : List Char) : List (List Markup.Token) :=
  if (failure? source).isSome then [] else (settingsOf source).lines

/-- What a rule string adds to a builder. -/
def addition (source : List Char) (indent : Spacing) (depth : UInt64) : List Markup.Token :=
  (frontLines source).flatMap (line indent depth) ++ rulesBlock indent depth (written source).lines

/-- Between two calls all that a compiler does is to add the lines of a rule string. -/
theorem append_eq {compiler : Compiler} (hr : compiler.Reached) (source : List Char)
    (out : Builder) :
    compiler.append source out =
      { compiler
        out := out.add (addition source out.indent out.depth)
        failure := failure? source } := by
  have hfailure : (compiler.append source out).failure = failure? source :=
    compiler.failure_append source out
  have hcompiler : (compiler.append source out).compiler = compiler := by
    rw [compiler_append, ← hr.settings_eq]
  have hout : (compiler.append source out).out =
      out.add (addition source out.indent out.depth) := by
    rw [out_append, hfailure, addition, frontLines]
    split
    · rfl
    · rename_i hok
      have hscan : syntaxError? source = none := by
        rw [← hfailure, Option.not_isSome_iff_eq_none] at hok
        exact syntaxError?_eq_none hok
      rw [declared_eq hr hscan]
  calc compiler.append source out
      = ⟨(compiler.append source out).compiler, (compiler.append source out).out,
          (compiler.append source out).failure⟩ := rfl
    _ = _ := by rw [hcompiler, hout, hfailure]

/-- The pieces of a rule string apart from spacing: the elements of its settings and directives, and
then the element of its rules around those of the rules, if there are any. -/
def unspacedPieces (source : List Char) : List Markup.Token :=
  (frontLines source).flatMap unspaced ++
    if (written source).lines.isEmpty then []
    else .openTag "rules" :: (written source).lines.flatMap unspaced ++ [.closeTag "rules"]

theorem unspaced_addition (source : List Char) (indent : Spacing) (depth : UInt64) :
    unspaced (addition source indent depth) = unspacedPieces source := by
  rw [addition, Markup.unspaced_append, Markup.unspaced_lines, unspacedPieces, rulesBlock]
  split
  · rfl
  · rw [Markup.unspaced_block]

theorem append?_eq_some_iff {compiler : Compiler} {source : List Char} {out : Builder}
    {result : Compilation} :
    compiler.append? source out = some result ↔
      (compiler.append source out).out.fits = true ∧ compiler.append source out = result := by
  simp [append?]

theorem all_fits_frontLines (source : List Char) :
    ∀ content ∈ frontLines source, content.all Markup.Token.fits = true := by
  unfold frontLines
  split
  · nofun
  · exact (settingsOf source).all_lines .fits

/-- No line of a rule string is indented by more than one step from the depth of the builder. -/
theorem all_fits_addition (source : List Char) {indent : Spacing} {depth : UInt64}
    (hdepth : depth.toNat + 1 < UInt64.size)
    (hsize : indent.size * (depth.toNat + 1) ≤ Markup.maxTextSize) :
    (addition source indent depth).all Markup.Token.fits = true := by
  have houter : indent.size * depth.toNat ≤ Markup.maxTextSize :=
    Nat.le_trans (Nat.mul_le_mul_left _ (Nat.le_succ _)) hsize
  have hrules : (rulesBlock indent depth (written source).lines).all Markup.Token.fits = true := by
    unfold rulesBlock
    split
    · rfl
    · exact Markup.all_fits_block
        (fun content hcontent => (contributions_isRuleElement _ content hcontent).all .fits)
        "rules" houter (by rwa [Markup.toNat_depth_add_one hdepth])
  rw [addition, List.all_append, Markup.all_fits_lines (all_fits_frontLines source) houter, hrules]
  rfl

/-- A rule string can be compiled where the lines in the block of rules can be indented. -/
theorem isSome_append? (source : List Char) {layout : Layout}
    (hdepth : layout.depth.toNat + 1 < UInt64.size)
    (hsize : layout.indent.size * (layout.depth.toNat + 1) ≤ Markup.maxTextSize) :
    (({ layout } : Compiler).append? source layout.builder).isSome := by
  have hfits : (({ layout } : Compiler).append source layout.builder).out.fits = true := by
    rw [append_eq (.new layout), Markup.Builder.fits_add, Layout.depth_builder]
    exact ⟨Markup.Builder.fits_iff.2 rfl, all_fits_addition source hdepth hsize⟩
  rw [append?_eq_some_iff.2 ⟨hfits, rfl⟩]
  rfl

/-- In any two layouts in which a rule string can be compiled it compiles or fails alike, with the
same error, and what it is compiled to, in full or up to the error, differs in spacing alone. It can
be compiled where the lines in the block of rules can be indented. -/
theorem append_layout (source : List Char) :
    (∀ layout : Layout, layout.depth.toNat + 1 < UInt64.size →
      layout.indent.size * (layout.depth.toNat + 1) ≤ Markup.maxTextSize →
        (({ layout } : Compiler).append? source layout.builder).isSome) ∧
      ∀ (layout other : Layout) (result otherResult : Compilation),
        ({ layout } : Compiler).append? source layout.builder = some result →
        ({ layout := other } : Compiler).append? source other.builder = some otherResult →
        result.failure = otherResult.failure ∧
          unspaced result.out.tokens.toList = unspaced otherResult.out.tokens.toList ∧
          unspaced result.out.tokens.toList = unspacedPieces source := by
  have hresult {layout : Layout} {result : Compilation}
      (h : ({ layout } : Compiler).append? source layout.builder = some result) :
      result.failure = failure? source ∧
        unspaced result.out.tokens.toList = unspacedPieces source := by
    obtain ⟨-, rfl⟩ := append?_eq_some_iff.1 h
    rw [append_eq (.new layout)]
    refine ⟨rfl, ?_⟩
    rw [Markup.Builder.tokens_add, Markup.unspaced_append, unspaced_addition]
    rfl
  constructor
  · exact fun layout => isSome_append? source
  · intro layout other result otherResult h hother
    obtain ⟨hfailure, helements⟩ := hresult h
    obtain ⟨hfailure', helements'⟩ := hresult hother
    exact ⟨hfailure.trans hfailure'.symm, helements.trans helements'.symm, helements⟩

/-- A rule string with settings and an error, in a layout as deep as it can be and in another one,
which is deeper but has no indentation. -/
theorem append_layout_deepest :
    let source := "[numeric on]&a<b<c'".toList
    let layout : Layout := { depth := 0x7FFFFFFFFFFFFFFE }
    let other : Layout := { indent := {}, depth := 0xFFFFFFFFFFFFFFFE }
    ∃ result otherResult, ({ layout } : Compiler).append? source layout.builder = some result ∧
      ({ layout := other } : Compiler).append? source other.builder = some otherResult ∧
      result.failure.isSome ∧ result.failure = otherResult.failure ∧
      unspaced result.out.tokens.toList = unspaced otherResult.out.tokens.toList := by
  intro source layout other
  obtain ⟨hfits, hequal⟩ := append_layout source
  obtain ⟨result, h⟩ := Option.isSome_iff_exists.1 (hfits layout (by decide) (by decide))
  obtain ⟨otherResult, hother⟩ := Option.isSome_iff_exists.1 (hfits other (by decide) (by decide))
  obtain ⟨hfailure, helements, -⟩ := hequal layout other result otherResult h hother
  have hwrong : result.failure.isSome := by
    obtain ⟨-, rfl⟩ := append?_eq_some_iff.1 h
    decide +kernel
  exact ⟨result, otherResult, h, hother, hwrong, hfailure, helements⟩

/-- At a great depth a rule string cannot be compiled with tabs, where it fails in any layout that
can be written. -/
theorem append?_too_deep :
    let source := "&a<b<c'".toList
    let layout : Layout := { depth := 0x8000000000000000 }
    (({ layout } : Compiler).append? source layout.builder).isNone ∧
      ((({} : Compiler).append? source ({} : Layout).builder).bind Compilation.failure).isSome :=
  ⟨by decide +kernel, by decide +kernel⟩

end Compiler
end CollationRules
