import CollationRules.Proofs.Collation.Outcome
import CollationRules.Proofs.Rule.Marks

/-! The mark of expansions cannot be written. A rule string that holds it does not compile, and a
mark in a token of another rule string is that of a slash in the part that the token covers. -/

namespace CollationRules

open Text (byteLength)

namespace Compiler

theorem exists_compile_error (compiler : Compiler) {source : List Char} {e : SyntaxError}
    (h : syntaxError? source = some e) :
    ∃ failure, (compiler.compile source).1 = .error failure := by
  rcases compiler.compile_config_cases h with hscan | ⟨error, -, -, -, hconfig, -⟩
  · exact ⟨_, hscan⟩
  · exact ⟨_, hconfig⟩

/-- A rule string with the mark of expansions has an error at the first of them or before it, which
is about the mark if it is there, and does not compile. The tokens of any rule string have parts of
it that follow one another, which their spans cover where these fit in words, and each token has as
many marks as its part has slashes that are neither quoted nor escaped. -/
theorem reserved_expansionMark (source : List Char) :
    (expansionMark ∈ source →
      ∃ e before after, syntaxError? source = some e ∧ e.IsAt source before after ∧
        expansionMark ∉ before ∧
        (e.cause.character = expansionMark → e.cause = .reservedCodePoint) ∧
        ∀ compiler : Compiler, ∃ failure, (compiler.compile source).1 = .error failure) ∧
    ∃ lead parts rest, source = lead ++ parts.flatten ++ rest ∧
      (tokens source).map Token.span = Span.consecutive (byteLength lead) parts ∧
      (byteLength source < UInt32.size →
        List.Forall₂ (fun token part => token.span.Covers source part) (tokens source) parts) ∧
      List.Forall₂ (fun token part => token.text.count expansionMark = slashes part)
        (tokens source) parts := by
  constructor
  · intro hmem
    obtain ⟨e, before, after, herror, hat, hbefore, hcause⟩ := syntaxError?_of_mem hmem
    exact ⟨e, before, after, herror, hat, hbefore, hcause, fun compiler =>
      compiler.exists_compile_error herror⟩
  · obtain ⟨lead, parts, rest, hsource, hspans, hmarks⟩ := exists_parts_count source
    refine ⟨lead, parts, rest, hsource, hspans, fun hsize => ?_, hmarks⟩
    rw [hsource, Text.byteLength_append, Text.byteLength_append] at hsize
    have hcovers := Span.covers_consecutive lead parts rest (by omega)
    rwa [← hspans, ← hsource, List.forall₂_map_left_iff] at hcovers

/-- A mark that is quoted, and slashes of which one is quoted, one escaped and two in brackets. -/
theorem reserved_expansionMark_quoted :
    let marked := "&a<b'c\uFFFF'".toList
    let slashed := "&a<b/'/'\\/[c/'d'/]".toList
    (expansionMark ∈ marked ∧ ∃ e before after, syntaxError? marked = some e ∧
      e.IsAt marked before after ∧ expansionMark ∉ before) ∧
    byteLength slashed < UInt32.size ∧
      (tokens slashed).map (fun token => token.text.count expansionMark) = [0, 3] ∧
      ∃ parts, List.Forall₂ (fun token part => token.span.Covers slashed part)
          (tokens slashed) parts ∧
        List.Forall₂ (fun token part => token.text.count expansionMark = slashes part)
          (tokens slashed) parts := by
  intro marked slashed
  have hmem : expansionMark ∈ marked := by decide
  have hsize : byteLength slashed < UInt32.size := by decide +kernel
  obtain ⟨e, before, after, herror, hat, hbefore, -⟩ := (reserved_expansionMark marked).1 hmem
  obtain ⟨lead, parts, rest, -, -, hcovers, hmarks⟩ := (reserved_expansionMark slashed).2
  exact ⟨⟨hmem, e, before, after, herror, hat, hbefore⟩, hsize, by decide +kernel, parts,
    hcovers hsize, hmarks⟩

end Compiler
end CollationRules
