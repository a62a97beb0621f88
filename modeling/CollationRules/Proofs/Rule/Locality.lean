import CollationRules.Proofs.Rule.Division

/-! Tokens are local. The part of a rule string that the span of a token covers is read as that
token when it stands alone, so that no token depends on the text around it. -/

namespace CollationRules

open Text (byteLength)

theorem tokens_ext {found others : List Token}
    (hlexemes : found.map Token.lexeme = others.map Token.lexeme)
    (hspans : found.map Token.span = others.map Token.span) : found = others := by
  induction found generalizing others with
  | nil =>
    rw [List.map_nil, eq_comm, List.map_eq_nil_iff] at hspans
    exact hspans.symm
  | cons token found ih =>
    cases others with
    | nil => cases hspans
    | cons other others =>
      obtain ⟨hlexeme, hlexemes⟩ := List.cons.inj hlexemes
      obtain ⟨hspan, hspans⟩ := List.cons.inj hspans
      obtain ⟨hkind, htext⟩ := Lexeme.mk.inj hlexeme
      rw [ih hlexemes hspans]
      congr 1
      cases token
      cases other
      simp_all

section

variable {piece : List Char} {token : Token} (h : IsPiece piece token)

include h

theorem IsPiece.takeWhile_isSkipped : piece.takeWhile isSkipped = [] :=
  takeWhile_isSkipped_eq (List.forall_mem_nil _) h.begun

/-- A piece that stands alone is divided whole. -/
theorem IsPiece.exists_division :
    ∃ implied pieces, Division piece implied pieces [] ∧ piece = (implied ++ pieces).flatten ∧
      (implied ++ pieces).length = if token.kind.isRelation then 2 else 1 := by
  obtain ⟨herror, hlexemes⟩ := reading_eq_iff.1 h.read
  obtain ⟨implied, pieces, rest, hdivision⟩ := CollationRules.exists_division piece
  have hne : tokens piece ≠ [] := by
    intro hnil
    rw [lexemes, hnil] at hlexemes
    simp at hlexemes
  obtain rfl := hdivision.ended herror hne
  refine ⟨implied, pieces, hdivision, ?_, ?_⟩
  · have hwhole := hdivision.whole
    rwa [h.takeWhile_isSkipped, List.append_nil, List.nil_append] at hwhole
  · have hlength := congrArg List.length hdivision.spans
    rw [List.length_map, Span.length_consecutive, ← List.length_map Token.lexeme] at hlength
    rw [← hlength]
    change (lexemes piece).length = _
    rw [hlexemes]
    split <;> rfl

/-- The reset that a relation implies has an empty piece, as nothing stands before the relation. -/
theorem IsPiece.implied_eq (hrelation : token.kind.isRelation) {implied pieces : List (List Char)}
    (hdivision : Division piece implied pieces [])
    (hwhole : piece = (implied ++ pieces).flatten) : implied = [[]] := by
  obtain ⟨hsome, c, text, strength, hpiece, hc⟩ :=
    (impliedReset_cases piece).resolve_left (h.implied hrelation)
  have hskipped : isSkipped c = false := h.begun c (by rw [hpiece]; rfl)
  have hother : c ≠ '!' := by
    rintro rfl
    cases hc
  have hrule : firstRule piece = piece := by
    rw [hpiece]
    exact firstRule_eq (List.forall_mem_nil _) hskipped hother text
  have hlength := hdivision.length
  rw [hrule, hsome] at hlength
  obtain ⟨first, rfl⟩ := List.length_eq_one_iff.1 hlength
  cases first with
  | nil => rfl
  | cons d first =>
    obtain rfl : c = d := List.head_eq_of_cons_eq (hpiece.symm.trans hwhole)
    rcases hdivision.passed (c :: first) (by simp) c (by simp) with hpassed | hpassed
    · rw [hskipped] at hpassed
      cases hpassed
    · exact absurd hpassed hother

/-- A piece that stands alone is divided into itself, behind an empty piece for the reset that a
relation implies. -/
theorem IsPiece.spans :
    (tokens piece).map Token.span =
      Span.consecutive 0 ((if token.kind.isRelation then [[]] else []) ++ [piece]) := by
  obtain ⟨implied, pieces, hdivision, hwhole, hlength⟩ := h.exists_division
  have hparts : implied ++ pieces = (if token.kind.isRelation then [[]] else []) ++ [piece] := by
    by_cases hrelation : token.kind.isRelation
    · have himplied := h.implied_eq hrelation hdivision hwhole
      subst himplied
      rw [if_pos hrelation] at hlength ⊢
      obtain ⟨part, rfl⟩ := List.length_eq_one_iff.1 (Nat.add_right_cancel hlength)
      rw [hwhole]
      simp
    · rw [if_neg hrelation] at hlength ⊢
      obtain ⟨part, hpart⟩ := List.length_eq_one_iff.1 hlength
      rw [hpart, List.flatten_singleton] at hwhole
      rw [hpart, hwhole]
      rfl
  rw [hdivision.spans, hparts, h.takeWhile_isSkipped]
  rfl

end

theorem IsPiece.tokens_eq {source piece : List Char} {token : Token} (h : IsPiece piece token)
    (hspan : token.span.Covers source piece) :
    tokens piece =
      (if token.kind.isRelation then [⟨.reset, Draft.implicitReset, .nowhere⟩] else []) ++
        [{ token with span := ⟨0, token.span.length⟩ }] := by
  apply tokens_ext
  · have hlexemes := (reading_eq_iff.1 h.read).2
    rw [← lexemes, hlexemes, List.map_append]
    cases token.kind.isRelation <;> rfl
  · rw [h.spans, List.map_append, ← hspan.ofOffsets_zero]
    cases token.kind.isRelation with
    | false =>
      show [Span.ofOffsets 0 (0 + byteLength piece)] = _
      rw [Nat.zero_add]
      rfl
    | true =>
      show [Span.ofOffsets 0 0, Span.ofOffsets 0 (0 + byteLength piece)] = _
      rw [Nat.zero_add]
      rfl

/-- Tokens are local, also those in front of an error. Wherever else the same text is the slice of a
token, that token has the same kind and the same text. -/
theorem tokens_local {source : List Char} (hsize : byteLength source < UInt32.size) {token : Token}
    (htoken : token ∈ writtenTokens source) :
    ∃ slice, token.span.Covers source slice ∧
      syntaxError? slice = none ∧
      tokens slice =
        (if token.kind.isRelation then [⟨.reset, Draft.implicitReset, .nowhere⟩] else []) ++
          [{ token with span := ⟨0, token.span.length⟩ }] ∧
      ∀ other token', byteLength other < UInt32.size → token' ∈ writtenTokens other →
        token'.span.Covers other slice → token'.lexeme = token.lexeme := by
  obtain ⟨implied, pieces, rest, hdivision⟩ := exists_division source
  obtain ⟨piece, hpiece, hspan⟩ := hdivision.exists_piece hsize htoken
  refine ⟨piece, hspan, (reading_eq_iff.1 hpiece.read).1, hpiece.tokens_eq hspan, ?_⟩
  intro other token' hsize' htoken' hspan'
  obtain ⟨implied', pieces', rest', hdivision'⟩ := exists_division other
  obtain ⟨piece', hpiece', hcovers'⟩ := hdivision'.exists_piece hsize' htoken'
  obtain rfl := hspan'.unique hcovers'
  have hlexemes := congrArg Prod.fst (hpiece'.read.symm.trans hpiece.read)
  exact List.singleton_inj.1 (List.append_inj' hlexemes rfl).2

/-- The slice of a relation ends in front of the operator of the next token. -/
theorem tokens_local_quoted :
    let source := "&a<<'<b' \u20AC;c".toList
    let token : Token := ⟨.relation .secondary, "<b\u20AC".toList, ⟨2, 10⟩⟩
    token ∈ writtenTokens source ∧
      ∃ slice, token.span.Covers source slice ∧
        tokens slice =
          [⟨.reset, "[top]".toList, .nowhere⟩, { token with span := ⟨0, 10⟩ }] := by
  intro source token
  have htoken : token ∈ writtenTokens source := by decide +kernel
  obtain ⟨slice, hslice, -, htokens, -⟩ := tokens_local (by decide +kernel) htoken
  exact ⟨htoken, slice, hslice, htokens⟩

end CollationRules
