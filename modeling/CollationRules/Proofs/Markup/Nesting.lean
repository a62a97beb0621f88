import CollationRules.Proofs.Markup.Lines

/-! Well-nested markup, and that the writer accepts it. -/

namespace CollationRules.Markup

/-- Pieces in which every element that is opened is closed, and elements do not overlap. A closing
tag has the name of the innermost open element, only an element without content is closed as empty,
and attributes stand in tags, each value directly after its name. -/
inductive WellNested : List Token → Prop
  | nil : WellNested []
  | spacing (s : Spacing) {rest : List Token} : WellNested rest → WellNested (.spacing s :: rest)
  | characters (text : List Char) {rest : List Token} :
      WellNested rest → WellNested (.characters text :: rest)
  | empty (name : Name) (attrs : List (Name × List Char)) {rest : List Token} :
      WellNested rest →
      WellNested (.openTag name :: attributePieces attrs ++ .closeEmpty :: rest)
  | element (name : Name) (attrs : List (Name × List Char)) {content rest : List Token} :
      WellNested content → WellNested rest →
      WellNested (.openTag name :: attributePieces attrs ++ content ++ .closeTag name :: rest)

namespace WellNested

theorem append {first second : List Token} (h1 : WellNested first) (h2 : WellNested second) :
    WellNested (first ++ second) := by
  induction h1 with
  | nil => exact h2
  | spacing s _ ih => exact .spacing s ih
  | characters text _ ih => exact .characters text ih
  | empty name attrs _ ih => simpa using ih.empty name attrs
  | element name attrs hcontent _ _ ih => simpa using hcontent.element name attrs ih

theorem flatMap {α : Type} {f : α → List Token} {xs : List α} (h : ∀ x ∈ xs, WellNested (f x)) :
    WellNested (xs.flatMap f) := by
  induction xs with
  | nil => exact .nil
  | cons x xs ih =>
    rw [List.flatMap_cons]
    exact (h x (by simp)).append (ih fun y hy => h y (by simp [hy]))

theorem textPieces (text : List Char) : WellNested (textPieces text) := by
  unfold Markup.textPieces
  split
  · exact .nil
  · exact .characters text .nil

theorem wrap (name : Name) {content : List Token} (h : WellNested content) :
    WellNested (.openTag name :: content ++ [.closeTag name]) := by
  simpa [attributePieces] using h.element name [] .nil

theorem elementPieces (name : Name) (text : List Char) : WellNested (elementPieces name text) :=
  (textPieces text).wrap name

theorem indentation (indent : Spacing) (depth : UInt64) :
    WellNested (indentation indent depth) := by
  unfold Markup.indentation
  split
  · exact .nil
  · exact .spacing _ .nil

theorem line {indent : Spacing} {depth : UInt64} {content : List Token} (h : WellNested content) :
    WellNested (line indent depth content) :=
  ((indentation indent depth).append h).append (.spacing _ .nil)

theorem blockContent (indent : Spacing) (depth : UInt64) {lines : List (List Token)}
    (h : ∀ content ∈ lines, WellNested content) : WellNested (blockContent indent depth lines) := by
  have hlines : WellNested (lines.flatMap (Markup.line indent (depth + 1))) :=
    flatMap fun content hcontent => (h content hcontent).line
  exact (hlines.append (indentation indent depth)).spacing .newline

theorem block (indent : Spacing) (depth : UInt64) (name : Name) {lines : List (List Token)}
    (h : ∀ content ∈ lines, WellNested content) : WellNested (block indent depth name lines) := by
  rw [block_eq]
  exact ((blockContent indent depth h).wrap name).line

end WellNested

/-! ### Writing -/

theorem write_cons {state : WriterState} (token : Token) {rest : List Token}
    (h : (token.write? state).isSome) :
    (write state (token :: rest)).result = (write token.stateAfter rest).result := by
  obtain ⟨text, htext⟩ := Option.isSome_iff_exists.1 h
  simp [write, htext]

theorem write_append_of_ok {state next : WriterState} {first second : List Token}
    (h : (write state first).result = .ok next) :
    (write state (first ++ second)).result = (write next second).result := by
  simp [write_append, h]

theorem text_append_of_ok {state next : WriterState} {first second : List Token}
    (h : (write state first).result = .ok next) :
    (write state (first ++ second)).text =
      (write state first).text ++ (write next second).text := by
  rw [write_append, h]

theorem write_attributePieces (attrs : List (Name × List Char)) :
    (write .inTag (attributePieces attrs)).result = .ok .inTag := by
  induction attrs with
  | nil => rfl
  | cons attr attrs ih =>
    have hattr : (write .inTag [.attributeName attr.1, .attributeValue attr.2]).result =
        .ok .inTag := by
      rw [write_cons _ (by rfl), write_cons _ (by rfl)]
      rfl
    rw [attributePieces, List.flatMap_cons, write_append_of_ok hattr]
    exact ih

/-- Where content can stand, text, spacing and the tags of elements can. -/
theorem content?_isSome {state : WriterState} (h : state ≠ .afterName) (text : List Char) :
    (state.content? text).isSome := by
  cases state with
  | outside => rfl
  | inTag => rfl
  | afterName => exact absurd rfl h

theorem write_startTag {state : WriterState} (hs : state ≠ .afterName) (name : Name)
    (attrs : List (Name × List Char)) :
    (write state (.openTag name :: attributePieces attrs)).result = .ok .inTag := by
  rw [write_cons (.openTag name) (content?_isSome hs _)]
  exact write_attributePieces attrs

/-- The writer accepts well-nested pieces wherever content can stand. Afterwards content can stand
again, outside of tags if it was outside of tags before. -/
theorem WellNested.write {pieces : List Token} (h : WellNested pieces) (state : WriterState)
    (hs : state ≠ .afterName) :
    ∃ next, (write state pieces).result = .ok next ∧ next ≠ .afterName ∧
      (state = .outside → next = .outside) := by
  induction h generalizing state with
  | nil => exact ⟨state, rfl, hs, id⟩
  | spacing s _ ih =>
    rw [write_cons (.spacing s) (content?_isSome hs _)]
    obtain ⟨next, hnext, hne, hout⟩ := ih .outside (by decide)
    exact ⟨next, hnext, hne, fun _ => hout rfl⟩
  | characters text _ ih =>
    rw [write_cons (.characters text) (content?_isSome hs _)]
    obtain ⟨next, hnext, hne, hout⟩ := ih .outside (by decide)
    exact ⟨next, hnext, hne, fun _ => hout rfl⟩
  | empty name attrs _ ih =>
    rw [write_append_of_ok (write_startTag hs name attrs), write_cons .closeEmpty (by rfl)]
    obtain ⟨next, hnext, hne, hout⟩ := ih .outside (by decide)
    exact ⟨next, hnext, hne, fun _ => hout rfl⟩
  | element name attrs _ _ ihContent ihRest =>
    obtain ⟨inner, hinner, hinnerNe, -⟩ := ihContent .inTag (by decide)
    rw [List.append_assoc, write_append_of_ok (write_startTag hs name attrs),
      write_append_of_ok hinner, write_cons (.closeTag name) (content?_isSome hinnerNe _)]
    obtain ⟨next, hnext, hne, hout⟩ := ihRest .outside (by decide)
    exact ⟨next, hnext, hne, fun _ => hout rfl⟩

theorem WellNested.write_outside {pieces : List Token} (h : WellNested pieces) :
    (Markup.write .outside pieces).result = .ok .outside := by
  obtain ⟨next, hnext, -, hout⟩ := h.write .outside (by decide)
  rw [hnext, hout rfl]

end CollationRules.Markup
