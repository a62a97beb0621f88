import CollationRules.Proofs.Markup.Reading

/-! The text of lines: each is indented by its depth, and none runs over into the next. -/

namespace CollationRules.Markup

/-- A line as text, after the indentation of its depth. -/
def lineText (indent : Spacing) (depth : UInt64) (content : List Char) : List Char :=
  (List.replicate depth.toNat indent.text).flatten ++ content ++ ['\n']

def tagText (name : Name) : List Char := '<' :: name.toList ++ ['>']

def endTagText (name : Name) : List Char := ['<', '/'] ++ name.toList ++ ['>']

/-- An element without attributes as text, around content that is text already. -/
def wrapText (name : Name) (content : List Char) : List Char :=
  tagText name ++ content ++ endTagText name

/-- An element as text, around a text that is escaped. -/
def elementText (name : Name) (text : List Char) : List Char := wrapText name (escape text)

theorem text_indentation (indent : Spacing) (depth : UInt64) (rest : List Token) :
    (write .outside (indentation indent depth ++ rest)).text =
      (List.replicate depth.toNat indent.text).flatten ++ (write .outside rest).text := by
  unfold indentation
  split
  · rename_i h
    have hempty : (List.replicate depth.toNat indent.text).flatten = [] := by
      rcases Bool.or_eq_true_iff.1 h with hdepth | hindent
      · simp [of_decide_eq_true hdepth]
      · simp [Spacing.isEmpty_iff.1 hindent]
    rw [hempty]
    rfl
  · rw [← Spacing.text_times]
    rfl

/-- A line ends a tag that its content leaves open. -/
theorem text_line (indent : Spacing) (depth : UInt64) {content : List Token} {state : WriterState}
    (h : (write .outside content).result = .ok state) (hstate : state ≠ .afterName)
    (rest : List Token) :
    (write .outside (line indent depth content ++ rest)).text =
      lineText indent depth
        ((write .outside content).text ++ if state = .inTag then ['>'] else []) ++
      (write .outside rest).text := by
  rw [line, List.append_assoc, List.append_assoc, text_indentation, text_append_of_ok h]
  cases state with
  | outside =>
    have hend : (write .outside (.spacing .newline :: rest)).text =
        '\n' :: (write .outside rest).text := rfl
    simp [lineText, hend]
  | inTag =>
    have hend : (write .inTag (.spacing .newline :: rest)).text =
        '>' :: '\n' :: (write .outside rest).text := rfl
    simp [lineText, hend]
  | afterName => exact absurd rfl hstate

theorem WellNested.text_flatMap {α : Type} {f : α → List Token} {xs : List α}
    (h : ∀ x ∈ xs, WellNested (f x)) (rest : List Token) :
    (Markup.write .outside (xs.flatMap f ++ rest)).text =
      xs.flatMap (fun x => (Markup.write .outside (f x)).text) ++
        (Markup.write .outside rest).text := by
  induction xs with
  | nil => rfl
  | cons x xs ih =>
    rw [List.forall_mem_cons] at h
    rw [List.flatMap_cons, List.append_assoc, text_append_of_ok h.1.write_outside, ih h.2,
      List.flatMap_cons, List.append_assoc]

theorem text_lines (indent : Spacing) (depth : UInt64) {lines : List (List Token)}
    (h : ∀ content ∈ lines, WellNested content) (rest : List Token) :
    (write .outside (lines.flatMap (line indent depth) ++ rest)).text =
      (lines.map fun content => (write .outside content).text).flatMap (lineText indent depth) ++
        (write .outside rest).text := by
  induction lines with
  | nil => rfl
  | cons content lines ih =>
    rw [List.forall_mem_cons] at h
    rw [List.flatMap_cons, List.append_assoc,
      text_line indent depth h.1.write_outside (by decide), ih h.2]
    simp

/-- A block as text, around lines that are text already. -/
def blockText (indent : Spacing) (depth : UInt64) (name : Name) (lines : List (List Char)) :
    List Char :=
  lineText indent depth (tagText name) ++ lines.flatMap (lineText indent (depth + 1)) ++
    lineText indent depth (endTagText name)

theorem text_block (indent : Spacing) (depth : UInt64) (name : Name) {lines : List (List Token)}
    (h : ∀ content ∈ lines, WellNested content) :
    (write .outside (block indent depth name lines)).text =
      blockText indent depth name (lines.map fun content => (write .outside content).text) := by
  have hopen : (write .outside [.openTag name]).result = .ok .inTag := rfl
  have hclose : (write .outside [.closeTag name]).result = .ok .outside := rfl
  have hlast := text_line indent depth hclose (by decide) []
  rw [List.append_nil] at hlast
  rw [block, List.append_assoc, text_line indent depth hopen (by decide),
    text_lines indent (depth + 1) h, hlast]
  simp [blockText, tagText, endTagText, write, Token.write?, WriterState.content?]

/-! ### Elements -/

theorem text_textPieces (text : List Char) :
    (write .outside (textPieces text)).text = escape text := by
  unfold textPieces
  split
  · rename_i h
    rw [List.isEmpty_iff.1 h]
    rfl
  · simp [write, Token.write?, WriterState.content?]

theorem text_emptyElement (name : Name) :
    (write .outside [.openTag name, .closeEmpty]).text = '<' :: name.toList ++ ['/', '>'] := rfl

theorem text_wrap (name : Name) {content : List Token} (h : WellNested content)
    (rest : List Token) :
    (write .outside (.openTag name :: content ++ .closeTag name :: rest)).text =
      wrapText name (write .outside content).text ++ (write .outside rest).text := by
  have htext := h.text_element name [] rest
  simpa [attributePieces, startText, wrapText, tagText, endTagText] using htext

theorem text_elementPieces (name : Name) (text : List Char) (rest : List Token) :
    (write .outside (elementPieces name text ++ rest)).text =
      elementText name text ++ (write .outside rest).text := by
  have htext := text_wrap name (WellNested.textPieces text) rest
  rw [text_textPieces] at htext
  simpa [elementPieces, elementText] using htext

end CollationRules.Markup
