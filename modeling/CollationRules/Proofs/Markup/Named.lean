import CollationRules.Proofs.Markup.Reading

/-! The elements of one name among pieces of markup, each with all of its pieces. -/

namespace CollationRules.Markup

/-- The elements of a name from some place on, where one of them may be open after some pieces. -/
def selectFrom (name : Name) : Option (List Token) → List Token → Option (List (List Token))
  | none, [] => some []
  | some _, [] => none
  | none, piece :: rest =>
    if piece = .openTag name then selectFrom name (some [piece]) rest
    else selectFrom name none rest
  | some begun, piece :: rest =>
    if piece = .closeTag name then (selectFrom name none rest).map ((begun ++ [piece]) :: ·)
    else selectFrom name (some (begun ++ [piece])) rest

/-- The elements of a name in order, if each of them is closed. -/
def elementsNamed (name : Name) (pieces : List Token) : Option (List (List Token)) :=
  selectFrom name none pieces

variable {name : Name}

theorem reads_unnamed {pieces : List Token} (h : .openTag name ∉ pieces) :
    Reads (elementsNamed name) pieces [] := by
  induction pieces with
  | nil => exact .nil
  | cons piece pieces ih =>
    rw [List.mem_cons, not_or] at h
    intro rest
    rw [List.cons_append, elementsNamed, selectFrom, if_neg fun heq => h.1 heq.symm]
    exact ih h.2 rest

theorem selectFrom_content {content : List Token} (h : .closeTag name ∉ content)
    (begun rest : List Token) :
    selectFrom name (some begun) (content ++ .closeTag name :: rest) =
      (elementsNamed name rest).map ((begun ++ content ++ [.closeTag name]) :: ·) := by
  induction content generalizing begun with
  | nil => simp [selectFrom, elementsNamed]
  | cons piece content ih =>
    rw [List.mem_cons, not_or] at h
    rw [List.cons_append, selectFrom, if_neg fun heq => h.1 heq.symm, ih h.2]
    simp

theorem reads_named {content : List Token} (h : .closeTag name ∉ content) :
    Reads (elementsNamed name) (.openTag name :: content ++ [.closeTag name])
      [.openTag name :: content ++ [.closeTag name]] := by
  intro rest
  have hcontent := selectFrom_content h [.openTag name] rest
  rw [List.append_assoc, List.cons_append, elementsNamed, selectFrom, if_pos rfl]
  simpa using hcontent

/-! ### Pieces of other names -/

variable {other : Name} (indent : Spacing) (depth : UInt64)

@[simp] theorem openTag_not_mem_textPieces (text : List Char) :
    .openTag name ∉ textPieces text := by
  unfold textPieces
  split <;> simp

@[simp] theorem openTag_not_mem_attributePieces (attrs : List (Name × List Char)) :
    .openTag name ∉ attributePieces attrs := by
  simp [attributePieces]

@[simp] theorem openTag_mem_elementPieces (text : List Char) :
    .openTag name ∈ elementPieces other text ↔ name = other := by
  simp [elementPieces]

@[simp] theorem openTag_not_mem_indentation : .openTag name ∉ indentation indent depth := by
  unfold indentation
  split <;> simp

@[simp] theorem openTag_mem_line (content : List Token) :
    .openTag name ∈ line indent depth content ↔ .openTag name ∈ content := by
  simp [line]

theorem reads_named_line {content : List Token} {found : List (List Token)}
    (h : Reads (elementsNamed name) content found) :
    Reads (elementsNamed name) (line indent depth content) found := by
  have hindentation : Reads (elementsNamed name) (indentation indent depth) [] :=
    reads_unnamed (openTag_not_mem_indentation indent depth)
  have hend : Reads (elementsNamed name) [.spacing .newline] [] := reads_unnamed (by simp)
  simpa [line] using (hindentation.append h).append hend

theorem reads_named_block {lines : List (List Token)} {found : List (List Token)}
    (hother : name ≠ other)
    (h : Reads (elementsNamed name) (lines.flatMap (line indent (depth + 1))) found) :
    Reads (elementsNamed name) (block indent depth other lines) found := by
  have hopen : Reads (elementsNamed name) (line indent depth [.openTag other]) [] :=
    reads_named_line indent depth (reads_unnamed (by simp [hother]))
  have hclose : Reads (elementsNamed name) (line indent depth [.closeTag other]) [] :=
    reads_named_line indent depth (reads_unnamed (by simp))
  simpa [block] using (hopen.append h).append hclose

end CollationRules.Markup
