import CollationRules.Proofs.Markup.Reading

/-! The elements in what is read, each with its content, and the elements that well-nested pieces
are read back as. -/

namespace CollationRules.Markup

structure Element where
  name : Name
  content : List Event
deriving DecidableEq, Repr

/-- Where a reader of elements stands. -/
inductive ElementPlace
  | outside
  /-- In an element after some of its content, with `depth` elements open inside of that one. -/
  | inside (name : Name) (content : List Event) (depth : Nat)

/-- The elements from a place on. Only blanks can stand between elements. -/
def ElementPlace.read : ElementPlace → List Event → Option (List Element)
  | .outside, [] => some []
  | .inside .., [] => none
  | .outside, .start name :: rest => (inside name [] 0).read rest
  | .outside, .stop _ :: _ => none
  | .outside, .character c :: rest => if Text.isAsciiBlank c then outside.read rest else none
  | .inside name content 0, .stop last :: rest =>
    if last.getD name = name then (outside.read rest).map (⟨name, content⟩ :: ·) else none
  | .inside name content (depth + 1), .stop last :: rest =>
    (inside name (content ++ [.stop last]) depth).read rest
  | .inside name content depth, .start inner :: rest =>
    (inside name (content ++ [.start inner]) (depth + 1)).read rest
  | .inside name content depth, .character c :: rest =>
    (inside name (content ++ [.character c]) depth).read rest

/-- The outermost elements. -/
def elements (events : List Event) : Option (List Element) := ElementPlace.outside.read events

theorem read_inside_characters (name : Name) (content : List Event) (depth : Nat)
    (text : List Char) (rest : List Event) :
    (ElementPlace.inside name content depth).read (text.map .character ++ rest) =
      (ElementPlace.inside name (content ++ text.map .character) depth).read rest := by
  induction text generalizing content with
  | nil => simp
  | cons c text ih =>
    rw [List.map_cons, List.cons_append, ElementPlace.read, ih]
    simp

/-- Well-nested pieces are content of the element in which they stand. -/
theorem WellNested.read_inside {pieces : List Token} (h : WellNested pieces) (name : Name)
    (content : List Event) (depth : Nat) (rest : List Event) :
    (ElementPlace.inside name content depth).read (eventsOf pieces ++ rest) =
      (ElementPlace.inside name (content ++ eventsOf pieces) depth).read rest := by
  induction h generalizing content depth rest with
  | nil => simp
  | spacing s _ ih =>
    rw [eventsOf_cons, List.append_assoc, Token.events, read_inside_characters, ih]
    simp
  | characters text _ ih =>
    rw [eventsOf_cons, List.append_assoc, Token.events, read_inside_characters, ih]
    simp
  | empty inner attrs _ ih =>
    simp [Token.events, ElementPlace.read, ih]
  | element inner attrs _ _ ihContent ihRest =>
    simp [Token.events, ElementPlace.read, ihContent, ihRest]

theorem reads_element (name : Name) (attrs : List (Name × List Char)) {content : List Token}
    (h : WellNested content) :
    Reads elements
      (eventsOf (.openTag name :: attributePieces attrs ++ content ++ [.closeTag name]))
      [⟨name, eventsOf content⟩] := by
  intro rest
  simp [elements, Token.events, ElementPlace.read, h.read_inside]

theorem reads_emptyElement (name : Name) (attrs : List (Name × List Char)) :
    Reads elements (eventsOf (.openTag name :: attributePieces attrs ++ [.closeEmpty]))
      [⟨name, []⟩] := by
  intro rest
  simp [elements, Token.events, ElementPlace.read]

theorem reads_blanks {text : List Char} (h : text.all Text.isAsciiBlank) :
    Reads elements (text.map .character) [] := by
  induction text with
  | nil => exact .nil
  | cons c text ih =>
    rw [List.all_cons, Bool.and_eq_true] at h
    intro rest
    rw [List.map_cons, List.cons_append, elements, ElementPlace.read, if_pos h.1]
    exact ih h.2 rest

theorem eventsOf_textPieces (text : List Char) :
    eventsOf (textPieces text) = text.map .character := by
  cases text <;> simp [textPieces, Token.events]

theorem reads_elementPieces (name : Name) (text : List Char) :
    Reads elements (eventsOf (elementPieces name text)) [⟨name, text.map .character⟩] := by
  have hread := reads_element name [] (WellNested.textPieces text)
  rw [eventsOf_textPieces] at hread
  exact hread

theorem reads_spacing_elements (s : Spacing) : Reads elements (eventsOf [.spacing s]) [] := by
  simpa [Token.events] using reads_blanks s.text_blank

section Lines

variable {β : Type} {f : List Event → Option (List β)} (indent : Spacing) (depth : UInt64)
  (hf : ∀ s : Spacing, Reads f (eventsOf [.spacing s]) [])

include hf

theorem reads_indentation : Reads f (eventsOf (indentation indent depth)) [] := by
  unfold indentation
  split
  · exact .nil
  · exact hf _

/-- What skips spacing finds in a line what it finds in the content of the line. -/
theorem reads_line {content : List Token} {found : List β} (h : Reads f (eventsOf content) found) :
    Reads f (eventsOf (line indent depth content)) found := by
  have hread := ((reads_indentation indent depth hf).append h).append (hf .newline)
  rw [line, eventsOf_append, eventsOf_append]
  simpa using hread

theorem reads_blockContent {lines : List (List Token)} {found : List β}
    (h : Reads f (eventsOf (lines.flatMap (line indent (depth + 1)))) found) :
    Reads f (eventsOf (blockContent indent depth lines)) found := by
  have hread := ((hf .newline).append h).append (reads_indentation indent depth hf)
  rw [blockContent]
  simpa using hread

end Lines

theorem reads_block (indent : Spacing) (depth : UInt64) (name : Name) {lines : List (List Token)}
    (h : ∀ content ∈ lines, WellNested content) :
    Reads elements (eventsOf (block indent depth name lines))
      [⟨name, eventsOf (blockContent indent depth lines)⟩] := by
  rw [block_eq]
  exact reads_line indent depth reads_spacing_elements
    (reads_element name [] (.blockContent indent depth h))

/-! ### Elements inside of elements -/

/-- What a reader has read of the element in which it stands. -/
def ElementPlace.before : ElementPlace → List Event
  | .outside => []
  | .inside name content _ => .start name :: content

/-- An element that begins somewhere is one of the outermost, or inside of one of them. -/
theorem ElementPlace.start_mem {place : ElementPlace} {events : List Event} {found : List Element}
    (h : place.read events = some found) {name : Name}
    (hmem : .start name ∈ place.before ++ events) :
    ∃ element ∈ found, element.name = name ∨ .start name ∈ element.content := by
  induction place, events using ElementPlace.read.induct generalizing found with
  | case1 => cases hmem
  | case2 => cases h
  | case3 other rest ih => exact ih h hmem
  | case4 => cases h
  | case5 c rest hblank ih =>
    rw [read, if_pos hblank] at h
    exact ih h (by simpa [before] using hmem)
  | case6 c rest hblank =>
    rw [read, if_neg hblank] at h
    cases h
  | case7 other content last rest hsame ih =>
    rw [read, if_pos hsame] at h
    obtain ⟨others, hothers, rfl⟩ := Option.map_eq_some_iff.1 h
    rw [List.mem_append] at hmem
    rcases hmem with hmem | hmem
    · refine ⟨_, List.mem_cons_self, ?_⟩
      simpa [before, eq_comm] using hmem
    · obtain ⟨element, helement, hname⟩ := ih hothers (by simpa [before] using hmem)
      exact ⟨element, List.mem_cons_of_mem _ helement, hname⟩
  | case8 other content last rest hsame =>
    rw [read, if_neg hsame] at h
    cases h
  | case9 other content depth last rest ih => exact ih h (by simpa [before] using hmem)
  | case10 other content depth inner rest ih =>
    rw [read] at h
    exact ih h (by simpa [before] using hmem)
  | case11 other content depth c rest ih =>
    rw [read] at h
    exact ih h (by simpa [before] using hmem)

theorem start_mem_elements {events : List Event} {found : List Element}
    (h : elements events = some found) {name : Name} (hmem : .start name ∈ events) :
    ∃ element ∈ found, element.name = name ∨ .start name ∈ element.content :=
  ElementPlace.start_mem h (by simpa [ElementPlace.before] using hmem)

end CollationRules.Markup
