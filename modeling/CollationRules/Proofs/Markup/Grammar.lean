import CollationRules.Proofs.Markup.LineText

/-! The grammar of what a writer accepts: tags, texts and spacing, one after the other, where only
the last tag may break off after the name of an attribute. A start tag is ended by what stands
behind it. The first piece that cannot go on like this is the one that stops the writer. -/

namespace CollationRules.Markup

/-- A tag, a text or spacing. -/
inductive Item
  /-- A start tag, which may break off after the name of an attribute. -/
  | startTag (name : Name) (attrs : List (Name × List Char)) (cut : Option Name)
  /-- The tag of an element that is closed as empty. -/
  | emptyTag (name : Name) (attrs : List (Name × List Char))
  | endTag (name : Name)
  | characters (text : List Char)
  | spacing (s : Spacing)
deriving DecidableEq, Repr

namespace Item

def pieces : Item → List Token
  | startTag name attrs cut =>
    .openTag name :: attributePieces attrs ++ cut.toList.map .attributeName
  | emptyTag name attrs => .openTag name :: attributePieces attrs ++ [.closeEmpty]
  | endTag name => [.closeTag name]
  | characters text => [.characters text]
  | spacing s => [.spacing s]

/-- An item as text. A start tag is not ended. -/
def text : Item → List Char
  | startTag name attrs cut =>
    '<' :: startText name attrs ++ cut.toList.flatMap fun last => ' ' :: last.toList
  | emptyTag name attrs => '<' :: startText name attrs ++ ['/', '>']
  | endTag name => endTagText name
  | characters text => escape text
  | spacing s => s.text

/-- Whether an item does not break off. -/
def isWhole : Item → Bool
  | startTag _ _ cut => cut.isNone
  | _ => true

def isStartTag : Item → Bool
  | startTag .. => true
  | _ => false

/-- The state of a writer behind an item. -/
def stateAfter : Item → WriterState
  | startTag _ _ none => .inTag
  | startTag _ _ (some _) => .afterName
  | _ => .outside

end Item

/-- That only the last item may break off. -/
def IsStream (items : List Item) : Prop := ∀ item ∈ items.dropLast, item.isWhole

def itemPieces (items : List Item) : List Token := items.flatMap Item.pieces

/-- Items as text. A start tag is ended if anything stands behind it. -/
def itemText : List Item → List Char
  | [] => []
  | item :: rest =>
    item.text ++ (if item.isStartTag && !rest.isEmpty then ['>'] else []) ++ itemText rest

/-- The state of a writer behind items. -/
def itemState (items : List Item) : WriterState :=
  (items.getLast?.map Item.stateAfter).getD .outside

/-- That pieces are those of items of which only the last one may break off. -/
def InGrammar (pieces : List Token) : Prop := ∃ items, IsStream items ∧ itemPieces items = pieces

/-! ### Items are written -/

theorem write_outside_startTag (name : Name) (attrs : List (Name × List Char)) (rest : List Token) :
    write .outside (.openTag name :: attributePieces attrs ++ rest) =
      ⟨'<' :: startText name attrs ++ (write .inTag rest).text, (write .inTag rest).result⟩ := by
  have hresult : (write .outside (.openTag name :: attributePieces attrs)).result = .ok .inTag :=
    write_startTag (show WriterState.outside ≠ .afterName by decide) name attrs
  rw [write_append, hresult, ← text_startTag]

theorem write_singleton {state : WriterState} {token : Token} {text : List Char}
    (h : token.write? state = some text) :
    write state [token] = ⟨text, .ok token.stateAfter⟩ := by
  simp [write, h]

theorem Item.write_pieces (item : Item) :
    write .outside item.pieces = ⟨item.text, .ok item.stateAfter⟩ := by
  cases item with
  | startTag name attrs cut =>
    rw [pieces, write_outside_startTag]
    cases cut with
    | none => rfl
    | some last => simp [text, write, Token.write?, Token.stateAfter, stateAfter]
  | emptyTag name attrs =>
    rw [pieces, write_outside_startTag]
    rfl
  | endTag name => exact write_singleton rfl
  | characters content => exact write_singleton rfl
  | spacing s => exact write_singleton rfl

/-- An item ends a tag that is open before it. -/
theorem Item.write_inTag (item : Item) (rest : List Token) :
    write .inTag (item.pieces ++ rest) =
      ⟨'>' :: (write .outside (item.pieces ++ rest)).text,
        (write .outside (item.pieces ++ rest)).result⟩ := by
  cases item <;> rfl

@[simp] theorem itemPieces_cons (item : Item) (rest : List Item) :
    itemPieces (item :: rest) = item.pieces ++ itemPieces rest := rfl

@[simp] theorem itemPieces_append (first second : List Item) :
    itemPieces (first ++ second) = itemPieces first ++ itemPieces second :=
  List.flatMap_append

theorem isStream_cons_cons {item next : Item} {rest : List Item} :
    IsStream (item :: next :: rest) ↔ item.isWhole ∧ IsStream (next :: rest) := by
  simp [IsStream]

/-- A writer accepts items and writes them as their text. -/
theorem write_items {items : List Item} (h : IsStream items) :
    write .outside (itemPieces items) = ⟨itemText items, .ok (itemState items)⟩ := by
  induction items with
  | nil => rfl
  | cons item rest ih =>
    cases rest with
    | nil => simp [itemPieces, itemText, itemState, item.write_pieces]
    | cons next rest =>
      obtain ⟨hwhole, hrest⟩ := isStream_cons_cons.1 h
      have hnext := ih hrest
      have hlast : itemState (item :: next :: rest) = itemState (next :: rest) := rfl
      rw [itemPieces_cons, write_append, item.write_pieces, hlast, itemText]
      rw [itemPieces_cons] at hnext ⊢
      cases item with
      | startTag name attrs cut =>
        -- the next item ends the tag
        obtain rfl : cut = none := by simpa [Item.isWhole] using hwhole
        simp [Item.stateAfter, Item.isStartTag, next.write_inTag, hnext]
      | _ => simp [Item.stateAfter, Item.isStartTag, hnext]

/-! ### Pieces are items -/

@[simp] theorem itemState_concat (items : List Item) (item : Item) :
    itemState (items ++ [item]) = item.stateAfter := by
  simp [itemState]

theorem isStream_concat {items : List Item} {item : Item} :
    IsStream (items ++ [item]) ↔ ∀ other ∈ items, other.isWhole := by
  simp [IsStream]

theorem exists_of_inTag {items : List Item} (h : itemState items = .inTag) :
    ∃ before name attrs, items = before ++ [.startTag name attrs none] := by
  rcases List.eq_nil_or_concat items with rfl | ⟨before, item, rfl⟩
  · cases h
  · rw [List.concat_eq_append, itemState_concat] at h
    match item, h with
    | .startTag name attrs none, _ => exact ⟨before, name, attrs, List.concat_eq_append⟩

theorem exists_of_afterName {items : List Item} (h : itemState items = .afterName) :
    ∃ before name attrs last, items = before ++ [.startTag name attrs (some last)] := by
  rcases List.eq_nil_or_concat items with rfl | ⟨before, item, rfl⟩
  · cases h
  · rw [List.concat_eq_append, itemState_concat] at h
    match item, h with
    | .startTag name attrs (some last), _ =>
      exact ⟨before, name, attrs, last, List.concat_eq_append⟩

/-- Where content can stand, nothing has been broken off. -/
theorem IsStream.concat {items : List Item} (h : IsStream items)
    (hstate : itemState items ≠ .afterName) (item : Item) : IsStream (items ++ [item]) := by
  rcases List.eq_nil_or_concat items with rfl | ⟨before, last, rfl⟩
  · exact isStream_concat.2 (by simp)
  · rw [List.concat_eq_append] at h hstate ⊢
    have hlast : last.isWhole := by
      rw [itemState_concat] at hstate
      match last, hstate with
      | .startTag _ _ none, _ | .emptyTag .., _ | .endTag _, _ | .characters _, _ | .spacing _, _ =>
        rfl
    refine isStream_concat.2 fun other hother => ?_
    rcases List.mem_append.1 hother with hbefore | hother
    · exact isStream_concat.1 h other hbefore
    · rwa [List.mem_singleton.1 hother]

theorem ne_afterName_of_content? {state : WriterState} {text : List Char}
    (h : (state.content? text).isSome) : state ≠ .afterName := by
  rintro rfl
  cases h

/-- A piece that a writer accepts behind items goes on with the last of them, or is one more. -/
theorem exists_items_concat {items : List Item} (h : IsStream items) {token : Token}
    (htoken : (token.write? (itemState items)).isSome) :
    ∃ more, IsStream more ∧ itemPieces more = itemPieces items ++ [token] := by
  cases token with
  | openTag name =>
    exact ⟨_, h.concat (ne_afterName_of_content? htoken) (.startTag name [] none),
      itemPieces_append ..⟩
  | closeTag name =>
    exact ⟨_, h.concat (ne_afterName_of_content? htoken) (.endTag name), itemPieces_append ..⟩
  | characters text =>
    exact ⟨_, h.concat (ne_afterName_of_content? htoken) (.characters text), itemPieces_append ..⟩
  | spacing s =>
    exact ⟨_, h.concat (ne_afterName_of_content? htoken) (.spacing s), itemPieces_append ..⟩
  | closeEmpty =>
    have hstate : itemState items = .inTag := by simpa [Token.write?] using htoken
    obtain ⟨before, name, attrs, rfl⟩ := exists_of_inTag hstate
    refine ⟨before ++ [.emptyTag name attrs], isStream_concat.2 (isStream_concat.1 h), ?_⟩
    simp [itemPieces, Item.pieces]
  | attributeName last =>
    have hstate : itemState items = .inTag := by simpa [Token.write?] using htoken
    obtain ⟨before, name, attrs, rfl⟩ := exists_of_inTag hstate
    refine ⟨before ++ [.startTag name attrs (some last)],
      isStream_concat.2 (isStream_concat.1 h), ?_⟩
    simp [itemPieces, Item.pieces]
  | attributeValue value =>
    have hstate : itemState items = .afterName := by simpa [Token.write?] using htoken
    obtain ⟨before, name, attrs, last, rfl⟩ := exists_of_afterName hstate
    refine ⟨before ++ [.startTag name (attrs ++ [(last, value)]) none],
      isStream_concat.2 (isStream_concat.1 h), ?_⟩
    simp [itemPieces, Item.pieces, attributePieces]

/-- Behind items, pieces either go on with them to the end, or up to one that stops the writer. -/
theorem exists_items_or_stops {items : List Item} (h : IsStream items) (pieces : List Token) :
    (∃ more, IsStream more ∧ itemPieces more = itemPieces items ++ pieces) ∨
      ∃ before token after more, pieces = before ++ token :: after ∧ IsStream more ∧
        itemPieces more = itemPieces items ++ before ∧ token.write? (itemState more) = none := by
  induction pieces generalizing items with
  | nil => exact .inl ⟨items, h, (List.append_nil _).symm⟩
  | cons token rest ih =>
    cases htoken : token.write? (itemState items) with
    | none => exact .inr ⟨[], token, rest, items, rfl, h, (List.append_nil _).symm, htoken⟩
    | some text =>
      have hsome : (token.write? (itemState items)).isSome := by
        rw [htoken]
        rfl
      obtain ⟨longer, hlonger, hpieces⟩ := exists_items_concat h hsome
      rcases ih hlonger with ⟨more, hmore, hall⟩ |
        ⟨before, last, after, more, rfl, hmore, hall, hstop⟩
      · exact .inl ⟨more, hmore, by rw [hall, hpieces, List.append_assoc]; rfl⟩
      · exact .inr ⟨token :: before, last, after, more, rfl, hmore,
          by rw [hall, hpieces, List.append_assoc]; rfl, hstop⟩

/-- A piece that stops the writer behind items stops it whatever follows. -/
theorem write_stop {items : List Item} (h : IsStream items) {token : Token}
    (hstop : token.write? (itemState items) = none) (after : List Token) :
    write .outside (itemPieces items ++ token :: after) =
      ⟨itemText items, .error (.unexpected token (itemState items))⟩ := by
  rw [write_append, write_items h]
  simp [write, hstop]

theorem not_inGrammar_of_error {pieces : List Token} {e : WriteError}
    (h : (write .outside pieces).result = .error e) : ¬InGrammar pieces := by
  rintro ⟨items, hitems, rfl⟩
  rw [write_items hitems] at h
  cases h

/-- A writer accepts just the grammar, and writes the text of the items. Anything else stops it at
the first piece that cannot go on with the grammar, behind the text of the items up to there. -/
theorem write_outside_grammar (pieces : List Token) :
    ((∃ state, (write .outside pieces).result = .ok state) ↔ InGrammar pieces) ∧
      (∀ items, IsStream items → itemPieces items = pieces →
        write .outside pieces = ⟨itemText items, .ok (itemState items)⟩) ∧
      (¬InGrammar pieces →
        ∃ items token after, IsStream items ∧ pieces = itemPieces items ++ token :: after ∧
          (∀ other, ¬InGrammar (itemPieces items ++ token :: other)) ∧
          write .outside pieces =
            ⟨itemText items, .error (.unexpected token (itemState items))⟩) := by
  have hitems (items : List Item) (h : IsStream items) (hpieces : itemPieces items = pieces) :
      write .outside pieces = ⟨itemText items, .ok (itemState items)⟩ := by
    rw [← hpieces, write_items h]
  have hstart : IsStream [] := by simp [IsStream]
  rcases exists_items_or_stops hstart pieces with ⟨items, h, hpieces⟩ |
    ⟨before, token, after, items, rfl, h, hpieces, hstop⟩
  · have hin : InGrammar pieces := ⟨items, h, hpieces⟩
    refine ⟨⟨fun _ => hin, fun _ => ?_⟩, hitems, fun hout => absurd hin hout⟩
    exact ⟨_, by rw [hitems items h hpieces]⟩
  · obtain rfl : itemPieces items = before := hpieces
    have hwrite := write_stop h hstop
    have hout (other : List Token) : ¬InGrammar (itemPieces items ++ token :: other) :=
      not_inGrammar_of_error (by rw [hwrite])
    refine ⟨⟨?_, fun hin => absurd hin (hout after)⟩, hitems,
      fun _ => ⟨items, token, after, h, rfl, hout, hwrite after⟩⟩
    rintro ⟨state, hstate⟩
    rw [hwrite] at hstate
    cases hstate

/-- An element cannot be closed as empty once its start tag is ended. -/
theorem write_outside_grammar_stopped :
    let pieces : List Token := [.openTag "a", .attributeName "b", .attributeValue ['<'],
      .characters ['c'], .closeEmpty, .closeTag "a"]
    ¬InGrammar pieces ∧
      ∃ items token after, IsStream items ∧ pieces = itemPieces items ++ token :: after ∧
        (∀ other, ¬InGrammar (itemPieces items ++ token :: other)) ∧
        write .outside pieces =
          ⟨itemText items, .error (.unexpected token (itemState items))⟩ := by
  intro pieces
  have hout : ¬InGrammar pieces :=
    not_inGrammar_of_error (e := .unexpected .closeEmpty .outside) rfl
  exact ⟨hout, (write_outside_grammar pieces).2.2 hout⟩

end CollationRules.Markup
