import CollationRules.Proofs.Markup.Escaping

/-! What can stand in attribute values, and what a reader finds in them. A value has no mark that
could end it, and it is read as it was meant unless it has a control character that markup has no
reference for. -/

namespace CollationRules.Markup

/-! ### Pieces -/

/-- What stands in an attribute value for a character that the first pass leaves. -/
def attributeSub? (c : Char) : Option (List Char) :=
  if c = '"' then some "&quot;".toList
  else if c = '\t' then some "&#x9;".toList
  else if c = '\n' then some "&#xA;".toList
  else if c = '\r' then some "&#xD;".toList
  else if isC0 c then some ['\uFFFD']
  else none

/-- Whether an attribute value has another character in the place of a character. -/
def isReplaced (c : Char) : Bool := isC0 c && c != '\t' && c != '\n' && c != '\r'

theorem isReplaced_eq {c : Char} (htab : c ≠ '\t') (hfeed : c ≠ '\n') (hreturn : c ≠ '\r') :
    isReplaced c = isC0 c := by
  rw [isReplaced, bne_iff_ne.2 htab, bne_iff_ne.2 hfeed, bne_iff_ne.2 hreturn, Bool.and_true,
    Bool.and_true, Bool.and_true]

/-- Whether an attribute value can hold a text as it is. -/
def isKept (text : List Char) : Bool := text.all (!isReplaced ·)

/-- What an attribute value shows of a character. -/
def shown (c : Char) : Char := if isReplaced c then '\uFFFD' else c

/-- What an attribute value has for a character without a meaning in markup. -/
def attributePiece (c : Char) : List Char :=
  if c = '\t' then "&#x9;".toList
  else if c = '\n' then "&#xA;".toList
  else if c = '\r' then "&#xD;".toList
  else if isReplaced c then ['\uFFFD']
  else [c]

theorem escapeAttributeChar_eq (c : Char) :
    escapeAttributeChar c = (entity? c).getD (attributePiece c) := by
  rw [escapeAttributeChar, attributePiece]
  congr 1
  split
  · rfl
  split
  · rfl
  split
  · rfl
  · rename_i htab hfeed hreturn
    simp only [isReplaced_eq htab hfeed hreturn, isC0, decide_eq_true_eq]

theorem getD_attributeSub? {c : Char} (hquote : c ≠ '"') :
    (attributeSub? c).getD [c] = attributePiece c := by
  rw [attributeSub?, if_neg hquote, attributePiece]
  split
  · rfl
  split
  · rfl
  split
  · rfl
  · rename_i htab hfeed hreturn
    rw [isReplaced_eq htab hfeed hreturn]
    split <;> rfl

theorem EscapesContent.rewrite_attributeSub? {partialEscape : List Char → List Char}
    (h : EscapesContent partialEscape) (value : List Char) :
    rewrite attributeSub? (partialEscape value) = escapeAttribute value := by
  rw [h.rewrite_eq (by decide) rfl (fun _ => getD_attributeSub?) value, escapeAttribute]
  exact congrArg (value.flatMap ·) (funext fun c => (escapeAttributeChar_eq c).symm)

/-- What can stand for a character in an attribute value. -/
theorem escapeAttributeChar_cases (c : Char) :
    escapeAttributeChar c ∈ attributeReferences ∨ escapeAttributeChar c = ['\uFFFD'] ∨
      (entity? c = none ∧ ¬isC0 c ∧ escapeAttributeChar c = [c]) := by
  rw [escapeAttributeChar_eq]
  cases hreference : entity? c with
  | some reference => exact .inl (mem_attributeReferences hreference)
  | none =>
    rw [Option.getD_none, attributePiece]
    split
    · exact .inl (by decide)
    split
    · exact .inl (by decide)
    split
    · exact .inl (by decide)
    split
    · exact .inr (.inl rfl)
    · rename_i htab hfeed hreturn hreplaced
      rw [isReplaced_eq htab hfeed hreturn] at hreplaced
      exact .inr (.inr ⟨rfl, hreplaced, rfl⟩)

/-- No mark that could end an attribute value is in what stands for a character. -/
theorem escapeAttributeChar_safe (c : Char) :
    '<' ∉ escapeAttributeChar c ∧ '>' ∉ escapeAttributeChar c ∧ '"' ∉ escapeAttributeChar c ∧
      '&' ∉ (escapeAttributeChar c).tail ∧ (escapeAttributeChar c).all (!isC0 ·) := by
  rcases escapeAttributeChar_cases c with hreference | heq | ⟨hreference, hcontrol, heq⟩
  · exact mem_reference hreference
  · rw [heq]
    decide
  · have hne {d : Char} (hd : (entity? d).isSome) : d ∉ [c] := by
      rw [List.mem_singleton]
      rintro rfl
      rw [hreference] at hd
      cases hd
    rw [heq]
    exact ⟨hne (by decide), hne (by decide), hne (by decide), List.not_mem_nil,
      by simpa using hcontrol⟩

/-- Ampersands are written for references alone. -/
theorem escapeAttributeChar_mem_references {c : Char} (h : '&' ∈ escapeAttributeChar c) :
    escapeAttributeChar c ∈ attributeReferences := by
  rcases escapeAttributeChar_cases c with hreference | heq | ⟨hreference, -, heq⟩
  · exact hreference
  · rw [heq] at h
    exact absurd h (by decide)
  · rw [heq] at h
    rw [← List.mem_singleton.1 h] at hreference
    cases hreference

theorem escapeAttribute_safe (value : List Char) :
    '<' ∉ escapeAttribute value ∧ '>' ∉ escapeAttribute value ∧ '"' ∉ escapeAttribute value ∧
      (escapeAttribute value).all (!isC0 ·) := by
  have hfree {d : Char} (hd : ∀ c, d ∉ escapeAttributeChar c) : d ∉ escapeAttribute value := by
    intro hmem
    obtain ⟨c, -, hc⟩ := List.mem_flatMap.1 hmem
    exact hd c hc
  refine ⟨hfree fun c => (escapeAttributeChar_safe c).1,
    hfree fun c => (escapeAttributeChar_safe c).2.1,
    hfree fun c => (escapeAttributeChar_safe c).2.2.1, ?_⟩
  rw [escapeAttribute, List.all_flatMap]
  exact List.all_eq_true.2 fun c _ => (escapeAttributeChar_safe c).2.2.2.2

theorem exists_reference {value before rest : List Char}
    (h : escapeAttribute value = before ++ '&' :: rest) :
    ∃ reference ∈ attributeReferences, reference <+: '&' :: rest := by
  obtain ⟨c, -, hmem, hpiece⟩ :=
    exists_beginning h fun x => (escapeAttributeChar_safe x).2.2.2.1
  exact ⟨escapeAttributeChar c, escapeAttributeChar_mem_references hmem, hpiece⟩

/-! ### A reader -/

/-- The character that a reference stands for, given by what is between its ampersand and its
semicolon. -/
def referenced? : List Char → Option Char
  | '#' :: 'x' :: digits =>
    some (.ofNat (digits.foldl (fun number digit => 16 * number + hexValue digit) 0))
  | entity => character? entity

/-- Where a reader of attribute values stands. -/
inductive ValueState
  | plain
  /-- In a reference, after some of its characters. -/
  | inReference (entity : List Char)

/-- What a value means from a state on. A tab or the end of a line that is not written as a
reference means a space, and what cannot stand in a value has no meaning. -/
def ValueState.read : ValueState → List Char → Option (List Char)
  | .plain, [] => some []
  | .inReference _, [] => none
  | .plain, c :: rest =>
    if c = '<' ∨ c = '"' ∨ isReplaced c then none
    else if c = '&' then (inReference []).read rest
    else (plain.read rest).map ((if isC0 c then ' ' else c) :: ·)
  | .inReference entity, c :: rest =>
    if c = ';' then
      match referenced? entity with
      | some found => (plain.read rest).map (found :: ·)
      | none => none
    else (inReference (entity ++ [c])).read rest

def readValue (text : List Char) : Option (List Char) := ValueState.plain.read text

theorem reads_plain {c : Char} (hreference : entity? c = none) (hcontrol : ¬isC0 c) :
    Reads readValue [c] [c] := by
  have hreplaced : ¬isReplaced c := by simp [isReplaced, hcontrol]
  have hmark : ¬(c = '<' ∨ c = '"' ∨ isReplaced c) := by
    rintro (rfl | rfl | h)
    · cases hreference
    · cases hreference
    · exact hreplaced h
  have hne : c ≠ '&' := by
    rintro rfl
    cases hreference
  intro rest
  simp [readValue, ValueState.read, hmark, hne, hcontrol]

theorem reads_escapeAttributeChar (c : Char) :
    Reads readValue (escapeAttributeChar c) [shown c] := by
  rw [escapeAttributeChar_eq]
  cases hreference : entity? c with
  | some reference =>
    intro rest
    unfold entity? at hreference
    split at hreference <;> cases hreference <;> rfl
  | none =>
    rw [Option.getD_none, attributePiece]
    split
    · rename_i h
      subst h
      exact fun rest => rfl
    split
    · rename_i h
      subst h
      exact fun rest => rfl
    split
    · rename_i h
      subst h
      exact fun rest => rfl
    split
    · rename_i hreplaced
      rw [shown, if_pos hreplaced]
      exact reads_plain rfl (by decide)
    · rename_i htab hfeed hreturn hreplaced
      rw [shown, if_neg hreplaced]
      rw [isReplaced_eq htab hfeed hreturn] at hreplaced
      exact reads_plain hreference hreplaced

theorem readValue_escapeAttribute (value : List Char) :
    readValue (escapeAttribute value) = some (value.map shown) := by
  have hreads : Reads readValue (escapeAttribute value) (value.map shown) := by
    rw [List.map_eq_flatMap]
    exact .flatMap fun c _ => reads_escapeAttributeChar c
  exact hreads.eq_some rfl

theorem map_shown {value : List Char} (h : isKept value) : value.map shown = value := by
  have hshown : ∀ c ∈ value, shown c = c := by
    intro c hc
    have hc' := List.all_eq_true.1 h c hc
    exact if_neg (by simpa using hc')
  rw [List.map_congr_left hshown, List.map_id']

/-- A value is read as it was meant unless it has a character that is replaced. -/
theorem readValue_eq_self {value : List Char} (h : isKept value) :
    readValue (escapeAttribute value) = some value := by
  rw [readValue_escapeAttribute, map_shown h]

/-! ### Attributes -/

/-- Where a reader of the attributes in a tag stands. -/
inductive AttributesState
  | between
  /-- In a name, after some of its characters. -/
  | inName (name : List Char)
  /-- After the sign that follows a name. -/
  | afterName (name : List Char)
  /-- In a quoted value, after some of its characters. -/
  | inValue (name value : List Char)

/-- The attributes in a text from a state on, each with what its value means. -/
def AttributesState.read : AttributesState → List Char → Option (List (Name × List Char))
  | .between, [] => some []
  | .inName _, [] | .afterName _, [] | .inValue _ _, [] => none
  | .between, c :: rest => if c = ' ' then (inName []).read rest else none
  | .inName name, c :: rest =>
    if c = '=' then (afterName name).read rest else (inName (name ++ [c])).read rest
  | .afterName name, c :: rest => if c = '"' then (inValue name []).read rest else none
  | .inValue name value, c :: rest =>
    if c = '"' then
      match readValue value with
      | some found => (between.read rest).map ((String.ofList name, found) :: ·)
      | none => none
    else (inValue name (value ++ [c])).read rest

def readAttributes (text : List Char) : Option (List (Name × List Char)) :=
  AttributesState.between.read text

theorem read_inName {tail : List Char} (h : '=' ∉ tail) (name rest : List Char) :
    (AttributesState.inName name).read (tail ++ '=' :: rest) =
      (AttributesState.afterName (name ++ tail)).read rest := by
  induction tail generalizing name with
  | nil => simp [AttributesState.read]
  | cons c tail ih =>
    rw [List.mem_cons, not_or] at h
    rw [List.cons_append, AttributesState.read, if_neg (Ne.symm h.1), ih h.2]
    simp

theorem read_inValue {tail : List Char} (h : '"' ∉ tail) (name value rest : List Char) :
    (AttributesState.inValue name value).read (tail ++ '"' :: rest) =
      (AttributesState.inValue name (value ++ tail)).read ('"' :: rest) := by
  induction tail generalizing value with
  | nil => simp
  | cons c tail ih =>
    rw [List.mem_cons, not_or] at h
    rw [List.cons_append, AttributesState.read, if_neg (Ne.symm h.1), ih h.2]
    simp

theorem reads_attributeText {attr : Name × List Char} (hname : isPlain attr.1) :
    Reads readAttributes (attributeText attr) [(attr.1, attr.2.map shown)] := by
  have hequals : '=' ∉ attr.1.toList := not_mem_of_isPlain hname (by decide)
  obtain ⟨-, -, hquote, -⟩ := escapeAttribute_safe attr.2
  intro rest
  have htext : attributeText attr ++ rest =
      ' ' :: (attr.1.toList ++ '=' :: '"' :: (escapeAttribute attr.2 ++ '"' :: rest)) := by
    simp [attributeText]
  rw [htext, readAttributes, AttributesState.read, if_pos rfl, read_inName hequals,
    AttributesState.read, if_pos rfl, read_inValue hquote, AttributesState.read, if_pos rfl,
    List.nil_append, List.nil_append, readValue_escapeAttribute, String.ofList_toList]
  rfl

/-- The attributes of a tag are read as they were meant, but for what their values cannot hold. -/
theorem readAttributes_eq {attrs : List (Name × List Char)}
    (hname : ∀ attr ∈ attrs, isPlain attr.1) :
    readAttributes (attrs.flatMap attributeText) =
      some (attrs.map fun attr => (attr.1, attr.2.map shown)) := by
  have hreads : Reads readAttributes (attrs.flatMap attributeText)
      (attrs.map fun attr => (attr.1, attr.2.map shown)) := by
    rw [List.map_eq_flatMap]
    exact .flatMap fun attr hattr => reads_attributeText (hname attr hattr)
  exact hreads.eq_some rfl

theorem readAttributes_eq_self {attrs : List (Name × List Char)}
    (hname : ∀ attr ∈ attrs, isPlain attr.1)
    (hvalue : ∀ attr ∈ attrs, isKept attr.2) :
    readAttributes (attrs.flatMap attributeText) = some attrs := by
  have hshown : ∀ attr ∈ attrs, (attr.1, attr.2.map shown) = attr := fun attr hattr =>
    Prod.ext rfl (map_shown (hvalue attr hattr))
  rw [readAttributes_eq hname, List.map_congr_left hshown, List.map_id']

/-! ### Values in pieces -/

def Token.attributeValue? : Token → Option (List Char)
  | attributeValue value => some value
  | _ => none

/-- The attribute values among pieces, in order. -/
def attributeValues (pieces : List Token) : List (List Char) :=
  pieces.filterMap Token.attributeValue?

theorem ofAttributes_attributeValue? : OfAttributes Token.attributeValue? :=
  ⟨fun _ => rfl, fun _ => rfl, rfl, fun _ => rfl, fun _ => rfl⟩

end CollationRules.Markup
