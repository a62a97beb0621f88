import CollationRules.Proofs.Markup.Reading

/-! What can stand in escaped text. It comes about in two passes, the second of which goes over what
the first one wrote, and they add up to one piece for each character. These pieces can be told apart
by where they begin, so that none of the characters with a meaning in markup is there by itself. -/

namespace CollationRules.Markup

/-- Whether a character is a C0 control. -/
def isC0 (c : Char) : Bool := c.toNat < 0x20

theorem not_isC0_of_all {text : List Char} (h : text.all (!isC0 ·)) {c : Char} (hc : c ∈ text) :
    ¬isC0 c := by
  simpa using List.all_eq_true.1 h c hc

/-! ### Two passes -/

section

variable (sub? : Char → Option (List Char))

/-- A text in which some characters are replaced. It is kept as it is up to the first of them. -/
def rewrite (text : List Char) : List Char :=
  match text.findIdx? fun c => (sub? c).isSome with
  | none => text
  | some first => text.take first ++ (text.drop first).flatMap fun c => (sub? c).getD [c]

variable {sub?}

theorem flatMap_getD_eq_self {text : List Char} (h : ∀ c ∈ text, sub? c = none) :
    text.flatMap (fun c => (sub? c).getD [c]) = text := by
  induction text with
  | nil => rfl
  | cons c text ih =>
    obtain ⟨hc, htext⟩ := List.forall_mem_cons.1 h
    rw [List.flatMap_cons, hc, ih htext]
    rfl

theorem rewrite_eq_flatMap (text : List Char) :
    rewrite sub? text = text.flatMap fun c => (sub? c).getD [c] := by
  unfold rewrite
  split
  · rename_i hnone
    have hkept : ∀ c ∈ text, sub? c = none := by simpa using hnone
    exact (flatMap_getD_eq_self hkept).symm
  · rename_i first hsome
    obtain ⟨hfirst, -, hbefore⟩ := List.findIdx?_eq_some_iff_getElem.1 hsome
    have hkept : ∀ c ∈ text.take first, sub? c = none := by
      intro c hc
      obtain ⟨i, hi, rfl⟩ := List.mem_take_iff_getElem.1 hc
      simpa using hbefore i (by omega)
    calc text.take first ++ (text.drop first).flatMap (fun c => (sub? c).getD [c])
        = (text.take first ++ text.drop first).flatMap fun c => (sub? c).getD [c] := by
          rw [List.flatMap_append, flatMap_getD_eq_self hkept]
      _ = text.flatMap fun c => (sub? c).getD [c] := by rw [List.take_append_drop]

end

/-- The references for the characters with a meaning in the content of elements. -/
def contentReference? : Char → Option (List Char)
  | '<' => some "&lt;".toList
  | '>' => some "&gt;".toList
  | '&' => some "&amp;".toList
  | _ => none

/-- That an escape of text replaces these characters by their references, and no others. -/
def EscapesContent (partialEscape : List Char → List Char) : Prop :=
  ∀ text, partialEscape text = text.flatMap fun c => (contentReference? c).getD [c]

/-- The references in character data. -/
def references : List (List Char) :=
  ["&lt;".toList, "&gt;".toList, "&amp;".toList, "&quot;".toList]

theorem mem_references {c : Char} {reference : List Char} (h : entity? c = some reference) :
    reference ∈ references := by
  unfold entity? at h
  split at h <;> cases h <;> decide

theorem entity?_eq_contentReference? (c : Char) :
    entity? c = if c = '"' then some "&quot;".toList else contentReference? c := by
  unfold entity? contentReference?
  split <;> simp_all

/-- Two passes are one if the second leaves what the first writes, and sees to the quotes. -/
theorem EscapesContent.rewrite_eq {partialEscape : List Char → List Char}
    (h : EscapesContent partialEscape) {sub? : Char → Option (List Char)}
    {other : Char → List Char}
    (hreference : ∀ reference ∈ references, reference.all fun d => (sub? d).isNone)
    (hquote : sub? '"' = some "&quot;".toList)
    (hother : ∀ c, c ≠ '"' → (sub? c).getD [c] = other c) (text : List Char) :
    rewrite sub? (partialEscape text) = text.flatMap fun c => (entity? c).getD (other c) := by
  rw [rewrite_eq_flatMap, h, List.flatMap_assoc]
  congr 1
  funext c
  cases hcontent : contentReference? c with
  | some reference =>
    have hne : c ≠ '"' := by
      rintro rfl
      cases hcontent
    have hentity : entity? c = some reference := by
      rw [entity?_eq_contentReference?, if_neg hne, hcontent]
    have hkept : ∀ d ∈ reference, sub? d = none := by
      simpa using hreference reference (mem_references hentity)
    rw [hentity, Option.getD_some, Option.getD_some, flatMap_getD_eq_self hkept]
  | none =>
    rw [Option.getD_none, List.flatMap_singleton, entity?_eq_contentReference?]
    by_cases hne : c = '"'
    · rw [if_pos hne, hne, hquote, Option.getD_some, Option.getD_some]
    · rw [if_neg hne, hcontent, Option.getD_none, hother c hne]

/-- What stands in character data for a character that the first pass leaves. -/
def characterSub? (c : Char) : Option (List Char) :=
  if c = '"' then some "&quot;".toList
  else if c = '\n' ∨ c = '\r' then none
  else if isC0 c then some (codePointElement c)
  else none

/-- Whether an element stands for a character in character data. -/
def isElementary (c : Char) : Bool := isC0 c && c != '\n' && c != '\r'

theorem isElementary_iff {c : Char} :
    isElementary c ↔ isC0 c ∧ ¬(c = '\n' ∨ c = '\r') := by
  simp [isElementary, and_assoc]

theorem escapeChar_eq (c : Char) :
    escapeChar c = (entity? c).getD (if isElementary c then codePointElement c else [c]) := rfl

theorem getD_characterSub? {c : Char} (hquote : c ≠ '"') :
    (characterSub? c).getD [c] = if isElementary c then codePointElement c else [c] := by
  rw [characterSub?, if_neg hquote]
  by_cases hend : c = '\n' ∨ c = '\r'
  · have hplain : ¬isElementary c := fun h => (isElementary_iff.1 h).2 hend
    rw [if_pos hend, if_neg hplain, Option.getD_none]
  · rw [if_neg hend]
    by_cases hcontrol : isC0 c
    · rw [if_pos hcontrol, if_pos (isElementary_iff.2 ⟨hcontrol, hend⟩), Option.getD_some]
    · have hplain : ¬isElementary c := fun h => hcontrol (isElementary_iff.1 h).1
      rw [if_neg hcontrol, if_neg hplain, Option.getD_none]

theorem EscapesContent.rewrite_characterSub? {partialEscape : List Char → List Char}
    (h : EscapesContent partialEscape) (text : List Char) :
    rewrite characterSub? (partialEscape text) = escape text :=
  h.rewrite_eq (by decide) rfl (fun _ => getD_characterSub?) text

/-! ### Pieces -/

/-- The references in attribute values, which can stand for blanks as well. -/
def attributeReferences : List (List Char) :=
  references ++ ["&#x9;".toList, "&#xA;".toList, "&#xD;".toList]

theorem mem_attributeReferences {c : Char} {reference : List Char}
    (h : entity? c = some reference) : reference ∈ attributeReferences :=
  List.mem_append_left _ (mem_references h)

/-- What can stand for a character in character data. -/
theorem escapeChar_cases (c : Char) :
    entity? c = some (escapeChar c) ∨ (isElementary c ∧ escapeChar c = codePointElement c) ∨
      (entity? c = none ∧ ¬isElementary c ∧ escapeChar c = [c]) := by
  rw [escapeChar_eq]
  cases entity? c with
  | some reference => exact .inl rfl
  | none =>
    rw [Option.getD_none]
    split
    · rename_i helement
      exact .inr (.inl ⟨helement, rfl⟩)
    · rename_i helement
      exact .inr (.inr ⟨rfl, helement, rfl⟩)

/-- A reference has no other mark than the ampersand with which it begins. -/
theorem mem_reference {reference : List Char} (h : reference ∈ attributeReferences) :
    '<' ∉ reference ∧ '>' ∉ reference ∧ '"' ∉ reference ∧ '&' ∉ reference.tail ∧
      reference.all (!isC0 ·) := by
  revert h reference
  decide +kernel

theorem mem_codePointElement :
    ∀ code < 0x20, '<' ∉ (codePointElement (.ofNat code)).tail ∧
      '&' ∉ codePointElement (.ofNat code) ∧ (codePointElement (.ofNat code)).all (!isC0 ·) := by
  decide +kernel

/-! ### Occurrences -/

section

variable {f : Char → List Char} {text before rest : List Char} {c : Char}

/-- Where a character stands in the pieces of a text, it stands in one of them. -/
theorem exists_piece (h : text.flatMap f = before ++ c :: rest) :
    ∃ x ∈ text, ∃ opened closed, f x = opened ++ c :: closed ∧ opened <:+ before ∧
      closed <+: rest := by
  induction text generalizing before with
  | nil => simp at h
  | cons x text ih =>
    rw [List.flatMap_cons] at h
    rcases List.append_eq_append_iff.1 h with ⟨opened, rfl, hopened⟩ | ⟨closed, hx, hclosed⟩
    · obtain ⟨y, hy, first, last, hpiece, hfirst, hlast⟩ := ih hopened
      exact ⟨y, List.mem_cons_of_mem x hy, first, last, hpiece,
        hfirst.trans (List.suffix_append ..), hlast⟩
    · cases closed with
      | nil =>
        -- the piece ends before the character, which stands in one of those after it
        have hrest : text.flatMap f = [] ++ c :: rest := hclosed.symm
        obtain ⟨y, hy, first, last, hpiece, hfirst, hlast⟩ := ih hrest
        exact ⟨y, List.mem_cons_of_mem x hy, first, last, hpiece,
          hfirst.trans (List.nil_suffix ..), hlast⟩
      | cons d closed =>
        rw [List.cons_append, List.cons.injEq] at hclosed
        obtain ⟨rfl, rfl⟩ := hclosed
        exact ⟨x, List.mem_cons_self, before, closed, hx, List.suffix_rfl,
          List.prefix_append ..⟩

/-- A character that pieces can have at their start only begins one where it stands. -/
theorem exists_beginning (h : text.flatMap f = before ++ c :: rest)
    (htail : ∀ x, c ∉ (f x).tail) : ∃ x ∈ text, c ∈ f x ∧ f x <+: c :: rest := by
  obtain ⟨x, hx, opened, closed, hpiece, -, hclosed⟩ := exists_piece h
  have hopened : opened = [] := by
    cases opened with
    | nil => rfl
    | cons d opened =>
      refine absurd ?_ (htail x)
      rw [hpiece]
      simp
  rw [hopened, List.nil_append] at hpiece
  refine ⟨x, hx, ?_, ?_⟩ <;> rw [hpiece]
  · exact List.mem_cons_self
  · exact List.cons_prefix_cons.2 ⟨rfl, hclosed⟩

end

/-! ### Character data -/

theorem mem_codePointElement_of_isElementary {c : Char} (h : isElementary c) :
    '<' ∉ (codePointElement c).tail ∧ '&' ∉ codePointElement c ∧
      (codePointElement c).all (!isC0 ·) := by
  have helement := mem_codePointElement c.toNat (of_decide_eq_true (isElementary_iff.1 h).1)
  rwa [Char.ofNat_toNat] at helement

theorem notMem_tail_escapeChar (c : Char) :
    '<' ∉ (escapeChar c).tail ∧ '&' ∉ (escapeChar c).tail := by
  rcases escapeChar_cases c with hreference | ⟨helement, heq⟩ | ⟨-, -, heq⟩
  · obtain ⟨hopen, -, -, htail, -⟩ := mem_reference (mem_attributeReferences hreference)
    exact ⟨fun hmem => hopen (List.mem_of_mem_tail hmem), htail⟩
  · obtain ⟨htail, href, -⟩ := mem_codePointElement_of_isElementary helement
    rw [heq]
    exact ⟨htail, fun hmem => href (List.mem_of_mem_tail hmem)⟩
  · rw [heq]
    exact ⟨List.not_mem_nil, List.not_mem_nil⟩

/-- Angle brackets and quotes are written for elements alone. -/
theorem isElementary_of_mem {c d : Char} (h : d ∈ escapeChar c) (hd : d = '<' ∨ d = '"') :
    isElementary c ∧ escapeChar c = codePointElement c := by
  rcases escapeChar_cases c with hreference | helement | ⟨hreference, -, heq⟩
  · obtain ⟨hopen, -, hquote, -⟩ := mem_reference (mem_attributeReferences hreference)
    rcases hd with rfl | rfl
    · exact absurd h hopen
    · exact absurd h hquote
  · exact helement
  · rw [heq] at h
    rw [List.mem_singleton.1 h] at hd
    rcases hd with rfl | rfl <;> cases hreference

/-- Ampersands are written for references alone. -/
theorem escapeChar_mem_references {c : Char} (h : '&' ∈ escapeChar c) :
    escapeChar c ∈ references := by
  rcases escapeChar_cases c with hreference | ⟨helement, heq⟩ | ⟨hreference, -, heq⟩
  · exact mem_references hreference
  · rw [heq] at h
    exact absurd h (mem_codePointElement_of_isElementary helement).2.1
  · rw [heq] at h
    rw [← List.mem_singleton.1 h] at hreference
    cases hreference

theorem control_of_mem_escapeChar {c d : Char} (h : d ∈ escapeChar c) (hd : isC0 d) :
    d = '\n' ∨ d = '\r' := by
  rcases escapeChar_cases c with hreference | ⟨helement, heq⟩ | ⟨-, helement, heq⟩
  · obtain ⟨-, -, -, -, hprinted⟩ := mem_reference (mem_attributeReferences hreference)
    exact absurd hd (not_isC0_of_all hprinted h)
  · obtain ⟨-, -, hprinted⟩ := mem_codePointElement_of_isElementary helement
    rw [heq] at h
    exact absurd hd (not_isC0_of_all hprinted h)
  · rw [heq] at h
    obtain rfl := List.mem_singleton.1 h
    exact Decidable.byContradiction fun hend => helement (isElementary_iff.2 ⟨hd, hend⟩)

theorem read_escape (text : List Char) : read (escape text) = some (text.map .character) :=
  (reads_escape text).eq_some rfl

theorem escape_injective : Function.Injective escape := by
  intro first second h
  have hread := read_escape first
  rw [h, read_escape, Option.some.injEq] at hread
  exact ((List.map_inj_right fun _ _ => Event.character.inj).1 hread).symm

/-- Character data has no markup but the elements for control characters and the four references,
and nothing of a text is lost in it. Two passes write what one does, if the first of them replaces
the characters with a meaning in content and no others. -/
theorem escape_safe_and_lossless {partialEscape : List Char → List Char}
    (hescape : EscapesContent partialEscape) :
    (∀ text, rewrite characterSub? (partialEscape text) = escape text) ∧
    (∀ first second, escape (first ++ second) = escape first ++ escape second) ∧
    (∀ text before rest, escape text = before ++ '<' :: rest →
      ∃ c ∈ text, isElementary c ∧ codePointElement c <+: '<' :: rest) ∧
    (∀ text before rest, escape text = before ++ '&' :: rest →
      ∃ reference ∈ references, reference <+: '&' :: rest) ∧
    (∀ text before rest, escape text = before ++ '"' :: rest →
      ∃ c ∈ text, isElementary c ∧ ∃ opened closed,
        codePointElement c = opened ++ '"' :: closed ∧ opened <:+ before ∧ closed <+: rest) ∧
    (∀ text, ∀ c ∈ escape text, isC0 c → c = '\n' ∨ c = '\r') ∧
    (∀ text, read (escape text) = some (text.map .character)) ∧
    Function.Injective escape := by
  refine ⟨hescape.rewrite_characterSub?, escape_append, fun text before rest h => ?_,
    fun text before rest h => ?_, fun text before rest h => ?_, fun text c hc hcontrol => ?_,
    read_escape, escape_injective⟩
  · obtain ⟨c, hc, hmem, hpiece⟩ := exists_beginning h fun x => (notMem_tail_escapeChar x).1
    obtain ⟨helement, heq⟩ := isElementary_of_mem hmem (.inl rfl)
    rw [heq] at hpiece
    exact ⟨c, hc, helement, hpiece⟩
  · obtain ⟨c, -, hmem, hpiece⟩ := exists_beginning h fun x => (notMem_tail_escapeChar x).2
    exact ⟨escapeChar c, escapeChar_mem_references hmem, hpiece⟩
  · obtain ⟨c, hc, opened, closed, hpiece, hopened, hclosed⟩ := exists_piece h
    obtain ⟨helement, heq⟩ := isElementary_of_mem (by rw [hpiece]; simp) (.inr rfl)
    exact ⟨c, hc, helement, opened, closed, heq.symm.trans hpiece, hopened, hclosed⟩
  · obtain ⟨x, -, hx⟩ := List.mem_flatMap.1 hc
    exact control_of_mem_escapeChar hx hcontrol

/-- The first pass can replace one character after the other. -/
theorem escape_safe_and_lossless_bell :
    let partialEscape (text : List Char) :=
      text.flatMap fun c => (contentReference? c).getD [c]
    let text := "&lt;\n\"<\u0007".toList
    EscapesContent partialEscape ∧
    rewrite characterSub? (partialEscape text) =
      "&amp;lt;\n&quot;&lt;<cp hex=\"0007\"/>".toList ∧
    read (escape text) = some (text.map .character) := by
  intro partialEscape text
  have hescape : EscapesContent partialEscape := fun _ => rfl
  obtain ⟨htwo, -, -, -, -, -, hread, -⟩ := escape_safe_and_lossless hescape
  refine ⟨hescape, ?_, hread text⟩
  rw [htwo]
  decide +kernel

end CollationRules.Markup
