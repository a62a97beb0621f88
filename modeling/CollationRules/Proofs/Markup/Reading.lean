import CollationRules.Proofs.Markup.Names
import CollationRules.Proofs.Markup.Nesting

/-! Reading markup back. What a reader finds in the text of well-nested pieces are the tags and the
characters that the writer was given, however these were escaped. -/

namespace CollationRules.Markup

/-! ### A reader -/

/-- What a reader of markup finds. The end of an empty element has no name. -/
inductive Event
  | start (name : Name)
  | stop (name : Option Name)
  | character (c : Char)
deriving DecidableEq, Repr

def hexValue (digit : Char) : Nat :=
  if digit.toNat < 0x3A then digit.toNat - 0x30 else digit.toNat - 0x37

/-- The character whose code point is the first quoted number in a tag. -/
def codePoint (tag : List Char) : Char :=
  let digits := ((tag.dropWhile (· != '"')).drop 1).takeWhile (· != '"')
  Char.ofNat (digits.foldl (fun number digit => 16 * number + hexValue digit) 0)

def character? (entity : List Char) : Option Char :=
  if entity = "lt".toList then some '<'
  else if entity = "gt".toList then some '>'
  else if entity = "amp".toList then some '&'
  else if entity = "quot".toList then some '"'
  else none

def tagName (tag : List Char) : List Char := tag.takeWhile fun c => c != ' ' && c != '/'

/-- What a tag means, given by what stands between its angle brackets. -/
def tagEvents (tag : List Char) : List Event :=
  if tag.head? = some '/' then [.stop (some (String.ofList (tag.drop 1)))]
  else if tag.getLast? ≠ some '/' then [.start (String.ofList (tagName tag))]
  else if tagName tag = "cp".toList then [.character (codePoint tag)]
  else [.start (String.ofList (tagName tag)), .stop none]

/-- Where a reader of markup stands. -/
inductive ReaderState
  | outside
  /-- In a tag, after some of its characters. -/
  | inTag (tag : List Char)
  /-- In a reference, after some of the characters of its entity. -/
  | inReference (entity : List Char)

/-- What is found in a text from a state on. Only a text that ends outside of tags and references
can be read. -/
def ReaderState.read : ReaderState → List Char → Option (List Event)
  | .outside, [] => some []
  | .inTag _, [] => none
  | .inReference _, [] => none
  | .outside, c :: rest =>
    if c = '<' then (inTag []).read rest
    else if c = '&' then (inReference []).read rest
    else (outside.read rest).map (.character c :: ·)
  | .inTag tag, c :: rest =>
    if c = '>' then (outside.read rest).map (tagEvents tag ++ ·)
    else (inTag (tag ++ [c])).read rest
  | .inReference entity, c :: rest =>
    if c = ';' then
      match character? entity with
      | some found => (outside.read rest).map (.character found :: ·)
      | none => none
    else (inReference (entity ++ [c])).read rest

def read (text : List Char) : Option (List Event) := ReaderState.outside.read text

/-! ### Reading in parts -/

/-- That a part is read as some findings, whatever is read after it. -/
def Reads {α β : Type} (f : List α → Option (List β)) (part : List α) (found : List β) : Prop :=
  ∀ rest, f (part ++ rest) = (f rest).map (found ++ ·)

namespace Reads

variable {α β : Type} {f : List α → Option (List β)}

theorem nil : Reads f [] [] := by
  intro rest
  cases h : f rest <;> simp [h]

theorem append {first second : List α} {found others : List β} (h1 : Reads f first found)
    (h2 : Reads f second others) : Reads f (first ++ second) (found ++ others) := by
  intro rest
  rw [List.append_assoc, h1, h2, Option.map_map]
  congr 1
  funext found'
  exact (List.append_assoc ..).symm

theorem flatMap {γ : Type} {part : γ → List α} {found : γ → List β} {xs : List γ}
    (h : ∀ x ∈ xs, Reads f (part x) (found x)) : Reads f (xs.flatMap part) (xs.flatMap found) := by
  induction xs with
  | nil => exact nil
  | cons x xs ih =>
    rw [List.flatMap_cons, List.flatMap_cons]
    exact (h x List.mem_cons_self).append (ih fun y hy => h y (List.mem_cons_of_mem x hy))

theorem bind {γ : Type} {g : List β → Option (List γ)} {part : List α} {found : List β}
    {others : List γ} (hf : Reads f part found) (hg : Reads g found others) :
    Reads (fun xs => (f xs).bind g) part others := by
  intro rest
  show (f (part ++ rest)).bind g = ((f rest).bind g).map (others ++ ·)
  rw [hf]
  cases f rest with
  | none => rfl
  | some found' => exact hg found'

theorem eq_some {part : List α} {found : List β} (h : Reads f part found) (hf : f [] = some []) :
    f part = some found := by
  have := h []
  rw [hf] at this
  simpa using this

end Reads

/-! ### Characters -/

theorem reads_char {c : Char} (hopen : c ≠ '<') (href : c ≠ '&') :
    Reads read [c] [.character c] := by
  intro rest
  simp [read, ReaderState.read, hopen, href]

theorem reads_chars {text : List Char} (h : ∀ c ∈ text, c ≠ '<' ∧ c ≠ '&') :
    Reads read text (text.map .character) := by
  induction text with
  | nil => exact .nil
  | cons c text ih =>
    obtain ⟨hopen, href⟩ := h c List.mem_cons_self
    exact (reads_char hopen href).append (ih fun d hd => h d (List.mem_cons_of_mem c hd))

theorem read_inTag {tail : List Char} (h : '>' ∉ tail) (tag rest : List Char) :
    (ReaderState.inTag tag).read (tail ++ '>' :: rest) =
      (read rest).map (tagEvents (tag ++ tail) ++ ·) := by
  induction tail generalizing tag with
  | nil => simp [ReaderState.read, read]
  | cons c tail ih =>
    rw [List.mem_cons, not_or] at h
    obtain ⟨hc, htail⟩ := h
    have hne : c ≠ '>' := fun heq => hc heq.symm
    rw [List.cons_append, ReaderState.read, if_neg hne, ih htail]
    simp

theorem reads_tag {tag : List Char} (h : '>' ∉ tag) :
    Reads read ('<' :: tag ++ ['>']) (tagEvents tag) := by
  intro rest
  have hread := read_inTag h [] rest
  simpa [read, ReaderState.read] using hread

def codePointTag (code : Nat) : List Char :=
  ['c', 'p', ' ', 'h', 'e', 'x', '=', '"', '0', '0', hexDigit (code / 16), hexDigit (code % 16),
    '"', '/']

theorem codePointTag_events :
    ∀ code < 0x20, '>' ∉ codePointTag code ∧
      tagEvents (codePointTag code) = [.character (.ofNat code)] := by
  decide +kernel

theorem reads_codePointElement {c : Char} (h : c.toNat < 0x20) :
    Reads read (codePointElement c) [.character c] := by
  obtain ⟨hmem, hevents⟩ := codePointTag_events c.toNat h
  have hread := reads_tag hmem
  rw [hevents, Char.ofNat_toNat] at hread
  exact hread

/-- Escaping is undone by reading. -/
theorem reads_escapeChar (c : Char) : Reads read (escapeChar c) [.character c] := by
  unfold escapeChar
  cases hentity : entity? c with
  | some reference =>
    intro rest
    unfold entity? at hentity
    split at hentity <;> cases hentity <;> rfl
  | none =>
    rw [Option.getD_none]
    split
    · rename_i hcontrol
      simp only [Bool.and_eq_true, decide_eq_true_eq] at hcontrol
      exact reads_codePointElement hcontrol.1.1
    · refine reads_char ?_ ?_ <;> rintro rfl <;> cases hentity

theorem reads_escape (text : List Char) : Reads read (escape text) (text.map .character) := by
  rw [List.map_eq_flatMap]
  exact .flatMap fun c _ => reads_escapeChar c

theorem reads_spacing (s : Spacing) : Reads read s.text (s.text.map .character) := by
  refine reads_chars fun c hc => ?_
  have hblank := List.all_eq_true.1 s.text_blank c hc
  constructor <;> rintro rfl <;> revert hblank <;> decide

/-! ### Tags -/

def attributeText (attr : Name × List Char) : List Char :=
  ' ' :: attr.1.toList ++ ['=', '"'] ++ escapeAttribute attr.2 ++ ['"']

/-- A start of a tag, without its angle brackets. -/
def startText (name : Name) (attrs : List (Name × List Char)) : List Char :=
  name.toList ++ attrs.flatMap attributeText

theorem not_mem_escapeAttribute (value : List Char) : '>' ∉ escapeAttribute value := by
  intro hmem
  obtain ⟨c, -, hc⟩ := List.mem_flatMap.1 hmem
  unfold escapeAttributeChar at hc
  cases hentity : entity? c with
  | some reference =>
    rw [hentity] at hc
    unfold entity? at hentity
    split at hentity <;> cases hentity <;> revert hc <;> decide
  | none =>
    rw [hentity, Option.getD_none] at hc
    repeat' split at hc
    all_goals first
      | (revert hc; decide)
      | (rw [← List.mem_singleton.1 hc] at hentity; cases hentity)

theorem not_mem_startText {name : Name} {attrs : List (Name × List Char)} (hname : isPlain name)
    (hattrs : ∀ attr ∈ attrs, isPlain attr.1) : '>' ∉ startText name attrs := by
  have hplain {other : Name} (h : isPlain other) : '>' ∉ other.toList :=
    not_mem_of_isPlain h (by decide)
  intro hmem
  rcases List.mem_append.1 hmem with hmem | hmem
  · exact hplain hname hmem
  · obtain ⟨attr, hattr, hc⟩ := List.mem_flatMap.1 hmem
    simp [attributeText, hplain (hattrs attr hattr), not_mem_escapeAttribute] at hc

theorem getLast?_startText {name : Name} (hname : isPlain name) (attrs : List (Name × List Char)) :
    (startText name attrs).getLast? ≠ some '/' := by
  intro hlast
  rcases List.eq_nil_or_concat attrs with rfl | ⟨others, attr, rfl⟩
  · have hmem := List.mem_of_getLast? hlast
    rw [startText, List.flatMap_nil, List.append_nil] at hmem
    exact not_mem_of_isPlain hname (by decide) hmem
  · have hend : (startText name (others.concat attr)).getLast? = some '"' := by
      rw [startText, List.concat_eq_append, List.flatMap_append, List.flatMap_singleton,
        attributeText, ← List.append_assoc, ← List.append_assoc, List.getLast?_concat]
    rw [hend] at hlast
    cases hlast

/-- The name in a tag ends before the attributes or the slash that follow it. -/
theorem tagName_append {name : Name} (hname : isPlain name) {tail : List Char}
    (htail : ∀ c ∈ tail.head?, c = ' ' ∨ c = '/') :
    tagName (name.toList ++ tail) = name.toList := by
  have hin : ∀ c ∈ name.toList, (c != ' ' && c != '/') = true := by
    intro c hc
    have hspace : c ≠ ' ' := by
      rintro rfl
      exact not_mem_of_isPlain hname (by decide) hc
    have hslash : c ≠ '/' := by
      rintro rfl
      exact not_mem_of_isPlain hname (by decide) hc
    simp [hspace, hslash]
  have hout : tail.takeWhile (fun c => c != ' ' && c != '/') = [] := by
    cases tail with
    | nil => rfl
    | cons c tail =>
      rcases htail c rfl with rfl | rfl <;> rfl
  rw [tagName, List.takeWhile_append_of_pos hin, hout, List.append_nil]

theorem head?_append {name : Name} (hname : isPlain name) (tail : List Char) :
    (name.toList ++ tail).head? ≠ some '/' := by
  obtain ⟨c, chars, hchars⟩ := List.exists_cons_of_ne_nil (isPlain_iff.1 hname).2.1
  intro hhead
  rw [hchars, List.cons_append, List.head?_cons, Option.some.injEq] at hhead
  refine not_mem_of_isPlain (c := '/') hname (by decide) ?_
  rw [hchars, hhead]
  exact List.mem_cons_self

theorem tagEvents_start {name : Name} (hname : isPlain name) (attrs : List (Name × List Char)) :
    tagEvents (startText name attrs) = [.start name] := by
  have hhead : ∀ c ∈ (attrs.flatMap attributeText).head?, c = ' ' ∨ c = '/' := by
    cases attrs <;> simp [attributeText]
  have htag : tagName (startText name attrs) = name.toList := tagName_append hname hhead
  have hhead' : (startText name attrs).head? ≠ some '/' := head?_append hname _
  rw [tagEvents, if_neg hhead', if_pos (getLast?_startText hname attrs), htag,
    String.ofList_toList]

theorem tagEvents_empty {name : Name} (hname : isPlain name) (attrs : List (Name × List Char)) :
    tagEvents (startText name attrs ++ ['/']) = [.start name, .stop none] := by
  have hhead : ∀ c ∈ (attrs.flatMap attributeText ++ ['/']).head?, c = ' ' ∨ c = '/' := by
    cases attrs <;> simp [attributeText]
  have htag : tagName (startText name attrs ++ ['/']) = name.toList := by
    rw [startText, List.append_assoc]
    exact tagName_append hname hhead
  have hhead' : (startText name attrs ++ ['/']).head? ≠ some '/' := by
    rw [startText, List.append_assoc]
    exact head?_append hname _
  have hlast : (startText name attrs ++ ['/']).getLast? = some '/' := List.getLast?_concat ..
  rw [tagEvents, if_neg hhead', if_neg (by simp [hlast]), htag,
    if_neg (isPlain_iff.1 hname).2.2, String.ofList_toList]

theorem tagEvents_stop (name : Name) : tagEvents ('/' :: name.toList) = [.stop (some name)] := by
  simp [tagEvents]

/-! ### Pieces -/

/-- What is found where a piece was written. Attributes are part of a tag. -/
def Token.events : Token → List Event
  | openTag name => [.start name]
  | closeTag name => [.stop (some name)]
  | closeEmpty => [.stop none]
  | attributeName _ | attributeValue _ => []
  | characters text => text.map .character
  | spacing s => s.text.map .character

/-- What is found where pieces were written. -/
def eventsOf (pieces : List Token) : List Event := pieces.flatMap Token.events

@[simp] theorem eventsOf_nil : eventsOf [] = [] := rfl

@[simp] theorem eventsOf_cons (token : Token) (rest : List Token) :
    eventsOf (token :: rest) = token.events ++ eventsOf rest := rfl

@[simp] theorem eventsOf_append (first second : List Token) :
    eventsOf (first ++ second) = eventsOf first ++ eventsOf second :=
  List.flatMap_append

theorem eventsOf_flatMap {α : Type} (f : α → List Token) (xs : List α) :
    eventsOf (xs.flatMap f) = xs.flatMap fun x => eventsOf (f x) :=
  List.flatMap_assoc

@[simp] theorem eventsOf_attributePieces (attrs : List (Name × List Char)) :
    eventsOf (attributePieces attrs) = [] := by
  induction attrs with
  | nil => rfl
  | cons attr attrs ih => exact ih

theorem text_attributePieces (attrs : List (Name × List Char)) :
    (write .inTag (attributePieces attrs)).text = attrs.flatMap attributeText := by
  induction attrs with
  | nil => rfl
  | cons attr attrs ih =>
    rw [List.flatMap_cons, ← ih]
    simp [attributePieces, write, Token.write?, Token.stateAfter, attributeText]

theorem text_startTag (name : Name) (attrs : List (Name × List Char)) :
    (write .outside (.openTag name :: attributePieces attrs)).text =
      '<' :: startText name attrs := by
  rw [startText, ← text_attributePieces]
  rfl

theorem text_empty (name : Name) (attrs : List (Name × List Char)) (rest : List Token) :
    (write .outside (.openTag name :: attributePieces attrs ++ .closeEmpty :: rest)).text =
      '<' :: (startText name attrs ++ ['/']) ++ ['>'] ++ (write .outside rest).text := by
  rw [text_append_of_ok (write_startTag (by decide) name attrs), text_startTag]
  simp [write, Token.write?, Token.stateAfter]

/-- Content ends the tag in which it begins. -/
theorem WellNested.text_inTag {content : List Token} (h : WellNested content) (name : Name)
    (rest : List Token) :
    (Markup.write .inTag (content ++ .closeTag name :: rest)).text =
      '>' :: (Markup.write .outside (content ++ .closeTag name :: rest)).text := by
  cases h <;> rfl

theorem WellNested.text_element {content : List Token} (h : WellNested content) (name : Name)
    (attrs : List (Name × List Char)) (rest : List Token) :
    (Markup.write .outside
        (.openTag name :: attributePieces attrs ++ content ++ .closeTag name :: rest)).text =
      '<' :: startText name attrs ++ ['>'] ++ (Markup.write .outside content).text ++
        ('<' :: ('/' :: name.toList) ++ ['>']) ++ (Markup.write .outside rest).text := by
  have hclose : (Markup.write .outside (.closeTag name :: rest)).text =
      '<' :: ('/' :: name.toList) ++ ['>'] ++ (Markup.write .outside rest).text := rfl
  rw [List.append_assoc, text_append_of_ok (write_startTag (by decide) name attrs), text_startTag,
    h.text_inTag, text_append_of_ok h.write_outside, hclose]
  simp

/-- What is found in the text of well-nested pieces are the tags and the characters of these
pieces. -/
theorem WellNested.reads {pieces : List Token} (h : WellNested pieces)
    (hplain : pieces.all Token.isPlain) :
    Reads read (Markup.write .outside pieces).text (eventsOf pieces) := by
  induction h with
  | nil => exact .nil
  | spacing s _ ih => exact (reads_spacing s).append (ih hplain)
  | characters text _ ih => exact (reads_escape text).append (ih hplain)
  | empty name attrs _ ih =>
    simp only [List.all_append, List.all_cons, all_attributePieces, Bool.and_eq_true,
      List.all_eq_true] at hplain
    obtain ⟨⟨hname, hattrs⟩, -, hrest⟩ := hplain
    have hmem : '>' ∉ startText name attrs ++ ['/'] := by
      simpa using not_mem_startText hname hattrs
    have htag := reads_tag hmem
    rw [tagEvents_empty hname] at htag
    have hread := htag.append (ih (List.all_eq_true.2 hrest))
    rw [text_empty]
    simpa [Token.events] using hread
  | element name attrs hcontent _ ihContent ihRest =>
    -- the start tag is ended by the content, so the text is divided at both tags before it is read
    simp only [List.all_append, List.all_cons, all_attributePieces, Bool.and_eq_true] at hplain
    obtain ⟨⟨⟨hname, hattrs⟩, hinner⟩, -, hrest⟩ := hplain
    have hstart := reads_tag (not_mem_startText hname (List.all_eq_true.1 hattrs))
    rw [tagEvents_start hname] at hstart
    have hstop : Reads read ('<' :: ('/' :: name.toList) ++ ['>']) [.stop (some name)] := by
      have hmem : '>' ∉ '/' :: name.toList := by
        have hname' : '>' ∉ startText name [] := not_mem_startText hname (by simp)
        simpa [startText] using hname'
      rw [← tagEvents_stop]
      exact reads_tag hmem
    have hread := ((hstart.append (ihContent hinner)).append hstop).append (ihRest hrest)
    rw [hcontent.text_element]
    simpa [Token.events] using hread

theorem WellNested.read_text {pieces : List Token} (h : WellNested pieces)
    (hplain : pieces.all Token.isPlain) :
    read (Markup.write .outside pieces).text = some (eventsOf pieces) :=
  (h.reads hplain).eq_some rfl

end CollationRules.Markup
