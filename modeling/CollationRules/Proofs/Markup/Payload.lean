import CollationRules.Proofs.Markup.Names
import Mathlib.Tactic.SplitIfs

/-! Where the characters of a text come from. What the writer adds to the texts and values that it
is given is ASCII or a replacement character, so that any other character comes from one of these. -/

namespace CollationRules.Markup

def isAscii (c : Char) : Bool := c.toNat < 0x80

/-- Whether a character is written only where it is in a text or a value. -/
def isForeign (c : Char) : Bool := !isAscii c && c != '\uFFFD'

def Token.payload : Token → List Char
  | attributeValue value => value
  | characters text => text
  | _ => []

/-- The texts and the values in pieces, in order. -/
def payloadOf (pieces : List Token) : List Char := pieces.flatMap Token.payload

@[simp] theorem payloadOf_nil : payloadOf [] = [] := rfl

@[simp] theorem payloadOf_cons (token : Token) (rest : List Token) :
    payloadOf (token :: rest) = token.payload ++ payloadOf rest := rfl

@[simp] theorem payloadOf_append (first second : List Token) :
    payloadOf (first ++ second) = payloadOf first ++ payloadOf second :=
  List.flatMap_append

theorem payloadOf_flatMap {α : Type} (f : α → List Token) (xs : List α) :
    payloadOf (xs.flatMap f) = xs.flatMap fun x => payloadOf (f x) :=
  List.flatMap_assoc

@[simp] theorem payloadOf_attributePieces (attrs : List (Name × List Char)) :
    payloadOf (attributePieces attrs) = attrs.flatMap Prod.snd := by
  rw [attributePieces, payloadOf_flatMap]
  simp [Token.payload]

@[simp] theorem payloadOf_textPieces (text : List Char) : payloadOf (textPieces text) = text := by
  cases text <;> simp [textPieces, Token.payload]

@[simp] theorem payloadOf_elementPieces (name : Name) (text : List Char) :
    payloadOf (elementPieces name text) = text := by
  simp [elementPieces, Token.payload]

@[simp] theorem payloadOf_line (indent : Spacing) (depth : UInt64) (content : List Token) :
    payloadOf (line indent depth content) = payloadOf content := by
  have hindent : payloadOf (indentation indent depth) = [] := by
    unfold indentation
    split <;> rfl
  simp [line, hindent, Token.payload]

@[simp] theorem payloadOf_block (indent : Spacing) (depth : UInt64) (name : Name)
    (lines : List (List Token)) :
    payloadOf (block indent depth name lines) = lines.flatMap payloadOf := by
  simp [block, payloadOf_flatMap, Token.payload]

/-! ### Characters that come from payloads only -/

theorem isAscii_of_isWordChar {c : Char} (h : isWordChar c) : isAscii c := by
  simp only [isWordChar, Text.CharSet.has, wordCharacters, List.any_cons, List.any_nil,
    Bool.or_false, Bool.or_eq_true, Bool.and_eq_true, decide_eq_true_eq] at h
  simp only [isAscii, decide_eq_true_eq]
  omega

theorem all_codePointElement :
    ∀ code < 0x20, (codePointElement (.ofNat code)).all isAscii := by
  decide +kernel

section

variable {c : Char} (hc : isForeign c)

include hc

theorem ne_of_isAscii {d : Char} (hd : isAscii d) : c ≠ d := by
  rintro rfl
  simp [isForeign, hd] at hc

theorem not_mem_of_all {text : List Char} (h : text.all isAscii) : c ∉ text := fun hmem =>
  ne_of_isAscii hc (List.all_eq_true.1 h c hmem) rfl

theorem not_mem_name {name : Name} (h : isPlain name) : c ∉ name.toList :=
  not_mem_of_all hc
    (List.all_eq_true.2 fun d hd => isAscii_of_isWordChar ((isPlain_iff.1 h).1 d hd))

theorem not_mem_spacing (s : Spacing) : c ∉ s.text := by
  refine not_mem_of_all hc (List.all_eq_true.2 fun d hd => ?_)
  have hblank := List.all_eq_true.1 s.text_blank d hd
  simp only [Text.isAsciiBlank, Bool.or_eq_true, beq_iff_eq] at hblank
  rcases hblank with (((rfl | rfl) | rfl) | rfl) | rfl <;> decide

theorem not_mem_codePointElement {d : Char} (hd : d.toNat < 0x20) : c ∉ codePointElement d := by
  have hascii := all_codePointElement d.toNat hd
  rw [Char.ofNat_toNat] at hascii
  exact not_mem_of_all hc hascii

theorem not_mem_entity {d : Char} {reference : List Char} (h : entity? d = some reference) :
    c ∉ reference ∧ c ≠ d := by
  unfold entity? at h
  constructor
  · refine not_mem_of_all hc ?_
    split at h <;> cases h <;> decide
  · refine ne_of_isAscii hc ?_
    split at h <;> cases h <;> decide

theorem mem_escapeChar_iff (d : Char) : c ∈ escapeChar d ↔ c = d := by
  unfold escapeChar
  cases h : entity? d with
  | some reference =>
    obtain ⟨hmem, hne⟩ := not_mem_entity hc h
    simp [hmem, hne]
  | none =>
    rw [Option.getD_none]
    split
    · rename_i hcontrol
      simp only [Bool.and_eq_true, decide_eq_true_eq] at hcontrol
      have hne : c ≠ d := ne_of_isAscii hc (by simp only [isAscii, decide_eq_true_eq]; omega)
      simp [not_mem_codePointElement hc hcontrol.1.1, hne]
    · exact List.mem_singleton

theorem mem_escapeAttributeChar_iff (d : Char) : c ∈ escapeAttributeChar d ↔ c = d := by
  have hreplaced : c ≠ '\uFFFD' := by
    rintro rfl
    exact absurd hc (by decide)
  unfold escapeAttributeChar
  cases h : entity? d with
  | some reference =>
    obtain ⟨hmem, hne⟩ := not_mem_entity hc h
    simp [hmem, hne]
  | none =>
    -- every other replacement is ASCII, and is for a control character
    have hreference {reference : List Char} (hd : isAscii d) (h : reference.all isAscii) :
        c ∈ reference ↔ c = d := by
      simp only [not_mem_of_all hc h, ne_of_isAscii hc hd]
    rw [Option.getD_none]
    split_ifs with htab hfeed hreturn hcontrol
    · exact hreference (by rw [htab]; decide) (by decide)
    · exact hreference (by rw [hfeed]; decide) (by decide)
    · exact hreference (by rw [hreturn]; decide) (by decide)
    · have hne : c ≠ d := ne_of_isAscii hc (by simp only [isAscii, decide_eq_true_eq]; omega)
      simp [hreplaced, hne]
    · exact List.mem_singleton

theorem mem_escape_iff (text : List Char) : c ∈ escape text ↔ c ∈ text := by
  simp [escape, mem_escapeChar_iff hc]

theorem mem_escapeAttribute_iff (value : List Char) : c ∈ escapeAttribute value ↔ c ∈ value := by
  simp [escapeAttribute, mem_escapeAttributeChar_iff hc]

theorem mem_content?_iff {state : WriterState} {content text : List Char}
    (h : state.content? content = some text) : c ∈ text ↔ c ∈ content := by
  cases state with
  | outside =>
    cases h
    rfl
  | inTag =>
    cases h
    have hne : c ≠ '>' := ne_of_isAscii hc (by decide)
    simp [hne]
  | afterName => cases h

/-- Of what is written for a piece, only its text or its value has foreign characters. -/
theorem mem_write?_iff {state : WriterState} {token : Token} (hplain : token.isPlain)
    {text : List Char} (h : token.write? state = some text) : c ∈ text ↔ c ∈ token.payload := by
  have hmark : c ≠ '<' ∧ c ≠ '>' ∧ c ≠ '/' ∧ c ≠ ' ' ∧ c ≠ '=' ∧ c ≠ '"' := by
    refine ⟨?_, ?_, ?_, ?_, ?_, ?_⟩ <;> exact ne_of_isAscii hc (by decide)
  cases token with
  | openTag name =>
    rw [mem_content?_iff hc h]
    simp [Token.payload, hmark, not_mem_name hc hplain]
  | closeTag name =>
    rw [mem_content?_iff hc h]
    simp [Token.payload, hmark, not_mem_name hc hplain]
  | closeEmpty =>
    simp only [Token.write?, Option.ite_none_right_eq_some, Option.some.injEq] at h
    rw [← h.2]
    simp [Token.payload, hmark]
  | attributeName name =>
    simp only [Token.write?, Option.ite_none_right_eq_some, Option.some.injEq] at h
    rw [← h.2]
    simp [Token.payload, hmark, not_mem_name hc hplain]
  | attributeValue value =>
    simp only [Token.write?, Option.ite_none_right_eq_some, Option.some.injEq] at h
    rw [← h.2]
    simp [Token.payload, hmark, mem_escapeAttribute_iff hc]
  | characters content =>
    rw [mem_content?_iff hc h]
    exact mem_escape_iff hc content
  | spacing s =>
    rw [mem_content?_iff hc h]
    simp [Token.payload, not_mem_spacing hc]

/-- The foreign characters of a text that was written whole are those of the texts and the values in
its pieces. -/
theorem mem_text_write_iff {state next : WriterState} {pieces : List Token}
    (hplain : pieces.all Token.isPlain) (hok : (write state pieces).result = .ok next) :
    c ∈ (write state pieces).text ↔ c ∈ payloadOf pieces := by
  induction pieces generalizing state with
  | nil => rfl
  | cons token rest ih =>
    rw [List.all_cons, Bool.and_eq_true] at hplain
    cases htext : token.write? state with
    | none =>
      simp only [write, htext] at hok
      cases hok
    | some text =>
      simp only [write, htext] at hok ⊢
      rw [payloadOf_cons, List.mem_append, List.mem_append, mem_write?_iff hc hplain.1 htext,
        ih hplain.2 hok]

end

end CollationRules.Markup
