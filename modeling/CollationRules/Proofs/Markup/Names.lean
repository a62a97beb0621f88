import CollationRules.Proofs.Markup.Lines

/-! Names that are words of ASCII letters, digits and underscores, apart from the name of the
element that stands for a control character. Such names cannot be taken for anything else in a text. -/

namespace CollationRules.Markup

/-- The ASCII letters and digits and the underscore. -/
def wordCharacters : Text.CharSet where
  ranges := [(0x30, 0x39), (0x41, 0x5A), (0x5F, 0x5F), (0x61, 0x7A)]

def isWordChar (c : Char) : Bool := wordCharacters.has c

/-- Whether a name is a word, and not the name of the element for control characters. -/
def isPlain (name : Name) : Bool :=
  name.toList.all isWordChar && !name.toList.isEmpty && name.toList != "cp".toList

def Token.isPlain : Token → Bool
  | openTag name | closeTag name | attributeName name => Markup.isPlain name
  | _ => true

theorem isPlain_iff {name : Name} :
    isPlain name ↔
      (∀ c ∈ name.toList, isWordChar c) ∧ name.toList ≠ [] ∧ name.toList ≠ "cp".toList := by
  simp [isPlain, and_assoc]

theorem not_mem_of_isPlain {name : Name} (h : isPlain name) {c : Char}
    (hc : isWordChar c = false) : c ∉ name.toList := by
  intro hmem
  have hword := (isPlain_iff.1 h).1 c hmem
  rw [hc] at hword
  cases hword

theorem all_attributePieces (attrs : List (Name × List Char)) :
    (attributePieces attrs).all Token.isPlain = attrs.all fun attr => isPlain attr.1 := by
  induction attrs with
  | nil => rfl
  | cons attr attrs ih =>
    rw [List.all_cons, ← ih]
    simp [attributePieces, Token.isPlain]

theorem all_indentation (indent : Spacing) (depth : UInt64) :
    (indentation indent depth).all Token.isPlain := by
  unfold indentation
  split <;> rfl

theorem all_line (indent : Spacing) (depth : UInt64) (content : List Token) :
    (line indent depth content).all Token.isPlain = content.all Token.isPlain := by
  rw [line, List.all_append, List.all_append, all_indentation]
  simp [Token.isPlain]

/-- What holds of the pieces of lines, apart from spacing, if their names are plain. -/
structure HoldsOfContent (p : Token → Bool) : Prop where
  openTag {name : Name} (h : isPlain name) : p (.openTag name)
  closeTag {name : Name} (h : isPlain name) : p (.closeTag name)
  attributeName {name : Name} (h : isPlain name) : p (.attributeName name)
  attributeValue (value : List Char) : p (.attributeValue value)
  characters (text : List Char) : p (.characters text)
  closeEmpty : p .closeEmpty

namespace HoldsOfContent

theorem isPlain : HoldsOfContent Token.isPlain := ⟨id, id, id, fun _ => rfl, fun _ => rfl, rfl⟩

theorem fits : HoldsOfContent Token.fits :=
  ⟨fun _ => rfl, fun _ => rfl, fun _ => rfl, fun _ => rfl, fun _ => rfl, rfl⟩

variable {p : Token → Bool} (hp : HoldsOfContent p)

include hp

theorem attributePieces {attrs : List (Name × List Char)}
    (h : ∀ attr ∈ attrs, Markup.isPlain attr.1) : (attributePieces attrs).all p := by
  rw [Markup.attributePieces, List.all_flatMap, List.all_eq_true]
  intro attr hattr
  simp [hp.attributeName (h attr hattr), hp.attributeValue]

theorem textPieces (text : List Char) : (textPieces text).all p := by
  cases text <;> simp [Markup.textPieces, hp.characters]

theorem wrap {name : Name} (h : Markup.isPlain name) {content : List Token} (hc : content.all p) :
    (.openTag name :: content ++ [.closeTag name] : List Token).all p := by
  simp [hp.openTag h, hp.closeTag h, hc]

theorem elementPieces {name : Name} (h : Markup.isPlain name) (text : List Char) :
    (elementPieces name text).all p :=
  hp.wrap h (hp.textPieces text)

end HoldsOfContent

end CollationRules.Markup
