import CollationRules.Proofs.Collation.Balance
import CollationRules.Proofs.Markup.Elements

/-! Rules read back from markup. The lines in a block of rules are resets and rules, and the element
of a sequence stands for one rule for each of its characters. -/

namespace CollationRules

open Markup (Event Element Name Reads WellNested elements eventsOf textPieces elementPieces)

/-! ### A reader -/

structure Rule where
  strength : Strength
  operand : Operand
deriving DecidableEq, Repr

inductive Item
  | reset
  | rule (rule : Rule)
deriving DecidableEq, Repr

def Rule.ofChar (strength : Strength) (c : Char) : Rule := ⟨strength, ⟨none, [c], none⟩⟩

/-- The strength that the name of an element stands for, and whether the element is a sequence. -/
def Strength.ofElement? : Name → Option (Strength × Bool)
  | "p" => some (primary, false)
  | "pc" => some (primary, true)
  | "s" => some (secondary, false)
  | "sc" => some (secondary, true)
  | "t" => some (tertiary, false)
  | "tc" => some (tertiary, true)
  | "i" => some (identical, false)
  | "ic" => some (identical, true)
  | _ => none

/-- The text of an element that has no other content. -/
def text? : List Event → Option (List Char)
  | [] => some []
  | .character c :: rest => (text? rest).map (c :: ·)
  | _ => none

/-- The text of the first of some elements, if that has a name, and the elements left. -/
def takePart (name : Name) : List Element → Option (Option (List Char) × List Element)
  | [] => some (none, [])
  | part :: rest =>
    if part.name = name then (text? part.content).map fun text => (some text, rest)
    else some (none, part :: rest)

/-- The rules in an element that is named for a strength. -/
def rules? (element : Element) : Option (List Rule) := do
  let (strength, isSequence) ← Strength.ofElement? element.name
  let text ← text? element.content
  return if isSequence then text.map (.ofChar strength) else [⟨strength, ⟨none, text, none⟩⟩]

/-- The rule whose parts are some elements. Only a rule alone can have a context or an extension. -/
def compoundRule? (parts : List Element) : Option Rule := do
  let (context, parts) ← takePart "context" parts
  match parts with
  | [] => none
  | head :: parts =>
    let (strength, isSequence) ← Strength.ofElement? head.name
    let text ← text? head.content
    let (extension, parts) ← takePart "extend" parts
    if isSequence || !parts.isEmpty then none else return ⟨strength, ⟨context, text, extension⟩⟩

def items? (element : Element) : Option (List Item) :=
  if element.name = "reset" then some [.reset]
  else if element.name = "x" then
    (elements element.content).bind fun parts => (compoundRule? parts).map ([.rule ·])
  else (rules? element).map (·.map .rule)

def itemsOf : List Element → Option (List Item)
  | [] => some []
  | element :: rest => (items? element).bind fun found => (itemsOf rest).map (found ++ ·)

/-- The items in a block of rules. -/
def readLines (content : List Event) : Option (List Item) := (elements content).bind itemsOf

/-- The items in the blocks of rules of a text, in the order in which they stand in it. -/
def readItems (text : List Char) : Option (List Item) := do
  let outer ← elements (← Markup.read text)
  readLines ((outer.filter (·.name = "rules")).flatMap Element.content)

/-! ### Elements of rules and resets -/

theorem Strength.ofElement?_element (strength : Strength) (isSequence : Bool) :
    Strength.ofElement? (strength.element isSequence) = some (strength, isSequence) := by
  cases strength <;> cases isSequence <;> rfl

theorem Strength.element_ne (strength : Strength) (isSequence : Bool) :
    strength.element isSequence ≠ "reset" ∧ strength.element isSequence ≠ "x" ∧
      strength.element isSequence ≠ "context" := by
  cases strength <;> cases isSequence <;> decide

@[simp] theorem text?_map_character (text : List Char) :
    text? (text.map .character) = some text := by
  induction text with
  | nil => rfl
  | cons c text ih => simp [text?, ih]

theorem reads_items {element : Element} {found : List Item} (h : items? element = some found) :
    Reads itemsOf [element] found := by
  intro rest
  rw [List.singleton_append, itemsOf, h]
  rfl

theorem reads_spacing_lines (s : Markup.Spacing) : Reads readLines (eventsOf [.spacing s]) [] :=
  (Markup.reads_spacing_elements s).bind .nil

theorem Reset.reads_pieces (reset : Reset) :
    Reads readLines (eventsOf reset.pieces) [.reset] := by
  have hread := Markup.reads_element "reset"
    (reset.before.toList.map fun level => ("before", level.name.toList))
    reset.position.wellNested_pieces
  exact hread.bind (reads_items rfl)

/-- An operand without a context and an extension is an element alone, which can be a sequence. -/
theorem Operand.reads_simple (text : List Char) (strength : Strength) (isSequence : Bool) :
    Reads readLines
      (eventsOf ((⟨none, text, none⟩ : Operand).pieces (strength.element isSequence)))
      (if isSequence then text.map fun c => .rule (.ofChar strength c)
        else [.rule ⟨strength, ⟨none, text, none⟩⟩]) := by
  obtain ⟨hreset, hx, -⟩ := strength.element_ne isSequence
  have hread := Markup.reads_elementPieces (strength.element isSequence) text
  rw [pieces_alone]
  refine hread.bind (reads_items ?_)
  cases isSequence <;>
    simp [items?, rules?, hreset, hx, Strength.ofElement?_element, Function.comp_def]

def Operand.parts (operand : Operand) (name : Name) : List Element :=
  operand.context.toList.map (fun text => ⟨"context", text.map .character⟩) ++
    [⟨name, operand.head.map .character⟩] ++
    operand.extension.toList.map (fun text => ⟨"extend", text.map .character⟩)

theorem Operand.compoundRule?_parts (operand : Operand) (strength : Strength) :
    compoundRule? (operand.parts (strength.element false)) = some ⟨strength, operand⟩ := by
  obtain ⟨-, -, hcontext⟩ := strength.element_ne false
  obtain ⟨context, head, extension⟩ := operand
  cases context <;> cases extension <;>
    simp [compoundRule?, parts, takePart, hcontext, Strength.ofElement?_element]

theorem Operand.reads_partPieces (operand : Operand) (name : Name) :
    Reads elements (eventsOf (operand.partPieces name)) (operand.parts name) := by
  have hpart (name : Name) (part : Option (List Char)) :
      Reads elements (eventsOf (part.toList.flatMap (elementPieces name)))
        (part.toList.map fun text => ⟨name, text.map .character⟩) := by
    rw [Markup.eventsOf_flatMap, List.map_eq_flatMap]
    exact .flatMap fun text _ => Markup.reads_elementPieces name text
  rw [partPieces, Markup.eventsOf_append, Markup.eventsOf_append]
  exact ((hpart "context" operand.context).append
    (Markup.reads_elementPieces name operand.head)).append (hpart "extend" operand.extension)

theorem Operand.reads_pieces (operand : Operand) (strength : Strength) :
    Reads readLines (eventsOf (operand.pieces (strength.element false)))
      [.rule ⟨strength, operand⟩] := by
  cases hcompound : operand.isCompound with
  | false =>
    obtain ⟨context, head, extension⟩ := operand
    simp only [isCompound, Bool.or_eq_false_iff, Option.isSome_eq_false_iff,
      Option.isNone_iff_eq_none] at hcompound
    obtain ⟨rfl, rfl⟩ := hcompound
    exact reads_simple head strength false
  | true =>
    have hparts := operand.reads_partPieces (strength.element false)
    have hnested := operand.wellNested_partPieces (strength.element false)
    rw [pieces, if_pos hcompound]
    refine (Markup.reads_element "x" [] hnested).bind (reads_items ?_)
    rw [items?, if_neg (by simp), if_pos rfl, hparts.eq_some rfl, Option.bind_some,
      compoundRule?_parts]
    rfl

end CollationRules
