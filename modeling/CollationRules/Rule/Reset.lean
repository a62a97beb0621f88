import CollationRules.Rule.Bracket
import CollationRules.Rule.ConfigError
import CollationRules.Rule.Strength

/-! Resets: the positions in the collation order from which the rules after them count. A position
is a text or an anchor in brackets, and a group `[before N]` may stand in front of it. -/

namespace CollationRules

/-- An end of a zone of the collation order. -/
inductive Edge
  | first
  | last
deriving DecidableEq, Repr

/-- A zone of the collation order. -/
inductive Zone
  | nonIgnorable
  | primaryIgnorable
  | secondaryIgnorable
  | tertiaryIgnorable
  | variableElements
  | trailing
deriving DecidableEq, Repr

/-- A position at an end of a zone. -/
structure Anchor where
  edge : Edge
  zone : Zone
deriving DecidableEq, Repr

/-- The edge that a word names. -/
def Edge.ofWord? : String → Option Edge
  | "first" => some first
  | "last" => some last
  | _ => none

/-- The zone that words name. -/
def Zone.ofWords? : List String → Option Zone
  | ["regular"] => some nonIgnorable
  | ["primary", "ignorable"] => some primaryIgnorable
  | ["secondary", "ignorable"] => some secondaryIgnorable
  | ["tertiary", "ignorable"] => some tertiaryIgnorable
  | ["variable"] => some variableElements
  | ["trailing"] => some trailing
  | _ => none

/-- The spelling of an edge in markup. -/
def Edge.markup : Edge → String
  | first => "first"
  | last => "last"

/-- The spelling of a zone in markup. -/
def Zone.markup : Zone → String
  | nonIgnorable => "non_ignorable"
  | primaryIgnorable => "primary_ignorable"
  | secondaryIgnorable => "secondary_ignorable"
  | tertiaryIgnorable => "tertiary_ignorable"
  | variableElements => "variable"
  | trailing => "trailing"

namespace Anchor

/-- The top of the order: the last position that is not ignorable. -/
def top : Anchor := ⟨.last, .nonIgnorable⟩

/-- The anchor that words name. -/
def ofWords? : List String → Option Anchor
  | ["top"] => some top
  | word :: others => do return ⟨← Edge.ofWord? word, ← Zone.ofWords? others⟩
  | [] => none

/-- The anchor that a payload names, however its words are spaced. -/
def ofPayload? (payload : List Char) : Option Anchor :=
  ofWords? ((Text.words payload).map String.ofList)

/-- The spelling of an anchor in markup. -/
def markup (anchor : Anchor) : String := anchor.edge.markup ++ "_" ++ anchor.zone.markup

end Anchor

/-- What a reset moves to. -/
inductive ResetPosition
  | anchor (anchor : Anchor)
  | literal (text : List Char)
deriving DecidableEq, Repr

/-- A position, and the level at which the rules place their texts before it. -/
structure Reset where
  before : Option Level
  position : ResetPosition
deriving DecidableEq, Repr

namespace Reset

/-- The level that the words after `before` name. -/
def beforeLevel (words : List (List Char)) : Except ConfigCause Level :=
  let invalid := .error (.invalidBefore ([' '].intercalate words))
  match words with
  | [word] =>
    match Level.ofNumeral? word with
    | some .identical | none => invalid
    | some level => .ok level
  | _ => invalid

/-- The group `[before N]` that a text may begin with, and the rest of the text. -/
def splitBefore (text : List Char) : Except ConfigCause (Option Level × List Char) :=
  match leadingGroup? text with
  | none => .ok (none, text)
  | some (payload, tail) =>
    match Text.words payload with
    | [] => .ok (none, text)
    | word :: others =>
      if word = "before".toList then (beforeLevel others).map fun level => (some level, tail)
      else .ok (none, text)

/-- The position that a text stands for: an anchor if it begins with a bracket group, and otherwise
the text itself. -/
def positionOf (text : List Char) : Except ConfigCause ResetPosition :=
  match leadingGroup? text with
  | none => .ok (.literal text)
  | some (payload, tail) =>
    match Anchor.ofPayload? payload with
    | none => .error (.unknownAnchor (Text.trim payload))
    | some anchor =>
      if tail.isEmpty then .ok (.anchor anchor) else .error (.textAfterAnchor tail)

/-- The reset in the text of a reset token. -/
def ofText (text : List Char) : Except ConfigCause Reset := do
  let (before, rest) ← splitBefore text
  return ⟨before, ← positionOf rest⟩

end Reset
end CollationRules
