import CollationRules.Rule.Bracket
import CollationRules.Rule.ConfigError
import CollationRules.Rule.Strength

/-! Settings of a collation. Each group of a setting token declares either an attribute of the
collation or a set of characters that is treated in some way. -/

namespace CollationRules

/-- An attribute of a collation. -/
inductive Attribute
  | strength
  | backwards
  | alternate
  | normalization
  | caseLevel
  | numeric
  | caseFirst
  | hiraganaQuaternary
deriving DecidableEq, Repr

/-- The spelling of an attribute in markup. -/
def Attribute.markup : Attribute → String
  | strength => "strength"
  | backwards => "backwards"
  | alternate => "alternate"
  | normalization => "normalization"
  | caseLevel => "caseLevel"
  | numeric => "numeric"
  | caseFirst => "caseFirst"
  | hiraganaQuaternary => "hiraganaQuarternary"

/-- The attribute with a name in rule strings. -/
def Attribute.ofRuleName? (name : List Char) : Option Attribute :=
  match String.ofList name with
  | "strength" => some strength
  | "backwards" => some backwards
  | "alternate" => some alternate
  | "normalization" => some normalization
  | "caseLevel" => some caseLevel
  | "numeric" => some numeric
  | "casefirst" => some caseFirst
  | "hiraganaQ" => some hiraganaQuaternary
  | _ => none

/-- What a value in a rule string becomes in markup, unless the attribute does not permit it. The
strength is a number from 1 to 5, only secondary differences can be ordered backwards, and any other
value is kept unless it has a control character, which no attribute can hold. -/
def Attribute.value? (value : List Char) : Attribute → Option (List Char)
  | strength => (Level.ofNumeral? value).map (·.name.toList)
  | backwards => if value = ['2'] then some ['o', 'n'] else none
  | _ => if value.any Text.isControl then none else some value

/-- An attribute and its value in markup. -/
structure Setting where
  name : Attribute
  value : List Char
deriving DecidableEq, Repr

/-- A way to treat the characters of a set. -/
inductive DirectiveKind
  | suppressContractions
  | optimize
deriving DecidableEq, Repr

/-- The spelling of a directive in markup. -/
def DirectiveKind.markup : DirectiveKind → String
  | suppressContractions => "suppress_contractions"
  | optimize => "optimize"

/-- The directive with a name in rule strings. -/
def DirectiveKind.ofRuleName? (name : List Char) : Option DirectiveKind :=
  match String.ofList name with
  | "suppressContractions" => some suppressContractions
  | "optimize" => some optimize
  | _ => none

/-- A way to treat the characters of a set, which is kept as it is written. -/
structure Directive where
  kind : DirectiveKind
  set : List Char
deriving DecidableEq, Repr

/-- What one group of a setting token declares. -/
inductive Declaration
  | setting (setting : Setting)
  | directive (directive : Directive)
deriving DecidableEq, Repr

namespace Declaration

/-- The declaration of a value for a name. That the value is missing is found before anything that
is wrong with the name. -/
def ofNamed (name value : List Char) : Except ConfigCause Declaration :=
  if value.isEmpty then .error (.missingValue name)
  else match Attribute.ofRuleName? name with
    | some known =>
      match known.value? value with
      | some value => .ok (.setting ⟨known, value⟩)
      | none => .error (.invalidValue name value)
    | none =>
      match DirectiveKind.ofRuleName? name with
      | some kind => .ok (.directive ⟨kind, value⟩)
      | none => .error (.unknownSetting name)

/-- The declaration in a payload: its first word is the name and what follows is the value. -/
def ofPayload (payload : List Char) : Except ConfigCause Declaration :=
  let (name, value) := Text.cutAtBlank (Text.trim payload)
  ofNamed name (Text.trim value)

/-- The declarations in the text of a setting token, one for each group. -/
def ofText (text : List Char) : Except ConfigCause (List Declaration) :=
  match groups text with
  | .ok payloads => payloads.mapM ofPayload
  | .error (.textOutside rest) => .error (.textOutside rest)
  | .error .unclosed => .error (.unclosed text)

end Declaration

/-- The settings of a rule string: the attributes in the order in which they were first set, each
with its last value, and the directives in order. -/
structure Settings where
  attributes : List Setting := []
  directives : List Directive := []
deriving DecidableEq, Repr

namespace Settings

/-- A list of settings in which one replaces an earlier one of its attribute or comes last. -/
def set (setting : Setting) : List Setting → List Setting
  | [] => [setting]
  | other :: rest =>
    if other.name = setting.name then setting :: rest else other :: set setting rest

/-- The settings after a declaration. -/
def declare (s : Settings) : Declaration → Settings
  | .setting setting => { s with attributes := set setting s.attributes }
  | .directive directive => { s with directives := s.directives ++ [directive] }

/-- Whether nothing is set. -/
def isEmpty (s : Settings) : Bool := s.attributes.isEmpty && s.directives.isEmpty

end Settings
end CollationRules
