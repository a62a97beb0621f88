/-! Strengths of collation rules, levels of comparison, and the kinds of rule tokens. -/

namespace CollationRules

/-- How strongly a rule sets a text apart from the one before it. -/
inductive Strength
  | primary
  | secondary
  | tertiary
  | identical
deriving DecidableEq, Repr

namespace Strength

/-- The place of a strength in the order, the strongest difference first. -/
def rank : Strength → Nat
  | primary => 1
  | secondary => 2
  | tertiary => 3
  | identical => 4

/-- The word for a strength. -/
def name : Strength → String
  | primary => "primary"
  | secondary => "secondary"
  | tertiary => "tertiary"
  | identical => "identical"

end Strength

/-- A level of comparison, as settings and resets number them from 1. -/
inductive Level
  | primary
  | secondary
  | tertiary
  | quaternary
  | identical
deriving DecidableEq, Repr

namespace Level

/-- The level with a number, if there is one. -/
def ofNumeral? : List Char → Option Level
  | ['1'] => some primary
  | ['2'] => some secondary
  | ['3'] => some tertiary
  | ['4'] => some quaternary
  | ['5'] => some identical
  | _ => none

/-- The word for a level. -/
def name : Level → String
  | primary => "primary"
  | secondary => "secondary"
  | tertiary => "tertiary"
  | quaternary => "quaternary"
  | identical => "identical"

end Level

/-- What a rule token is: a rule of some strength, or one of the tokens that control the rules. -/
inductive TokenKind
  /-- A rule relative to the position before it. -/
  | relation (strength : Strength)
  /-- A move of the position. -/
  | reset
  /-- Settings in brackets. -/
  | setting
  /-- The older way to order secondary differences backwards. -/
  | override
  /-- The end of the rule string. -/
  | endOfRules
deriving DecidableEq, Repr

namespace TokenKind

/-- Whether a kind is a rule. -/
def isRelation : TokenKind → Bool
  | relation _ => true
  | _ => false

/-- The order of kinds: equal kinds are equal, rules are ordered by strength, and nothing else is
ordered. -/
def compare? : TokenKind → TokenKind → Option Ordering
  | relation a, relation b => some (compare a.rank b.rank)
  | a, b => if a = b then some .eq else none

/-- The words for a kind. -/
def name : TokenKind → String
  | relation strength => strength.name
  | reset => "reset"
  | setting => "setting"
  | override => "override"
  | endOfRules => "end of rules"

end TokenKind
end CollationRules
