import CollationRules.Text.Characters

/-! Bracket groups in the text of a token. Groups may hold further groups; a payload is what stands
between the two brackets of a group. -/

namespace CollationRules

/-- Why a text is not a sequence of bracket groups with only blanks between them. -/
inductive GroupFault
  /-- Other text stands outside of the groups; this is the text from there on. -/
  | textOutside (rest : List Char)
  /-- The last group is not closed. -/
  | unclosed
deriving DecidableEq, Repr

/-- Where a reader of bracket groups stands. -/
inductive GroupPlace
  | outside
  /-- Inside a group, with `depth` groups open inside of that one. -/
  | inside (depth : Nat) (payload : Array Char)

/-- The payloads of the groups that are closed from a place on, in order. -/
def GroupPlace.read : GroupPlace → List Char → Except GroupFault (List (List Char))
  | .outside, [] => .ok []
  | .inside .., [] => .error .unclosed
  | .outside, c :: rest =>
    if c = '[' then (inside 0 #[]).read rest
    else if Text.isBlank c then outside.read rest
    else .error (.textOutside (c :: rest))
  | .inside depth payload, c :: rest =>
    if c = '[' then (inside (depth + 1) (payload.push c)).read rest
    else if c = ']' then
      match depth with
      | 0 => (outside.read rest).map (payload.toList :: ·)
      | depth + 1 => (inside depth (payload.push c)).read rest
    else (inside depth (payload.push c)).read rest

/-- The payloads of a sequence of bracket groups. -/
def groups (text : List Char) : Except GroupFault (List (List Char)) :=
  GroupPlace.outside.read text

/-- The text up to the bracket that closes a group, and the text after it, with `depth` groups open
inside of that one. -/
def closeGroup? (depth : Nat) : List Char → Option (List Char × List Char)
  | [] => none
  | c :: rest =>
    if c = ']' && depth == 0 then some ([], rest)
    else
      let inner := if c = '[' then depth + 1 else if c = ']' then depth - 1 else depth
      (closeGroup? inner rest).map fun (payload, tail) => (c :: payload, tail)

/-- The payload of the group that a text begins with, and the text after that group. -/
def leadingGroup? : List Char → Option (List Char × List Char)
  | '[' :: rest => closeGroup? 0 rest
  | _ => none

end CollationRules
