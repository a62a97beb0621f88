import CollationRules.Markup.Builder
import CollationRules.Rule.Run
import CollationRules.Rule.Reset
import CollationRules.Rule.Setting

/-! Runs turned into markup. Resets and rules become lines of one block of rules; settings are
gathered, and their lines are put in front of that block at the end. -/

namespace CollationRules

open Markup (Builder Name)

/-- The attributes of a collation as a start of a tag would list them, each followed by a space. -/
protected def Settings.toString (s : Settings) : String :=
  String.join (s.attributes.map fun setting =>
    s!"{setting.name.markup}=\"{String.ofList (Markup.escapeAttribute setting.value)}\" ")

instance : ToString Settings := ⟨Settings.toString⟩

/-- Write the line of a directive, the first of those that are left, and take it out. -/
def Settings.flushDirective (state : Builder × Settings) (directive : Directive) :
    Builder × Settings :=
  (state.1.textLine directive.kind.markup directive.set,
    { state.2 with directives := state.2.directives.drop 1 })

/-- Write the lines of settings, one for all attributes, if there are any, and one for each
directive. Each setting is taken out as it is written; the settings that are left are returned. -/
def Settings.flush (s : Settings) (b : Builder) : Builder × Settings :=
  let state :=
    if s.attributes.isEmpty then (b, s)
    else
      (b.emptyLine "settings"
          (s.attributes.map fun setting => (setting.name.markup, setting.value)),
        { s with attributes := [] })
  s.directives.foldl Settings.flushDirective state

/-- The line of a reset. Expansion marks have no meaning in a reset and are left out. -/
def Reset.write (reset : Reset) (b : Builder) : Builder :=
  let b := b.startLine.openTag "reset"
  let b :=
    match reset.before with
    | some level => b.addAttribute "before" level.name.toList
    | none => b
  let b :=
    match reset.position with
    | .anchor anchor => (b.openTag anchor.markup).closeEmpty
    | .literal text => b.text (text.filter (· != expansionMark))
  (b.closeTag "reset").endLine

/-- The element of a rule, or of a sequence of rules. -/
def Strength.element : Strength → Bool → Name
  | .primary, false => "p"
  | .primary, true => "pc"
  | .secondary, false => "s"
  | .secondary, true => "sc"
  | .tertiary, false => "t"
  | .tertiary, true => "tc"
  | .identical, false => "i"
  | .identical, true => "ic"

/-- The line of a rule, or of a sequence of rules. -/
def Operand.write (operand : Operand) (name : Name) (b : Builder) : Builder :=
  let b := b.startLine
  let b := if operand.isCompound then b.openTag "x" else b
  let b :=
    match operand.context with
    | some context => b.element "context" context
    | none => b
  let b := b.element name operand.head
  let b :=
    match operand.extension with
    | some extension => b.element "extend" extension
    | none => b
  let b := if operand.isCompound then b.closeTag "x" else b
  b.endLine

/-- The markup of a rule string while it is written. -/
structure Emission where
  out : Builder
  settings : Settings
  /-- The number of pieces before the block of rules, once that block is open. -/
  rulesAt : Option Nat := none

namespace Emission

/-- Open the block of rules, unless it is open. -/
def beginRules (e : Emission) : Emission :=
  if e.rulesAt.isSome then e
  else { e with out := e.out.openBlock "rules" [], rulesAt := some e.out.size }

/-- Write one run, or find out what is wrong with its text. -/
def run (e : Emission) (run : Run) : Except ConfigError Emission :=
  match run.kind with
  | .setting =>
    match Declaration.ofText run.text with
    | .ok declarations => .ok { e with settings := declarations.foldl .declare e.settings }
    | .error cause => .error ⟨cause, run.span⟩
  | .override => .ok { e with settings := e.settings.declare (.setting ⟨.backwards, ['o', 'n']⟩) }
  | .reset =>
    match Reset.ofText run.text with
    | .ok reset =>
      let e := e.beginRules
      .ok { e with out := reset.write e.out }
    | .error cause => .error ⟨cause, run.span⟩
  | .relation strength =>
    let e := e.beginRules
    let name := strength.element run.isSequence
    .ok { e with out := (Operand.ofText run.text).write name e.out }
  | .endOfRules => .ok e

/-- Write runs up to the first that is wrong. -/
def runs (e : Emission) : List Run → Emission × Option ConfigError
  | [] => (e, none)
  | first :: rest =>
    match e.run first with
    | .ok e => e.runs rest
    | .error error => (e, some error)

/-- Close the block of rules. -/
def endRules (e : Emission) : Builder := if e.rulesAt.isSome then e.out.closeBlock else e.out

/-- The end of an emission: the block of rules is closed, and the settings are written where it
begins, or at the end if there is none. Where the rule string is wrong, they are dropped. -/
def finish (e : Emission) (isRight : Bool) : Builder × Settings :=
  let out := e.endRules
  if isRight then
    let (written, left) := e.settings.flush out.fork
    (out.insert (e.rulesAt.getD out.size) written, left)
  else (out, {})

end Emission
end CollationRules
