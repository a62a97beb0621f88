import CollationRules.Collation.Emission
import CollationRules.Rule.Scanner

/-! Compiling a rule string: its tokens are gathered into runs and the runs are written. -/

namespace CollationRules

open Markup (Builder Spacing)

/-! ### Failures -/

/-- A request for memory that cannot be met while a token is scanned. -/
structure MemoryError where
  requested : Nat
  span : Span
deriving DecidableEq, Repr

/-- An error as a diagnostic. -/
def MemoryError.diagnostic (e : MemoryError) : Diagnostic where
  message := s!"unable to allocate {e.requested} bytes for rule token"
  annotations := [e.span.internalError "while scanning this token"]
  causes :=
    ["memory allocation failed because the computed capacity exceeded the collection's maximum"]

/-- Why a rule string did not become markup. -/
inductive Failure
  | scan (error : SyntaxError)
  | memory (error : MemoryError)
  | config (error : ConfigError)
  | write (error : Markup.WriteError)
deriving DecidableEq, Repr

/-- A failure as a diagnostic. Errors in writing are about no place in the rule string. -/
def Failure.diagnostic : Failure → Diagnostic
  | scan e => e.diagnostic.wrapped
  | memory e => e.diagnostic.wrapped
  | config e => e.diagnostic.wrapped
  | write e => Diagnostic.wrapped ⟨e.message, [], e.causes⟩

/-! ### Compilers -/

/-- How markup is laid out: the indentation of one step, and the depth of the outermost lines. -/
structure Layout where
  indent : Spacing := .tab
  depth : UInt64 := 0
deriving DecidableEq, Repr

/-- An empty builder for a layout. -/
def Layout.builder (layout : Layout) : Builder :=
  { indent := layout.indent, baseDepth := layout.depth }

@[simp] theorem Layout.indent_builder (layout : Layout) : layout.builder.indent = layout.indent :=
  rfl

@[simp] theorem Layout.depth_builder (layout : Layout) : layout.builder.depth = layout.depth :=
  UInt64.add_zero _

/-- A compiler, with the settings of the rule string that it is compiling. -/
structure Compiler where
  layout : Layout := {}
  settings : Settings := {}
deriving DecidableEq, Repr

/-- The builder after a compilation, and the failure that ended it, if there is one. -/
structure Compilation where
  compiler : Compiler
  out : Builder
  failure : Option Failure

/-- The markup that was built, or the failure, and the compiler after it. -/
def Compilation.answer (result : Compilation) : Except Failure (List Char) × Compiler :=
  match result.failure with
  | some failure => (.error failure, result.compiler)
  | none => (result.out.render.mapError .write, result.compiler)

namespace Compiler

/-- Write the markup of a rule string to a builder. Where the rule string is wrong, the rules before
the error are written and no settings. A run is written only when the token after it is known, so
an error in the syntax leaves the last run out. -/
def append (compiler : Compiler) (source : List Char) (out : Builder) : Compilation :=
  let scanError := syntaxError? source
  let runs := Run.ofTokens (tokens source)
  let start : Emission := { out, settings := compiler.settings }
  let (e, configError) := start.runs (if scanError.isSome then runs.dropLast else runs)
  let failure := (configError.map Failure.config).or (scanError.map Failure.scan)
  let (out, settings) := e.finish failure.isNone
  { compiler := { compiler with settings }, out, failure }

/-- The markup of a rule string, and the compiler after it. -/
def compile (compiler : Compiler) (source : List Char) :
    Except Failure (List Char) × Compiler :=
  (compiler.append source compiler.layout.builder).answer

/-- Write the markup of a rule string to a builder, unless it is too long for memory. -/
def append? (compiler : Compiler) (source : List Char) (out : Builder) : Option Compilation :=
  let result := compiler.append source out
  if result.out.fits then some result else none

/-- The markup of a rule string, unless it is too long for memory, and the compiler after it. -/
def compile? (compiler : Compiler) (source : List Char) :
    Option (Except Failure (List Char) × Compiler) :=
  (compiler.append? source compiler.layout.builder).map Compilation.answer

end Compiler

/-- The markup of a rule string in the default layout. -/
def compile (source : List Char) : Except Failure (List Char) :=
  (({} : Compiler).compile source).1

/-! ### Compiling token by token -/

/-- A compilation between two calls of its scanner: what has been written, and the run that is being
gathered, if there is one. -/
structure Gathering where
  emission : Emission
  run : Option Run := none
  scanner : Scanner

namespace Gathering

/-- What one more call leads to. -/
inductive Step
  | more (next : Gathering)
  /-- The compilation is over, with a failure or without one. -/
  | over (emission : Emission) (failure : Option Failure)

/-- A token is gathered. The end of the rules makes a run as well, in which nothing is gathered. -/
def take (g : Gathering) (token : Token) (scanner : Scanner) : Step :=
  match g.run with
  | none => .more { g with run := some (.ofToken token), scanner }
  | some run =>
    if run.kind = .endOfRules ∧ token.isFinish then .over g.emission none
    else if run.accepts token then .more { g with run := some (run.add token), scanner }
    else
      match g.emission.run run with
      | .ok emission => .more ⟨emission, some (.ofToken token), scanner⟩
      | .error error => .over g.emission (some (.config error))

/-- One call of the scanner. -/
def step (g : Gathering) : Step :=
  match g.scanner.next with
  | (.ok token, scanner) => g.take token scanner
  | (.error e, _) => .over g.emission (some (.scan e))

/-- How a compilation ends that makes at most `limit` more calls, if they are enough. -/
def finish? (g : Gathering) : Nat → Option (Emission × Option Failure)
  | 0 => none
  | limit + 1 =>
    match g.step with
    | .more next => next.finish? limit
    | .over emission failure => some (emission, failure)

end Gathering

namespace Compiler

/-- Write the markup of a rule string to a builder, token by token, with at most `limit` calls of
the scanner. -/
def appendWithin? (compiler : Compiler) (limit : Nat) (source : List Char)
    (out : Builder) : Option Compilation :=
  let start : Gathering :=
    { emission := { out, settings := compiler.settings }, scanner := .ofSource source }
  (start.finish? limit).map fun (e, failure) =>
    let (out, settings) := e.finish failure.isNone
    { compiler := { compiler with settings }, out, failure }

end Compiler
end CollationRules
