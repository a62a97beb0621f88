import CollationRules.Collation.Compiler

/-! A collation of a locale: the element around the markup of one or more rule strings, with a
reference to the collation that it is based on, if there is one. -/

namespace CollationRules

open Markup (Builder)

/-- The type of collation that is meant where none is named. -/
def standardKind : List Char := "standard".toList

/-- The collation that another one is based on: a locale and the type of its collation. -/
structure Base where
  source : List Char
  kind : List Char := standardKind
deriving DecidableEq, Repr

/-- A collation of some type. -/
structure Collation where
  kind : List Char
  base : Option Base := none
  compiler : Compiler := {}
deriving DecidableEq, Repr

/-- The block that refers to a base. -/
def Base.write (base : Base) (b : Builder) : Builder :=
  let b := b.openBlock "base" []
  (b.emptyLine "alias" [("source", base.source), ("type", base.kind)]).closeBlock

namespace Collation

/-- The compilation of rule strings one after the other, up to the first that fails. -/
def compileAll (compiler : Compiler) (out : Builder) : List (List Char) → Compilation
  | [] => ⟨compiler, out, none⟩
  | source :: rest =>
    let result := compiler.append source out
    if result.failure.isSome then result else compileAll result.compiler result.out rest

/-- Write a collation to a builder. Its element is closed also where a rule string fails. -/
def append (c : Collation) (sources : List (List Char)) (out : Builder) :
    Option Failure × Collation × Builder :=
  let start := out.openBlock "collation" [("type", c.kind)]
  let start :=
    match c.base with
    | some base => base.write start
    | none => start
  let result := compileAll c.compiler start sources
  (result.failure, { c with compiler := result.compiler }, result.out.closeTo out.depth)

/-- The markup of a collation that was written, or the failure, and the collation after it. -/
def answer : Option Failure × Collation × Builder → Except Failure (List Char) × Collation
  | (some failure, next, _) => (.error failure, next)
  | (none, next, out) => (out.render.mapError .write, next)

/-- The markup of a collation, and the collation after it. -/
def render (c : Collation) (sources : List (List Char)) :
    Except Failure (List Char) × Collation :=
  answer (c.append sources c.compiler.layout.builder)

/-- Write a collation to a builder, unless it is too long for memory. -/
def append? (c : Collation) (sources : List (List Char)) (out : Builder) :
    Option (Option Failure × Collation × Builder) :=
  let result := c.append sources out
  if result.2.2.fits then some result else none

/-- The markup of a collation, unless it is too long for memory, and the collation after it. -/
def render? (c : Collation) (sources : List (List Char)) :
    Option (Except Failure (List Char) × Collation) :=
  (c.append? sources c.compiler.layout.builder).map answer

end Collation
end CollationRules
