import CollationRules.Span
import CollationRules.Text.Utf8
import CollationRules.Text.Width

/-! Excerpts: the lines of a source on which spans begin, with an underline. -/

namespace CollationRules

/-- A named text that diagnostics are about. -/
structure Source where
  name : String
  text : List Char

/-- The first line of a span, and the columns of that line that are underlined. -/
structure Excerpt where
  /-- The number of the line, from 1. -/
  line : Nat
  /-- The number of the first character in its line, from 1. -/
  column : Nat
  /-- The line, with spaces for tabs. -/
  quotation : List Char
  /-- The columns before the underline. -/
  markStart : Nat
  /-- The columns of the underline, at least one. -/
  markWidth : Nat
deriving DecidableEq, Repr

/-- The last line of a text, without its line feed. -/
def lastLine (text : List Char) : List Char := (text.reverse.takeWhile (· != '\n')).reverse

/-- The first line of a text, without its line feed. -/
def firstLine (text : List Char) : List Char := text.takeWhile (· != '\n')

/-- The excerpt of a span, if both of its ends lie in the text and between characters; `columns`
gives the columns that a character is shown in. -/
def Source.excerpt? (source : Source) (span : Span) (columns : Char → Nat := Text.charWidth) :
    Option Excerpt := do
  let (before, after) ← Text.cutExactly? span.offset.toNat source.text
  let (spanned, _) ← Text.cutExactly? (span.stop.toNat - span.offset.toNat) after
  let lead := lastLine before
  return {
    line := before.count '\n' + 1
    column := lead.length + 1
    quotation := (lead ++ firstLine after).map fun c => if c = '\t' then ' ' else c
    markStart := Text.width columns lead
    markWidth := max 1 (Text.width columns (firstLine spanned)) }

/-- An excerpt as lines: the quoted line between a blank one and the underline, with the number of
the line at the left. -/
def Excerpt.render (e : Excerpt) : String :=
  let number := toString e.line
  let margin := "".pushn ' ' number.length
  let underline := ("".pushn ' ' e.markStart).pushn '^' e.markWidth
  s!" {margin} |\n {number} | {String.ofList e.quotation}\n {margin} | {underline}\n"

end CollationRules
