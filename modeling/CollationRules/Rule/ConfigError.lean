import CollationRules.Report.Diagnostic

/-! Errors in the bracketed parts of a rule string: settings and resets. -/

namespace CollationRules

/-- Why the text of a setting or a reset means nothing. -/
inductive ConfigCause
  | unknownSetting (name : List Char)
  | invalidValue (name value : List Char)
  | missingValue (name : List Char)
  /-- Text of a setting stands outside of brackets. -/
  | textOutside (text : List Char)
  /-- A bracket of a setting is not closed. -/
  | unclosed (text : List Char)
  | unknownAnchor (payload : List Char)
  /-- The words after `before` are not one of the numbers from 1 to 4. -/
  | invalidBefore (words : List Char)
  /-- Text follows an anchor. -/
  | textAfterAnchor (text : List Char)
deriving DecidableEq, Repr

/-- A cause, and the span of the tokens that it was found in. -/
structure ConfigError where
  cause : ConfigCause
  span : Span
deriving DecidableEq, Repr

/-- The words for a cause. -/
def ConfigCause.message : ConfigCause → String
  | unknownSetting name => s!"unknown setting `{String.ofList name}`"
  | invalidValue name value =>
    s!"invalid value `{String.ofList value}` for setting `{String.ofList name}`"
  | missingValue name => s!"missing value for setting `{String.ofList name}`"
  | textOutside text => s!"unexpected text `{String.ofList text}` outside of setting"
  | unclosed text => s!"unterminated setting `{String.ofList text}`"
  | unknownAnchor payload => s!"unknown reset position `[{String.ofList payload}]`"
  | invalidBefore words => s!"invalid strength `{String.ofList words}` for `[before]`"
  | textAfterAnchor text => s!"unexpected text `{String.ofList text}` after reset position"

/-- The notes that a cause puts on a span. -/
def ConfigCause.annotations (cause : ConfigCause) (span : Span) : List Annotation :=
  match cause with
  | unknownSetting _ =>
    [span.error "setting not recognized",
      span.help ("expected one of `strength`, `alternate`, `backwards`, `normalization`, " ++
        "`caseLevel`, `casefirst`, `hiraganaQ`, `numeric`, `suppressContractions`, or `optimize`")]
  | invalidValue name _ =>
    if name = "strength".toList then
      [span.error "invalid strength", span.help "expected a strength between `1` and `5`"]
    else if name = "backwards".toList then
      [span.error "invalid value", span.help "only `[backwards 2]` is supported"]
    else [span.error "invalid value"]
  | missingValue _ => [span.error "expected a value after the setting name"]
  | textOutside _ | unclosed _ => [span.error "in this setting"]
  | unknownAnchor _ =>
    [span.error "reset position not recognized",
      span.help "expected e.g. `[top]`, `[first regular]`, or `[last tertiary ignorable]`"]
  | invalidBefore _ =>
    [span.error "invalid strength", span.help "expected `[before 1]` through `[before 4]`"]
  | textAfterAnchor _ =>
    [span.error "in this reset",
      span.help "a reset position stands alone; begin a new rule with `<`"]

namespace ConfigError

/-- The words for an error. -/
def message (e : ConfigError) : String := e.cause.message

/-- An error as a diagnostic. -/
def diagnostic (e : ConfigError) : Diagnostic := ⟨e.message, e.cause.annotations e.span, []⟩

end ConfigError
end CollationRules
