import CollationRules.Report.Diagnostic
import CollationRules.Report.Excerpt

/-! Reports: diagnostics shown in sections, one for all neighbouring notes on the same span, with
the lines of the source that they are on. -/

namespace CollationRules

/-- A label and its severity. -/
structure Label where
  severity : Severity
  text : String
deriving DecidableEq, Repr

/-- Neighbouring notes on one span, shown under one excerpt. -/
structure Section where
  span : Span
  severity : Severity
  labels : List Label
deriving DecidableEq, Repr

/-- The section of one note. -/
def Annotation.toSection (a : Annotation) : Section :=
  ⟨a.span, a.severity, a.label.toList.map (⟨a.severity, ·⟩)⟩

/-- A section followed by those of further notes; a note joins the section before it if it is on the
same span. -/
def Section.extend (s : Section) : List Annotation → List Section
  | [] => [s]
  | a :: rest =>
    if a.span = s.span then
      let labels := s.labels ++ a.toSection.labels
      Section.extend ⟨s.span, s.severity.graver a.severity, labels⟩ rest
    else s :: a.toSection.extend rest

/-- The sections of notes. -/
def Section.ofAnnotations : List Annotation → List Section
  | [] => []
  | a :: rest => a.toSection.extend rest

/-- A diagnostic ready to be shown, with the gravest severity of its notes. -/
structure Report where
  severity : Severity
  message : String
  sections : List Section

/-- The report on a diagnostic. It is an error unless a note is graver. -/
def Diagnostic.report (d : Diagnostic) : Report where
  severity := d.annotations.foldl (fun severity a => severity.graver a.severity) .error
  message := d.message
  sections := Section.ofAnnotations d.annotations

/-- A section as lines. A span with no excerpt is given by its offsets; `columns` gives the columns
that a character is shown in. -/
def Section.render (s : Section) (source : Source) (columns : Char → Nat := Text.charWidth) :
    String :=
  let place :=
    match source.excerpt? s.span columns with
    | some e => s!"  --> {source.name}:{e.line}:{e.column}\n{e.render}"
    | none => s!"  --> {source.name} {s.span}\n"
  s.labels.foldl (fun text label => text ++ s!"      {label.severity.name}: {label.text}\n") place

/-- A report as lines, with excerpts of a source. -/
def Report.render (r : Report) (source : Source) (columns : Char → Nat := Text.charWidth) :
    String :=
  r.sections.foldl (fun text s => text ++ s.render source columns)
    s!"{r.severity.name}: {r.message}\n"

end CollationRules
