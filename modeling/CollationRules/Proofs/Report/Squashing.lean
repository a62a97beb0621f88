import CollationRules.Report.Sections
import Mathlib.Data.List.Forall2
import Mathlib.Data.List.SplitBy

/-! What reports show of notes. Each section is of a longest group of neighbouring notes on one
span, no label is lost or moved, and the report is as severe as the gravest note, whichever notes
share a section. -/

namespace CollationRules

/-! ### Severities -/

namespace Severity

theorem graver_cases (a b : Severity) : a.graver b = a ∨ a.graver b = b := by
  unfold graver
  split
  · exact .inl rfl
  · exact .inr rfl

theorem rank_graver (a b : Severity) : (a.graver b).rank = min a.rank b.rank := by
  unfold graver
  split <;> omega

/-- A severity is the gravest of some. -/
structure IsGravest (severity : Severity) (severities : List Severity) : Prop where
  mem : severity ∈ severities
  rank_le : ∀ other ∈ severities, severity.rank ≤ other.rank

theorem isGravest_foldl (first : Severity) (others : List Severity) :
    (others.foldl graver first).IsGravest (first :: others) := by
  induction others generalizing first with
  | nil => exact ⟨List.mem_singleton_self first, by simp⟩
  | cons second others ih =>
    obtain ⟨hmem, hle⟩ := ih (first.graver second)
    rw [List.forall_mem_cons, rank_graver] at hle
    rw [List.foldl_cons]
    constructor
    · rcases List.mem_cons.1 hmem with heq | hmem
      · rcases graver_cases first second with hgraver | hgraver
        · exact List.mem_cons.2 (.inl (heq.trans hgraver))
        · exact List.mem_cons.2 (.inr (List.mem_cons.2 (.inl (heq.trans hgraver))))
      · exact List.mem_cons_of_mem _ (List.mem_cons_of_mem _ hmem)
    · rw [List.forall_mem_cons, List.forall_mem_cons]
      exact ⟨by omega, by omega, hle.2⟩

end Severity

/-! ### Groups -/

/-- The labels of those notes that have one, each with the severity of its note. -/
def labelsOf (annotations : List Annotation) : List Label :=
  annotations.filterMap fun a => a.label.map (⟨a.severity, ·⟩)

theorem labelsOf_append (first second : List Annotation) :
    labelsOf (first ++ second) = labelsOf first ++ labelsOf second :=
  List.filterMap_append ..

theorem labelsOf_cons (a : Annotation) (rest : List Annotation) :
    labelsOf (a :: rest) = a.toSection.labels ++ labelsOf rest := by
  obtain ⟨span, severity, label⟩ := a
  cases label <;> rfl

/-- Notes in groups that are as long as they can be: those of a group are on one span, and none of
them is on the span of a note in the next group. -/
structure IsGrouping (groups : List (List Annotation)) (annotations : List Annotation) : Prop where
  flatten : annotations = groups.flatten
  nonempty : [] ∉ groups
  same : ∀ group ∈ groups, ∃ span, ∀ a ∈ group, a.span = span
  apart : groups.IsChain fun group next => ∀ a ∈ group, ∀ b ∈ next, a.span ≠ b.span

def sameSpan (a b : Annotation) : Bool := a.span == b.span

theorem exists_span {group : List Annotation} (h : group.IsChain fun a b => sameSpan a b) :
    ∃ span, ∀ a ∈ group, a.span = span := by
  induction group with
  | nil => exact ⟨.nowhere, List.forall_mem_nil _⟩
  | cons first rest ih =>
    obtain ⟨hfirst, hrest⟩ := List.isChain_cons.1 h
    obtain ⟨span, hspan⟩ := ih hrest
    cases rest with
    | nil => exact ⟨first.span, by simp⟩
    | cons second rest =>
      have hspan' : first.span = second.span := beq_iff_eq.1 (hfirst second rfl)
      rw [hspan second List.mem_cons_self] at hspan'
      exact ⟨span, List.forall_mem_cons.2 ⟨hspan', hspan⟩⟩

/-- There is one such grouping. -/
theorem isGrouping_iff {groups : List (List Annotation)} {annotations : List Annotation} :
    IsGrouping groups annotations ↔ groups = annotations.splitBy sameSpan := by
  rw [eq_comm, List.splitBy_eq_iff]
  constructor
  · rintro ⟨hflatten, hne, hsame, hapart⟩
    refine ⟨hflatten, hne, fun group hgroup => ?_, ?_⟩
    · obtain ⟨span, hspan⟩ := hsame group hgroup
      apply List.Pairwise.isChain
      refine List.pairwise_of_forall_mem_list fun a ha b hb => ?_
      exact beq_iff_eq.2 ((hspan a ha).trans (hspan b hb).symm)
    · refine hapart.imp_of_mem_imp fun group next hgroup hnext h => ?_
      have hgroup' : group ≠ [] := fun heq => hne (heq ▸ hgroup)
      have hnext' : next ≠ [] := fun heq => hne (heq ▸ hnext)
      refine ⟨hgroup', hnext', beq_eq_false_iff_ne.2 ?_⟩
      exact h _ (List.getLast_mem hgroup') _ (List.head_mem hnext')
  · rintro ⟨hflatten, hne, hchain, hapart⟩
    have hsame : ∀ group ∈ groups, ∃ span, ∀ a ∈ group, a.span = span :=
      fun group hgroup => exists_span (hchain group hgroup)
    refine ⟨hflatten, hne, hsame, hapart.imp_of_mem_imp fun group next hgroup hnext h => ?_⟩
    obtain ⟨hgroup', hnext', hends⟩ := h
    obtain ⟨span, hspan⟩ := hsame group hgroup
    obtain ⟨span', hspan'⟩ := hsame next hnext
    intro a ha b hb
    rw [hspan a ha, hspan' b hb]
    have hends' := beq_eq_false_iff_ne.1 hends
    rwa [hspan _ (List.getLast_mem hgroup'), hspan' _ (List.head_mem hnext')] at hends'

/-! ### Sections -/

namespace Section

/-- A section with further notes on its span. -/
def withNotes (s : Section) (notes : List Annotation) : Section :=
  ⟨s.span, (notes.map Annotation.severity).foldl .graver s.severity, s.labels ++ labelsOf notes⟩

/-- A section takes the notes on its span and no more. -/
theorem extend_append {s : Section} {notes rest : List Annotation}
    (hnotes : ∀ a ∈ notes, a.span = s.span) (hrest : ∀ a ∈ rest.head?, a.span ≠ s.span) :
    s.extend (notes ++ rest) = s.withNotes notes :: ofAnnotations rest := by
  induction notes generalizing s with
  | nil =>
    have hnone : s.withNotes [] = s := by simp [withNotes, labelsOf]
    rw [List.nil_append, hnone]
    cases rest with
    | nil => rfl
    | cons a rest => rw [extend, if_neg (hrest a rfl), ofAnnotations]
  | cons a notes ih =>
    rw [List.forall_mem_cons] at hnotes
    have hextended := ih
      (s := ⟨s.span, s.severity.graver a.severity, s.labels ++ a.toSection.labels⟩) hnotes.2 hrest
    rw [List.cons_append, extend, if_pos hnotes.1]
    refine hextended.trans ?_
    simp only [withNotes, labelsOf_cons, List.append_assoc, List.map_cons, List.foldl_cons]

/-- A section is of a group of notes: it has their span, the gravest of their severities and all of
their labels in order. -/
structure Shows (s : Section) (group : List Annotation) : Prop where
  nonempty : group ≠ []
  span : ∀ a ∈ group, a.span = s.span
  severity : s.severity.IsGravest (group.map Annotation.severity)
  labels : s.labels = labelsOf group

theorem shows_withNotes {first : Annotation} {notes : List Annotation}
    (h : ∀ a ∈ notes, a.span = first.span) :
    (first.toSection.withNotes notes).Shows (first :: notes) where
  nonempty := List.cons_ne_nil _ _
  span := List.forall_mem_cons.2 ⟨rfl, h⟩
  severity := Severity.isGravest_foldl first.severity (notes.map Annotation.severity)
  labels := (labelsOf_cons first notes).symm

/-- The sections of notes are those of their groups. -/
theorem shows_ofAnnotations {groups : List (List Annotation)} {annotations : List Annotation}
    (h : IsGrouping groups annotations) :
    List.Forall₂ Shows (ofAnnotations annotations) groups := by
  induction groups generalizing annotations with
  | nil =>
    rw [h.flatten]
    exact .nil
  | cons group groups ih =>
    obtain ⟨rfl, hne, hsame, hapart⟩ := h
    rw [List.mem_cons, not_or] at hne
    obtain ⟨first, notes, rfl⟩ := List.exists_cons_of_ne_nil (Ne.symm hne.1)
    obtain ⟨span, hspan⟩ := hsame _ List.mem_cons_self
    obtain ⟨rfl, hnotes⟩ := List.forall_mem_cons.1 hspan
    rw [List.isChain_cons] at hapart
    have hrest : ∀ a ∈ groups.flatten.head?, a.span ≠ first.span := by
      intro a ha
      cases groups with
      | nil => cases ha
      | cons next groups =>
        have hnext : next ≠ [] := fun heq => hne.2 (heq ▸ List.mem_cons_self)
        have hmem : a ∈ next := by
          rw [List.flatten_cons, List.head?_append_of_ne_nil _ hnext] at ha
          exact List.mem_of_mem_head? ha
        exact (hapart.1 next rfl first List.mem_cons_self a hmem).symm
    rw [List.flatten_cons, List.cons_append, ofAnnotations, extend_append hnotes hrest]
    exact .cons (shows_withNotes hnotes)
      (ih ⟨rfl, hne.2, fun group hgroup => hsame group (List.mem_cons_of_mem _ hgroup), hapart.2⟩)

theorem flatMap_labels {sections : List Section} {groups : List (List Annotation)}
    (h : List.Forall₂ Shows sections groups) :
    sections.flatMap Section.labels = labelsOf groups.flatten := by
  induction h with
  | nil => rfl
  | cons hshows _ ih =>
    rw [List.flatMap_cons, hshows.labels, ih, List.flatten_cons, labelsOf_append]

/-! ### One note at a time -/

/-- Sections with a new one, which is squashed into the last of them if it is on the same span. -/
def squash (sections : List Section) (new : Section) : List Section :=
  match sections.getLast? with
  | some last =>
    if new.span = last.span then
      sections.dropLast ++
        [⟨last.span, last.severity.graver new.severity, last.labels ++ new.labels⟩]
    else sections ++ [new]
  | none => [new]

theorem foldl_squash (front : List Section) (last : Section) (annotations : List Annotation) :
    annotations.foldl (fun sections a => squash sections a.toSection) (front ++ [last]) =
      front ++ last.extend annotations := by
  induction annotations generalizing front last with
  | nil => rfl
  | cons a rest ih =>
    rw [List.foldl_cons, squash, List.getLast?_concat, extend]
    by_cases hspan : a.span = last.span
    · simp only [List.dropLast_concat]
      rw [if_pos hspan, if_pos (show a.toSection.span = last.span from hspan)]
      exact ih front _
    · simp only
      rw [if_neg hspan, if_neg (show a.toSection.span ≠ last.span from hspan), ih]
      simp

end Section

/-- A report with one more note. -/
def Report.add (r : Report) (a : Annotation) : Report :=
  { r with
    severity := r.severity.graver a.severity
    sections := Section.squash r.sections a.toSection }

theorem Report.foldl_add (r : Report) (annotations : List Annotation) :
    annotations.foldl add r =
      ⟨annotations.foldl (fun severity a => severity.graver a.severity) r.severity, r.message,
        annotations.foldl (fun sections a => Section.squash sections a.toSection) r.sections⟩ := by
  induction annotations generalizing r with
  | nil => rfl
  | cons a rest ih =>
    rw [List.foldl_cons, ih]
    rfl

theorem Diagnostic.report_eq_foldl (d : Diagnostic) :
    d.report = d.annotations.foldl Report.add ⟨.error, d.message, []⟩ := by
  rw [Report.foldl_add, report]
  cases d.annotations with
  | nil => rfl
  | cons a rest => exact congrArg (Report.mk _ _) (Section.foldl_squash [] a.toSection rest).symm

/-! ### Reports as text -/

theorem foldl_append_eq {α : Type} (f : α → String) (start : String) (xs : List α) :
    xs.foldl (fun text x => text ++ f x) start = start ++ String.join (xs.map f) := by
  induction xs generalizing start with
  | nil => simp
  | cons x xs ih => rw [List.foldl_cons, ih, List.map_cons, String.join_cons, String.append_assoc]

/-- The line of a label in a report. -/
def Label.line (label : Label) : String := s!"      {label.severity.name}: {label.text}\n"

/-- The lines that show where a span is: its excerpt, or its offsets if it has none. -/
def Source.place (source : Source) (columns : Char → Nat) (span : Span) : String :=
  match source.excerpt? span columns with
  | some e => s!"  --> {source.name}:{e.line}:{e.column}\n{e.render}"
  | none => s!"  --> {source.name} {span}\n"

/-- The lines of a group of notes: one place for all of them, and each label. -/
def Source.groupText (source : Source) (columns : Char → Nat) (group : List Annotation) : String :=
  group.head?.elim "" (fun first => source.place columns first.span) ++
    String.join ((labelsOf group).map Label.line)

theorem Section.Shows.render_group {s : Section} {group : List Annotation} (h : s.Shows group)
    (source : Source) (columns : Char → Nat) :
    s.render source columns = source.groupText columns group := by
  obtain ⟨first, rest, rfl⟩ := List.exists_cons_of_ne_nil h.nonempty
  have hspan : first.span = s.span := h.span first List.mem_cons_self
  have hrender : s.render source columns =
      source.place columns s.span ++ String.join (s.labels.map Label.line) :=
    foldl_append_eq Label.line (source.place columns s.span) s.labels
  rw [hrender, h.labels, ← hspan]
  rfl

theorem Section.map_render_eq {sections : List Section} {groups : List (List Annotation)}
    (h : List.Forall₂ Shows sections groups) (source : Source) (columns : Char → Nat) :
    sections.map (render · source columns) = groups.map (source.groupText columns) := by
  induction h with
  | nil => rfl
  | cons hshows _ ih => rw [List.map_cons, List.map_cons, hshows.render_group, ih]

/-- A report, to which the notes of a diagnostic are added one at a time, has the gravest severity
of an error and the notes, and all labels in order. There is one way to divide the notes into
longest groups of neighbours on one span: the report has a section for each of these groups, in
order, and its text is a line with the message and the texts of the groups, whatever the columns of
characters. -/
theorem Diagnostic.report_shows (d : Diagnostic) :
    d.report = d.annotations.foldl Report.add ⟨.error, d.message, []⟩ ∧
    d.report.severity.IsGravest (.error :: d.annotations.map Annotation.severity) ∧
    d.report.sections.flatMap Section.labels = labelsOf d.annotations ∧
    ∃ groups, (∀ others, IsGrouping others d.annotations ↔ others = groups) ∧
      List.Forall₂ Section.Shows d.report.sections groups ∧
      ∀ (source : Source) (columns : Char → Nat), d.report.render source columns =
        s!"{d.report.severity.name}: {d.message}\n" ++
          String.join (groups.map (source.groupText columns)) := by
  have hgrouping : IsGrouping (d.annotations.splitBy sameSpan) d.annotations :=
    isGrouping_iff.2 rfl
  have hshows : List.Forall₂ Section.Shows d.report.sections (d.annotations.splitBy sameSpan) :=
    Section.shows_ofAnnotations hgrouping
  refine ⟨d.report_eq_foldl, ?_, ?_, _, fun others => isGrouping_iff, hshows,
    fun source columns => ?_⟩
  · have hgravest := Severity.isGravest_foldl .error (d.annotations.map Annotation.severity)
    rw [List.foldl_map] at hgravest
    exact hgravest
  · rw [Section.flatMap_labels hshows, ← hgrouping.flatten]
  · rw [Report.render, foldl_append_eq (Section.render · source columns),
      Section.map_render_eq hshows]
    rfl

/-- Notes on one span that have others between them do not share a section, and one without a label
does not divide those around it. -/
example :
    let first : Span := ⟨0, 1⟩
    let second : Span := ⟨1, 1⟩
    Section.ofAnnotations [first.error "a", ⟨first, .internalError, none⟩, first.help "b",
      second.note "c", first.note "d"] =
    [⟨first, .internalError, [⟨.error, "a"⟩, ⟨.help, "b"⟩]⟩, ⟨second, .note, [⟨.note, "c"⟩]⟩,
      ⟨first, .note, [⟨.note, "d"⟩]⟩] := by
  decide

end CollationRules
