import CollationRules.Proofs.Collation.Balance
import CollationRules.Proofs.Report.Positions
import CollationRules.Proofs.Rule.Faults
import CollationRules.Proofs.Rule.Merging

/-! Where a compilation fails. Each note on a failure is on a part of the rule string that a report
can quote: the character that the syntax is wrong at, or the tokens of a run with an error. -/

namespace CollationRules

open Text (byteLength)

theorem Span.Covers.excerpt?_isSome {span : Span} {source part : List Char}
    (h : span.Covers source part) (hsize : byteLength source < UInt32.size) (name : String)
    (columns : Char → Nat) : ((⟨name, source⟩ : Source).excerpt? span columns).isSome := by
  obtain ⟨before, after, rfl, hoffset, hlength⟩ := h
  rw [Text.byteLength_append, Text.byteLength_append] at hsize
  have hstop : span.stop.toNat = byteLength (before ++ part) := by
    show (UInt32.ofNatClamp (span.offset.toNat + span.length.toNat)).toNat = _
    rw [UInt32.toNat_ofNatClamp_of_lt (by omega), hoffset, hlength, Text.byteLength_append]
  exact (Source.isSome_excerpt?_iff columns).2
    ⟨⟨before, part ++ after, (List.append_assoc ..).symm, hoffset.symm⟩,
      before ++ part, after, rfl, hstop.symm⟩

/-! ### Notes -/

theorem SyntaxError.span_annotations (e : SyntaxError) :
    e.annotations ≠ [] ∧ ∀ annotation ∈ e.annotations, annotation.span = e.span := by
  obtain ⟨cause, span, before, after⟩ := e
  cases cause <;> simp [annotations, Span.error, Span.help, Span.note]

theorem ConfigCause.span_annotations (cause : ConfigCause) (span : Span) :
    cause.annotations span ≠ [] ∧
      ∀ annotation ∈ cause.annotations span, annotation.span = span := by
  cases cause with
  | invalidValue name value =>
    simp only [annotations]
    repeat' split
    all_goals simp [Span.error, Span.help]
  | _ => simp [annotations, Span.error, Span.help]

/-! ### Runs that mean nothing -/

theorem Run.span_of_contribution {run : Run} {error : ConfigError}
    (h : run.contribution = .error error) : error.span = run.span := by
  unfold Run.contribution at h
  repeat' split at h
  all_goals cases h
  all_goals rfl

theorem exists_contribution_error {runs : List Run} {error : ConfigError}
    (h : (contributions runs).2 = some error) : ∃ run ∈ runs, run.contribution = .error error := by
  induction runs with
  | nil => cases h
  | cons run rest ih =>
    unfold contributions at h
    split at h
    · obtain ⟨wrong, hmem, hwrong⟩ := ih h
      exact ⟨wrong, List.mem_cons_of_mem _ hmem, hwrong⟩
    · rename_i error' hwrong
      cases h
      exact ⟨run, List.mem_cons_self, hwrong⟩

theorem Run.exists_holds {front back : List Run} {run : Run} {groups : List (List Token)}
    (h : List.Forall₂ Holds (front ++ run :: back) groups) :
    ∃ before group after, groups = before ++ group :: after ∧ run.Holds group := by
  induction front generalizing groups with
  | nil =>
    obtain ⟨group, after, hrun, -, rfl⟩ := List.forall₂_cons_left_iff.1 h
    exact ⟨[], group, after, rfl, hrun⟩
  | cons first front ih =>
    obtain ⟨held, groups, -, hrest, rfl⟩ := List.forall₂_cons_left_iff.1 h
    obtain ⟨before, group, after, rfl, hrun⟩ := ih hrest
    exact ⟨held :: before, group, after, rfl, hrun⟩

theorem Run.exists_held {tokens : List Token} {run : Run} (h : run ∈ ofTokens tokens) :
    ∃ groups group others, tokens.splitBy joins = groups ++ group :: others ∧ run.Holds group := by
  obtain ⟨front, back, hruns⟩ := List.append_of_mem h
  have hholds := holds_splitBy tokens
  rw [hruns] at hholds
  exact exists_holds hholds

namespace Compiler

theorem writtenRuns_isPrefix (source : List Char) :
    writtenRuns source <+: Run.ofTokens (tokens source) := by
  unfold writtenRuns
  simp only
  split
  · exact List.dropLast_prefix _
  · exact List.prefix_rfl

end Compiler

/-- What a failure is about in a rule string: the character that the cause of an error in the syntax
names, or the tokens that were gathered into a run with an error. -/
def Failure.IsLocated (source : List Char) : Failure → Prop
  | scan e => e.span.Covers source [e.cause.character]
  | config e =>
    ∃ run ∈ Compiler.writtenRuns source, run.contribution = .error e ∧
      ∃ groups group others, (tokens source).splitBy joins = groups ++ group :: others ∧
        run.Holds group ∧ e.span.IsUnion (group.map Token.span)
  | memory _ | write _ => False

/-- The tokens of a run cover a part of the rule string, which is the span of the run. -/
theorem Run.Holds.covers {source : List Char} (hsize : byteLength source < UInt32.size) {run : Run}
    {front group back : List Token} (h : run.Holds group)
    (htokens : tokens source = front ++ group ++ back) :
    run.span.IsUnion (group.map Token.span) ∧ ∃ part, run.span.Covers source part := by
  obtain ⟨implied, pieces, rest, hdivision⟩ := exists_division source
  obtain ⟨before, parts, after, hsource, hspans⟩ := hdivision.exists_parts htokens
  have hne : parts ≠ [] := by
    rintro rfl
    exact h.nonempty (List.map_eq_nil_iff.1 hspans)
  have hpart : byteLength (before ++ parts.flatten) < UInt32.size := by
    rw [hsource, Text.byteLength_append] at hsize
    omega
  have hsum : byteLength before + byteLength parts.flatten < UInt32.size := by
    rwa [← Text.byteLength_append]
  rw [h.span, hspans, Span.foldl_merge_consecutive hne hsum]
  refine ⟨Span.isUnion_consecutive hsum, parts.flatten, ?_⟩
  rw [hsource]
  exact Span.covers_ofOffsets hpart

/-- Every run is gathered from a group of neighbouring tokens, and its span is theirs. -/
theorem Run.exists_group {source : List Char} (hsize : byteLength source < UInt32.size) {run : Run}
    (h : run ∈ ofTokens (tokens source)) :
    ∃ groups group others, (tokens source).splitBy joins = groups ++ group :: others ∧
      run.Holds group ∧ run.span.IsUnion (group.map Token.span) ∧
      ∃ part, run.span.Covers source part := by
  obtain ⟨groups, group, others, hgroups, hgroup⟩ := exists_held h
  have htokens : tokens source = groups.flatten ++ group ++ others.flatten := by
    rw [← List.flatten_splitBy joins (tokens source), hgroups]
    simp
  obtain ⟨hunion, hcovers⟩ := hgroup.covers hsize htokens
  exact ⟨groups, group, others, hgroups, hgroup, hunion, hcovers⟩

namespace Compiler

theorem failure_isLocated (compiler : Compiler) {source : List Char}
    (hsize : byteLength source < UInt32.size) {out : Markup.Builder} {failure : Failure}
    (h : (compiler.append source out).failure = some failure) :
    failure.IsLocated source ∧
      failure.diagnostic.annotations ≠ [] ∧
      ∃ span part, span.Covers source part ∧
        ∀ annotation ∈ failure.diagnostic.annotations, annotation.span = span := by
  rw [failure_append] at h
  cases hruns : (contributions (writtenRuns source)).2 with
  | none =>
    rw [hruns] at h
    obtain ⟨e, herror, rfl⟩ := Option.map_eq_some_iff.1 h
    obtain ⟨before, after, hat⟩ := syntaxError?_isAt herror
    have hcovers := hat.covers hsize
    exact ⟨hcovers, e.span_annotations.1, e.span, _, hcovers, e.span_annotations.2⟩
  | some error =>
    rw [hruns] at h
    cases h
    obtain ⟨run, hmem, hrun⟩ := exists_contribution_error hruns
    obtain ⟨groups, group, others, hgroups, hgroup, hunion, part, hcovers⟩ :=
      Run.exists_group hsize ((writtenRuns_isPrefix source).subset hmem)
    rw [← Run.span_of_contribution hrun] at hunion hcovers
    obtain ⟨hne, hall⟩ := error.cause.span_annotations error.span
    exact ⟨⟨run, hmem, hrun, groups, group, others, hgroups, hgroup, hunion⟩, hne, error.span, part,
      hcovers, hall⟩

/-- Each note on a failure to compile is on a part of the rule string, which a report can quote. -/
theorem compile_error_isLocated (compiler : Compiler) {source : List Char}
    (hsize : byteLength source < UInt32.size) {failure : Failure}
    (h : (compiler.compile source).1 = .error failure) :
    failure.IsLocated source ∧
      failure.diagnostic.annotations ≠ [] ∧
      ∀ annotation ∈ failure.diagnostic.annotations, ∀ name columns,
        ((⟨name, source⟩ : Source).excerpt? annotation.span columns).isSome := by
  obtain ⟨hlocated, hne, span, part, hcovers, hall⟩ :=
    compiler.failure_isLocated hsize (compile_eq_error_iff.1 h)
  refine ⟨hlocated, hne, ?_⟩
  intro annotation hannotation name columns
  rw [hall annotation hannotation]
  exact hcovers.excerpt?_isSome hsize name columns

/-- A run of three resets, each of a character, that mean nothing together. -/
theorem compile_error_isLocated_merged :
    let source := "@&[&\u00E9&] <b".toList
    let failure := Failure.config ⟨.unknownAnchor ['\u00E9'], ⟨1, 8⟩⟩
    (({} : Compiler).compile source).1 = .error failure ∧
      (tokens source).map Token.span = [⟨0, 1⟩, ⟨1, 2⟩, ⟨3, 3⟩, ⟨6, 3⟩, ⟨9, 2⟩] ∧
      failure.IsLocated source ∧
      ∀ annotation ∈ failure.diagnostic.annotations, ∀ name columns,
        ((⟨name, source⟩ : Source).excerpt? annotation.span columns).isSome := by
  intro source failure
  have herror : (({} : Compiler).compile source).1 = .error failure := by decide +kernel
  obtain ⟨hlocated, -, hall⟩ := compile_error_isLocated {} (by decide +kernel) herror
  exact ⟨herror, by decide +kernel, hlocated, hall⟩

end Compiler
end CollationRules
