import CollationRules.Proofs.Collation.FailureSpans
import CollationRules.Proofs.Collation.Resets
import CollationRules.Proofs.Rule.Calls

/-! What a compilation answers. It fails where the syntax is wrong, and otherwise exactly where the
settings or a group of resets cannot be decoded. As runs are written behind the scanner, an error in
what stands before a wrong token can be reported instead of that token. -/

namespace CollationRules

open Text (byteLength)

/-! ### What can be decoded -/

theorem contributions_eq_none_iff (runs : List Run) :
    (contributions runs).2 = none ↔
      ∀ run ∈ runs, ∃ contribution, run.contribution = .ok contribution := by
  induction runs with
  | nil => exact ⟨fun _ => nofun, fun _ => rfl⟩
  | cons run rest ih =>
    rw [contributions, List.forall_mem_cons, ← ih]
    cases run.contribution with
    | ok contribution => simp
    | error error => simp

theorem Run.exists_contribution_iff (run : Run) :
    (∃ contribution, run.contribution = .ok contribution) ↔
      (run.kind = .setting → ∃ declarations, Declaration.ofText run.text = .ok declarations) ∧
        (run.kind = .reset → ∃ reset, Reset.ofText run.text = .ok reset) := by
  unfold contribution
  cases run.kind with
  | setting => cases Declaration.ofText run.text <;> simp
  | reset => cases Reset.ofText run.text <;> simp
  | _ => simp

section

variable {p : List Char → Prop}

/-- Settings are not gathered. -/
theorem Run.forall_setting_ofTokens {tokens : List Token}
    (h : ∀ token ∈ tokens.tail, token.kind.inRules) :
    (∀ run ∈ ofTokens tokens, run.kind = .setting → p run.text) ↔
      ∀ token ∈ tokens, token.kind = .setting → p token.text := by
  have hrules {kind : TokenKind} (hin : kind.inRules) : kind ≠ .setting := by
    rintro rfl
    cases hin
  cases tokens with
  | nil => exact ⟨fun _ => nofun, fun _ => nofun⟩
  | cons token rest =>
    rw [List.tail_cons] at h
    by_cases hkind : token.kind = .setting
    · have hnext : ∀ next ∈ rest.head?, next.kind ≠ token.kind := fun next hnext =>
        hkind ▸ hrules (h next (List.mem_of_mem_head? hnext))
      rw [ofTokens_cons hnext, List.forall_mem_cons, List.forall_mem_cons]
      refine and_congr Iff.rfl ⟨fun _ next hmem hset => ?_, fun _ run hmem hset => ?_⟩
      · exact absurd hset (hrules (h next hmem))
      · exact absurd hset (hrules (inRules_ofTokens h run hmem))
    · have htokens : ∀ next ∈ token :: rest, next.kind ≠ .setting :=
        List.forall_mem_cons.2 ⟨hkind, fun next hmem => hrules (h next hmem)⟩
      refine ⟨fun _ next hmem hset => absurd hset (htokens next hmem), fun _ run hmem hset => ?_⟩
      obtain ⟨next, hnext, hsame⟩ :=
        List.mem_map.1 ((mem_kind_ofTokens _ _).1 (List.mem_map_of_mem hmem))
      exact absurd (hsame.trans hset) (htokens next hnext)

/-- Resets are gathered in groups. -/
theorem forall_reset_holds {runs : List Run} {groups : List (List Token)}
    (h : List.Forall₂ Run.Holds runs groups) :
    (∀ run ∈ runs, run.kind = .reset → p run.text) ↔
      ∀ group ∈ groups, group.all (·.kind == .reset) → p (group.flatMap Token.text) := by
  induction h with
  | nil => exact ⟨fun _ => nofun, fun _ => nofun⟩
  | cons hrun _ ih =>
    rw [List.forall_mem_cons, List.forall_mem_cons, ih, hrun.all_reset, hrun.text, beq_iff_eq]

end

/-- The runs of a rule string can be written if its settings and each group of resets can be
decoded. -/
theorem contributions_ofTokens_eq_none_iff (source : List Char) :
    (contributions (Run.ofTokens (tokens source))).2 = none ↔
      (∀ token ∈ tokens source, token.kind = .setting →
        ∃ declarations, Declaration.ofText token.text = .ok declarations) ∧
      ∀ group ∈ resetGroups (tokens source), ∃ reset, Reset.ofTokens group = .ok reset := by
  have hsettings := Run.forall_setting_ofTokens (tokens_tail_inRules source)
    (p := fun text => ∃ declarations, Declaration.ofText text = .ok declarations)
  have hresets := forall_reset_holds (Run.holds_splitBy (tokens source))
    (p := fun text => ∃ reset, Reset.ofText text = .ok reset)
  simp only [contributions_eq_none_iff, Run.exists_contribution_iff, forall_and, hsettings,
    hresets, resetGroups, List.mem_filter, and_imp, Reset.ofTokens]

/-! ### Errors behind one another -/

theorem Run.Holds.stop_le {run : Run} {held : List Token} (h : run.Holds held) {bound : Nat}
    (hall : ∀ token ∈ held, token.span.stop.toNat ≤ bound) : run.span.stop.toNat ≤ bound := by
  rw [h.span]
  exact Span.stop_foldl_merge_le (List.forall_mem_map.2 hall) (Nat.zero_le _)

/-- No run reaches beyond the calls for its tokens. -/
theorem Run.stop_le_after {source : List Char} {run : Run} (h : run ∈ ofTokens (tokens source)) :
    run.span.stop.toNat ≤ (Scanner.after source (tokens source).length).offset := by
  obtain ⟨groups, group, others, hgroups, hgroup⟩ := exists_held h
  refine hgroup.stop_le fun token htoken => ?_
  have hmem : token ∈ tokens source := by
    rw [← List.flatten_splitBy joins (tokens source), hgroups]
    simp [htoken]
  obtain ⟨count, hcount⟩ := List.mem_iff_getElem?.1 hmem
  obtain ⟨hlt, -⟩ := List.getElem?_eq_some_iff.1 hcount
  exact Nat.le_trans (Scanner.stop_le_after hcount) (Scanner.offset_after_mono source hlt)

namespace Compiler

variable (compiler : Compiler) {source : List Char} {e : SyntaxError}

/-- Where the syntax is wrong, the error is reported unless a run is wrong that is written before
it is found. -/
theorem compile_eq_scan_iff (h : syntaxError? source = some e) :
    (compiler.compile source).1 = .error (.scan e) ↔
      ∀ run ∈ (Run.ofTokens (tokens source)).dropLast,
        ∃ contribution, run.contribution = .ok contribution := by
  have hwritten : writtenRuns source = (Run.ofTokens (tokens source)).dropLast := by
    simp [writtenRuns, h]
  rw [compile_eq_error_iff, failure_append, h, ← contributions_eq_none_iff, hwritten]
  cases (contributions (Run.ofTokens (tokens source)).dropLast).2 <;> simp

/-- An error that is reported instead of one in the syntax is in front of the token that this one
is in. -/
theorem compile_config_cases (h : syntaxError? source = some e) :
    (compiler.compile source).1 = .error (.scan e) ∨
      ∃ error front c rest, (compiler.compile source).1 = .error (.config error) ∧
        source = front ++ c :: rest ∧
        (Scanner.after source (tokens source).length).rest = c :: rest ∧
        (operator? c).isSome ∧ error.span.stop.toNat ≤ byteLength front := by
  rw [compile_eq_error_iff, failure_append, h]
  cases hruns : (contributions (writtenRuns source)).2 with
  | none => exact .inl rfl
  | some error =>
    obtain ⟨run, hwritten, hrun⟩ := exists_contribution_error hruns
    have hmem := (writtenRuns_isPrefix source).subset hwritten
    have hne : tokens source ≠ [] := by
      intro hnil
      rw [hnil] at hmem
      cases hmem
    obtain ⟨front, c, rest, hsource, hrest, hoffset, hoperator⟩ :=
      Scanner.error_begins_after h hne
    refine .inr ⟨error, front, c, rest, ?_, hsource, hrest, hoperator, ?_⟩
    · rw [compile_eq_error_iff, failure_append, hruns]
      rfl
    · rw [Run.span_of_contribution hrun, ← hoffset]
      exact Run.stop_le_after hmem

/-- Without an error in the syntax there is none to report, and all else that can be wrong is in
the settings or in a group of resets. -/
theorem compile_outcome_of_none (h : syntaxError? source = none) :
    (∀ e, (compiler.compile source).1 ≠ .error (.scan e)) ∧
      ((∃ text, (compiler.compile source).1 = .ok text) ↔
        (contributions (Run.ofTokens (tokens source))).2 = none) := by
  have hfailure : (compiler.append source compiler.layout.builder).failure =
      (contributions (Run.ofTokens (tokens source))).2.map Failure.config := by
    rw [failure_append, writtenRuns_eq h, h, Option.map_none, Option.or_none]
  refine ⟨fun e => ?_, ?_⟩
  · rw [ne_eq, compile_eq_error_iff, hfailure]
    simp
  · rw [exists_compile_eq_ok_iff, hfailure, Option.map_eq_none_iff]

/-- A rule string with an error in its syntax does not compile. The compilation fails with this
error, or with one of the settings or resets that ends before the token that cannot be scanned, as
it does exactly if a run but the last cannot be written. Any other rule string compiles exactly if
its settings can be decoded, and each group of resets that are gathered, and never fails with an
error in its syntax. -/
theorem compile_outcome (compiler : Compiler) (source : List Char) :
    (∀ e, syntaxError? source = some e →
      (Scanner.after source (tokens source).length).next.1 = .error e ∧
      ((compiler.compile source).1 = .error (.scan e) ∨
        ∃ error front c rest, (compiler.compile source).1 = .error (.config error) ∧
          source = front ++ c :: rest ∧
          (Scanner.after source (tokens source).length).rest = c :: rest ∧
          (operator? c).isSome ∧ error.span.stop.toNat ≤ byteLength front) ∧
      ((compiler.compile source).1 = .error (.scan e) ↔
        ∀ run ∈ (Run.ofTokens (tokens source)).dropLast,
          ∃ contribution, run.contribution = .ok contribution)) ∧
    (syntaxError? source = none →
      (∀ e, (compiler.compile source).1 ≠ .error (.scan e)) ∧
      ((∃ text, (compiler.compile source).1 = .ok text) ↔
        (∀ token ∈ tokens source, token.kind = .setting →
          ∃ declarations, Declaration.ofText token.text = .ok declarations) ∧
        ∀ group ∈ resetGroups (tokens source), ∃ reset, Reset.ofTokens group = .ok reset)) := by
  refine ⟨fun e h => ?_, fun h => ?_⟩
  · exact ⟨Scanner.error_after h, compiler.compile_config_cases h, compiler.compile_eq_scan_iff h⟩
  · obtain ⟨hscan, hok⟩ := compiler.compile_outcome_of_none h
    exact ⟨hscan, hok.trans (contributions_ofTokens_eq_none_iff source)⟩

/-- Three resets that mean nothing when they are gathered are reported instead of the quote mark
that is not closed. Two others are gathered in a rule string that compiles. -/
theorem compile_outcome_merged :
    let wrong := "&[&x&]<y<'z".toList
    let error : ConfigError := ⟨.unknownAnchor ['x'], ⟨0, 6⟩⟩
    let right := "[numeric on]&a&b<c".toList
    (∃ e, syntaxError? wrong = some e ∧
      (Scanner.after wrong (tokens wrong).length).next.1 = .error e ∧
      (({} : Compiler).compile wrong).1 = .error (.config error) ∧
      ¬∀ run ∈ (Run.ofTokens (tokens wrong)).dropLast,
        ∃ contribution, run.contribution = .ok contribution) ∧
    syntaxError? right = none ∧
      (∃ text, (({} : Compiler).compile right).1 = .ok text) ∧
      ∀ group ∈ resetGroups (tokens right), ∃ reset, Reset.ofTokens group = .ok reset := by
  intro wrong error right
  have hconfig : (({} : Compiler).compile wrong).1 = .error (.config error) := by decide +kernel
  have hsome : (syntaxError? wrong).isSome := by decide +kernel
  obtain ⟨e, he⟩ := Option.isSome_iff_exists.1 hsome
  obtain ⟨hnext, -, hscan⟩ := (compile_outcome {} wrong).1 e he
  have hnone : syntaxError? right = none := by decide +kernel
  have hok : ∃ text, (({} : Compiler).compile right).1 = .ok text :=
    ⟨"<settings numeric=\"on\"/>\n<rules>\n\t<reset>ab</reset>\n\t<p>c</p>\n</rules>\n".toList,
      by decide +kernel⟩
  refine ⟨⟨e, he, hnext, hconfig, fun hall => ?_⟩, hnone, hok, ?_⟩
  · rw [hscan.2 hall] at hconfig
    cases hconfig
  · exact (((compile_outcome {} right).2 hnone).2.1 hok).2

end Compiler
end CollationRules
