import CollationRules.Proofs.Collation.Output
import CollationRules.Proofs.Rule.Merging

/-! What a compilation changes and what it leaves alone. It adds lines for the settings that the
tokens of the rule string declare, then one block of rules, and nothing else. -/

namespace CollationRules

open Markup (Builder line)

/-! ### Declarations of tokens -/

/-- What a token declares: what its groups say if it is a setting, and if it is an override, that
secondary differences are ordered backwards. -/
def Token.declarations (token : Token) : List Declaration :=
  match token.kind with
  | .setting =>
    match Declaration.ofText token.text with
    | .ok declarations => declarations
    | .error _ => []
  | .override => [.setting ⟨.backwards, ['o', 'n']⟩]
  | _ => []

/-- What the tokens of a rule string declare, in order. -/
def declarations (source : List Char) : List Declaration :=
  (tokens source).flatMap Token.declarations

/-- The settings of a rule string. -/
def settingsOf (source : List Char) : Settings := ({} : Settings).declareAll (declarations source)

theorem Token.declarations_of_inRules {token : Token} (h : token.kind.inRules) :
    token.declarations = [] := by
  unfold declarations
  split
  · rename_i hkind; rw [hkind] at h; cases h
  · rename_i hkind; rw [hkind] at h; cases h
  · rfl

theorem Run.contribution_of_inRules {run : Run} {contribution : Contribution}
    (h : run.contribution = .ok contribution) (hk : run.kind.inRules) :
    contribution.declarations = [] ∧ contribution.lines ≠ [] := by
  rcases Run.contribution_cases h with ⟨hin, -⟩ | ⟨-, reset, -, rfl⟩ | ⟨strength, -, rfl⟩
  · rw [hin] at hk
    cases hk
  · exact ⟨rfl, List.cons_ne_nil _ _⟩
  · exact ⟨rfl, List.cons_ne_nil _ _⟩

theorem Run.contribution_of_not_inRules {run : Run} {contribution : Contribution}
    (h : run.contribution = .ok contribution) (hk : run.kind.inRules = false) :
    contribution.lines = [] := by
  rcases Run.contribution_cases h with ⟨-, hlines⟩ | ⟨hkind, -⟩ | ⟨strength, hkind, -⟩
  · exact hlines
  · rw [hkind] at hk
    cases hk
  · rw [hkind] at hk
    cases hk

theorem declarations_ofToken (token : Token) :
    (contributions [Run.ofToken token]).1.declarations = token.declarations := by
  obtain ⟨kind, text, span⟩ := token
  unfold contributions Run.contribution Run.ofToken Token.declarations
  cases kind with
  | setting => cases Declaration.ofText text <;> simp [contributions, Contribution.append]
  | reset => cases Reset.ofText text <;> simp [contributions, Contribution.append]
  | _ => simp [contributions, Contribution.append]

theorem declarations_cons (run : Run) {rest : List Run}
    (h : (contributions rest).1.declarations = []) :
    (contributions (run :: rest)).1.declarations = (contributions [run]).1.declarations := by
  unfold contributions
  cases run.contribution <;> simp [Contribution.append, contributions, h]

theorem declarations_contributions {runs : List Run} (h : ∀ run ∈ runs, run.kind.inRules) :
    (contributions runs).1.declarations = [] := by
  induction runs with
  | nil => rfl
  | cons run rest ih =>
    unfold contributions
    split
    · rename_i contribution hok
      have hrun := Run.contribution_of_inRules hok (h run List.mem_cons_self)
      have hrest := ih fun other hother => h other (List.mem_cons_of_mem _ hother)
      simp [Contribution.append, hrun.1, hrest]
    · rfl

theorem lines_contributions {runs : List Run} (h : (contributions runs).2 = none) :
    (contributions runs).1.lines ≠ [] ↔ ∃ run ∈ runs, run.kind.inRules := by
  induction runs with
  | nil => simp [contributions]
  | cons run rest ih =>
    unfold contributions at h ⊢
    split at h
    · rename_i contribution hok
      cases hk : run.kind.inRules with
      | true =>
        have hne := (Run.contribution_of_inRules hok hk).2
        simp [Contribution.append, hne, hk]
      | false =>
        have hnil := Run.contribution_of_not_inRules hok hk
        simp only [Contribution.append, hnil, List.nil_append, ih h]
        simp [hk]
    · cases h

/-- The lines of runs are those of each run, so that a property of lines that can be put together
needs to be shown for one run only. -/
theorem lines_induction {P : List (List Token) → List (List Markup.Token) → Prop}
    {runs : List Run} {groups : List (List Token)} (hall : List.Forall₂ Run.Holds runs groups)
    (hok : (contributions runs).2 = none) (nil : P [] [])
    (append : ∀ groups others lines lines', P groups lines → P others lines' →
      P (groups ++ others) (lines ++ lines'))
    (run : ∀ {run : Run} {held : List Token} {contribution : Contribution}, run.Holds held →
      run.contribution = .ok contribution → P [held] contribution.lines) :
    P groups (contributions runs).1.lines := by
  induction hall with
  | nil => exact nil
  | @cons first held runs groups h _ ih =>
    unfold contributions at hok ⊢
    split at hok
    · rename_i contribution hcontribution
      exact append [held] groups contribution.lines _ (run h hcontribution) (ih hok)
    · cases hok

theorem Run.inRules_ofTokens {tokens : List Token} (h : ∀ token ∈ tokens, token.kind.inRules) :
    ∀ run ∈ ofTokens tokens, run.kind.inRules := by
  intro run hrun
  have hmem := (mem_kind_ofTokens tokens run.kind).1 (List.mem_map_of_mem hrun)
  obtain ⟨token, htoken, hkind⟩ := List.mem_map.1 hmem
  exact hkind ▸ h token htoken

/-- The runs of tokens declare what the tokens declare. A setting or an override is the first token,
and as nothing is gathered with it, its run declares the same. -/
theorem declarations_ofTokens {tokens : List Token}
    (h : ∀ token ∈ tokens.tail, token.kind.inRules) :
    (contributions (Run.ofTokens tokens)).1.declarations =
      tokens.flatMap Token.declarations := by
  cases tokens with
  | nil => rfl
  | cons token rest =>
    have hrest : rest.flatMap Token.declarations = [] :=
      List.flatMap_eq_nil_iff.2 fun other hother => Token.declarations_of_inRules (h other hother)
    rw [List.flatMap_cons, hrest, List.append_nil]
    cases hk : token.kind.inRules with
    | true =>
      rw [Token.declarations_of_inRules hk]
      refine declarations_contributions (Run.inRules_ofTokens ?_)
      simpa [hk] using h
    | false =>
      have hne : ∀ next ∈ rest.head?, next.kind ≠ token.kind := by
        intro next hnext heq
        have := h next (List.mem_of_mem_head? hnext)
        rw [heq, hk] at this
        cases this
      rw [Run.ofTokens_cons hne]
      have hnone : (contributions (Run.ofTokens rest)).1.declarations = [] :=
        declarations_contributions (Run.inRules_ofTokens h)
      rw [declarations_cons _ hnone, declarations_ofToken]

theorem attributes_settingsOf_ne_nil_iff (source : List Char) :
    (settingsOf source).attributes ≠ [] ↔
      ∃ setting, .setting setting ∈ declarations source := by
  rw [ne_eq, settingsOf, Settings.attributes_declareAll_eq_nil_iff]
  simp only [true_and, List.filterMap_eq_nil_iff, not_forall]
  constructor
  · rintro ⟨declaration, hmem, hsome⟩
    cases declaration with
    | setting setting => exact ⟨setting, hmem⟩
    | directive directive => exact absurd rfl hsome
  · rintro ⟨setting, hmem⟩
    exact ⟨.setting setting, hmem, by simp [Declaration.setting?]⟩

theorem nodup_markup_settingsOf (source : List Char) :
    ((settingsOf source).attributes.map fun setting => setting.name.markup).Nodup := by
  have hnodup : (Settings.names (settingsOf source).attributes).Nodup :=
    Settings.nodup_declareAll _ List.nodup_nil
  have hmarkup := hnodup.map Attribute.markup_injective
  rwa [Settings.names, List.map_map] at hmarkup

theorem directives_settingsOf (source : List Char) :
    (settingsOf source).directives =
      (declarations source).filterMap Declaration.directive? := by
  rw [settingsOf, Settings.directives_declareAll]
  rfl

/-! ### Calls of a compiler -/

theorem Compilation.compiler_answer (result : Compilation) :
    result.answer.2 = result.compiler := by
  unfold answer
  split <;> rfl

namespace Compiler

/-- A compiler after any calls, which wrote any rule strings to any builders. -/
inductive Reached : Compiler → Prop
  | new (layout : Layout) : Reached { layout }
  | append {compiler : Compiler} (source : List Char) (out : Builder) :
      Reached compiler → Reached (compiler.append source out).compiler
  | compile {compiler : Compiler} (source : List Char) :
      Reached compiler → Reached (compiler.compile source).2

@[simp] theorem compiler_compile (compiler : Compiler) (source : List Char) :
    (compiler.compile source).2 = { layout := compiler.layout } := by
  rw [compile, Compilation.compiler_answer, compiler_append]

/-- Between two calls a compiler has no settings. -/
theorem Reached.settings_eq {compiler : Compiler} (h : compiler.Reached) :
    compiler.settings = {} := by
  cases h with
  | new layout => rfl
  | append source out _ => rw [compiler_append]
  | compile source _ => rw [compiler_compile]

theorem syntaxError?_eq_none {compiler : Compiler} {source : List Char} {out : Builder}
    (h : (compiler.append source out).failure = none) : syntaxError? source = none := by
  rw [failure_append] at h
  simpa using (Option.or_eq_none_iff.1 h).2

theorem writtenRuns_eq {source : List Char} (h : syntaxError? source = none) :
    writtenRuns source = Run.ofTokens (tokens source) := by
  simp [writtenRuns, h]

theorem contributions_eq_none {compiler : Compiler} {source : List Char} {out : Builder}
    (h : (compiler.append source out).failure = none) :
    (contributions (Run.ofTokens (tokens source))).2 = none := by
  rw [← writtenRuns_eq (syntaxError?_eq_none h)]
  rw [failure_append] at h
  simpa using (Option.or_eq_none_iff.1 h).1

/-- Where a rule string compiles, its settings are those that its tokens declare. -/
theorem declared_eq {compiler : Compiler} (hr : compiler.Reached) {source : List Char}
    (h : syntaxError? source = none) : compiler.declared source = settingsOf source := by
  unfold declared written settingsOf
  rw [hr.settings_eq, writtenRuns_eq h, declarations_ofTokens (tokens_tail_inRules source)]
  rfl

end Compiler

/-- What a compilation of a rule string does to a builder and to its compiler. -/
structure IsAddition (source : List Char) (out : Builder) (result : Compilation) : Prop where
  /-- Where it succeeds, it adds the lines of the settings and then the block of rules, which is
  there exactly if there are resets or relations. Where it fails, it adds no more than the block. -/
  added : ∃ rules : List (List Markup.Token), (∀ content ∈ rules, IsRuleElement content) ∧
    (result.failure = none →
      result.out.tokens.toList = out.tokens.toList ++
        ((settingsOf source).lines.flatMap (line out.indent out.depth) ++
          rulesBlock out.indent out.depth rules) ∧
      (rules ≠ [] ↔ ∃ token ∈ tokens source, token.kind.inRules)) ∧
    (result.failure ≠ none →
      result.out.tokens.toList = out.tokens.toList ++ rulesBlock out.indent out.depth rules)
  /-- There are attributes exactly if the rule string sets one. -/
  attributes : (settingsOf source).attributes ≠ [] ↔
    ∃ setting, .setting setting ∈ declarations source
  nodup : ((settingsOf source).attributes.map fun setting => setting.name.markup).Nodup
  directives : (settingsOf source).directives =
    (declarations source).filterMap Declaration.directive?
  blocks : result.out.blocks = out.blocks
  indent : result.out.indent = out.indent
  depth : result.out.depth = out.depth
  settings : result.compiler.settings = {}

namespace Compiler

theorem lines_written_ne_nil_iff {compiler : Compiler} {source : List Char} {out : Builder}
    (h : (compiler.append source out).failure = none) :
    (written source).lines ≠ [] ↔ ∃ token ∈ tokens source, token.kind.inRules := by
  rw [written, writtenRuns_eq (syntaxError?_eq_none h),
    lines_contributions (contributions_eq_none h)]
  constructor
  · rintro ⟨run, hrun, hk⟩
    have hmem := (Run.mem_kind_ofTokens _ _).1 (List.mem_map_of_mem hrun)
    obtain ⟨token, htoken, hkind⟩ := List.mem_map.1 hmem
    exact ⟨token, htoken, hkind ▸ hk⟩
  · rintro ⟨token, htoken, hk⟩
    have hmem := (Run.mem_kind_ofTokens _ _).2 (List.mem_map_of_mem htoken)
    obtain ⟨run, hrun, hkind⟩ := List.mem_map.1 hmem
    exact ⟨run, hrun, hkind ▸ hk⟩

/-- Whatever calls came before, a compilation adds settings and rules at the end of a builder and
changes nothing else. -/
theorem append_isAddition {compiler : Compiler} (hr : compiler.Reached) (source : List Char)
    (out : Builder) : IsAddition source out (compiler.append source out) := by
  have hout := compiler.out_append source out
  refine ⟨⟨(written source).lines, contributions_isRuleElement _, ?_, ?_⟩,
    attributes_settingsOf_ne_nil_iff source, nodup_markup_settingsOf source,
    directives_settingsOf source, by rw [hout]; rfl, by rw [hout]; rfl, by rw [hout]; rfl,
    by rw [compiler_append]⟩
  · intro hok
    refine ⟨?_, lines_written_ne_nil_iff hok⟩
    rw [compiler.out_append_of_ok source hok, Markup.Builder.tokens_add,
      declared_eq hr (syntaxError?_eq_none hok)]
  · intro herror
    rw [if_pos (Option.isSome_iff_ne_none.2 herror), List.nil_append] at hout
    rw [hout, Markup.Builder.tokens_add]

/-- A compiler that has failed, with settings, in the middle of a rule string, and writes to a
builder in which a block is open. -/
theorem append_isAddition_after_failure :
    let compiler := (({} : Compiler).compile "[strength 2]&a<#".toList).2
    let source := "[numeric on][optimize [ab]]&a<b".toList
    let out := ({ indent := .tab, baseDepth := 1 : Builder }).openBlock "collation" []
    (({} : Compiler).compile "[strength 2]&a<#".toList).1.isOk = false ∧ compiler.Reached ∧
      (compiler.append source out).failure = none ∧
      IsAddition source out (compiler.append source out) :=
  ⟨by decide +kernel, .compile _ (.new {}), by decide +kernel,
    append_isAddition (.compile _ (.new {})) _ _⟩

end Compiler
end CollationRules
