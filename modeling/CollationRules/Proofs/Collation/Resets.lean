import CollationRules.Proofs.Collation.Text
import CollationRules.Proofs.Markup.Named

/-! The resets in markup. Each of them is that of a group of reset tokens, and as long as these are
single characters, a group has all that stand next to each other. -/

namespace CollationRules

open Markup (Name Reads elementsNamed line reads_unnamed reads_named_line)

/-! ### Groups of reset tokens -/

/-- The reset tokens in groups, each of which is gathered in one run. -/
def resetGroups (tokens : List Token) : List (List Token) :=
  (tokens.splitBy joins).filter fun group => group.all (·.kind == .reset)

def Reset.ofTokens (group : List Token) : Except ConfigCause Reset :=
  ofText (group.flatMap Token.text)

/-- Whether no reset token is gathered with the one after it. -/
def ApartResets (tokens : List Token) : Prop :=
  tokens.IsChain fun before token => ¬(before.kind = .reset ∧ joins before token)

/-! ### Lines -/

theorem Reset.reads_named (reset : Reset) :
    Reads (elementsNamed "reset") reset.pieces [reset.pieces] := by
  have hcontent : .closeTag "reset" ∉
      Markup.attributePieces (reset.before.toList.map fun level => ("before", level.name.toList)) ++
        reset.position.pieces := by
    obtain ⟨before, position⟩ := reset
    have hposition : .closeTag "reset" ∉ position.pieces := by
      cases position with
      | anchor place => simp [ResetPosition.pieces]
      | literal text =>
        unfold ResetPosition.pieces Markup.textPieces
        split <;> simp
    simp [Markup.attributePieces, hposition]
  have hread := Markup.reads_named hcontent
  rwa [← List.cons_append] at hread

theorem Operand.openTag_not_mem (operand : Operand) (strength : Strength) (isSequence : Bool) :
    .openTag "reset" ∉ operand.pieces (strength.element isSequence) := by
  have hname : "reset" ≠ strength.element isSequence := by
    cases strength <;> cases isSequence <;> decide
  have hparts : .openTag "reset" ∉ operand.partPieces (strength.element isSequence) := by
    simp [partPieces, hname]
  unfold pieces
  split
  · simpa using hparts
  · exact hparts

theorem Settings.openTag_not_mem (s : Settings) :
    ∀ content ∈ s.lines, .openTag "reset" ∉ content := by
  intro content hcontent
  rcases List.mem_append.1 hcontent with hmem | hmem
  · split at hmem
    · cases hmem
    · rw [List.mem_singleton.1 hmem]
      simp
  · obtain ⟨⟨kind, set⟩, -, rfl⟩ := List.mem_map.1 hmem
    cases kind <;> simp [DirectiveKind.markup]

theorem Run.Holds.all_reset {run : Run} {held : List Token} (h : run.Holds held) :
    held.all (·.kind == .reset) = (run.kind == .reset) :=
  h.all_kind (· == .reset)

theorem Run.Holds.reads_resets {run : Run} {held : List Token} (h : run.Holds held)
    {contribution : Contribution} (hok : run.contribution = .ok contribution)
    (indent : Markup.Spacing) (depth : UInt64) :
    ∃ resets : List Reset,
      ([held].filter fun group => group.all (·.kind == .reset)).map Reset.ofTokens =
        resets.map .ok ∧
      Reads (elementsNamed "reset") (contribution.lines.flatMap (line indent depth))
        (resets.map Reset.pieces) := by
  rw [List.filter_singleton, h.all_reset]
  rcases Run.contribution_cases hok with
    ⟨hin, hlines⟩ | ⟨hkind, reset, hreset, rfl⟩ | ⟨strength, hkind, rfl⟩
  · have hother : (run.kind == .reset) = false := by
      cases hkind : run.kind <;> simp_all [TokenKind.inRules]
    rw [hother, hlines]
    exact ⟨[], rfl, .nil⟩
  · refine ⟨[reset], ?_, ?_⟩
    · rw [hkind]
      simp [Reset.ofTokens, ← h.text, hreset]
    · simpa using reads_named_line indent depth reset.reads_named
  · refine ⟨[], by rw [hkind]; rfl, ?_⟩
    have hother := (Operand.ofText run.text).openTag_not_mem strength run.isSequence
    simpa using reads_named_line indent depth (reads_unnamed hother)

theorem reads_resets {runs : List Run} {groups : List (List Token)}
    (hall : List.Forall₂ Run.Holds runs groups) (hok : (contributions runs).2 = none)
    (indent : Markup.Spacing) (depth : UInt64) :
    ∃ resets : List Reset,
      (groups.filter fun group => group.all (·.kind == .reset)).map Reset.ofTokens =
        resets.map .ok ∧
      Reads (elementsNamed "reset") ((contributions runs).1.lines.flatMap (line indent depth))
        (resets.map Reset.pieces) := by
  refine lines_induction (P := fun groups lines => ∃ resets : List Reset,
    (groups.filter fun group => group.all (·.kind == .reset)).map Reset.ofTokens =
      resets.map .ok ∧
    Reads (elementsNamed "reset") (lines.flatMap (line indent depth)) (resets.map Reset.pieces))
    hall hok ⟨[], rfl, .nil⟩ ?_ fun h hcontribution => h.reads_resets hcontribution indent depth
  rintro groups others lines lines' ⟨first, hfirst, hreads⟩ ⟨rest, hrest, hreads'⟩
  refine ⟨first ++ rest, ?_, ?_⟩
  · rw [List.filter_append, List.map_append, hfirst, hrest, List.map_append]
  · rw [List.flatMap_append, List.map_append]
    exact hreads.append hreads'

/-! ### Tokens apart -/

section

variable {α : Type}

theorem length_le_flatten {groups : List (List α)} (hne : [] ∉ groups) :
    groups.length ≤ groups.flatten.length := by
  induction groups with
  | nil => rfl
  | cons group groups ih =>
    rw [List.mem_cons, not_or] at hne
    have hpos := List.length_pos_iff.2 (Ne.symm hne.1)
    have hle := ih hne.2
    rw [List.flatten_cons, List.length_append, List.length_cons]
    omega

theorem length_eq_one_of_flatten {groups : List (List α)} (hne : [] ∉ groups)
    (h : groups.flatten.length = groups.length) : ∀ group ∈ groups, group.length = 1 := by
  induction groups with
  | nil => simp
  | cons group groups ih =>
    rw [List.mem_cons, not_or] at hne
    have hpos := List.length_pos_iff.2 (Ne.symm hne.1)
    have hle := length_le_flatten hne.2
    rw [List.flatten_cons, List.length_append, List.length_cons] at h
    rw [List.forall_mem_cons]
    exact ⟨by omega, ih hne.2 (by omega)⟩

theorem flatten_filter_all {p : α → Bool} {groups : List (List α)}
    (h : ∀ group ∈ groups, group.all p = false → ∀ x ∈ group, p x = false) :
    (groups.filter (·.all p)).flatten = groups.flatten.filter p := by
  induction groups with
  | nil => rfl
  | cons group groups ih =>
    rw [List.forall_mem_cons] at h
    rw [List.flatten_cons, List.filter_append, ← ih h.2]
    cases hall : group.all p with
    | true =>
      have hgroup : group.filter p = group := List.filter_eq_self.2 (List.all_eq_true.1 hall)
      simp [hall, hgroup]
    | false =>
      have hgroup : group.filter p = [] :=
        List.filter_eq_nil_iff.2 fun x hx => by simp [h.1 hall x hx]
      simp [hall, hgroup]

end

theorem holds_of_mem_splitBy {tokens group : List Token} (h : group ∈ tokens.splitBy joins) :
    ∃ run : Run, run.Holds group := by
  have hall := Run.holds_splitBy tokens
  generalize Run.ofTokens tokens = runs at hall
  generalize tokens.splitBy joins = groups at hall h
  induction hall with
  | nil => cases h
  | @cons run held _ _ hrun _ ih =>
    rcases List.mem_cons.1 h with rfl | hmem
    · exact ⟨run, hrun⟩
    · exact ih hmem

theorem flatten_filter_splitBy (p : TokenKind → Bool) (tokens : List Token) :
    ((tokens.splitBy joins).filter fun group => group.all fun token => p token.kind).flatten =
      tokens.filter fun token => p token.kind := by
  rw [flatten_filter_all, List.flatten_splitBy]
  intro group hgroup hother token htoken
  obtain ⟨run, hrun⟩ := holds_of_mem_splitBy hgroup
  rw [hrun.all_kind] at hother
  rw [hrun.kind token htoken, hother]

theorem flatten_resetGroups (tokens : List Token) :
    (resetGroups tokens).flatten = tokens.filter (·.kind == .reset) :=
  flatten_filter_splitBy (· == .reset) tokens

theorem nil_notMem_resetGroups (tokens : List Token) : [] ∉ resetGroups tokens := fun hmem =>
  List.nil_notMem_splitBy joins tokens (List.mem_of_mem_filter hmem)

/-- Reset tokens are apart exactly if each is a group of its own. -/
theorem apartResets_iff (tokens : List Token) :
    ApartResets tokens ↔ ∀ group ∈ resetGroups tokens, group.length = 1 := by
  have hchain {group : List Token} (hgroup : group ∈ tokens.splitBy joins) :
      group.IsChain fun before token => joins before token :=
    List.isChain_of_mem_splitBy hgroup
  have hflatten : ApartResets tokens ↔ ApartResets (tokens.splitBy joins).flatten := by
    rw [List.flatten_splitBy]
  rw [hflatten, ApartResets, List.isChain_flatten (List.nil_notMem_splitBy joins tokens)]
  constructor
  · rintro ⟨hapart, -⟩ group hmem
    obtain ⟨hgroup, hreset⟩ := List.mem_filter.1 hmem
    match group with
    | [] => exact absurd hgroup (List.nil_notMem_splitBy joins tokens)
    | [token] => rfl
    | first :: second :: rest =>
      obtain ⟨hjoins, -⟩ := List.isChain_cons_cons.1 (hchain hgroup)
      obtain ⟨hnot, -⟩ := List.isChain_cons_cons.1 (hapart _ hgroup)
      rw [List.all_cons, Bool.and_eq_true, beq_iff_eq] at hreset
      exact absurd ⟨hreset.1, hjoins⟩ hnot
  · intro hsingle
    refine ⟨fun group hgroup => ?_, ?_⟩
    · obtain ⟨run, hrun⟩ := holds_of_mem_splitBy hgroup
      by_cases hkind : run.kind = .reset
      · have hreset : group.all (·.kind == .reset) := by rw [hrun.all_reset, hkind]; rfl
        obtain ⟨token, rfl⟩ := List.length_eq_one_iff.1
          (hsingle group (List.mem_filter.2 ⟨hgroup, hreset⟩))
        exact .singleton token
      · refine (hchain hgroup).imp_of_mem_imp fun before token hbefore _ _ => ?_
        rintro ⟨hreset, -⟩
        exact hkind ((hrun.kind before hbefore).symm.trans hreset)
    · refine (List.isChain_getLast_head_splitBy joins tokens).imp ?_
      rintro first second ⟨hfirst, hsecond, hends⟩ before hbefore token htoken ⟨-, hjoins⟩
      rw [List.getLast_of_mem_getLast? hbefore, List.head_of_mem_head? htoken, hjoins] at hends
      cases hends

theorem map_ofTokens {groups : List (List Token)} (h : ∀ group ∈ groups, group.length = 1) :
    groups.map Reset.ofTokens = groups.flatten.map fun token => Reset.ofText token.text := by
  induction groups with
  | nil => rfl
  | cons group groups ih =>
    rw [List.forall_mem_cons] at h
    obtain ⟨token, rfl⟩ := List.length_eq_one_iff.1 h.1
    simp [ih h.2, Reset.ofTokens]

/-! ### Whole markup -/

/-- Whether the resets in markup are those that the reset tokens of a rule string are decoded to,
each by itself. -/
def ShowsEachReset (source : List Char) (pieces : List Markup.Token) : Prop :=
  ∃ resets : List Reset,
    ((tokens source).filter (·.kind == .reset)).map (fun token => Reset.ofText token.text) =
      resets.map .ok ∧
    elementsNamed "reset" pieces = some (resets.map Reset.pieces)

/-- Whether the resets in markup are those that the reset tokens of a rule string are decoded to
when they are gathered, which are those of each token by itself exactly if the tokens are apart. -/
def ShowsResets (source : List Char) (pieces : List Markup.Token) : Prop :=
  (∃ resets : List Reset,
    (resetGroups (tokens source)).map Reset.ofTokens = resets.map .ok ∧
    elementsNamed "reset" pieces = some (resets.map Reset.pieces)) ∧
  (ShowsEachReset source pieces ↔ ApartResets (tokens source))

theorem showsEachReset_iff {source : List Char} {pieces : List Markup.Token} {resets : List Reset}
    (hgroups : (resetGroups (tokens source)).map Reset.ofTokens = resets.map .ok)
    (hpieces : elementsNamed "reset" pieces = some (resets.map Reset.pieces)) :
    ShowsEachReset source pieces ↔ ApartResets (tokens source) := by
  rw [apartResets_iff]
  constructor
  · rintro ⟨own, hown, hownPieces⟩
    -- there are as many reset tokens as elements, and as many groups
    have hlength : (resetGroups (tokens source)).flatten.length =
        (resetGroups (tokens source)).length := by
      have hsame : own.length = resets.length := by
        simpa using congrArg List.length (Option.some.inj (hownPieces.symm.trans hpieces))
      have htokens := congrArg List.length hown
      have hall := congrArg List.length hgroups
      rw [List.length_map, List.length_map] at htokens hall
      rw [flatten_resetGroups, htokens, hall, hsame]
    exact length_eq_one_of_flatten (nil_notMem_resetGroups _) hlength
  · intro hsingle
    refine ⟨resets, ?_, hpieces⟩
    rw [← flatten_resetGroups, ← map_ofTokens hsingle, hgroups]

theorem showsResets {source : List Char} (h : Compiler.Compiles source) (s : Settings)
    (indent : Markup.Spacing) (depth : UInt64) :
    ShowsResets source (s.lines.flatMap (line indent depth) ++
      rulesBlock indent depth (Compiler.written source).lines) := by
  obtain ⟨resets, hgroups, hlines⟩ := reads_resets (Run.holds_splitBy (tokens source))
    h.contributions_eq_none indent (depth + 1)
  rw [← Compiler.writtenRuns_eq h.1] at hlines
  have hsettings : Reads (elementsNamed "reset") (s.lines.flatMap (line indent depth)) [] := by
    refine reads_unnamed fun hmem => ?_
    obtain ⟨content, hcontent, hline⟩ := List.mem_flatMap.1 hmem
    exact s.openTag_not_mem content hcontent ((Markup.openTag_mem_line ..).1 hline)
  have hblock : Reads (elementsNamed "reset")
      (rulesBlock indent depth (Compiler.written source).lines) (resets.map Reset.pieces) := by
    unfold rulesBlock
    split
    · rename_i hempty
      have hnil : (Compiler.written source).lines = [] := List.isEmpty_iff.1 hempty
      rw [Compiler.written] at hnil
      simpa [hnil] using hlines
    · exact Markup.reads_named_block indent depth (by decide) hlines
  have hpieces := (hsettings.append hblock).eq_some rfl
  exact ⟨⟨resets, hgroups, hpieces⟩, showsEachReset_iff hgroups hpieces⟩

namespace Compiler

variable (compiler : Compiler) (source : List Char)

theorem exists_showsResets (h : Compiles source) (out : Markup.Builder) :
    ∃ pieces, (compiler.append source out).out.tokens.toList = out.tokens.toList ++ pieces ∧
      ShowsResets source pieces := by
  have hok := (compiler.failure_eq_none_iff source out).2 h
  refine ⟨_, ?_, showsResets h (compiler.declared source) out.indent out.depth⟩
  rw [compiler.out_append_of_ok source hok, Markup.Builder.tokens_add]

/-- The resets in the markup of a rule string that compiles are in order those of its groups of
reset tokens. They are those of each reset token by itself exactly if no two of at most a character
each, neither of them a mark, stand next to each other. -/
theorem append_resets (out : Markup.Builder) (hok : (compiler.append source out).failure = none) :
    (∃ pieces, (compiler.append source out).out.tokens.toList = out.tokens.toList ++ pieces ∧
      ShowsResets source pieces) ∧
    let compiled := (compiler.append source compiler.layout.builder).out.tokens.toList
    (compiler.compile source).1 = .ok (Markup.write .outside compiled).text ∧
      ShowsResets source compiled := by
  have h := (compiler.failure_eq_none_iff source out).1 hok
  refine ⟨exists_showsResets compiler source h out, ?_⟩
  intro compiled
  have hok' := (compiler.failure_eq_none_iff source compiler.layout.builder).2 h
  obtain ⟨pieces, htokens, hshows⟩ := exists_showsResets compiler source h compiler.layout.builder
  have hcompiled : compiled = pieces := htokens
  refine ⟨?_, hcompiled ▸ hshows⟩
  rw [compile_eq, hok']

/-- Resets that are gathered, that stand apart, and that are kept apart by an anchor. -/
theorem append_resets_mixed :
    let source := "&[before 1]ab&c&d<e&[top]&f<g".toList
    let compiled := ({} : Compiler).append source ({} : Compiler).layout.builder
    compiled.failure = none ∧
      (({} : Compiler).compile source).1 =
        .ok (Markup.write .outside compiled.out.tokens.toList).text ∧
      ShowsResets source compiled.out.tokens.toList :=
  ⟨by decide +kernel, (append_resets {} _ { indent := .tab, baseDepth := 0 } (by decide +kernel)).2⟩

/-- Two resets of a character each are joined into one. -/
theorem append_resets_joined :
    let source := "&a&b<c".toList
    let compiled := ({} : Compiler).append source ({} : Compiler).layout.builder
    compiled.failure = none ∧ ¬ShowsEachReset source compiled.out.tokens.toList := by
  intro source compiled
  have hone : (elementsNamed "reset" compiled.out.tokens.toList).map List.length = some 1 := by
    decide +kernel
  have htwo : ((tokens source).filter (·.kind == .reset)).length = 2 := by decide +kernel
  refine ⟨by decide +kernel, ?_⟩
  rintro ⟨resets, hown, hpieces⟩
  have hlength := congrArg List.length hown
  rw [List.length_map, List.length_map, htwo] at hlength
  rw [hpieces, Option.map_some, List.length_map, ← hlength] at hone
  cases hone

end Compiler
end CollationRules
