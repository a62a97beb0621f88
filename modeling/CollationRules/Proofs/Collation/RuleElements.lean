import CollationRules.Proofs.Collation.Preservation
import CollationRules.Proofs.Collation.Resets

/-! The elements in a block of rules. Each of them stands for a group of tokens that are gathered in
one run: it is a reset, the sequence of several rules, or a rule by itself, which is in an element
with its other parts if it has any. -/

namespace CollationRules

open Markup (Element Reads elements eventsOf line elementPieces)

/-- The resets and the rules among tokens in groups, each of which is gathered in one run. -/
def ruleGroups (tokens : List Token) : List (List Token) :=
  (tokens.splitBy joins).filter fun group => group.all (·.kind.inRules)

/-- How a group of tokens is written. -/
inductive StandsAs : List Token → Element → Prop
  | reset {group : List Token} {reset : Reset} (hkind : ∀ token ∈ group, token.kind = .reset)
      (hreset : Reset.ofTokens group = .ok reset) :
      StandsAs group ⟨"reset", eventsOf reset.position.pieces⟩
  | sequence {group : List Token} {strength : Strength} (hseveral : 1 < group.length)
      (hkind : ∀ token ∈ group, token.kind = .relation strength)
      (hsimple : ∀ token ∈ group, isSimple token.text) :
      StandsAs group
        ⟨strength.element true, (group.flatMap Token.text).map .character⟩
  | single {token : Token} {strength : Strength} (hkind : token.kind = .relation strength)
      (hplain : Operand.split token.text = ⟨none, token.text, none⟩) :
      StandsAs [token] ⟨strength.element false, token.text.map .character⟩
  | compound {token : Token} {strength : Strength} {content : List Markup.Event}
      (hkind : token.kind = .relation strength)
      (hcompound : (Operand.split token.text).isCompound)
      (hparts : elements content =
        some ((Operand.split token.text).parts (strength.element false))) :
      StandsAs [token] ⟨"x", content⟩

/-- The elements in each block of rules of a text. -/
def readBlocks (text : List Char) : Option (List (List Element)) := do
  let outer ← readOuter text
  (outer.filter (·.name = "rules")).mapM fun block => elements block.content

/-! ### Groups -/

theorem Operand.split_of_not_isCompound {text : List Char} (h : (split text).isCompound = false) :
    split text = ⟨none, text, none⟩ := by
  by_cases hmark : expansionMark ∈ text
  · have hextension : (split text).extension.isSome := by
      unfold split
      simp only [if_pos hmark]
      split <;> rfl
    simp [isCompound, hextension] at h
  · have hbefore : text.takeWhile (· != expansionMark) = text := takeWhile_of_not_mem hmark
    unfold split at h ⊢
    simp only [if_neg hmark, hbefore] at h ⊢
    split at h
    · simp [isCompound] at h
    · rename_i hcontext
      rw [if_neg hcontext]

theorem flatten_ruleGroups (tokens : List Token) :
    (ruleGroups tokens).flatten = tokens.filter (·.kind.inRules) :=
  flatten_filter_splitBy TokenKind.inRules tokens

theorem nil_notMem_ruleGroups (tokens : List Token) : [] ∉ ruleGroups tokens := fun hmem =>
  List.nil_notMem_splitBy joins tokens (List.mem_of_mem_filter hmem)

theorem ruleGroups_ne_nil_iff (tokens : List Token) :
    ruleGroups tokens ≠ [] ↔ ∃ token ∈ tokens, token.kind.inRules := by
  have hflatten : ruleGroups tokens = [] ↔ (ruleGroups tokens).flatten = [] := by
    rw [List.flatten_eq_nil_iff]
    constructor
    · intro hnil group hgroup
      rw [hnil] at hgroup
      cases hgroup
    · intro hall
      by_contra hne
      obtain ⟨group, hgroup⟩ := List.exists_mem_of_ne_nil _ hne
      exact nil_notMem_ruleGroups tokens (hall group hgroup ▸ hgroup)
  rw [ne_eq, hflatten, flatten_ruleGroups, List.filter_eq_nil_iff]
  simp

/-! ### Lines as elements -/

theorem Run.Holds.standsAs {run : Run} {held : List Token} (h : run.Holds held)
    {contribution : Contribution} (hok : run.contribution = .ok contribution)
    (indent : Markup.Spacing) (depth : UInt64) :
    ∃ children,
      List.Forall₂ StandsAs ([held].filter fun group => group.all (·.kind.inRules)) children ∧
      Reads elements (eventsOf (contribution.lines.flatMap (line indent depth))) children := by
  have hline {content : List Markup.Token} {element : Element}
      (hread : Reads elements (eventsOf content) [element]) :
      Reads elements (eventsOf ([content].flatMap (line indent depth))) [element] := by
    rw [List.flatMap_singleton]
    exact Markup.reads_line indent depth Markup.reads_spacing_elements hread
  have hfilter : ([held].filter fun group => group.all (·.kind.inRules)) =
      if run.kind.inRules then [held] else [] := by
    rw [List.filter_singleton, h.all_kind]
    cases run.kind.inRules <;> rfl
  rw [hfilter]
  rcases contribution_cases hok with
    ⟨hin, hlines⟩ | ⟨hkind, reset, hreset, rfl⟩ | ⟨strength, hkind, rfl⟩
  · rw [hlines, hin]
    exact ⟨[], .nil, .nil⟩
  · rw [h.text] at hreset
    refine ⟨_, ?_, hline (Markup.reads_element "reset" _ reset.position.wellNested_pieces)⟩
    rw [hkind]
    exact .cons (.reset (fun token ht => (h.kind token ht).trans hkind) hreset) .nil
  · have hkinds : ∀ token ∈ held, token.kind = .relation strength := fun token ht =>
      (h.kind token ht).trans hkind
    rw [hkind]
    cases hsequence : run.isSequence with
    | true =>
      have hseveral : 1 < held.length := by
        rw [← h.count]
        simpa [isSequence] using hsequence
      rw [h.ofText_sequence hsequence, Operand.pieces_alone]
      refine ⟨_, ?_, hline (Markup.reads_elementPieces _ _)⟩
      rw [h.text]
      exact .cons (.sequence hseveral hkinds (h.isSimple_of_isSequence hsequence)) .nil
    | false =>
      obtain ⟨token, rfl⟩ := h.eq_singleton hsequence
      have htext : run.text = token.text := by simp [h.text]
      have htoken := hkinds token (by simp)
      rw [Operand.ofText_eq, htext]
      cases hcompound : (Operand.split token.text).isCompound with
      | true =>
        have hnested := (Operand.split token.text).wellNested_partPieces (strength.element false)
        have hparts := (Operand.split token.text).reads_partPieces (strength.element false)
        rw [Operand.pieces, if_pos hcompound]
        exact ⟨_, .cons (.compound htoken hcompound (hparts.eq_some rfl)) .nil,
          hline (Markup.reads_element "x" [] hnested)⟩
      | false =>
        have hplain := Operand.split_of_not_isCompound hcompound
        rw [hplain, Operand.pieces_alone]
        exact ⟨_, .cons (.single htoken hplain) .nil, hline (Markup.reads_elementPieces _ _)⟩

theorem reads_ruleGroups {runs : List Run} {groups : List (List Token)}
    (hall : List.Forall₂ Run.Holds runs groups) (hok : (contributions runs).2 = none)
    (indent : Markup.Spacing) (depth : UInt64) :
    ∃ children,
      List.Forall₂ StandsAs (groups.filter fun group => group.all (·.kind.inRules)) children ∧
      Reads elements (eventsOf ((contributions runs).1.lines.flatMap (line indent depth)))
        children := by
  refine lines_induction (P := fun groups lines => ∃ children,
    List.Forall₂ StandsAs (groups.filter fun group => group.all (·.kind.inRules)) children ∧
    Reads elements (eventsOf (lines.flatMap (line indent depth))) children)
    hall hok ⟨[], .nil, .nil⟩ ?_ fun h hcontribution => h.standsAs hcontribution indent depth
  rintro groups others lines lines' ⟨first, hfirst, hreads⟩ ⟨rest, hrest, hreads'⟩
  refine ⟨first ++ rest, ?_, ?_⟩
  · rw [List.filter_append]
    exact List.rel_append hfirst hrest
  · rw [List.flatMap_append, Markup.eventsOf_append]
    exact hreads.append hreads'

/-! ### Whole markup -/

theorem readBlocks_eq (s : Settings) (indent : Markup.Spacing) (depth : UInt64)
    {rules : List (List Markup.Token)} (hrules : ∀ content ∈ rules, IsRuleElement content)
    {children : List Element}
    (hread : Reads elements (eventsOf (rules.flatMap (line indent (depth + 1)))) children) :
    readBlocks (Markup.write .outside
      (s.lines.flatMap (line indent depth) ++ rulesBlock indent depth rules)).text =
      some (if rules.isEmpty then [] else [children]) := by
  have hcontent := Markup.reads_blockContent indent depth Markup.reads_spacing_elements hread
  rw [readBlocks, readOuter_eq s indent depth hrules, Option.bind_eq_bind, Option.bind_some,
    List.filter_append, s.filter_elements]
  cases rules with
  | nil => rfl
  | cons content rest => simp [hcontent.eq_some rfl]

namespace Compiler

theorem exists_children {compiler : Compiler} (hr : compiler.Reached) {source text : List Char}
    (h : (compiler.compile source).1 = .ok text) :
    ∃ children blocks, List.Forall₂ StandsAs (ruleGroups (tokens source)) children ∧
      readOuter text = some ((settingsOf source).elements ++ blocks) ∧
      (∀ block ∈ blocks, block.name = "rules") ∧
      readBlocks text = some (if children.isEmpty then [] else [children]) := by
  obtain ⟨hcompiles, rfl⟩ := (compile_eq_ok_iff hr text).1 h
  obtain ⟨children, hall, hread⟩ :
      ∃ children, List.Forall₂ StandsAs (ruleGroups (tokens source)) children ∧
        Reads elements (eventsOf ((written source).lines.flatMap
          (line compiler.layout.indent (compiler.layout.depth + 1)))) children := by
    rw [written, writtenRuns_eq hcompiles.1]
    exact reads_ruleGroups (Run.holds_splitBy _) hcompiles.contributions_eq_none _ _
  have hempty : (written source).lines = [] ↔ children = [] := by
    have hok := (compiler.failure_eq_none_iff source compiler.layout.builder).2 hcompiles
    have hlines := lines_written_ne_nil_iff hok
    rw [← ruleGroups_ne_nil_iff, not_iff_not] at hlines
    rw [hlines, ← List.length_eq_zero_iff, ← List.length_eq_zero_iff, hall.length_eq]
  have hnested := ((settingsOf source).wellNested_flatMap_line compiler.layout.indent
    compiler.layout.depth).write_outside
  have hrules : ∀ content ∈ (written source).lines, IsRuleElement content :=
    contributions_isRuleElement _
  have hblocks := readBlocks_eq (settingsOf source) compiler.layout.indent compiler.layout.depth
    hrules hread
  simp only [List.isEmpty_iff, hempty] at hblocks
  rw [settingsText, rulesText, ← Markup.text_append_of_ok hnested]
  refine ⟨children, _, hall, readOuter_eq _ _ _ hrules, fun block hblock => ?_, ?_⟩
  · split at hblock
    · cases hblock
    · rw [List.mem_singleton.1 hblock]
  · simpa only [List.isEmpty_iff] using hblocks

end Compiler
end CollationRules
