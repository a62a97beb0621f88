import CollationRules.Proofs.Collation.Frame
import CollationRules.Proofs.Collation.Names
import CollationRules.Proofs.Collation.RuleReading
import CollationRules.Proofs.Rule.Parts

/-! That merging preserves the rules. The items that are read back from the markup of a rule
string are the resets and the relations among its tokens. -/

namespace CollationRules

open Markup (Name Reads WellNested elements eventsOf line)

/-! ### Tokens as items -/

/-- The reset or the rule that a token is. -/
def Token.item? (token : Token) : Option Item :=
  match token.kind with
  | .reset => some .reset
  | .relation strength => some (.rule ⟨strength, Operand.split token.text⟩)
  | _ => none

/-- The resets and the rules of a rule string, in order. -/
def sourceItems (source : List Char) : List Item := (tokens source).filterMap Token.item?

/-- The rules among items, each with whether a reset stands between it and the rule before it. -/
def placed (afterReset : Bool) : List Item → List (Bool × Rule)
  | [] => []
  | .reset :: rest => placed true rest
  | .rule rule :: rest => (afterReset, rule) :: placed false rest

theorem Token.item?_reset {token : Token} (h : token.kind = .reset) :
    token.item? = some .reset := by
  rw [item?, h]

theorem Token.item?_relation {token : Token} {strength : Strength}
    (h : token.kind = .relation strength) :
    token.item? = some (.rule ⟨strength, Operand.split token.text⟩) := by
  rw [item?, h]

theorem Token.item?_of_not_inRules {token : Token} (h : token.kind.inRules = false) :
    token.item? = none := by
  unfold item?
  split
  · rename_i hkind; rw [hkind] at h; cases h
  · rename_i hkind; rw [hkind] at h; cases h
  · rfl

/-- Simple tokens are their characters, each a rule. -/
theorem items_simple {held : List Token} {strength : Strength}
    (h : ∀ token ∈ held,
      token.kind = .relation strength ∧ isSimple token.text ∧ token.text ≠ []) :
    held.filterMap Token.item? =
      (held.flatMap Token.text).map fun c => .rule (.ofChar strength c) := by
  induction held with
  | nil => rfl
  | cons token rest ih =>
    obtain ⟨hkind, hsimple, hne⟩ := h token List.mem_cons_self
    obtain ⟨c, hc⟩ := isSimple_eq_singleton hsimple hne
    obtain ⟨-, hexpansion, hcontext⟩ := isSimple_iff.1 hsimple
    have hitem : token.item? = some (.rule (.ofChar strength c)) := by
      rw [Token.item?_relation hkind, Operand.split_of_not_mem hexpansion hcontext, hc]
      rfl
    have hrest := ih fun other ho => h other (List.mem_cons_of_mem _ ho)
    rw [List.filterMap_cons_some hitem, List.flatMap_cons, hc, List.map_append, hrest]
    rfl

/-! ### Places of rules -/

/-- That items place the same rules, whatever stands before and after them. -/
def SamePlaces (first second : List Item) : Prop :=
  ∀ afterReset rest, placed afterReset (first ++ rest) = placed afterReset (second ++ rest)

namespace SamePlaces

theorem refl (items : List Item) : SamePlaces items items := fun _ _ => rfl

theorem placed_append {first second : List Item}
    (h : ∀ afterReset, placed afterReset first = placed afterReset second) (before : List Item)
    (afterReset : Bool) :
    placed afterReset (before ++ first) = placed afterReset (before ++ second) := by
  induction before generalizing afterReset with
  | nil => exact h afterReset
  | cons item before ih =>
    cases item with
    | reset => exact ih true
    | rule rule => exact congrArg ((afterReset, rule) :: ·) (ih false)

theorem append {first second others others' : List Item} (h : SamePlaces first second)
    (h' : SamePlaces others others') : SamePlaces (first ++ others) (second ++ others') := by
  intro afterReset rest
  rw [List.append_assoc, List.append_assoc, h]
  exact placed_append (fun afterReset => h' afterReset rest) second afterReset

theorem resets (count : Nat) : SamePlaces [.reset] (List.replicate (count + 1) .reset) := by
  intro afterReset rest
  induction count generalizing afterReset with
  | zero => rfl
  | succ count ih => exact ih true

end SamePlaces

/-! ### Runs as items -/

namespace Run.Holds

variable {run : Run} {held : List Token}

theorem items_resets (h : run.Holds held) (hkind : run.kind = .reset) :
    SamePlaces [.reset] (held.filterMap Token.item?) := by
  have hall : held.filterMap Token.item? = List.replicate held.length .reset := by
    have hitem : ∀ token ∈ held, token.item? = some .reset := fun token ht =>
      Token.item?_reset ((h.kind token ht).trans hkind)
    rw [List.filterMap_congr hitem]
    simp
  obtain ⟨count, hcount⟩ := Nat.exists_eq_succ_of_ne_zero
    (fun heq => h.nonempty (List.length_eq_zero_iff.1 heq))
  rw [hall, hcount]
  exact .resets count

theorem isSimple_of_isSequence (h : run.Holds held) (hsequence : run.isSequence) :
    ∀ token ∈ held, isSimple token.text := by
  refine h.simple ?_
  rw [← h.count]
  simpa [isSequence] using hsequence

theorem items_sequence (h : run.Holds held) {strength : Strength}
    (hkind : run.kind = .relation strength) (hsequence : run.isSequence)
    (hne : ∀ token ∈ held, token.text ≠ []) :
    held.filterMap Token.item? = run.text.map fun c => .rule (.ofChar strength c) := by
  have hsimple := h.isSimple_of_isSequence hsequence
  rw [h.text]
  exact items_simple fun token ht =>
    ⟨(h.kind token ht).trans hkind, hsimple token ht, hne token ht⟩

theorem ofText_sequence (h : run.Holds held) (hsequence : run.isSequence) :
    Operand.ofText run.text = ⟨none, run.text, none⟩ := by
  have hmarks : ∀ token ∈ held, expansionMark ∉ token.text ∧ contextMark ∉ token.text :=
    fun token ht => (isSimple_iff.1 (h.isSimple_of_isSequence hsequence token ht)).2
  rw [Operand.ofText_eq, h.text]
  refine Operand.split_of_not_mem ?_ ?_
  · intro hmem
    obtain ⟨token, ht, hmark⟩ := List.mem_flatMap.1 hmem
    exact (hmarks token ht).1 hmark
  · intro hmem
    obtain ⟨token, ht, hmark⟩ := List.mem_flatMap.1 hmem
    exact (hmarks token ht).2 hmark

theorem eq_singleton (h : run.Holds held) (hsequence : run.isSequence = false) :
    ∃ token, held = [token] := by
  have hpos := List.length_pos_iff.2 h.nonempty
  have hcount : ¬1 < held.length := by
    rw [← h.count]
    simpa [isSequence] using hsequence
  exact List.length_eq_one_iff.1 (by omega)

theorem items_single (h : run.Holds held) {strength : Strength}
    (hkind : run.kind = .relation strength) (hsequence : run.isSequence = false) :
    held.filterMap Token.item? = [.rule ⟨strength, Operand.ofText run.text⟩] := by
  obtain ⟨token, rfl⟩ := h.eq_singleton hsequence
  have hitem := Token.item?_relation ((h.kind token (by simp)).trans hkind)
  rw [List.filterMap_cons_some hitem, h.text, Operand.ofText_eq]
  simp

/-- The lines of a run are read back as the tokens that it holds. -/
theorem reads_lines (h : run.Holds held) {contribution : Contribution}
    (hok : run.contribution = .ok contribution)
    (hne : ∀ token ∈ held, token.kind.isRelation → token.text ≠ [])
    (indent : Markup.Spacing) (depth : UInt64) :
    ∃ found, Reads readLines (eventsOf (contribution.lines.flatMap (line indent depth))) found ∧
      SamePlaces found (held.filterMap Token.item?) := by
  have hline {content : List Markup.Token} {found : List Item}
      (hread : Reads readLines (eventsOf content) found) :
      Reads readLines (eventsOf ([content].flatMap (line indent depth))) found := by
    rw [List.flatMap_singleton]
    exact Markup.reads_line indent depth reads_spacing_lines hread
  rcases contribution_cases hok with
    ⟨hin, hlines⟩ | ⟨hkind, reset, -, rfl⟩ | ⟨strength, hkind, rfl⟩
  · have hnone : held.filterMap Token.item? = [] :=
      List.filterMap_eq_nil_iff.2 fun token ht =>
        Token.item?_of_not_inRules (by rw [h.kind token ht, hin])
    rw [hlines, hnone]
    exact ⟨[], .nil, .refl []⟩
  · exact ⟨_, hline reset.reads_pieces, h.items_resets hkind⟩
  · have hne' : ∀ token ∈ held, token.text ≠ [] := fun token ht =>
      hne token ht (by rw [h.kind token ht, hkind]; rfl)
    cases hsequence : run.isSequence with
    | true =>
      rw [h.items_sequence hkind hsequence hne', h.ofText_sequence hsequence]
      exact ⟨_, hline (Operand.reads_simple run.text strength true), .refl _⟩
    | false =>
      rw [h.items_single hkind hsequence]
      exact ⟨_, hline (Operand.reads_pieces _ strength), .refl _⟩

end Run.Holds

/-- The lines of runs are read back as the tokens that they hold. -/
theorem reads_contributions {runs : List Run} {groups : List (List Token)}
    (hall : List.Forall₂ Run.Holds runs groups) (hok : (contributions runs).2 = none)
    (hne : ∀ token ∈ groups.flatten, token.kind.isRelation → token.text ≠ [])
    (indent : Markup.Spacing) (depth : UInt64) :
    ∃ found,
      Reads readLines (eventsOf ((contributions runs).1.lines.flatMap (line indent depth))) found ∧
      SamePlaces found (groups.flatten.filterMap Token.item?) := by
  refine lines_induction (P := fun groups lines =>
    (∀ token ∈ groups.flatten, token.kind.isRelation → token.text ≠ []) →
      ∃ found, Reads readLines (eventsOf (lines.flatMap (line indent depth))) found ∧
        SamePlaces found (groups.flatten.filterMap Token.item?))
    hall hok (fun _ => ⟨[], .nil, .refl []⟩) ?_ (fun h hcontribution hne => ?_) hne
  · intro groups others lines lines' hfirst hrest hne
    simp only [List.flatten_append, List.mem_append] at hne
    obtain ⟨first, hfirst, hsame⟩ := hfirst fun token ht => hne token (.inl ht)
    obtain ⟨rest, hrest, hsame'⟩ := hrest fun token ht => hne token (.inr ht)
    refine ⟨first ++ rest, ?_, ?_⟩
    · rw [List.flatMap_append, Markup.eventsOf_append]
      exact hfirst.append hrest
    · rw [List.flatten_append, List.filterMap_append]
      exact hsame.append hsame'
  · rw [List.flatten_singleton] at hne ⊢
    exact h.reads_lines hcontribution hne indent depth

/-! ### Whole markup -/

def Settings.elements (s : Settings) : List Markup.Element :=
  (if s.attributes.isEmpty then [] else [⟨"settings", []⟩]) ++
    s.directives.map fun directive => ⟨directive.kind.markup, directive.set.map .character⟩

theorem Settings.reads_lines (s : Settings) (indent : Markup.Spacing) (depth : UInt64) :
    Reads Markup.elements (eventsOf (s.lines.flatMap (line indent depth))) s.elements := by
  have hline {content : List Markup.Token} {found : List Markup.Element}
      (hread : Reads Markup.elements (eventsOf content) found) :
      Reads Markup.elements (eventsOf (line indent depth content)) found :=
    Markup.reads_line indent depth Markup.reads_spacing_elements hread
  rw [lines, List.flatMap_append, Markup.eventsOf_append]
  refine .append ?_ ?_
  · rw [List.isEmpty_map]
    split
    · exact .nil
    · rw [List.flatMap_singleton]
      exact hline (Markup.reads_emptyElement _ _)
  · rw [List.flatMap_map, Markup.eventsOf_flatMap, List.map_eq_flatMap]
    exact .flatMap fun directive _ => hline (Markup.reads_elementPieces _ _)

theorem Settings.elements_cases {s : Settings} {element : Markup.Element}
    (h : element ∈ s.elements) :
    element = ⟨"settings", []⟩ ∨
      ∃ (kind : DirectiveKind) (set : List Char), element = ⟨kind.markup, set.map .character⟩ := by
  rcases List.mem_append.1 h with hmem | hmem
  · split at hmem
    · cases hmem
    · exact .inl (List.mem_singleton.1 hmem)
  · obtain ⟨⟨kind, set⟩, -, rfl⟩ := List.mem_map.1 hmem
    exact .inr ⟨kind, set, rfl⟩

theorem Settings.elements_name (s : Settings) : ∀ element ∈ s.elements, element.name ≠ "rules" := by
  intro element helement
  rcases elements_cases helement with rfl | ⟨kind, set, rfl⟩
  · decide
  · cases kind <;> simp [DirectiveKind.markup]

/-- The outermost elements of a text. -/
def readOuter (text : List Char) : Option (List Markup.Element) :=
  (Markup.read text).bind Markup.elements

/-- The outermost elements are those of the settings, and the block of rules if there are any. -/
theorem readOuter_eq (s : Settings) (indent : Markup.Spacing) (depth : UInt64)
    {rules : List (List Markup.Token)} (hrules : ∀ content ∈ rules, IsRuleElement content) :
    readOuter (Markup.write .outside
      (s.lines.flatMap (line indent depth) ++ rulesBlock indent depth rules)).text =
      some (s.elements ++ if rules.isEmpty then []
        else [⟨"rules", eventsOf (Markup.blockContent indent depth rules)⟩]) := by
  have hnested :
      WellNested (s.lines.flatMap (line indent depth) ++ rulesBlock indent depth rules) :=
    (s.wellNested_flatMap_line indent depth).append (wellNested_rulesBlock indent depth hrules)
  have hplain : (s.lines.flatMap (line indent depth) ++ rulesBlock indent depth rules).all
      Markup.Token.isPlain := by
    rw [List.all_append, all_isPlain_lines indent depth (s.all_lines .isPlain),
      all_isPlain_rulesBlock indent depth hrules]
    rfl
  have hblock : Reads Markup.elements (eventsOf (rulesBlock indent depth rules))
      (if rules.isEmpty then []
        else [⟨"rules", eventsOf (Markup.blockContent indent depth rules)⟩]) := by
    unfold rulesBlock
    split
    · exact .nil
    · exact Markup.reads_block indent depth "rules" fun content hc => (hrules content hc).wellNested
  have houter := (s.reads_lines indent depth).append hblock
  rw [← Markup.eventsOf_append] at houter
  rw [readOuter, hnested.read_text hplain, Option.bind_some, houter.eq_some rfl]

theorem Settings.filter_elements (s : Settings) :
    (s.elements.filter fun element => decide (element.name = "rules")) = [] :=
  List.filter_eq_nil_iff.2 fun element helement => by simp [s.elements_name element helement]

/-- What is read from settings and a block of rules is what is read from the lines of the block. -/
theorem readItems_eq (s : Settings) (indent : Markup.Spacing) (depth : UInt64)
    {rules : List (List Markup.Token)} (hrules : ∀ content ∈ rules, IsRuleElement content)
    {found : List Item}
    (hfound : Reads readLines (eventsOf (rules.flatMap (line indent (depth + 1)))) found) :
    readItems (Markup.write .outside
      (s.lines.flatMap (line indent depth) ++ rulesBlock indent depth rules)).text =
        some found := by
  have hitems (text : List Char) : readItems text = (readOuter text).bind fun outer =>
      readLines ((outer.filter (·.name = "rules")).flatMap Markup.Element.content) := by
    rw [readOuter, Option.bind_assoc]
    rfl
  have hlines := Markup.reads_blockContent indent depth reads_spacing_lines hfound
  -- of the outermost elements only the block is left, which has no line if there are no rules
  rw [hitems, readOuter_eq s indent depth hrules, Option.bind_some, List.filter_append,
    s.filter_elements]
  cases rules with
  | nil => simpa using hfound.eq_some rfl
  | cons content rest => simpa using hlines.eq_some rfl

/-- Whether a text is markup from which the rules of a rule string can be read, in order and each in
its place with regard to the resets. -/
def Preserves (source : List Char) (text : List Char) : Prop :=
  ∃ found, readItems text = some found ∧ placed false found = placed false (sourceItems source)

namespace Compiler

variable (compiler : Compiler) (source : List Char)

theorem exists_preserves (out : Markup.Builder) (hok : (compiler.append source out).failure = none)
    (hne : ∀ token ∈ tokens source, token.kind.isRelation → token.text ≠ []) :
    ∃ pieces, (compiler.append source out).out.tokens.toList = out.tokens.toList ++ pieces ∧
      Preserves source (Markup.write .outside pieces).text := by
  obtain ⟨groups, hflatten, hall⟩ := Run.holds_ofTokens (tokens source)
  obtain ⟨found, hread, hsame⟩ := reads_contributions hall (contributions_eq_none hok)
    (by rwa [hflatten]) out.indent (out.depth + 1)
  -- without an error in the syntax the last run is written too
  rw [← writtenRuns_eq (syntaxError?_eq_none hok)] at hread
  refine ⟨_, ?_, found, readItems_eq (compiler.declared source) out.indent out.depth
    (contributions_isRuleElement _) hread, ?_⟩
  · rw [compiler.out_append_of_ok source hok, Markup.Builder.tokens_add]
    rfl
  · simpa [sourceItems, hflatten] using hsame false []

/-- Where no relation is empty, merging preserves the rules: what is read from the markup of a rule
string are the relations among its tokens, in order, each with its own strength and parts, and with
a reset between it and the one before exactly if there is one between the two tokens. -/
theorem append_preserves (out : Markup.Builder) (hok : (compiler.append source out).failure = none)
    (hne : ∀ token ∈ tokens source, token.kind.isRelation → token.text ≠ []) :
    (∃ pieces, (compiler.append source out).out.tokens.toList = out.tokens.toList ++ pieces ∧
      Preserves source (Markup.write .outside pieces).text) ∧
    ∃ text, (compiler.compile source).1 = .ok text ∧ Preserves source text := by
  refine ⟨exists_preserves compiler source out hok hne, ?_⟩
  have hok' : (compiler.append source compiler.layout.builder).failure = none := by
    rw [failure_append] at hok ⊢
    exact hok
  obtain ⟨pieces, htokens, hpreserves⟩ := exists_preserves compiler source _ hok' hne
  refine ⟨_, ?_, hpreserves⟩
  rw [compile_eq, hok', htokens]
  rfl

/-- Two sequences, a contraction, a context with two extensions, and resets between them. -/
theorem append_preserves_mixed :
    let source := "[strength 2]&a<b<c<de&'|'<<f<<g|h/i/j&k&l=m".toList
    (({} : Compiler).append source { indent := .tab, baseDepth := 0 }).failure = none ∧
      (∀ token ∈ tokens source, token.kind.isRelation → token.text ≠ []) ∧
      ∃ text, (({} : Compiler).compile source).1 = .ok text ∧ Preserves source text :=
  ⟨by decide +kernel, by decide +kernel,
    (append_preserves {} _ { indent := .tab, baseDepth := 0 } (by decide +kernel)
      (by decide +kernel)).2⟩

end Compiler
end CollationRules
