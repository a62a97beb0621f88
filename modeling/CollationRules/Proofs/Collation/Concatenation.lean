import CollationRules.Proofs.Collation.RuleText
import CollationRules.Proofs.Rule.Opening

/-! Rule strings put one after the other. Where the second begins with a reset, and the first does
not end with one, both are read as they are read alone, and the rules of the second come after those
of the first. -/

namespace CollationRules

open Markup (lineText)

/-! ### Reading -/

theorem atOperator_reset (rest : List Char) : Draft.AtOperator ('&' :: rest) := by
  rintro c ⟨⟩
  rfl

theorem reading_reset (rest : List Char) :
    reading ('&' :: rest) = Pass.laterOutcome ('&' :: rest) := by
  rw [← outcome_source, outcome_read_rules (atOperator_reset rest)]
  rfl

/-- Nothing of a rule string is carried over into a reset. -/
theorem reading_append_reset {first : List Char} (hfirst : syntaxError? first = none)
    (rest : List Char) :
    reading (first ++ '&' :: rest) =
      (lexemes first ++ (reading ('&' :: rest)).1, (reading ('&' :: rest)).2) := by
  rcases Pass.read_cases hfirst with
    ⟨hnil, hread⟩ | ⟨isFirst, found, kind, start, mode, depth, text, hread, hlexemes, hclosed, -⟩
  · rw [← outcome_source, Pass.read_append, hread, outcome_source, hnil]
    rfl
  · have hangle : mode = .angled → ∀ c ∈ ('&' :: rest).head?, c ≠ '<' := by
      rintro - c ⟨⟩
      decide
    rw [← outcome_source, Pass.read_append, hread, Pass.outcome_read_atOperator isFirst found rfl
      hclosed (atOperator_reset rest) hangle, hlexemes, reading_reset]
    rfl

theorem laterOutcome_inRules {rest : List Char} (h : Draft.AtOperator rest) :
    ∀ lexeme ∈ (Pass.laterOutcome rest).1, lexeme.kind.inRules := by
  let s : Scanner := { source := rest, rest, first := false }
  have hlater : (Pass.laterOutcome rest).1 = s.tokens.map Token.lexeme :=
    congrArg Prod.fst (s.outcome_read [])
  rw [hlater, List.forall_mem_map]
  exact Scanner.tokens_inRules rfl h

/-- A rule string that begins with a reset has resets and relations alone, and a reset is the first
of them. -/
theorem lexemes_reset (rest : List Char) :
    (∀ lexeme ∈ lexemes ('&' :: rest), lexeme.kind.inRules) ∧
      ∀ lexeme ∈ (lexemes ('&' :: rest)).head?, lexeme.kind = .reset := by
  have hin : ∀ lexeme ∈ lexemes ('&' :: rest), lexeme.kind.inRules := by
    change ∀ lexeme ∈ (reading ('&' :: rest)).1, lexeme.kind.inRules
    rw [reading_reset]
    exact laterOutcome_inRules (atOperator_reset rest)
  refine ⟨hin, fun lexeme hlexeme => ?_⟩
  rw [TokenKind.eq_reset_iff (hin lexeme (List.mem_of_mem_head? hlexeme)),
    isRelation_head_lexemes _ lexeme hlexeme]
  decide

/-! ### Compiling -/

theorem contributed_append {found others : List Lexeme}
    (h : ∀ next ∈ others.head?, ∀ lexeme ∈ found.getLast?, next.kind ≠ lexeme.kind)
    (hok : (contributed found).2 = none) :
    contributed (found ++ others) =
      ((contributed found).1.append (contributed others).1, (contributed others).2) := by
  have hkinds : ∀ next ∈ (others.map Lexeme.token).head?,
      ∀ token ∈ (found.map Lexeme.token).getLast?, next.kind ≠ token.kind := by
    intro nextToken hnext lastToken hlast
    rw [List.head?_map] at hnext
    rw [List.getLast?_map] at hlast
    obtain ⟨next, hnext', rfl⟩ := Option.map_eq_some_iff.1 hnext
    obtain ⟨last, hlast', rfl⟩ := Option.map_eq_some_iff.1 hlast
    exact h next hnext' last hlast'
  rw [contributed, List.map_append, Run.ofTokens_append hkinds]
  exact contributions_append hok _

/-- The lines of the settings of a rule string, each as text. -/
def settingLines (source : List Char) : List (List Char) :=
  (settingsOf source).lines.map fun content => (Markup.write .outside content).text

/-- The lines in the block of rules of a rule string, each as text. -/
def ruleLines (source : List Char) : List (List Char) :=
  (Compiler.written source).lines.map fun content => (Markup.write .outside content).text

namespace Compiler

/-- Lines of settings and then a block of rules, if there are any, in the layout of a compiler. -/
def markup (compiler : Compiler) (settings rules : List (List Char)) : List Char :=
  settings.flatMap (lineText compiler.layout.indent compiler.layout.depth) ++
    if rules.isEmpty then [] else compiler.rulesBody rules

theorem settingsText_eq (compiler : Compiler) (source : List Char) :
    compiler.settingsText source =
      (settingLines source).flatMap (lineText compiler.layout.indent compiler.layout.depth) := by
  have htext := Markup.text_lines compiler.layout.indent compiler.layout.depth
    (settingsOf source).wellNested_lines []
  rw [List.append_nil] at htext
  rw [settingsText, htext]
  exact List.append_nil _

theorem rulesText_eq (compiler : Compiler) (source : List Char) :
    compiler.rulesText source =
      if (ruleLines source).isEmpty then [] else compiler.rulesBody (ruleLines source) := by
  have hnested : ∀ content ∈ (written source).lines, Markup.WellNested content :=
    fun content hcontent => (contributions_isRuleElement _ content hcontent).wellNested
  rw [rulesText, rulesBlock, ruleLines, List.isEmpty_map]
  split
  · rfl
  · rw [Markup.text_block _ _ _ hnested]
    rfl

theorem Compiles.compile_eq {compiler : Compiler} (hr : compiler.Reached) {source : List Char}
    (h : Compiles source) :
    (compiler.compile source).1 =
      .ok (compiler.markup (settingLines source) (ruleLines source)) := by
  rw [compile_eq_ok_iff hr, settingsText_eq, rulesText_eq]
  exact ⟨h, rfl⟩

theorem settingLines_reset (rest : List Char) : settingLines ('&' :: rest) = [] := by
  have hdeclarations : declarations ('&' :: rest) = [] := by
    rw [declarations_eq, Lexeme.flatMap_declarations_eq_nil (lexemes_reset rest).1]
  rw [settingLines, settingsOf, hdeclarations]
  rfl

theorem Compiles.append_reset {first rest : List Char} (hfirst : Compiles first)
    (hsecond : Compiles ('&' :: rest))
    (hlast : ∀ lexeme ∈ (lexemes first).getLast?, lexeme.kind ≠ .reset) :
    Compiles (first ++ '&' :: rest) ∧
      settingLines (first ++ '&' :: rest) = settingLines first ∧
      ruleLines (first ++ '&' :: rest) = ruleLines first ++ ruleLines ('&' :: rest) := by
  obtain ⟨hin, hhead⟩ := lexemes_reset rest
  have hreading := reading_append_reset hfirst.1 rest
  rw [reading_eq_iff.2 ⟨hsecond.1, rfl⟩, reading_eq_iff] at hreading
  obtain ⟨hscan, hlexemes⟩ := hreading
  have hkinds : ∀ next ∈ (lexemes ('&' :: rest)).head?, ∀ lexeme ∈ (lexemes first).getLast?,
      next.kind ≠ lexeme.kind := by
    intro next hnext lexeme hlexeme
    rw [hhead next hnext]
    exact (hlast lexeme hlexeme).symm
  have hcontributed := contributed_append hkinds hfirst.2
  rw [← hlexemes] at hcontributed
  have hcompiles : Compiles (first ++ '&' :: rest) := ⟨hscan, by rw [hcontributed]; exact hsecond.2⟩
  refine ⟨hcompiles, ?_, ?_⟩
  · have hdeclarations : declarations (first ++ '&' :: rest) = declarations first := by
      rw [declarations_eq, declarations_eq, hlexemes, List.flatMap_append,
        Lexeme.flatMap_declarations_eq_nil hin, List.append_nil]
    rw [settingLines, settingLines, settingsOf, settingsOf, hdeclarations]
  · rw [ruleLines, ruleLines, ruleLines, lines_written hcompiles, lines_written hfirst,
      lines_written hsecond, hcontributed, ← List.map_append]
    rfl

/-- Rule strings are compiled one by one where they meet at a reset: the settings are those of the
first, and the rules of the second come after those of the first. -/
theorem compile_append_reset {compiler : Compiler} (hr : compiler.Reached)
    {first second : List Char} (hfirst : ∃ text, (compiler.compile first).1 = .ok text)
    (hsecond : ∃ text, (compiler.compile second).1 = .ok text)
    (hreset : second.head? = some '&')
    (hlast : ∀ token ∈ (tokens first).getLast?, token.kind ≠ .reset) :
    (compiler.compile first).1 = .ok (compiler.markup (settingLines first) (ruleLines first)) ∧
      (compiler.compile second).1 = .ok (compiler.markup [] (ruleLines second)) ∧
      (compiler.compile (first ++ second)).1 =
        .ok (compiler.markup (settingLines first) (ruleLines first ++ ruleLines second)) := by
  obtain ⟨rest, rfl⟩ := List.head?_eq_some_iff.1 hreset
  obtain ⟨textFirst, hfirst⟩ := hfirst
  obtain ⟨textSecond, hsecond⟩ := hsecond
  obtain ⟨hfirst, -⟩ := (compile_eq_ok_iff hr textFirst).1 hfirst
  obtain ⟨hsecond, -⟩ := (compile_eq_ok_iff hr textSecond).1 hsecond
  have hlast' : ∀ lexeme ∈ (lexemes first).getLast?, lexeme.kind ≠ .reset := by
    intro lexeme hlexeme
    rw [lexemes, List.getLast?_map] at hlexeme
    obtain ⟨token, htoken, rfl⟩ := Option.map_eq_some_iff.1 hlexeme
    exact hlast token htoken
  obtain ⟨hboth, hsettings, hrules⟩ := hfirst.append_reset hsecond hlast'
  refine ⟨hfirst.compile_eq hr, ?_, ?_⟩
  · rw [← settingLines_reset rest]
    exact hsecond.compile_eq hr
  · rw [← hsettings, ← hrules]
    exact hboth.compile_eq hr

/-- Settings and rules, and then a rule string of rules alone. -/
theorem compile_append_reset_numeric :
    let first := "[numeric on]&a<b".toList
    let second := "&c<<'d'".toList
    (∀ token ∈ (tokens first).getLast?, token.kind ≠ .reset) ∧
      (({} : Compiler).compile (first ++ second)).1 =
        .ok (({} : Compiler).markup (settingLines first) (ruleLines first ++ ruleLines second)) ∧
      settingLines first = ["<settings numeric=\"on\"/>".toList] ∧
      ruleLines first = ["<reset>a</reset>".toList, "<p>b</p>".toList] ∧
      ruleLines second = ["<reset>c</reset>".toList, "<s>d</s>".toList] := by
  intro first second
  have hfirst : ∃ text, (({} : Compiler).compile first).1 = .ok text :=
    ⟨"<settings numeric=\"on\"/>\n<rules>\n\t<reset>a</reset>\n\t<p>b</p>\n</rules>\n".toList,
      by decide +kernel⟩
  have hsecond : ∃ text, (({} : Compiler).compile second).1 = .ok text :=
    ⟨"<rules>\n\t<reset>c</reset>\n\t<s>d</s>\n</rules>\n".toList, by decide +kernel⟩
  have hlast : ∀ token ∈ (tokens first).getLast?, token.kind ≠ .reset := by
    have hkind : (tokens first).getLast?.map Token.kind = some (.relation .primary) := by
      decide +kernel
    intro token htoken hreset
    rw [htoken, Option.map_some, hreset] at hkind
    cases hkind
  obtain ⟨-, -, hboth⟩ := compile_append_reset (.new {}) hfirst hsecond rfl hlast
  exact ⟨hlast, hboth, by decide +kernel, by decide +kernel, by decide +kernel⟩

end Compiler
end CollationRules
