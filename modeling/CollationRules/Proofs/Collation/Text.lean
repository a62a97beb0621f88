import CollationRules.Proofs.Collation.Balance
import CollationRules.Proofs.Collation.Frame
import CollationRules.Proofs.Rule.Pass

/-! The text that a rule string is compiled to. It depends on what the tokens are and not on where
they stand: the text of the settings that they declare comes first, and then that of the rules. -/

namespace CollationRules

open Markup (line)

/-! ### Runs without places -/

def Lexeme.token (lexeme : Lexeme) : Token := ⟨lexeme.kind, lexeme.text, .nowhere⟩

def Lexeme.declarations (lexeme : Lexeme) : List Declaration := lexeme.token.declarations

def Run.unplaced (run : Run) : Run := { run with span := .nowhere }

def ConfigError.unplaced (error : ConfigError) : ConfigError := { error with span := .nowhere }

theorem Run.unplaced_add (run : Run) (token : Token) :
    (run.add token).unplaced = run.unplaced.add token.lexeme.token := by
  simp [unplaced, add, Lexeme.token, Token.lexeme]

theorem Run.unplaced_gather (run : Run) (tokens : List Token) :
    (run.gather tokens).map unplaced =
      run.unplaced.gather (tokens.map fun token => token.lexeme.token) := by
  induction tokens generalizing run with
  | nil => rfl
  | cons token rest ih =>
    have haccepts : run.unplaced.accepts token.lexeme.token = run.accepts token := rfl
    rw [List.map_cons, gather, gather, haccepts]
    split
    · rw [ih, unplaced_add]
    · rw [List.map_cons, ih]
      rfl

theorem Run.unplaced_ofTokens (tokens : List Token) :
    (ofTokens tokens).map unplaced =
      ofTokens ((tokens.map Token.lexeme).map Lexeme.token) := by
  cases tokens with
  | nil => rfl
  | cons token rest =>
    rw [List.map_map]
    exact unplaced_gather (ofToken token) rest

theorem Run.contribution_unplaced (run : Run) :
    run.unplaced.contribution = run.contribution.mapError ConfigError.unplaced := by
  obtain ⟨kind, text, count, last, span⟩ := run
  unfold contribution unplaced
  cases kind with
  | setting =>
    simp only
    cases Declaration.ofText text <;> rfl
  | reset =>
    simp only
    cases Reset.ofText text <;> rfl
  | _ => rfl

theorem contributions_unplaced (runs : List Run) :
    contributions (runs.map Run.unplaced) =
      ((contributions runs).1, (contributions runs).2.map ConfigError.unplaced) := by
  induction runs with
  | nil => rfl
  | cons run rest ih =>
    rw [List.map_cons, contributions, contributions, run.contribution_unplaced, ih]
    cases run.contribution <;> rfl

def contributed (lexemes : List Lexeme) : Contribution × Option ConfigError :=
  contributions (Run.ofTokens (lexemes.map Lexeme.token))

theorem contributed_lexemes (source : List Char) :
    contributed (lexemes source) =
      ((contributions (Run.ofTokens (tokens source))).1,
        (contributions (Run.ofTokens (tokens source))).2.map ConfigError.unplaced) := by
  rw [contributed, lexemes, ← Run.unplaced_ofTokens, contributions_unplaced]

theorem declarations_eq (source : List Char) :
    declarations source = (lexemes source).flatMap Lexeme.declarations := by
  rw [declarations, lexemes, List.flatMap_map]
  rfl

theorem lexemes_tail_inRules (source : List Char) :
    ∀ lexeme ∈ (lexemes source).tail, lexeme.kind.inRules := by
  rw [lexemes, ← List.map_tail, List.forall_mem_map]
  exact tokens_tail_inRules source

/-- A token of settings is a run of its own. -/
theorem contributed_setting (text : List Char) {rest : List Lexeme}
    (hrest : ∀ lexeme ∈ rest, lexeme.kind.inRules) :
    contributed (⟨.setting, text⟩ :: rest) =
      match Declaration.ofText text with
      | .ok declarations =>
        (({ declarations } : Contribution).append (contributed rest).1, (contributed rest).2)
      | .error cause => ({}, some ⟨cause, .nowhere⟩) := by
  have hnext : ∀ next ∈ (rest.map Lexeme.token).head?, next.kind ≠ .setting := by
    intro next hnext hkind
    obtain ⟨lexeme, hlexeme, rfl⟩ := List.mem_map.1 (List.mem_of_mem_head? hnext)
    have hin := hrest lexeme hlexeme
    rw [show lexeme.kind = .setting from hkind] at hin
    cases hin
  rw [contributed, List.map_cons, Run.ofTokens_cons hnext, contributions]
  simp only [Run.contribution, Run.ofToken, Lexeme.token]
  cases Declaration.ofText text <;> rfl

theorem Lexeme.flatMap_declarations_eq_nil {lexemes : List Lexeme}
    (h : ∀ lexeme ∈ lexemes, lexeme.kind.inRules) : lexemes.flatMap declarations = [] :=
  List.flatMap_eq_nil_iff.2 fun lexeme hlexeme =>
    (Token.declarations_of_inRules (h lexeme hlexeme) : lexeme.token.declarations = [])

/-! ### Texts -/

namespace Compiler

variable (compiler : Compiler) (source : List Char)

/-- Whether a rule string compiles, which no compiler has a part in. -/
def Compiles : Prop := syntaxError? source = none ∧ (contributed (lexemes source)).2 = none

def settingsText : List Char :=
  (Markup.write .outside ((settingsOf source).lines.flatMap
    (line compiler.layout.indent compiler.layout.depth))).text

def rulesText : List Char :=
  (Markup.write .outside (rulesBlock compiler.layout.indent compiler.layout.depth
    (written source).lines)).text

theorem failure_eq_none_iff (out : Markup.Builder) :
    (compiler.append source out).failure = none ↔ Compiles source := by
  rw [Compiles, contributed_lexemes, failure_append, Option.or_eq_none_iff, Option.map_eq_none_iff,
    Option.map_eq_none_iff, Option.map_eq_none_iff, and_comm]
  constructor
  · rintro ⟨hscan, hconfig⟩
    rw [writtenRuns_eq hscan] at hconfig
    exact ⟨hscan, hconfig⟩
  · rintro ⟨hscan, hconfig⟩
    rw [← writtenRuns_eq hscan] at hconfig
    exact ⟨hscan, hconfig⟩

variable {compiler source}

theorem Compiles.contributions_eq_none (h : Compiles source) :
    (contributions (Run.ofTokens (tokens source))).2 = none := by
  have hcontributed := h.2
  rw [contributed_lexemes] at hcontributed
  exact Option.map_eq_none_iff.1 hcontributed

theorem lines_written (h : Compiles source) :
    (written source).lines = (contributed (lexemes source)).1.lines := by
  rw [contributed_lexemes, written, writtenRuns_eq h.1]

/-- The markup of a rule string that compiles is that of its settings and then that of its rules. -/
theorem compile_eq_ok_iff (hr : compiler.Reached) (text : List Char) :
    (compiler.compile source).1 = .ok text ↔
      Compiles source ∧ text = compiler.settingsText source ++ compiler.rulesText source := by
  rw [← compiler.failure_eq_none_iff source compiler.layout.builder, compile_eq]
  cases hok : (compiler.append source compiler.layout.builder).failure with
  | some failure => simp
  | none =>
    have hpieces : (compiler.append source compiler.layout.builder).out.tokens.toList =
        (settingsOf source).lines.flatMap (line compiler.layout.indent compiler.layout.depth) ++
          rulesBlock compiler.layout.indent compiler.layout.depth (written source).lines := by
      rw [compiler.out_append_of_ok source hok, Markup.Builder.tokens_add,
        declared_eq hr (syntaxError?_eq_none hok), Layout.indent_builder, Layout.depth_builder]
      rfl
    have hsettings := ((settingsOf source).wellNested_flatMap_line compiler.layout.indent
      compiler.layout.depth).write_outside
    have htext : (Markup.write .outside
        (compiler.append source compiler.layout.builder).out.tokens.toList).text =
          compiler.settingsText source ++ compiler.rulesText source := by
      rw [hpieces, Markup.text_append_of_ok hsettings]
      rfl
    simp only [htext, true_and, Except.ok.injEq, eq_comm]

end Compiler
end CollationRules
