import CollationRules.Proofs.Rule.Pass

/-! Quoting. A text between quote marks in which every quote mark is doubled is read as it is, so
that a rule string whose operands are quoted has one token for each of them. -/

namespace CollationRules

/-! ### Writing -/

def doubled (text : List Char) : List Char :=
  text.flatMap fun c => if c = '\'' then ['\'', '\''] else [c]

def quote (text : List Char) : List Char := '\'' :: doubled text ++ ['\'']

theorem doubled_cons (c : Char) (text : List Char) :
    doubled (c :: text) = (if c = '\'' then ['\'', '\''] else [c]) ++ doubled text := rfl

/-- The operators as they are written. Two strengths have two spellings. -/
inductive Operator
  | ampersand
  | less
  | lessLess
  | lessLessLess
  | semicolon
  | comma
  | equals
deriving DecidableEq, Repr

namespace Operator

def text : Operator → List Char
  | ampersand => ['&']
  | less => ['<']
  | lessLess => ['<', '<']
  | lessLessLess => ['<', '<', '<']
  | semicolon => [';']
  | comma => [',']
  | equals => ['=']

def kind : Operator → TokenKind
  | ampersand => .reset
  | less => .relation .primary
  | lessLess | semicolon => .relation .secondary
  | lessLessLess | comma => .relation .tertiary
  | equals => .relation .identical

def implied : Operator → List Lexeme
  | ampersand => []
  | _ => [⟨.reset, Draft.implicitReset⟩]

end Operator

/-- An operator and a text, and what is skipped before the operator, between it and the text, and
after the text. The text has no expansion mark, and some character that is not a quote mark. -/
structure QuotedRule where
  operator : Operator
  text : List Char
  before : List Char := []
  between : List Char := []
  after : List Char := []
  unmarked : expansionMark ∉ text
  letter : ∃ c ∈ text, c ≠ '\''
  skipped : ∀ c ∈ before ++ between ++ after, isSkipped c

namespace QuotedRule

def written (rule : QuotedRule) : List Char :=
  rule.before ++ rule.operator.text ++ rule.between ++ quote rule.text ++ rule.after

def lexeme (rule : QuotedRule) : Lexeme := ⟨rule.operator.kind, rule.text⟩

end QuotedRule

def impliedBefore : List QuotedRule → List Lexeme
  | [] => []
  | rule :: _ => rule.operator.implied

/-! ### Reading a quoted text -/

/-- A quote mark outside of quotes, where none directly before it has ended a quoted section. -/
theorem Draft.step_quote (first : Bool) (kind : TokenKind) {mode : Mode}
    (h : mode = .plain ∨ mode = .angled) (depth : Nat) (text : Array Char) :
    (⟨some kind, none, mode, depth, text⟩ : Draft).step first 0 '\'' =
      .take ⟨some kind, some 0, .opened 0, depth, text⟩ := by
  have hskipped : isSkipped '\'' = false := by decide
  rcases h with rfl | rfl <;> simp [step, stepPlain, stepInside, operator?, hskipped]

namespace Pass

variable (first : Bool) (found : List Lexeme) (kind : TokenKind) (depth : Nat) (before : Array Char)

theorem read_doubled {text : List Char} (h : expansionMark ∉ text) :
    (⟨first, found, ⟨some kind, none, .quoted 0, depth, before⟩, none⟩ : Pass).read (doubled text) =
      ⟨first, found, ⟨some kind, none, .quoted 0, depth, before ++ text.toArray⟩, none⟩ := by
  induction text generalizing before with
  | nil => simp [doubled]
  | cons c text ih =>
    rw [List.mem_cons, not_or] at h
    obtain ⟨hc, htext⟩ := h
    have hpush : before ++ (c :: text).toArray = before.push c ++ text.toArray := by simp
    rw [doubled_cons, hpush, ← ih _ htext]
    by_cases hquote : c = '\''
    · rw [hquote, if_pos rfl]
      rfl
    · have hstep : (⟨some kind, none, .quoted 0, depth, before⟩ : Draft).step first 0 c =
          .take ⟨some kind, none, .quoted 0, depth, before.push c⟩ := by
        simp [Draft.step, Draft.stepQuoted, Draft.push, hquote, Ne.symm hc]
      rw [if_neg hquote, List.singleton_append, read_cons]
      exact congrArg (read · _) (step_take first found hstep)

/-- A quote mark has been read, and so has each with which the text begins. The first other
character shows that a quoted section is open. -/
theorem read_opened {text : List Char} (h : expansionMark ∉ text)
    (hletter : ∃ c ∈ text, c ≠ '\'') :
    (⟨first, found, ⟨some kind, none, .opened 0, depth, before⟩, none⟩ : Pass).read
        (doubled text ++ ['\'']) =
      ⟨first, found, ⟨some kind, none, .closed 0, depth, before ++ text.toArray⟩, none⟩ := by
  induction text generalizing before with
  | nil => simp at hletter
  | cons c text ih =>
    rw [List.mem_cons, not_or] at h
    obtain ⟨hc, htext⟩ := h
    have hpush : before ++ (c :: text).toArray = before.push c ++ text.toArray := by simp
    rw [doubled_cons, hpush, List.append_assoc]
    by_cases hquote : c = '\''
    · subst hquote
      have hrest : ∃ c ∈ text, c ≠ '\'' := by simpa using hletter
      -- the first of the two is taken into the text, and the second opens a section again
      have hopen := step_take first found
        (Draft.step_quote first kind (.inl rfl) depth (before.push '\''))
      rw [if_pos rfl, ← ih _ htext hrest]
      exact congrArg (read · _) hopen
    · have hstep : (⟨some kind, none, .opened 0, depth, before⟩ : Draft).step first 0 c =
          .take ⟨some kind, none, .quoted 0, depth, before.push c⟩ := by
        simp [Draft.step, Draft.stepQuoted, Draft.push, hquote, Ne.symm hc]
      rw [if_neg hquote, List.singleton_append, read_cons]
      calc
        _ = (⟨first, found, ⟨some kind, none, .quoted 0, depth, before.push c⟩, none⟩ : Pass).read
            (doubled text ++ ['\'']) := congrArg (read · _) (step_take first found hstep)
        _ = _ := by
          rw [read_append, read_doubled _ _ _ _ _ htext]
          rfl

theorem read_quote {mode : Mode} (hmode : mode = .plain ∨ mode = .angled) {text : List Char}
    (h : expansionMark ∉ text) (hletter : ∃ c ∈ text, c ≠ '\'') :
    (⟨first, found, ⟨some kind, none, mode, depth, before⟩, none⟩ : Pass).read (quote text) =
      ⟨first, found, ⟨some kind, none, .closed 0, depth, before ++ text.toArray⟩, none⟩ := by
  have hopen : (⟨first, found, ⟨some kind, none, mode, depth, before⟩, none⟩ : Pass).step '\'' =
      ⟨first, found, ⟨some kind, none, .opened 0, depth, before⟩, none⟩ := by
    have hstep := step_take first found (Draft.step_quote first kind hmode depth before)
    rcases hmode with rfl | rfl <;> exact hstep
  rw [quote, List.cons_append, read_cons, hopen]
  exact read_opened first found kind depth before h hletter

/-! ### Reading rules -/

theorem step_skipped {mode : Mode} (hmode : mode = .plain ∨ mode = .angled ∨ mode = .closed 0)
    (kind : Option TokenKind) {c : Char} (hc : isSkipped c) :
    (⟨first, found, ⟨kind, none, mode, 0, before⟩, none⟩ : Pass).step c =
      ⟨first, found, ⟨kind, none, .plain, 0, before⟩, none⟩ := by
  have hangle : c ≠ '<' := by
    rintro rfl
    exact absurd hc (by decide)
  have hquote : c ≠ '\'' := by
    rintro rfl
    exact absurd hc (by decide)
  have hstep : (⟨kind, none, mode, 0, before⟩ : Draft).step first 0 c =
      .take ⟨kind, none, .plain, 0, before⟩ := by
    rcases hmode with rfl | rfl | rfl <;>
      simp [Draft.step, Draft.stepPlain, hangle, hquote, hc]
  have hpass := step_take first found hstep
  rcases hmode with rfl | rfl | rfl <;> exact hpass

/-- What is skipped takes no more away than the chance to strengthen an operator or to go on with a
quoted section. -/
theorem read_skipped {mode : Mode} (hmode : mode = .plain ∨ mode = .angled ∨ mode = .closed 0)
    (kind : Option TokenKind) {text : List Char} (h : ∀ c ∈ text, isSkipped c) :
    ∃ mode', (mode' = .plain ∨ mode' = mode) ∧
      (⟨first, found, ⟨kind, none, mode, 0, before⟩, none⟩ : Pass).read text =
        ⟨first, found, ⟨kind, none, mode', 0, before⟩, none⟩ := by
  induction text generalizing mode with
  | nil => exact ⟨mode, .inr rfl, rfl⟩
  | cons c text ih =>
    rw [List.forall_mem_cons] at h
    obtain ⟨mode', hmode', hread⟩ := ih (.inl rfl) h.2
    rw [read_cons, step_skipped first found before hmode kind h.1, hread]
    exact ⟨mode', .inl (by simpa using hmode'), rfl⟩

/-- A pass that stands between rules, and the tokens that it has read so far. -/
inductive HasRead : Pass → List Lexeme → Prop
  | nothing : HasRead {} []
  | token (first : Bool) (found : List Lexeme) (kind : TokenKind) (text : Array Char) {mode : Mode}
      (hmode : mode = .plain ∨ mode = .closed 0) :
      HasRead ⟨first, found, ⟨some kind, none, mode, 0, text⟩, none⟩
        (found ++ [⟨kind, text.toList⟩])

namespace HasRead

variable {p : Pass} {read : List Lexeme}

theorem outcome (h : p.HasRead read) : p.outcome = (read, none) := by
  cases h with
  | nothing => rfl
  | token first found kind text hmode => rcases hmode with rfl | rfl <;> rfl

theorem skipped (h : p.HasRead read) {text : List Char} (htext : ∀ c ∈ text, isSkipped c) :
    (p.read text).HasRead read := by
  cases h with
  | nothing =>
    obtain ⟨mode, hmode, hread⟩ := read_skipped true [] #[] (.inl rfl) none htext
    obtain rfl : mode = .plain := by simpa using hmode
    rw [hread]
    exact .nothing
  | @token first found kind text mode hmode =>
    have hmode' : mode = .plain ∨ mode = .angled ∨ mode = .closed 0 := by
      rcases hmode with rfl | rfl <;> simp
    obtain ⟨next, hnext, hread⟩ := read_skipped first found text hmode' (some kind) htext
    rw [hread]
    refine .token first found kind text ?_
    rcases hnext with rfl | rfl
    · exact .inl rfl
    · exact hmode

/-- An operator ends the token before it, and implies a reset where it is the first. -/
theorem operator (h : p.HasRead read) (operator : Operator) :
    ∃ first mode, (mode = .plain ∨ mode = .angled) ∧
      p.read operator.text =
        ⟨first, read ++ (if read = [] then operator.implied else []),
          ⟨some operator.kind, none, mode, 0, #[]⟩, none⟩ := by
  cases h with
  | nothing =>
    cases operator <;> first | exact ⟨_, _, .inl rfl, rfl⟩ | exact ⟨_, _, .inr rfl, rfl⟩
  | token first found kind text hmode =>
    rw [if_neg (by simp), List.append_nil]
    rcases hmode with rfl | rfl <;> cases operator <;>
      first | exact ⟨_, _, .inl rfl, rfl⟩ | exact ⟨_, _, .inr rfl, rfl⟩

theorem written (h : p.HasRead read) (rule : QuotedRule) :
    (p.read rule.written).HasRead
      (read ++ (if read = [] then rule.operator.implied else []) ++ [rule.lexeme]) := by
  have hskipped := rule.skipped
  simp only [List.mem_append, or_imp, forall_and] at hskipped
  obtain ⟨⟨hbefore, hbetween⟩, hafter⟩ := hskipped
  obtain ⟨first, mode, hmode, hoperator⟩ := (h.skipped hbefore).operator rule.operator
  generalize read ++ (if read = [] then rule.operator.implied else []) = found at hoperator ⊢
  have hmode' : mode = .plain ∨ mode = .angled ∨ mode = .closed 0 := by
    rcases hmode with rfl | rfl <;> simp
  -- the text of the rule begins in a mode in which a quote mark opens a quoted section
  obtain ⟨next, hnext, hread⟩ :=
    read_skipped first found #[] hmode' (some rule.operator.kind) hbetween
  have hopen : next = .plain ∨ next = .angled := by
    rcases hnext with rfl | rfl
    · exact .inl rfl
    · exact hmode
  have hquote := read_quote first found rule.operator.kind 0 #[] hopen rule.unmarked rule.letter
  rw [QuotedRule.written, read_append, read_append, read_append, read_append, hoperator, hread,
    hquote]
  have hdone := HasRead.token first found rule.operator.kind (#[] ++ rule.text.toArray) (.inr rfl)
  have hlexeme : ⟨rule.operator.kind, (#[] ++ rule.text.toArray).toList⟩ = rule.lexeme := by
    simp [QuotedRule.lexeme]
  rw [hlexeme] at hdone
  exact hdone.skipped hafter

theorem writtenAll (h : p.HasRead read) (rules : List QuotedRule) :
    (p.read (rules.flatMap QuotedRule.written)).HasRead
      (read ++ (if read = [] then impliedBefore rules else []) ++
        rules.map QuotedRule.lexeme) := by
  induction rules generalizing p read with
  | nil => simpa [impliedBefore] using h
  | cons rule rest ih =>
    have hrest := ih (h.written rule)
    rw [List.flatMap_cons, read_append]
    simpa [impliedBefore] using hrest

end HasRead

end Pass

/-! ### Quoted rules -/

/-- Rules that are quoted are read back: each is a token of its own strength and with its own text,
and nothing comes before them but a reset where the first of them is a relation. -/
theorem lexemes_flatMap_written (rules : List QuotedRule) :
    syntaxError? (rules.flatMap QuotedRule.written) = none ∧
      lexemes (rules.flatMap QuotedRule.written) =
        impliedBefore rules ++ rules.map QuotedRule.lexeme := by
  have hread := (Pass.HasRead.nothing.writtenAll rules).outcome
  rw [outcome_source] at hread
  exact reading_eq_iff.1 hread

/-- Quote marks at the start of a text, inside of it and at its end. -/
example :
    let rule : QuotedRule :=
      { operator := .lessLess, text := "'o'clock'".toList, before := [' '], between := ['\u200D']
        unmarked := by decide, letter := ⟨'o', by decide, by decide⟩
        skipped := List.all_eq_true.1 (by decide) }
    rule.written = " <<\u200D'''o''clock'''".toList ∧
      lexemes rule.written = [⟨.reset, "[top]".toList⟩, ⟨.relation .secondary, rule.text⟩] := by
  decide +kernel

end CollationRules
