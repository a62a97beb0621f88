import CollationRules.Proofs.Rule.TokenOrder

/-! A rule string read in one pass. Where a token stands has no influence on what it is, so that the
kinds and the texts of all tokens are found by a fold over the characters, and this fold can be
divided at any of them. -/

namespace CollationRules

/-- What a token is, wherever it stands. -/
structure Lexeme where
  kind : TokenKind
  text : List Char
deriving DecidableEq, Repr

def Token.lexeme (token : Token) : Lexeme := ⟨token.kind, token.text⟩

/-- The tokens of a rule string without their spans. -/
def lexemes (source : List Char) : List Lexeme := (tokens source).map Token.lexeme

/-! ### Drafts without places -/

def Mode.unplaced : Mode → Mode
  | .plain => .plain
  | .angled => .angled
  | .escaped _ => .escaped 0
  | .opened _ => .opened 0
  | .quoted _ => .quoted 0
  | .closed _ => .closed 0

namespace Draft

def unplaced (d : Draft) : Draft := { d with start := none, mode := d.mode.unplaced }

def Step.unplaced : Step → Step
  | take d => .take d.unplaced
  | stop d => .stop d.unplaced
  | fail cause => .fail cause

section

variable (first : Bool) (d : Draft) (start : Option Nat) (offset offset' : Nat) (c : Char)

theorem stepOutside_unplaced :
    (({ d with start } : Draft).stepOutside first c).unplaced =
      (d.stepOutside first c).unplaced := by
  unfold stepOutside
  repeat' split
  all_goals rfl

theorem stepInside_unplaced :
    (({ d with start } : Draft).stepInside offset c).unplaced =
      (d.stepInside offset' c).unplaced := by
  simp only [stepInside, apply_ite Step.unplaced]
  rfl

theorem stepPlain_unplaced (mode : Mode) :
    (({ d with start, mode } : Draft).stepPlain first offset c).unplaced =
      (d.stepPlain first offset' c).unplaced := by
  let begun : Draft := { d with start := some (d.start.getD offset'), mode := .plain }
  unfold stepPlain
  simp only
  split
  · rfl
  · split
    · exact begun.stepOutside_unplaced first _ c
    · exact begun.stepInside_unplaced _ offset offset' c

theorem step_unplaced :
    (d.unplaced.step first 0 c).unplaced = (d.step first offset c).unplaced := by
  obtain ⟨kind, start, mode, depth, text⟩ := d
  let d : Draft := ⟨kind, start, mode, depth, text⟩
  have hplain (mode : Mode) := d.stepPlain_unplaced first none 0 offset c mode
  cases mode with
  | plain => exact hplain .plain
  | angled =>
    simp only [step, unplaced, Mode.unplaced]
    split
    · unfold strengthen
      split <;> rfl
    · exact hplain .angled
  | escaped start =>
    simp only [step, unplaced, Mode.unplaced]
    split <;> rfl
  | opened start =>
    simp only [step, stepQuoted, unplaced, Mode.unplaced]
    repeat' split
    all_goals rfl
  | quoted start =>
    simp only [step, stepQuoted, unplaced, Mode.unplaced]
    repeat' split
    all_goals rfl
  | closed start =>
    simp only [step, unplaced, Mode.unplaced]
    split
    · rfl
    · exact hplain (.closed 0)

end

def lexeme? (d : Draft) : Option Lexeme := d.kind.map fun kind => ⟨kind, d.text.toList⟩

@[simp] theorem lexeme?_unplaced (d : Draft) : d.unplaced.lexeme? = d.lexeme? := rfl

/-- The draft after the operator that begins a token, where no token has to come before it. -/
def ofOperator (c : Char) : Draft :=
  { kind := operator? c, mode := if c = '<' then .angled else .plain }

/-- Whether a draft is not the end of the rules. -/
def IsOpen (d : Draft) : Prop := d.kind ≠ some .endOfRules

theorem step_take_isOpen {first : Bool} {d next : Draft} {offset : Nat} {c : Char}
    (h : d.step first offset c = .take next) (hd : d.IsOpen) : next.IsOpen := by
  intro hfinish
  obtain hsame | ⟨kind, hkind, hnext⟩ := step_take_kind h
  · exact hd (hsame ▸ hfinish)
  · obtain rfl : kind = .endOfRules := Option.some.inj (hkind.symm.trans hfinish)
    rcases hnext with hin | ⟨-, hne⟩
    · cases hin
    · exact hne rfl

theorem unfinished?_unplaced (d : Draft) :
    d.unplaced.unfinished?.map Prod.fst = d.unfinished?.map Prod.fst := by
  obtain ⟨kind, start, mode, depth, text⟩ := d
  cases mode <;> rfl

theorem lexeme?_eq_some {d : Draft} {kind : TokenKind} (hk : d.kind = some kind) (offset : Nat) :
    d.lexeme? = some (d.finish offset).lexeme ∧ (d.finish offset).kind = kind := by
  simp [lexeme?, finish, hk, Token.lexeme]

theorem unplaced_ofOperator (c : Char) (start : Option Nat) :
    ({ ofOperator c with start } : Draft).unplaced = ofOperator c := by
  have hmode : (if c = '<' then Mode.angled else .plain).unplaced =
      if c = '<' then .angled else .plain := by
    split <;> rfl
  simp [unplaced, ofOperator, hmode]

theorem step_ofOperator {c : Char} (hc : (operator? c).isSome) (offset : Nat) :
    ({} : Draft).step false offset c = .take { ofOperator c with start := some offset } := by
  obtain ⟨kind, hkind⟩ := Option.isSome_iff_exists.1 hc
  simp only [step, stepPlain, stepOutside, isSkipped_eq_false hc, hkind, ofOperator]
  rfl

theorem step_eq_stepPlain {d : Draft} (hopen : d.unfinished? = none) {c : Char} (hquote : c ≠ '\'')
    (hangle : d.mode = .angled → c ≠ '<') (first : Bool) (offset : Nat) :
    d.step first offset c = d.stepPlain first offset c := by
  unfold step
  split
  · rfl
  · rw [if_neg (hangle ‹_›)]
  · rename_i hmode
    simp [unfinished?, hmode] at hopen
  · rename_i hmode
    simp [unfinished?, hmode] at hopen
  · rename_i hmode
    simp [unfinished?, hmode] at hopen
  · rw [if_neg hquote]

/-- An operator ends the token before it, where that is not in quotes and the operator does not
strengthen the one before it. -/
theorem step_operator_stop {d : Draft} (hkind : d.kind.isSome) (hopen : d.unfinished? = none)
    {c : Char} (hangle : d.mode = .angled → c ≠ '<') (hc : (operator? c).isSome) (first : Bool)
    (offset : Nat) : ∃ last, d.step first offset c = .stop last ∧ last.lexeme? = d.lexeme? := by
  have hquote : c ≠ '\'' := by
    rintro rfl
    exact absurd hc (by decide)
  obtain ⟨kind, hkind⟩ := Option.isSome_iff_exists.1 hkind
  refine ⟨{ d with start := some (d.start.getD offset), mode := .plain }, ?_, rfl⟩
  rw [step_eq_stepPlain hopen hquote hangle]
  simp [stepPlain, stepInside, isSkipped_eq_false hc, hkind, hc]

end Draft

/-! ### Passes -/

/-- A pass over a rule string after some of its characters. -/
structure Pass where
  /-- Whether no token has ended. -/
  first : Bool := true
  /-- The tokens that have ended. -/
  found : List Lexeme := []
  draft : Draft := {}
  fault : Option SyntaxCause := none

namespace Pass

/-- A pass after one more character. It stays at a character that is an error. -/
def step (p : Pass) (c : Char) : Pass :=
  match p.fault with
  | some _ => p
  | none =>
    match (p.draft.step p.first 0 c).unplaced with
    | .take draft => { p with draft }
    | .stop last =>
      { first := false, found := p.found ++ last.lexeme?.toList, draft := .ofOperator c }
    | .fail cause => { p with fault := some cause }

def read (p : Pass) (text : List Char) : Pass := text.foldl step p

/-- The tokens and the error of a rule string that ends where a pass stands. -/
def outcome (p : Pass) : List Lexeme × Option SyntaxCause :=
  match p.fault.or (p.draft.unfinished?.map Prod.fst) with
  | some cause => (p.found, some cause)
  | none => (p.found ++ p.draft.lexeme?.toList, none)

@[simp] theorem read_nil (p : Pass) : p.read [] = p := rfl

theorem read_cons (p : Pass) (c : Char) (text : List Char) :
    p.read (c :: text) = (p.step c).read text := rfl

theorem read_append (p : Pass) (a b : List Char) : p.read (a ++ b) = (p.read a).read b :=
  List.foldl_append

theorem outcome_fresh (first : Bool) (found : List Lexeme) :
    (⟨first, found, {}, none⟩ : Pass).outcome = (found, none) := by
  simp [outcome, Draft.unfinished?, Draft.lexeme?]

section Step

variable (first : Bool) (found : List Lexeme) {d next last : Draft} {cause : SyntaxCause}
  {offset : Nat} {c : Char}

/-- A step of a pass is the step of a draft at any place. -/
theorem step_take (h : d.step first offset c = .take next) :
    (⟨first, found, d.unplaced, none⟩ : Pass).step c = ⟨first, found, next.unplaced, none⟩ := by
  simp only [step]
  rw [d.step_unplaced first offset c, h]
  rfl

theorem step_stop (h : d.step first offset c = .stop last) :
    (⟨first, found, d.unplaced, none⟩ : Pass).step c =
      ⟨false, found ++ last.lexeme?.toList, .ofOperator c, none⟩ := by
  simp only [step]
  rw [d.step_unplaced first offset c, h]
  rfl

theorem step_fail (h : d.step first offset c = .fail cause) :
    (⟨first, found, d.unplaced, none⟩ : Pass).step c = ⟨first, found, d.unplaced, some cause⟩ := by
  simp only [step]
  rw [d.step_unplaced first offset c, h]
  rfl

theorem step_begin {c : Char} (hc : (operator? c).isSome) (found : List Lexeme) :
    (⟨false, found, {}, none⟩ : Pass).step c = ⟨false, found, .ofOperator c, none⟩ := by
  have hstep := step_take false found (Draft.step_ofOperator hc 0)
  rwa [Draft.unplaced_ofOperator] at hstep

end Step

theorem read_of_fault {p : Pass} {cause : SyntaxCause} (h : p.fault = some cause)
    (text : List Char) : p.read text = p := by
  induction text with
  | nil => rfl
  | cons c text ih =>
    have hstay : p.step c = p := by simp only [step, h]
    rw [read_cons, hstay, ih]

/-! What has been found has no influence on what is read. -/

def after (p : Pass) (before : List Lexeme) : Pass := { p with found := before ++ p.found }

theorem step_after (p : Pass) (before : List Lexeme) (c : Char) :
    (p.after before).step c = (p.step c).after before := by
  obtain ⟨first, found, draft, fault⟩ := p
  cases fault with
  | some cause => rfl
  | none =>
    simp only [step, after]
    cases (draft.step first 0 c).unplaced with
    | take draft => rfl
    | stop last => simp
    | fail cause => rfl

theorem read_after (p : Pass) (before : List Lexeme) (text : List Char) :
    (p.after before).read text = (p.read text).after before := by
  induction text generalizing p with
  | nil => rfl
  | cons c text ih => rw [read_cons, step_after, ih, read_cons]

theorem outcome_after (p : Pass) (before : List Lexeme) :
    (p.after before).outcome = (before ++ p.outcome.1, p.outcome.2) := by
  simp only [outcome, after]
  cases p.fault.or (p.draft.unfinished?.map Prod.fst) <;> simp

/-- The tokens and the error of what is left of a rule string, where it is not read from the
start. -/
def laterOutcome (rest : List Char) : List Lexeme × Option SyntaxCause :=
  (({ first := false } : Pass).read rest).outcome

@[simp] theorem laterOutcome_nil : laterOutcome [] = ([], none) := outcome_fresh false []

/-- A rule string can be divided before an operator. -/
theorem outcome_read_atOperator (first : Bool) (found : List Lexeme) {d : Draft}
    (hkind : d.kind.isSome) (hopen : d.unfinished? = none) {rest : List Char}
    (hrest : Draft.AtOperator rest) (hangle : d.mode = .angled → ∀ c ∈ rest.head?, c ≠ '<') :
    ((⟨first, found, d, none⟩ : Pass).read rest).outcome =
      (found ++ d.lexeme?.toList ++ (laterOutcome rest).1, (laterOutcome rest).2) := by
  cases rest with
  | nil =>
    rw [laterOutcome_nil, read_nil]
    simp [outcome, hopen]
  | cons c rest =>
    have hc := hrest c rfl
    obtain ⟨last, hstop, hlast⟩ :=
      Draft.step_operator_stop hkind hopen (fun h => hangle h c rfl) hc first 0
    have hend : (⟨first, found, d, none⟩ : Pass).step c =
        (⟨false, [], .ofOperator c, none⟩ : Pass).after (found ++ d.lexeme?.toList) := by
      simp [step, hstop, Draft.Step.unplaced, hlast, after]
    rw [read_cons, hend, read_after, outcome_after, laterOutcome, read_cons, step_begin hc]

/-- What is read from a draft on is the token that the draft becomes and what is read from where
that token ends. -/
theorem outcome_read_scan (first : Bool) (found : List Lexeme) (d : Draft) (input : List Char)
    (offset : Nat) (hd : d.IsOpen) :
    ((⟨first, found, d.unplaced, none⟩ : Pass).read input).outcome =
      match (d.scan first offset input).found with
      | .error (cause, _) => (found, some cause)
      | .ok token =>
        if token.isFinish then (found, none)
        else ((⟨false, found ++ [token.lexeme], {}, none⟩ : Pass).read
          (d.scan first offset input).rest).outcome := by
  have hopen {last : Draft} {kind : TokenKind} (hlast : last.kind = some kind)
      (hne : kind ≠ .endOfRules) (offset : Nat) :
      last.lexeme?.toList = [(last.finish offset).lexeme] ∧
        (last.finish offset).isFinish = false := by
    obtain ⟨hlexeme, hkind⟩ := Draft.lexeme?_eq_some hlast offset
    exact ⟨by rw [hlexeme]; rfl, by simp [Token.isFinish, hkind, hne]⟩
  induction input generalizing d offset with
  | nil =>
    have hfault := d.unfinished?_unplaced
    unfold Draft.scan
    rw [read_nil, outcome, hfault, Draft.lexeme?_unplaced]
    cases d.unfinished? with
    | some fault => rfl
    | none =>
      cases hk : d.kind with
      | none => simp [Draft.finish, hk, Token.finish, Token.isFinish, Draft.lexeme?]
      | some kind =>
        obtain ⟨hlexeme, hfinish⟩ := hopen hk (fun heq => hd (by rw [hk, heq])) offset
        simp only [Option.map_none, Option.or_none, hlexeme, hfinish, Bool.false_eq_true, if_false]
        rw [read_nil, outcome_fresh]
  | cons c rest ih =>
    unfold Draft.scan
    cases hstep : d.step first offset c with
    | take next =>
      rw [read_cons, step_take first found hstep]
      exact ih next (offset + c.utf8Size) (Draft.step_take_isOpen hstep hd)
    | stop last =>
      obtain ⟨hc, kind, hlast, hsame⟩ := Draft.step_stop hstep
      have hne : kind ≠ .endOfRules := by
        rcases hsame with hsame | rfl
        · exact fun heq => hd (by rw [hsame, heq])
        · decide
      obtain ⟨hlexeme, hfinish⟩ := hopen hlast hne offset
      -- the operator that ends the token begins the next one
      rw [read_cons, step_stop first found hstep, hlexeme, ← step_begin hc]
      simp only [hfinish, Bool.false_eq_true, if_false]
      rfl
    | fail cause =>
      rw [read_cons, step_fail first found hstep, read_of_fault rfl]
      rfl

end Pass

/-! ### The tokens of a rule string -/

namespace Scanner

def error? (s : Scanner) : Option SyntaxError :=
  s.answers.findSome? fun answer => answeredError? answer.1

theorem error?_eq (s : Scanner) :
    s.error? =
      match s.next.1 with
      | .ok token => if token.isFinish then none else s.next.2.error?
      | .error e => some e := by
  unfold error?
  rw [answers]
  split
  · rename_i h
    simp [h, answeredError?]
  · rename_i token h
    rw [h]
    by_cases hf : token.isFinish <;> simp [hf, answeredError?]

section

variable {s : Scanner} {token : Token}

theorem error?_of_error {e : SyntaxError} (h : s.next.1 = .error e) : s.error? = some e := by
  rw [error?_eq, h]

theorem error?_of_finish (h : s.next.1 = .ok token) (hf : token.isFinish) : s.error? = none := by
  rw [error?_eq, h]
  exact if_pos hf

theorem error?_of_token (h : s.next.1 = .ok token) (hf : ¬token.isFinish) :
    s.error? = s.next.2.error? := by
  rw [error?_eq, h]
  exact if_neg hf

end

theorem outcome_read (s : Scanner) (found : List Lexeme) :
    ((⟨s.first, found, {}, none⟩ : Pass).read s.rest).outcome =
      (found ++ s.tokens.map Token.lexeme, s.error?.map SyntaxError.cause) := by
  have hscan (s : Scanner) (found : List Lexeme) :
      ((⟨s.first, found, {}, none⟩ : Pass).read s.rest).outcome =
        match s.next.1 with
        | .error e => (found, some e.cause)
        | .ok token =>
          if token.isFinish then (found, none)
          else ((⟨s.next.2.first, found ++ [token.lexeme], {}, none⟩ : Pass).read
            s.next.2.rest).outcome := by
    have h := Pass.outcome_read_scan s.first found {} s.rest s.offset nofun
    simp only [next]
    cases hfound : (Draft.scan s.first {} s.offset s.rest).found <;> rw [hfound] at h <;> exact h
  induction s using Scanner.answers.induct generalizing found with
  | case1 s e h =>
    rw [hscan, tokens_of_error h, error?_of_error h, h]
    simp
  | case2 s token h hf =>
    rw [hscan, tokens_of_finish h hf, error?_of_finish h hf, h]
    simp [hf]
  | case3 s token h hf ih =>
    rw [hscan, tokens_of_token h hf, error?_of_token h hf, h]
    simp only [hf, Bool.false_eq_true, if_false, ih]
    simp

end Scanner

/-- The tokens of a rule string and the cause of its first error, without their places. -/
def reading (source : List Char) : List Lexeme × Option SyntaxCause :=
  (lexemes source, (syntaxError? source).map SyntaxError.cause)

/-- A rule string is read in one pass. -/
theorem outcome_source (source : List Char) : (({} : Pass).read source).outcome = reading source :=
  (Scanner.ofSource source).outcome_read []

theorem reading_eq_iff {source : List Char} {found : List Lexeme} :
    reading source = (found, none) ↔ syntaxError? source = none ∧ lexemes source = found := by
  rw [reading, Prod.mk.injEq, Option.map_eq_none_iff, and_comm]

end CollationRules
