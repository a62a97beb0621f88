import CollationRules.Proofs.Rule.Steps

/-! The order of tokens. A token ends before an operator or at the end of the rule string, so that
every token after the first begins at an operator and is a reset or a relation. -/

namespace CollationRules

/-- Whether the tokens of a kind are lines in the block of rules. -/
def TokenKind.inRules : TokenKind → Bool
  | relation _ | reset => true
  | _ => false

theorem TokenKind.eq_reset_iff {kind : TokenKind} (h : kind.inRules) :
    kind = .reset ↔ ¬kind.isRelation := by
  cases kind with
  | relation strength => simp [isRelation]
  | reset => simp [isRelation]
  | setting => cases h
  | override => cases h
  | endOfRules => cases h

theorem operator?_inRules {c : Char} {kind : TokenKind} (h : operator? c = some kind) :
    kind.inRules = true := by
  unfold operator? at h
  split at h <;> cases h <;> rfl

theorem isSkipped_eq_false {c : Char} (h : (operator? c).isSome) : isSkipped c = false := by
  unfold operator? at h
  split at h
  all_goals first | decide | cases h

namespace Draft

/-! ### One step -/

theorem strengthen_inRules (d : Draft) : ∃ kind, d.strengthen.kind = some kind ∧ kind.inRules := by
  unfold strengthen
  split
  · exact ⟨_, rfl, rfl⟩
  · exact ⟨_, rfl, rfl⟩

/-- Only an operator ends a token, and the token is of the kind that it had, or is the implicit
reset. -/
theorem step_stop {first : Bool} {d last : Draft} {offset : Nat} {c : Char}
    (h : d.step first offset c = .stop last) :
    (operator? c).isSome ∧
      ∃ kind, last.kind = some kind ∧ (d.kind = some kind ∨ kind = .reset) := by
  have houtcome := d.outcome_step first offset c
  rw [h] at houtcome
  cases houtcome with
  | implied _ _ _ operator => exact ⟨by rw [operator]; rfl, .reset, rfl, .inr rfl⟩
  | ended _ kind operator =>
    obtain ⟨kind, hkind⟩ := Option.isSome_iff_exists.1 kind
    exact ⟨operator, kind, hkind, .inl hkind⟩

/-- What a draft can be after a character that it takes: of the kind that it was, of a strengthened
one, or of its first. -/
theorem step_take_kind {first : Bool} {d next : Draft} {offset : Nat} {c : Char}
    (h : d.step first offset c = .take next) :
    next.kind = d.kind ∨ ∃ kind, next.kind = some kind ∧
      (kind.inRules ∨ d.kind = none ∧ kind ≠ .endOfRules) := by
  have houtcome := d.outcome_step first offset c
  rw [h] at houtcome
  cases houtcome with
  | skipped | exclamation | inside | quoted => exact .inl rfl
  | begun _ _ operator => exact .inr ⟨_, rfl, .inl (operator?_inRules operator)⟩
  | aside _ fresh sign =>
    rcases sign with ⟨-, rfl⟩ | ⟨-, rfl⟩
    · exact .inr ⟨_, rfl, .inr ⟨fresh, by simp⟩⟩
    · exact .inr ⟨_, rfl, .inr ⟨fresh, by simp⟩⟩
  | strengthened =>
    obtain ⟨kind, hkind, hin⟩ := strengthen_inRules d
    exact .inr ⟨kind, hkind, .inl hin⟩

theorem step_take_inRules {first : Bool} {d next : Draft} {offset : Nat} {c : Char}
    (h : d.step first offset c = .take next) {kind : TokenKind} (hd : d.kind = some kind)
    (hk : kind.inRules) : ∃ kind, next.kind = some kind ∧ kind.inRules := by
  obtain hsame | ⟨kind', hkind', hin | ⟨hnone, -⟩⟩ := step_take_kind h
  · exact ⟨kind, hsame.trans hd, hk⟩
  · exact ⟨kind', hkind', hin⟩
  · rw [hd] at hnone
    cases hnone

/-- An operator at the start of a token that is not the first begins a line in the block of rules.
-/
theorem step_operator {c : Char} (hc : (operator? c).isSome) (offset : Nat) :
    ∃ next kind, ({} : Draft).step false offset c = .take next ∧ next.kind = some kind ∧
      kind.inRules := by
  obtain ⟨kind, hkind⟩ := Option.isSome_iff_exists.1 hc
  let next : Draft := { kind, start := offset, mode := if c = '<' then .angled else .plain }
  refine ⟨next, kind, ?_, rfl, operator?_inRules hkind⟩
  simp only [step, stepPlain, stepOutside, isSkipped_eq_false hc, hkind]
  rfl

/-! ### A whole token -/

/-- Whether what is left of a rule string is nothing or begins with an operator. -/
def AtOperator (rest : List Char) : Prop := ∀ c ∈ rest.head?, (operator? c).isSome

theorem scan_rest {first : Bool} {d : Draft} {offset : Nat} {input : List Char} {token : Token}
    (h : (d.scan first offset input).found = .ok token) :
    AtOperator (d.scan first offset input).rest := by
  induction input generalizing d offset with
  | nil =>
    unfold scan
    split <;> simp [AtOperator]
  | cons c rest ih =>
    unfold scan at h ⊢
    split at h
    · exact ih h
    · rename_i last hstep
      simpa [AtOperator] using (step_stop hstep).1
    · cases h

theorem finish_kind (d : Draft) (offset : Nat) :
    (d.finish offset).kind = d.kind.getD .endOfRules := by
  unfold finish
  split
  · rename_i h; simp [h]
  · rename_i h; simp [h, Token.finish]

theorem scan_inRules {first : Bool} {d : Draft} {offset : Nat} {input : List Char} {token : Token}
    (h : (d.scan first offset input).found = .ok token) {kind : TokenKind} (hd : d.kind = some kind)
    (hk : kind.inRules) : token.kind.inRules := by
  induction input generalizing d offset kind with
  | nil =>
    unfold scan at h
    split at h
    · cases h
    · cases h
      rw [finish_kind, hd]
      exact hk
  | cons c rest ih =>
    unfold scan at h
    split at h
    · rename_i next hstep
      obtain ⟨kind', hd', hk'⟩ := step_take_inRules hstep hd hk
      exact ih h hd' hk'
    · rename_i last hstep
      cases h
      obtain ⟨-, kind', hlast, hsame | rfl⟩ := step_stop hstep
      · rw [finish_kind, hlast, ← hsame, hd]
        exact hk
      · rw [finish_kind, hlast]
        rfl
    · cases h

end Draft

namespace Scanner

theorem next_rest {s : Scanner} {token : Token} (h : s.next.1 = .ok token) :
    Draft.AtOperator s.next.2.rest := by
  simp only [next] at h ⊢
  cases hfound : (Draft.scan s.first {} s.offset s.rest).found with
  | error e => rw [hfound] at h; cases h
  | ok found => exact Draft.scan_rest hfound

/-- A scanner that stands at an operator, and not for the first time, finds a line in the block of
rules, or the end. -/
theorem next_inRules {s : Scanner} (hfirst : s.first = false) (hrest : Draft.AtOperator s.rest)
    {token : Token} (h : s.next.1 = .ok token) :
    (s.rest = [] ∧ token.isFinish) ∨ token.kind.inRules := by
  simp only [next, hfirst] at h
  cases hr : s.rest with
  | nil =>
    have hscan : Draft.scan false {} s.offset [] = ⟨.ok (Token.finish _), s.offset, []⟩ := rfl
    rw [hr, hscan] at h
    cases h
    exact .inl ⟨rfl, rfl⟩
  | cons c rest =>
    rw [hr] at h hrest
    obtain ⟨draft, kind, hstep, hkind, hin⟩ := Draft.step_operator (hrest c rfl) s.offset
    simp only [Draft.scan, hstep] at h
    cases hfound : (draft.scan false (s.offset + c.utf8Size) rest).found with
    | error e => rw [hfound] at h; cases h
    | ok found =>
      rw [hfound] at h
      cases h
      exact .inr (Draft.scan_inRules hfound hkind hin)

def tokens (s : Scanner) : List Token := s.answers.filterMap fun answer => answeredToken? answer.1

theorem tokens_eq (s : Scanner) :
    s.tokens =
      match s.next.1 with
      | .ok token => if token.isFinish then [] else token :: s.next.2.tokens
      | .error _ => [] := by
  unfold tokens
  rw [answers]
  split
  · rename_i h
    simp [h, answeredToken?]
  · rename_i token h
    rw [h]
    by_cases hf : token.isFinish <;> simp [hf, answeredToken?]

section

variable {s : Scanner} {token : Token}

theorem tokens_of_error {e : SyntaxError} (h : s.next.1 = .error e) : s.tokens = [] := by
  rw [tokens_eq, h]

theorem tokens_of_finish (h : s.next.1 = .ok token) (hf : token.isFinish) : s.tokens = [] := by
  rw [tokens_eq, h]
  exact if_pos hf

theorem tokens_of_token (h : s.next.1 = .ok token) (hf : ¬token.isFinish) :
    s.tokens = token :: s.next.2.tokens := by
  rw [tokens_eq, h]
  exact if_neg hf

end

theorem tokens_inRules {s : Scanner} (hfirst : s.first = false) (hrest : Draft.AtOperator s.rest) :
    ∀ token ∈ s.tokens, token.kind.inRules := by
  induction s using Scanner.answers.induct with
  | case1 s e h =>
    rw [tokens_of_error h]
    simp
  | case2 s token h hf =>
    rw [tokens_of_finish h hf]
    simp
  | case3 s token h hf ih =>
    rw [tokens_of_token h hf, List.forall_mem_cons]
    have hin := (next_inRules hfirst hrest h).resolve_left fun h => hf h.2
    exact ⟨hin, ih rfl (next_rest h)⟩

end Scanner

/-- Every token after the first is a reset or a relation. -/
theorem tokens_tail_inRules (source : List Char) :
    ∀ token ∈ (tokens source).tail, token.kind.inRules := by
  change ∀ token ∈ (Scanner.ofSource source).tokens.tail, _
  rw [Scanner.tokens_eq]
  split
  · rename_i token h
    split
    · simp
    · exact Scanner.tokens_inRules rfl (Scanner.next_rest h)
  · simp

end CollationRules
