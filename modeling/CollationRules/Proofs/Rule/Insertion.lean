import CollationRules.Proofs.Rule.Brackets

/-! A bracketed group put into a rule string. Where no token has begun, the group begins one, and
where one has, the group goes into its text. What comes after is read as it would be without it. -/

namespace CollationRules

namespace Draft

/-- A character before any operator is passed, or gives a token its kind. Where no token came before
it is not a relation then. -/
theorem step_idle {first : Bool} {d next : Draft} {offset : Nat} {c : Char}
    (h : d.step first offset c = .take next) (hd : d.unplaced = {}) :
    ((isSkipped c ∨ c = '!') ∧ next.unplaced = {}) ∨
    (next.kind.isSome ∧ isSkipped c = false ∧ c ≠ '!' ∧
      (first → ∀ strength, operator? c ≠ some (.relation strength))) := by
  obtain ⟨kind, start, mode, depth, text⟩ := d
  obtain ⟨rfl, hmode, rfl, rfl⟩ :
      kind = none ∧ mode.unplaced = .plain ∧ depth = 0 ∧ text = #[] := by
    simpa [unplaced] using hd
  obtain rfl : mode = .plain := by
    cases mode <;> first | rfl | cases hmode
  have houtcome := outcome_step first ⟨none, start, .plain, 0, #[]⟩ offset c
  rw [h] at houtcome
  cases houtcome with
  | skipped _ skip => exact .inl ⟨.inl skip, rfl⟩
  | exclamation _ _ sign => exact .inl ⟨.inr sign, rfl⟩
  | begun _ _ operator written =>
    have hoperator : (operator? c).isSome := by rw [operator]; rfl
    refine .inr ⟨rfl, isSkipped_eq_false hoperator, ?_, fun hfirst strength hrelation => ?_⟩
    · rintro rfl
      cases hoperator
    · rw [operator] at hrelation
      cases hrelation
      cases written hfirst
  | aside _ _ sign =>
    rcases sign with ⟨rfl, -⟩ | ⟨rfl, -⟩
    · exact .inr ⟨rfl, by decide, by decide, fun _ _ h => by cases h⟩
    · exact .inr ⟨rfl, by decide, by decide, fun _ _ h => by cases h⟩
  | inside _ kind => cases kind
  | strengthened angled => cases angled
  | quoted marked => cases marked

/-- Only the operator of a relation can be strengthened, and only directly after it. -/
theorem step_take_angled {first : Bool} {d next : Draft} {offset : Nat} {c : Char}
    (h : d.step first offset c = .take next) (hmode : next.mode = .angled) :
    (∃ strength, next.kind = some (.relation strength)) ∧ next.text = d.text ∧
      (d.kind = none ∨ d.mode = .angled) := by
  have houtcome := d.outcome_step first offset c
  rw [h] at houtcome
  cases houtcome with
  | skipped | aside | exclamation => cases hmode
  | begun _ fresh operator =>
    obtain rfl : c = '<' := by
      by_contra hne
      simp [hne] at hmode
    cases operator
    exact ⟨⟨.primary, rfl⟩, rfl, .inl fresh⟩
  | inside _ _ _ _ mark =>
    obtain rfl : _ = Mode.angled := hmode
    rcases mark with hplain | hmark
    · cases hplain
    · cases hmark
  | strengthened angled =>
    unfold strengthen
    split
    · exact ⟨⟨_, rfl⟩, rfl, .inr angled⟩
    · exact ⟨⟨_, rfl⟩, rfl, .inr angled⟩
  | quoted marked _ mark =>
    obtain rfl : _ = Mode.angled := hmode
    rcases mark with hplain | hmark
    · cases hplain
    · rw [← hmark] at marked
      cases marked

/-- After an operator it makes no difference whether a token came before. -/
theorem step_first {d : Draft} (hkind : d.kind.isSome) (first : Bool) (offset : Nat) (c : Char) :
    d.step first offset c = d.step false offset c := by
  have hplain : d.stepPlain first offset c = d.stepPlain false offset c := by
    obtain ⟨kind, hkind⟩ := Option.isSome_iff_exists.1 hkind
    simp [stepPlain, hkind]
  unfold step
  rw [hplain]

end Draft

namespace Pass

/-! ### Where a pass can stand -/

structure IsRegular (p : Pass) : Prop where
  /-- Before its first token it is as at the start. -/
  fresh : p.fault = none → p.draft.kind = none → p = {}
  angled : p.draft.mode = .angled →
    (∃ strength, p.draft.kind = some (.relation strength)) ∧ p.draft.text = #[]

theorem IsRegular.step {p : Pass} (h : p.IsRegular) (c : Char) : (p.step c).IsRegular := by
  obtain ⟨first, found, d, fault⟩ := p
  cases fault with
  | some cause => exact h
  | none =>
    simp only [Pass.step]
    cases hstep : d.step first 0 c with
    | take next =>
      refine ⟨?_, fun hmode => ?_⟩
      · intro _ hkind
        have hnone : d.kind = none := by
          obtain hsame | ⟨kind, hsome, -⟩ := Draft.step_take_kind hstep
          · exact hsame ▸ hkind
          · cases hsome.symm.trans hkind
        cases h.fresh rfl hnone
        rcases Draft.step_idle hstep rfl with ⟨-, hnext⟩ | ⟨hsome, -⟩
        · simp only [Draft.Step.unplaced, hnext]
        · rw [show next.kind = none from hkind] at hsome
          cases hsome
      · have hangled : next.mode = .angled := by
          change next.mode.unplaced = .angled at hmode
          cases hnext : next.mode <;> simp_all [Mode.unplaced]
        obtain ⟨hkind, htext, hbefore⟩ := Draft.step_take_angled hstep hangled
        have hempty : d.text = #[] := by
          rcases hbefore with hnone | hmode
          · cases h.fresh rfl hnone
            rfl
          · exact (h.angled hmode).2
        exact ⟨hkind, htext.trans hempty⟩
    | stop last =>
      obtain ⟨hc, -⟩ := Draft.step_stop hstep
      refine ⟨?_, fun hmode => ?_⟩
      · intro _ hnone
        rw [show (operator? c) = none from hnone] at hc
        cases hc
      · obtain rfl : c = '<' := by
          by_contra hne
          simp [Draft.ofOperator, Draft.Step.unplaced, hne] at hmode
        exact ⟨⟨.primary, rfl⟩, rfl⟩
    | fail cause =>
      refine ⟨?_, h.angled⟩
      intro hnone
      cases hnone

theorem isRegular_read (text : List Char) : (({} : Pass).read text).IsRegular := by
  have hread (p : Pass) (h : p.IsRegular) : (p.read text).IsRegular := by
    induction text generalizing p with
    | nil => exact h
    | cons c text ih => exact ih (p.step c) (h.step c)
  exact hread {} ⟨fun _ _ => rfl, nofun⟩

/-- Where a pass can stand at the end of a rule string without an error in its syntax. -/
theorem read_cases {source : List Char} (h : syntaxError? source = none) :
    (lexemes source = [] ∧ ({} : Pass).read source = {}) ∨
    ∃ first found kind start mode depth text,
      ({} : Pass).read source = ⟨first, found, ⟨some kind, start, mode, depth, text⟩, none⟩ ∧
      lexemes source = found ++ [⟨kind, text.toList⟩] ∧
      (⟨some kind, start, mode, depth, text⟩ : Draft).unfinished? = none ∧
      (mode = .angled → kind.isRelation ∧ text = #[]) := by
  have hregular := isRegular_read source
  have houtcome := (outcome_source source).trans (reading_eq_iff.2 ⟨h, rfl⟩)
  generalize ({} : Pass).read source = p at hregular houtcome ⊢
  obtain ⟨hfault, hopen, hlexemes⟩ :
      p.fault = none ∧ p.draft.unfinished? = none ∧
        p.found ++ p.draft.lexeme?.toList = lexemes source := by
    unfold outcome at houtcome
    split at houtcome
    · cases (Prod.mk.inj houtcome).2
    · rename_i hnone
      rw [Option.or_eq_none_iff, Option.map_eq_none_iff] at hnone
      exact ⟨hnone.1, hnone.2, (Prod.mk.inj houtcome).1⟩
  obtain ⟨first, found, ⟨kind, start, mode, depth, text⟩, fault⟩ := p
  cases hfault
  cases kind with
  | none =>
    have hfresh := hregular.fresh rfl rfl
    refine .inl ⟨?_, hfresh⟩
    rw [← hlexemes, hfresh]
    rfl
  | some kind =>
    refine .inr ⟨first, found, kind, start, mode, depth, text, rfl, hlexemes.symm, hopen, ?_⟩
    intro hmode
    obtain ⟨⟨strength, hstrength⟩, htext⟩ := hregular.angled hmode
    cases hstrength
    exact ⟨rfl, htext⟩

/-! ### What comes after -/

theorem outcome_read_first (found : List Lexeme) {d : Draft} (hkind : d.kind.isSome)
    (text : List Char) :
    ((⟨true, found, d, none⟩ : Pass).read text).outcome =
      ((⟨false, found, d, none⟩ : Pass).read text).outcome := by
  induction text generalizing d with
  | nil => rfl
  | cons c text ih =>
    rw [read_cons, read_cons]
    simp only [step, d.step_first hkind true 0 c]
    cases hstep : d.step false 0 c with
    | take next =>
      have hnext : next.kind.isSome := by
        obtain hsame | ⟨kind, hsome, -⟩ := Draft.step_take_kind hstep
        · exact hsame ▸ hkind
        · exact hsome ▸ rfl
      exact ih hnext
    | stop last => rfl
    | fail cause =>
      simp only [Draft.Step.unplaced]
      rw [read_of_fault rfl, read_of_fault rfl]
      rfl

end Pass

/-- What comes before rules that stand at the start of a rule string. -/
def impliedReset (rules : List Char) : List Lexeme :=
  match rules.head?.bind operator? with
  | some (.relation _) => [⟨.reset, Draft.implicitReset⟩]
  | _ => []

/-- Rules are read in the same way wherever they stand, save that a reset is implied at the start.
-/
theorem outcome_read_rules {rules : List Char} (hrules : Draft.AtOperator rules) :
    (({} : Pass).read rules).outcome =
      (impliedReset rules ++ (Pass.laterOutcome rules).1, (Pass.laterOutcome rules).2) := by
  cases rules with
  | nil =>
    rw [Pass.laterOutcome_nil]
    rfl
  | cons c rules =>
    have hc := hrules c rfl
    rw [Pass.laterOutcome, Pass.read_cons, Pass.read_cons, Pass.step_begin hc]
    have hbegin : c = '&' ∨ (({} : Pass).step c =
          (⟨false, [], .ofOperator c, none⟩ : Pass).after [⟨.reset, Draft.implicitReset⟩] ∧
        impliedReset (c :: rules) = [⟨.reset, Draft.implicitReset⟩]) := by
      unfold operator? at hc
      split at hc
      · exact .inl rfl
      · exact .inr ⟨rfl, rfl⟩
      · exact .inr ⟨rfl, rfl⟩
      · exact .inr ⟨rfl, rfl⟩
      · exact .inr ⟨rfl, rfl⟩
      · cases hc
    rcases hbegin with rfl | ⟨hstep, himplied⟩
    · have hstep : ({} : Pass).step '&' = ⟨true, [], .ofOperator '&', none⟩ := rfl
      rw [hstep, Pass.outcome_read_first [] rfl]
      rfl
    · rw [hstep, Pass.read_after, Pass.outcome_after, himplied]

/-! ### Inserted groups -/

structure IsVerbatim (text : List Char) : Prop extends IsPayload text where
  plain : ∀ c ∈ text, operator? c = none ∧ c ≠ '!' ∧ c ≠ '/'

section

variable {payload : List Char} (h : IsVerbatim payload)

include h

theorem Pass.read_payload (first : Bool) (found : List Lexeme) (kind : TokenKind) (depth : Nat)
    (text : Array Char) :
    (⟨first, found, ⟨some kind, none, .plain, depth + 1, text⟩, none⟩ : Pass).read
        (payload ++ [']']) =
      ⟨first, found, ⟨some kind, none, .plain, depth, text ++ (payload ++ [']']).toArray⟩,
        none⟩ := by
  have hcontent : ∀ c ∈ payload ++ [']'], IsContent c := by
    intro c hc
    refine h.isContent hc ?_
    rcases List.mem_append.1 hc with hmem | hmem
    · exact (h.plain c hmem).1
    · obtain rfl := List.mem_singleton.1 hmem
      rfl
  have hkept : kept (payload ++ [']']) = payload ++ [']'] := by
    rw [kept_eq_self_iff, List.forall_mem_append]
    exact ⟨fun c hc => (h.plain c hc).2, by simp⟩
  have hopen : ∀ front c, front ++ [c] <+: payload ++ [']'] →
      front.count ']' < depth + 1 + front.count '[' := by
    intro front c hc
    have hlt := h.count_lt hc
    omega
  have hdepth :
      depth + 1 + (payload ++ [']']).count '[' - (payload ++ [']']).count ']' = depth := by
    rw [List.count_append, List.count_append, h.equal]
    have hclose : [']'].count '[' = 0 ∧ [']'].count ']' = 1 := by decide
    omega
  rw [read_bracketed first found kind text hcontent hopen, hkept, hdepth]

theorem Pass.read_bracketed_fresh :
    ({} : Pass).read (bracketed payload) =
      ⟨true, [], ⟨some .setting, none, .plain, 0, (bracketed payload).toArray⟩, none⟩ := by
  have hbegin : ({} : Pass).step '[' =
      ⟨true, [], ⟨some .setting, none, .plain, 1, #['[']⟩, none⟩ := rfl
  rw [bracketed, List.cons_append, read_cons, hbegin, read_payload h]
  simp

/-- A group goes into the text of the token in which it stands. -/
theorem Pass.read_bracketed_inside (first : Bool) (found : List Lexeme) (kind : TokenKind)
    (start : Option Nat) {mode : Mode} (depth : Nat) (text : Array Char)
    (hopen : (⟨some kind, start, mode, depth, text⟩ : Draft).unfinished? = none) :
    (⟨first, found, ⟨some kind, start, mode, depth, text⟩, none⟩ : Pass).read (bracketed payload) =
      ⟨first, found, ⟨some kind, none, .plain, depth, text ++ (bracketed payload).toArray⟩,
        none⟩ := by
  have hstep : (⟨some kind, start, mode, depth, text⟩ : Draft).step first 0 '[' =
      .take ⟨some kind, some (start.getD 0), .plain, depth + 1, text.push '['⟩ := by
    have hskipped : isSkipped '[' = false := by decide
    rw [Draft.step_eq_stepPlain hopen (by decide) (fun _ => by decide)]
    simp [Draft.stepPlain, Draft.stepInside, Draft.push, hskipped, operator?]
  have hbegin : (⟨first, found, ⟨some kind, start, mode, depth, text⟩, none⟩ : Pass).step '[' =
      ⟨first, found, ⟨some kind, none, .plain, depth + 1, text.push '['⟩, none⟩ := by
    simp [Pass.step, hstep, Draft.Step.unplaced, Draft.unplaced, Mode.unplaced]
  rw [bracketed, List.cons_append, read_cons, hbegin, read_payload h]
  simp

variable {before after : List Char} (hbefore : syntaxError? before = none)
  (hafter : Draft.AtOperator after)

include hbefore hafter

/-- A group in front of the first token becomes a token, and no reset is implied after it. -/
theorem reading_insert_nil (hnil : lexemes before = []) :
    reading (before ++ bracketed payload ++ after) =
        (⟨.setting, bracketed payload⟩ :: (Pass.laterOutcome after).1,
          (Pass.laterOutcome after).2) ∧
      reading (before ++ after) =
        (impliedReset after ++ (Pass.laterOutcome after).1, (Pass.laterOutcome after).2) := by
  have hread : ({} : Pass).read before = {} := by
    rcases Pass.read_cases hbefore with ⟨-, hread⟩ | ⟨_, _, _, _, _, _, _, -, hlexemes, -⟩
    · exact hread
    · simp [hnil] at hlexemes
  constructor
  · rw [← outcome_source, Pass.read_append, Pass.read_append, hread, Pass.read_bracketed_fresh h,
      Pass.outcome_read_atOperator true [] rfl rfl hafter (by simp)]
    rfl
  · rw [← outcome_source, Pass.read_append, hread, outcome_read_rules hafter]

/-- A group after a token goes into its text, and the tokens after it are the same. Without the
group the first of them could strengthen an operator, if that had no text yet. -/
theorem reading_insert_append {front : List Lexeme} {kind : TokenKind} {text : List Char}
    (hlast : lexemes before = front ++ [⟨kind, text⟩]) :
    reading (before ++ bracketed payload ++ after) =
        (front ++ ⟨kind, text ++ bracketed payload⟩ :: (Pass.laterOutcome after).1,
          (Pass.laterOutcome after).2) ∧
      ((kind.isRelation → text ≠ []) → reading (before ++ after) =
        (front ++ ⟨kind, text⟩ :: (Pass.laterOutcome after).1, (Pass.laterOutcome after).2)) := by
  obtain ⟨first, found, kind', start, mode, depth, text', hread, hlexemes, hopen, hangle⟩ :
      ∃ first found kind start mode depth text,
        ({} : Pass).read before = ⟨first, found, ⟨some kind, start, mode, depth, text⟩, none⟩ ∧
        lexemes before = found ++ [⟨kind, text.toList⟩] ∧
        (⟨some kind, start, mode, depth, text⟩ : Draft).unfinished? = none ∧
        (mode = .angled → kind.isRelation ∧ text = #[]) := by
    rcases Pass.read_cases hbefore with ⟨hnil, -⟩ | hsome
    · simp [hlast] at hnil
    · exact hsome
  obtain ⟨rfl, hlexeme⟩ := List.append_inj' (hlast.symm.trans hlexemes) rfl
  obtain ⟨rfl, rfl⟩ : kind = kind' ∧ text = text'.toList := by simpa using hlexeme
  constructor
  · rw [← outcome_source, Pass.read_append, Pass.read_append, hread,
      Pass.read_bracketed_inside h first front kind start depth text' hopen,
      Pass.outcome_read_atOperator first front rfl rfl hafter (by simp)]
    simp [Draft.lexeme?]
  · intro htext
    have hangle' : mode = .angled → ∀ c ∈ after.head?, c ≠ '<' := by
      intro hmode
      obtain ⟨hrelation, hempty⟩ := hangle hmode
      exact absurd (by rw [hempty]) (htext hrelation)
    rw [← outcome_source, Pass.read_append, hread,
      Pass.outcome_read_atOperator first front rfl hopen hafter hangle']
    simp [Draft.lexeme?]

end

end CollationRules
