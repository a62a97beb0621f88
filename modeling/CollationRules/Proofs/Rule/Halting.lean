import CollationRules.Proofs.Rule.Faults

/-! What a scanner answers after an error. A character that is an error in some token is one also
where a token begins, so that the scanner stays where it is and finds an error there again. It does
not stay in a quoted section or an escape, and where one of these is open at the end of the rule
string it finds the end. -/

namespace CollationRules

open Text (byteLength)

namespace Draft

section

variable {first : Bool} {d last : Draft} {offset : Nat} {c : Char} {cause : SyntaxCause}
  {text : List Char}

theorem step_fail_isStray (h : d.step first offset c = .fail cause)
    (hfresh : d.kind = none → d.depth = 0) : IsStray c := by
  have houtcome := d.outcome_step first offset c
  rw [h] at houtcome
  cases houtcome with
  | failed _ stray => exact stray hfresh

/-- A stray character is an error where a token begins. -/
theorem step_fresh_stray (h : IsStray c) (offset : Nat) :
    ∃ cause, ({} : Draft).step false offset c = .fail cause := by
  obtain ⟨hskipped, hoperator, hopen, hoverride, hpassed⟩ := h
  simp only [step, stepPlain, stepOutside, hskipped, hoperator, hopen, hoverride, hpassed,
    Bool.and_false, Bool.false_eq_true, if_false, Option.isNone_none, if_true]
  repeat' split
  all_goals exact ⟨_, rfl⟩

/-- Before it has a kind a token has no open bracket. -/
theorem Takes.depth_eq_zero (h : Takes first {} offset text last) (hkind : last.kind = none) :
    last.depth = 0 := by
  rcases h.idle_cases rfl with ⟨-, hfresh⟩ | ⟨-, -, -, -, -, -, -, -, hsome⟩
  · exact congrArg Draft.depth hfresh
  · rw [hkind] at hsome
    cases hsome

theorem Takes.isOpen (h : Takes first d offset text last) (hd : d.IsOpen) : last.IsOpen := by
  induction h with
  | nil => exact hd
  | cons step _ ih => exact ih (step_take_isOpen step hd)

end

/-- The end of the rules is found only at the end of the rule string. -/
theorem scan_finish {first : Bool} {offset : Nat} {input : List Char} {token : Token}
    (h : (({} : Draft).scan first offset input).found = .ok token) (hf : token.isFinish) :
    (({} : Draft).scan first offset input).rest = [] := by
  obtain ⟨taken, rest, last, rfl, htakes, hends⟩ := scan_cases first {} offset input
  generalize ({} : Draft).scan first offset (taken ++ rest) = scan at h hends
  cases hends with
  | finished => rfl
  | unfinished => cases h
  | failed => cases h
  | stopped stop =>
    cases h
    -- An operator ends a token that has a kind, or the implicit reset, and so no end of the rules.
    obtain ⟨-, kind, hkind, hsame⟩ := step_stop stop
    rw [Token.isFinish, beq_iff_eq, finish_kind, hkind, Option.getD_some] at hf
    subst hf
    rcases hsame with hlast | himplied
    · exact absurd hlast (htakes.isOpen (Option.some_ne_none _).symm)
    · cases himplied

/-- An error is found at a stray character, or at the end, where something is left open. -/
theorem scan_error_cases {first : Bool} {offset : Nat} {input : List Char} {cause : SyntaxCause}
    {place : Nat} (h : (({} : Draft).scan first offset input).found = .error (cause, place)) :
    ((({} : Draft).scan first offset input).rest = [] ∧
      (cause = .unterminatedQuote ∨ cause = .strayEscape)) ∨
    ∃ c rest, (({} : Draft).scan first offset input).rest = c :: rest ∧ IsStray c := by
  obtain ⟨taken, rest, last, rfl, htakes, hends⟩ := scan_cases first {} offset input
  generalize ({} : Draft).scan first offset (taken ++ rest) = scan at h hends
  cases hends with
  | finished => cases h
  | stopped => cases h
  | failed fail => exact .inr ⟨_, _, rfl, step_fail_isStray fail htakes.depth_eq_zero⟩
  | unfinished unclosed =>
    cases h
    refine .inl ⟨rfl, ?_⟩
    unfold unfinished? at unclosed
    split at unclosed <;> cases unclosed
    · exact .inr rfl
    · exact .inl rfl
    · exact .inl rfl

end Draft

namespace Scanner

/-! ### Scanners that stay -/

/-- A scanner that stands at some place of a rule string. -/
structure StandsIn (s : Scanner) (source : List Char) : Prop where
  whole : s.source = source
  place : ∃ front, source = front ++ s.rest ∧ s.offset = byteLength front

/-- A scanner, not at the start, that stands at the end or at a stray character. -/
structure Halted (s : Scanner) : Prop where
  later : s.first = false
  stray : ∀ c ∈ s.rest.head?, IsStray c

/-- What a scanner answers where it stays: the end of the rules, if it is there, and otherwise an
error about the character that it stands at. -/
inductive Stays (s : Scanner) : Except SyntaxError Token → Prop
  | atEnd (ended : s.rest = []) : Stays s (.ok (Token.finish (Span.ofOffsets s.offset s.offset)))
  | atError {c : Char} {rest : List Char} {e : SyntaxError} (stands : s.rest = c :: rest)
      (span : e.span = Span.ofOffsets s.offset (s.offset + c.utf8Size)) : Stays s (.error e)

section

variable {s : Scanner} {source : List Char}

theorem standsIn_ofSource (source : List Char) : (ofSource source).StandsIn source :=
  ⟨rfl, [], rfl, rfl⟩

theorem StandsIn.next (h : s.StandsIn source) : s.next.2.StandsIn source := by
  obtain ⟨hsource, front, hfront, hoffset⟩ := h
  obtain ⟨taken, last, hinput, hnext, -⟩ := s.exists_taken
  refine ⟨hsource, front ++ taken, ?_, ?_⟩
  · rw [hfront, hinput, List.append_assoc]
  · rw [hnext, hoffset, Text.byteLength_append]

theorem next_of_end (hlater : s.first = false) (hend : s.rest = []) :
    s.next = (.ok (Token.finish (Span.ofOffsets s.offset s.offset)), s) := by
  obtain ⟨whole, rest, offset, first⟩ := s
  obtain rfl : first = false := hlater
  obtain rfl : rest = [] := hend
  rfl

theorem halted_of_finish {token : Token} (h : s.next.1 = .ok token) (hf : token.isFinish) :
    s.next.2.rest = [] ∧ s.next.2.Halted := by
  have hrest : s.next.2.rest = [] := Draft.scan_finish (found_of_ok h) hf
  refine ⟨hrest, rfl, ?_⟩
  simp [hrest]

theorem halted_of_error {e : SyntaxError} (h : s.next.1 = .error e) :
    (s.next.2.rest = [] → e.cause = .unterminatedQuote ∨ e.cause = .strayEscape) ∧
      s.next.2.Halted := by
  obtain ⟨cause, place, hfound, rfl⟩ := exists_found_of_error h
  rcases Draft.scan_error_cases hfound with ⟨hend, hcause⟩ | ⟨c, rest, hrest, hstray⟩
  · exact ⟨fun _ => hcause, rfl, fun c hc => by simp [Scanner.next, hend] at hc⟩
  · have hrest : s.next.2.rest = c :: rest := hrest
    refine ⟨fun hend => ?_, rfl, ?_⟩
    · rw [hrest] at hend
      cases hend
    · rw [hrest]
      rintro d ⟨⟩
      exact hstray

namespace Halted

variable (h : s.Halted)

include h

theorem next (hplace : s.StandsIn source) : s.next.2 = s ∧ s.Stays s.next.1 := by
  obtain ⟨whole, rest, offset, first⟩ := s
  obtain rfl : first = false := h.later
  cases rest with
  | nil => exact ⟨rfl, .atEnd rfl⟩
  | cons c rest =>
    obtain ⟨cause, hfail⟩ := Draft.step_fresh_stray (h.stray c rfl) offset
    obtain ⟨rfl, front, hfront, rfl⟩ := hplace
    have hscan : ({} : Draft).scan false (byteLength front) (c :: rest) =
        ⟨.error (cause, byteLength front), byteLength front, c :: rest⟩ := by
      rw [Draft.scan, hfail]
    obtain rfl : whole = front ++ c :: rest := hfront
    rw [Scanner.next, hscan]
    refine ⟨rfl, .atError rfl ?_⟩
    simp [SyntaxError.locate, Text.cut_byteLength]

theorem ask (hplace : s.StandsIn source) (count : Nat) :
    ∀ answer ∈ s.ask count, answer.2 = s ∧ s.Stays answer.1 := by
  obtain ⟨hsame, hstays⟩ := h.next hplace
  induction count with
  | zero => simp [Scanner.ask]
  | succ count ih =>
    rw [Scanner.ask, hsame, List.forall_mem_cons]
    exact ⟨⟨hsame, hstays⟩, ih⟩

/-- A stream has nothing to give at the end. -/
theorem item?_eq_none (hend : s.rest = []) (count : Nat) :
    (⟨s, false⟩ : TokenStream).item? count = none := by
  have hnext : (⟨s, false⟩ : TokenStream).next = (none, ⟨s, false⟩) := by
    rw [TokenStream.next, next_of_end h.later hend]
    rfl
  induction count with
  | zero => rw [TokenStream.item?, hnext]
  | succ count ih => rw [TokenStream.item?, hnext, ih]

end Halted

theorem ask_of_error {count : Nat} {before later : List (Except SyntaxError Token × Scanner)}
    {e : SyntaxError} {stuck : Scanner} (hplace : s.StandsIn source)
    (h : s.ask count = before ++ (.error e, stuck) :: later) :
    stuck.StandsIn source ∧
      (stuck.rest = [] → e.cause = .unterminatedQuote ∨ e.cause = .strayEscape) ∧
      ∀ answer ∈ later, answer.2 = stuck ∧ stuck.Stays answer.1 := by
  -- By induction on the answers in front of the error; what is kept is that the scanner stands in
  -- the rule string.
  induction before generalizing s count with
  | nil =>
    cases count with
    | zero => cases h
    | succ count =>
      rw [ask, List.nil_append, List.cons.injEq] at h
      obtain ⟨hnext, rfl⟩ := h
      have herror : s.next.1 = .error e := congrArg Prod.fst hnext
      obtain rfl : s.next.2 = stuck := congrArg Prod.snd hnext
      obtain ⟨hcause, hhalted⟩ := halted_of_error herror
      exact ⟨hplace.next, hcause, hhalted.ask hplace.next count⟩
  | cons answer before ih =>
    cases count with
    | zero => cases h
    | succ count =>
      rw [ask, List.cons_append, List.cons.injEq] at h
      exact ih hplace.next h.2

end

end Scanner

namespace TokenStream

theorem next_eq (s : Scanner) :
    (⟨s, false⟩ : TokenStream).next =
      match s.next.1 with
      | .ok token => (if token.isFinish then none else some (.ok token), ⟨s.next.2, false⟩)
      | .error e => (some (.error e), ⟨s.next.2, true⟩) := by
  rw [next]
  cases hanswer : s.next with
  | mk answer after => cases answer <;> rfl

theorem item?_failed (s : Scanner) (count : Nat) :
    (⟨s, true⟩ : TokenStream).item? count = none := by
  induction count with
  | zero => rfl
  | succ count ih => exact ih

/-- A stream gives the tokens of a rule string, then its error, and then nothing. -/
theorem item?_eq (s : Scanner) (count : Nat) :
    (⟨s, false⟩ : TokenStream).item? count =
      (s.tokens.map .ok ++ s.error?.toList.map .error)[count]? := by
  -- One case for each way in which the answers of a scanner end or go on.
  induction s using Scanner.answers.induct generalizing count with
  | case1 s e h =>
    rw [Scanner.tokens_of_error h, Scanner.error?_of_error h]
    cases count with
    | zero => rw [item?, next_eq, h]; rfl
    | succ count => rw [item?, next_eq, h]; exact item?_failed _ count
  | case2 s token h hf =>
    obtain ⟨hend, hhalted⟩ := Scanner.halted_of_finish h hf
    rw [Scanner.tokens_of_finish h hf, Scanner.error?_of_finish h hf]
    cases count with
    | zero => rw [item?, next_eq, h]; simp [hf]
    | succ count =>
      rw [item?, next_eq, h]
      exact hhalted.item?_eq_none hend count
  | case3 s token h hf ih =>
    rw [Scanner.tokens_of_token h hf, Scanner.error?_of_token h hf]
    cases count with
    | zero => rw [item?, next_eq, h]; simp [hf]
    | succ count =>
      rw [item?, next_eq, h]
      exact ih count

end TokenStream

/-- A scanner that has found an error stays where it is. At the end of the rule string it then
finds the end again and again, and elsewhere an error about the character that it stands at. A
stream gives the tokens in front of the first error and that error, and nothing after it. -/
theorem ask_after_error (source : List Char) :
    (∀ count before e s later,
      (Scanner.ofSource source).ask count = before ++ (.error e, s) :: later →
        s.StandsIn source ∧
          (s.rest = [] → e.cause = .unterminatedQuote ∨ e.cause = .strayEscape) ∧
          ∀ answer ∈ later, answer.2 = s ∧ s.Stays answer.1) ∧
      ∀ count, (TokenStream.ofSource source).item? count =
        ((tokens source).map .ok ++ (syntaxError? source).toList.map .error)[count]? :=
  ⟨fun _ _ _ _ _ => Scanner.ask_of_error (Scanner.standsIn_ofSource source),
    TokenStream.item?_eq (Scanner.ofSource source)⟩

/-- A special character in a relation is an error again, where it no longer follows an operator. -/
theorem ask_after_error_special :
    let start := Scanner.ofSource "&a<b*c".toList
    let stuck := start.next.2.next.2
    let e : SyntaxError := ⟨.specialCharacter '*', ⟨4, 1⟩, "&a<b".toList, ['c']⟩
    start.ask 5 = [start.next] ++ (.error e, stuck) :: stuck.ask 3 ∧
      ∀ answer ∈ stuck.ask 3, answer.2 = stuck ∧ stuck.Stays answer.1 := by
  intro start stuck e
  have herror : start.next.2.next.1 = .error e := by decide +kernel
  have hask : start.ask 5 = [start.next] ++ (.error e, stuck) :: stuck.ask 3 := by
    rw [← herror]
    rfl
  obtain ⟨-, -, hstays⟩ := (ask_after_error _).1 5 _ e stuck _ hask
  exact ⟨hask, hstays⟩

end CollationRules
