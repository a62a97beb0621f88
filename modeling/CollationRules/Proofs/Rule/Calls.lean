import CollationRules.Proofs.Rule.Halting
import Mathlib.Order.Monotone.Basic

/-! The calls of a scanner. A call that gives a token takes some of the rule string, or implies a
reset in front of a relation, or finds the end. Each call after the first begins at an operator, or
at the end, and this is why settings and overrides can only come first. -/

namespace CollationRules

open Text (byteLength)

namespace Draft

/-- After its operator a token stays a relation, or stays another token. -/
theorem step_take_isRelation {first : Bool} {d next : Draft} {offset : Nat} {c : Char}
    (h : d.step first offset c = .take next) {kind : TokenKind} (hkind : d.kind = some kind)
    (hangled : d.mode = .angled → kind.isRelation) :
    ∃ kind', next.kind = some kind' ∧ kind'.isRelation = kind.isRelation := by
  have houtcome := d.outcome_step first offset c
  rw [h] at houtcome
  cases houtcome with
  | skipped | exclamation | inside | quoted => exact ⟨kind, hkind, rfl⟩
  | begun _ fresh | aside _ fresh =>
    rw [fresh] at hkind
    cases hkind
  | strengthened angled =>
    rw [hangled angled]
    unfold strengthen
    split
    · exact ⟨_, rfl, rfl⟩
    · exact ⟨_, rfl, rfl⟩

theorem Takes.isRelation_eq {first : Bool} {d last : Draft} {offset : Nat} {text : List Char}
    (h : Takes first d offset text last) {kind : TokenKind} (hkind : d.kind = some kind)
    (hangled : d.mode = .angled → kind.isRelation) :
    ∃ kind', last.kind = some kind' ∧ kind'.isRelation = kind.isRelation := by
  induction h generalizing kind with
  | nil => exact ⟨kind, hkind, rfl⟩
  | cons step _ ih =>
    obtain ⟨kind', hnext, hsame⟩ := step_take_isRelation step hkind hangled
    obtain ⟨kind'', hlast, hsame'⟩ := ih hnext fun hmode => by
      obtain ⟨⟨strength, hrelation⟩, -⟩ := step_take_angled step hmode
      rw [Option.some.inj (hnext.symm.trans hrelation)]
      rfl
    exact ⟨kind'', hlast, hsame'.trans hsame⟩

end Draft

namespace Scanner

/-! ### One call -/

section

variable {s : Scanner} {token : Token}

theorem offset_le_next (s : Scanner) : s.offset ≤ s.next.2.offset := by
  obtain ⟨taken, last, -, hnext, -⟩ := s.exists_taken
  rw [hnext]
  exact Nat.le_add_right ..

/-- A call after the first that gives a token begins at an operator, which says whether the token is
a relation, and ends where the token does. -/
theorem next_begins (hfirst : s.first = false) (hrest : Draft.AtOperator s.rest)
    (h : s.next.1 = .ok token) (hf : ¬token.isFinish) :
    token.span = Span.ofOffsets s.offset s.next.2.offset ∧
      ∃ c rest kind, s.rest = c :: rest ∧ operator? c = some kind ∧
        kind.isRelation = token.kind.isRelation := by
  obtain ⟨piece, last, hinput, hoffset, hspan, hpiece, htakes, -, hlast⟩ :=
    next_takes hfirst hrest h hf
  obtain ⟨kind', hkind', hlexeme⟩ := Option.map_eq_some_iff.1 hlast
  refine ⟨hoffset ▸ hspan, ?_⟩
  cases htakes with
  | nil => cases hkind'
  | @cons _ next _ _ c text step rest =>
    obtain ⟨kind, hkind⟩ := Option.isSome_iff_exists.1 (hpiece c rfl)
    rw [Draft.step_ofOperator (hpiece c rfl)] at step
    cases step
    have hangled : (if c = '<' then Mode.angled else .plain) = .angled → kind.isRelation := by
      split
      · rename_i hc
        subst hc
        cases hkind
        exact fun _ => rfl
      · nofun
    obtain ⟨last', hlast', hsame⟩ := rest.isRelation_eq hkind hangled
    rw [hkind'] at hlast'
    cases hlast'
    obtain rfl : kind' = token.kind := congrArg Lexeme.kind hlexeme
    exact ⟨c, text ++ s.next.2.rest, kind, hinput, hkind, hsame.symm⟩

/-- What a call that gives a token does: it takes what is written of the token, or comes to stand in
front of the relation that implies a reset, or finds the end. -/
inductive Proceeds (s : Scanner) (token : Token) : Prop
  | written (more : ¬token.isFinish) (advances : s.offset < s.next.2.offset)
  | implied (first : s.first) (lexeme : token.lexeme = ⟨.reset, Draft.implicitReset⟩)
      (relation : ∃ c rest strength, s.next.2.rest = c :: rest ∧
        operator? c = some (.relation strength))
  | ended (finish : token.isFinish) (ended : s.next.2.rest = [])

theorem proceeds (h : s.next.1 = .ok token) : s.Proceeds token := by
  by_cases hf : token.isFinish
  · exact .ended hf (halted_of_finish h hf).1
  obtain ⟨lead, piece, hinput, hoffset, hlead, -, -, hlexeme⟩ := next_finds h hf
  rcases hlexeme with ⟨last, htakes, -, hlast⟩ | ⟨hfirst, hpassed, c, after, strength, hafter, hc⟩
  · refine .written hf ?_
    cases htakes with
    | nil => cases hlast
    | @cons _ _ _ _ c text =>
      have hpos := c.utf8Size_pos
      rw [hoffset, Text.byteLength_cons]
      omega
  · refine .implied hfirst ?_ ⟨c, after, strength, hafter, hc⟩
    -- The token is the first that is read from here, where nothing but the relation is in front.
    have hread := s.outcome_read []
    have hfront : ∀ c ∈ lead ++ piece, isSkipped c ∨ c = '!' :=
      List.forall_mem_append.2 ⟨fun c hc => .inl (hlead c hc), hpassed⟩
    have hrules : Draft.AtOperator (c :: after) := by
      rintro d ⟨⟩
      rw [hc]
      rfl
    rw [hfirst, hinput, hafter, Pass.read_append, Pass.read_passed hfront,
      outcome_read_rules hrules, tokens_of_token h hf] at hread
    have himplied : impliedReset (c :: after) = [⟨.reset, Draft.implicitReset⟩] := by
      simp [impliedReset, hc]
    rw [himplied] at hread
    exact (List.head_eq_of_cons_eq (congrArg Prod.fst hread)).symm

end

/-! ### Calls one after the other -/

/-- The scanner of a rule string after it has been asked for some number of tokens. -/
def after (source : List Char) : Nat → Scanner
  | 0 => ofSource source
  | count + 1 => (after source count).next.2

section

variable {source : List Char} {count : Nat} {token : Token}

theorem standsIn_after (source : List Char) (count : Nat) :
    (after source count).StandsIn source := by
  induction count with
  | zero => exact standsIn_ofSource source
  | succ count ih => exact ih.next

theorem first_after : (after source count).first = true ↔ count = 0 := by
  cases count with
  | zero => exact ⟨fun _ => rfl, fun _ => rfl⟩
  | succ count => exact ⟨nofun, nofun⟩

theorem offset_after_mono (source : List Char) :
    Monotone fun count => (after source count).offset :=
  monotone_nat_of_le_succ fun count => offset_le_next (after source count)

/-- After some of its tokens a scanner has the others left, and the error behind them. -/
theorem reading_after (h : count ≤ (CollationRules.tokens source).length) :
    (after source count).tokens = (CollationRules.tokens source).drop count ∧
      (after source count).error? = syntaxError? source := by
  induction count with
  | zero => exact ⟨rfl, rfl⟩
  | succ count ih =>
    obtain ⟨htokens, herror⟩ := ih (Nat.le_of_succ_le h)
    rcases (after source count).tokens_cases with hnil | ⟨token, -, -, hcons, hnext⟩
    · rw [hnil, eq_comm, List.drop_eq_nil_iff] at htokens
      omega
    · rw [hcons] at htokens
      have htail := congrArg List.tail htokens
      rw [List.tail_cons, List.tail_drop] at htail
      exact ⟨htail, hnext.symm.trans herror⟩

/-- Each token is the answer to its own call. -/
theorem next_after (h : (CollationRules.tokens source)[count]? = some token) :
    (after source count).next.1 = .ok token ∧ ¬token.isFinish := by
  obtain ⟨hlt, htoken⟩ := List.getElem?_eq_some_iff.1 h
  obtain ⟨htokens, -⟩ := reading_after (Nat.le_of_lt hlt)
  rw [List.drop_eq_getElem_cons hlt, htoken] at htokens
  rcases (after source count).tokens_cases with hnil | ⟨found, hanswer, hf, hcons, -⟩
  · rw [hnil] at htokens
    cases htokens
  · rw [hcons] at htokens
    obtain ⟨rfl, -⟩ := List.cons.inj htokens
    exact ⟨hanswer, hf⟩

/-- A token does not reach beyond its own call. -/
theorem stop_le_after (h : (CollationRules.tokens source)[count]? = some token) :
    token.span.stop.toNat ≤ (after source (count + 1)).offset := by
  obtain ⟨hanswer, hf⟩ := next_after h
  obtain ⟨lead, piece, -, hoffset, hfinds⟩ := next_finds hanswer hf
  rw [after, hoffset, hfinds.span]
  exact Span.stop_ofOffsets_le (Nat.le_add_right ..)

/-- After the end there is nothing but the end. -/
theorem finish_after (h : (after source count).next.1 = .ok token) (hf : token.isFinish) :
    (after source (count + 1)).rest = [] ∧
      (after source (count + 1)).offset = byteLength source ∧
      ∀ later > count, (after source later).next.1 =
        .ok (Token.finish (Span.ofOffsets (byteLength source) (byteLength source))) := by
  obtain ⟨hrest, hhalted⟩ : (after source (count + 1)).rest = [] ∧
      (after source (count + 1)).Halted := halted_of_finish h hf
  have hoffset : (after source (count + 1)).offset = byteLength source := by
    obtain ⟨-, front, hfront, hoffset⟩ := standsIn_after source (count + 1)
    rw [hoffset, hfront, hrest, List.append_nil]
  refine ⟨hrest, hoffset, fun later hlater => ?_⟩
  have hanswer := next_of_end hhalted.later hrest
  have hstays (more : Nat) : after source (count + 1 + more) = after source (count + 1) := by
    induction more with
    | zero => rfl
    | succ more ih => rw [← Nat.add_assoc, after, ih, hanswer]
  obtain ⟨more, rfl⟩ := Nat.exists_eq_add_of_le hlater
  rw [hstays, hanswer, hoffset]

/-- The call after those for all tokens finds the first error, or the end of the rules. -/
theorem next_after_tokens (source : List Char) :
    (∃ e, syntaxError? source = some e ∧
      (after source (CollationRules.tokens source).length).next.1 = .error e) ∨
    ∃ token, syntaxError? source = none ∧ token.isFinish ∧
      (after source (CollationRules.tokens source).length).next.1 = .ok token := by
  obtain ⟨htokens, herror⟩ := reading_after (Nat.le_refl (CollationRules.tokens source).length)
  rw [List.drop_length] at htokens
  rw [← herror]
  generalize after source (CollationRules.tokens source).length = s at htokens
  cases hnext : s.next.1 with
  | error e => exact .inl ⟨e, error?_of_error hnext, rfl⟩
  | ok token =>
    by_cases hf : token.isFinish
    · exact .inr ⟨token, error?_of_finish hnext hf, hf, rfl⟩
    · rw [tokens_of_token hnext hf] at htokens
      cases htokens

theorem error_after {e : SyntaxError} (h : syntaxError? source = some e) :
    (after source (CollationRules.tokens source).length).next.1 = .error e := by
  rcases next_after_tokens source with ⟨e', herror, hnext⟩ | ⟨-, hnone, -⟩
  · obtain rfl : e' = e := Option.some.inj (herror.symm.trans h)
    exact hnext
  · rw [h] at hnone
    cases hnone

/-- Behind a token the first error is in a further token, which begins at an operator. -/
theorem error_begins_after {e : SyntaxError} (h : syntaxError? source = some e)
    (hne : CollationRules.tokens source ≠ []) :
    ∃ front c rest, source = front ++ c :: rest ∧
      (after source (CollationRules.tokens source).length).rest = c :: rest ∧
      (after source (CollationRules.tokens source).length).offset = byteLength front ∧
      (operator? c).isSome := by
  have herror := error_after h
  obtain ⟨count, hcount⟩ := Nat.exists_eq_succ_of_ne_zero (mt List.length_eq_zero_iff.1 hne)
  rw [hcount] at herror ⊢
  have hlast : count < (CollationRules.tokens source).length := hcount ▸ Nat.lt_succ_self count
  have hoperator := next_rest (next_after (List.getElem?_eq_getElem hlast)).1
  obtain ⟨-, front, hfront, hoffset⟩ := standsIn_after source (count + 1)
  cases hrest : (after source (count + 1)).rest with
  | nil =>
    rw [next_of_end rfl hrest] at herror
    cases herror
  | cons c rest =>
    rw [hrest] at hfront
    exact ⟨front, c, rest, hfront, rfl, hoffset, hoperator c (congrArg List.head? hrest)⟩

/-- The call for a token after the first stands at its operator. -/
theorem begins_after (h : (CollationRules.tokens source)[count + 1]? = some token) :
    token.span = Span.ofOffsets (after source (count + 1)).offset
        (after source (count + 2)).offset ∧
      ∃ front c rest kind, source = front ++ c :: rest ∧
        (after source (count + 1)).offset = byteLength front ∧ operator? c = some kind ∧
        kind.isRelation = token.kind.isRelation := by
  obtain ⟨hlt, -⟩ := List.getElem?_eq_some_iff.1 h
  have hbefore := List.getElem?_eq_getElem (Nat.lt_of_succ_lt hlt)
  obtain ⟨hanswer, hf⟩ := next_after h
  obtain ⟨-, front, hfront, hoffset⟩ := standsIn_after source (count + 1)
  obtain ⟨hspan, c, rest, kind, hrest, hoperator, hsame⟩ :=
    next_begins rfl (next_rest (next_after hbefore).1) hanswer hf
  exact ⟨hspan, front, c, rest, kind, hfront.trans (congrArg (front ++ ·) hrest), hoffset,
    hoperator, hsame⟩

end

end Scanner

/-- The first token is a reset, a setting or an override. Every other one is a reset or a relation,
and begins where the call for it stands, at an operator, which says which of the two it is. The end
of the rules is found nowhere but at the end. -/
theorem tokens_shape (source : List Char) :
    (∀ token ∈ (tokens source).head?,
      token.kind = .reset ∨ token.kind = .setting ∨ token.kind = .override) ∧
    (∀ count token, (tokens source)[count + 1]? = some token →
      (token.kind = .reset ∨ ∃ strength, token.kind = .relation strength) ∧
      (Scanner.after source (count + 1)).next.1 = .ok token ∧
      token.span = Span.ofOffsets (Scanner.after source (count + 1)).offset
        (Scanner.after source (count + 2)).offset ∧
      ∃ front c rest kind, source = front ++ c :: rest ∧
        (Scanner.after source (count + 1)).offset = byteLength front ∧ operator? c = some kind ∧
        kind.isRelation = token.kind.isRelation) ∧
    ∀ count token, (Scanner.after source count).next.1 = .ok token → token.isFinish →
      (Scanner.after source (count + 1)).rest = [] ∧
        (Scanner.after source (count + 1)).offset = byteLength source := by
  refine ⟨fun token htoken => ?_, fun count token htoken => ?_, fun count token hanswer hf => ?_⟩
  · have hrelation : token.kind.isRelation = false := by
      apply isRelation_head_lexemes source token.lexeme
      rw [lexemes, List.head?_map, htoken]
      rfl
    rw [Option.mem_def, List.head?_eq_getElem?] at htoken
    obtain ⟨-, hf⟩ := Scanner.next_after htoken
    cases hkind : token.kind with
    | relation strength =>
      rw [hkind] at hrelation
      cases hrelation
    | reset => exact .inl rfl
    | setting => exact .inr (.inl rfl)
    | override => exact .inr (.inr rfl)
    | endOfRules => exact absurd (beq_iff_eq.2 hkind) hf
  · have hin : token.kind.inRules := by
      refine tokens_tail_inRules source token (List.mem_of_getElem? (i := count) ?_)
      rwa [List.getElem?_tail]
    obtain ⟨hspan, hoperator⟩ := Scanner.begins_after htoken
    refine ⟨?_, (Scanner.next_after htoken).1, hspan, hoperator⟩
    cases hkind : token.kind with
    | relation strength => exact .inr ⟨strength, rfl⟩
    | reset => exact .inl rfl
    | _ =>
      rw [hkind] at hin
      cases hin
  · obtain ⟨hrest, hoffset, -⟩ := Scanner.finish_after hanswer hf
    exact ⟨hrest, hoffset⟩

/-- A setting, a reset and a relation whose text begins with a quoted operator. -/
theorem tokens_shape_quoted :
    let source := "[numeric on] !&a<<'<'b".toList
    let token : Token := ⟨.relation .secondary, ['<', 'b'], ⟨16, 6⟩⟩
    (tokens source)[2]? = some token ∧
      (Scanner.after source 2).next.1 = .ok token ∧
      ∃ front c rest kind, source = front ++ c :: rest ∧
        (Scanner.after source 2).offset = byteLength front ∧ operator? c = some kind ∧
        kind.isRelation = token.kind.isRelation := by
  intro source token
  have htoken : (tokens source)[2]? = some token := by decide +kernel
  obtain ⟨-, hanswer, -, hoperator⟩ := (tokens_shape source).2.1 1 token htoken
  exact ⟨htoken, hanswer, hoperator⟩

end CollationRules
