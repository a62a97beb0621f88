import CollationRules.Proofs.Rule.Scanning
import CollationRules.Proofs.Rule.Spans

/-! The division of a rule string into tokens. Each token stands for a part of the rule string, and
these parts follow one another without a gap from the first character that is not skipped up to the
end, or up to the first error. -/

namespace CollationRules

open Text (byteLength)

namespace Draft

/-! ### The part of a token -/

/-- A draft that takes characters is still as at the start and has passed all of them, or has got
its kind at the first character that it did not pass. -/
theorem Takes.idle_cases {first : Bool} {d last : Draft} {offset : Nat} {text : List Char}
    (h : Takes first d offset text last) (hd : d.unplaced = {}) :
    ((∀ c ∈ text, isSkipped c ∨ c = '!') ∧ last.unplaced = {}) ∨
    ∃ front c back, text = front ++ c :: back ∧ (∀ d ∈ front, isSkipped d ∨ d = '!') ∧
      isSkipped c = false ∧ c ≠ '!' ∧
      (first → ∀ strength, operator? c ≠ some (.relation strength)) ∧ last.kind.isSome := by
  induction h with
  | nil => exact .inl ⟨by simp, hd⟩
  | cons step rest ih =>
    rcases step_idle step hd with ⟨hpassed, hnext⟩ | ⟨hkind, hskipped, hother, hwritten⟩
    · rcases ih hnext with ⟨hall, hlast⟩ | ⟨front, c, back, rfl, hfront, hc⟩
      · exact .inl ⟨List.forall_mem_cons.2 ⟨hpassed, hall⟩, hlast⟩
      · exact .inr ⟨_ :: front, c, back, rfl, List.forall_mem_cons.2 ⟨hpassed, hfront⟩, hc⟩
    · exact .inr ⟨[], _, _, rfl, by simp, hskipped, hother, hwritten, rest.kind_isSome hkind⟩

theorem finish_eq {d : Draft} {start : Nat} {lexeme : Lexeme} (hstart : d.start = some start)
    (hlexeme : d.lexeme? = some lexeme) (offset : Nat) :
    (d.finish offset).lexeme = lexeme ∧
      (d.finish offset).span = Span.ofOffsets start offset := by
  obtain ⟨kind, hkind, rfl⟩ := Option.map_eq_some_iff.1 hlexeme
  simp [finish, hkind, hstart, Token.lexeme]

/-- A token is found in a piece of a rule string, behind some characters that are skipped. The piece
is the token, or stands in front of a relation that implies a reset. -/
structure Finds (first : Bool) (offset : Nat) (lead piece rest : List Char) (token : Token) :
    Prop where
  skipped : ∀ c ∈ lead, isSkipped c
  begun : ∀ c ∈ (piece ++ rest).head?, isSkipped c = false
  span : token.span =
    Span.ofOffsets (offset + byteLength lead) (offset + byteLength lead + byteLength piece)
  lexeme :
    (∃ last, Takes first {} (offset + byteLength lead) piece last ∧ last.unfinished? = none ∧
      last.lexeme? = some token.lexeme) ∨
    (first ∧ (∀ c ∈ piece, isSkipped c ∨ c = '!') ∧
      ∃ c after strength, rest = c :: after ∧ operator? c = some (.relation strength))

theorem exists_lexeme {d : Draft} (hkind : d.kind.isSome) : ∃ lexeme, d.lexeme? = some lexeme := by
  obtain ⟨kind, hkind⟩ := Option.isSome_iff_exists.1 hkind
  rw [lexeme?, hkind]
  exact ⟨_, rfl⟩

section Begins

variable {first : Bool} {offset : Nat} {lead piece : List Char} {last : Draft}
  (h : Begins first offset lead piece last)

include h

/-- A token that ends with the rule string. -/
theorem Begins.finds_finish (hclosed : last.unfinished? = none) (hkind : last.kind.isSome) :
    Finds first offset lead piece []
      (last.finish (offset + byteLength lead + byteLength piece)) := by
  have hne : piece ≠ [] := by
    rintro rfl
    cases h.takes
    cases hkind
  obtain ⟨lexeme, hlexeme⟩ := exists_lexeme hkind
  obtain ⟨htoken, hspan⟩ :=
    finish_eq (h.start hne) hlexeme (offset + byteLength lead + byteLength piece)
  rw [← htoken] at hlexeme
  have hbegun : ∀ c ∈ (piece ++ []).head?, isSkipped c = false := by
    rw [List.append_nil]
    exact h.begun
  exact ⟨h.skipped, hbegun, hspan, .inl ⟨last, h.takes, hclosed, hlexeme⟩⟩

theorem Begins.start_stop {final : Draft} {c : Char}
    (stop : last.step first (offset + byteLength lead + byteLength piece) c = .stop final)
    (hc : isSkipped c = false) : final.start = some (offset + byteLength lead) := by
  by_cases hne : piece = []
  · subst hne
    cases h.takes
    exact step_fresh_start hc (congrArg Step.draft? stop)
  · exact step_start (congrArg Step.draft? stop) (h.start hne)

/-- A token that ends in front of an operator. -/
theorem Begins.finds_stop {final : Draft} {c : Char}
    (stop : last.step first (offset + byteLength lead + byteLength piece) c = .stop final)
    (rest : List Char) :
    Finds first offset lead piece (c :: rest)
      (final.finish (offset + byteLength lead + byteLength piece)) := by
  obtain ⟨hoperator, kind, hkind, -⟩ := step_stop stop
  have hc := isSkipped_eq_false hoperator
  have hbegun : ∀ d ∈ (piece ++ c :: rest).head?, isSkipped d = false := by
    cases piece with
    | nil => simpa using hc
    | cons d piece => simpa using h.begun
  obtain ⟨lexeme, hlexeme⟩ := exists_lexeme (d := final) (by rw [hkind]; rfl)
  obtain ⟨htoken, hspan⟩ := finish_eq (h.start_stop stop hc) hlexeme
    (offset + byteLength lead + byteLength piece)
  refine ⟨h.skipped, hbegun, hspan, ?_⟩
  rcases step_stop_cases stop with ⟨closed, hsame | ⟨hnone, hfirst, ⟨strength, hrelation⟩, -⟩⟩
  · rw [← htoken] at hlexeme
    exact .inl ⟨last, h.takes, closed, hsame ▸ hlexeme⟩
  · -- the implied reset, in front of which all is passed
    rcases h.takes.idle_cases rfl with ⟨hpassed, -⟩ | ⟨-, -, -, -, -, -, -, -, hsome⟩
    · exact .inr ⟨hfirst, hpassed, c, rest, strength, rfl, hrelation⟩
    · rw [hnone] at hsome
      cases hsome

end Begins

theorem finds_scan {first : Bool} {offset : Nat} {input : List Char} {token : Token}
    (h : (({} : Draft).scan first offset input).found = .ok token) (hf : ¬token.isFinish) :
    ∃ lead piece rest, input = lead ++ piece ++ rest ∧
      ({} : Draft).scan first offset input =
        ⟨.ok token, offset + byteLength lead + byteLength piece, rest⟩ ∧
      Finds first offset lead piece rest token := by
  obtain ⟨taken, rest, last, rfl, htakes, hends⟩ := scan_cases first {} offset input
  obtain ⟨lead, piece, rfl, hbegins⟩ := htakes.exists_piece
  rw [Text.byteLength_append, ← Nat.add_assoc] at hends
  generalize ({} : Draft).scan first offset (lead ++ piece ++ rest) = scan at h hends ⊢
  refine ⟨lead, piece, rest, rfl, ?_⟩
  cases hends with
  | unfinished => cases h
  | failed => cases h
  | finished closed =>
    cases h
    cases hkind : last.kind with
    | none =>
      rw [finish, hkind] at hf
      exact absurd rfl hf
    | some kind => exact ⟨rfl, hbegins.finds_finish closed (by rw [hkind]; rfl)⟩
  | stopped stop =>
    cases h
    exact ⟨rfl, hbegins.finds_stop stop _⟩

end Draft

/-! ### Pieces -/

/-- A piece of a rule string that is a token wherever it stands. At the start of a rule string a
reset is implied in front of a relation. -/
structure IsPiece (piece : List Char) (token : Token) : Prop where
  read : reading piece =
    ((if token.kind.isRelation then [⟨.reset, Draft.implicitReset⟩] else []) ++ [token.lexeme],
      none)
  begun : ∀ c ∈ piece.head?, isSkipped c = false
  implied : token.kind.isRelation → impliedReset piece ≠ []

theorem IsPiece.ne_nil {piece : List Char} {token : Token} (h : IsPiece piece token) :
    piece ≠ [] := by
  rintro rfl
  have hread : reading [] = ([], none) := by rw [← outcome_source]; rfl
  simpa using congrArg Prod.fst (h.read.symm.trans hread)

theorem outcome_of_takes {first : Bool} {last : Draft} {offset : Nat} {piece : List Char}
    {token : Token} (h : Draft.Takes first {} offset piece last) (hclosed : last.unfinished? = none)
    (hlexeme : last.lexeme? = some token.lexeme) :
    ((⟨first, [], {}, none⟩ : Pass).read piece).outcome = ([token.lexeme], none) := by
  have hread := h.read []
  have hopen : last.unplaced.unfinished?.map Prod.fst = none := by
    rw [Draft.unfinished?_unplaced, hclosed]
    rfl
  rw [show ({} : Draft).unplaced = {} from rfl] at hread
  rw [hread, Pass.outcome, hopen, Draft.lexeme?_unplaced, hlexeme]
  rfl

/-- The first token of a rule string, where it is written. -/
theorem IsPiece.of_first {last : Draft} {offset : Nat} {piece : List Char} {token : Token}
    (h : Draft.Takes true {} offset piece last) (hclosed : last.unfinished? = none)
    (hlexeme : last.lexeme? = some token.lexeme) (hbegun : ∀ c ∈ piece.head?, isSkipped c = false) :
    IsPiece piece token := by
  have hread : reading piece = ([token.lexeme], none) := by
    rw [← outcome_source]
    exact outcome_of_takes h hclosed hlexeme
  have hrelation : token.kind.isRelation = false := by
    apply isRelation_head_lexemes piece token.lexeme
    rw [(reading_eq_iff.1 hread).2]
    rfl
  refine ⟨?_, hbegun, ?_⟩
  · rw [hread, hrelation]
    rfl
  · rw [hrelation]
    intro h
    cases h

theorem impliedReset_cases (rules : List Char) :
    impliedReset rules = [] ∨
    impliedReset rules = [⟨.reset, Draft.implicitReset⟩] ∧
      ∃ c rest strength, rules = c :: rest ∧ operator? c = some (.relation strength) := by
  unfold impliedReset
  split
  · rename_i strength hc
    obtain ⟨c, hhead, hc⟩ := Option.bind_eq_some_iff.1 hc
    obtain ⟨rest, rfl⟩ := List.head?_eq_some_iff.1 hhead
    exact .inr ⟨rfl, c, rest, strength, rfl, hc⟩
  · exact .inl rfl

/-- A later token, which begins at an operator. -/
theorem IsPiece.of_later {last : Draft} {offset : Nat} {piece : List Char} {token : Token}
    (h : Draft.Takes false {} offset piece last) (hclosed : last.unfinished? = none)
    (hlexeme : last.lexeme? = some token.lexeme) (hpiece : Draft.AtOperator piece) :
    IsPiece piece token := by
  have hlater : Pass.laterOutcome piece = ([token.lexeme], none) :=
    outcome_of_takes h hclosed hlexeme
  have hread : reading piece = (impliedReset piece ++ [token.lexeme], none) := by
    rw [← outcome_source, outcome_read_rules hpiece, hlater]
  have himplied : impliedReset piece =
      if token.kind.isRelation then [⟨.reset, Draft.implicitReset⟩] else [] := by
    rcases impliedReset_cases piece with hnone | ⟨hsome, c, rest, strength, rfl, hc⟩
    · -- the token is the first one of its piece, and the first is no relation
      have hrelation : token.kind.isRelation = false := by
        apply isRelation_head_lexemes piece token.lexeme
        rw [(reading_eq_iff.1 hread).2, hnone]
        rfl
      rw [hnone, hrelation]
      rfl
    · cases h with
      | cons step rest =>
        rw [Draft.step_ofOperator (hpiece c rfl)] at step
        cases step
        obtain ⟨strength', hlast⟩ := rest.isRelation ⟨strength, hc⟩
        obtain ⟨kind, hkind, heq⟩ := Option.map_eq_some_iff.1 hlexeme
        obtain rfl : kind = token.kind := congrArg Lexeme.kind heq
        rw [hsome, Option.some.inj (hkind.symm.trans hlast)]
        rfl
  refine ⟨himplied ▸ hread, fun c hc => isSkipped_eq_false (hpiece c hc), fun hrelation => ?_⟩
  rw [himplied, if_pos hrelation]
  simp

/-! ### All tokens -/

namespace Scanner

theorem next_finds {s : Scanner} {token : Token} (h : s.next.1 = .ok token)
    (hf : ¬token.isFinish) :
    ∃ lead piece, s.rest = lead ++ piece ++ s.next.2.rest ∧
      s.next.2.offset = s.offset + byteLength lead + byteLength piece ∧
      Draft.Finds s.first s.offset lead piece s.next.2.rest token := by
  obtain ⟨source, rest, offset, first⟩ := s
  have hfound : (({} : Draft).scan first offset rest).found = .ok token := by
    simp only [next] at h
    cases hfound : (({} : Draft).scan first offset rest).found with
    | error fault =>
      rw [hfound] at h
      cases h
    | ok found =>
      rw [hfound] at h
      cases h
      rfl
  obtain ⟨lead, piece, after, hinput, hscan, hfinds⟩ := Draft.finds_scan hfound hf
  refine ⟨lead, piece, ?_⟩
  simp only [next, hscan]
  exact ⟨hinput, trivial, hfinds⟩

theorem tokens_cases (s : Scanner) :
    s.tokens = [] ∨
    ∃ token, s.next.1 = .ok token ∧ ¬token.isFinish ∧ s.tokens = token :: s.next.2.tokens ∧
      s.error? = s.next.2.error? := by
  cases hnext : s.next.1 with
  | error e => exact .inl (tokens_of_error hnext)
  | ok token =>
    by_cases hf : token.isFinish
    · exact .inl (tokens_of_finish hnext hf)
    · exact .inr ⟨token, rfl, hf, tokens_of_token hnext hf, error?_of_token hnext hf⟩

/-- What a scanner takes for a token after the first, from the operator at which it stands. -/
theorem next_takes {s : Scanner} (hfirst : s.first = false) (hrest : Draft.AtOperator s.rest)
    {token : Token} (h : s.next.1 = .ok token) (hf : ¬token.isFinish) :
    ∃ piece last, s.rest = piece ++ s.next.2.rest ∧
      s.next.2.offset = s.offset + byteLength piece ∧
      token.span = Span.ofOffsets s.offset (s.offset + byteLength piece) ∧
      Draft.AtOperator piece ∧ Draft.Takes false {} s.offset piece last ∧
      last.unfinished? = none ∧ last.lexeme? = some token.lexeme := by
  obtain ⟨lead, piece, hinput, hoffset, hlead, -, hspan, hlexeme⟩ := next_finds h hf
  rw [hfirst] at hlexeme
  obtain ⟨last, htakes, hclosed, hlast⟩ :=
    hlexeme.resolve_right fun h => Bool.false_ne_true h.1
  have hnil : lead = [] := by
    cases lead with
    | nil => rfl
    | cons c lead =>
      have hskipped := hlead c (by simp)
      rw [isSkipped_eq_false (hrest c (by rw [hinput]; rfl))] at hskipped
      cases hskipped
  subst hnil
  have hpiece : Draft.AtOperator piece := by
    intro c hc
    obtain ⟨text, rfl⟩ := List.head?_eq_some_iff.1 hc
    exact hrest c (by rw [hinput]; rfl)
  exact ⟨piece, last, hinput, hoffset, hspan, hpiece, htakes, hclosed, hlast⟩

/-- A token after the first begins where the scanner stands, as a piece of its own. -/
theorem next_piece {s : Scanner} (hfirst : s.first = false) (hrest : Draft.AtOperator s.rest)
    {token : Token} (h : s.next.1 = .ok token) (hf : ¬token.isFinish) :
    ∃ piece, s.rest = piece ++ s.next.2.rest ∧ s.next.2.offset = s.offset + byteLength piece ∧
      token.span = Span.ofOffsets s.offset (s.offset + byteLength piece) ∧
      IsPiece piece token := by
  obtain ⟨piece, last, hinput, hoffset, hspan, hpiece, htakes, hclosed, hlast⟩ :=
    next_takes hfirst hrest h hf
  exact ⟨piece, hinput, hoffset, hspan, .of_later htakes hclosed hlast hpiece⟩

/-- What a scanner has left, where it stands at an operator and not at the start: the pieces of its
tokens, one after the other, and behind them the error if there is one. -/
theorem exists_pieces {s : Scanner} (hfirst : s.first = false) (hrest : Draft.AtOperator s.rest) :
    ∃ pieces rest, s.rest = pieces.flatten ++ rest ∧
      s.tokens.map Token.span = Span.consecutive s.offset pieces ∧
      List.Forall₂ IsPiece pieces s.tokens ∧ (s.error? = none → rest = []) := by
  induction s using Scanner.answers.induct with
  | case1 s e h =>
    rw [tokens_of_error h, error?_of_error h]
    refine ⟨[], s.rest, rfl, rfl, .nil, fun hnone => ?_⟩
    cases hnone
  | case2 s token h hf =>
    rw [tokens_of_finish h hf]
    refine ⟨[], s.rest, rfl, rfl, .nil, fun _ => ?_⟩
    rcases next_inRules hfirst hrest h with ⟨hnil, -⟩ | hin
    · exact hnil
    · rw [Token.isFinish, beq_iff_eq] at hf
      rw [hf] at hin
      cases hin
  | case3 s token h hf ih =>
    obtain ⟨pieces, rest, hpieces, hspans, hall, hend⟩ := ih rfl (next_rest h)
    obtain ⟨piece, hinput, hoffset, hspan, hpiece⟩ := next_piece hfirst hrest h hf
    rw [tokens_of_token h hf, error?_of_token h hf]
    refine ⟨piece :: pieces, rest, ?_, ?_, .cons hpiece hall, hend⟩
    · rw [hinput, hpieces, List.flatten_cons, List.append_assoc]
    · rw [List.map_cons, hspans, hoffset, hspan]
      rfl

end Scanner

/-- A rule string from its first character on that is neither skipped nor an exclamation mark. -/
def firstRule (source : List Char) : List Char := source.dropWhile fun c => isSkipped c || c == '!'

theorem firstRule_eq {front : List Char} (hfront : ∀ c ∈ front, isSkipped c ∨ c = '!') {c : Char}
    (hskipped : isSkipped c = false) (hother : c ≠ '!') (rest : List Char) :
    firstRule (front ++ c :: rest) = c :: rest := by
  unfold firstRule
  rw [List.dropWhile_append_of_pos (by simpa using hfront), List.dropWhile_cons_of_neg]
  simp [hskipped, hother]

/-- Nothing is implied where a character of the first token gives it its kind. -/
theorem impliedReset_of_takes {lead piece : List Char} (hlead : ∀ c ∈ lead, isSkipped c)
    {offset : Nat} {last : Draft} (h : Draft.Takes true {} offset piece last)
    (hkind : last.kind.isSome) (rest : List Char) :
    impliedReset (firstRule (lead ++ piece ++ rest)) = [] := by
  rcases h.idle_cases rfl with
    ⟨-, hfresh⟩ | ⟨front, c, back, rfl, hfront, hc, hother, hrelation, -⟩
  · rw [show last.kind = none from congrArg Draft.kind hfresh] at hkind
    cases hkind
  · have hpassed : ∀ c ∈ lead ++ front, isSkipped c ∨ c = '!' :=
      List.forall_mem_append.2 ⟨fun c hc => .inl (hlead c hc), hfront⟩
    have hrule := firstRule_eq hpassed hc hother (back ++ rest)
    rw [List.append_assoc, ← List.cons_append, ← List.append_assoc front,
      ← List.append_assoc lead] at hrule
    rcases impliedReset_cases (firstRule (lead ++ (front ++ c :: back) ++ rest)) with
      hnone | ⟨-, d, others, strength, heq, hd⟩
    · exact hnone
    · obtain ⟨rfl, -⟩ := List.cons.inj (hrule.symm.trans heq)
      exact absurd hd (hrelation rfl strength)

/-- A reset is implied where a relation comes first. -/
theorem impliedReset_of_relation {front : List Char} (hfront : ∀ c ∈ front, isSkipped c ∨ c = '!')
    {c : Char} {strength : Strength} (hc : operator? c = some (.relation strength))
    (rest : List Char) :
    impliedReset (firstRule (front ++ c :: rest)) = [⟨.reset, Draft.implicitReset⟩] := by
  have hother : c ≠ '!' := by
    rintro rfl
    cases hc
  rw [firstRule_eq hfront (isSkipped_eq_false (by rw [hc]; rfl)) hother]
  simp [impliedReset, hc]

/-- The tokens that are written in a rule string, which are all but a reset that is implied. -/
def writtenTokens (source : List Char) : List Token :=
  (tokens source).drop (impliedReset (firstRule source)).length

theorem lexemes_eq (source : List Char) :
    lexemes source =
      impliedReset (firstRule source) ++ (writtenTokens source).map Token.lexeme := by
  rcases impliedReset_cases (firstRule source) with hnone | ⟨-, c, rest, strength, hrule, hc⟩
  · rw [writtenTokens, hnone]
    rfl
  · have hpassed : ∀ c ∈ source.takeWhile fun c => isSkipped c || c == '!', isSkipped c ∨ c = '!' :=
      fun c hc => by simpa using List.mem_takeWhile_imp hc
    have hrules : Draft.AtOperator (firstRule source) := by
      rw [hrule]
      rintro d ⟨⟩
      rw [hc]
      rfl
    have hlexemes := lexemes_passed hpassed hrules
    rw [firstRule, List.takeWhile_append_dropWhile, ← firstRule] at hlexemes
    rw [writtenTokens, List.map_drop]
    change lexemes source = impliedReset (firstRule source) ++
      (lexemes source).drop (impliedReset (firstRule source)).length
    rw [hlexemes, List.drop_left]

/-- A rule string divided into the pieces of its tokens: that of the implied reset, if there is one,
and those of the tokens that are written. What is left after them begins with the first error. -/
structure Division (source : List Char) (implied pieces : List (List Char)) (rest : List Char) :
    Prop where
  whole : source = source.takeWhile isSkipped ++ (implied ++ pieces).flatten ++ rest
  spans : (tokens source).map Token.span =
    Span.consecutive (byteLength (source.takeWhile isSkipped)) (implied ++ pieces)
  length : implied.length = (impliedReset (firstRule source)).length
  passed : ∀ piece ∈ implied, ∀ c ∈ piece, isSkipped c ∨ c = '!'
  written : List.Forall₂ IsPiece pieces (writtenTokens source)
  ended : syntaxError? source = none → tokens source ≠ [] → rest = []

theorem takeWhile_isSkipped_eq {lead rest : List Char} (hlead : ∀ c ∈ lead, isSkipped c)
    (hrest : ∀ c ∈ rest.head?, isSkipped c = false) :
    (lead ++ rest).takeWhile isSkipped = lead := by
  rw [List.takeWhile_append_of_pos hlead]
  cases rest with
  | nil => simp
  | cons c rest => simp [hrest c rfl]

theorem Division.of_nil {source : List Char} (h : tokens source = []) :
    Division source [] [] (source.dropWhile isSkipped) := by
  have hlexemes := lexemes_eq source
  have hnil : lexemes source = [] := congrArg (List.map Token.lexeme) h
  rw [hnil, eq_comm, List.append_eq_nil_iff, List.map_eq_nil_iff] at hlexemes
  obtain ⟨himplied, hwritten⟩ := hlexemes
  exact {
    whole := by simp
    spans := congrArg (List.map Token.span) h
    length := by rw [himplied]; rfl
    passed := nofun
    written := by rw [hwritten]; exact .nil
    ended := fun _ hne => absurd h hne }

theorem exists_division (source : List Char) :
    ∃ implied pieces rest, Division source implied pieces rest := by
  rcases (Scanner.ofSource source).tokens_cases with hnil | ⟨token, hnext, hf, htokens, herror⟩
  · exact ⟨_, _, _, .of_nil hnil⟩
  change tokens source = _ at htokens
  obtain ⟨pieces, rest, hpieces, hspans, hall, hend⟩ :=
    Scanner.exists_pieces rfl (Scanner.next_rest hnext)
  obtain ⟨lead, piece, hinput, hoffset, hlead, hbegun, hspan, hlexeme⟩ :=
    Scanner.next_finds hnext hf
  change source = _ at hinput
  rw [show (Scanner.ofSource source).offset = 0 from rfl, Nat.zero_add] at hoffset hspan
  have hskipped : source.takeWhile isSkipped = lead := by
    rw [hinput, List.append_assoc]
    exact takeWhile_isSkipped_eq hlead hbegun
  have hwhole : source = source.takeWhile isSkipped ++ (piece :: pieces).flatten ++ rest := by
    rw [hpieces] at hinput
    rw [hskipped]
    simpa using hinput
  have hspans : (tokens source).map Token.span =
      Span.consecutive (byteLength (source.takeWhile isSkipped)) (piece :: pieces) := by
    rw [htokens, List.map_cons, hspans, hoffset, hskipped, hspan]
    rfl
  have hended : syntaxError? source = none → tokens source ≠ [] → rest = [] :=
    fun hnone _ => hend (herror ▸ hnone)
  rcases hlexeme with ⟨last, htakes, hclosed, hlast⟩ | ⟨-, hpassed, c, after, strength, hafter, hc⟩
  · have hkind : last.kind.isSome := by
      obtain ⟨kind, hkind, -⟩ := Option.map_eq_some_iff.1 hlast
      rw [hkind]
      rfl
    have himplied : impliedReset (firstRule source) = [] := by
      rw [hinput]
      exact impliedReset_of_takes hlead htakes hkind _
    refine ⟨[], piece :: pieces, rest, hwhole, hspans, by rw [himplied]; rfl, nofun, ?_, hended⟩
    rw [writtenTokens, himplied, htokens]
    refine .cons (.of_first htakes hclosed hlast fun c hc => hbegun c ?_) hall
    obtain ⟨text, rfl⟩ := List.head?_eq_some_iff.1 hc
    rfl
  · have hfront : ∀ c ∈ lead ++ piece, isSkipped c ∨ c = '!' :=
      List.forall_mem_append.2 ⟨fun c hc => .inl (hlead c hc), hpassed⟩
    have himplied : impliedReset (firstRule source) = [⟨.reset, Draft.implicitReset⟩] := by
      rw [hinput, hafter]
      exact impliedReset_of_relation hfront hc after
    refine ⟨[piece], pieces, rest, hwhole, hspans, by rw [himplied]; rfl, ?_, ?_, hended⟩
    · rwa [List.forall_mem_singleton]
    · rw [writtenTokens, himplied, htokens]
      exact hall

namespace Division

variable {source : List Char} {implied pieces : List (List Char)} {rest : List Char}
  (h : Division source implied pieces rest) (hsize : byteLength source < UInt32.size)

include h

theorem spans_writtenTokens :
    (writtenTokens source).map Token.span =
      Span.consecutive (byteLength (source.takeWhile isSkipped ++ implied.flatten)) pieces := by
  rw [writtenTokens, List.map_drop, h.spans, Span.consecutive_append, ← h.length,
    List.drop_left' (Span.length_consecutive ..), Text.byteLength_append]

/-- The parts that neighbouring tokens stand for. -/
theorem exists_parts {front group back : List Token}
    (htokens : tokens source = front ++ group ++ back) :
    ∃ before parts after, source = before ++ parts.flatten ++ after ∧
      group.map Token.span = Span.consecutive (byteLength before) parts := by
  have hwhole := h.whole
  have hspans := h.spans
  rw [htokens, List.map_append, List.map_append] at hspans
  generalize implied ++ pieces = parts at hwhole hspans
  obtain ⟨parts, after, rfl, hspans, -⟩ := Span.consecutive_eq_append hspans.symm
  obtain ⟨before, parts, rfl, -, hspans⟩ := Span.consecutive_eq_append hspans.symm
  rw [← Text.byteLength_append] at hspans
  refine ⟨source.takeWhile isSkipped ++ before.flatten, parts, after.flatten ++ rest, ?_, hspans⟩
  simpa using hwhole

include hsize

theorem size_lt :
    byteLength (source.takeWhile isSkipped) + byteLength (implied ++ pieces).flatten <
      UInt32.size := by
  have hwhole := congrArg byteLength h.whole
  rw [Text.byteLength_append, Text.byteLength_append] at hwhole
  omega

/-- The span of a token covers the piece that it stands for. -/
theorem exists_piece {token : Token} (htoken : token ∈ writtenTokens source) :
    ∃ piece, IsPiece piece token ∧ token.span.Covers source piece := by
  have hlead := h.size_lt hsize
  rw [List.flatten_append, Text.byteLength_append, ← Nat.add_assoc, ← Text.byteLength_append]
    at hlead
  have hcovers := Span.covers_consecutive _ pieces rest hlead
  rw [← h.spans_writtenTokens, List.append_assoc (source.takeWhile isSkipped),
    ← List.flatten_append, ← h.whole, List.forall₂_map_left_iff] at hcovers
  have hboth : List.Forall₂
      (fun token piece => IsPiece piece token ∧ token.span.Covers source piece)
      (writtenTokens source) pieces :=
    hcovers.mp (fun _ _ hspan hpiece => ⟨hpiece, hspan⟩) h.written.flip
  exact Span.exists_of_forall₂ hboth token htoken

end Division

/-- The tokens that are not written are those of the implied reset. -/
theorem exists_impliedTokens (source : List Char) :
    ∃ implied, tokens source = implied ++ writtenTokens source ∧
      implied.map Token.lexeme = impliedReset (firstRule source) := by
  let count := (impliedReset (firstRule source)).length
  have hlexemes := congrArg (List.take count) (lexemes_eq source)
  rw [List.take_left, lexemes, ← List.map_take] at hlexemes
  exact ⟨(tokens source).take count, (List.take_append_drop ..).symm, hlexemes⟩

/-- The spans of tokens tile the rule string. -/
theorem tokens_tile {source : List Char} (hsize : byteLength source < UInt32.size)
    (h : syntaxError? source = none) :
    let spans := (tokens source).map Token.span
    (∀ span ∈ spans.head?, span.offset.toNat = byteLength (source.takeWhile isSkipped)) ∧
      spans.IsChain (fun before span => before.stop = span.offset) ∧
      (∀ span ∈ spans.getLast?, span.stop.toNat = byteLength source) ∧
      (∀ span ∈ spans, ∃ part, span.Covers source part) ∧
      ∃ implied, tokens source = implied ++ writtenTokens source ∧
        implied.map Token.lexeme = impliedReset (firstRule source) ∧
        ∀ token ∈ writtenTokens source, token.span.isEmpty = false := by
  intro spans
  obtain ⟨implied, pieces, rest, hdivision⟩ := exists_division source
  obtain ⟨front, htokens, hfront⟩ := exists_impliedTokens source
  have hlead := hdivision.size_lt hsize
  have hspans : spans = _ := hdivision.spans
  refine ⟨?_, ?_, ?_, ?_, front, htokens, hfront, ?_⟩
  · rw [hspans]
    exact Span.offset_head_consecutive (by omega) _
  · rw [hspans]
    exact Span.isChain_consecutive hlead
  · intro span hspan
    have hne : tokens source ≠ [] := by
      intro hnil
      simp [spans, hnil] at hspan
    have hwhole := congrArg byteLength hdivision.whole
    rw [hdivision.ended h hne, List.append_nil, Text.byteLength_append] at hwhole
    rw [hwhole]
    exact Span.stop_getLast_consecutive hlead span (hspans ▸ hspan)
  · have hcovers := Span.covers_consecutive _ _ rest hlead
    rw [← hspans, ← hdivision.whole] at hcovers
    exact Span.exists_of_forall₂ hcovers
  · intro token htoken
    obtain ⟨piece, hpiece, hspan⟩ := hdivision.exists_piece hsize htoken
    exact hspan.isEmpty_eq_false hpiece.ne_nil

/-- Blanks, exclamation marks and characters of several bytes. The span of the implied reset is that
of the exclamation mark. -/
theorem tokens_tile_implied :
    let source := " !<'ß' \u20AC! &e\u0301".toList
    syntaxError? source = none ∧
      tokens source =
        [⟨.reset, "[top]".toList, ⟨1, 1⟩⟩, ⟨.relation .primary, "ß\u20AC".toList, ⟨2, 11⟩⟩,
          ⟨.reset, "e\u0301".toList, ⟨13, 4⟩⟩] ∧
      ((tokens source).map Token.span).IsChain fun before span => before.stop = span.offset := by
  intro source
  have herror : syntaxError? source = none := by decide +kernel
  have hsize : byteLength source < UInt32.size := by decide +kernel
  exact ⟨herror, by decide +kernel, (tokens_tile hsize herror).2.1⟩

end CollationRules
