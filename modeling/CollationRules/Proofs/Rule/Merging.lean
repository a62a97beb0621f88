import CollationRules.Rule.Run
import Mathlib.Data.List.Forall2
import Mathlib.Data.List.SplitBy

/-! The tokens that runs hold. The runs of some tokens hold these tokens in order, each exactly
once, and a run of several tokens holds none with a mark and no contraction. -/

namespace CollationRules

/-- Whether an operand is at most one character, and no mark. -/
def isSimple (text : List Char) : Bool :=
  !isContraction text && !hasExpansion text && !hasContext text

theorem isSimple_iff {text : List Char} :
    isSimple text ↔
      isContraction text = false ∧ expansionMark ∉ text ∧ contextMark ∉ text := by
  simp [isSimple, hasExpansion, hasContext, and_assoc]

theorem isSimple_eq_singleton {text : List Char} (h : isSimple text) (hne : text ≠ []) :
    ∃ c, text = [c] := by
  obtain ⟨hshort, -, -⟩ := isSimple_iff.1 h
  match text with
  | [] => exact absurd rfl hne
  | [c] => exact ⟨c, rfl⟩
  | _ :: _ :: _ => cases hshort

/-- Whether a token goes into the run of the token before it. -/
def joins (before token : Token) : Bool :=
  before.kind == token.kind && isSimple before.text && isSimple token.text

namespace Run

/-- A run that holds some tokens: it has their kind, their operands joined, their number and their
spans merged, knows of the last whether it is a contraction, and holds several only if all of them
are simple. -/
structure Holds (run : Run) (tokens : List Token) : Prop where
  nonempty : tokens ≠ []
  kind : ∀ token ∈ tokens, token.kind = run.kind
  text : run.text = tokens.flatMap Token.text
  count : run.count = tokens.length
  span : run.span = (tokens.map Token.span).foldl Span.merge .nowhere
  last : ∀ token ∈ tokens.getLast?, run.lastIsContraction = isContraction token.text
  simple : 1 < tokens.length → ∀ token ∈ tokens, isSimple token.text

theorem holds_ofToken (token : Token) : (ofToken token).Holds [token] where
  nonempty := by simp
  kind := by simp [ofToken]
  text := by simp [ofToken]
  count := rfl
  span := by simp [ofToken]
  last := by simp [ofToken]
  simple := by simp

theorem Holds.contains_eq_false {run : Run} {tokens : List Token} (h : run.Holds tokens) {c : Char}
    (hc : run.text.contains c = false) {token : Token} (ht : token ∈ tokens) :
    token.text.contains c = false := by
  rw [h.text] at hc
  simp only [List.contains_eq_mem, List.mem_flatMap, decide_eq_false_iff_not] at hc ⊢
  exact fun hmem => hc ⟨token, ht, hmem⟩

/-- The invariant that each token keeps: the run that accepts it holds it after the others. -/
theorem Holds.add {run : Run} {tokens : List Token} (h : run.Holds tokens) {token : Token}
    (ha : run.accepts token) : (run.add token).Holds (tokens ++ [token]) := by
  simp only [accepts, Bool.and_eq_true, Bool.not_eq_true', beq_iff_eq] at ha
  obtain ⟨⟨⟨⟨⟨⟨hkind, hcontr⟩, hlast⟩, hexp⟩, hrunExp⟩, hctx⟩, hrunCtx⟩ := ha
  refine ⟨by simp, ?_, by simp [Run.add, h.text], by simp [Run.add, h.count],
    by simp [Run.add, h.span], by simp [Run.add], ?_⟩
  · intro other hother
    rcases List.mem_append.1 hother with hmem | hmem
    · exact (h.kind other hmem).trans hkind
    · rw [List.mem_singleton.1 hmem]
      rfl
  · intro _ other hother
    rcases List.mem_append.1 hother with hmem | hmem
    · have hcontrOther : isContraction other.text = false := by
        by_cases hlong : 1 < tokens.length
        · have := h.simple hlong other hmem
          simp only [isSimple, Bool.and_eq_true, Bool.not_eq_true'] at this
          exact this.1.1
        · -- a run of one token knows of that token itself
          obtain ⟨only, rfl⟩ : ∃ only, tokens = [only] :=
            List.length_eq_one_iff.1 (by have := List.length_pos_iff.2 h.nonempty; omega)
          rw [List.mem_singleton.1 hmem, ← h.last only rfl]
          exact hlast
      have hexpOther : hasExpansion other.text = false := h.contains_eq_false hrunExp hmem
      have hctxOther : hasContext other.text = false := h.contains_eq_false hrunCtx hmem
      simp [isSimple, hcontrOther, hexpOther, hctxOther]
    · rw [List.mem_singleton.1 hmem]
      simp [isSimple, hcontr, hexp, hctx]

/-- What a run accepts depends on its last token alone. -/
theorem Holds.accepts_eq {run : Run} {tokens : List Token} (h : run.Holds tokens) {last : Token}
    (hlast : last ∈ tokens.getLast?) (token : Token) : run.accepts token = joins last token := by
  have hmem := List.mem_of_mem_getLast? hlast
  have hsimple : (!run.lastIsContraction && !hasExpansion run.text && !hasContext run.text) =
      isSimple last.text := by
    by_cases hlong : 1 < tokens.length
    · have hmarks (mark : Char) (hmark : ∀ token ∈ tokens, mark ∉ token.text) :
          run.text.contains mark = false := by
        simpa [h.text] using fun token htoken => hmark token htoken
      have hexpansion := hmarks expansionMark fun token htoken =>
        (isSimple_iff.1 (h.simple hlong token htoken)).2.1
      have hcontext := hmarks contextMark fun token htoken =>
        (isSimple_iff.1 (h.simple hlong token htoken)).2.2
      have hlastSimple := h.simple hlong last hmem
      rw [hlastSimple, h.last last hlast, (isSimple_iff.1 hlastSimple).1, hasExpansion, hasContext,
        hexpansion, hcontext]
      rfl
    · obtain ⟨only, rfl⟩ : ∃ only, tokens = [only] :=
        List.length_eq_one_iff.1 (by have := List.length_pos_iff.2 h.nonempty; omega)
      obtain rfl : only = last := by simpa using hlast
      have htext : run.text = only.text := by simpa using h.text
      rw [h.last only rfl, htext, isSimple]
  rw [joins, h.kind last hmem, ← hsimple, isSimple, accepts]
  ac_rfl

theorem holds_gather (run : Run) (held rest : List Token) (h : run.Holds held)
    (hheld : held.IsChain fun a b => joins a b) :
    List.Forall₂ Holds (run.gather rest) ((held ++ rest).splitBy joins) := by
  induction rest generalizing run held with
  | nil =>
    rw [List.append_nil, List.splitBy_of_isChain h.nonempty hheld]
    exact .cons h .nil
  | cons token rest ih =>
    unfold gather
    split
    · rename_i ha
      have hchain : (held ++ [token]).IsChain fun a b => joins a b := by
        refine List.isChain_append.2 ⟨hheld, .singleton token, ?_⟩
        intro last hlast next hnext
        obtain rfl : token = next := by simpa using hnext
        rw [← h.accepts_eq hlast]
        exact ha
      simpa using ih (run.add token) (held ++ [token]) (h.add ha) hchain
    · rename_i ha
      have hends : ∀ last ∈ held.getLast?, joins last token = false := by
        intro last hlast
        rw [← h.accepts_eq hlast]
        simpa using ha
      rw [List.splitBy_append_cons rest hends, List.splitBy_of_isChain h.nonempty hheld]
      exact .cons h (ih (ofToken token) [token] (holds_ofToken token) (.singleton token))

/-- The runs of some tokens hold the longest groups of neighbours that join. -/
theorem holds_splitBy (tokens : List Token) :
    List.Forall₂ Holds (ofTokens tokens) (tokens.splitBy joins) := by
  cases tokens with
  | nil => exact .nil
  | cons token rest =>
    exact holds_gather (ofToken token) [token] rest (holds_ofToken token) (.singleton token)

/-- The runs of some tokens hold them in order, none left out, repeated or moved. -/
theorem holds_ofTokens (tokens : List Token) :
    ∃ groups, groups.flatten = tokens ∧ List.Forall₂ Holds (ofTokens tokens) groups :=
  ⟨_, List.flatten_splitBy joins tokens, holds_splitBy tokens⟩

theorem gather_append (run : Run) {found others : List Token}
    (h : ∀ next ∈ others.head?, ∀ kind ∈ (run.kind :: found.map Token.kind).getLast?,
      next.kind ≠ kind) :
    run.gather (found ++ others) = run.gather found ++ ofTokens others := by
  induction found generalizing run with
  | nil =>
    cases others with
    | nil => rfl
    | cons next others =>
      have hne : run.kind ≠ next.kind := fun heq => h next rfl run.kind rfl heq.symm
      have ha : run.accepts next = false := by simp [accepts, hne]
      simp [gather, ofTokens, ha]
  | cons token found ih =>
    rw [List.map_cons, List.getLast?_cons_cons] at h
    rw [List.cons_append, gather, gather]
    split
    · exact ih (run.add token) h
    · rw [ih (ofToken token) h]
      rfl

/-- Between tokens of two kinds one run ends and another begins. -/
theorem ofTokens_append {found others : List Token}
    (h : ∀ next ∈ others.head?, ∀ token ∈ found.getLast?, next.kind ≠ token.kind) :
    ofTokens (found ++ others) = ofTokens found ++ ofTokens others := by
  cases found with
  | nil => rfl
  | cons token found =>
    refine gather_append (ofToken token) fun next hnext kind hkind => ?_
    change kind ∈ ((token :: found).map Token.kind).getLast? at hkind
    rw [List.getLast?_map] at hkind
    obtain ⟨last, hlast, rfl⟩ := Option.map_eq_some_iff.1 hkind
    exact h next hnext last hlast

/-- A token before one of another kind is a run of its own. -/
theorem ofTokens_cons {token : Token} {rest : List Token}
    (h : ∀ next ∈ rest.head?, next.kind ≠ token.kind) :
    ofTokens (token :: rest) = ofToken token :: ofTokens rest := by
  have hkinds : ∀ next ∈ rest.head?, ∀ last ∈ [token].getLast?, next.kind ≠ last.kind := by
    rintro next hnext last ⟨⟩
    exact h next hnext
  exact ofTokens_append hkinds

theorem Holds.mem_kind_iff {run : Run} {tokens : List Token} (h : run.Holds tokens)
    (kind : TokenKind) : kind ∈ tokens.map Token.kind ↔ kind = run.kind := by
  rw [List.mem_map]
  constructor
  · rintro ⟨token, htoken, rfl⟩
    exact h.kind token htoken
  · rintro rfl
    obtain ⟨token, htoken⟩ := List.exists_mem_of_ne_nil tokens h.nonempty
    exact ⟨token, htoken, h.kind token htoken⟩

theorem Holds.all_kind {run : Run} {tokens : List Token} (h : run.Holds tokens)
    (p : TokenKind → Bool) : tokens.all (fun token => p token.kind) = p run.kind := by
  have hkind : ∀ token ∈ tokens, p token.kind = p run.kind := fun token ht => by
    rw [h.kind token ht]
  obtain ⟨first, hfirst⟩ := List.exists_mem_of_ne_nil tokens h.nonempty
  cases hrun : p run.kind with
  | true => exact List.all_eq_true.2 fun token ht => (hkind token ht).trans hrun
  | false => exact List.all_eq_false.2 ⟨first, hfirst, by rw [hkind first hfirst, hrun]; decide⟩

theorem mem_kind_ofTokens (tokens : List Token) (kind : TokenKind) :
    kind ∈ (ofTokens tokens).map Run.kind ↔ kind ∈ tokens.map Token.kind := by
  obtain ⟨groups, rfl, hall⟩ := holds_ofTokens tokens
  generalize ofTokens groups.flatten = runs at hall ⊢
  induction hall with
  | nil => rfl
  | cons h _ ih =>
    rw [List.map_cons, List.mem_cons, ih, List.flatten_cons, List.map_append, List.mem_append,
      h.mem_kind_iff]

end Run
end CollationRules
