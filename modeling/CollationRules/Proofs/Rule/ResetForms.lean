import CollationRules.Proofs.Rule.Decoding
import CollationRules.Proofs.Rule.NestedBrackets
import CollationRules.Proofs.Text.Words

/-! The forms of a reset. A group of `before` and a numeral may stand in front, and then a group
that names an anchor or a text that does not begin with a group. Every other text is refused for the
first part of it that has no such form. -/

namespace CollationRules

open Text (HasWords words words_eq_iff)

/-! ### Names -/

/-- The numerals that `before` takes. -/
def beforeLevels : List (Char × Level) :=
  [('1', .primary), ('2', .secondary), ('3', .tertiary), ('4', .quaternary)]

/-- The words for each anchor. -/
def Anchor.names : List (List String × Anchor) :=
  [(["top"], ⟨.last, .nonIgnorable⟩),
    (["first", "regular"], ⟨.first, .nonIgnorable⟩),
    (["last", "regular"], ⟨.last, .nonIgnorable⟩),
    (["first", "primary", "ignorable"], ⟨.first, .primaryIgnorable⟩),
    (["last", "primary", "ignorable"], ⟨.last, .primaryIgnorable⟩),
    (["first", "secondary", "ignorable"], ⟨.first, .secondaryIgnorable⟩),
    (["last", "secondary", "ignorable"], ⟨.last, .secondaryIgnorable⟩),
    (["first", "tertiary", "ignorable"], ⟨.first, .tertiaryIgnorable⟩),
    (["last", "tertiary", "ignorable"], ⟨.last, .tertiaryIgnorable⟩),
    (["first", "variable"], ⟨.first, .variableElements⟩),
    (["last", "variable"], ⟨.last, .variableElements⟩),
    (["first", "trailing"], ⟨.first, .trailing⟩),
    (["last", "trailing"], ⟨.last, .trailing⟩)]

def Edge.names : List (String × Edge) := [("first", .first), ("last", .last)]

def Zone.names : List (List String × Zone) :=
  [(["regular"], .nonIgnorable), (["primary", "ignorable"], .primaryIgnorable),
    (["secondary", "ignorable"], .secondaryIgnorable),
    (["tertiary", "ignorable"], .tertiaryIgnorable), (["variable"], .variableElements),
    (["trailing"], .trailing)]

theorem Level.exists_numeral {word : List Char} {level : Level} (h : ofNumeral? word = some level) :
    ∃ digit, word = [digit] ∧ (digit, level) ∈ beforeLevels ++ [('5', .identical)] := by
  unfold ofNumeral? at h
  split at h <;> cases h <;> exact ⟨_, rfl, by decide⟩

theorem Edge.mem_names {word : String} {edge : Edge} (h : ofWord? word = some edge) :
    (word, edge) ∈ names := by
  unfold ofWord? at h
  split at h <;> cases h <;> decide

theorem Zone.mem_names {words : List String} {zone : Zone} (h : ofWords? words = some zone) :
    (words, zone) ∈ names := by
  unfold ofWords? at h
  split at h <;> cases h <;> decide

theorem Anchor.ofWords?_eq_some_iff {words : List String} {anchor : Anchor} :
    ofWords? words = some anchor ↔ (words, anchor) ∈ names := by
  constructor
  · intro h
    unfold ofWords? at h
    split at h
    · cases h
      decide
    · obtain ⟨edge, hedge, h⟩ := Option.bind_eq_some_iff.1 h
      obtain ⟨zone, hzone, h⟩ := Option.bind_eq_some_iff.1 h
      cases h
      have hall : ∀ edge ∈ Edge.names, ∀ zone ∈ Zone.names,
          (edge.1 :: zone.1, ⟨edge.2, zone.2⟩) ∈ names := by
        decide
      exact hall _ (Edge.mem_names hedge) _ (Zone.mem_names hzone)
    · cases h
  · intro h
    have hall : ∀ name ∈ names, ofWords? name.1 = some name.2 := by decide
    exact hall _ h

theorem Anchor.ofWords?_eq_none_iff {words : List String} :
    ofWords? words = none ↔ ∀ anchor, (words, anchor) ∉ names := by
  simp only [Option.eq_none_iff_forall_ne_some, ne_eq, ofWords?_eq_some_iff]

theorem Anchor.ofPayload?_eq {payload : List Char} {found : List (List Char)}
    (h : HasWords payload found) : ofPayload? payload = ofWords? (found.map String.ofList) := by
  rw [ofPayload?, words_eq_iff.2 h]

/-! ### Groups in front -/

/-- Whether a text begins with a group. -/
structure HasGroup (text payload rest : List Char) : Prop where
  text_eq : text = '[' :: payload ++ ']' :: rest
  nested : IsNested payload

theorem leadingGroup?_eq_some_iff_hasGroup {text payload rest : List Char} :
    leadingGroup? text = some (payload, rest) ↔ HasGroup text payload rest := by
  rw [leadingGroup?_eq_some_iff, isBalanced_iff_isNested]
  exact ⟨fun ⟨htext, hnested⟩ => ⟨htext, hnested⟩, fun ⟨htext, hnested⟩ => ⟨htext, hnested⟩⟩

theorem leadingGroup?_eq_none_iff_hasGroup {text : List Char} :
    leadingGroup? text = none ↔ ∀ payload rest, ¬HasGroup text payload rest := by
  simp only [← leadingGroup?_eq_some_iff_hasGroup, Option.eq_none_iff_forall_ne_some, Prod.forall,
    ne_eq]

namespace Reset

/-- Whether the first group of a text has `before` as its first word. -/
def HasBefore (text : List Char) (arguments : List (List Char)) (rest : List Char) : Prop :=
  ∃ payload, HasGroup text payload rest ∧ HasWords payload ("before".toList :: arguments)

/-- What may stand in front of a position, and what follows it. -/
inductive Opens (text : List Char) : Option Level → List Char → Prop
  | before {digit : Char} {level : Level} {rest : List Char} (h : HasBefore text [[digit]] rest)
      (hlevel : (digit, level) ∈ beforeLevels) : Opens text (some level) rest
  | nothing (h : ∀ arguments rest, ¬HasBefore text arguments rest) : Opens text none text

/-- The position that a text stands for. -/
inductive StandsFor (text : List Char) : ResetPosition → Prop
  | anchor {payload : List Char} {found : List (List Char)} {place : Anchor}
      (h : HasGroup text payload []) (hwords : HasWords payload found)
      (hname : (found.map String.ofList, place) ∈ Anchor.names) : StandsFor text (.anchor place)
  | literal (h : ∀ payload rest, ¬HasGroup text payload rest) : StandsFor text (.literal text)

/-- What is wrong with a text that is no reset. -/
inductive IsFault (text : List Char) : ConfigCause → Prop
  | before {arguments : List (List Char)} {rest : List Char} (h : HasBefore text arguments rest)
      (hlevel : ∀ digit level, (digit, level) ∈ beforeLevels → arguments ≠ [[digit]]) :
      IsFault text (.invalidBefore ([' '].intercalate arguments))
  | anchor {before : Option Level} {position payload rest : List Char} {found : List (List Char)}
      (hopens : Opens text before position) (h : HasGroup position payload rest)
      (hwords : HasWords payload found)
      (hname : ∀ place, (found.map String.ofList, place) ∉ Anchor.names) :
      IsFault text (.unknownAnchor (Text.trim payload))
  | rest {before : Option Level} {position payload rest : List Char} {found : List (List Char)}
      {place : Anchor} (hopens : Opens text before position) (h : HasGroup position payload rest)
      (hwords : HasWords payload found)
      (hname : (found.map String.ofList, place) ∈ Anchor.names) (hrest : rest ≠ []) :
      IsFault text (.textAfterAnchor rest)

/-! ### Decoding -/

theorem beforeLevel_cases (arguments : List (List Char)) :
    (∃ level, beforeLevel arguments = .ok level) ∨
      beforeLevel arguments = .error (.invalidBefore ([' '].intercalate arguments)) := by
  unfold beforeLevel
  split
  · split
    · exact .inr rfl
    · exact .inr rfl
    · exact .inl ⟨_, rfl⟩
  · exact .inr rfl

theorem beforeLevel_eq_ok_iff {arguments : List (List Char)} {level : Level} :
    beforeLevel arguments = .ok level ↔
      ∃ digit, arguments = [[digit]] ∧ (digit, level) ∈ beforeLevels := by
  constructor
  · intro h
    unfold beforeLevel at h
    split at h
    · split at h
      · cases h
      · cases h
      · rename_i word _ found hne hfound
        cases h
        obtain ⟨digit, rfl, hmem⟩ := Level.exists_numeral hfound
        refine ⟨digit, rfl, ?_⟩
        rcases List.mem_append.1 hmem with hmem | hmem
        · exact hmem
        · cases List.mem_singleton.1 hmem
          exact absurd rfl hne
    · cases h
  · rintro ⟨digit, rfl, hmem⟩
    have hall : ∀ numeral ∈ beforeLevels, beforeLevel [[numeral.1]] = .ok numeral.2 := by decide
    exact hall _ hmem

variable {text : List Char}

theorem splitBefore_of_hasBefore {arguments : List (List Char)} {rest : List Char}
    (h : HasBefore text arguments rest) :
    splitBefore text = (beforeLevel arguments).map fun level => (some level, rest) := by
  obtain ⟨payload, hgroup, hwords⟩ := h
  rw [splitBefore, leadingGroup?_eq_some_iff_hasGroup.2 hgroup]
  simp only [words_eq_iff.2 hwords, if_true]

theorem splitBefore_of_not_hasBefore (h : ∀ arguments rest, ¬HasBefore text arguments rest) :
    splitBefore text = .ok (none, text) := by
  unfold splitBefore
  split
  · rfl
  · rename_i payload rest hgroup
    split
    · rfl
    · rename_i word arguments hwords
      split
      · rename_i hbefore
        rw [hbefore, words_eq_iff] at hwords
        exact absurd ⟨payload, leadingGroup?_eq_some_iff_hasGroup.1 hgroup, hwords⟩
          (h arguments rest)
      · rfl

theorem splitBefore_eq_ok_iff {before : Option Level} {rest : List Char} :
    splitBefore text = .ok (before, rest) ↔ Opens text before rest := by
  constructor
  · intro h
    by_cases hbefore : ∃ arguments rest, HasBefore text arguments rest
    · obtain ⟨arguments, tail, hbefore⟩ := hbefore
      rw [splitBefore_of_hasBefore hbefore] at h
      cases hlevel : beforeLevel arguments with
      | error cause => rw [hlevel] at h; cases h
      | ok level =>
        rw [hlevel] at h
        cases h
        obtain ⟨digit, rfl, hmem⟩ := beforeLevel_eq_ok_iff.1 hlevel
        exact .before hbefore hmem
    · have hnone : ∀ arguments rest, ¬HasBefore text arguments rest := by simpa using hbefore
      rw [splitBefore_of_not_hasBefore hnone] at h
      cases h
      exact .nothing hnone
  · intro h
    cases h with
    | before h hlevel =>
      rw [splitBefore_of_hasBefore h, beforeLevel_eq_ok_iff.2 ⟨_, rfl, hlevel⟩]
      rfl
    | nothing h => exact splitBefore_of_not_hasBefore h

theorem splitBefore_eq_error_iff {cause : ConfigCause} :
    splitBefore text = .error cause ↔
      ∃ arguments rest, HasBefore text arguments rest ∧
        (∀ digit level, (digit, level) ∈ beforeLevels → arguments ≠ [[digit]]) ∧
        cause = .invalidBefore ([' '].intercalate arguments) := by
  have hlevels (arguments : List (List Char)) :
      (∀ digit level, (digit, level) ∈ beforeLevels → arguments ≠ [[digit]]) ↔
        ∀ level, beforeLevel arguments ≠ .ok level := by
    simp only [ne_eq, beforeLevel_eq_ok_iff, not_exists, not_and]
    exact ⟨fun h level digit heq hmem => h digit level hmem heq,
      fun h digit level hmem heq => h level digit heq hmem⟩
  constructor
  · intro h
    by_cases hbefore : ∃ arguments rest, HasBefore text arguments rest
    · obtain ⟨arguments, rest, hbefore⟩ := hbefore
      rw [splitBefore_of_hasBefore hbefore, map_eq_error_iff] at h
      refine ⟨arguments, rest, hbefore, (hlevels arguments).2 (by simp [h]), ?_⟩
      rcases beforeLevel_cases arguments with ⟨level, hok⟩ | herror
      · rw [hok] at h
        cases h
      · rw [herror] at h
        exact (Except.error.inj h).symm
    · rw [splitBefore_of_not_hasBefore (by simpa using hbefore)] at h
      cases h
  · rintro ⟨arguments, rest, hbefore, hlevel, rfl⟩
    rw [splitBefore_of_hasBefore hbefore, map_eq_error_iff]
    rcases beforeLevel_cases arguments with ⟨level, hok⟩ | herror
    · exact absurd hok ((hlevels arguments).1 hlevel level)
    · exact herror

theorem positionOf_of_not_hasGroup (h : ∀ payload rest, ¬HasGroup text payload rest) :
    positionOf text = .ok (.literal text) := by
  rw [positionOf, leadingGroup?_eq_none_iff_hasGroup.2 h]

theorem positionOf_of_hasGroup {payload rest : List Char} {found : List (List Char)}
    (h : HasGroup text payload rest) (hwords : HasWords payload found) :
    positionOf text =
      match Anchor.ofWords? (found.map String.ofList) with
      | none => .error (.unknownAnchor (Text.trim payload))
      | some place =>
        if rest.isEmpty then .ok (.anchor place) else .error (.textAfterAnchor rest) := by
  have hgroup : leadingGroup? text = some (payload, rest) := leadingGroup?_eq_some_iff_hasGroup.2 h
  rw [← Anchor.ofPayload?_eq hwords]
  cases hplace : Anchor.ofPayload? payload <;> simp only [positionOf, hgroup, hplace]

/-- A text is the one that a position is read from, or has a group in front. -/
theorem exists_hasGroup (text : List Char) :
    (∀ payload rest, ¬HasGroup text payload rest) ∨
      ∃ payload found rest, HasGroup text payload rest ∧ HasWords payload found := by
  by_cases hgroup : ∃ payload rest, HasGroup text payload rest
  · obtain ⟨payload, rest, hgroup⟩ := hgroup
    exact .inr ⟨payload, words payload, rest, hgroup, words_eq_iff.1 rfl⟩
  · exact .inl (by simpa using hgroup)

theorem positionOf_eq_ok_iff {position : ResetPosition} :
    positionOf text = .ok position ↔ StandsFor text position := by
  constructor
  · intro h
    rcases exists_hasGroup text with hnone | ⟨payload, found, rest, hgroup, hwords⟩
    · rw [positionOf_of_not_hasGroup hnone] at h
      cases h
      exact .literal hnone
    · rw [positionOf_of_hasGroup hgroup hwords] at h
      cases hname : Anchor.ofWords? (found.map String.ofList) with
      | none => rw [hname] at h; cases h
      | some place =>
        simp only [hname] at h
        split at h
        · rename_i hrest
          cases h
          obtain rfl := List.isEmpty_iff.1 hrest
          exact .anchor hgroup hwords (Anchor.ofWords?_eq_some_iff.1 hname)
        · cases h
  · intro h
    cases h with
    | anchor h hwords hname =>
      rw [positionOf_of_hasGroup h hwords, Anchor.ofWords?_eq_some_iff.2 hname]
      rfl
    | literal h => exact positionOf_of_not_hasGroup h

theorem ofText_of_opens {before : Option Level} {position : List Char}
    (hopens : Opens text before position) :
    ofText text = (positionOf position).map fun place => ⟨before, place⟩ := by
  rw [ofText, splitBefore_eq_ok_iff.2 hopens]
  rfl

theorem Opens.isFault {before : Option Level} {position : List Char}
    (hopens : Opens text before position) {cause : ConfigCause}
    (h : positionOf position = .error cause) : IsFault text cause := by
  rcases exists_hasGroup position with hnone | ⟨payload, found, rest, hgroup, hwords⟩
  · rw [positionOf_of_not_hasGroup hnone] at h
    cases h
  · rw [positionOf_of_hasGroup hgroup hwords] at h
    cases hname : Anchor.ofWords? (found.map String.ofList) with
    | none =>
      rw [hname] at h
      cases h
      exact .anchor hopens hgroup hwords (Anchor.ofWords?_eq_none_iff.1 hname)
    | some place =>
      simp only [hname] at h
      split at h
      · cases h
      · rename_i hrest
        cases h
        exact .rest hopens hgroup hwords (Anchor.ofWords?_eq_some_iff.1 hname)
          (by simpa using hrest)

theorem ofText_eq_error_iff {cause : ConfigCause} :
    ofText text = .error cause ↔ IsFault text cause := by
  constructor
  · intro h
    cases hbefore : splitBefore text with
    | error cause' =>
      rw [ofText, hbefore] at h
      cases h
      obtain ⟨arguments, rest, hgroup, hlevel, rfl⟩ := splitBefore_eq_error_iff.1 hbefore
      exact .before hgroup hlevel
    | ok found =>
      obtain ⟨before, position⟩ := found
      have hopens := splitBefore_eq_ok_iff.1 hbefore
      rw [ofText_of_opens hopens, map_eq_error_iff] at h
      exact hopens.isFault h
  · intro h
    cases h with
    | before h hlevel =>
      have hbefore := splitBefore_eq_error_iff.2 ⟨_, _, h, hlevel, rfl⟩
      rw [ofText, hbefore]
      rfl
    | anchor hopens h hwords hname =>
      rw [ofText_of_opens hopens, positionOf_of_hasGroup h hwords,
        Anchor.ofWords?_eq_none_iff.2 hname]
      rfl
    | rest hopens h hwords hname hrest =>
      rw [ofText_of_opens hopens, positionOf_of_hasGroup h hwords,
        Anchor.ofWords?_eq_some_iff.2 hname]
      simp [hrest, Except.map]

/-- A text is a reset exactly if it has one of the forms: what may stand in front, and then a
position. Otherwise the error is about the numeral of `before`, and if that is right about the
anchor, and if that is known about what follows it. -/
theorem ofText_forms (text : List Char) :
    (∀ reset, ofText text = .ok reset ↔
      ∃ rest, Opens text reset.before rest ∧ StandsFor rest reset.position) ∧
    ∀ cause, ofText text = .error cause ↔ IsFault text cause := by
  refine ⟨fun reset => ?_, fun cause => ofText_eq_error_iff⟩
  simp only [ofText_eq_ok_iff, splitBefore_eq_ok_iff, positionOf_eq_ok_iff]

/-- A group that is not closed is literal, also behind a level. -/
example : ofText "[ before\t2][last regular".toList =
    .ok ⟨some .secondary, .literal "[last regular".toList⟩ := by
  decide +kernel

end Reset

end CollationRules
