import CollationRules.Proofs.Collation.RuleElements

/-! The sequence form of rules. An element of this form is the element of several rules, each of at
most a character and none with a mark, and stands directly in a block of rules. -/

namespace CollationRules

open Markup (Element Event Name elements eventsOf)

/-- The names of the elements for series of rules. -/
def sequenceNames : List Name := ["pc", "sc", "tc", "ic"]

/-- Whether no element of the sequence form begins among events. -/
def NoSequence (events : List Event) : Prop := ∀ name ∈ sequenceNames, .start name ∉ events

/-- How the form of an element depends on the group of tokens that it is for. -/
structure ShowsForm (group : List Token) (element : Element) : Prop where
  /-- No sequence is inside of the element. -/
  inner : NoSequence element.content
  /-- A sequence is the text of several rules, a character of each that is not empty. -/
  sequence : element.name ∈ sequenceNames → 2 ≤ group.length ∧
    (∃ strength, element.name = strength.element true ∧
      ∀ token ∈ group, token.kind = .relation strength) ∧
    ∃ text, element.content = text.map .character ∧ text = group.flatMap Token.text ∧
      text.length = group.countP (·.text != []) ∧ contextMark ∉ text
  /-- A contraction, an expansion or a context is a rule by itself, in its single form. -/
  single : ∀ token ∈ group, ∀ strength, token.kind = .relation strength → ¬isSimple token.text →
    group = [token] ∧ element.name ∉ sequenceNames ∧
      (element.name = strength.element false ∨ element.name = "x" ∧
        ∃ parts, elements element.content = some parts ∧
          strength.element false ∈ parts.map Element.name)

theorem element_mem_sequenceNames {strength : Strength} {isSequence : Bool} :
    strength.element isSequence ∈ sequenceNames ↔ isSequence := by
  cases strength <;> cases isSequence <;> decide

theorem noSequence_characters (text : List Char) : NoSequence (text.map .character) := by
  intro name _ hmem
  obtain ⟨c, -, hc⟩ := List.mem_map.1 hmem
  cases hc

/-! ### Elements of rules and resets -/

theorem ResetPosition.noSequence (position : ResetPosition) :
    NoSequence (eventsOf position.pieces) := by
  cases position with
  | literal text =>
    rw [ResetPosition.pieces, Markup.eventsOf_textPieces]
    exact noSequence_characters _
  | anchor place =>
    intro name hname hmem
    obtain rfl : name = place.markup := by
      simpa [ResetPosition.pieces, Markup.Token.events] using hmem
    obtain ⟨edge, zone⟩ := place
    cases edge <;> cases zone <;> exact absurd hname (by decide)

theorem Operand.noSequence_parts (operand : Operand) (strength : Strength) :
    ∀ part ∈ operand.parts (strength.element false),
      part.name ∉ sequenceNames ∧ NoSequence part.content := by
  intro part hpart
  rcases List.mem_append.1 hpart with hmem | hmem
  · rcases List.mem_append.1 hmem with hcontext | hhead
    · obtain ⟨text, -, rfl⟩ := List.mem_map.1 hcontext
      exact ⟨(by decide : "context" ∉ sequenceNames), noSequence_characters text⟩
    · obtain rfl := List.mem_singleton.1 hhead
      refine ⟨fun hname => ?_, noSequence_characters _⟩
      cases element_mem_sequenceNames.1 hname
  · obtain ⟨text, -, rfl⟩ := List.mem_map.1 hmem
    exact ⟨(by decide : "extend" ∉ sequenceNames), noSequence_characters text⟩

theorem length_flatMap_text {held : List Token} (h : ∀ token ∈ held, isSimple token.text) :
    (held.flatMap Token.text).length = held.countP (·.text != []) := by
  induction held with
  | nil => rfl
  | cons token held ih =>
    rw [List.forall_mem_cons] at h
    rw [List.flatMap_cons, List.length_append, ih h.2, List.countP_cons]
    by_cases hempty : token.text = []
    · simp [hempty]
    · obtain ⟨c, hc⟩ := isSimple_eq_singleton h.1 hempty
      rw [hc, Nat.add_comm]
      rfl

theorem StandsAs.showsForm {group : List Token} {element : Element} (h : StandsAs group element) :
    ShowsForm group element := by
  cases h with
  | @reset _ reset hkind hreset =>
    have hname : "reset" ∉ sequenceNames := by decide
    refine ⟨reset.position.noSequence, fun h => absurd h hname, ?_⟩
    intro token htoken strength hrelation
    cases (hkind token htoken).symm.trans hrelation
  | @sequence _ strength hseveral hkind hsimple =>
    refine ⟨noSequence_characters _,
      fun _ => ⟨hseveral, ⟨strength, rfl, hkind⟩, _, rfl, rfl, ?_, ?_⟩, ?_⟩
    · exact length_flatMap_text hsimple
    · intro hmem
      obtain ⟨token, htoken, hmark⟩ := List.mem_flatMap.1 hmem
      exact (isSimple_iff.1 (hsimple token htoken)).2.2 hmark
    · intro token htoken _ _ hnot
      exact absurd (hsimple token htoken) hnot
  | @single token strength hkind hplain =>
    have hname : strength.element false ∉ sequenceNames := fun h => by
      cases element_mem_sequenceNames.1 h
    refine ⟨noSequence_characters _, fun h => absurd h hname, ?_⟩
    intro other hother strength' hrelation _
    obtain rfl := List.mem_singleton.1 hother
    cases hkind.symm.trans hrelation
    exact ⟨rfl, hname, .inl rfl⟩
  | @compound token strength content hkind hcompound hparts =>
    have hname : "x" ∉ sequenceNames := by decide
    have hnone := (Operand.split token.text).noSequence_parts strength
    refine ⟨?_, fun h => absurd h hname, ?_⟩
    · intro name hsequence hmem
      obtain ⟨part, hpart, rfl | hinside⟩ := Markup.start_mem_elements hparts hmem
      · exact (hnone part hpart).1 hsequence
      · exact (hnone part hpart).2 name hsequence hinside
    · intro other hother strength' hrelation _
      obtain rfl := List.mem_singleton.1 hother
      cases hkind.symm.trans hrelation
      exact ⟨rfl, hname, .inr ⟨rfl, _, hparts, by simp [Operand.parts]⟩⟩

theorem ShowsForm.length_eq {group : List Token} {element : Element} (h : ShowsForm group element)
    (hname : element.name ∈ sequenceNames)
    (hne : ∀ token ∈ group, token.kind.isRelation → token.text ≠ []) :
    2 ≤ element.content.length ∧ element.content.length = group.length := by
  obtain ⟨hseveral, ⟨strength, -, hkind⟩, text, hcontent, -, hlength, -⟩ := h.sequence hname
  have hall : group.countP (·.text != []) = group.length := by
    rw [List.countP_eq_length]
    intro token htoken
    have hrelation : token.kind.isRelation := by
      rw [hkind token htoken]
      rfl
    simpa using hne token htoken hrelation
  have hsame : element.content.length = group.length := by
    rw [hcontent, List.length_map, hlength, hall]
  omega

/-! ### Whole markup -/

theorem Settings.noSequence_elements (s : Settings) :
    ∀ element ∈ s.elements, element.name ∉ sequenceNames ∧ NoSequence element.content := by
  intro element helement
  rcases elements_cases helement with rfl | ⟨kind, set, rfl⟩
  · exact ⟨by decide, noSequence_characters []⟩
  · have hname : kind.markup ∉ sequenceNames := by cases kind <;> decide
    exact ⟨hname, noSequence_characters set⟩

namespace Compiler

/-- In what is compiled every sequence stands directly in a block of rules and is the text of two or
more rules, without a mark; contractions, expansions and contexts are in the single form. If no rule
is empty, a sequence has a character for each of its rules. -/
theorem compile_sequences {compiler : Compiler} (hr : compiler.Reached) {source text : List Char}
    (h : (compiler.compile source).1 = .ok text) :
    ∃ outer children, readOuter text = some outer ∧
      readBlocks text = some (if children.isEmpty then [] else [children]) ∧
      (∀ element ∈ outer, element.name ∉ sequenceNames ∧
        (element.name ≠ "rules" → NoSequence element.content)) ∧
      List.Forall₂ ShowsForm (ruleGroups (tokens source)) children ∧
      ((∀ token ∈ tokens source, token.kind.isRelation → token.text ≠ []) →
        List.Forall₂ (fun group child => child.name ∈ sequenceNames →
          2 ≤ child.content.length ∧ child.content.length = group.length)
          (ruleGroups (tokens source)) children) := by
  obtain ⟨children, blocks, hall, houter, hnames, hblocks⟩ := exists_children hr h
  refine ⟨_, children, houter, hblocks, ?_, hall.imp fun _ _ => StandsAs.showsForm, ?_⟩
  · intro element helement
    rcases List.mem_append.1 helement with hmem | hmem
    · have hsettings := (settingsOf source).noSequence_elements element hmem
      exact ⟨hsettings.1, fun _ => hsettings.2⟩
    · rw [hnames element hmem]
      exact ⟨by decide, fun hne => absurd rfl hne⟩
  · -- the tokens in a group are tokens of the rule string
    intro hne
    have hgroups : ∀ group ∈ ruleGroups (tokens source), ∀ token ∈ group,
        token.kind.isRelation → token.text ≠ [] := by
      intro group hgroup token htoken
      have hmem := List.mem_flatten_of_mem hgroup htoken
      rw [flatten_ruleGroups] at hmem
      exact hne token (List.mem_of_mem_filter hmem)
    refine ((List.forall₂_and_left _ _).2 ⟨hgroups, hall⟩).imp ?_
    rintro group child ⟨hgroup, h⟩ hname
    exact h.showsForm.length_eq hname hgroup

/-- Two sequences, and between them a contraction, a context and an extension. -/
theorem compile_sequences_mixed :
    let source := "&x<a<b<cd<e|f<<g/h<<i<<j<<k".toList
    ∃ text children, (({} : Compiler).compile source).1 = .ok text ∧
      readBlocks text = some (if children.isEmpty then [] else [children]) ∧
      List.Forall₂ ShowsForm (ruleGroups (tokens source)) children ∧
      List.Forall₂ (fun group child => child.name ∈ sequenceNames →
        2 ≤ child.content.length ∧ child.content.length = group.length)
        (ruleGroups (tokens source)) children := by
  intro source
  have hcompile : (({} : Compiler).compile source).1 = .ok
      ("<rules>\n\t<reset>x</reset>\n\t<pc>ab</pc>\n\t<p>cd</p>\n".toList ++
        "\t<x><context>e</context><p>f</p></x>\n\t<x><s>g</s><extend>h</extend></x>\n".toList ++
        "\t<sc>ijk</sc>\n</rules>\n".toList) := by
    decide +kernel
  obtain ⟨outer, children, -, hblocks, -, hforms, hfull⟩ := compile_sequences (.new {}) hcompile
  exact ⟨_, children, hcompile, hblocks, hforms, hfull (by decide +kernel)⟩

/-- A rule that is empty, as its character is escaped, leaves a sequence with one character. -/
theorem compile_sequence_empty :
    ¬∀ source text, CollationRules.compile source = .ok text →
      ∃ blocks, readBlocks text = some blocks ∧
        ∀ children ∈ blocks, ∀ child ∈ children, child.name ∈ sequenceNames →
          2 ≤ child.content.length := by
  intro hall
  obtain ⟨blocks, hread, hlength⟩ := hall "&x<\\a<b".toList
    "<rules>\n\t<reset>x</reset>\n\t<pc>b</pc>\n</rules>\n".toList (by decide +kernel)
  obtain rfl : [[⟨"reset", [.character 'x']⟩, ⟨"pc", [.character 'b']⟩]] = blocks := by
    apply Option.some.inj
    rw [← hread]
    decide +kernel
  exact absurd (hlength _ List.mem_cons_self ⟨"pc", [.character 'b']⟩ (by decide) (by decide))
    (by decide)

end Compiler
end CollationRules
