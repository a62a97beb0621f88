import CollationRules.Proofs.Collation.RuleElements
import CollationRules.Proofs.Rule.Opening

/-! The first element in a block of rules. It is a reset, which is implied where rules begin with a
relation. Only a setting or an override in front of that relation takes its place as the first
token, so that no reset is implied. -/

namespace CollationRules

open Markup (Element eventsOf)

/-- Whether a setting or an override is the first token, and a relation the next. -/
def RelationAside (tokens : List Token) : Prop :=
  ∃ aside relation others, tokens = aside :: relation :: others ∧
    (aside.kind = .setting ∨ aside.kind = .override) ∧ relation.kind.isRelation

/-- The reset that is implied, to the last position that is not ignorable. -/
def topElement : Element := ⟨"reset", [.start "last_non_ignorable", .stop none]⟩

/-! ### The first token in a block -/

theorem kind_ne_endOfRules {source : List Char} {token : Token} (h : token ∈ tokens source) :
    token.kind ≠ .endOfRules := by
  obtain ⟨⟨answer, scanner⟩, -, hanswer⟩ := List.mem_filterMap.1 h
  intro hkind
  cases answer with
  | error e => cases hanswer
  | ok found =>
    simp only [answeredToken?] at hanswer
    split at hanswer
    · cases hanswer
    · rename_i hfinish
      cases hanswer
      apply hfinish
      rw [Token.isFinish, hkind]
      rfl

theorem TokenKind.setting_or_override {kind : TokenKind} (hin : ¬kind.inRules)
    (hend : kind ≠ .endOfRules) : kind = .setting ∨ kind = .override := by
  cases kind with
  | relation strength => exact absurd rfl hin
  | reset => exact absurd rfl hin
  | setting => exact .inl rfl
  | override => exact .inr rfl
  | endOfRules => exact absurd rfl hend

/-- What the first token in the block of rules is depends on the first two of all tokens. -/
theorem kind_head_filter {source : List Char} {token : Token} {others : List Token}
    (h : (tokens source).filter (·.kind.inRules) = token :: others) :
    token.kind = .reset ↔ ¬RelationAside (tokens source) := by
  have hin : token.kind.inRules := by
    have hmem : token ∈ (tokens source).filter (·.kind.inRules) := by rw [h]; simp
    exact (List.mem_filter.1 hmem).2
  have hhead : ∀ first ∈ (tokens source).head?, first.kind.isRelation = false := by
    intro first hfirst
    apply isRelation_head_lexemes source first.lexeme
    rw [lexemes, List.head?_map, hfirst]
    rfl
  have htail := tokens_tail_inRules source
  have hnever : ∀ first ∈ tokens source, first.kind ≠ .endOfRules := fun _ => kind_ne_endOfRules
  rw [TokenKind.eq_reset_iff hin, not_iff_not]
  generalize tokens source = all at h hhead htail hnever
  cases all with
  | nil => cases h
  | cons first rest =>
    have hrest : rest.filter (·.kind.inRules) = rest := List.filter_eq_self.2 htail
    by_cases hfirst : first.kind.inRules
    · -- the first of all tokens is the first in the block, and is not a relation
      rw [List.filter_cons, if_pos hfirst] at h
      obtain ⟨rfl, -⟩ := List.cons.inj h
      rw [hhead first rfl]
      refine ⟨fun hfalse => absurd hfalse Bool.false_ne_true, ?_⟩
      rintro ⟨aside, relation, others, hall, haside, -⟩
      obtain ⟨rfl, -⟩ := List.cons.inj hall
      rcases haside with hkind | hkind <;> rw [hkind] at hfirst <;> cases hfirst
    · rw [List.filter_cons, if_neg hfirst, hrest] at h
      subst h
      constructor
      · intro hrelation
        have haside := TokenKind.setting_or_override hfirst (hnever first (by simp))
        exact ⟨first, token, others, rfl, haside, hrelation⟩
      · rintro ⟨aside, relation, others', hall, -, hrelation⟩
        obtain ⟨-, hrest'⟩ := List.cons.inj hall
        obtain ⟨rfl, -⟩ := List.cons.inj hrest'
        exact hrelation

/-! ### The element of the first token -/

theorem StandsAs.name_eq_reset_iff {token : Token} {others : List Token} {element : Element}
    (h : StandsAs (token :: others) element) : element.name = "reset" ↔ token.kind = .reset := by
  have hname (strength : Strength) (isSequence : Bool) :
      strength.element isSequence = "reset" ↔ TokenKind.relation strength = .reset := by
    cases strength <;> cases isSequence <;> decide
  cases h with
  | reset hkind hreset => exact ⟨fun _ => hkind token (by simp), fun _ => rfl⟩
  | @sequence _ strength hseveral hkind hsimple =>
    rw [hkind token (by simp)]
    exact hname strength true
  | @single _ strength hkind hplain =>
    rw [hkind]
    exact hname strength false
  | compound hkind hcompound hparts =>
    rw [hkind]
    have hx : "x" ≠ "reset" := by decide
    exact ⟨fun h => absurd h hx, fun h => by cases h⟩

/-- The text of the implied reset is never gathered with that of another token, so that it is
read as the anchor that it is. -/
theorem StandsAs.eq_topElement {token : Token} {others : List Token} {element : Element}
    (h : StandsAs (token :: others) element)
    (hchain : (token :: others).IsChain fun before token => joins before token)
    (hlexeme : token.lexeme = ⟨.reset, Draft.implicitReset⟩) : element = topElement := by
  obtain ⟨kind, text, span⟩ := token
  cases hlexeme
  have hothers : others = [] := by
    cases others with
    | nil => rfl
    | cons next rest =>
      rw [List.isChain_cons_cons] at hchain
      exact absurd hchain.1 (by simp [joins, isSimple, isContraction])
  subst hothers
  cases h with
  | @reset _ reset hkind hreset =>
    have htop : Reset.ofTokens [⟨.reset, Draft.implicitReset, span⟩] =
        .ok ⟨none, .anchor .top⟩ := rfl
    cases htop.symm.trans hreset
    decide
  | sequence hseveral hkind hsimple => simp at hseveral
  | single hkind hplain => cases hkind
  | compound hkind hcompound hparts => cases hkind

/-- Before a relation, behind nothing but what is skipped and exclamation marks, a reset is
implied. -/
theorem exists_implied {source front rules : List Char} {c : Char} {strength : Strength}
    (hsource : source = front ++ c :: rules) (hfront : ∀ d ∈ front, isSkipped d ∨ d = '!')
    (hc : operator? c = some (.relation strength)) :
    ∃ token others, tokens source = token :: others ∧
      token.lexeme = ⟨.reset, Draft.implicitReset⟩ := by
  have himplied : impliedReset (c :: rules) = [⟨.reset, Draft.implicitReset⟩] := by
    simp [impliedReset, hc]
  have hlexemes : (tokens source).map Token.lexeme =
      ⟨.reset, Draft.implicitReset⟩ :: (Pass.laterOutcome (c :: rules)).1 := by
    have hrules : Draft.AtOperator (c :: rules) := by
      rintro d ⟨⟩
      rw [hc]
      rfl
    subst hsource
    apply (lexemes_passed hfront hrules).trans
    rw [himplied]
    rfl
  obtain ⟨token, others, htokens, hlexeme, -⟩ := List.map_eq_cons_iff.1 hlexemes
  exact ⟨token, others, htokens, hlexeme⟩

theorem element_of_ruleGroups {source : List Char} {group : List Token} {groups : List (List Token)}
    {first : Element} (hgroups : ruleGroups (tokens source) = group :: groups)
    (h : StandsAs group first) :
    (first.name = "reset" ↔ ¬RelationAside (tokens source)) ∧
      ∀ front c rules strength, source = front ++ c :: rules →
        (∀ d ∈ front, isSkipped d ∨ d = '!') → operator? c = some (.relation strength) →
        first = topElement := by
  have hgroup : group ∈ ruleGroups (tokens source) := by rw [hgroups]; simp
  have hchain := List.isChain_of_mem_splitBy (List.mem_of_mem_filter hgroup)
  cases group with
  | nil => exact absurd hgroup (nil_notMem_ruleGroups (tokens source))
  | cons token rest =>
    have hfilter : (tokens source).filter (·.kind.inRules) = token :: (rest ++ groups.flatten) := by
      rw [← flatten_ruleGroups, hgroups]
      rfl
    refine ⟨h.name_eq_reset_iff.trans (kind_head_filter hfilter), ?_⟩
    intro front c rules strength hsource hfront hc
    obtain ⟨opening, others, htokens, hlexeme⟩ := exists_implied hsource hfront hc
    have hopening : opening.kind = .reset := congrArg Lexeme.kind hlexeme
    rw [htokens, List.filter_cons, if_pos (by rw [hopening]; rfl)] at hfilter
    obtain ⟨rfl, -⟩ := List.cons.inj hfilter
    exact h.eq_topElement hchain hlexeme

namespace Compiler

/-- In what is compiled a block of rules begins with a reset, unless a setting or an override is the
first token and a relation the next. Where a relation comes behind nothing but what is skipped and
exclamation marks, it is the implied reset. -/
theorem compile_first_reset {compiler : Compiler} (hr : compiler.Reached) {source text : List Char}
    (h : (compiler.compile source).1 = .ok text) :
    ∃ blocks, readBlocks text = some blocks ∧
      (blocks ≠ [] ↔ ∃ token ∈ tokens source, token.kind.inRules) ∧
      ∀ children ∈ blocks, ∃ first others, children = first :: others ∧
        (first.name = "reset" ↔ ¬RelationAside (tokens source)) ∧
        ∀ front c rules strength, source = front ++ c :: rules →
          (∀ d ∈ front, isSkipped d ∨ d = '!') → operator? c = some (.relation strength) →
          first = topElement := by
  obtain ⟨children, -, hall, -, -, hread⟩ := exists_children hr h
  refine ⟨_, hread, ?_, ?_⟩
  · have hempty : children = [] ↔ ruleGroups (tokens source) = [] := by
      rw [← List.length_eq_zero_iff, ← hall.length_eq, List.length_eq_zero_iff]
    rw [← ruleGroups_ne_nil_iff, ne_eq, ne_eq, ← hempty]
    cases children <;> simp
  · intro block hmem
    generalize hgroups : ruleGroups (tokens source) = groups at hall
    cases hall with
    | nil => cases hmem
    | @cons group first groups others hfirst hothers =>
      obtain rfl := List.mem_singleton.1 hmem
      exact ⟨first, others, rfl, element_of_ruleGroups hgroups hfirst⟩

/-- A reset is implied behind blanks and exclamation marks. -/
theorem compile_first_reset_implied :
    let source := "! \t!;a<b".toList
    ∃ text blocks, (({} : Compiler).compile source).1 = .ok text ∧
      readBlocks text = some blocks ∧ blocks ≠ [] ∧
      ∀ children ∈ blocks, ∃ others, children = topElement :: others := by
  intro source
  have hsource : source = "! \t!".toList ++ ';' :: "a<b".toList := rfl
  have hpassed : "! \t!".toList.all (fun d => isSkipped d || d == '!') := by decide
  have hfront : ∀ d ∈ "! \t!".toList, isSkipped d ∨ d = '!' := fun d hd => by
    simpa using List.all_eq_true.1 hpassed d hd
  obtain ⟨text, htext⟩ : ∃ text, (({} : Compiler).compile source).1 = .ok text :=
    ⟨"<rules>\n\t<reset><last_non_ignorable/></reset>\n\t<s>a</s>\n\t<p>b</p>\n</rules>\n".toList,
      by decide +kernel⟩
  obtain ⟨blocks, hread, hne, hall⟩ := compile_first_reset (.new {}) htext
  refine ⟨text, blocks, htext, hread, hne.2 (by decide +kernel), ?_⟩
  intro children hmem
  obtain ⟨first, others, rfl, -, htop⟩ := hall children hmem
  refine ⟨others, ?_⟩
  rw [htop _ _ _ .secondary hsource hfront rfl]

/-- Behind a setting the first element is that of a relation. -/
theorem compile_first_relation :
    ¬∀ source text, (({} : Compiler).compile source).1 = .ok text →
      ∃ blocks, readBlocks text = some blocks ∧
        ∀ children ∈ blocks, ∃ first others, children = first :: others ∧ first.name = "reset" := by
  intro hall
  obtain ⟨blocks, hread, hreset⟩ := hall "[numeric on]<a".toList
    "<settings numeric=\"on\"/>\n<rules>\n\t<p>a</p>\n</rules>\n".toList (by decide +kernel)
  obtain rfl : [[⟨"p", [.character 'a']⟩]] = blocks := by
    apply Option.some.inj
    rw [← hread]
    decide +kernel
  obtain ⟨first, others, hchildren, hname⟩ := hreset _ (List.mem_singleton.2 rfl)
  cases hchildren
  exact absurd hname (by decide)

end Compiler
end CollationRules
