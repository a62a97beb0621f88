import CollationRules.Proofs.Collation.Text
import CollationRules.Proofs.Rule.Insertion

/-! A group of settings put into a rule string that compiles. In front of the first token, or after
settings, it declares what it would alone. Anywhere else it is text of the token before it. -/

namespace CollationRules

theorem ne_of_isAlphanum {c d : Char} (h : c.isAlphanum) (hd : d.isAlphanum = false) : c ≠ d := by
  rintro rfl
  rw [h] at hd
  cases hd

/-- A group of a name and a value, both of letters and digits, that is accepted as settings. -/
structure SettingGroup where
  name : List Char
  value : List Char
  declared : List Declaration
  name_isAlphanum : ∀ c ∈ name, c.isAlphanum
  value_isAlphanum : ∀ c ∈ value, c.isAlphanum
  accepted : Declaration.ofText (bracketed (name ++ ' ' :: value)) = .ok declared

namespace SettingGroup

variable (group : SettingGroup)

def payload : List Char := group.name ++ ' ' :: group.value

theorem not_mem_payload {c : Char} (hc : c.isAlphanum = false) (hspace : c ≠ ' ') :
    c ∉ group.payload := by
  intro hmem
  rcases List.mem_append.1 hmem with hname | hmem
  · exact ne_of_isAlphanum (group.name_isAlphanum c hname) hc rfl
  · rcases List.mem_cons.1 hmem with heq | hvalue
    · exact hspace heq
    · exact ne_of_isAlphanum (group.value_isAlphanum c hvalue) hc rfl

theorem exists_declared_eq : ∃ declaration, group.declared = [declaration] := by
  have haccepted := group.accepted
  have hone := Declaration.ofText_flat (group.not_mem_payload (c := '[') (by decide) (by decide))
    (group.not_mem_payload (c := ']') (by decide) (by decide))
  rw [bracketed, ← payload, hone] at haccepted
  cases hpayload : Declaration.ofPayload group.payload with
  | error cause =>
    rw [hpayload] at haccepted
    cases haccepted
  | ok declaration =>
    rw [hpayload] at haccepted
    exact ⟨declaration, (Except.ok.inj haccepted).symm⟩

theorem isVerbatim : IsVerbatim group.payload := by
  have hne (d : Char) (hd : d.isAlphanum = false) (hspace : d ≠ ' ') : d ∉ group.payload :=
    group.not_mem_payload hd hspace
  have hopen := hne '[' (by decide) (by decide)
  have hclose := hne ']' (by decide) (by decide)
  refine ⟨⟨?_, ?_, hne _ (by decide) (by decide), hne _ (by decide) (by decide),
    hne _ (by decide) (by decide)⟩, ?_⟩
  · intro before hbefore
    rw [List.count_eq_zero_of_not_mem fun hmem => hclose (hbefore.subset hmem)]
    exact Nat.zero_le _
  · rw [List.count_eq_zero_of_not_mem hopen, List.count_eq_zero_of_not_mem hclose]
  · intro c hc
    refine ⟨?_, ?_, ?_⟩
    · unfold operator?
      split
      all_goals first | rfl | exact absurd hc (hne _ (by decide) (by decide))
    · rintro rfl
      exact hne _ (by decide) (by decide) hc
    · rintro rfl
      exact hne _ (by decide) (by decide) hc

def numeric : SettingGroup where
  name := "numeric".toList
  value := "on".toList
  declared := [.setting ⟨.numeric, "on".toList⟩]
  name_isAlphanum := List.all_eq_true.1 (by decide)
  value_isAlphanum := List.all_eq_true.1 (by decide)
  accepted := by decide +kernel

end SettingGroup

namespace Compiler

section

variable {source text : List Char} {rest : List Lexeme} {declared : List Declaration}

theorem contributed_setting_first (h : lexemes source = ⟨.setting, text⟩ :: rest) :
    (∀ lexeme ∈ rest, lexeme.kind.inRules) ∧
      contributed (lexemes source) =
        match Declaration.ofText text with
        | .ok declarations =>
          (({ declarations } : Contribution).append (contributed rest).1, (contributed rest).2)
        | .error cause => ({}, some ⟨cause, .nowhere⟩) := by
  have hin : ∀ lexeme ∈ rest, lexeme.kind.inRules := by
    have htail := lexemes_tail_inRules source
    rwa [h] at htail
  rw [h]
  exact ⟨hin, contributed_setting text hin⟩

theorem Compiles.exists_declared (h : Compiles source)
    (hlexemes : lexemes source = ⟨.setting, text⟩ :: rest) :
    ∃ declared, Declaration.ofText text = .ok declared ∧ (contributed rest).2 = none := by
  have hrest := h.2
  rw [(contributed_setting_first hlexemes).2] at hrest
  split at hrest
  · exact ⟨_, ‹_›, hrest⟩
  · cases hrest

/-- A rule string that begins with settings compiles if these declare something and the rest
compiles. -/
theorem compiles_of_declared (hscan : syntaxError? source = none)
    (hlexemes : lexemes source = ⟨.setting, text⟩ :: rest)
    (hdeclared : Declaration.ofText text = .ok declared) (hrest : (contributed rest).2 = none) :
    Compiles source ∧ (written source).lines = (contributed rest).1.lines ∧
      declarations source = declared := by
  obtain ⟨hin, hcontributed⟩ := contributed_setting_first hlexemes
  rw [hdeclared] at hcontributed
  have hcompiles : Compiles source := by
    refine ⟨hscan, ?_⟩
    rw [hcontributed]
    exact hrest
  refine ⟨hcompiles, ?_, ?_⟩
  · rw [lines_written hcompiles, hcontributed]
    rfl
  · rw [declarations_eq, hlexemes, List.flatMap_cons, Lexeme.flatMap_declarations_eq_nil hin]
    simp [Lexeme.declarations, Token.declarations, Lexeme.token, hdeclared]

end

/-- Where a group declares what it would alone: after settings, or in front of all tokens if no
reset is implied there. -/
def IsFree (before after : List Char) : Prop :=
  (lexemes before = [] ∧ impliedReset after = []) ∨ ∃ text, lexemes before = [⟨.setting, text⟩]

section

variable (group : SettingGroup) {before after : List Char} (hbefore : syntaxError? before = none)
  (hafter : Draft.AtOperator after)

include hbefore hafter

theorem compiles_insert (hall : Compiles (before ++ after)) (hfree : IsFree before after) :
    Compiles (before ++ bracketed group.payload ++ after) ∧
      (written (before ++ bracketed group.payload ++ after)).lines =
        (written (before ++ after)).lines ∧
      declarations (before ++ bracketed group.payload ++ after) =
        declarations (before ++ after) ++ group.declared := by
  have hreading := reading_eq_iff.2 ⟨hall.1, rfl⟩
  rcases hfree with ⟨hnil, himplied⟩ | ⟨text, htext⟩
  · obtain ⟨hinsert, hplain⟩ := reading_insert_nil group.isVerbatim hbefore hafter hnil
    rw [himplied, List.nil_append, hreading, Prod.mk.injEq] at hplain
    rw [← hplain.1, ← hplain.2, reading_eq_iff] at hinsert
    obtain ⟨hcompiles, hlines, hdeclarations⟩ :=
      compiles_of_declared hinsert.1 hinsert.2 group.accepted hall.2
    have hnone : declarations (before ++ after) = [] := by
      rw [declarations_eq]
      exact Lexeme.flatMap_declarations_eq_nil (contributed_setting_first hinsert.2).1
    exact ⟨hcompiles, by rw [hlines, lines_written hall], by rw [hdeclarations, hnone]; rfl⟩
  · have hlast : lexemes before = [] ++ [⟨.setting, text⟩] := htext
    obtain ⟨hinsert, hplain⟩ := reading_insert_append group.isVerbatim hbefore hafter hlast
    have hboth := hreading.symm.trans (hplain nofun)
    rw [List.nil_append, Prod.mk.injEq] at hboth
    obtain ⟨hlexemes, hnone⟩ := hboth
    rw [← hnone, List.nil_append, reading_eq_iff] at hinsert
    obtain ⟨declared, hdeclared, hrest⟩ := hall.exists_declared hlexemes
    obtain ⟨-, hlines, hdeclarations⟩ := compiles_of_declared hall.1 hlexemes hdeclared hrest
    obtain ⟨hcompiles, hlines', hdeclarations'⟩ := compiles_of_declared hinsert.1 hinsert.2
      (Declaration.ofText_append hdeclared group.accepted) hrest
    exact ⟨hcompiles, hlines'.trans hlines.symm, by rw [hdeclarations', hdeclarations]⟩

/-- A group that comes after some token other than settings is text of that token and declares
nothing. -/
theorem declarations_insert {front : List Lexeme} {kind : TokenKind} {text : List Char}
    (hlast : lexemes before = front ++ [⟨kind, text⟩]) (hkind : kind ≠ .setting) :
    (∃ rest, lexemes (before ++ bracketed group.payload ++ after) =
        front ++ ⟨kind, text ++ bracketed group.payload⟩ :: rest ∧
      ((kind.isRelation → text ≠ []) →
        lexemes (before ++ after) = front ++ ⟨kind, text⟩ :: rest)) ∧
      declarations (before ++ bracketed group.payload ++ after) = declarations before := by
  obtain ⟨hinsert, hplain⟩ := reading_insert_append group.isVerbatim hbefore hafter hlast
  have hlexemes : lexemes (before ++ bracketed group.payload ++ after) = _ :=
    congrArg Prod.fst hinsert
  refine ⟨⟨_, hlexemes, fun htext => congrArg Prod.fst (hplain htext)⟩, ?_⟩
  have hrest : ∀ lexeme ∈ (Pass.laterOutcome after).1, lexeme.kind.inRules := by
    have htail := lexemes_tail_inRules (before ++ bracketed group.payload ++ after)
    rw [hlexemes] at htail
    intro lexeme hlexeme
    refine htail lexeme ?_
    cases front <;> simp [hlexeme]
  have hsame (text' : List Char) : Lexeme.declarations ⟨kind, text'⟩ =
      Lexeme.declarations ⟨kind, text⟩ := by
    cases kind <;> first | rfl | exact absurd rfl hkind
  rw [declarations_eq, declarations_eq, hlexemes, hlast, List.flatMap_append, List.flatMap_append,
    List.flatMap_cons, Lexeme.flatMap_declarations_eq_nil hrest, hsame]
  simp

end

/-- A group put into a rule string that compiles, in front of an operator. Where it is free it sets
its attribute and leaves the rules as they are. In front of all tokens it takes the place of the
reset that is implied there. Anywhere else it is text of the token before it and declares nothing.
-/
theorem compile_insert {compiler : Compiler} (hr : compiler.Reached) (group : SettingGroup)
    {before after : List Char} (hbefore : ∃ text, (compiler.compile before).1 = .ok text)
    (hafter : Draft.AtOperator after)
    (hall : ∃ text, (compiler.compile (before ++ after)).1 = .ok text) :
    let source := before ++ bracketed group.payload ++ after
    (IsFree before after →
      (compiler.compile (before ++ after)).1 =
          .ok (compiler.settingsText (before ++ after) ++ compiler.rulesText (before ++ after)) ∧
        (compiler.compile source).1 =
          .ok (compiler.settingsText source ++ compiler.rulesText (before ++ after)) ∧
        ∃ declaration, group.declared = [declaration] ∧
          settingsOf source = (settingsOf (before ++ after)).declare declaration ∧
          ∀ setting, declaration = .setting setting →
            setting ∈ (settingsOf source).attributes) ∧
      (lexemes before = [] → ∃ rest, lexemes (before ++ after) = impliedReset after ++ rest ∧
        lexemes source = ⟨.setting, bracketed group.payload⟩ :: rest) ∧
      ∀ front kind text, lexemes before = front ++ [⟨kind, text⟩] → kind ≠ .setting →
        (∃ rest, lexemes source = front ++ ⟨kind, text ++ bracketed group.payload⟩ :: rest ∧
          ((kind.isRelation → text ≠ []) →
            lexemes (before ++ after) = front ++ ⟨kind, text⟩ :: rest)) ∧
          declarations source = declarations before := by
  intro source
  obtain ⟨textBefore, htextBefore⟩ := hbefore
  obtain ⟨⟨hscan, -⟩, -⟩ := (compile_eq_ok_iff hr textBefore).1 htextBefore
  obtain ⟨textAll, htextAll⟩ := hall
  obtain ⟨hall, rfl⟩ := (compile_eq_ok_iff hr textAll).1 htextAll
  refine ⟨fun hfree => ?_, fun hnil => ?_, fun front kind text hlast hkind => ?_⟩
  · obtain ⟨hcompiles, hlines, hdeclarations⟩ := compiles_insert group hscan hafter hall hfree
    have hrules : compiler.rulesText source = compiler.rulesText (before ++ after) := by
      rw [rulesText, rulesText, hlines]
    obtain ⟨declaration, hdeclared⟩ := group.exists_declared_eq
    have hsettings : settingsOf source = (settingsOf (before ++ after)).declare declaration := by
      rw [settingsOf, hdeclarations, hdeclared, Settings.declareAll_append]
      rfl
    refine ⟨htextAll, (compile_eq_ok_iff hr _).2 ⟨hcompiles, by rw [hrules]⟩, declaration,
      hdeclared, hsettings, ?_⟩
    rintro setting rfl
    rw [hsettings]
    exact Settings.mem_set setting _
  · obtain ⟨hinsert, hplain⟩ := reading_insert_nil group.isVerbatim hscan hafter hnil
    exact ⟨_, congrArg Prod.fst hplain, congrArg Prod.fst hinsert⟩
  · exact declarations_insert group hscan hafter hlast hkind

/-- A group after other settings. -/
theorem compile_insert_numeric :
    let source := "[strength 2][numeric on]&a<b".toList
    IsFree "[strength 2]".toList "&a<b".toList ∧
      (({} : Compiler).compile source).1 = .ok (({} : Compiler).settingsText source ++
        ({} : Compiler).rulesText "[strength 2]&a<b".toList) ∧
      ⟨.numeric, "on".toList⟩ ∈ (settingsOf source).attributes := by
  intro source
  have hbefore : ∃ text, (({} : Compiler).compile "[strength 2]".toList).1 = .ok text :=
    ⟨"<settings strength=\"secondary\"/>\n".toList, by decide +kernel⟩
  have hafter : Draft.AtOperator "&a<b".toList := by simp [Draft.AtOperator, operator?]
  have hall : ∃ text,
      (({} : Compiler).compile ("[strength 2]".toList ++ "&a<b".toList)).1 = .ok text := by
    refine ⟨"<settings strength=\"secondary\"/>\n".toList ++
      "<rules>\n\t<reset>a</reset>\n\t<p>b</p>\n</rules>\n".toList, ?_⟩
    decide +kernel
  have hfree : IsFree "[strength 2]".toList "&a<b".toList :=
    .inr ⟨"[strength 2]".toList, by decide +kernel⟩
  obtain ⟨hinsert, -⟩ := compile_insert (.new {}) .numeric hbefore hafter hall
  obtain ⟨-, hcompile, declaration, hdeclared, -, hsettings⟩ := hinsert hfree
  exact ⟨hfree, hcompile, hsettings _ (List.head_eq_of_cons_eq hdeclared).symm⟩

/-- A group after a relation. -/
theorem compile_insert_relation :
    ¬∀ (group : SettingGroup) (before after : List Char),
      (∃ text, (({} : Compiler).compile before).1 = .ok text) → Draft.AtOperator after →
      (∃ text, (({} : Compiler).compile (before ++ after)).1 = .ok text) →
      let source := before ++ bracketed group.payload ++ after
      (∃ text, (({} : Compiler).compile source).1 = .ok text) ∧
        ({} : Compiler).rulesText source = ({} : Compiler).rulesText (before ++ after) ∧
        ∀ setting, .setting setting ∈ group.declared →
          setting ∈ (settingsOf source).attributes := by
  intro hanywhere
  have hbefore : ∃ text, (({} : Compiler).compile "&a<b".toList).1 = .ok text :=
    ⟨"<rules>\n\t<reset>a</reset>\n\t<p>b</p>\n</rules>\n".toList, by decide +kernel⟩
  have hafter : Draft.AtOperator "<c".toList := by simp [Draft.AtOperator, operator?]
  have hall : ∃ text, (({} : Compiler).compile ("&a<b".toList ++ "<c".toList)).1 = .ok text :=
    ⟨"<rules>\n\t<reset>a</reset>\n\t<pc>bc</pc>\n</rules>\n".toList, by decide +kernel⟩
  obtain ⟨-, -, hsettings⟩ := hanywhere .numeric _ _ hbefore hafter hall
  exact absurd (hsettings _ List.mem_cons_self) (by decide +kernel)

end Compiler
end CollationRules
