import CollationRules.Proofs.Collation.Output
import CollationRules.Proofs.Rule.Decoding
import CollationRules.Proofs.Rule.Groups

/-! What the text of a setting token declares. It is read if it is a sequence of groups, and then
each group declares something of its own. The first that cannot be decoded is what is wrong with the
text. -/

namespace CollationRules

namespace Declaration

/-- The declarations in a text of settings with a span, which every error is given. -/
def ofTextAt (text : List Char) (span : Span) : Except ConfigError (List Declaration) :=
  (ofText text).mapError fun cause => ⟨cause, span⟩

variable {text : List Char} {span : Span}

theorem ofTextAt_of_strays {stray : List Char} (h : Strays 0 text stray) :
    ofTextAt text span = .error ⟨.textOutside stray, span⟩ := by
  have hgroups : groups text = .error (.textOutside stray) :=
    GroupPlace.read_eq_textOutside_iff.2 h
  rw [ofTextAt, ofText, hgroups]
  rfl

theorem ofTextAt_of_unclosed (h : groups text = .error .unclosed) :
    ofTextAt text span = .error ⟨.unclosed text, span⟩ := by
  rw [ofTextAt, ofText, h]
  rfl

theorem ofTextAt_text (g : Grouping) (span : Span) :
    ofTextAt g.text span = (g.payloads.mapM ofPayload).mapError fun cause => ⟨cause, span⟩ := by
  rw [ofTextAt, ofText, groups_text]

theorem ofTextAt_text_eq_ok_iff (g : Grouping) {declarations : List Declaration} :
    ofTextAt g.text span = .ok declarations ↔
      List.Forall₂ (fun payload declaration => ofPayload payload = .ok declaration) g.payloads
        declarations := by
  rw [ofTextAt_text, ← mapM_eq_ok_iff]
  cases g.payloads.mapM ofPayload <;> simp [Except.mapError]

theorem ofTextAt_text_eq_error_iff (g : Grouping) {error : ConfigError} :
    ofTextAt g.text span = .error error ↔
      ∃ before payload after, g.payloads = before ++ payload :: after ∧
        (∀ earlier ∈ before, ∃ declaration, ofPayload earlier = .ok declaration) ∧
        ofPayload payload = .error error.cause ∧ error.span = span := by
  obtain ⟨cause, place⟩ := error
  have hspan : ofTextAt g.text span = .error ⟨cause, place⟩ ↔
      g.payloads.mapM ofPayload = .error cause ∧ place = span := by
    rw [ofTextAt_text]
    cases g.payloads.mapM ofPayload <;> simp [Except.mapError, eq_comm]
  rw [hspan, mapM_eq_error_iff]
  constructor
  · rintro ⟨⟨before, payload, after, hpayloads, hbefore, hpayload⟩, hsame⟩
    exact ⟨before, payload, after, hpayloads, hbefore, hpayload, hsame⟩
  · rintro ⟨before, payload, after, hpayloads, hbefore, hpayload, hsame⟩
    exact ⟨⟨before, payload, after, hpayloads, hbefore, hpayload⟩, hsame⟩

end Declaration

/-- A run of settings declares what is in its text. -/
theorem Emission.run_setting (e : Emission) (text : List Char) (count : Nat) (last : Bool)
    (span : Span) :
    e.run ⟨.setting, text, count, last, span⟩ =
      (Declaration.ofTextAt text span).map fun declarations =>
        { e with settings := e.settings.declareAll declarations } := by
  unfold Emission.run Declaration.ofTextAt
  cases Declaration.ofText text <;> rfl

/-- The text of a setting token can be read exactly if it is a sequence of groups with blanks alone
between them. There is one division into groups then, which is found by taking leading groups off,
and the declarations are those of the groups, or the error is that of the first group that cannot be
decoded. Any other text is refused from its first stray character on if it has one, and otherwise
because a group is left open. -/
theorem Declaration.ofTextAt_groups (text : List Char) (span : Span) :
    Function.Injective Grouping.text ∧
    (∀ payloads, groups text = .ok payloads ↔
      ∃ g : Grouping, g.text = text ∧ g.payloads = payloads) ∧
    groups text = peeled text ∧
    (∀ stray, groups text = .error (.textOutside stray) ↔ Strays 0 text stray) ∧
    (∀ stray, Strays 0 text stray → ofTextAt text span = .error ⟨.textOutside stray, span⟩) ∧
    ((∀ g : Grouping, g.text ≠ text) → (∀ stray, ¬Strays 0 text stray) →
      ofTextAt text span = .error ⟨.unclosed text, span⟩) ∧
    (∀ g : Grouping, g.text = text →
      (∀ declarations, ofTextAt text span = .ok declarations ↔
        List.Forall₂ (fun payload declaration => ofPayload payload = .ok declaration)
          g.payloads declarations) ∧
      ∀ error, ofTextAt text span = .error error ↔
        ∃ before payload after, g.payloads = before ++ payload :: after ∧
          (∀ earlier ∈ before, ∃ declaration, ofPayload earlier = .ok declaration) ∧
          ofPayload payload = .error error.cause ∧ error.span = span) ∧
    ∀ (e : Emission) (count : Nat) (last : Bool),
      e.run ⟨.setting, text, count, last, span⟩ = (ofTextAt text span).map fun declarations =>
        { e with settings := e.settings.declareAll declarations } := by
  have hstrays (stray : List Char) :
      groups text = .error (.textOutside stray) ↔ Strays 0 text stray :=
    GroupPlace.read_eq_textOutside_iff
  refine ⟨Grouping.text_injective, fun payloads => groups_eq_ok_iff, groups_eq_peeled text, hstrays,
    fun stray => ofTextAt_of_strays, fun hdivided hstray => ?_, ?_,
    fun e count last => e.run_setting text count last span⟩
  · cases hgroups : groups text with
    | ok payloads =>
      obtain ⟨g, hg, -⟩ := groups_eq_ok_iff.1 hgroups
      exact absurd hg (hdivided g)
    | error fault =>
      cases fault with
      | textOutside stray => exact absurd ((hstrays stray).1 hgroups) (hstray stray)
      | unclosed => exact ofTextAt_of_unclosed hgroups
  · rintro g rfl
    exact ⟨fun declarations => ofTextAt_text_eq_ok_iff g, fun error => ofTextAt_text_eq_error_iff g⟩

/-- A group with groups in it, a bracket that closes nothing, and one that is not closed. -/
theorem Declaration.ofTextAt_groups_nested :
    let span : Span := ⟨3, 40⟩
    let divided := " [optimize [a[b]c]] [numeric\ton]".toList
    let strayed := "[numeric on]] [x".toList
    let left := "[numeric on] [optimize [a]".toList
    (∃ g : Grouping, g.text = divided ∧ ofTextAt divided span =
      .ok [.directive ⟨.optimize, "[a[b]c]".toList⟩, .setting ⟨.numeric, "on".toList⟩]) ∧
    (Strays 0 strayed "] [x".toList ∧
      ofTextAt strayed span = .error ⟨.textOutside "] [x".toList, span⟩) ∧
    (∀ g : Grouping, g.text ≠ left) ∧ (∀ stray, ¬Strays 0 left stray) ∧
      ofTextAt left span = .error ⟨.unclosed left, span⟩ := by
  intro span divided strayed left
  obtain ⟨-, hdivided, -, -, -, -, hdecoded, -⟩ := ofTextAt_groups divided span
  obtain ⟨g, hg, hpayloads⟩ :=
    (hdivided ["optimize [a[b]c]".toList, "numeric\ton".toList]).1 (by decide +kernel)
  obtain ⟨-, -, -, hstrayed, hrefused, -⟩ := ofTextAt_groups strayed span
  have hstray : Strays 0 strayed "] [x".toList := (hstrayed _).1 (by decide +kernel)
  obtain ⟨-, hleft, -, hstrays, -, hunclosed, -⟩ := ofTextAt_groups left span
  have hgroups : groups left = .error .unclosed := by decide +kernel
  have hnone : ∀ g : Grouping, g.text ≠ left := by
    intro g hg
    have hok := (hleft g.payloads).2 ⟨g, hg, rfl⟩
    rw [hgroups] at hok
    cases hok
  have hfree : ∀ stray, ¬Strays 0 left stray := by
    intro stray h
    have herror := (hstrays stray).2 h
    rw [hgroups] at herror
    cases herror
  refine ⟨⟨g, hg, ((hdecoded g hg).1 _).2 ?_⟩, ⟨hstray, hrefused _ hstray⟩, hnone, hfree,
    hunclosed hnone hfree⟩
  rw [hpayloads]
  exact .cons (by decide +kernel) (.cons (by decide +kernel) .nil)

end CollationRules
