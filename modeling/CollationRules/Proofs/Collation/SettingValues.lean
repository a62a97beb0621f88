import CollationRules.Proofs.Collation.Layouts
import CollationRules.Proofs.Collation.Names
import CollationRules.Proofs.Collation.Text
import CollationRules.Proofs.Markup.AttributeValues
import CollationRules.Proofs.Markup.LineText
import CollationRules.Proofs.Rule.Decoding

/-! The values of settings in markup. A control character in a value is refused where the setting is
decoded, so that the attributes of a collation are read as the rule string has them. -/

namespace CollationRules

open Markup (EscapesContent attributeReferences attributeSub? attributeValues escapeAttribute isC0
  isKept lineText readAttributes readValue rewrite)

/-! ### Decoded values -/

theorem isKept_of_isControl {value : List Char} (h : value.any Text.isControl = false) :
    isKept value := by
  refine List.all_eq_true.2 fun c hc => ?_
  have hcontrol : ¬Text.isControl c := List.any_eq_false.1 h c hc
  have hreplaced : ¬Markup.isReplaced c := by
    simp only [Text.isControl, Text.CharSet.has, Text.controls, List.any_cons, List.any_nil,
      Bool.or_false, Bool.or_eq_true, Bool.and_eq_true, decide_eq_true_eq] at hcontrol
    simp only [Markup.isReplaced, isC0, Bool.and_eq_true, decide_eq_true_eq]
    omega
  simpa using hreplaced

theorem Level.isKept_name (level : Level) : isKept level.name.toList := by
  cases level <;> decide

theorem Level.isKept_of_ofNumeral? {numeral : List Char} {level : Level}
    (h : ofNumeral? numeral = some level) : isKept numeral := by
  unfold ofNumeral? at h
  split at h <;> first | decide | cases h

/-- A value that an attribute permits can be held, and so can what it becomes. -/
theorem Attribute.isKept_of_value? {name : Attribute} {value kept : List Char}
    (h : name.value? value = some kept) : isKept value ∧ isKept kept := by
  unfold value? at h
  split at h
  · obtain ⟨level, hlevel, rfl⟩ := Option.map_eq_some_iff.1 h
    exact ⟨Level.isKept_of_ofNumeral? hlevel, level.isKept_name⟩
  · split at h
    · rename_i hvalue
      cases h
      rw [hvalue]
      decide
    · cases h
  · split at h
    · cases h
    · rename_i hcontrol
      cases h
      have hkept := isKept_of_isControl (Bool.eq_false_iff.2 hcontrol)
      exact ⟨hkept, hkept⟩

namespace Declaration

theorem isKept_of_ofNamed {name value : List Char} {setting : Setting}
    (h : ofNamed name value = .ok (.setting setting)) : isKept value ∧ isKept setting.value := by
  unfold ofNamed at h
  split at h
  · cases h
  · split at h
    · split at h
      · rename_i kept hkept
        cases h
        exact Attribute.isKept_of_value? hkept
      · cases h
    · split at h <;> cases h

theorem isKept_of_ofText {text : List Char} {declarations : List Declaration}
    (h : ofText text = .ok declarations) {setting : Setting}
    (hmem : .setting setting ∈ declarations) : isKept setting.value := by
  unfold ofText at h
  split at h
  · obtain ⟨payload, -, hpayload⟩ := exists_of_mapM_eq_ok h hmem
    exact (isKept_of_ofNamed hpayload).2
  · cases h
  · cases h

end Declaration

theorem Token.isKept_of_mem_declarations {token : Token} {setting : Setting}
    (h : .setting setting ∈ token.declarations) : isKept setting.value := by
  unfold declarations at h
  split at h
  · split at h
    · rename_i declarations hdeclarations
      exact Declaration.isKept_of_ofText hdeclarations h
    · cases h
  · cases List.mem_singleton.1 h
    decide
  · cases h

/-! ### Settings -/

theorem Settings.mem_of_mem_set {setting other : Setting} {settings : List Setting}
    (h : other ∈ set setting settings) : other = setting ∨ other ∈ settings := by
  induction settings with
  | nil => exact .inl (List.mem_singleton.1 h)
  | cons first rest ih =>
    unfold set at h
    split at h
    · rcases List.mem_cons.1 h with rfl | hmem
      · exact .inl rfl
      · exact .inr (List.mem_cons_of_mem first hmem)
    · rcases List.mem_cons.1 h with rfl | hmem
      · exact .inr List.mem_cons_self
      · exact (ih hmem).imp_right (List.mem_cons_of_mem first)

/-- No attribute has a value that was not declared for it. -/
theorem Settings.mem_of_mem_declareAll {s : Settings} {declarations : List Declaration}
    {setting : Setting} (h : setting ∈ (s.declareAll declarations).attributes) :
    setting ∈ s.attributes ∨ .setting setting ∈ declarations := by
  induction declarations generalizing s with
  | nil => exact .inl h
  | cons declaration rest ih =>
    rcases ih h with hmem | hmem
    · cases declaration with
      | setting declared =>
        rcases mem_of_mem_set hmem with rfl | hmem
        · exact .inr List.mem_cons_self
        · exact .inl hmem
      | directive directive => exact .inl hmem
    · exact .inr (List.mem_cons_of_mem declaration hmem)

theorem isKept_of_mem_settingsOf {source : List Char} {setting : Setting}
    (h : setting ∈ (settingsOf source).attributes) : isKept setting.value := by
  rcases Settings.mem_of_mem_declareAll h with hmem | hmem
  · cases hmem
  · obtain ⟨token, -, htoken⟩ := List.mem_flatMap.1 hmem
    exact token.isKept_of_mem_declarations htoken

/-! ### Markup -/

/-- The attributes of settings in markup. -/
def Settings.markupAttributes (s : Settings) : List (Markup.Name × List Char) :=
  s.attributes.map fun setting => (setting.name.markup, setting.value)

theorem Settings.attributeValues_lines (s : Settings) :
    s.lines.flatMap attributeValues = s.attributes.map Setting.value := by
  rw [List.map_eq_flatMap]
  exact s.filterMap_lines Markup.ofAttributes_attributeValue?

/-- No element of a rule has attributes. -/
theorem Operand.attributeValues_pieces (operand : Operand) (name : Markup.Name) :
    attributeValues (operand.pieces name) = [] := by
  have helement := Markup.ofAttributes_attributeValue?.filterMap_elementPieces
  have hpart (name : Markup.Name) (part : Option (List Char)) :
      (part.toList.flatMap (Markup.elementPieces name)).filterMap
        Markup.Token.attributeValue? = [] := by
    rw [List.filterMap_flatMap]
    exact List.flatMap_eq_nil_iff.2 fun text _ => helement name text
  have hparts : (operand.partPieces name).filterMap Markup.Token.attributeValue? = [] := by
    rw [partPieces, List.filterMap_append, List.filterMap_append, hpart, hpart, helement]
    rfl
  rw [pieces, attributeValues]
  split
  · rw [List.cons_append, List.filterMap_cons_none rfl, List.filterMap_append, hparts]
    rfl
  · exact hparts

/-- A reset has no attributes but the level before which it places rules. -/
theorem Reset.attributeValues_pieces (reset : Reset) :
    attributeValues reset.pieces = reset.before.toList.map fun level => level.name.toList := by
  have hposition : reset.position.pieces.filterMap Markup.Token.attributeValue? = [] := by
    cases reset.position with
    | anchor place => rfl
    | literal text => exact Markup.ofAttributes_attributeValue?.filterMap_textPieces _
  rw [pieces, attributeValues, List.filterMap_append, List.cons_append,
    List.filterMap_cons_none rfl, List.filterMap_append, hposition]
  cases reset.before <;> rfl

theorem IsRuleElement.isKept {content : List Markup.Token} (h : IsRuleElement content) :
    ∀ value ∈ attributeValues content, isKept value := by
  cases h with
  | reset reset =>
    rw [reset.attributeValues_pieces, List.forall_mem_map]
    exact fun level _ => level.isKept_name
  | relation text strength isSequence =>
    rw [Operand.attributeValues_pieces]
    exact List.forall_mem_nil _

namespace Compiler

/-- No attribute that a rule string adds is altered. -/
theorem isKept_of_mem_addition {source : List Char} {indent : Markup.Spacing} {depth : UInt64} :
    ∀ value ∈ attributeValues (addition source indent depth), isKept value := by
  have hselect := Markup.ofAttributes_attributeValue?
  intro value hvalue
  rw [addition, attributeValues, List.filterMap_append, hselect.filterMap_lines, frontLines,
    rulesBlock] at hvalue
  rcases List.mem_append.1 hvalue with hmem | hmem
  · split at hmem
    · cases hmem
    · change value ∈ (settingsOf source).lines.flatMap attributeValues at hmem
      rw [Settings.attributeValues_lines] at hmem
      obtain ⟨setting, hsetting, rfl⟩ := List.mem_map.1 hmem
      exact isKept_of_mem_settingsOf hsetting
  · split at hmem
    · cases hmem
    · rw [hselect.filterMap_block] at hmem
      obtain ⟨content, hcontent, hmem⟩ := List.mem_flatMap.1 hmem
      exact (contributions_isRuleElement _ content hcontent).isKept value hmem

/-- The line of the settings comes first in the markup of a rule string that sets attributes. -/
theorem exists_settings_line {compiler : Compiler} (hr : compiler.Reached) {source text : List Char}
    (h : (compiler.compile source).1 = .ok text) (hset : (settingsOf source).attributes ≠ []) :
    ∃ rest, text =
      lineText compiler.layout.indent compiler.layout.depth
        ('<' :: (Markup.startText "settings" (settingsOf source).markupAttributes ++ ['/']) ++
          ['>']) ++ rest := by
  obtain ⟨-, rfl⟩ := (compile_eq_ok_iff hr text).1 h
  have hlines : (settingsOf source).lines =
      (.openTag "settings" :: Markup.attributePieces (settingsOf source).markupAttributes ++
        [.closeEmpty]) ::
      (settingsOf source).directives.map fun directive =>
        Markup.elementPieces directive.kind.markup directive.set := by
    simp [Settings.lines, Settings.markupAttributes, hset]
  have htext := Markup.text_lines compiler.layout.indent compiler.layout.depth
    (settingsOf source).wellNested_lines []
  have helement := Markup.text_empty "settings" (settingsOf source).markupAttributes []
  rw [List.append_nil] at htext
  rw [settingsText, htext, hlines, List.map_cons, List.flatMap_cons, helement]
  simp only [Markup.write, List.append_assoc, List.append_nil]
  exact ⟨_, rfl⟩

end Compiler

/-- An attribute value has no mark that could end it, and is read as it was meant unless it has a
control character that there is no reference for. Two passes write what one does, if the first of
them replaces the characters with a meaning in content and no others. No value that a setting can
have is altered, so the attributes that a rule string adds, and those of the settings in its markup,
are read as they were meant. -/
theorem attributes_safe_and_lossless {partialEscape : List Char → List Char}
    (hescape : EscapesContent partialEscape) :
    (∀ value, rewrite attributeSub? (partialEscape value) = escapeAttribute value) ∧
    (∀ value, '<' ∉ escapeAttribute value ∧ '>' ∉ escapeAttribute value ∧
      '"' ∉ escapeAttribute value ∧ (escapeAttribute value).all (!isC0 ·)) ∧
    (∀ value before rest, escapeAttribute value = before ++ '&' :: rest →
      ∃ reference ∈ attributeReferences, reference <+: '&' :: rest) ∧
    (∀ value, isKept value → readValue (escapeAttribute value) = some value) ∧
    (∀ name value setting, Declaration.ofNamed name value = .ok (.setting setting) →
      isKept value ∧ isKept setting.value) ∧
    (∀ text declarations setting, Declaration.ofText text = .ok declarations →
      .setting setting ∈ declarations → isKept setting.value) ∧
    ∀ compiler : Compiler, compiler.Reached → ∀ source,
      (∀ out, ∃ added, (compiler.append source out).out.tokens.toList = out.tokens.toList ++ added ∧
        ∀ value ∈ attributeValues added, readValue (escapeAttribute value) = some value) ∧
      ∀ text, (compiler.compile source).1 = .ok text → (settingsOf source).attributes ≠ [] →
        ∃ written rest, text = lineText compiler.layout.indent compiler.layout.depth
            ("<settings".toList ++ written ++ "/>".toList) ++ rest ∧
          readAttributes written = some (settingsOf source).markupAttributes := by
  refine ⟨hescape.rewrite_attributeSub?, Markup.escapeAttribute_safe,
    fun value before rest => Markup.exists_reference, fun value => Markup.readValue_eq_self,
    fun name value setting => Declaration.isKept_of_ofNamed,
    fun text declarations setting htext hmem => Declaration.isKept_of_ofText htext hmem,
    fun compiler hr source => ⟨fun out => ?_, fun text htext hset => ?_⟩⟩
  · refine ⟨Compiler.addition source out.indent out.depth, ?_, fun value hvalue =>
      Markup.readValue_eq_self (Compiler.isKept_of_mem_addition value hvalue)⟩
    rw [Compiler.append_eq hr, Markup.Builder.tokens_add]
  · obtain ⟨rest, hrest⟩ := Compiler.exists_settings_line hr htext hset
    refine ⟨(settingsOf source).markupAttributes.flatMap Markup.attributeText, rest, ?_, ?_⟩
    · rw [hrest]
      simp [Markup.startText]
    · refine Markup.readAttributes_eq_self ?_ ?_ <;> rw [Settings.markupAttributes,
        List.forall_mem_map]
      · exact fun setting _ => setting.name.isPlain_markup
      · exact fun setting hsetting => isKept_of_mem_settingsOf hsetting

/-- The first pass can replace one character after the other, and a setting can have any mark in its
value. -/
theorem attributes_safe_and_lossless_marks :
    let partialEscape (text : List Char) :=
      text.flatMap fun c => (Markup.contentReference? c).getD [c]
    let source := "[alternate a'&<'\"b][strength 2]&a<b".toList
    EscapesContent partialEscape ∧
    rewrite attributeSub? (partialEscape "\t\u0001&\"".toList) =
      "&#x9;\uFFFD&amp;&quot;".toList ∧
    ∃ text written rest, (({} : Compiler).compile source).1 = .ok text ∧
      text = lineText .tab 0 ("<settings".toList ++ written ++ "/>".toList) ++ rest ∧
      readAttributes written =
        some [("alternate", "a&<\"b".toList), ("strength", "secondary".toList)] := by
  intro partialEscape source
  have hescape : EscapesContent partialEscape := fun _ => rfl
  obtain ⟨htwo, -, -, -, -, -, hcompiler⟩ := attributes_safe_and_lossless hescape
  refine ⟨hescape, ?_, ?_⟩
  · rw [htwo]
    decide +kernel
  · cases hresult : (({} : Compiler).compile source).1 with
    | error failure =>
      have hok : (({} : Compiler).compile source).1.isOk := by decide +kernel
      rw [hresult] at hok
      cases hok
    | ok text =>
      obtain ⟨written, rest, htext, hread⟩ :=
        (hcompiler {} (.new {}) source).2 text hresult (by decide +kernel)
      refine ⟨text, written, rest, rfl, htext, hread.trans ?_⟩
      decide +kernel

end CollationRules
