import CollationRules.Proofs.Collation.Names
import CollationRules.Proofs.Collation.Text
import CollationRules.Proofs.Markup.Payload
import CollationRules.Proofs.Rule.Parts

/-! Where expansion marks are left in markup. The elements of resets and of rules leave them out,
and the values of settings and the sets of directives keep those that a slash in a group stands for.
-/

namespace CollationRules

open Markup (Name line payloadOf)

/-! ### Resets and rules -/

theorem Operand.not_mem_split (text : List Char) :
    expansionMark ∉ (split text).context.getD [] ++ (split text).head ++
      (split text).extension.getD [] := by
  have hbefore : expansionMark ∉ text.takeWhile (· != expansionMark) := by
    intro hmem
    simpa using List.mem_takeWhile_imp hmem
  have hextension : expansionMark ∉ (if expansionMark ∈ text then
      some (((text.dropWhile (· != expansionMark)).drop 1).filter (· != expansionMark))
      else none).getD [] := by
    split <;> simp
  have hcontext : expansionMark ∉
      (text.takeWhile (· != expansionMark)).takeWhile (· != contextMark) :=
    fun hmem => hbefore ((List.takeWhile_sublist _).subset hmem)
  have hrest : expansionMark ∉
      ((text.takeWhile (· != expansionMark)).dropWhile (· != contextMark)).drop 1 :=
    fun hmem => hbefore ((List.dropWhile_sublist _).subset (List.mem_of_mem_drop hmem))
  unfold split
  simp only
  split
  · simp only [List.mem_append, not_or]
    exact ⟨⟨hcontext, hrest⟩, hextension⟩
  · simp only [List.mem_append, not_or]
    exact ⟨⟨List.not_mem_nil, hbefore⟩, hextension⟩

theorem Operand.payloadOf_pieces (operand : Operand) (name : Name) :
    payloadOf (operand.pieces name) =
      operand.context.getD [] ++ operand.head ++ operand.extension.getD [] := by
  have hparts : payloadOf (operand.partPieces name) =
      operand.context.getD [] ++ operand.head ++ operand.extension.getD [] := by
    obtain ⟨context, head, extension⟩ := operand
    cases context <;> cases extension <;> simp [partPieces]
  unfold pieces
  split
  · simp [hparts, Markup.Token.payload]
  · exact hparts

theorem Reset.not_mem_pieces (reset : Reset) : expansionMark ∉ payloadOf reset.pieces := by
  obtain ⟨before, position⟩ := reset
  have hlevel : ∀ level ∈ before, expansionMark ∉ level.name.toList := by
    intro level _
    cases level <;> decide
  have hposition : expansionMark ∉ payloadOf position.pieces := by
    cases position with
    | anchor place => simp [ResetPosition.pieces, Markup.Token.payload]
    | literal text => simp [ResetPosition.pieces]
  cases before <;> simp_all [pieces, Markup.Token.payload]

theorem IsRuleElement.not_mem {content : List Markup.Token} (h : IsRuleElement content) :
    expansionMark ∉ payloadOf content := by
  cases h with
  | reset reset => exact reset.not_mem_pieces
  | relation text strength isSequence =>
    rw [Operand.payloadOf_pieces, Operand.ofText_eq]
    exact Operand.not_mem_split text

theorem not_mem_rulesBlock (indent : Markup.Spacing) (depth : UInt64)
    {lines : List (List Markup.Token)} (h : ∀ content ∈ lines, IsRuleElement content) :
    expansionMark ∉ payloadOf (rulesBlock indent depth lines) := by
  unfold rulesBlock
  split
  · simp
  · rw [Markup.payloadOf_block, List.mem_flatMap]
    rintro ⟨content, hcontent, hmem⟩
    exact (h content hcontent).not_mem hmem

/-! ### Settings -/

/-- Whether a setting or a directive has an expansion mark. -/
def Settings.HasMark (s : Settings) : Prop :=
  (∃ setting ∈ s.attributes, expansionMark ∈ setting.value) ∨
    ∃ directive ∈ s.directives, expansionMark ∈ directive.set

theorem Settings.mem_lines_iff (s : Settings) (indent : Markup.Spacing) (depth : UInt64) :
    expansionMark ∈ payloadOf (s.lines.flatMap (line indent depth)) ↔ s.HasMark := by
  have hpayload : payloadOf (s.lines.flatMap (line indent depth)) =
      s.attributes.flatMap Setting.value ++ s.directives.flatMap Directive.set := by
    rw [lines, List.flatMap_append, Markup.payloadOf_append, Markup.payloadOf_flatMap,
      Markup.payloadOf_flatMap, List.flatMap_map]
    cases s.attributes <;> simp [Markup.Token.payload, List.flatMap_map]
  rw [hpayload, List.mem_append, List.mem_flatMap, List.mem_flatMap]
  rfl

namespace Compiler

/-- The markup of a rule string is that of its settings and then that of its rules. -/
theorem text_compile {compiler : Compiler} (hr : compiler.Reached) {source text : List Char}
    (h : (compiler.compile source).1 = .ok text) :
    text =
      (Markup.write .outside ((settingsOf source).lines.flatMap
        (line compiler.layout.indent compiler.layout.depth))).text ++
      (Markup.write .outside
        (rulesBlock compiler.layout.indent compiler.layout.depth (written source).lines)).text :=
  ((compile_eq_ok_iff hr text).1 h).2

/-- Expansion marks are left out of the markup of rules, so that one is left in the markup of a rule
string exactly if a value of a setting or the set of a directive has one. -/
theorem compile_mark_iff {compiler : Compiler} (hr : compiler.Reached) {source text : List Char}
    (h : (compiler.compile source).1 = .ok text) :
    let indent := compiler.layout.indent
    let depth := compiler.layout.depth
    ∃ rules : List (List Markup.Token), (∀ content ∈ rules, IsRuleElement content) ∧
      let settingsText :=
        (Markup.write .outside ((settingsOf source).lines.flatMap (line indent depth))).text
      let rulesText := (Markup.write .outside (rulesBlock indent depth rules)).text
      text = settingsText ++ rulesText ∧ expansionMark ∉ rulesText ∧
        (expansionMark ∈ text ↔ (settingsOf source).HasMark) := by
  intro indent depth
  have hforeign : Markup.isForeign expansionMark := by decide
  have hrules : ∀ content ∈ (written source).lines, IsRuleElement content :=
    contributions_isRuleElement _
  have hmark := Markup.mem_text_write_iff hforeign
    (all_isPlain_lines indent depth ((settingsOf source).all_lines .isPlain))
    ((settingsOf source).wellNested_flatMap_line indent depth).write_outside
  rw [Settings.mem_lines_iff] at hmark
  have hfree : expansionMark ∉
      (Markup.write .outside (rulesBlock indent depth (written source).lines)).text := by
    rw [Markup.mem_text_write_iff hforeign (all_isPlain_rulesBlock indent depth hrules)
      (wellNested_rulesBlock indent depth hrules).write_outside]
    exact not_mem_rulesBlock indent depth hrules
  have htext := text_compile hr h
  refine ⟨(written source).lines, hrules, htext, hfree, ?_⟩
  rw [htext, List.mem_append, or_iff_left hfree, hmark]

/-- The mark in the set of a directive is left, and those of the rule are not. -/
theorem compile_mark_iff_directive :
    let source := "[optimize [a/b]]&a<b/c/d".toList
    ∃ text, (({} : Compiler).compile source).1 = .ok text ∧ (settingsOf source).HasMark ∧
      expansionMark ∈ text := by
  intro source
  have hcompile : (({} : Compiler).compile source).1 = .ok
      ("<optimize>[a\uFFFFb]</optimize>\n<rules>\n\t<reset>a</reset>\n".toList ++
        "\t<x><p>b</p><extend>cd</extend></x>\n</rules>\n".toList) := by
    decide +kernel
  have hmark : (settingsOf source).HasMark :=
    .inr ⟨⟨.optimize, "[a\uFFFFb]".toList⟩, by decide +kernel, by decide⟩
  obtain ⟨rules, -, -, -, hiff⟩ := compile_mark_iff (.new {}) hcompile
  exact ⟨_, hcompile, hmark, hiff.2 hmark⟩

/-- A slash in the value of a setting is left in the markup as an expansion mark. -/
theorem compile_mark_setting :
    ¬∀ source text, CollationRules.compile source = .ok text → expansionMark ∉ text := by
  intro hfree
  refine hfree "[alternate a/b]".toList "<settings alternate=\"a\uFFFFb\"/>\n".toList ?_ ?_
  · decide +kernel
  · decide

end Compiler
end CollationRules
