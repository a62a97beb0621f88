import CollationRules.Proofs.Collation.Output
import Mathlib.Data.List.Induction
import Mathlib.Data.List.Nodup

/-! Settings as a map that keeps the order of insertion and the last value. After any declarations
and clearings they are those of the declarations behind the last clearing: each attribute once,
where it was first declared and with the value that was declared last, and every directive. So no
tag that is written from them repeats an attribute. -/

namespace CollationRules

open Markup (Builder line)

/-! ### Declarations -/

/-- The settings among declarations, in order. -/
def assignments (declared : List Declaration) : List Setting :=
  declared.filterMap Declaration.setting?

theorem assignments_concat_setting (declared : List Declaration) (setting : Setting) :
    assignments (declared ++ [.setting setting]) = assignments declared ++ [setting] :=
  List.filterMap_append ..

theorem assignments_concat_directive (declared : List Declaration) (directive : Directive) :
    assignments (declared ++ [.directive directive]) = assignments declared :=
  (List.filterMap_append ..).trans (List.append_nil _)

namespace Settings

theorem names_append (first second : List Setting) :
    names (first ++ second) = names first ++ names second :=
  List.map_append

/-- A setting takes the place of the one of its attribute, and all others stay. -/
theorem mem_set_iff {setting other : Setting} {settings : List Setting}
    (h : (names settings).Nodup) :
    other ∈ set setting settings ↔
      other = setting ∨ other ∈ settings ∧ other.name ≠ setting.name := by
  induction settings with
  | nil => simp [set]
  | cons first rest ih =>
    rw [names_cons, List.nodup_cons] at h
    obtain ⟨hfirst, hrest⟩ := h
    by_cases hname : first.name = setting.name
    · have hothers : other ∈ rest → other.name ≠ setting.name := fun hmem heq =>
        hfirst (List.mem_map.2 ⟨other, hmem, heq.trans hname.symm⟩)
      rw [set, if_pos hname, List.mem_cons, List.mem_cons]
      constructor
      · rintro (rfl | hmem)
        · exact .inl rfl
        · exact .inr ⟨.inr hmem, hothers hmem⟩
      · rintro (rfl | ⟨rfl | hmem, hne⟩)
        · exact .inl rfl
        · exact absurd hname hne
        · exact .inr hmem
    · rw [set, if_neg hname, List.mem_cons, List.mem_cons, ih hrest]
      constructor
      · rintro (rfl | rfl | ⟨hmem, hne⟩)
        · exact .inr ⟨.inl rfl, hname⟩
        · exact .inl rfl
        · exact .inr ⟨.inr hmem, hne⟩
      · rintro (rfl | ⟨rfl | hmem, hne⟩)
        · exact .inr (.inl rfl)
        · exact .inl rfl
        · exact .inr (.inr ⟨hmem, hne⟩)

theorem mem_names_set_iff {setting : Setting} {settings : List Setting} {name : Attribute} :
    name ∈ names (set setting settings) ↔ name ∈ names settings ∨ name ∈ names [setting] := by
  rw [names_set]
  by_cases hdeclared : setting.name ∈ names settings
  · rw [if_pos hdeclared]
    refine ⟨.inl, Or.rec id fun hname => ?_⟩
    rw [List.mem_singleton.1 hname]
    exact hdeclared
  · rw [if_neg hdeclared, List.mem_append]
    rfl

/-- Settings that are what declarations add up to. -/
structure Collects (s : Settings) (declared : List Declaration) : Prop where
  nodup : (names s.attributes).Nodup
  /-- Just the attributes that are declared are set. -/
  mem_names : ∀ name, name ∈ names s.attributes ↔ name ∈ names (assignments declared)
  /-- The attributes stand in the order in which they were first declared. -/
  order : (names s.attributes).Pairwise fun a b =>
    (names (assignments declared)).idxOf a < (names (assignments declared)).idxOf b
  /-- No value is declared for an attribute behind the one that it has. -/
  last : ∀ setting ∈ s.attributes, ∃ before after,
    assignments declared = before ++ setting :: after ∧ setting.name ∉ names after
  directives : s.directives = declared.filterMap Declaration.directive?

section

variable {s : Settings} {declared : List Declaration} (h : s.Collects declared)

include h

theorem Collects.declare_directive (directive : Directive) :
    (s.declare (.directive directive)).Collects (declared ++ [.directive directive]) := by
  obtain ⟨hnodup, hmem, horder, hlast, hdirectives⟩ := h
  rw [← assignments_concat_directive declared directive] at hmem horder hlast
  refine ⟨hnodup, hmem, horder, hlast, ?_⟩
  rw [List.filterMap_append, ← hdirectives]
  rfl

/-- A new attribute is first declared behind all others, and an old one is where it was. -/
theorem Collects.order_set (setting : Setting) :
    (names (set setting s.attributes)).Pairwise fun a b =>
      (names (assignments declared ++ [setting])).idxOf a <
        (names (assignments declared ++ [setting])).idxOf b := by
  have hold {name : Attribute} (hname : name ∈ names s.attributes) :
      (names (assignments declared ++ [setting])).idxOf name =
        (names (assignments declared)).idxOf name := by
    rw [names_append, List.idxOf_append_of_mem ((h.mem_names name).1 hname)]
  have hkept : (names s.attributes).Pairwise fun a b =>
      (names (assignments declared ++ [setting])).idxOf a <
        (names (assignments declared ++ [setting])).idxOf b := by
    refine h.order.imp_of_mem fun ha hb hlt => ?_
    rw [hold ha, hold hb]
    exact hlt
  rw [names_set]
  by_cases hdeclared : setting.name ∈ names s.attributes
  · rw [if_pos hdeclared]
    exact hkept
  · rw [if_neg hdeclared, List.pairwise_append]
    refine ⟨hkept, List.pairwise_singleton _ _, ?_⟩
    intro name hname new hnew
    obtain rfl := List.mem_singleton.1 hnew
    have hbefore := List.idxOf_lt_length_of_mem ((h.mem_names name).1 hname)
    rw [h.mem_names] at hdeclared
    rw [hold hname, names_append, List.idxOf_append_of_notMem hdeclared]
    omega

theorem Collects.declare_setting (setting : Setting) :
    (s.declare (.setting setting)).Collects (declared ++ [.setting setting]) := by
  constructor
  · exact nodup_names_set h.nodup setting
  · intro name
    rw [assignments_concat_setting, names_append, List.mem_append, ← h.mem_names]
    exact mem_names_set_iff
  · rw [assignments_concat_setting]
    exact h.order_set setting
  · intro other hother
    rw [assignments_concat_setting]
    rcases (mem_set_iff h.nodup).1 hother with rfl | ⟨hmem, hne⟩
    · exact ⟨assignments declared, [], rfl, List.not_mem_nil⟩
    · obtain ⟨before, after, hsplit, hafter⟩ := h.last other hmem
      refine ⟨before, after ++ [setting], by rw [hsplit]; simp, ?_⟩
      rw [names_append, List.mem_append, not_or]
      exact ⟨hafter, fun hname => hne (List.mem_singleton.1 hname)⟩
  · rw [List.filterMap_append, ← h.directives]
    exact (List.append_nil _).symm

/-- What one more declaration keeps. -/
theorem Collects.declare (declaration : Declaration) :
    (s.declare declaration).Collects (declared ++ [declaration]) := by
  cases declaration with
  | directive directive => exact h.declare_directive directive
  | setting setting => exact h.declare_setting setting

end

/-- What declarations, one after the other, come to. -/
theorem collects_declareAll (declared : List Declaration) :
    (({} : Settings).declareAll declared).Collects declared := by
  induction declared using List.reverseRecOn with
  | nil => exact ⟨List.nodup_nil, fun _ => .rfl, .nil, List.forall_mem_nil _, rfl⟩
  | append_singleton declared declaration ih =>
    rw [declareAll_append]
    exact ih.declare declaration

theorem isEmpty_declareAll_iff (declared : List Declaration) :
    (({} : Settings).declareAll declared).isEmpty ↔ declared = [] := by
  rw [isEmpty, Bool.and_eq_true, List.isEmpty_iff, List.isEmpty_iff,
    attributes_declareAll_eq_nil_iff, directives_declareAll]
  cases declared with
  | nil => exact iff_of_true ⟨⟨rfl, rfl⟩, rfl⟩ rfl
  | cons declaration rest =>
    cases declaration <;> simp [Declaration.setting?, Declaration.directive?]

/-! ### Calls -/

/-- A call on settings. -/
inductive Call
  | declare (declaration : Declaration)
  | clear

def Call.declaration? : Call → Option Declaration
  | declare declaration => some declaration
  | clear => none

/-- The settings after a call. -/
def call (s : Settings) : Call → Settings
  | .declare declaration => s.declare declaration
  | .clear => {}

/-- The settings after some calls, none being set before. -/
def after (calls : List Call) : Settings := calls.foldl call {}

/-- What is declared behind the last clearing. -/
def declaredSince (calls : List Call) : List Declaration :=
  ((calls.reverse.takeWhile fun call => call.declaration?.isSome).filterMap
    Call.declaration?).reverse

theorem declaredSince_concat_declare (calls : List Call) (declaration : Declaration) :
    declaredSince (calls ++ [.declare declaration]) = declaredSince calls ++ [declaration] := by
  simp [declaredSince, Call.declaration?]

theorem declaredSince_concat_clear (calls : List Call) :
    declaredSince (calls ++ [.clear]) = [] := by
  simp [declaredSince, Call.declaration?]

theorem after_eq (calls : List Call) :
    after calls = ({} : Settings).declareAll (declaredSince calls) := by
  induction calls using List.reverseRecOn with
  | nil => rfl
  | append_singleton calls last ih =>
    rw [after, List.foldl_concat]
    rw [after] at ih
    cases last with
    | declare declaration =>
      rw [declaredSince_concat_declare, declareAll_append, ih]
      rfl
    | clear =>
      rw [declaredSince_concat_clear]
      rfl

end Settings

/-! ### Attributes that are written -/

namespace Markup

def Token.attributeName? : Token → Option Name
  | attributeName name => some name
  | _ => none

/-- The names of the attributes among pieces, in order. -/
def attributeNames (pieces : List Token) : List Name := pieces.filterMap Token.attributeName?

theorem ofAttributes_attributeName? : OfAttributes Token.attributeName? :=
  ⟨fun _ => rfl, fun _ => rfl, rfl, fun _ => rfl, fun _ => rfl⟩

end Markup

namespace Settings

/-- The attributes that are written are those that are set. -/
theorem attributeNames_flush (s : Settings) (b : Builder) :
    ∃ added, (s.flush b).1.tokens.toList = b.tokens.toList ++ added ∧
      Markup.attributeNames added = (names s.attributes).map Attribute.markup := by
  refine ⟨s.lines.flatMap (line b.indent b.depth), ?_, ?_⟩
  · rw [flush_eq, Markup.Builder.tokens_add]
  · rw [Markup.attributeNames, Markup.ofAttributes_attributeName?.filterMap_lines,
      filterMap_lines Markup.ofAttributes_attributeName?, names, List.map_map,
      List.map_eq_flatMap]
    rfl

/-- After any calls the settings are those that were declared since the last clearing: each
attribute once, in the order of the first declarations and with the value of its last one, and the
directives with their repetitions. There are none just where nothing was declared since. What is
written from them has the attributes in that order, none of them twice. -/
theorem collects_after (calls : List Call) :
    (after calls).Collects (declaredSince calls) ∧
    ((after calls).isEmpty ↔ declaredSince calls = []) ∧
    ∀ b : Builder, ∃ added, ((after calls).flush b).1.tokens.toList = b.tokens.toList ++ added ∧
      Markup.attributeNames added = (names (after calls).attributes).map Attribute.markup ∧
      (Markup.attributeNames added).Nodup := by
  have hcollects := collects_declareAll (declaredSince calls)
  rw [after_eq]
  refine ⟨hcollects, isEmpty_declareAll_iff _, fun b => ?_⟩
  obtain ⟨added, hadded, hnames⟩ := attributeNames_flush _ b
  refine ⟨added, hadded, hnames, ?_⟩
  rw [hnames]
  exact hcollects.nodup.map Attribute.markup_injective

/-- A clearing, and then an attribute that is declared again behind another one. -/
example :
    (after [.declare (.setting ⟨.alternate, ['x']⟩), .clear,
      .declare (.setting ⟨.strength, ['1']⟩), .declare (.directive ⟨.optimize, ['a']⟩),
      .declare (.setting ⟨.numeric, ['2']⟩), .declare (.setting ⟨.strength, ['3']⟩)]) =
    ⟨[⟨.strength, ['3']⟩, ⟨.numeric, ['2']⟩], [⟨.optimize, ['a']⟩]⟩ := by
  decide

end Settings
end CollationRules
