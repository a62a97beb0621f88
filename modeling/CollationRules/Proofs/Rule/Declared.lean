import CollationRules.Rule.Setting
import Mathlib.Data.List.Nodup

/-! The declarations in texts of settings, and the settings that they add up to: each attribute
once, in the order in which they were first declared, and the directives in order. -/

namespace CollationRules

/-! ### Groups -/

theorem GroupPlace.read_append {place : GroupPlace} {text : List Char} {payloads : List (List Char)}
    (h : place.read text = .ok payloads) (rest : List Char) :
    place.read (text ++ rest) = (groups rest).map (payloads ++ ·) := by
  fun_induction GroupPlace.read place text generalizing payloads with
  | case1 =>
    cases h
    change groups rest = _
    cases groups rest <;> rfl
  | case2 => cases h
  | case3 text ih => simpa [read] using ih h
  | case4 c text hopen hblank ih => simpa [read, hopen, hblank] using ih h
  | case5 => cases h
  | case6 depth payload text ih => simpa [read] using ih h
  | case7 payload text hopen ih =>
    cases hread : outside.read text with
    | error fault =>
      rw [hread] at h
      cases h
    | ok others =>
      rw [hread] at h
      cases h
      have hrest := ih hread
      simp only [List.cons_append, read, hrest]
      cases groups rest <;> rfl
  | case8 payload text hopen depth ih => simpa [read] using ih h
  | case9 depth payload c text hopen hclose ih => simpa [read, hopen, hclose] using ih h

theorem GroupPlace.read_flat {payload : List Char} (hopen : '[' ∉ payload) (hclose : ']' ∉ payload)
    (before : Array Char) :
    (inside 0 before).read (payload ++ [']']) = .ok [before.toList ++ payload] := by
  induction payload generalizing before with
  | nil => simp [read, Except.map]
  | cons c payload ih =>
    rw [List.mem_cons, not_or] at hopen hclose
    rw [List.cons_append, read, if_neg (Ne.symm hopen.1), if_neg (Ne.symm hclose.1),
      ih hopen.2 hclose.2]
    simp

/-- A group without other groups in it makes one declaration. -/
theorem Declaration.ofText_flat {payload : List Char} (hopen : '[' ∉ payload)
    (hclose : ']' ∉ payload) :
    ofText ('[' :: payload ++ [']']) = (ofPayload payload).map ([·]) := by
  have hgroups : groups ('[' :: payload ++ [']']) = .ok [payload] := by
    have hinside := GroupPlace.read_flat hopen hclose #[]
    simpa [groups, GroupPlace.read] using hinside
  rw [ofText, hgroups]
  change [payload].mapM ofPayload = _
  rw [List.mapM_cons, List.mapM_nil]
  cases ofPayload payload <;> rfl

/-- Texts of settings, one after the other, declare what each of them does. -/
theorem Declaration.ofText_append {first second : List Char} {declared declared' : List Declaration}
    (h : ofText first = .ok declared) (h' : ofText second = .ok declared') :
    ofText (first ++ second) = .ok (declared ++ declared') := by
  unfold ofText at h h' ⊢
  split at h
  · rename_i payloads hfirst
    split at h'
    · rename_i payloads' hsecond
      have hgroups : groups (first ++ second) = .ok (payloads ++ payloads') := by
        rw [groups, GroupPlace.read_append hfirst, hsecond]
        rfl
      rw [hgroups]
      simp only [List.mapM_append, h, h']
      rfl
    · cases h'
    · cases h'
  · cases h
  · cases h

/-! ### Settings -/

theorem Attribute.markup_injective : Function.Injective Attribute.markup := by
  intro a b h
  cases a <;> cases b <;> first | rfl | exact absurd h (by decide)

def Declaration.setting? : Declaration → Option Setting
  | setting declared => some declared
  | directive _ => none

def Declaration.directive? : Declaration → Option Directive
  | setting _ => none
  | directive declared => some declared

namespace Settings

def names (settings : List Setting) : List Attribute := settings.map Setting.name

@[simp] theorem names_cons (setting : Setting) (rest : List Setting) :
    names (setting :: rest) = setting.name :: names rest := rfl

/-- A setting of a new attribute comes last, and any other takes the place of the one before it. -/
theorem names_set (setting : Setting) (settings : List Setting) :
    names (set setting settings) =
      if setting.name ∈ names settings then names settings
      else names settings ++ [setting.name] := by
  induction settings with
  | nil => simp [set, names]
  | cons other rest ih =>
    by_cases h : other.name = setting.name
    · simp [set, h]
    · have h' : setting.name ≠ other.name := fun heq => h heq.symm
      rw [set, if_neg h, names_cons, names_cons, ih]
      by_cases hm : setting.name ∈ names rest
      · rw [if_pos hm, if_pos (List.mem_cons_of_mem _ hm)]
      · rw [if_neg hm, if_neg (by simp [h', hm]), List.cons_append]

theorem nodup_names_set {settings : List Setting} (h : (names settings).Nodup)
    (setting : Setting) : (names (set setting settings)).Nodup := by
  rw [names_set]
  split
  · exact h
  · rename_i hmem
    simpa using h.concat hmem

theorem mem_set (setting : Setting) (settings : List Setting) : setting ∈ set setting settings := by
  induction settings with
  | nil => exact List.mem_singleton_self setting
  | cons other rest ih =>
    unfold set
    split
    · exact List.mem_cons_self
    · exact List.mem_cons_of_mem _ ih

theorem set_ne_nil (setting : Setting) (settings : List Setting) : set setting settings ≠ [] := by
  cases settings with
  | nil => simp [set]
  | cons other rest => unfold set; split <;> simp

/-- The settings after declarations. -/
def declareAll (s : Settings) (declarations : List Declaration) : Settings :=
  declarations.foldl declare s

@[simp] theorem declareAll_nil (s : Settings) : s.declareAll [] = s := rfl

theorem declareAll_cons (s : Settings) (declaration : Declaration) (rest : List Declaration) :
    s.declareAll (declaration :: rest) = (s.declare declaration).declareAll rest := rfl

@[simp] theorem declareAll_append (s : Settings) (first second : List Declaration) :
    s.declareAll (first ++ second) = (s.declareAll first).declareAll second := by
  simp [declareAll]

variable {s : Settings} (declarations : List Declaration)

theorem nodup_declareAll (h : (names s.attributes).Nodup) :
    (names (s.declareAll declarations).attributes).Nodup := by
  induction declarations generalizing s with
  | nil => exact h
  | cons declaration rest ih =>
    cases declaration with
    | setting setting => exact ih (nodup_names_set h setting)
    | directive directive => exact ih h

theorem directives_declareAll :
    (s.declareAll declarations).directives =
      s.directives ++ declarations.filterMap Declaration.directive? := by
  induction declarations generalizing s with
  | nil => simp
  | cons declaration rest ih =>
    rw [declareAll_cons, ih]
    cases declaration with
    | setting setting => rfl
    | directive directive => simp [declare, Declaration.directive?]

/-- There are no attributes only if none is declared. -/
theorem attributes_declareAll_eq_nil_iff :
    (s.declareAll declarations).attributes = [] ↔
      s.attributes = [] ∧ declarations.filterMap Declaration.setting? = [] := by
  induction declarations generalizing s with
  | nil => simp
  | cons declaration rest ih =>
    rw [declareAll_cons, ih]
    cases declaration with
    | setting setting => simp [declare, Declaration.setting?, set_ne_nil]
    | directive directive => simp [declare, Declaration.setting?]

end Settings
end CollationRules
