import CollationRules.Proofs.Rule.Decoding
import CollationRules.Proofs.Rule.NestedBrackets
import Mathlib.Data.List.TakeWhile

/-! Texts that are sequences of bracket groups, with blanks alone between them. Such a text is
divided into its groups in one way, which is found by taking the leading group off again and again.
Any other text has something outside of its groups or leaves a group open. -/

namespace CollationRules

open Text (isBlank trimStart)

/-! ### Groups with blanks between them -/

/-- A division of a text into groups and the blanks in front of each of them and at the end. -/
inductive Grouping
  | last (lead : List Char) (hlead : ∀ c ∈ lead, isBlank c)
  | group (lead : List Char) (hlead : ∀ c ∈ lead, isBlank c) (payload : List Char)
      (hnested : IsNested payload) (rest : Grouping)

theorem trimStart_append {lead : List Char} (h : ∀ c ∈ lead, isBlank c) (text : List Char) :
    trimStart (lead ++ text) = trimStart text :=
  List.dropWhile_append_of_pos h

theorem trimStart_of_blank {lead : List Char} (h : ∀ c ∈ lead, isBlank c) : trimStart lead = [] :=
  List.dropWhile_eq_nil_iff.2 h

namespace Grouping

/-- The text that is divided. -/
def text : Grouping → List Char
  | last lead _ => lead
  | group lead _ payload _ rest => lead ++ '[' :: payload ++ ']' :: rest.text

/-- What stands in the groups. -/
def payloads : Grouping → List (List Char)
  | last _ _ => []
  | group _ _ payload _ rest => payload :: rest.payloads

section

variable {lead : List Char} (hlead : ∀ c ∈ lead, isBlank c) {payload : List Char}
  (hnested : IsNested payload) (rest : Grouping)

theorem trimStart_text_group :
    trimStart (group lead hlead payload hnested rest).text =
      '[' :: payload ++ ']' :: rest.text := by
  rw [text, List.append_assoc, trimStart_append hlead]
  rfl

theorem takeWhile_text_group :
    (group lead hlead payload hnested rest).text.takeWhile isBlank = lead := by
  have hopen : isBlank '[' = false := rfl
  rw [text, List.append_assoc, List.takeWhile_append_of_pos hlead, List.cons_append,
    List.takeWhile_cons_of_neg (by simp [hopen]), List.append_nil]

theorem leadingGroup?_text_last : leadingGroup? (trimStart (last lead hlead).text) = none := by
  rw [text, trimStart_of_blank hlead]
  rfl

theorem leadingGroup?_text_group :
    leadingGroup? (trimStart (group lead hlead payload hnested rest).text) =
      some (payload, rest.text) := by
  rw [trimStart_text_group, leadingGroup?_of_isNested hnested]

end

/-- A text is divided in one way. -/
theorem text_injective : Function.Injective text := by
  intro first second h
  have hgroups := congrArg (fun text => leadingGroup? (trimStart text)) h
  have hleads := congrArg (List.takeWhile isBlank) h
  induction first generalizing second with
  | last lead hlead =>
    cases second with
    | last lead' hlead' =>
      have hsame : lead = lead' := h
      subst hsame
      rfl
    | group lead' hlead' payload hnested rest =>
      simp only [leadingGroup?_text_last, leadingGroup?_text_group] at hgroups
      cases hgroups
  | group lead hlead payload hnested rest ih =>
    cases second with
    | last lead' hlead' =>
      simp only [leadingGroup?_text_last, leadingGroup?_text_group] at hgroups
      cases hgroups
    | group lead' hlead' payload' hnested' rest' =>
      simp only [leadingGroup?_text_group, Option.some.injEq, Prod.mk.injEq] at hgroups
      simp only [takeWhile_text_group] at hleads
      obtain ⟨rfl, hrest⟩ := hgroups
      obtain rfl := ih hrest (by rw [hrest]) (by rw [hrest])
      subst hleads
      rfl

end Grouping

/-! ### Taking groups off -/

/-- What is found where no group begins: the end, a bracket that is not closed, or other text. -/
def withoutGroup : List Char → Except GroupFault (List (List Char))
  | [] => .ok []
  | c :: rest => .error (if c = '[' then .unclosed else .textOutside (c :: rest))

/-- The payloads of the groups of a text, of which the leading one is taken off until there is
none. -/
def peeled (text : List Char) : Except GroupFault (List (List Char)) :=
  match _hgroup : leadingGroup? (trimStart text) with
  | some (payload, rest) => (peeled rest).map (payload :: ·)
  | none => withoutGroup (trimStart text)
termination_by text.length
decreasing_by
  have hle : (trimStart text).length ≤ text.length := List.length_dropWhile_le ..
  have hgroup : leadingGroup? (trimStart text) = some (payload, rest) := by assumption
  have hlength := congrArg List.length (leadingGroup?_eq_some_iff.1 hgroup).1
  simp only [List.length_append, List.length_cons] at hlength
  omega

theorem GroupPlace.read_inside_cons {depth : Nat} {c : Char} (h : ¬(c = ']' ∧ depth = 0))
    (before : Array Char) (rest : List Char) :
    (inside depth before).read (c :: rest) =
      (inside (depthAfter depth c) (before.push c)).read rest := by
  unfold depthAfter
  by_cases hopen : c = '['
  · simp [read, hopen]
  · by_cases hclose : c = ']'
    · cases depth with
      | zero => exact absurd ⟨hclose, rfl⟩ h
      | succ depth => simp [read, hclose]
    · simp [read, hopen, hclose]

/-- A group is read up to the bracket that closes it. -/
theorem GroupPlace.read_inside (depth : Nat) (before : Array Char) (text : List Char) :
    (inside depth before).read text =
      match closeGroup? depth text with
      | some (payload, rest) => (groups rest).map ((before.toList ++ payload) :: ·)
      | none => .error .unclosed := by
  induction text generalizing depth before with
  | nil => rfl
  | cons c text ih =>
    rw [closeGroup?_cons]
    by_cases hend : c = ']' ∧ depth = 0
    · obtain ⟨rfl, rfl⟩ := hend
      simp [read, groups]
    · rw [read_inside_cons hend, ih, if_neg hend]
      cases closeGroup? (depthAfter depth c) text <;> simp

theorem groups_trimStart (text : List Char) : groups (trimStart text) = groups text := by
  induction text with
  | nil => rfl
  | cons c text ih =>
    by_cases hblank : isBlank c
    · have hopen : c ≠ '[' := by
        rintro rfl
        cases hblank
      have htrim : trimStart (c :: text) = trimStart text := List.dropWhile_cons_of_pos hblank
      rw [htrim, ih]
      simp [groups, GroupPlace.read, hopen, hblank]
    · have htrim : trimStart (c :: text) = c :: text := List.dropWhile_cons_of_neg hblank
      rw [htrim]

theorem isBlank_of_trimStart {text : List Char} {c : Char} {rest : List Char}
    (h : trimStart text = c :: rest) : isBlank c = false := by
  have hhead := List.head?_dropWhile_not isBlank text
  have hsome : (text.dropWhile isBlank).head? = some c := congrArg List.head? h
  simpa [hsome] using hhead

/-- The groups of a text are the leading one and those behind it. -/
theorem groups_eq (text : List Char) :
    groups text =
      match leadingGroup? (trimStart text) with
      | some (payload, rest) => (groups rest).map (payload :: ·)
      | none => withoutGroup (trimStart text) := by
  rw [← groups_trimStart]
  cases htrim : trimStart text with
  | nil => rfl
  | cons c rest =>
    by_cases hopen : c = '['
    · subst hopen
      have hinside := GroupPlace.read_inside 0 #[] rest
      simpa [groups, GroupPlace.read, leadingGroup?, withoutGroup] using hinside
    · have hblank := isBlank_of_trimStart htrim
      have hnone : leadingGroup? (c :: rest) = none := by simp [leadingGroup?, hopen]
      simp [hnone, withoutGroup, groups, GroupPlace.read, hopen, hblank]

theorem groups_eq_peeled (text : List Char) : groups text = peeled text := by
  fun_induction peeled text with
  | case1 text payload rest h ih => rw [groups_eq, h, ← ih]
  | case2 text h => rw [groups_eq, h]

theorem groups_text (g : Grouping) : groups g.text = .ok g.payloads := by
  induction g with
  | last lead hlead =>
    rw [groups_eq, Grouping.leadingGroup?_text_last, Grouping.text, trimStart_of_blank hlead]
    rfl
  | group lead hlead payload hnested rest ih =>
    rw [groups_eq, Grouping.leadingGroup?_text_group]
    simp only [ih]
    rfl

/-- The texts that can be read are those that are divided into groups. -/
theorem groups_eq_ok_iff {text : List Char} {payloads : List (List Char)} :
    groups text = .ok payloads ↔ ∃ g : Grouping, g.text = text ∧ g.payloads = payloads := by
  constructor
  · intro h
    rw [groups_eq_peeled] at h
    fun_induction peeled text generalizing payloads with
    | case1 text payload rest hleading ih =>
      obtain ⟨htrim, hbalanced⟩ := leadingGroup?_eq_some_iff.1 hleading
      cases hrest : peeled rest with
      | error fault => rw [hrest] at h; cases h
      | ok others =>
        rw [hrest] at h
        cases h
        obtain ⟨g, rfl, rfl⟩ := ih hrest
        refine ⟨.group (text.takeWhile isBlank) (fun c hc => List.mem_takeWhile_imp hc) payload
          (isBalanced_iff_isNested.1 hbalanced) g, ?_, rfl⟩
        rw [Grouping.text, List.append_assoc, ← htrim]
        exact List.takeWhile_append_dropWhile
    | case2 text hleading =>
      cases htrim : trimStart text with
      | nil =>
        rw [htrim] at h
        cases h
        exact ⟨.last text (List.dropWhile_eq_nil_iff.1 htrim), rfl, rfl⟩
      | cons c rest =>
        rw [htrim] at h
        cases h
  · rintro ⟨g, rfl, rfl⟩
    exact groups_text g

/-! ### What stands outside of groups -/

/-- Whether a character can stand outside of all brackets: it is blank or opens one. -/
def StandsBetween (c : Char) : Prop := c = '[' ∨ isBlank c

instance (c : Char) : Decidable (StandsBetween c) :=
  inferInstanceAs (Decidable (c = '[' ∨ isBlank c))

/-- Whether `c`, behind `front`, is the first character of a text that cannot stand where it does,
outside of all brackets, when `depth` brackets are open in front of the text. -/
structure StrayAt (depth : Nat) (text front : List Char) (c : Char) (rest : List Char) : Prop where
  text_eq : text = front ++ c :: rest
  outside : front.count ']' = depth + front.count '['
  stray : ¬StandsBetween c
  first : ∀ before d after, front = before ++ d :: after →
    before.count ']' = depth + before.count '[' → StandsBetween d

/-- Whether `stray` is a text from its first stray character on. -/
def Strays (depth : Nat) (text stray : List Char) : Prop :=
  ∃ front c rest, stray = c :: rest ∧ StrayAt depth text front c rest

theorem not_strays_nil (depth : Nat) (stray : List Char) : ¬Strays depth [] stray := by
  rintro ⟨front, c, rest, -, h⟩
  simpa using h.text_eq

theorem strays_cons_of_stray {c : Char} (hc : ¬StandsBetween c) {text stray : List Char} :
    Strays 0 (c :: text) stray ↔ stray = c :: text := by
  constructor
  · rintro ⟨front, d, rest, rfl, h⟩
    cases front with
    | nil => exact h.text_eq.symm
    | cons e front =>
      obtain ⟨rfl, -⟩ := List.cons.inj h.text_eq
      exact absurd (h.first [] c front rfl rfl) hc
  · rintro rfl
    exact ⟨[], c, text, rfl, rfl, rfl, hc, fun before d after hnil => by simp at hnil⟩

theorem strays_cons {depth : Nat} {c : Char} (h : ¬(depth = 0 ∧ ¬StandsBetween c))
    {text stray : List Char} :
    Strays depth (c :: text) stray ↔ Strays (depthAfter depth c) text stray := by
  have hopen : ¬(c = ']' ∧ depth = 0) := by
    rintro ⟨rfl, hdepth⟩
    exact h ⟨hdepth, by decide⟩
  have houtside (front : List Char) :
      (c :: front).count ']' = depth + (c :: front).count '[' ↔
        front.count ']' = depthAfter depth c + front.count '[' := by
    have := depthAfter_add_count hopen front
    omega
  constructor
  · rintro ⟨front, d, rest, rfl, hstray⟩
    cases front with
    | nil =>
      obtain ⟨rfl, -⟩ := List.cons.inj hstray.text_eq
      exact absurd ⟨by simpa using hstray.outside.symm, hstray.stray⟩ h
    | cons e front =>
      obtain ⟨rfl, htext⟩ := List.cons.inj hstray.text_eq
      refine ⟨front, d, rest, rfl, htext, (houtside front).1 hstray.outside, hstray.stray, ?_⟩
      intro before e after hfront hbefore
      exact hstray.first (c :: before) e after (by rw [hfront]; rfl) ((houtside before).2 hbefore)
  · rintro ⟨front, d, rest, rfl, hstray⟩
    refine ⟨c :: front, d, rest, rfl, by rw [hstray.text_eq]; rfl,
      (houtside front).2 hstray.outside, hstray.stray, ?_⟩
    intro before e after hfront hbefore
    cases before with
    | nil =>
      obtain ⟨rfl, -⟩ := List.cons.inj hfront
      by_contra hc
      exact h ⟨by simpa using hbefore.symm, hc⟩
    | cons e' before =>
      obtain ⟨rfl, hrest⟩ := List.cons.inj hfront
      exact hstray.first before e after hrest ((houtside before).1 hbefore)

/-- The number of brackets that are open. -/
def GroupPlace.depth : GroupPlace → Nat
  | outside => 0
  | inside depth _ => depth + 1

/-- A text is refused for what is outside of groups exactly if there is such a character, and then
from the first on. -/
theorem GroupPlace.read_eq_textOutside_iff {place : GroupPlace} {text stray : List Char} :
    place.read text = .error (.textOutside stray) ↔ Strays place.depth text stray := by
  induction text generalizing place with
  | nil => cases place <;> simp [read, not_strays_nil]
  | cons c text ih =>
    cases place with
    | outside =>
      by_cases hbetween : StandsBetween c
      · rw [depth, strays_cons (by simp [hbetween])]
        rcases hbetween with rfl | hblank
        · exact @ih (.inside 0 #[])
        · have hopen : c ≠ '[' := by
            rintro rfl
            cases hblank
          have hclose : c ≠ ']' := by
            rintro rfl
            cases hblank
          have hread : outside.read (c :: text) = outside.read text := by
            simp [read, hopen, hblank]
          have hdepth : depthAfter 0 c = 0 := by simp [depthAfter, hopen, hclose]
          rw [hread, hdepth]
          exact ih
      · have hread : outside.read (c :: text) = .error (.textOutside (c :: text)) := by
          rw [StandsBetween, not_or] at hbetween
          simp [read, hbetween]
        rw [depth, strays_cons_of_stray hbetween, hread]
        simp [eq_comm]
    | inside depth before =>
      rw [GroupPlace.depth, strays_cons (by simp)]
      by_cases hend : c = ']' ∧ depth = 0
      · obtain ⟨rfl, rfl⟩ := hend
        have hread : (inside 0 before).read (']' :: text) =
            (outside.read text).map (before.toList :: ·) := by simp [read]
        rw [hread, map_eq_error_iff]
        exact ih
      · rw [read_inside_cons hend, depthAfter_succ hend]
        exact ih

end CollationRules
