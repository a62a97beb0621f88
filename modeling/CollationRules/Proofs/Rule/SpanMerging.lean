import CollationRules.Proofs.Rule.Spans
import Mathlib.Data.List.Perm.Basic

/-! The arithmetic of spans. Every field is the exact number, cut down to the largest word. Merging
is a commutative monoid on all spans, whether or not their ends fit a word, so spans merge to the
same span in any order and grouping, and it gives the smallest span around two spans that fit. -/

namespace CollationRules.Span

/-! ### Clamped intervals -/

theorem isEmpty_between {start finish : UInt32} (h : finish ≤ start) :
    (between start finish).isEmpty := by
  rw [isEmpty_iff, toNat_length_between]
  rw [UInt32.le_iff_toNat_le] at h
  omega

theorem isEmpty_ofOffsets {start finish : Nat} (h : finish ≤ start) :
    (ofOffsets start finish).isEmpty := by
  apply isEmpty_between
  rw [UInt32.le_iff_toNat_le, toNat_ofNatClamp, toNat_ofNatClamp]
  omega

theorem toNat_offset_clamped (start finish : Nat) :
    (ofOffsets start finish).offset.toNat = min start maxWord :=
  toNat_ofNatClamp start

theorem toNat_stop_clamped {start finish : Nat} (h : start ≤ finish) :
    (ofOffsets start finish).stop.toNat = min finish maxWord := by
  rw [ofOffsets, toNat_stop_between, toNat_ofNatClamp, toNat_ofNatClamp]
  omega

/-! ### Merging -/

/-- A span whose end fits a word. -/
def IsExact (span : Span) : Prop := span.offset.toNat + span.length.toNat ≤ maxWord

instance (span : Span) : Decidable span.IsExact := Nat.decLe ..

section

variable {a b c : Span}

/-- Spans that fit are known by their two ends. -/
theorem IsExact.ext (ha : a.IsExact) (hb : b.IsExact) (hoffset : a.offset.toNat = b.offset.toNat)
    (hstop : a.stop.toNat = b.stop.toNat) : a = b := by
  rw [toNat_stop, toNat_stop] at hstop
  unfold IsExact at ha hb
  obtain ⟨offset, length⟩ := a
  obtain ⟨offset', length'⟩ := b
  rw [mk.injEq, ← UInt32.toNat_inj, ← UInt32.toNat_inj]
  simp only at *
  omega

theorem isExact_between (start finish : UInt32) : (between start finish).IsExact := by
  have hstart := toNat_le_maxWord start
  have hfinish := toNat_le_maxWord finish
  show start.toNat + (between start finish).length.toNat ≤ _
  rw [toNat_length_between]
  omega

theorem merge_of_ne (ha : a ≠ nowhere) (hb : b ≠ nowhere) :
    a.merge b = between (min a.offset b.offset) (max a.stop b.stop) := by
  rw [merge, if_neg ha, if_neg hb]

theorem isExact_merge (ha : a ≠ nowhere) (hb : b ≠ nowhere) : (a.merge b).IsExact := by
  rw [merge_of_ne ha hb]
  exact isExact_between ..

theorem toNat_offset_merge (ha : a ≠ nowhere) (hb : b ≠ nowhere) :
    (a.merge b).offset.toNat = min a.offset.toNat b.offset.toNat := by
  rw [merge_of_ne ha hb]
  exact UInt32.toNat_min ..

theorem toNat_stop_merge (ha : a ≠ nowhere) (hb : b ≠ nowhere) :
    (a.merge b).stop.toNat = max a.stop.toNat b.stop.toNat := by
  have hoffset := a.offset_le_stop
  rw [merge_of_ne ha hb, toNat_stop_between, UInt32.toNat_min, UInt32.toNat_max]
  omega

/-- Only two spans that stand for no place merge to such a span. -/
theorem merge_ne_nowhere (ha : a ≠ nowhere) (hb : b ≠ nowhere) : a.merge b ≠ nowhere := by
  intro hmerge
  have hstop := toNat_stop_merge ha hb
  rw [hmerge, toNat_stop] at hstop
  have hzero : min (nowhere.offset.toNat + nowhere.length.toNat) maxWord = 0 := by decide
  rw [hzero, toNat_stop] at hstop
  apply ha
  rw [eq_nowhere_iff]
  have hmax : 0 < maxWord := by decide
  omega

end

theorem merge_comm (a b : Span) : a.merge b = b.merge a := by
  by_cases ha : a = nowhere
  · rw [ha, nowhere_merge, merge_nowhere]
  by_cases hb : b = nowhere
  · rw [hb, nowhere_merge, merge_nowhere]
  apply IsExact.ext (isExact_merge ha hb) (isExact_merge hb ha)
  · rw [toNat_offset_merge ha hb, toNat_offset_merge hb ha, Nat.min_comm]
  · rw [toNat_stop_merge ha hb, toNat_stop_merge hb ha, Nat.max_comm]

theorem merge_assoc (a b c : Span) : (a.merge b).merge c = a.merge (b.merge c) := by
  by_cases ha : a = nowhere
  · rw [ha, nowhere_merge, nowhere_merge]
  by_cases hb : b = nowhere
  · rw [hb, nowhere_merge, merge_nowhere]
  by_cases hc : c = nowhere
  · rw [hc, merge_nowhere, merge_nowhere]
  have hab := merge_ne_nowhere ha hb
  have hbc := merge_ne_nowhere hb hc
  apply IsExact.ext (isExact_merge hab hc) (isExact_merge ha hbc)
  · rw [toNat_offset_merge hab hc, toNat_offset_merge ha hb, toNat_offset_merge ha hbc,
      toNat_offset_merge hb hc, Nat.min_assoc]
  · rw [toNat_stop_merge hab hc, toNat_stop_merge ha hb, toNat_stop_merge ha hbc,
      toNat_stop_merge hb hc, Nat.max_assoc]

instance : Std.Commutative merge := ⟨merge_comm⟩

instance : Std.Associative merge := ⟨merge_assoc⟩

/-- A span whose end does not fit is cut down when it is merged with itself. -/
theorem merge_self_iff {span : Span} : span.merge span = span ↔ span.IsExact := by
  by_cases hspan : span = nowhere
  · rw [hspan, nowhere_merge]
    exact iff_of_true rfl (by decide)
  · constructor
    · intro hself
      rw [← hself]
      exact isExact_merge hspan hspan
    · intro hexact
      apply IsExact.ext (isExact_merge hspan hspan) hexact
      · rw [toNat_offset_merge hspan hspan, Nat.min_self]
      · rw [toNat_stop_merge hspan hspan, Nat.max_self]

/-! ### Orders and groupings -/

/-- Spans merged two at a time, in some grouping. -/
inductive Grouping
  | one (span : Span)
  | pair (left right : Grouping)

theorem foldl_merge (start : Span) (spans : List Span) :
    spans.foldl merge start = start.merge (spans.foldl merge nowhere) := by
  have hassoc := @List.foldl_assoc Span merge _ spans start nowhere
  rwa [merge_nowhere] at hassoc

namespace Grouping

/-- The spans of a grouping, from the left. -/
def spans : Grouping → List Span
  | one span => [span]
  | pair left right => left.spans ++ right.spans

/-- The span that a grouping merges to. -/
def merged : Grouping → Span
  | one span => span
  | pair left right => left.merged.merge right.merged

theorem merged_eq (grouping : Grouping) : grouping.merged = grouping.spans.foldl merge nowhere := by
  induction grouping with
  | one span => exact (nowhere_merge span).symm
  | pair left right hleft hright =>
    rw [merged, hleft, hright, spans, List.foldl_append, ← foldl_merge]

theorem merged_eq_of_perm {grouping : Grouping} {spans : List Span}
    (h : grouping.spans.Perm spans) : grouping.merged = spans.foldl merge nowhere := by
  rw [merged_eq]
  exact h.foldl_eq nowhere

end Grouping

/-! ### Containment -/

/-- Whether a span reaches from the start of another or before to its end or behind. -/
def Contains (outer inner : Span) : Prop :=
  outer.offset ≤ inner.offset ∧ inner.stop ≤ outer.stop

theorem contains_iff {outer inner : Span} :
    outer.Contains inner ↔
      outer.offset.toNat ≤ inner.offset.toNat ∧ inner.stop.toNat ≤ outer.stop.toNat :=
  Iff.and UInt32.le_iff_toNat_le UInt32.le_iff_toNat_le

/-- A span that fits contains one that is not empty where it has all of its bytes. -/
theorem contains_iff_bytes {outer inner : Span} (houter : outer.IsExact) (hinner : inner.IsExact)
    (hne : ¬inner.isEmpty) :
    outer.Contains inner ↔ ∀ place, inner.Has place → outer.Has place := by
  rw [isEmpty_iff] at hne
  unfold IsExact at houter hinner
  rw [contains_iff, toNat_stop, toNat_stop]
  unfold Has
  constructor
  · intro hcontains place hplace
    omega
  · intro hbytes
    have hfirst := hbytes inner.offset.toNat (by omega)
    have hlast := hbytes (inner.offset.toNat + inner.length.toNat - 1) (by omega)
    omega

/-- The smallest of the spans that contain two spans: all others contain it, and none is shorter. -/
structure IsHull (hull a b : Span) : Prop where
  left : hull.Contains a
  right : hull.Contains b
  least : ∀ outer : Span, outer.Contains a → outer.Contains b →
    outer.Contains hull ∧ hull.length.toNat ≤ outer.length.toNat

theorem IsHull.unique {hull other a b : Span} (h : hull.IsHull a b) (h' : other.IsHull a b) :
    hull = other := by
  obtain ⟨hcontains, hlength⟩ := h.least other h'.left h'.right
  obtain ⟨hcontains', hlength'⟩ := h'.least hull h.left h.right
  rw [contains_iff] at hcontains hcontains'
  obtain ⟨offset, length⟩ := hull
  obtain ⟨offset', length'⟩ := other
  rw [mk.injEq, ← UInt32.toNat_inj, ← UInt32.toNat_inj]
  simp only at *
  omega

theorem isHull_merge {a b : Span} (ha : a ≠ nowhere) (hb : b ≠ nowhere) :
    (a.merge b).IsHull a b := by
  have hoffset := toNat_offset_merge ha hb
  have hstop := toNat_stop_merge ha hb
  refine ⟨?_, ?_, fun outer houter houter' => ⟨?_, ?_⟩⟩
  · rw [contains_iff]
    omega
  · rw [contains_iff]
    omega
  · rw [contains_iff] at *
    omega
  · have hexact := isExact_merge ha hb
    unfold IsExact at hexact
    rw [contains_iff] at houter houter'
    rw [toNat_stop] at hstop
    have hreach := outer.toNat_stop
    omega

/-- Every field is the exact number cut down to the largest word, and a reversed interval is empty.
Merging is commutative and associative and `Span.nowhere` adds nothing, so that spans merge to the
same span in any order and grouping. Merging a span with itself leaves it as it is just where its
end fits a word, and two spans that stand for a place merge to the smallest span that contains both,
which, as far as ends fit and there are bytes, is to say that it has the bytes of both. -/
theorem clamped_merge_laws :
    (∀ start finish : Nat,
      (ofOffsets start finish).offset.toNat = min start maxWord ∧
      (start ≤ finish → (ofOffsets start finish).stop.toNat = min finish maxWord) ∧
      (finish < start → (ofOffsets start finish).isEmpty)) ∧
    (∀ start finish : UInt32,
      (between start finish).offset = start ∧
      (between start finish).length.toNat = finish.toNat - start.toNat) ∧
    (∀ span : Span,
      span.stop.toNat = min (span.offset.toNat + span.length.toNat) maxWord ∧
      span.offset.toNat ≤ span.stop.toNat) ∧
    (∀ a b c : Span, a.merge b = b.merge a ∧ (a.merge b).merge c = a.merge (b.merge c)) ∧
    (∀ span : Span, nowhere.merge span = span ∧ span.merge nowhere = span) ∧
    (∀ spans others : List Span, others.Perm spans →
      others.foldl merge nowhere = spans.foldl merge nowhere ∧
      ∀ grouping : Grouping, grouping.spans = others →
        grouping.merged = spans.foldl merge nowhere) ∧
    (∀ span : Span, span.merge span = span ↔ span.IsExact) ∧
    (∀ a b : Span, a ≠ nowhere → b ≠ nowhere →
      (a.merge b).IsExact ∧ ∀ hull : Span, hull.IsHull a b ↔ hull = a.merge b) ∧
    ∀ outer inner : Span, outer.IsExact → inner.IsExact → ¬inner.isEmpty →
      (outer.Contains inner ↔ ∀ place, inner.Has place → outer.Has place) := by
  refine ⟨fun start finish => ⟨toNat_offset_clamped start finish, toNat_stop_clamped,
      fun h => isEmpty_ofOffsets (Nat.le_of_lt h)⟩,
    fun start finish => ⟨rfl, toNat_length_between start finish⟩,
    fun span => ⟨toNat_stop span, offset_le_stop span⟩,
    fun a b c => ⟨merge_comm a b, merge_assoc a b c⟩,
    fun span => ⟨nowhere_merge span, merge_nowhere span⟩, ?_, fun span => merge_self_iff, ?_,
    fun outer inner => contains_iff_bytes⟩
  · intro spans others hperm
    refine ⟨hperm.foldl_eq nowhere, ?_⟩
    rintro grouping rfl
    exact Grouping.merged_eq_of_perm hperm
  · intro a b ha hb
    refine ⟨isExact_merge ha hb, fun hull => ⟨fun h => h.unique (isHull_merge ha hb), ?_⟩⟩
    rintro rfl
    exact isHull_merge ha hb

/-- Spans at the largest word: an interval that goes beyond it, a span without bytes at its end, and
one that does not fit. -/
theorem clamped_merge_laws_largest :
    let far : Span := ofOffsets 4294967290 1099511627776
    let last : Span := ⟨4294967295, 0⟩
    let long : Span := ⟨4294967295, 9⟩
    far.stop.toNat = maxWord ∧ last.IsHull last long ∧
      long.merge long ≠ long ∧ last.merge last = last ∧
      (Grouping.pair (.pair (.one long) (.one last)) (.one far)).merged = far := by
  obtain ⟨hends, -, -, -, -, hany, hself, hsmallest, -⟩ := clamped_merge_laws
  refine ⟨((hends _ _).2.1 (by decide)).trans (by decide),
    ((hsmallest _ _ (by decide) (by decide)).2 _).2 (by decide), ?_, (hself _).2 (by decide), ?_⟩
  · exact fun h => absurd ((hself _).1 h) (by decide)
  · exact ((hany _ _ (.refl _)).2 _ rfl).trans (by decide)

end CollationRules.Span
