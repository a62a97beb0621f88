import CollationRules.Span
import CollationRules.Text.Utf8
import Mathlib.Data.List.Forall2

/-! Spans of the parts of a text. In a text whose size in bytes fits 32 bits each part has a span
of its own, and the spans of parts that follow one another merge to the span of all of them. -/

namespace CollationRules.Span

open Text (byteLength)

section

variable {start middle stop : Nat}

theorem toNat_offset_ofOffsets (hstart : start < UInt32.size) :
    (ofOffsets start stop).offset.toNat = start :=
  UInt32.toNat_ofNatClamp_of_lt hstart

theorem toNat_length_ofOffsets (hle : start ≤ stop) (hstop : stop < UInt32.size) :
    (ofOffsets start stop).length.toNat = stop - start := by
  have hfrom : (UInt32.ofNatClamp start).toNat = start :=
    UInt32.toNat_ofNatClamp_of_lt (Nat.lt_of_le_of_lt hle hstop)
  have hto : (UInt32.ofNatClamp stop).toNat = stop := UInt32.toNat_ofNatClamp_of_lt hstop
  have hclamp : UInt32.ofNatClamp start ≤ UInt32.ofNatClamp stop := by
    rw [UInt32.le_iff_toNat_le, hfrom, hto]
    exact hle
  show (if UInt32.ofNatClamp start ≤ UInt32.ofNatClamp stop then _ else _ : UInt32).toNat = _
  rw [if_pos hclamp, UInt32.toNat_sub_of_le _ _ hclamp, hfrom, hto]

theorem toNat_stop_ofOffsets (hle : start ≤ stop) (hstop : stop < UInt32.size) :
    (ofOffsets start stop).stop.toNat = stop := by
  have hsum : (ofOffsets start stop).offset.toNat + (ofOffsets start stop).length.toNat = stop := by
    rw [toNat_offset_ofOffsets (by omega), toNat_length_ofOffsets hle hstop]
    omega
  show (UInt32.ofNatClamp _).toNat = _
  rw [hsum]
  exact UInt32.toNat_ofNatClamp_of_lt hstop

theorem eq_nowhere_iff {span : Span} :
    span = nowhere ↔ span.offset.toNat = 0 ∧ span.length.toNat = 0 := by
  obtain ⟨offset, length⟩ := span
  rw [← UInt32.toNat_zero, UInt32.toNat_inj, UInt32.toNat_inj, nowhere, mk.injEq]

theorem isEmpty_iff {span : Span} : span.isEmpty ↔ span.length.toNat = 0 := by
  rw [isEmpty, beq_iff_eq, ← UInt32.toNat_inj, UInt32.toNat_zero]

/-- Spans that meet merge to the span from the start of the first to the end of the second. -/
theorem merge_ofOffsets (hstart : start ≤ middle) (hmiddle : middle ≤ stop)
    (hstop : stop < UInt32.size) :
    (ofOffsets start middle).merge (ofOffsets middle stop) = ofOffsets start stop := by
  have hstart' : start < UInt32.size := by omega
  have hmiddle' : middle < UInt32.size := by omega
  have hfirst := toNat_length_ofOffsets hstart hmiddle'
  have hsecond := toNat_length_ofOffsets hmiddle hstop
  unfold merge
  split
  · rename_i h
    obtain ⟨hoffset, hlength⟩ := eq_nowhere_iff.1 h
    rw [toNat_offset_ofOffsets hstart'] at hoffset
    rw [show middle = start by omega]
  · split
    · rename_i h
      obtain ⟨hoffset, hlength⟩ := eq_nowhere_iff.1 h
      rw [toNat_offset_ofOffsets hmiddle'] at hoffset
      rw [show stop = middle by omega]
    · have hmin : min (ofOffsets start middle).offset (ofOffsets middle stop).offset =
          UInt32.ofNatClamp start := by
        apply UInt32.toNat_inj.1
        rw [UInt32.toNat_min, toNat_offset_ofOffsets hstart', toNat_offset_ofOffsets hmiddle',
          UInt32.toNat_ofNatClamp_of_lt hstart']
        exact Nat.min_eq_left hstart
      have hmax : max (ofOffsets start middle).stop (ofOffsets middle stop).stop =
          UInt32.ofNatClamp stop := by
        apply UInt32.toNat_inj.1
        rw [UInt32.toNat_max, toNat_stop_ofOffsets hstart hmiddle',
          toNat_stop_ofOffsets hmiddle hstop, UInt32.toNat_ofNatClamp_of_lt hstop]
        exact Nat.max_eq_right hmiddle
      rw [hmin, hmax]
      rfl

end

/-! ### Parts of a text -/

theorem exists_of_forall₂ {α β : Type} {r : α → β → Prop} {as : List α} {bs : List β}
    (h : List.Forall₂ r as bs) : ∀ a ∈ as, ∃ b, r a b :=
  ((List.forall₂_and_left as bs).1 (h.imp fun _ b hr => ⟨⟨b, hr⟩, hr⟩)).1

/-- The part of a text that a span covers, both ends of which stand between two characters or at an
end of the text. -/
def Covers (span : Span) (text part : List Char) : Prop :=
  ∃ before after, text = before ++ part ++ after ∧ span.offset.toNat = byteLength before ∧
    span.length.toNat = byteLength part

theorem Covers.unique {span : Span} {text part part' : List Char} (h : span.Covers text part)
    (h' : span.Covers text part') : part = part' := by
  obtain ⟨before, after, rfl, hbefore, hpart⟩ := h
  obtain ⟨before', after', htext, hbefore', hpart'⟩ := h'
  have hcut := Text.cut_byteLength before (part ++ after)
  rw [← List.append_assoc, htext, ← hbefore, hbefore', List.append_assoc, Text.cut_byteLength,
    Prod.mk.injEq] at hcut
  have hrest := Text.cut_byteLength part after
  rw [← hcut.2, ← hpart, hpart', Text.cut_byteLength, Prod.mk.injEq] at hrest
  exact hrest.1.symm

theorem Covers.isEmpty_eq_false {span : Span} {text part : List Char} (h : span.Covers text part)
    (hne : part ≠ []) : span.isEmpty = false := by
  obtain ⟨-, -, -, -, hlength⟩ := h
  obtain ⟨c, rest, rfl⟩ := List.exists_cons_of_ne_nil hne
  have hpos := c.utf8Size_pos
  rw [← Bool.not_eq_true, isEmpty_iff, hlength, Text.byteLength_cons]
  omega

/-- The span of a part is moved to the start when the part stands alone. -/
theorem Covers.ofOffsets_zero {span : Span} {text part : List Char} (h : span.Covers text part) :
    ofOffsets 0 (byteLength part) = ⟨0, span.length⟩ := by
  obtain ⟨-, -, -, -, hlength⟩ := h
  have hsize : byteLength part < UInt32.size := hlength ▸ span.length.toNat_lt
  have hmoved : (ofOffsets 0 (byteLength part)).length = span.length := by
    rw [← UInt32.toNat_inj, toNat_length_ofOffsets (Nat.zero_le _) hsize, hlength, Nat.sub_zero]
  rw [← hmoved]
  rfl

theorem covers_ofOffsets {before part after : List Char}
    (hsize : byteLength (before ++ part) < UInt32.size) :
    (ofOffsets (byteLength before) (byteLength before + byteLength part)).Covers
      (before ++ part ++ after) part := by
  rw [Text.byteLength_append] at hsize
  refine ⟨before, after, rfl, toNat_offset_ofOffsets (by omega), ?_⟩
  rw [toNat_length_ofOffsets (by omega) hsize, Nat.add_sub_cancel_left]

/-- The spans of texts that follow one another from a byte offset on. -/
def consecutive (offset : Nat) : List (List Char) → List Span
  | [] => []
  | part :: parts =>
    ofOffsets offset (offset + byteLength part) :: consecutive (offset + byteLength part) parts

theorem consecutive_append (offset : Nat) (parts others : List (List Char)) :
    consecutive offset (parts ++ others) =
      consecutive offset parts ++ consecutive (offset + byteLength parts.flatten) others := by
  induction parts generalizing offset with
  | nil => rfl
  | cons part parts ih =>
    rw [List.cons_append, consecutive, ih, List.flatten_cons, Text.byteLength_append,
      ← Nat.add_assoc]
    rfl

theorem length_consecutive (offset : Nat) (parts : List (List Char)) :
    (consecutive offset parts).length = parts.length := by
  induction parts generalizing offset with
  | nil => rfl
  | cons part parts ih => rw [consecutive, List.length_cons, ih, List.length_cons]

theorem merge_consecutive {start offset : Nat} {parts : List (List Char)} (hstart : start ≤ offset)
    (hsize : offset + byteLength parts.flatten < UInt32.size) :
    (consecutive offset parts).foldl merge (ofOffsets start offset) =
      ofOffsets start (offset + byteLength parts.flatten) := by
  induction parts generalizing offset with
  | nil => rfl
  | cons part parts ih =>
    rw [List.flatten_cons, Text.byteLength_append] at hsize ⊢
    rw [consecutive, List.foldl_cons, merge_ofOffsets hstart (by omega) (by omega),
      ih (by omega) (by omega), Nat.add_assoc]

theorem foldl_merge_consecutive {offset : Nat} {parts : List (List Char)} (hne : parts ≠ [])
    (hsize : offset + byteLength parts.flatten < UInt32.size) :
    (consecutive offset parts).foldl merge nowhere =
      ofOffsets offset (offset + byteLength parts.flatten) := by
  obtain ⟨part, parts, rfl⟩ := List.exists_cons_of_ne_nil hne
  rw [List.flatten_cons, Text.byteLength_append, ← Nat.add_assoc] at hsize ⊢
  rw [consecutive, List.foldl_cons, nowhere_merge, merge_consecutive (Nat.le_add_right ..) hsize]

theorem consecutive_eq_append {offset : Nat} {parts : List (List Char)} {spans others : List Span}
    (h : consecutive offset parts = spans ++ others) :
    ∃ front back, parts = front ++ back ∧ spans = consecutive offset front ∧
      others = consecutive (offset + byteLength front.flatten) back := by
  have hsplit := consecutive_append offset (parts.take spans.length) (parts.drop spans.length)
  have hle : spans.length ≤ parts.length := by
    rw [← length_consecutive offset, h, List.length_append]
    omega
  rw [List.take_append_drop, h] at hsplit
  obtain ⟨hspans, hothers⟩ := List.append_inj hsplit (by simp [length_consecutive, hle])
  exact ⟨_, _, (List.take_append_drop ..).symm, hspans, hothers⟩

theorem isChain_consecutive {offset : Nat} {parts : List (List Char)}
    (hsize : offset + byteLength parts.flatten < UInt32.size) :
    (consecutive offset parts).IsChain fun before span => before.stop = span.offset := by
  induction parts generalizing offset with
  | nil => exact .nil
  | cons part parts ih =>
    rw [List.flatten_cons, Text.byteLength_append] at hsize
    have hrest : (consecutive (offset + byteLength part) parts).IsChain _ := ih (by omega)
    cases parts with
    | nil => exact .singleton _
    | cons next parts =>
      refine .cons_cons (UInt32.toNat_inj.1 ?_) hrest
      rw [toNat_stop_ofOffsets (by omega) (by omega), toNat_offset_ofOffsets (by omega)]

theorem offset_head_consecutive {offset : Nat} (hsize : offset < UInt32.size)
    (parts : List (List Char)) :
    ∀ span ∈ (consecutive offset parts).head?, span.offset.toNat = offset := by
  cases parts with
  | nil => nofun
  | cons part parts =>
    rintro span ⟨⟩
    exact toNat_offset_ofOffsets hsize

theorem stop_getLast_consecutive {offset : Nat} {parts : List (List Char)}
    (hsize : offset + byteLength parts.flatten < UInt32.size) :
    ∀ span ∈ (consecutive offset parts).getLast?,
      span.stop.toNat = offset + byteLength parts.flatten := by
  rcases List.eq_nil_or_concat' parts with rfl | ⟨parts, part, rfl⟩
  · nofun
  · intro span hspan
    rw [List.flatten_concat, Text.byteLength_append] at hsize ⊢
    have hlast : (consecutive offset (parts ++ [part])).getLast? =
        some (ofOffsets (offset + byteLength parts.flatten)
          (offset + byteLength parts.flatten + byteLength part)) := by
      rw [consecutive_append]
      simp [consecutive]
    obtain rfl := Option.some.inj (hlast.symm.trans hspan)
    rw [toNat_stop_ofOffsets (by omega) (by omega), Nat.add_assoc]

/-- Each of the spans covers its own part. -/
theorem covers_consecutive (before : List Char) (parts : List (List Char)) (after : List Char)
    (hsize : byteLength before + byteLength parts.flatten < UInt32.size) :
    List.Forall₂ (fun span part => span.Covers (before ++ parts.flatten ++ after) part)
      (consecutive (byteLength before) parts) parts := by
  induction parts generalizing before with
  | nil => exact .nil
  | cons part parts ih =>
    rw [List.flatten_cons, Text.byteLength_append] at hsize
    have hrest := ih (before ++ part) (by rw [Text.byteLength_append]; omega)
    have hall : before ++ (part :: parts).flatten ++ after =
        before ++ part ++ (parts.flatten ++ after) := by
      simp
    rw [hall]
    refine .cons (covers_ofOffsets (by rw [Text.byteLength_append]; omega)) ?_
    rw [Text.byteLength_append] at hrest
    simpa using hrest

/-! ### Unions -/

/-- Whether a byte lies in a span. -/
def Has (span : Span) (place : Nat) : Prop :=
  span.offset.toNat ≤ place ∧ place < span.offset.toNat + span.length.toNat

theorem has_ofOffsets {start stop place : Nat} (hle : start ≤ stop) (hstop : stop < UInt32.size) :
    (ofOffsets start stop).Has place ↔ start ≤ place ∧ place < stop := by
  rw [Has, toNat_offset_ofOffsets (by omega), toNat_length_ofOffsets hle hstop]
  omega

/-- A span is the union of spans that follow one another: it starts with the first and stops with
the last of them, and has their bytes and no others. -/
structure IsUnion (span : Span) (spans : List Span) : Prop where
  contiguous : spans.IsChain fun before span => before.stop = span.offset
  offset : ∀ first ∈ spans.head?, span.offset = first.offset
  stop : ∀ last ∈ spans.getLast?, span.stop = last.stop
  bytes : ∀ place, span.Has place ↔ ∃ part ∈ spans, part.Has place

theorem has_consecutive {offset place : Nat} {parts : List (List Char)}
    (hsize : offset + byteLength parts.flatten < UInt32.size) :
    (∃ span ∈ consecutive offset parts, span.Has place) ↔
      offset ≤ place ∧ place < offset + byteLength parts.flatten := by
  induction parts generalizing offset with
  | nil =>
    constructor
    · rintro ⟨span, hspan, -⟩
      cases hspan
    · rintro ⟨hstart, hstop⟩
      exact absurd hstop (by rw [List.flatten_nil, Text.byteLength_nil]; omega)
  | cons part parts ih =>
    rw [List.flatten_cons, Text.byteLength_append] at hsize ⊢
    rw [consecutive, List.exists_mem_cons_iff, ih (by omega), has_ofOffsets (by omega) (by omega)]
    omega

theorem isUnion_consecutive {offset : Nat} {parts : List (List Char)}
    (hsize : offset + byteLength parts.flatten < UInt32.size) :
    (ofOffsets offset (offset + byteLength parts.flatten)).IsUnion (consecutive offset parts) where
  contiguous := isChain_consecutive hsize
  offset first hfirst := by
    rw [← UInt32.toNat_inj, toNat_offset_ofOffsets (by omega),
      offset_head_consecutive (by omega) parts first hfirst]
  stop last hlast := by
    rw [← UInt32.toNat_inj, toNat_stop_ofOffsets (by omega) hsize,
      stop_getLast_consecutive hsize last hlast]
  bytes place := by
    rw [has_consecutive hsize, has_ofOffsets (by omega) hsize]

/-! ### Ends -/

/-- The largest word. -/
def maxWord : Nat := UInt32.size - 1

theorem toNat_le_maxWord (n : UInt32) : n.toNat ≤ maxWord := by
  have hlt := n.toNat_lt_size
  unfold maxWord
  omega

theorem toNat_ofNatClamp (n : Nat) : (UInt32.ofNatClamp n).toNat = min n maxWord := by
  unfold UInt32.ofNatClamp maxWord
  split <;> rw [UInt32.toNat_ofNatLT] <;> omega

theorem toNat_stop (span : Span) :
    span.stop.toNat = min (span.offset.toNat + span.length.toNat) maxWord :=
  toNat_ofNatClamp _

theorem offset_le_stop (span : Span) : span.offset.toNat ≤ span.stop.toNat := by
  have hoffset := toNat_le_maxWord span.offset
  rw [toNat_stop]
  omega

theorem toNat_length_between (start finish : UInt32) :
    (between start finish).length.toNat = finish.toNat - start.toNat := by
  show (if start ≤ finish then finish - start else 0 : UInt32).toNat = _
  by_cases hle : start ≤ finish
  · rw [if_pos hle, UInt32.toNat_sub_of_le _ _ hle]
  · rw [if_neg hle, UInt32.toNat_zero]
    rw [UInt32.le_iff_toNat_le] at hle
    omega

theorem toNat_stop_between (start finish : UInt32) :
    (between start finish).stop.toNat = max start.toNat finish.toNat := by
  have hstart := toNat_le_maxWord start
  have hfinish := toNat_le_maxWord finish
  rw [toNat_stop, toNat_length_between]
  show min (start.toNat + _) _ = _
  omega

theorem stop_ofOffsets_le {start finish : Nat} (hle : start ≤ finish) :
    (ofOffsets start finish).stop.toNat ≤ finish := by
  rw [ofOffsets, toNat_stop_between, toNat_ofNatClamp, toNat_ofNatClamp]
  omega

section

variable {bound : Nat}

theorem stop_merge_le {a b : Span} (ha : a.stop.toNat ≤ bound) (hb : b.stop.toNat ≤ bound) :
    (a.merge b).stop.toNat ≤ bound := by
  unfold merge
  split
  · exact hb
  · split
    · exact ha
    · rw [toNat_stop_between, UInt32.toNat_min, UInt32.toNat_max]
      have hoffset := a.offset_le_stop
      omega

/-- Spans that stop before some byte merge to one that does. -/
theorem stop_foldl_merge_le {spans : List Span} (hall : ∀ span ∈ spans, span.stop.toNat ≤ bound)
    {start : Span} (hstart : start.stop.toNat ≤ bound) :
    (spans.foldl merge start).stop.toNat ≤ bound := by
  induction spans generalizing start with
  | nil => exact hstart
  | cons span spans ih =>
    rw [List.forall_mem_cons] at hall
    exact ih hall.2 (stop_merge_le hstart hall.1)

end

end CollationRules.Span
