import CollationRules.Proofs.Rule.Spans
import CollationRules.Proofs.Text.Slices
import CollationRules.Report.Excerpt
import Mathlib.Data.List.TakeWhile

/-! The positions that excerpts give. An excerpt is found by byte offsets, shows the line that a
span starts on, and underlines it from the first character of the span on, up to the end of the line
at most. Its line and column belong to no other offset. -/

namespace CollationRules

open Text (byteLength IsBoundary slice? firstOffset? lastOffset? width)

/-! ### Columns -/

theorem Text.width_append (columns : Char → Nat) (a b : List Char) :
    width columns (a ++ b) = width columns a + width columns b := by
  induction a with
  | nil => exact (Nat.zero_add _).symm
  | cons c a ih => rw [List.cons_append, width, width, ih, Nat.add_assoc]

/-- A tab takes as many columns as a space. -/
theorem Text.width_map_spaces {columns : Char → Nat} (hspace : columns ' ' = 1)
    (text : List Char) :
    width columns (text.map fun c => if c = '\t' then ' ' else c) = width columns text := by
  induction text with
  | nil => rfl
  | cons c text ih =>
    rw [List.map_cons, width, width, ih]
    split
    · exact congrArg (· + width columns text) hspace
    · rfl

/-! ### Lines -/

theorem lastLine_notMem (text : List Char) : '\n' ∉ lastLine text := by
  intro h
  exact absurd (List.mem_takeWhile_imp (List.mem_reverse.1 h)) (by decide)

theorem firstLine_notMem (text : List Char) : '\n' ∉ firstLine text := by
  intro h
  exact absurd (List.mem_takeWhile_imp h) (by decide)

theorem eq_of_mem_head?_dropWhile (text : List Char) :
    ∀ c ∈ (text.dropWhile (· != '\n')).head?, c = '\n' := by
  intro c hc
  have hstop := List.head?_dropWhile_not (· != '\n') text
  rw [Option.mem_def.1 hc] at hstop
  exact bne_eq_false_iff_eq.1 hstop

theorem reverse_dropWhile_append_lastLine (text : List Char) :
    (text.reverse.dropWhile (· != '\n')).reverse ++ lastLine text = text := by
  rw [lastLine, ← List.reverse_append, List.takeWhile_append_dropWhile, List.reverse_reverse]

theorem lastLine_append_of_notMem (before : List Char) {text : List Char} (h : '\n' ∉ text) :
    lastLine (before ++ text) = lastLine before ++ text := by
  have hall : ∀ c ∈ text.reverse, (c != '\n') = true := fun c hc =>
    bne_iff_ne.2 fun hc' => h (hc' ▸ List.mem_reverse.1 hc)
  rw [lastLine, List.reverse_append, List.takeWhile_append_of_pos hall, List.reverse_append,
    List.reverse_reverse, lastLine]

theorem firstLine_append_prefix (text rest : List Char) :
    firstLine text <+: firstLine (text ++ rest) := by
  rw [firstLine, firstLine, List.takeWhile_append]
  split
  · rename_i h
    rw [(List.takeWhile_prefix _).eq_of_length h]
    exact List.prefix_append ..
  · exact List.prefix_rfl

/-- The first line of a part ends with the part or with the line. -/
theorem byteLength_firstLine (text rest : List Char) :
    byteLength (firstLine text) =
      min (byteLength text) (byteLength (firstLine (text ++ rest))) := by
  induction text with
  | nil => exact (Nat.zero_min _).symm
  | cons c text ih =>
    unfold firstLine at ih ⊢
    rw [List.cons_append, List.takeWhile_cons, List.takeWhile_cons]
    split
    · rw [Text.byteLength_cons, Text.byteLength_cons, Text.byteLength_cons, ih,
        Nat.add_min_add_left]
    · exact (Nat.min_zero _).symm

/-- Two beginnings of a text with as many lines, the last of them as long, are the same. -/
theorem eq_of_position {before before' after after' : List Char}
    (htext : before ++ after = before' ++ after')
    (hline : before.count '\n' = before'.count '\n')
    (hcolumn : (lastLine before).length = (lastLine before').length) : before = before' := by
  -- what the longer beginning has more is on the same line, and takes no column
  have eq_nil (start between : List Char)
      (hline : start.count '\n' = (start ++ between).count '\n')
      (hcolumn : (lastLine start).length = (lastLine (start ++ between)).length) :
      between = [] := by
    rw [List.count_append] at hline
    have hnone : '\n' ∉ between := List.count_eq_zero.1 (by omega)
    rw [lastLine_append_of_notMem start hnone, List.length_append] at hcolumn
    exact List.length_eq_zero_iff.1 (by omega)
  rcases List.append_eq_append_iff.1 htext with ⟨between, rfl, -⟩ | ⟨between, rfl, -⟩
  · rw [eq_nil before between hline hcolumn, List.append_nil]
  · rw [eq_nil before' between hline.symm hcolumn.symm, List.append_nil]

/-- What a part has on the line that it begins on is a slice. -/
theorem slice?_firstLine {text before part after : List Char} {start stop : Nat}
    (htext : before ++ part ++ after = text) (hstart : byteLength before = start)
    (hstop : byteLength (before ++ part) = stop) :
    slice? start (min stop (start + byteLength (firstLine (part ++ after)))) text =
      some (firstLine part) := by
  refine Text.slice?_eq_some.2 ⟨before, part.dropWhile (· != '\n') ++ after, ?_, hstart, ?_⟩
  · rw [List.append_assoc, ← List.append_assoc (firstLine part), firstLine,
      List.takeWhile_append_dropWhile, ← List.append_assoc, htext]
  · rw [Text.byteLength_append, byteLength_firstLine part after, ← Nat.add_min_add_left,
      ← Text.byteLength_append, hstop, hstart]

/-- The line of a text on which a byte offset lies, divided at the offset, and what is above and
below the line. -/
structure LineAt (text : List Char) (offset : Nat) where
  above : List Char
  lead : List Char
  tail : List Char
  below : List Char
  eq_text : above ++ lead ++ (tail ++ below) = text
  eq_offset : byteLength (above ++ lead) = offset
  above_ends : ∀ c ∈ above.getLast?, c = '\n'
  lead_notMem : '\n' ∉ lead
  tail_notMem : '\n' ∉ tail
  below_begins : ∀ c ∈ below.head?, c = '\n'

namespace LineAt

section

variable {text before after : List Char} {offset : Nat}

/-- The line on which the second of two parts of a text begins. -/
def ofParts (htext : before ++ after = text)
    (hoffset : byteLength before = offset) : LineAt text offset where
  above := (before.reverse.dropWhile (· != '\n')).reverse
  lead := lastLine before
  tail := firstLine after
  below := after.dropWhile (· != '\n')
  eq_text := by
    rw [reverse_dropWhile_append_lastLine, firstLine, List.takeWhile_append_dropWhile, htext]
  eq_offset := by rw [reverse_dropWhile_append_lastLine, hoffset]
  above_ends := by
    rw [List.getLast?_reverse]
    exact eq_of_mem_head?_dropWhile before.reverse
  lead_notMem := lastLine_notMem before
  tail_notMem := firstLine_notMem after
  below_begins := eq_of_mem_head?_dropWhile after

end

section

variable {text : List Char} {offset : Nat} (line : LineAt text offset)

include line in
theorem byteLength_text :
    byteLength text = offset + (byteLength line.tail + byteLength line.below) := by
  have hsize := congrArg byteLength line.eq_text
  rw [Text.byteLength_append, Text.byteLength_append line.tail, line.eq_offset] at hsize
  exact hsize.symm

theorem length_before_le : (line.above ++ line.lead).length ≤ byteLength text := by
  have hlength := Text.length_le_byteLength (line.above ++ line.lead)
  have hsize := line.byteLength_text
  rw [line.eq_offset] at hlength
  omega

/-- The line starts behind the last line feed in front of the offset. -/
theorem elim_lastOffset? :
    (lastOffset? '\n' (line.above ++ line.lead)).elim 0 (· + 1) = byteLength line.above := by
  have hends := line.above_ends
  rcases List.eq_nil_or_concat' line.above with habove | ⟨above, c, habove⟩
  · rw [habove, List.nil_append, Text.lastOffset?_eq_none line.lead_notMem]
    rfl
  · rw [habove, List.getLast?_concat] at hends
    obtain rfl := hends c rfl
    rw [habove, List.append_assoc, List.singleton_append,
      Text.lastOffset?_append above line.lead_notMem, Text.byteLength_append]
    rfl

/-- The line ends in front of the first line feed from the offset on, or else with the text. -/
theorem elim_firstOffset? :
    (firstOffset? '\n' (line.tail ++ line.below)).elim (byteLength text) (offset + ·) =
      offset + byteLength line.tail := by
  have hbegins := line.below_begins
  cases hbelow : line.below with
  | nil =>
    have hsize := line.byteLength_text
    rw [hbelow, Text.byteLength_nil, Nat.add_zero] at hsize
    rw [List.append_nil, Text.firstOffset?_eq_none line.tail_notMem]
    exact hsize
  | cons c below =>
    rw [hbelow] at hbegins
    obtain rfl := hbegins c rfl
    rw [Text.firstOffset?_append line.tail_notMem]
    rfl

theorem slice?_before : slice? 0 offset text = some (line.above ++ line.lead) :=
  Text.slice?_eq_some.2 ⟨[], line.tail ++ line.below, line.eq_text, rfl, line.eq_offset⟩

theorem slice?_after : slice? offset (byteLength text) text = some (line.tail ++ line.below) :=
  Text.slice?_eq_some.2 ⟨line.above ++ line.lead, [], by rw [List.append_nil, line.eq_text],
    line.eq_offset, by rw [line.eq_text]⟩

theorem slice?_lead : slice? (byteLength line.above) offset text = some line.lead :=
  Text.slice?_eq_some.2 ⟨line.above, line.tail ++ line.below, line.eq_text, rfl, line.eq_offset⟩

theorem slice?_line :
    slice? (byteLength line.above) (offset + byteLength line.tail) text =
      some (line.lead ++ line.tail) := by
  refine Text.slice?_eq_some.2 ⟨line.above, line.below, ?_, rfl, ?_⟩
  · rw [← List.append_assoc, List.append_assoc _ line.tail, line.eq_text]
  · rw [← List.append_assoc, Text.byteLength_append, line.eq_offset]

end

end LineAt

/-! ### Excerpts and offsets -/

/-- A number in a word of 32 bits, unless nothing is left of it. -/
def nonzeroWord? (n : Nat) : Option Nat :=
  if UInt32.ofNat n = 0 then none else some (UInt32.ofNat n).toNat

theorem nonzeroWord?_eq {n : Nat} (hpos : 0 < n) (hsize : n < UInt32.size) :
    nonzeroWord? n = some n := by
  have hword : (UInt32.ofNat n).toNat = n := UInt32.toNat_ofNat_of_lt hsize
  rw [nonzeroWord?, hword, if_neg]
  intro hzero
  rw [hzero, UInt32.toNat_zero] at hword
  exact absurd hword (Nat.ne_of_lt hpos)

section

variable {text : List Char} {offset : Nat} (line : LineAt text offset)
  (hsize : byteLength text < UInt32.size - 1)

include hsize

theorem LineAt.nonzeroWord?_line :
    nonzeroWord? ((line.above ++ line.lead).count '\n' + 1) =
      some ((line.above ++ line.lead).count '\n' + 1) := by
  have hcount := List.count_le_length (a := '\n') (l := line.above ++ line.lead)
  have hlength := line.length_before_le
  exact nonzeroWord?_eq (Nat.succ_pos _) (by omega)

theorem LineAt.nonzeroWord?_column :
    nonzeroWord? (line.lead.length + 1) = some (line.lead.length + 1) := by
  have hlength := line.length_before_le
  rw [List.length_append] at hlength
  exact nonzeroWord?_eq (Nat.succ_pos _) (by omega)

end

namespace Source

/-- The excerpt of a span, found by byte offsets and slices: `none` where a slice is not there, and
`some none` where the span has no excerpt. -/
def resolve? (source : Source) (span : Span) (columns : Char → Nat := Text.charWidth) :
    Option (Option Excerpt) :=
  let text := source.text
  let size := byteLength text
  let start := span.offset.toNat
  let stop := span.stop.toNat
  if size < stop ∨ ¬IsBoundary start text ∨ ¬IsBoundary stop text then some none
  else do
    let before ← slice? 0 start text
    let after ← slice? start size text
    let lineStart := (lastOffset? '\n' before).elim 0 (· + 1)
    let lineStop := (firstOffset? '\n' after).elim size (start + ·)
    let lead ← slice? lineStart start text
    let marked ← slice? start (min stop lineStop) text
    let quoted ← slice? lineStart lineStop text
    return do
      let line ← nonzeroWord? (before.count '\n' + 1)
      let column ← nonzeroWord? (lead.length + 1)
      return {
        line, column
        quotation := quoted.map fun c => if c = '\t' then ' ' else c
        markStart := width columns lead
        markWidth := max (width columns marked) 1 }

end Source

/-- The excerpt of a span that the second of three parts of a text has. -/
def Excerpt.ofParts (columns : Char → Nat) (before spanned after : List Char) : Excerpt where
  line := before.count '\n' + 1
  column := (lastLine before).length + 1
  quotation := (lastLine before ++ firstLine (spanned ++ after)).map fun c =>
    if c = '\t' then ' ' else c
  markStart := width columns (lastLine before)
  markWidth := max 1 (width columns (firstLine spanned))

namespace Source

variable {source : Source} {span : Span}

theorem excerpt?_eq_some_iff {columns : Char → Nat} {e : Excerpt} :
    source.excerpt? span columns = some e ↔
      ∃ before spanned after, before ++ spanned ++ after = source.text ∧
        byteLength before = span.offset.toNat ∧
        byteLength (before ++ spanned) = span.stop.toNat ∧
        e = .ofParts columns before spanned after := by
  have hle := span.offset_le_stop
  constructor
  · intro h
    simp only [excerpt?, Option.bind_eq_bind, Option.bind_eq_some_iff, Prod.exists,
      Text.cutExactly?_eq_some] at h
    obtain ⟨before, _, ⟨htext, hoffset⟩, spanned, after, ⟨rfl, hlength⟩, he⟩ := h
    refine ⟨before, spanned, after, by rw [List.append_assoc, htext], hoffset, ?_, ?_⟩
    · rw [Text.byteLength_append, hoffset, hlength, Nat.add_sub_cancel' hle]
    · exact (Option.some.inj he).symm
  · rintro ⟨before, spanned, after, htext, hoffset, hstop, rfl⟩
    have hstart : Text.cutExactly? span.offset.toNat source.text =
        some (before, spanned ++ after) :=
      Text.cutExactly?_eq_some.2 ⟨by rw [← List.append_assoc, htext], hoffset⟩
    have hend : Text.cutExactly? (span.stop.toNat - span.offset.toNat) (spanned ++ after) =
        some (spanned, after) := by
      rw [Text.byteLength_append, hoffset] at hstop
      exact Text.cutExactly?_eq_some.2 ⟨rfl, (Nat.sub_eq_of_eq_add' hstop.symm).symm⟩
    simp only [excerpt?, hstart, hend, Option.bind_eq_bind, Option.bind_some]
    rfl

theorem isSome_excerpt?_iff (columns : Char → Nat) :
    (source.excerpt? span columns).isSome ↔
      IsBoundary span.offset.toNat source.text ∧ IsBoundary span.stop.toNat source.text := by
  rw [Option.isSome_iff_exists]
  constructor
  · rintro ⟨e, h⟩
    obtain ⟨before, spanned, after, htext, hoffset, hstop, -⟩ := excerpt?_eq_some_iff.1 h
    exact ⟨⟨before, _, by rw [← List.append_assoc, htext], hoffset⟩, _, after, htext, hstop⟩
  · rintro ⟨hstart, hend⟩
    obtain ⟨before, spanned, after, htext, hoffset, hstop⟩ :=
      hstart.exists_between hend span.offset_le_stop
    exact ⟨_, excerpt?_eq_some_iff.2 ⟨before, spanned, after, htext, hoffset, hstop, rfl⟩⟩

theorem resolve?_eq (hsize : byteLength source.text < UInt32.size - 1) (span : Span)
    (columns : Char → Nat) :
    source.resolve? span columns = some (source.excerpt? span columns) := by
  unfold resolve?
  by_cases hbounds : IsBoundary span.offset.toNat source.text ∧
      IsBoundary span.stop.toNat source.text
  · obtain ⟨e, he⟩ := Option.isSome_iff_exists.1 ((isSome_excerpt?_iff columns).2 hbounds)
    obtain ⟨before, spanned, after, htext, hoffset, hstop, rfl⟩ := excerpt?_eq_some_iff.1 he
    let line : LineAt source.text span.offset.toNat :=
      .ofParts (by rw [← List.append_assoc, htext]) hoffset
    have hbefore : line.above ++ line.lead = before := reverse_dropWhile_append_lastLine before
    have hmarked : slice? span.offset.toNat
        (min span.stop.toNat (span.offset.toNat + byteLength line.tail)) source.text =
        some (firstLine spanned) := slice?_firstLine htext hoffset hstop
    have hinside : ¬(byteLength source.text < span.stop.toNat ∨
        ¬IsBoundary span.offset.toNat source.text ∨ ¬IsBoundary span.stop.toNat source.text) := by
      simpa [hbounds] using hbounds.2.le
    rw [if_neg hinside, he]
    simp only [line.slice?_before, line.slice?_after, line.elim_lastOffset?,
      line.elim_firstOffset?, line.slice?_lead, line.slice?_line, hmarked,
      line.nonzeroWord?_line hsize, line.nonzeroWord?_column hsize, Option.bind_eq_bind,
      Option.bind_some]
    rw [hbefore, Nat.max_comm]
    rfl
  · have hnone : source.excerpt? span columns = none := by
      rwa [← Option.not_isSome_iff_eq_none, isSome_excerpt?_iff]
    rw [hnone]
    exact if_pos (.inr (not_and_or.1 hbounds))

/-- Excerpts with the same line and column are of spans that start at the same offset. -/
theorem offset_eq_of_position {other : Span} {e found : Excerpt} {columns columns' : Char → Nat}
    (h : source.excerpt? span columns = some e)
    (h' : source.excerpt? other columns' = some found) (hline : found.line = e.line)
    (hcolumn : found.column = e.column) : other.offset = span.offset := by
  obtain ⟨before, spanned, after, htext, hoffset, -, rfl⟩ := excerpt?_eq_some_iff.1 h
  obtain ⟨before', spanned', after', htext', hoffset', -, rfl⟩ := excerpt?_eq_some_iff.1 h'
  rw [List.append_assoc, ← htext, List.append_assoc] at htext'
  have hbefore := eq_of_position htext' (Nat.succ.inj hline) (Nat.succ.inj hcolumn)
  rw [← UInt32.toNat_inj, ← hoffset, ← hoffset', hbefore]

/-- The underline ends with the quoted line, or one column behind its start. -/
theorem markStart_add_markWidth_le {e : Excerpt} {columns : Char → Nat}
    (h : source.excerpt? span columns = some e) (hspace : columns ' ' = 1) :
    e.markStart + e.markWidth ≤ max (width columns e.quotation) (e.markStart + 1) := by
  obtain ⟨before, spanned, after, -, -, -, rfl⟩ := excerpt?_eq_some_iff.1 h
  obtain ⟨rest, hrest⟩ := firstLine_append_prefix spanned after
  have htail := congrArg (width columns) hrest
  rw [Text.width_append] at htail
  simp only [Excerpt.ofParts, Text.width_map_spaces hspace, Text.width_append]
  omega

/-- Spans are resolved without a slice that is not there, and just those that start and end at
boundaries of the text. An excerpt has the number of the line that the span starts on, the place in
it and the line, with an underline from the first character of the span on that goes no further than
the line, or one column. The line and the column belong to one offset only. -/
theorem resolve_positions (hsize : byteLength source.text < UInt32.size - 1) (span : Span)
    (columns : Char → Nat) :
    source.resolve? span columns = some (source.excerpt? span columns) ∧
    ((source.excerpt? span columns).isSome ↔ span.stop.toNat ≤ byteLength source.text ∧
      IsBoundary span.offset.toNat source.text ∧ IsBoundary span.stop.toNat source.text) ∧
    ∀ e, source.excerpt? span columns = some e →
      (∃ line : LineAt source.text span.offset.toNat,
        e.line = (line.above ++ line.lead).count '\n' + 1 ∧
        e.column = line.lead.length + 1 ∧
        e.quotation = (line.lead ++ line.tail).map (fun c => if c = '\t' then ' ' else c) ∧
        e.markStart = width columns line.lead) ∧
      (∀ other found, source.excerpt? other columns = some found → found.line = e.line →
        found.column = e.column → other.offset = span.offset) ∧
      1 ≤ e.markWidth ∧
      (columns ' ' = 1 →
        e.markStart + e.markWidth ≤ max (width columns e.quotation) (e.markStart + 1)) := by
  refine ⟨resolve?_eq hsize span columns, ?_, fun e h => ⟨?_, ?_, ?_, ?_⟩⟩
  · rw [isSome_excerpt?_iff]
    exact ⟨fun hbounds => ⟨hbounds.2.le, hbounds⟩, And.right⟩
  · obtain ⟨before, spanned, after, htext, hoffset, -, rfl⟩ := excerpt?_eq_some_iff.1 h
    refine ⟨.ofParts (by rw [← List.append_assoc, htext]) hoffset, ?_, rfl, rfl, rfl⟩
    exact congrArg (List.count '\n' · + 1) (reverse_dropWhile_append_lastLine before).symm
  · exact fun other found h' => offset_eq_of_position h h'
  · obtain ⟨before, spanned, after, -, -, -, rfl⟩ := excerpt?_eq_some_iff.1 h
    exact Nat.le_max_left ..
  · exact markStart_add_markWidth_le h

/-- A wide character behind a tab on the second line, and the character after it. -/
theorem resolve_positions_second_line :
    let source : Source := ⟨"rules", ['&', 'a', '\n', '\t', '世', 'b', '\n']⟩
    let e : Excerpt := ⟨2, 2, [' ', '世', 'b'], 1, 3⟩
    byteLength source.text < UInt32.size - 1 ∧
      source.resolve? ⟨4, 4⟩ = some (some e) ∧
      (∀ other found, source.excerpt? other = some found → found.line = 2 → found.column = 2 →
        other.offset = 4) ∧
      e.markStart + e.markWidth ≤ max (width Text.charWidth e.quotation) 2 := by
  intro source e
  have hsize : byteLength source.text < UInt32.size - 1 := by decide
  have he : source.excerpt? ⟨4, 4⟩ = some e := by decide +kernel
  obtain ⟨hresolve, -, hpositions⟩ := resolve_positions hsize ⟨4, 4⟩ Text.charWidth
  obtain ⟨-, hoffset, -, hreach⟩ := hpositions e he
  exact ⟨hsize, hresolve.trans (congrArg some he), hoffset, hreach (by decide +kernel)⟩

end Source

end CollationRules
