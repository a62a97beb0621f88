import CollationRules.Proofs.Markup.Lines

/-! What machine words and memory can hold. As long as the depth of a line is a word that does not
wrap around, closing blocks down to a depth closes as many as are deeper. What is built can be held
in memory if every line can be indented, and the tags that close blocks can be built wherever those
that open them could. -/

namespace CollationRules.Markup

theorem toNat_depth_add_one {depth : UInt64} (h : depth.toNat + 1 < UInt64.size) :
    (depth + 1).toNat = depth.toNat + 1 := by
  rw [UInt64.toNat_add]
  exact Nat.mod_eq_of_lt h

/-! ### Pieces -/

theorem Spacing.fits_times {indent : Spacing} {count : Nat} :
    (indent.times count).fits = true ↔ indent.size * count ≤ maxTextSize := by
  rw [fits_iff, size_times]

theorem all_fits_indentation {indent : Spacing} {depth : UInt64} :
    (indentation indent depth).all Token.fits = true ↔ indent.size * depth.toNat ≤ maxTextSize := by
  unfold indentation
  split
  · rename_i h
    have hnone : indent.size * depth.toNat = 0 := by
      rcases Bool.or_eq_true_iff.1 h with hdepth | hindent
      · rw [of_decide_eq_true hdepth]
        rfl
      · rw [beq_iff_eq.1 hindent, Nat.zero_mul]
    simp [hnone]
  · simpa [Token.fits] using Spacing.fits_times

theorem all_fits_line {indent : Spacing} {depth : UInt64} {content : List Token}
    (h : content.all Token.fits = true) :
    (line indent depth content).all Token.fits = true ↔
      indent.size * depth.toNat ≤ maxTextSize := by
  have hnewline : Token.fits (.spacing .newline) = true := by decide
  simp [line, h, hnewline, ← all_fits_indentation]

section Lines

variable {indent : Spacing} {depth : UInt64} {lines : List (List Token)}
  (h : ∀ content ∈ lines, content.all Token.fits = true)

include h

theorem all_fits_lines (hsize : indent.size * depth.toNat ≤ maxTextSize) :
    (lines.flatMap (line indent depth)).all Token.fits = true := by
  rw [List.all_flatMap, List.all_eq_true]
  exact fun content hcontent => (all_fits_line (h content hcontent)).2 hsize

theorem all_fits_block (name : Name) (houter : indent.size * depth.toNat ≤ maxTextSize)
    (hinner : indent.size * (depth + 1).toNat ≤ maxTextSize) :
    (block indent depth name lines).all Token.fits = true := by
  have htag (tag : Token) (htag : tag.fits = true) :
      (line indent depth [tag]).all Token.fits = true :=
    (all_fits_line (by simp [htag])).2 houter
  rw [block, List.all_append, List.all_append, htag _ rfl, all_fits_lines h hinner, htag _ rfl]
  rfl

end Lines

theorem all_fits_attributePieces (attrs : List (Name × List Char)) :
    (attributePieces attrs).all Token.fits = true := by
  simp [attributePieces, Token.fits]

theorem all_fits_startTag (name : Name) (attrs : List (Name × List Char)) :
    (.openTag name :: attributePieces attrs : List Token).all Token.fits = true := by
  simp [Token.fits, all_fits_attributePieces]

theorem all_fits_elementPieces (name : Name) (text : List Char) :
    (elementPieces name text).all Token.fits = true := by
  cases text <;> simp [elementPieces, textPieces, Token.fits]

namespace Builder

/-! ### Closing blocks -/

@[simp] theorem blocks_closeBlock (b : Builder) : b.closeBlock.blocks = b.blocks.tail := by
  cases hblocks : b.blocks with
  | nil => simp [closeBlock, hblocks]
  | cons name outer => simp [closeBlock_eq hblocks]

@[simp] theorem baseDepth_closeBlock (b : Builder) : b.closeBlock.baseDepth = b.baseDepth := by
  cases hblocks : b.blocks with
  | nil => simp [closeBlock, hblocks]
  | cons name outer => simp [closeBlock_eq hblocks]

@[simp] theorem blocks_closeBlocks (b : Builder) (count : Nat) :
    (b.closeBlocks count).blocks = b.blocks.drop count := by
  induction count generalizing b with
  | zero => rfl
  | succ count ih => simp [closeBlocks, ih]

@[simp] theorem baseDepth_closeBlocks (b : Builder) (count : Nat) :
    (b.closeBlocks count).baseDepth = b.baseDepth := by
  induction count generalizing b with
  | zero => rfl
  | succ count ih => simp [closeBlocks, ih]

theorem closeBlocks_add (b : Builder) (first second : Nat) :
    b.closeBlocks (first + second) = (b.closeBlocks first).closeBlocks second := by
  induction first generalizing b with
  | zero => rw [Nat.zero_add, closeBlocks]
  | succ first ih => rw [Nat.succ_add, closeBlocks, ih, closeBlocks]

theorem exists_closeTo_eq (b : Builder) (depth : UInt64) :
    ∃ count ≤ b.blocks.length, b.closeTo depth = b.closeBlocks count := by
  have hloop (limit : Nat) (b : Builder) :
      ∃ count ≤ limit, b.closeDownTo depth limit = b.closeBlocks count := by
    induction limit generalizing b with
    | zero => exact ⟨0, Nat.le_refl 0, rfl⟩
    | succ limit ih =>
      rw [closeDownTo]
      split
      · obtain ⟨count, hcount, heq⟩ := ih b.closeBlock
        exact ⟨count + 1, Nat.succ_le_succ hcount, heq⟩
      · exact ⟨0, Nat.zero_le _, rfl⟩
  exact hloop b.blocks.length b

/-- Closing some blocks first makes no difference once all of them are closed. -/
theorem finish_closeTo (b : Builder) (depth : UInt64) : (b.closeTo depth).finish = b.finish := by
  obtain ⟨count, hcount, heq⟩ := b.exists_closeTo_eq depth
  have hrest : (b.closeBlocks count).closeAll = b.closeAll := by
    rw [closeAll, blocks_closeBlocks, List.length_drop, ← closeBlocks_add,
      Nat.add_sub_cancel' hcount, closeAll]
  rw [heq, finish, hrest, finish]

/-! ### Depths -/

theorem toNat_depth {b : Builder} (h : b.baseDepth.toNat + b.blocks.length < UInt64.size) :
    b.depth.toNat = b.baseDepth.toNat + b.blocks.length := by
  rw [depth, UInt64.toNat_add, UInt64.toNat_ofNat', Nat.add_mod_mod]
  exact Nat.mod_eq_of_lt h

/-- Where depths do not wrap around, just the blocks are closed that are deeper. -/
theorem closeTo_eq_closeBlocks {b : Builder}
    (h : b.baseDepth.toNat + b.blocks.length < UInt64.size) (depth : UInt64) :
    b.closeTo depth =
      b.closeBlocks (min b.blocks.length (b.depth.toNat - depth.toNat)) := by
  unfold closeTo
  generalize hblocks : b.blocks = blocks
  induction blocks generalizing b with
  | nil => rw [List.length_nil, Nat.zero_min, closeDownTo, closeBlocks]
  | cons name outer ih =>
    have hclosed : b.closeBlock.blocks = outer := by rw [blocks_closeBlock, hblocks, List.tail_cons]
    have hinner : b.closeBlock.baseDepth.toNat + b.closeBlock.blocks.length < UInt64.size := by
      rw [baseDepth_closeBlock, hclosed]
      rw [hblocks, List.length_cons] at h
      omega
    have hdepth : b.depth.toNat = b.closeBlock.depth.toNat + 1 := by
      rw [toNat_depth h, toNat_depth hinner, baseDepth_closeBlock, hclosed, hblocks,
        List.length_cons, Nat.add_assoc]
    rw [List.length_cons, closeDownTo]
    split
    · rename_i hdeeper
      rw [UInt64.lt_iff_toNat_lt] at hdeeper
      have hcount : min (outer.length + 1) (b.depth.toNat - depth.toNat) =
          min outer.length (b.closeBlock.depth.toNat - depth.toNat) + 1 := by
        omega
      rw [hcount, closeBlocks]
      exact ih hinner hclosed
    · rename_i hdeep
      rw [UInt64.lt_iff_toNat_lt] at hdeep
      have hcount : min (outer.length + 1) (b.depth.toNat - depth.toNat) = 0 := by omega
      rw [hcount, closeBlocks]

theorem toNat_depth_closeTo {b : Builder}
    (h : b.baseDepth.toNat + b.blocks.length < UInt64.size) (depth : UInt64) :
    (b.closeTo depth).depth.toNat = max b.baseDepth.toNat (min b.depth.toNat depth.toNat) := by
  have hlength : (b.closeTo depth).blocks.length =
      b.blocks.length - min b.blocks.length (b.depth.toNat - depth.toNat) := by
    rw [closeTo_eq_closeBlocks h, blocks_closeBlocks, List.length_drop]
  have hbase : (b.closeTo depth).baseDepth = b.baseDepth := by
    rw [closeTo_eq_closeBlocks h, baseDepth_closeBlocks]
  have hclosed : (b.closeTo depth).baseDepth.toNat + (b.closeTo depth).blocks.length <
      UInt64.size := by
    rw [hbase, hlength]
    omega
  rw [toNat_depth hclosed, hbase, hlength, toNat_depth h]
  omega

/-! ### What memory holds -/

theorem fits_iff {b : Builder} : b.fits = true ↔ b.tokens.toList.all Token.fits = true := by
  rw [fits, Array.all_toList]

theorem fits_add {b : Builder} {pieces : List Token} :
    (b.add pieces).fits = true ↔ b.fits = true ∧ pieces.all Token.fits = true := by
  rw [fits_iff, fits_iff, tokens_add, List.all_append, Bool.and_eq_true]

theorem held?_eq_some_iff {b held : Builder} : b.held? = some held ↔ b.fits = true ∧ b = held := by
  simp [held?]

/-- A builder that memory holds, also when its blocks are closed: the tags that close them are
indented no further than what has been indented already. -/
structure Holds (b : Builder) : Prop where
  fits : b.fits = true
  closings : ∀ outer < b.blocks.length,
    b.indent.size * (b.baseDepth + UInt64.ofNat outer).toNat ≤ maxTextSize

namespace Holds

variable {b other : Builder}

theorem new (indent : Spacing) (base : UInt64) : Holds { indent, baseDepth := base } :=
  ⟨fits_iff.2 rfl, nofun⟩

theorem add (h : b.Holds) {pieces : List Token} (hfits : (b.add pieces).fits = true) :
    (b.add pieces).Holds :=
  ⟨hfits, h.closings⟩

theorem openBlock (h : b.Holds) {name : Name} {attrs : List (Name × List Char)}
    (hfits : (b.openBlock name attrs).fits = true) : (b.openBlock name attrs).Holds := by
  rw [openBlock_eq] at hfits ⊢
  have hline := (fits_add.1 hfits).2
  rw [all_fits_line (all_fits_startTag name attrs)] at hline
  refine ⟨hfits, fun outer houter => ?_⟩
  rcases Nat.lt_succ_iff_lt_or_eq.1 houter with hinner | rfl
  · exact h.closings outer hinner
  · exact hline

theorem closeBlock (h : b.Holds) : b.closeBlock.Holds := by
  cases hblocks : b.blocks with
  | nil =>
    rw [Builder.closeBlock, hblocks]
    exact h
  | cons name outer =>
    have hclosings : ∀ count < outer.length,
        b.indent.size * (b.baseDepth + UInt64.ofNat count).toNat ≤ maxTextSize := by
      intro count hcount
      exact h.closings count (by rw [hblocks]; exact Nat.lt_succ_of_lt hcount)
    have hline : (line b.indent (b.baseDepth + UInt64.ofNat outer.length) [.closeTag name]).all
        Token.fits = true :=
      (all_fits_line rfl).2 (h.closings outer.length (by rw [hblocks]; exact Nat.lt_succ_self _))
    rw [closeBlock_eq hblocks]
    exact ⟨fits_add.2 ⟨h.fits, hline⟩, hclosings⟩

theorem closeBlocks (h : b.Holds) (count : Nat) : (b.closeBlocks count).Holds := by
  induction count generalizing b with
  | zero => exact h
  | succ count ih => exact ih h.closeBlock

theorem closeTo (h : b.Holds) (depth : UInt64) : (b.closeTo depth).Holds := by
  obtain ⟨count, -, heq⟩ := b.exists_closeTo_eq depth
  rw [heq]
  exact h.closeBlocks count

theorem closeAll (h : b.Holds) : b.closeAll.Holds := h.closeBlocks _

theorem insert (h : b.Holds) (hother : other.Holds) (index : Nat) :
    (b.insert index other).Holds := by
  refine ⟨?_, h.closings⟩
  have hfits := fits_iff.1 h.fits
  rw [fits_iff, tokens_insert, List.all_append, List.all_append, fits_iff.1 hother.closeAll.fits,
    Bool.and_true, ← List.all_append, List.take_append_drop]
  exact hfits

end Holds

end Builder
end CollationRules.Markup
