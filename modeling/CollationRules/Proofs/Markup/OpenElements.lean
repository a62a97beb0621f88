import CollationRules.Proofs.Markup.Capacity
import CollationRules.Proofs.Markup.Nesting

/-! The elements that markup leaves open. A builder of lines and blocks keeps the names of just the
elements that its pieces leave open, also where the pieces of another one are put in between any two
of its own. When it has closed its blocks, nothing is left open. -/

namespace CollationRules.Markup

/-- The open elements after a piece of markup, the innermost first, unless it closes an element
where none is open, or one that is not the innermost. -/
def Token.elements? (elements : List Name) : Token → Option (List Name)
  | openTag name => some (name :: elements)
  | closeTag name => if elements.head? = some name then some elements.tail else none
  | closeEmpty => elements.tail?
  | _ => some elements

/-- The elements that are open after pieces of markup, where some are open before. -/
def openElements? (elements : List Name) (pieces : List Token) : Option (List Name) :=
  pieces.foldlM Token.elements? elements

theorem openElements?_cons (elements : List Name) (token : Token) (rest : List Token) :
    openElements? elements (token :: rest) =
      (token.elements? elements).bind (openElements? · rest) :=
  List.foldlM_cons

theorem openElements?_append (elements : List Name) (first second : List Token) :
    openElements? elements (first ++ second) =
      (openElements? elements first).bind (openElements? · second) :=
  List.foldlM_append

theorem openElements?_append_of_some {elements left : List Name} {first : List Token}
    (h : openElements? elements first = some left) (second : List Token) :
    openElements? elements (first ++ second) = openElements? left second := by
  rw [openElements?_append, h, Option.bind_some]

theorem Token.elements?_outer {token : Token} {elements left : List Name}
    (h : token.elements? elements = some left) (outer : List Name) :
    token.elements? (elements ++ outer) = some (left ++ outer) := by
  cases token with
  | closeTag name =>
    obtain ⟨hhead, rfl⟩ : elements.head? = some name ∧ elements.tail = left := by
      simpa [Token.elements?] using h
    obtain ⟨inner, rfl⟩ := List.head?_eq_some_iff.1 hhead
    simp [Token.elements?]
  | closeEmpty =>
    cases elements with
    | nil => cases h
    | cons name inner =>
      cases h
      rfl
  | _ =>
    cases h
    rfl

/-- Pieces that close no elements but those that they know of do so whatever else is open. -/
theorem openElements?_outer {pieces : List Token} {elements left : List Name}
    (h : openElements? elements pieces = some left) (outer : List Name) :
    openElements? (elements ++ outer) pieces = some (left ++ outer) := by
  induction pieces generalizing elements with
  | nil =>
    cases h
    rfl
  | cons token rest ih =>
    rw [openElements?_cons] at h ⊢
    obtain ⟨next, htoken, hrest⟩ := Option.bind_eq_some_iff.1 h
    rw [Token.elements?_outer htoken outer, Option.bind_some]
    exact ih hrest

/-- Pieces that leave nothing open can be put in anywhere. -/
theorem openElements?_insert {inserted : List Token} (h : openElements? [] inserted = some [])
    (elements : List Name) (first second : List Token) :
    openElements? elements (first ++ inserted ++ second) =
      openElements? elements (first ++ second) := by
  rw [List.append_assoc, openElements?_append, openElements?_append elements first]
  congr 1
  funext left
  -- What is open in front of the inserted pieces is open behind them.
  have hinserted : openElements? left inserted = some left := openElements?_outer h left
  exact openElements?_append_of_some hinserted second

theorem openElements?_attributePieces (elements : List Name) (attrs : List (Name × List Char)) :
    openElements? elements (attributePieces attrs) = some elements := by
  induction attrs with
  | nil => rfl
  | cons attr attrs ih => exact ih

theorem openElements?_startTag (elements : List Name) (name : Name)
    (attrs : List (Name × List Char)) :
    openElements? elements (.openTag name :: attributePieces attrs) = some (name :: elements) :=
  openElements?_attributePieces (name :: elements) attrs

theorem openElements?_closeTag (elements : List Name) (name : Name) (rest : List Token) :
    openElements? (name :: elements) (.closeTag name :: rest) = openElements? elements rest := by
  rw [openElements?_cons, Token.elements?, List.head?_cons, if_pos rfl]
  rfl

theorem WellNested.openElements?_eq {pieces : List Token} (h : WellNested pieces)
    (elements : List Name) : openElements? elements pieces = some elements := by
  induction h generalizing elements with
  | nil => rfl
  | spacing s _ ih => exact ih elements
  | characters text _ ih => exact ih elements
  | empty name attrs _ ih =>
    rw [openElements?_append_of_some (openElements?_startTag elements name attrs)]
    exact ih elements
  | element name attrs _ _ ihContent ihRest =>
    rw [List.append_assoc,
      openElements?_append_of_some (openElements?_startTag elements name attrs),
      openElements?_append_of_some (ihContent _), openElements?_closeTag]
    exact ihRest elements

theorem openElements?_line {content : List Token} {elements left : List Name}
    (h : openElements? elements content = some left) (indent : Spacing) (depth : UInt64) :
    openElements? elements (line indent depth content) = some left := by
  rw [line, List.append_assoc,
    openElements?_append_of_some ((WellNested.indentation indent depth).openElements?_eq elements),
    openElements?_append_of_some h]
  rfl

namespace Builder

/-! ### Loops -/

theorem closeAll_eq (b : Builder) :
    b.closeAll =
      match b.popBlock with
      | (some _, next) => next.closeAll
      | (none, next) => next := by
  cases hblocks : b.blocks with
  | nil => simp [closeAll, closeBlocks, popBlock, closeBlock, hblocks]
  | cons name outer => simp [closeAll, closeBlocks, popBlock, hblocks]

/-- Blocks are closed one after the other, as long as the depth is greater and a block is open. -/
theorem closeTo_eq (b : Builder) (depth : UInt64) :
    b.closeTo depth =
      if depth < b.depth then
        match b.popBlock with
        | (some _, next) => next.closeTo depth
        | (none, next) => next
      else b := by
  cases hblocks : b.blocks with
  | nil => simp [closeTo, closeDownTo, popBlock, closeBlock, hblocks]
  | cons name outer => simp [closeTo, closeDownTo, popBlock, hblocks]

/-! ### What is open -/

/-- A builder whose pieces leave open just its blocks. -/
def Tracks (b : Builder) : Prop := openElements? [] b.tokens.toList = some b.blocks

namespace Tracks

variable {b other : Builder} (h : b.Tracks)

include h

theorem add {pieces : List Token} (hpieces : openElements? b.blocks pieces = some b.blocks) :
    (b.add pieces).Tracks := by
  rw [Tracks, tokens_add, openElements?_append_of_some h]
  exact hpieces

theorem openBlock (name : Name) (attrs : List (Name × List Char)) :
    (b.openBlock name attrs).Tracks := by
  rw [Tracks, openBlock_eq]
  simp only [tokens_add]
  rw [openElements?_append_of_some h]
  exact openElements?_line (openElements?_startTag b.blocks name attrs) b.indent b.depth

theorem closeBlock : b.closeBlock.Tracks := by
  cases hblocks : b.blocks with
  | nil =>
    rw [Builder.closeBlock, hblocks]
    exact h
  | cons name outer =>
    rw [closeBlock_eq hblocks, Tracks]
    simp only [tokens_add, blocks_add]
    rw [openElements?_append_of_some h, hblocks]
    exact openElements?_line (openElements?_closeTag outer name []) _ _

theorem closeBlocks (count : Nat) : (b.closeBlocks count).Tracks := by
  induction count generalizing b with
  | zero => exact h
  | succ count ih => exact ih h.closeBlock

theorem finish : openElements? [] b.finish = some [] := by
  have hclosed := h.closeBlocks b.blocks.length
  rw [Tracks, blocks_closeBlocks, List.drop_length] at hclosed
  exact hclosed

theorem insert (hother : other.Tracks) (index : Nat) : (b.insert index other).Tracks := by
  have hclosed : openElements? [] other.closeAll.tokens.toList = some [] := hother.finish
  rw [Tracks, tokens_insert, openElements?_insert hclosed, List.take_append_drop]
  exact h

end Tracks

/-- A builder with an indentation and a depth to begin at, after any steps that add lines, open and
close blocks, and put in what another such builder has built. A line that memory cannot hold is the
end of a program, so that there is no builder after it. -/
inductive Built : Spacing → UInt64 → Builder → Prop
  | new (indent : Spacing) (base : UInt64) : Built indent base { indent, baseDepth := base }
  | emptyLine {indent : Spacing} {base : UInt64} {b next : Builder} (h : Built indent base b)
      (name : Name) (attrs : List (Name × List Char))
      (held : (b.emptyLine name attrs).held? = some next) : Built indent base next
  | textLine {indent : Spacing} {base : UInt64} {b next : Builder} (h : Built indent base b)
      (name : Name) (text : List Char)
      (held : (b.textLine name text).held? = some next) : Built indent base next
  | openBlock {indent : Spacing} {base : UInt64} {b next : Builder} (h : Built indent base b)
      (name : Name) (attrs : List (Name × List Char))
      (held : (b.openBlock name attrs).held? = some next) : Built indent base next
  | closeBlock {indent : Spacing} {base : UInt64} {b : Builder} (h : Built indent base b) :
      Built indent base b.popBlock.2
  | closeAll {indent : Spacing} {base : UInt64} {b : Builder} (h : Built indent base b) :
      Built indent base b.closeAll
  | closeTo {indent : Spacing} {base : UInt64} {b : Builder} (h : Built indent base b)
      (depth : UInt64) : Built indent base (b.closeTo depth)
  | insert {indent indent' : Spacing} {base base' : UInt64} {b other : Builder}
      (h : Built indent base b) (index : Nat) (hother : Built indent' base' other) :
      Built indent base (b.insert index other)

theorem built_fork (b : Builder) : Built b.indent b.depth b.fork := .new b.indent b.depth

namespace Built

/-- What lines, opened and closed blocks and insertions keep holds of every builder: all the ways of
closing blocks close one after the other. -/
theorem of_kept {P : UInt64 → Builder → Prop}
    (new : ∀ indent base, P base { indent, baseDepth := base })
    (add : ∀ {base b pieces}, P base b → WellNested pieces → (b.add pieces).fits = true →
      P base (b.add pieces))
    (openBlock : ∀ {base b name attrs}, P base b → (b.openBlock name attrs).fits = true →
      P base (b.openBlock name attrs))
    (closeBlock : ∀ {base b}, P base b → P base b.closeBlock)
    (insert : ∀ {base base' b other} index, P base b → P base' other →
      P base (b.insert index other))
    {indent : Spacing} {base : UInt64} {b : Builder} (h : Built indent base b) : P base b := by
  have hclose {base : UInt64} {b : Builder} (count : Nat) (h : P base b) :
      P base (b.closeBlocks count) := by
    induction count generalizing b with
    | zero => exact h
    | succ count ih => exact ih (closeBlock h)
  induction h with
  | new indent base => exact new indent base
  | emptyLine _ name attrs held ih =>
    obtain ⟨hfits, rfl⟩ := held?_eq_some_iff.1 held
    rw [emptyLine_eq] at hfits ⊢
    exact add ih (.line (.empty name attrs .nil) ..) hfits
  | textLine _ name text held ih =>
    obtain ⟨hfits, rfl⟩ := held?_eq_some_iff.1 held
    rw [textLine_eq] at hfits ⊢
    exact add ih (.line (.elementPieces name text) ..) hfits
  | openBlock _ name attrs held ih =>
    obtain ⟨hfits, rfl⟩ := held?_eq_some_iff.1 held
    exact openBlock ih hfits
  | closeBlock _ ih => exact closeBlock ih
  | closeAll _ ih => exact hclose _ ih
  | @closeTo _ _ b _ depth ih =>
    obtain ⟨count, -, heq⟩ := b.exists_closeTo_eq depth
    rw [heq]
    exact hclose count ih
  | insert _ index _ ih ihOther => exact insert index ih ihOther

variable {indent : Spacing} {base : UInt64} {b : Builder} (h : Built indent base b)

include h

theorem baseDepth : b.baseDepth = base := by
  refine of_kept (P := fun base b => b.baseDepth = base) (fun _ _ => rfl) (fun ih _ _ => ih)
    (fun ih _ => ?_) (fun ih => ?_) (fun _ ih _ => ih) h
  · rwa [openBlock_eq]
  · rwa [baseDepth_closeBlock]

theorem tracks : b.Tracks :=
  of_kept (P := fun _ => Tracks) (fun _ _ => rfl)
    (fun ih hnested _ => ih.add (hnested.openElements?_eq _)) (fun ih _ => ih.openBlock _ _)
    Tracks.closeBlock (fun index ih ihOther => ih.insert ihOther index) h

theorem holds : b.Holds :=
  of_kept (P := fun _ => Holds) Holds.new (fun ih _ => ih.add) (fun ih => ih.openBlock)
    Holds.closeBlock (fun index ih ihOther => ih.insert ihOther index) h

end Built

/-- The pieces of a builder can be read with a stack of open elements, and leave open just its
blocks. Closing a block names the innermost of them, the other ways of closing blocks do so one
after the other, and when all blocks are closed nothing is left open. Memory always holds what
closing blocks adds. As long as the depth is a word that does not wrap around, it counts the open
blocks, and blocks can be closed down to any depth. -/
theorem Built.exists_elements {indent : Spacing} {base : UInt64} {b : Builder}
    (h : Built indent base b) :
    ∃ elements, openElements? [] b.tokens.toList = some elements ∧ b.blocks = elements ∧
      b.popBlock.1 = elements.head? ∧
      openElements? [] b.popBlock.2.tokens.toList = some elements.tail ∧
      b.closeAll = (match b.popBlock with
        | (some _, next) => next.closeAll
        | (none, next) => next) ∧
      (∀ depth, b.closeTo depth =
        if depth < b.depth then
          match b.popBlock with
          | (some _, next) => next.closeTo depth
          | (none, next) => next
        else b) ∧
      openElements? [] b.finish = some [] ∧
      b.popBlock.2.fits ∧ b.closeAll.fits ∧ (∀ depth, (b.closeTo depth).fits) ∧
      (base.toNat + elements.length < UInt64.size →
        b.depth.toNat = base.toNat + elements.length ∧ base ≤ b.depth ∧
        ∀ depth, (b.closeTo depth).depth.toNat =
          max base.toNat (min b.depth.toNat depth.toNat)) := by
  obtain rfl := h.baseDepth
  -- The invariant holds of the builder and of what closing a block makes of it.
  have hpopped : openElements? [] b.closeBlock.tokens.toList = some b.closeBlock.blocks :=
    h.tracks.closeBlock
  rw [blocks_closeBlock] at hpopped
  refine ⟨b.blocks, h.tracks, rfl, rfl, hpopped, b.closeAll_eq, b.closeTo_eq, h.tracks.finish,
    h.holds.closeBlock.fits, h.holds.closeAll.fits, fun depth => (h.holds.closeTo depth).fits,
    fun hwords => ?_⟩
  have hdepth := toNat_depth hwords
  refine ⟨hdepth, ?_, toNat_depth_closeTo hwords⟩
  rw [UInt64.le_iff_toNat_le, hdepth]
  exact Nat.le_add_right ..

/-- Two blocks that are open, and a fork with a block that is left open put in between an attribute
and its value. -/
theorem exists_elements_inserted :
    let b := (({ indent := .tab, baseDepth := 1 } : Builder).openBlock "collation"
      [("type", "search".toList)]).openBlock "rules" []
    let b := b.insert 3 (b.fork.openBlock "base" [])
    Built .tab 1 b ∧
      ∃ elements, openElements? [] b.tokens.toList = some elements ∧
        b.blocks = elements ∧ elements = ["rules", "collation"] ∧
        openElements? [] b.finish = some [] ∧ b.depth.toNat = 3 := by
  intro outer b
  have hopened : Built .tab 1 (({ indent := .tab, baseDepth := 1 } : Builder).openBlock "collation"
      [("type", "search".toList)]) :=
    .openBlock (.new ..) _ _ (if_pos (by decide +kernel))
  have houter : Built .tab 1 outer := hopened.openBlock _ _ (if_pos (by decide +kernel))
  have hbase : Built .tab 3 (outer.fork.openBlock "base" []) :=
    outer.built_fork.openBlock _ _ (if_pos (by decide +kernel))
  have hbuilt : Built .tab 1 b := houter.insert 3 hbase
  obtain ⟨elements, hopen, hblocks, -, -, -, -, hfinish, -, -, -, hwords⟩ :=
    Built.exists_elements hbuilt
  have hlength : elements.length = 2 := congrArg List.length hblocks.symm
  obtain ⟨hdepth, -⟩ := hwords (by rw [hlength]; decide)
  exact ⟨hbuilt, elements, hopen, hblocks, hblocks.symm, hfinish, by rw [hdepth, hlength]; rfl⟩

/-- At a great depth no line can be indented with tabs. Where nothing is indented, a block at the
depth of the largest word can be opened, but the depth in it is zero and less than the depth that it
began at, and closing to that depth does not close it. -/
theorem openBlock_at_limits :
    (({ indent := .tab, baseDepth := 0x8000000000000000 } : Builder).openBlock "rules" []).held? =
        none ∧
      let base : UInt64 := 0xFFFFFFFFFFFFFFFF
      let b := ({ indent := {}, baseDepth := base } : Builder).openBlock "rules" []
      Built {} base b ∧ b.blocks = ["rules"] ∧ b.depth = 0 ∧
        b.depth.toNat ≠ base.toNat + b.blocks.length ∧ ¬base ≤ b.depth ∧
        (b.closeTo base).blocks = ["rules"] ∧
        (b.closeTo base).depth.toNat ≠ max base.toNat (min b.depth.toNat base.toNat) := by
  refine ⟨if_neg (by decide +kernel), ?_, by decide +kernel⟩
  exact (Built.new {} 0xFFFFFFFFFFFFFFFF).openBlock "rules" [] (if_pos (by decide +kernel))

end Builder
end CollationRules.Markup
