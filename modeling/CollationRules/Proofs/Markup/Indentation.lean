import CollationRules.Proofs.Markup.AttributeValues
import CollationRules.Proofs.Markup.LineText
import CollationRules.Proofs.Markup.OpenElements

/-! Markup built of elements on single lines and of blocks. Whatever the steps, if the lines can be
held in memory, the markup can be written as lines, one for each element and for each tag of a
block, and each line is indented once for every block around it and for the depth at which the
markup begins. -/

namespace CollationRules.Markup

/-- A step of building whole lines. -/
inductive LineStep
  | emptyLine (name : Name) (attrs : List (Name × List Char))
  | textLine (name : Name) (text : List Char)
  | openBlock (name : Name) (attrs : List (Name × List Char))
  | closeBlock
  | closeAll
  | closeTo (depth : UInt64)
deriving DecidableEq, Repr

/-- What stands on a line of its own: an element, or a tag of a block. -/
inductive Line
  | empty (name : Name) (attrs : List (Name × List Char))
  | text (name : Name) (text : List Char)
  | start (name : Name) (attrs : List (Name × List Char))
  | stop (name : Name)
deriving DecidableEq, Repr

/-- A line and the depth at which it stands. -/
structure PlacedLine where
  depth : Nat
  content : Line
deriving DecidableEq, Repr

namespace Line

def pieces : Line → List Token
  | empty name attrs => .openTag name :: attributePieces attrs ++ [.closeEmpty]
  | text name content => elementPieces name content
  | start name attrs => .openTag name :: attributePieces attrs
  | stop name => [.closeTag name]

/-- A line as text, without its indentation and its end. -/
def markup : Line → List Char
  | empty name attrs => '<' :: startText name attrs ++ ['/', '>']
  | text name content => elementText name content
  | start name attrs => '<' :: startText name attrs ++ ['>']
  | stop name => endTagText name

end Line

namespace PlacedLine

def pieces (indent : Spacing) (p : PlacedLine) : List Token :=
  line indent (UInt64.ofNat p.depth) p.content.pieces

/-- A line as text, without its end. -/
def text (indent : Spacing) (p : PlacedLine) : List Char :=
  (List.replicate p.depth indent.text).flatten ++ p.content.markup

/-- The depth of a line that follows, if no block is closed before it. -/
def innerDepth (p : PlacedLine) : Nat :=
  match p.content with
  | .start .. => p.depth + 1
  | _ => p.depth

end PlacedLine

/-- The lines that close some number of blocks, given the names of those that are open, the
innermost first. -/
def closingLines (base : Nat) : List Name → Nat → List PlacedLine
  | name :: outer, count + 1 => ⟨base + outer.length, .stop name⟩ :: closingLines base outer count
  | _, _ => []

namespace LineStep

/-- The number of blocks that a step closes. -/
def closed (base : Nat) (blocks : List Name) : LineStep → Nat
  | closeBlock => min blocks.length 1
  | closeAll => blocks.length
  | closeTo depth => min blocks.length (base + blocks.length - depth.toNat)
  | _ => 0

/-- The lines that a step adds where some blocks are open. -/
def lines (base : Nat) (blocks : List Name) : LineStep → List PlacedLine
  | emptyLine name attrs => [⟨base + blocks.length, .empty name attrs⟩]
  | textLine name text => [⟨base + blocks.length, .text name text⟩]
  | openBlock name attrs => [⟨base + blocks.length, .start name attrs⟩]
  | step => closingLines base blocks (step.closed base blocks)

/-- The open blocks after a step. -/
def blocksAfter (base : Nat) (blocks : List Name) : LineStep → List Name
  | openBlock name _ => name :: blocks
  | step => blocks.drop (step.closed base blocks)

end LineStep

/-- The lines that steps add where some blocks are open, and those that close what is open in the
end. -/
def linesOf (base : Nat) (blocks : List Name) : List LineStep → List PlacedLine
  | [] => closingLines base blocks blocks.length
  | step :: rest => step.lines base blocks ++ linesOf base (step.blocksAfter base blocks) rest

/-- Lines of which each stands as deep as it is nested in blocks, from a depth on. Both tags of a
block stand as deep as the block. -/
inductive Nests : Nat → List PlacedLine → Prop
  | nil (depth : Nat) : Nests depth []
  | empty {depth : Nat} (name : Name) (attrs : List (Name × List Char)) {rest : List PlacedLine} :
      Nests depth rest → Nests depth (⟨depth, .empty name attrs⟩ :: rest)
  | text {depth : Nat} (name : Name) (text : List Char) {rest : List PlacedLine} :
      Nests depth rest → Nests depth (⟨depth, .text name text⟩ :: rest)
  | block {depth : Nat} (name : Name) (attrs : List (Name × List Char))
      {content rest : List PlacedLine} : Nests (depth + 1) content → Nests depth rest →
      Nests depth (⟨depth, .start name attrs⟩ :: content ++ ⟨depth, .stop name⟩ :: rest)

theorem Nests.append {depth : Nat} {first second : List PlacedLine} (h1 : Nests depth first)
    (h2 : Nests depth second) : Nests depth (first ++ second) := by
  induction h1 with
  | nil => exact h2
  | empty name attrs _ ih => exact (ih h2).empty name attrs
  | text name text _ ih => exact (ih h2).text name text
  | block name attrs hcontent _ _ ih => simpa using hcontent.block name attrs (ih h2)

/-! ### Depths -/

/-- Lines behind which all of some open blocks have been closed: those of the innermost block up to
its closing tag, and then those of the next. -/
def ClosesBlocks (base : Nat) : List Name → List PlacedLine → Prop
  | [], lines => Nests base lines
  | name :: outer, lines =>
    ∃ content rest, Nests (base + outer.length + 1) content ∧
      lines = content ++ ⟨base + outer.length, .stop name⟩ :: rest ∧ ClosesBlocks base outer rest

namespace ClosesBlocks

variable {base : Nat} {blocks : List Name} {lines : List PlacedLine}

theorem prepend {first : List PlacedLine} (hfirst : Nests (base + blocks.length) first)
    (h : ClosesBlocks base blocks lines) : ClosesBlocks base blocks (first ++ lines) := by
  cases blocks with
  | nil => exact hfirst.append h
  | cons name outer =>
    obtain ⟨content, rest, hcontent, rfl, hrest⟩ := h
    exact ⟨first ++ content, rest, hfirst.append hcontent, (List.append_assoc ..).symm, hrest⟩

theorem openBlock {name : Name} (attrs : List (Name × List Char))
    (h : ClosesBlocks base (name :: blocks) lines) :
    ClosesBlocks base blocks (⟨base + blocks.length, .start name attrs⟩ :: lines) := by
  obtain ⟨content, rest, hcontent, rfl, hrest⟩ := h
  have hblock := hcontent.block name attrs (.nil _)
  simpa using hrest.prepend hblock

theorem closing (count : Nat) (h : ClosesBlocks base (blocks.drop count) lines) :
    ClosesBlocks base blocks (closingLines base blocks count ++ lines) := by
  induction count generalizing blocks with
  | zero => simpa [closingLines] using h
  | succ count ih =>
    cases blocks with
    | nil => exact h
    | cons name outer => exact ⟨[], _, .nil _, rfl, ih h⟩

/-- Each step nests its lines in the blocks that are open, whatever the steps behind it close. -/
theorem linesOf (blocks : List Name) (steps : List LineStep) :
    ClosesBlocks base blocks (linesOf base blocks steps) := by
  induction steps generalizing blocks with
  | nil =>
    have hnone : ClosesBlocks base (blocks.drop blocks.length) [] := by
      rw [List.drop_length]
      exact .nil base
    simpa [Markup.linesOf] using hnone.closing
  | cons step rest ih =>
    have hrest := ih (step.blocksAfter base blocks)
    cases step with
    | emptyLine name attrs => exact prepend ((Nests.nil _).empty name attrs) hrest
    | textLine name text => exact prepend ((Nests.nil _).text name text) hrest
    | openBlock name attrs => exact openBlock attrs hrest
    | closeBlock | closeAll | closeTo depth => exact hrest.closing _

end ClosesBlocks

theorem nests_linesOf (base : Nat) (steps : List LineStep) : Nests base (linesOf base [] steps) :=
  ClosesBlocks.linesOf [] steps

/-! ### Pieces -/

namespace Builder

def lineStep (b : Builder) : LineStep → Builder
  | .emptyLine name attrs => b.emptyLine name attrs
  | .textLine name text => b.textLine name text
  | .openBlock name attrs => b.openBlock name attrs
  | .closeBlock => b.popBlock.2
  | .closeAll => b.closeAll
  | .closeTo depth => b.closeTo depth

def runLines (b : Builder) (steps : List LineStep) : Builder := steps.foldl lineStep b

/-- The builder after steps, unless memory cannot hold what one of them builds. -/
def runLines? (b : Builder) (steps : List LineStep) : Option Builder :=
  steps.foldlM (fun b step => (b.lineStep step).held?) b

/-- A builder with some lines more, and other open blocks. -/
def addLines (b : Builder) (lines : List PlacedLine) (blocks : List Name) : Builder :=
  { b.add (lines.flatMap (PlacedLine.pieces b.indent)) with blocks }

theorem addLines_addLines (b : Builder) (first second : List PlacedLine) (blocks left : List Name) :
    (b.addLines first blocks).addLines second left = b.addLines (first ++ second) left := by
  simp [addLines, add]

theorem addLines_singleton (b : Builder) (content : Line) (blocks : List Name) :
    b.addLines [⟨b.baseDepth.toNat + b.blocks.length, content⟩] blocks =
      { b.add (line b.indent b.depth content.pieces) with blocks } := by
  simp [addLines, PlacedLine.pieces, depth, UInt64.ofNat_add]

theorem closeBlocks_eq (b : Builder) (count : Nat) :
    b.closeBlocks count =
      b.addLines (closingLines b.baseDepth.toNat b.blocks count) (b.blocks.drop count) := by
  induction count generalizing b with
  | zero => simp [closeBlocks, closingLines, addLines]
  | succ count ih =>
    rw [closeBlocks, ih]
    cases hblocks : b.blocks with
    | nil =>
      simp [closeBlock, hblocks, closingLines, addLines]
    | cons name outer =>
      have hclose : b.closeBlock =
          b.addLines [⟨b.baseDepth.toNat + outer.length, .stop name⟩] outer :=
        (closeBlock_eq hblocks).trans
          (({ b with blocks := outer } : Builder).addLines_singleton (.stop name) outer).symm
      rw [hclose, addLines_addLines]
      rfl

theorem closeBlock_eq_closeBlocks (b : Builder) :
    b.closeBlock = b.closeBlocks (min b.blocks.length 1) := by
  cases hblocks : b.blocks with
  | nil => simp [closeBlock, hblocks, closeBlocks]
  | cons name outer => simp [closeBlocks]

/-- A step adds its lines, if depths have not wrapped around. -/
theorem lineStep_eq {b : Builder} (h : b.baseDepth.toNat + b.blocks.length < UInt64.size)
    (step : LineStep) :
    b.lineStep step =
      b.addLines (step.lines b.baseDepth.toNat b.blocks)
        (step.blocksAfter b.baseDepth.toNat b.blocks) := by
  cases step with
  | emptyLine name attrs =>
    exact (b.emptyLine_eq name attrs).trans (b.addLines_singleton (.empty name attrs) b.blocks).symm
  | textLine name text =>
    exact (b.textLine_eq name text).trans (b.addLines_singleton (.text name text) b.blocks).symm
  | openBlock name attrs =>
    exact (b.openBlock_eq name attrs).trans
      (b.addLines_singleton (.start name attrs) (name :: b.blocks)).symm
  | closeBlock => exact b.closeBlock_eq_closeBlocks.trans (b.closeBlocks_eq _)
  | closeAll => exact b.closeBlocks_eq b.blocks.length
  | closeTo depth =>
    show b.closeTo depth = _
    rw [closeTo_eq_closeBlocks h, toNat_depth h]
    exact b.closeBlocks_eq _

/-- What steps build are their lines, if depths do not wrap around. -/
theorem finish_runLines {b : Builder} {steps : List LineStep}
    (h : b.baseDepth.toNat + b.blocks.length < UInt64.size)
    (hwords : ∀ p ∈ linesOf b.baseDepth.toNat b.blocks steps, p.innerDepth < UInt64.size) :
    (b.runLines steps).finish =
      b.tokens.toList ++
        (linesOf b.baseDepth.toNat b.blocks steps).flatMap (PlacedLine.pieces b.indent) := by
  induction steps generalizing b with
  | nil =>
    show b.closeAll.tokens.toList = _
    rw [closeAll, closeBlocks_eq]
    simp [addLines, linesOf]
  | cons step rest ih =>
    obtain ⟨hlines, hrest⟩ := List.forall_mem_append.1 hwords
    have hnext : b.baseDepth.toNat + (step.blocksAfter b.baseDepth.toNat b.blocks).length <
        UInt64.size := by
      cases step with
      | openBlock name attrs => exact hlines _ (List.mem_singleton_self _)
      | _ =>
        simp only [LineStep.blocksAfter, List.length_drop]
        omega
    have hstep := lineStep_eq h step
    show ((b.lineStep step).runLines rest).finish = _
    rw [hstep, ih hnext hrest]
    simp [addLines, linesOf]

/-! ### Memory -/

namespace Holds

variable {b : Builder}

theorem lineStep (h : b.Holds) {step : LineStep} (hfits : (b.lineStep step).fits = true) :
    (b.lineStep step).Holds := by
  cases step with
  | emptyLine name attrs =>
    simp only [Builder.lineStep, emptyLine_eq] at hfits ⊢
    exact h.add hfits
  | textLine name text =>
    simp only [Builder.lineStep, textLine_eq] at hfits ⊢
    exact h.add hfits
  | openBlock name attrs => exact h.openBlock hfits
  | closeBlock => exact h.closeBlock
  | closeAll => exact h.closeAll
  | closeTo depth => exact h.closeTo depth

/-- A run goes on as long as memory holds what it builds, and so do the blocks that it leaves
open. -/
theorem runLines? (h : b.Holds) {steps : List LineStep} {built : Builder}
    (hrun : b.runLines? steps = some built) : b.runLines steps = built ∧ built.Holds := by
  induction steps generalizing b with
  | nil =>
    cases hrun
    exact ⟨rfl, h⟩
  | cons step rest ih =>
    rw [Builder.runLines?, List.foldlM_cons] at hrun
    obtain ⟨next, hstep, hrest⟩ := Option.bind_eq_some_iff.1 hrun
    obtain ⟨hfits, rfl⟩ := held?_eq_some_iff.1 hstep
    exact ih (h.lineStep hfits) hrest

end Holds

theorem fits_closeBlocks {b : Builder} {count : Nat} (h : (b.closeBlocks count).fits = true) :
    b.fits = true := by
  rw [closeBlocks_eq] at h
  exact (fits_add.1 h).1

theorem fits_of_lineStep {b : Builder} {step : LineStep} (h : (b.lineStep step).fits = true) :
    b.fits = true := by
  cases step with
  | emptyLine name attrs =>
    simp only [lineStep, emptyLine_eq] at h
    exact (fits_add.1 h).1
  | textLine name text =>
    simp only [lineStep, textLine_eq] at h
    exact (fits_add.1 h).1
  | openBlock name attrs =>
    simp only [lineStep, openBlock_eq] at h
    exact (fits_add.1 h).1
  | closeBlock =>
    simp only [lineStep, popBlock, closeBlock_eq_closeBlocks] at h
    exact fits_closeBlocks h
  | closeAll => exact fits_closeBlocks h
  | closeTo depth =>
    obtain ⟨count, -, heq⟩ := b.exists_closeTo_eq depth
    simp only [lineStep, heq] at h
    exact fits_closeBlocks h

theorem fits_of_runLines {b : Builder} {steps : List LineStep}
    (h : (b.runLines steps).fits = true) : b.fits = true := by
  induction steps generalizing b with
  | nil => exact h
  | cons step rest ih => exact fits_of_lineStep (ih h)

/-- A run that builds what memory holds does not stop on the way there. -/
theorem runLines?_of_fits {b : Builder} {steps : List LineStep}
    (h : (b.runLines steps).fits = true) : b.runLines? steps = some (b.runLines steps) := by
  induction steps generalizing b with
  | nil => rfl
  | cons step rest ih =>
    have hstep : (b.lineStep step).held? = some (b.lineStep step) :=
      held?_eq_some_iff.2 ⟨fits_of_runLines h, rfl⟩
    rw [runLines?, List.foldlM_cons, hstep]
    exact ih h

theorem runLines?_eq_none_iff {b : Builder} (h : b.Holds) {steps : List LineStep} :
    b.runLines? steps = none ↔ ¬(b.runLines steps).closeAll.fits = true := by
  constructor
  · intro hnone hfits
    rw [runLines?_of_fits (fits_closeBlocks hfits)] at hnone
    cases hnone
  · intro hfits
    rw [Option.eq_none_iff_forall_ne_some]
    rintro built hrun
    obtain ⟨rfl, hholds⟩ := h.runLines? hrun
    exact hfits hholds.closeAll.fits

end Builder

/-! ### Text -/

theorem write_line (indent : Spacing) (depth : UInt64) {content : List Token} {state : WriterState}
    (h : (write .outside content).result = .ok state) (hstate : state ≠ .afterName)
    (rest : List Token) :
    (write .outside (line indent depth content ++ rest)).result = (write .outside rest).result := by
  rw [line, List.append_assoc, List.append_assoc,
    write_append_of_ok (WellNested.indentation indent depth).write_outside, write_append_of_ok h]
  exact write_cons (.spacing .newline) (content?_isSome hstate _)

/-- The content of a line is written outside of tags, up to the end of a tag that the end of the
line gives it. -/
theorem Line.write_pieces (content : Line) :
    ∃ state, state ≠ .afterName ∧ (write .outside content.pieces).result = .ok state ∧
      (write .outside content.pieces).text ++ (if state = .inTag then ['>'] else []) =
        content.markup := by
  cases content with
  | empty name attrs =>
    refine ⟨.outside, by decide, (WellNested.empty name attrs .nil).write_outside, ?_⟩
    rw [pieces, text_empty]
    simp [markup, write]
  | text name content =>
    have htext := text_elementPieces name content []
    rw [List.append_nil] at htext
    refine ⟨.outside, by decide, (WellNested.elementPieces name content).write_outside, ?_⟩
    rw [pieces, htext]
    simp [markup, write]
  | start name attrs =>
    refine ⟨.inTag, by decide, write_startTag (by decide) name attrs, ?_⟩
    rw [pieces, text_startTag]
    rfl
  | stop name =>
    refine ⟨.outside, by decide, rfl, ?_⟩
    simp [pieces, markup, endTagText, write, Token.write?, WriterState.content?]

theorem PlacedLine.depth_le (p : PlacedLine) : p.depth ≤ p.innerDepth := by
  unfold innerDepth
  split
  · exact Nat.le_succ _
  · exact Nat.le_refl _

theorem PlacedLine.toNat_depth {p : PlacedLine} (h : p.innerDepth < UInt64.size) :
    (UInt64.ofNat p.depth).toNat = p.depth :=
  UInt64.toNat_ofNat_of_lt' (Nat.lt_of_le_of_lt p.depth_le h)

theorem write_placedLines (indent : Spacing) {lines : List PlacedLine}
    (h : ∀ p ∈ lines, p.innerDepth < UInt64.size) :
    (write .outside (lines.flatMap (PlacedLine.pieces indent))).result = .ok .outside ∧
      (write .outside (lines.flatMap (PlacedLine.pieces indent))).text =
        lines.flatMap fun p => p.text indent ++ ['\n'] := by
  induction lines with
  | nil => exact ⟨rfl, rfl⟩
  | cons p rest ih =>
    obtain ⟨hp, hrest⟩ := List.forall_mem_cons.1 h
    obtain ⟨state, hstate, hresult, hmarkup⟩ := p.content.write_pieces
    constructor
    · exact (write_line indent _ hresult hstate _).trans (ih hrest).1
    · rw [List.flatMap_cons, PlacedLine.pieces, text_line indent _ hresult hstate, hmarkup,
        (ih hrest).2, lineText, PlacedLine.toNat_depth hp]
      rfl

theorem Line.all_fits_pieces (content : Line) : content.pieces.all Token.fits = true := by
  cases content with
  | empty name attrs => simp [pieces, Token.fits, all_fits_attributePieces]
  | text name text => exact all_fits_elementPieces name text
  | start name attrs => exact all_fits_startTag name attrs
  | stop name => rfl

theorem all_fits_placedLines {indent : Spacing} {lines : List PlacedLine}
    (h : ∀ p ∈ lines, p.innerDepth < UInt64.size) :
    (lines.flatMap (PlacedLine.pieces indent)).all Token.fits = true ↔
      ∀ p ∈ lines, indent.size * p.depth ≤ maxTextSize := by
  rw [List.all_flatMap, List.all_eq_true]
  refine forall₂_congr fun p hp => ?_
  rw [PlacedLine.pieces, all_fits_line p.content.all_fits_pieces, PlacedLine.toNat_depth (h p hp)]

/-! ### Lines of text -/

/-- That what a step is given for names and texts stays on one line. Values of attributes do so in
any case. -/
def LineStep.IsOnOneLine : LineStep → Prop
  | emptyLine name attrs | openBlock name attrs =>
    '\n' ∉ name.toList ∧ ∀ attr ∈ attrs, '\n' ∉ attr.1.toList
  | textLine name text => '\n' ∉ name.toList ∧ '\n' ∉ text
  | _ => True

theorem lineFeed_notMem_escape {text : List Char} (h : '\n' ∉ text) : '\n' ∉ escape text := by
  intro hmem
  obtain ⟨c, hc, hpiece⟩ := List.mem_flatMap.1 hmem
  rcases escapeChar_cases c with hreference | ⟨helement, heq⟩ | ⟨-, -, heq⟩
  · obtain ⟨-, -, -, -, hprinted⟩ := mem_reference (mem_attributeReferences hreference)
    exact not_isC0_of_all hprinted hpiece rfl
  · obtain ⟨-, -, hprinted⟩ := mem_codePointElement_of_isElementary helement
    rw [heq] at hpiece
    exact not_isC0_of_all hprinted hpiece rfl
  · rw [heq, List.mem_singleton] at hpiece
    exact h (hpiece ▸ hc)

theorem lineFeed_notMem_escapeAttribute (value : List Char) : '\n' ∉ escapeAttribute value := by
  obtain ⟨-, -, -, hprinted⟩ := escapeAttribute_safe value
  exact fun hmem => not_isC0_of_all hprinted hmem rfl

theorem lineFeed_notMem_startText {name : Name} {attrs : List (Name × List Char)}
    (hname : '\n' ∉ name.toList) (hattrs : ∀ attr ∈ attrs, '\n' ∉ attr.1.toList) :
    '\n' ∉ startText name attrs := by
  have hattr : ∀ attr ∈ attrs, '\n' ∉ attributeText attr := fun attr hmem => by
    simp [attributeText, hattrs attr hmem, lineFeed_notMem_escapeAttribute]
  simp only [startText, List.mem_append, List.mem_flatMap, not_or, not_exists, not_and]
  exact ⟨hname, hattr⟩

theorem exists_of_mem_closingLines {base count : Nat} {blocks : List Name} {p : PlacedLine}
    (h : p ∈ closingLines base blocks count) : ∃ name ∈ blocks, p.content = .stop name := by
  induction blocks, count using closingLines.induct with
  | case1 name outer count ih =>
    rcases List.mem_cons.1 h with rfl | h
    · exact ⟨name, List.mem_cons_self, rfl⟩
    · obtain ⟨other, hother, hp⟩ := ih h
      exact ⟨other, List.mem_cons_of_mem name hother, hp⟩
  | case2 blocks count hnone =>
    rw [closingLines] at h
    · cases h
    · exact hnone

section

variable (base : Nat) {blocks : List Name} (hblocks : ∀ name ∈ blocks, '\n' ∉ name.toList)

include hblocks

theorem lineFeed_notMem_closingLines (count : Nat) :
    ∀ p ∈ closingLines base blocks count, '\n' ∉ p.content.markup := by
  intro p hp
  obtain ⟨name, hname, hcontent⟩ := exists_of_mem_closingLines hp
  simp [hcontent, Line.markup, endTagText, hblocks name hname]

theorem LineStep.lineFeed_notMem {step : LineStep} (hstep : step.IsOnOneLine) :
    (∀ p ∈ step.lines base blocks, '\n' ∉ p.content.markup) ∧
      ∀ name ∈ step.blocksAfter base blocks, '\n' ∉ name.toList := by
  have hdrop (count : Nat) : ∀ name ∈ blocks.drop count, '\n' ∉ name.toList :=
    fun name hname => hblocks name (List.mem_of_mem_drop hname)
  cases step with
  | emptyLine name attrs =>
    have hstart := lineFeed_notMem_startText hstep.1 hstep.2
    exact ⟨by simp [lines, Line.markup, hstart], hdrop 0⟩
  | textLine name text =>
    have htext := lineFeed_notMem_escape hstep.2
    refine ⟨?_, hdrop 0⟩
    simp [lines, Line.markup, elementText, wrapText, tagText, endTagText, hstep.1, htext]
  | openBlock name attrs =>
    have hstart := lineFeed_notMem_startText hstep.1 hstep.2
    exact ⟨by simp [lines, Line.markup, hstart], List.forall_mem_cons.2 ⟨hstep.1, hblocks⟩⟩
  | closeBlock | closeAll | closeTo depth =>
    exact ⟨lineFeed_notMem_closingLines base hblocks _, hdrop _⟩

theorem lineFeed_notMem_linesOf {steps : List LineStep}
    (hsteps : ∀ step ∈ steps, step.IsOnOneLine) :
    ∀ p ∈ linesOf base blocks steps, '\n' ∉ p.content.markup := by
  induction steps generalizing blocks with
  | nil => exact lineFeed_notMem_closingLines base hblocks _
  | cons step rest ih =>
    obtain ⟨hstep, hrest⟩ := List.forall_mem_cons.1 hsteps
    obtain ⟨hlines, hleft⟩ := LineStep.lineFeed_notMem base hblocks hstep
    exact List.forall_mem_append.2 ⟨hlines, ih hleft hrest⟩

end

end CollationRules.Markup
