import CollationRules.Markup.Builder

/-! What the steps of a builder add. A step on a builder equals the builder with some pieces added,
and these depend on nothing but its arguments, the indentation and the depth. -/

namespace CollationRules.Markup

def indentation (indent : Spacing) (depth : UInt64) : List Token :=
  if depth = 0 || indent.isEmpty then [] else [.spacing (indent.times depth.toNat)]

def line (indent : Spacing) (depth : UInt64) (content : List Token) : List Token :=
  indentation indent depth ++ content ++ [.spacing .newline]

def attributePieces (attrs : List (Name × List Char)) : List Token :=
  attrs.flatMap fun attr => [.attributeName attr.1, .attributeValue attr.2]

/-- A text as pieces, of which there is none if it is empty. -/
def textPieces (text : List Char) : List Token := if text.isEmpty then [] else [.characters text]

def elementPieces (name : Name) (text : List Char) : List Token :=
  .openTag name :: textPieces text ++ [.closeTag name]

/-- A block around lines, each given by its content. -/
def block (indent : Spacing) (depth : UInt64) (name : Name) (lines : List (List Token)) :
    List Token :=
  line indent depth [.openTag name] ++ lines.flatMap (line indent (depth + 1)) ++
    line indent depth [.closeTag name]

/-- What stands between the tags of a block. -/
def blockContent (indent : Spacing) (depth : UInt64) (lines : List (List Token)) : List Token :=
  .spacing .newline :: lines.flatMap (line indent (depth + 1)) ++ indentation indent depth

theorem block_eq (indent : Spacing) (depth : UInt64) (name : Name) (lines : List (List Token)) :
    block indent depth name lines =
      line indent depth (.openTag name :: blockContent indent depth lines ++ [.closeTag name]) := by
  simp [block, blockContent, line]

/-! ### Selections -/

theorem filterMap_attributePieces {α : Type} (f : Token → Option α)
    (attrs : List (Name × List Char)) :
    (attributePieces attrs).filterMap f = attrs.flatMap fun attr =>
      (f (.attributeName attr.1)).toList ++ (f (.attributeValue attr.2)).toList := by
  rw [attributePieces, List.filterMap_flatMap]
  refine congrArg (attrs.flatMap ·) (funext fun attr => ?_)
  rw [List.filterMap_cons, List.filterMap_cons]
  cases f (.attributeName attr.1) <;> cases f (.attributeValue attr.2) <;> rfl

/-- A selection that takes nothing but names and values of attributes. -/
structure OfAttributes {α : Type} (f : Token → Option α) : Prop where
  openTag : ∀ name, f (.openTag name) = none
  closeTag : ∀ name, f (.closeTag name) = none
  closeEmpty : f .closeEmpty = none
  characters : ∀ text, f (.characters text) = none
  spacing : ∀ s, f (.spacing s) = none

namespace OfAttributes

variable {α : Type} {f : Token → Option α} (h : OfAttributes f)

include h

theorem filterMap_textPieces (text : List Char) : (textPieces text).filterMap f = [] := by
  unfold textPieces
  split
  · rfl
  · exact List.filterMap_cons_none (h.characters text)

theorem filterMap_elementPieces (name : Name) (text : List Char) :
    (elementPieces name text).filterMap f = [] := by
  rw [elementPieces, List.cons_append, List.filterMap_cons_none (h.openTag name),
    List.filterMap_append, h.filterMap_textPieces, List.filterMap_cons_none (h.closeTag name)]
  rfl

theorem filterMap_line (indent : Spacing) (depth : UInt64) (content : List Token) :
    (line indent depth content).filterMap f = content.filterMap f := by
  have hindentation : (indentation indent depth).filterMap f = [] := by
    unfold indentation
    split
    · rfl
    · exact List.filterMap_cons_none (h.spacing _)
  rw [line, List.filterMap_append, List.filterMap_append, hindentation,
    List.filterMap_cons_none (h.spacing _), List.filterMap_nil, List.append_nil, List.nil_append]

theorem filterMap_lines (indent : Spacing) (depth : UInt64) (lines : List (List Token)) :
    (lines.flatMap (line indent depth)).filterMap f = lines.flatMap (List.filterMap f) := by
  rw [List.filterMap_flatMap]
  exact congrArg (lines.flatMap ·) (funext (h.filterMap_line indent depth))

theorem filterMap_block (indent : Spacing) (depth : UInt64) (name : Name)
    (lines : List (List Token)) :
    (block indent depth name lines).filterMap f = lines.flatMap (List.filterMap f) := by
  rw [block, List.filterMap_append, List.filterMap_append, h.filterMap_line, h.filterMap_lines,
    h.filterMap_line, List.filterMap_cons_none (h.openTag name),
    List.filterMap_cons_none (h.closeTag name)]
  simp

end OfAttributes

/-! ### Builders -/

namespace Builder

def add (b : Builder) (pieces : List Token) : Builder :=
  { b with tokens := b.tokens ++ pieces.toArray }

@[simp] theorem tokens_add (b : Builder) (pieces : List Token) :
    (b.add pieces).tokens.toList = b.tokens.toList ++ pieces := by
  simp [add]

@[simp] theorem blocks_add (b : Builder) (pieces : List Token) :
    (b.add pieces).blocks = b.blocks := rfl

@[simp] theorem indent_add (b : Builder) (pieces : List Token) :
    (b.add pieces).indent = b.indent := rfl

@[simp] theorem baseDepth_add (b : Builder) (pieces : List Token) :
    (b.add pieces).baseDepth = b.baseDepth := rfl

@[simp] theorem depth_add (b : Builder) (pieces : List Token) :
    (b.add pieces).depth = b.depth := rfl

@[simp] theorem size_add (b : Builder) (pieces : List Token) :
    (b.add pieces).size = b.size + pieces.length := by
  simp [size, add]

@[simp] theorem add_nil (b : Builder) : b.add [] = b := by
  simp [add]

@[simp] theorem add_add (b : Builder) (first second : List Token) :
    (b.add first).add second = b.add (first ++ second) := by
  simp [add]

theorem push_eq (b : Builder) (token : Token) : b.push token = b.add [token] := by
  simp [push, add]

@[simp] theorem startLine_eq (b : Builder) :
    b.startLine = b.add (indentation b.indent b.depth) := by
  unfold startLine indentation
  split
  · rw [add_nil]
  · rw [push_eq]

@[simp] theorem endLine_eq (b : Builder) : b.endLine = b.add [.spacing .newline] := push_eq ..

@[simp] theorem openTag_eq (b : Builder) (name : Name) : b.openTag name = b.add [.openTag name] :=
  push_eq ..

@[simp] theorem closeTag_eq (b : Builder) (name : Name) :
    b.closeTag name = b.add [.closeTag name] :=
  push_eq ..

@[simp] theorem closeEmpty_eq (b : Builder) : b.closeEmpty = b.add [.closeEmpty] := push_eq ..

@[simp] theorem text_eq (b : Builder) (text : List Char) :
    b.text text = b.add (textPieces text) := by
  unfold Builder.text textPieces
  split
  · rw [add_nil]
  · rw [push_eq]

@[simp] theorem addAttribute_eq (b : Builder) (name : Name) (value : List Char) :
    b.addAttribute name value = b.add [.attributeName name, .attributeValue value] := by
  simp [addAttribute, push_eq]

@[simp] theorem addAttributes_eq (b : Builder) (attrs : List (Name × List Char)) :
    b.addAttributes attrs = b.add (attributePieces attrs) := by
  unfold addAttributes
  induction attrs generalizing b with
  | nil => simp [attributePieces]
  | cons attr attrs ih =>
    rw [List.foldl_cons, ih]
    simp [attributePieces]

@[simp] theorem element_eq (b : Builder) (name : Name) (text : List Char) :
    b.element name text = b.add (elementPieces name text) := by
  simp [element, elementPieces]

@[simp] theorem emptyLine_eq (b : Builder) (name : Name) (attrs : List (Name × List Char)) :
    b.emptyLine name attrs =
      b.add (line b.indent b.depth (.openTag name :: attributePieces attrs ++ [.closeEmpty])) := by
  simp [emptyLine, line]

@[simp] theorem textLine_eq (b : Builder) (name : Name) (text : List Char) :
    b.textLine name text = b.add (line b.indent b.depth (elementPieces name text)) := by
  simp [textLine, line]

theorem openBlock_eq (b : Builder) (name : Name) (attrs : List (Name × List Char)) :
    b.openBlock name attrs =
      { b.add (line b.indent b.depth (.openTag name :: attributePieces attrs)) with
        blocks := name :: b.blocks } := by
  simp [openBlock, line]

theorem indent_openBlock (b : Builder) (name : Name) (attrs : List (Name × List Char)) :
    (b.openBlock name attrs).indent = b.indent := by
  rw [openBlock_eq]
  rfl

theorem depth_openBlock (b : Builder) (name : Name) (attrs : List (Name × List Char)) :
    (b.openBlock name attrs).depth = b.depth + 1 := by
  rw [openBlock_eq]
  simp only [depth, baseDepth_add, List.length_cons]
  rw [UInt64.ofNat_add, UInt64.add_assoc]
  rfl

theorem closeBlock_eq {b : Builder} {name : Name} {outer : List Name}
    (h : b.blocks = name :: outer) :
    b.closeBlock =
      let inner : Builder := { b with blocks := outer }
      inner.add (line b.indent inner.depth [.closeTag name]) := by
  simp [closeBlock, h, line]

theorem blocks_openBlock (b : Builder) (name : Name) (attrs : List (Name × List Char)) :
    (b.openBlock name attrs).blocks = name :: b.blocks := by
  rw [openBlock_eq]

/-- Closing a block, if those opened in it are closed, leaves the blocks that were open before. -/
theorem closeBlock_add (b : Builder) (name : Name) (attrs : List (Name × List Char))
    (pieces : List Token) :
    ((b.openBlock name attrs).add pieces).closeBlock =
      b.add (line b.indent b.depth (.openTag name :: attributePieces attrs) ++ pieces ++
        line b.indent b.depth [.closeTag name]) := by
  have hblocks : ((b.openBlock name attrs).add pieces).blocks = name :: b.blocks :=
    b.blocks_openBlock name attrs
  rw [closeBlock_eq hblocks, openBlock_eq]
  simp [add, depth]

theorem closeBlock_openBlock (b : Builder) (name : Name) (lines : List (List Token)) :
    ((b.openBlock name []).add (lines.flatMap (line b.indent (b.depth + 1)))).closeBlock =
      b.add (block b.indent b.depth name lines) :=
  b.closeBlock_add name [] _

theorem closeDownTo_of_le {b : Builder} {depth : UInt64} (h : b.depth ≤ depth) (count : Nat) :
    b.closeDownTo depth count = b := by
  cases count with
  | zero => rfl
  | succ count => rw [closeDownTo, if_neg (UInt64.not_lt.2 h)]

/-- Closing to the depth at which a block was opened closes that block, unless its lines are at the
depth zero as the word has wrapped around. -/
theorem closeTo_openBlock (b : Builder) (h : b.depth < b.depth + 1) (name : Name)
    (attrs : List (Name × List Char)) (pieces : List Token) :
    ((b.openBlock name attrs).add pieces).closeTo b.depth =
      ((b.openBlock name attrs).add pieces).closeBlock := by
  have hclosed : ((b.openBlock name attrs).add pieces).closeBlock.depth = b.depth := by
    rw [closeBlock_add, depth_add]
  have hlength : ((b.openBlock name attrs).add pieces).blocks.length = b.blocks.length + 1 := by
    rw [blocks_add, blocks_openBlock, List.length_cons]
  rw [closeTo, hlength, closeDownTo, depth_add, depth_openBlock, if_pos h]
  exact closeDownTo_of_le (UInt64.le_of_eq hclosed) b.blocks.length

/-- A fork to which pieces are added, put in before what was added since the fork. -/
theorem insert_fork (b : Builder) (first second : List Token) :
    (b.add second).insert b.size ((b.add second).fork.add first) = b.add (first ++ second) := by
  have hclosed : ((b.add second).fork.add first).closeAll = (b.add second).fork.add first := rfl
  have hsize : b.size = b.tokens.toList.length := by simp [size]
  have htokens : ((b.add second).insert b.size ((b.add second).fork.add first)).tokens =
      (b.add (first ++ second)).tokens := by
    apply Array.toList_inj.1
    rw [tokens_insert, hclosed, hsize]
    simp [fork]
  exact congrArg (fun tokens => ({ b with tokens } : Builder)) htokens

end Builder
end CollationRules.Markup
