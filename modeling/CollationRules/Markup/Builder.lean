import CollationRules.Markup.Writer

/-! Building markup line by line. An element is either a block, whose tags stand on lines of their
own with its content indented one step further, or inline, on a single line. The builder keeps the
blocks that are open, and closes them. The number of indentations of a line is a machine word. A
line that is indented too far for memory cannot be built: what builds it stops. -/

namespace CollationRules.Markup

/-- Markup being built. -/
structure Builder where
  indent : Spacing
  baseDepth : UInt64
  tokens : Array Token := #[]
  /-- The names of the open blocks, the innermost first. -/
  blocks : List Name := []
deriving Repr

namespace Builder

/-- The number of indentations of a line. It wraps around past the largest word. -/
def depth (b : Builder) : UInt64 := b.baseDepth + UInt64.ofNat b.blocks.length

/-- The number of pieces built. -/
def size (b : Builder) : Nat := b.tokens.size

/-- Whether nothing has been built. -/
def isEmpty (b : Builder) : Bool := b.tokens.isEmpty

/-- An empty builder for lines at the same depth. -/
def fork (b : Builder) : Builder := { indent := b.indent, baseDepth := b.depth }

@[simp] theorem indent_fork (b : Builder) : b.fork.indent = b.indent := rfl

@[simp] theorem depth_fork (b : Builder) : b.fork.depth = b.depth := UInt64.add_zero b.depth

/-- Add one piece. -/
def push (b : Builder) (token : Token) : Builder := { b with tokens := b.tokens.push token }

/-- Begin a line with its indentation. -/
def startLine (b : Builder) : Builder :=
  if b.depth = 0 || b.indent.isEmpty then b
  else b.push (.spacing (b.indent.times b.depth.toNat))

/-- End a line. -/
def endLine (b : Builder) : Builder := b.push (.spacing .newline)

/-- Open a tag. -/
def openTag (b : Builder) (name : Name) : Builder := b.push (.openTag name)

/-- Add an attribute to the tag just opened. -/
def addAttribute (b : Builder) (name : Name) (value : List Char) : Builder :=
  (b.push (.attributeName name)).push (.attributeValue value)

/-- Add attributes to the tag just opened. -/
def addAttributes (b : Builder) (attrs : List (Name × List Char)) : Builder :=
  attrs.foldl (fun b (name, value) => b.addAttribute name value) b

/-- Add a text, unless it is empty. -/
def text (b : Builder) (text : List Char) : Builder :=
  if text.isEmpty then b else b.push (.characters text)

/-- Close an element. -/
def closeTag (b : Builder) (name : Name) : Builder := b.push (.closeTag name)

/-- End the tag just opened, its element being empty. -/
def closeEmpty (b : Builder) : Builder := b.push .closeEmpty

/-- An element that holds a text. -/
def element (b : Builder) (name : Name) (text : List Char) : Builder :=
  ((b.openTag name).text text).closeTag name

/-- A line with an empty element. -/
def emptyLine (b : Builder) (name : Name) (attrs : List (Name × List Char)) : Builder :=
  ((b.startLine.openTag name).addAttributes attrs).closeEmpty.endLine

/-- A line with an element that holds a text. -/
def textLine (b : Builder) (name : Name) (text : List Char) : Builder :=
  (b.startLine.element name text).endLine

/-- Open a block on a line of its own. -/
def openBlock (b : Builder) (name : Name) (attrs : List (Name × List Char)) : Builder :=
  let line := ((b.startLine.openTag name).addAttributes attrs).endLine
  { line with blocks := name :: line.blocks }

/-- Close the innermost block, if one is open, on a line of its own. -/
def closeBlock (b : Builder) : Builder :=
  match b.blocks with
  | [] => b
  | name :: outer => ({ b with blocks := outer }.startLine.closeTag name).endLine

/-- Close the innermost block and name it, if one is open. -/
def popBlock (b : Builder) : Option Name × Builder := (b.blocks.head?, b.closeBlock)

/-- Close some number of blocks, the innermost first. -/
def closeBlocks (b : Builder) : Nat → Builder
  | 0 => b
  | count + 1 => b.closeBlock.closeBlocks count

/-- Close every block. -/
def closeAll (b : Builder) : Builder := b.closeBlocks b.blocks.length

/-- Close at most some number of blocks, the innermost first, as long as lines are indented further
than to a depth. -/
def closeDownTo (b : Builder) (depth : UInt64) : Nat → Builder
  | 0 => b
  | count + 1 => if depth < b.depth then b.closeBlock.closeDownTo depth count else b

/-- Close blocks until lines are not indented further than to a depth, or no block is open. -/
def closeTo (b : Builder) (depth : UInt64) : Builder := b.closeDownTo depth b.blocks.length

/-- All that another builder has built, its blocks closed, put in before the piece at an index, or
at the end where there is no such piece. -/
def insert (b : Builder) (index : Nat) (other : Builder) : Builder :=
  { b with tokens :=
      b.tokens.take index ++ other.closeAll.tokens ++ b.tokens.drop index }

theorem tokens_insert (b other : Builder) (index : Nat) :
    (b.insert index other).tokens.toList =
      b.tokens.toList.take index ++ other.closeAll.tokens.toList ++ b.tokens.toList.drop index := by
  simp [insert, List.take_of_length_le]

/-- All that has been built, with every block closed. -/
def finish (b : Builder) : List Token := b.closeAll.tokens.toList

/-- The markup built, as text. -/
def render (b : Builder) : Except WriteError (List Char) :=
  let written := write .outside b.finish
  written.result.map fun _ => written.text

/-- Whether memory can hold all that has been built. -/
def fits (b : Builder) : Bool := b.tokens.all Token.fits

/-- A builder, unless what has been built is too long for memory. As nothing that is built is taken
away again, it is enough to look at what there is in the end. -/
def held? (b : Builder) : Option Builder := if b.fits then some b else none

/-- The markup built, as text, unless the tags that close the open blocks are too long for
memory. -/
def render? (b : Builder) : Option (Except WriteError (List Char)) :=
  if b.closeAll.fits then some b.render else none

end Builder
end CollationRules.Markup
