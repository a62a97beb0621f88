import CollationRules.Proofs.Markup.Lines

/-! Building on a fork. Steps that close no block but their own build on a fork of a builder what
they build in place, so that what a fork holds can be put in where it could have been taken. -/

namespace CollationRules.Markup

/-- A step of building markup. -/
inductive Step
  | startLine
  | endLine
  | openTag (name : Name)
  | addAttribute (name : Name) (value : List Char)
  | text (text : List Char)
  | closeTag (name : Name)
  | closeEmpty
  | emptyLine (name : Name) (attrs : List (Name × List Char))
  | textLine (name : Name) (text : List Char)
  | openBlock (name : Name) (attrs : List (Name × List Char))
  | closeBlock
deriving DecidableEq, Repr

/-- The open blocks after a step, the innermost first, unless it closes a block where none is
open. -/
def Step.blocks? (blocks : List Name) : Step → Option (List Name)
  | openBlock name _ => some (name :: blocks)
  | closeBlock => blocks.tail?
  | _ => some blocks

/-- The blocks that steps leave open of those that they open themselves, unless they close another
one. -/
def blocksLeft? (steps : List Step) : Option (List Name) := steps.foldlM Step.blocks? []

namespace Builder

def step (b : Builder) : Step → Builder
  | .startLine => b.startLine
  | .endLine => b.endLine
  | .openTag name => b.openTag name
  | .addAttribute name value => b.addAttribute name value
  | .text text => b.text text
  | .closeTag name => b.closeTag name
  | .closeEmpty => b.closeEmpty
  | .emptyLine name attrs => b.emptyLine name attrs
  | .textLine name text => b.textLine name text
  | .openBlock name attrs => b.openBlock name attrs
  | .closeBlock => b.closeBlock

def run (b : Builder) (steps : List Step) : Builder := steps.foldl step b

/-- What another builder has built, and the blocks that it has open, added to a builder. -/
def extend (b other : Builder) : Builder :=
  { b with tokens := b.tokens ++ other.tokens, blocks := other.blocks ++ b.blocks }

/-- A builder that lays out lines as they are laid out in the innermost block of another one. -/
structure Continues (other b : Builder) : Prop where
  indent : other.indent = b.indent
  baseDepth : other.baseDepth = b.depth

theorem continues_fork (b : Builder) : b.fork.Continues b := ⟨rfl, rfl⟩

@[simp] theorem indent_extend (b other : Builder) : (b.extend other).indent = b.indent := rfl

theorem extend_fork (b : Builder) : b.extend b.fork = b := by
  simp [extend, fork]

theorem extend_add (b other : Builder) (pieces : List Token) :
    (b.extend other).add pieces = b.extend (other.add pieces) := by
  simp [extend, add]

namespace Continues

variable {b other : Builder}

theorem depth_extend (h : other.Continues b) : (b.extend other).depth = other.depth := by
  simp only [depth, extend, h.baseDepth, List.length_append, UInt64.ofNat_add]
  rw [UInt64.add_assoc, UInt64.add_comm (UInt64.ofNat b.blocks.length)]

theorem fork_extend (h : other.Continues b) (hclosed : other.blocks = []) :
    (b.extend other).fork = b.fork := by
  have hdepth : (b.extend other).depth = b.depth := by
    rw [h.depth_extend, ← h.baseDepth, depth, hclosed]
    exact UInt64.add_zero other.baseDepth
  rw [fork, fork, hdepth]
  rfl

theorem openBlock_extend (h : other.Continues b) (name : Name) (attrs : List (Name × List Char)) :
    (b.extend other).openBlock name attrs = b.extend (other.openBlock name attrs) := by
  rw [openBlock_eq, openBlock_eq, extend_add, h.depth_extend, h.indent]
  rfl

theorem closeBlock_extend (h : other.Continues b) {name : Name} {outer : List Name}
    (hblocks : other.blocks = name :: outer) :
    (b.extend other).closeBlock = b.extend other.closeBlock := by
  have hinner : ({ other with blocks := outer } : Builder).Continues b := ⟨h.indent, h.baseDepth⟩
  have hextend : (b.extend other).blocks = name :: (outer ++ b.blocks) := by
    simp [extend, hblocks]
  rw [closeBlock_eq hblocks, closeBlock_eq hextend, ← extend_add, ← hinner.depth_extend, h.indent]
  rfl

/-- A step is the same on a fork and in place, if it closes no block but one of the fork's own. -/
theorem step (h : other.Continues b) {s : Step} {blocks : List Name}
    (hs : s.blocks? other.blocks = some blocks) :
    (b.extend other).step s = b.extend (other.step s) ∧ (other.step s).blocks = blocks ∧
      (other.step s).Continues b := by
  cases s with
  | openBlock name attrs =>
    cases hs
    refine ⟨h.openBlock_extend name attrs, ?_, ?_, ?_⟩
    all_goals simp only [Builder.step, openBlock_eq]
    · exact h.indent
    · exact h.baseDepth
  | closeBlock =>
    cases hblocks : other.blocks with
    | nil => simp [Step.blocks?, hblocks] at hs
    | cons name outer =>
      rw [hblocks] at hs
      cases hs
      refine ⟨h.closeBlock_extend hblocks, ?_, ?_, ?_⟩
      all_goals simp only [Builder.step, closeBlock_eq hblocks]
      · rfl
      · exact h.indent
      · exact h.baseDepth
  | _ =>
    -- what is added depends on the indentation and the depth alone
    cases hs
    refine ⟨?_, ?_, ?_, ?_⟩
    all_goals simp [Builder.step, extend_add, h.depth_extend, h.indent, h.baseDepth]

/-- Steps are the same on a fork and in place, if they close no blocks but the fork's own. -/
theorem run (h : other.Continues b) {steps : List Step} {blocks : List Name}
    (hsteps : steps.foldlM Step.blocks? other.blocks = some blocks) :
    (b.extend other).run steps = b.extend (other.run steps) ∧ (other.run steps).blocks = blocks ∧
      (other.run steps).Continues b := by
  induction steps generalizing other with
  | nil =>
    cases hsteps
    exact ⟨rfl, rfl, h⟩
  | cons s rest ih =>
    rw [List.foldlM_cons] at hsteps
    obtain ⟨next, hs, hrest⟩ := Option.bind_eq_some_iff.1 hsteps
    obtain ⟨hstep, rfl, hnext⟩ := h.step hs
    obtain ⟨hrun, hblocks, hlast⟩ := ih hnext hrest
    refine ⟨?_, hblocks, hlast⟩
    show ((b.extend other).step s).run rest = _
    rw [hstep, hrun]
    rfl

/-- The blocks that a fork has open are closed in place as they are closed on the fork. -/
theorem closeBlocks (h : other.Continues b) :
    (b.extend other).closeBlocks other.blocks.length = b.extend other.closeAll ∧
      other.closeAll.blocks = [] ∧ other.closeAll.Continues b := by
  unfold closeAll
  generalize hblocks : other.blocks = blocks
  induction blocks generalizing other with
  | nil => exact ⟨rfl, hblocks, h⟩
  | cons name outer ih =>
    have hs : Step.closeBlock.blocks? other.blocks = some outer := by
      rw [hblocks]
      rfl
    obtain ⟨hstep, hnext, hcontinues⟩ := h.step hs
    obtain ⟨hclose, hclosed⟩ := ih hcontinues hnext
    refine ⟨?_, hclosed⟩
    show ((b.extend other).step .closeBlock).closeBlocks outer.length = _
    rw [hstep, hclose]
    rfl

end Continues

/-- What a fork holds, put in before what has been added since. -/
theorem insert_extend {b added other : Builder} (hclosed : other.closeAll.blocks = []) :
    (b.extend added).insert b.size other = (b.extend other.closeAll).extend added := by
  have hsize : b.size = b.tokens.toList.length := by simp [size]
  have htokens : ((b.extend added).insert b.size other).tokens =
      ((b.extend other.closeAll).extend added).tokens := by
    apply Array.toList_inj.1
    rw [tokens_insert, hsize]
    simp [extend]
  have hblocks : ((b.extend added).insert b.size other).blocks =
      ((b.extend other.closeAll).extend added).blocks := by
    simp [extend, insert, hclosed]
  rw [insert] at htokens ⊢
  exact congr (congrArg (fun tokens blocks => ({ b with tokens, blocks } : Builder)) htokens)
    hblocks

/-- Some steps leave no block of theirs open and close no other, and further steps on a fork close
no other block either. What the fork holds, put in before what the first steps built, makes the
builder that there is if the further steps come first and the blocks that they leave open are
closed. -/
theorem insert_run_fork (b : Builder) {first second : List Step} {left : List Name}
    (hfirst : blocksLeft? first = some []) (hsecond : blocksLeft? second = some left) :
    (b.run first).insert b.size ((b.run first).fork.run second) =
      ((b.run second).closeBlocks left.length).run first := by
  obtain ⟨hrunFirst, hnoneFirst, hcontinuesFirst⟩ := b.continues_fork.run hfirst
  obtain ⟨hrunSecond, hleft, hcontinuesSecond⟩ := b.continues_fork.run hsecond
  obtain ⟨hclose, hclosed, hcontinuesClosed⟩ := hcontinuesSecond.closeBlocks
  rw [extend_fork] at hrunFirst hrunSecond
  -- with the further steps in place, the builder still forks as it did without them
  let spliced := b.extend (b.fork.run second).closeAll
  have hfork : spliced.fork = b.fork := hcontinuesClosed.fork_extend hclosed
  have hrun : spliced.run first = spliced.extend (spliced.fork.run first) := by
    have hinPlace := (spliced.continues_fork.run hfirst).1
    rwa [extend_fork] at hinPlace
  calc (b.run first).insert b.size ((b.run first).fork.run second)
      = (b.extend (b.fork.run first)).insert b.size (b.fork.run second) := by
        rw [hrunFirst, hcontinuesFirst.fork_extend hnoneFirst]
    _ = spliced.extend (b.fork.run first) := insert_extend hclosed
    _ = spliced.run first := by rw [hrun, hfork]
    _ = ((b.run second).closeBlocks left.length).run first := by
        rw [hrunSecond, ← hleft, hclose]

/-- A line and a block that is left open, in front of a block of rules, below a block that is open
already. -/
theorem insert_run_fork_base :
    let b := (({ indent := .tab, baseDepth := 1 } : Builder).openBlock "collation" [])
    let first : List Step := [.openBlock "rules" [], .textLine "reset" ['a'], .closeBlock]
    let second : List Step :=
      [.emptyLine "settings" [("numeric", ['o', 'n'])], .openBlock "base" [], .startLine,
        .openTag "alias", .addAttribute "source" ['d', 'e'], .closeEmpty, .endLine]
    blocksLeft? first = some [] ∧ blocksLeft? second = some ["base"] ∧
      (b.run first).insert b.size ((b.run first).fork.run second) =
        ((b.run second).closeBlocks ["base"].length).run first := by
  intro b first second
  have hfirst : blocksLeft? first = some [] := rfl
  have hsecond : blocksLeft? second = some ["base"] := rfl
  exact ⟨hfirst, hsecond, insert_run_fork b hfirst hsecond⟩

end Builder
end CollationRules.Markup
