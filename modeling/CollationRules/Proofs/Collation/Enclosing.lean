import CollationRules.Collation.Element
import CollationRules.Proofs.Collation.Layouts

/-! Collations as pieces of markup. A collation adds one element to a builder, around the block of
its base and what its rule strings add one after the other. The element is closed also where one of
them fails, unless the depth in it has wrapped around, and nothing is kept for the next
rendering. -/

namespace CollationRules

open Markup (Builder Spacing WellNested line block indentation attributePieces)

/-- The line in the block of a base. -/
def Base.pieces (base : Base) : List Markup.Token :=
  .openTag "alias" :: attributePieces [("source", base.source), ("type", base.kind)] ++
    [.closeEmpty]

theorem Base.write_eq (base : Base) (b : Builder) :
    base.write b = b.add (block b.indent b.depth "base" [base.pieces]) := by
  rw [← Markup.Builder.closeBlock_openBlock, List.flatMap_singleton,
    ← b.depth_openBlock "base" [], ← b.indent_openBlock "base" []]
  exact congrArg Markup.Builder.closeBlock (Markup.Builder.emptyLine_eq ..)

theorem Base.wellNested_pieces (base : Base) : WellNested base.pieces := .empty _ _ .nil

theorem Base.wellNested_block (base : Base) (indent : Spacing) (depth : UInt64) :
    WellNested (block indent depth "base" [base.pieces]) :=
  .block indent depth "base" (List.forall_mem_singleton.2 base.wellNested_pieces)

theorem Compiler.wellNested_addition (source : List Char) (indent : Spacing) (depth : UInt64) :
    WellNested (addition source indent depth) := by
  refine .append ?_ (wellNested_rulesBlock _ _ (contributions_isRuleElement _))
  unfold frontLines
  split
  · exact .nil
  · exact Settings.wellNested_flatMap_line ..

namespace Collation

/-! ### Pieces -/

/-- The rule strings that are compiled, up to the first that fails. -/
def attempted : List (List Char) → List (List Char)
  | [] => []
  | source :: rest =>
    source :: if (Compiler.failure? source).isSome then [] else attempted rest

theorem compileAll_eq {compiler : Compiler} (hr : compiler.Reached) (sources : List (List Char))
    (out : Builder) :
    compileAll compiler out sources =
      { compiler
        out := out.add ((attempted sources).flatMap fun source =>
          Compiler.addition source out.indent out.depth)
        failure := sources.findSome? Compiler.failure? } := by
  induction sources generalizing out with
  | nil => simp [compileAll, attempted]
  | cons source rest ih =>
    rw [compileAll, Compiler.append_eq hr, attempted, List.findSome?_cons]
    cases hfailure : Compiler.failure? source with
    | some failure => simp
    | none => simp [ih]

/-- The lines between those of the tags of a collation. -/
def innerLines (c : Collation) (sources : List (List Char)) (indent : Spacing) (depth : UInt64) :
    List Markup.Token :=
  c.base.toList.flatMap (fun base => block indent depth "base" [base.pieces]) ++
    (attempted sources).flatMap fun source => Compiler.addition source indent depth

theorem wellNested_innerLines (c : Collation) (sources : List (List Char)) (indent : Spacing)
    (depth : UInt64) : WellNested (c.innerLines sources indent depth) := by
  refine .append (.flatMap fun base _ => ?_) (.flatMap fun source _ => ?_)
  · exact base.wellNested_block indent depth
  · exact Compiler.wellNested_addition source indent depth

def pieces (c : Collation) (sources : List (List Char)) (indent : Spacing) (depth : UInt64) :
    List Markup.Token :=
  line indent depth (.openTag "collation" :: attributePieces [("type", c.kind)]) ++
    c.innerLines sources indent (depth + 1) ++ line indent depth [.closeTag "collation"]

/-- What stands between the tags of a collation. -/
def content (c : Collation) (sources : List (List Char)) (indent : Spacing) (depth : UInt64) :
    List Markup.Token :=
  .spacing .newline :: c.innerLines sources indent (depth + 1) ++ indentation indent depth

theorem wellNested_content (c : Collation) (sources : List (List Char)) (indent : Spacing)
    (depth : UInt64) : WellNested (c.content sources indent depth) :=
  .spacing .newline ((c.wellNested_innerLines sources indent (depth + 1)).append
    (.indentation indent depth))

theorem pieces_eq (c : Collation) (sources : List (List Char)) (indent : Spacing) (depth : UInt64) :
    c.pieces sources indent depth =
      line indent depth (.openTag "collation" :: attributePieces [("type", c.kind)] ++
        c.content sources indent depth ++ [.closeTag "collation"]) := by
  simp [pieces, content, line]

theorem wellNested_pieces (c : Collation) (sources : List (List Char)) (indent : Spacing)
    (depth : UInt64) : WellNested (c.pieces sources indent depth) := by
  rw [pieces_eq]
  exact .line (.element _ _ (c.wellNested_content sources indent depth) .nil)

/-- A builder to which a collation has been written, with its element still open. -/
def opened (c : Collation) (sources : List (List Char)) (out : Builder) : Builder :=
  (out.openBlock "collation" [("type", c.kind)]).add
    (c.innerLines sources out.indent (out.depth + 1))

theorem closeBlock_opened (c : Collation) (sources : List (List Char)) (out : Builder) :
    (c.opened sources out).closeBlock = out.add (c.pieces sources out.indent out.depth) :=
  out.closeBlock_add ..

/-- With nothing left over in its compiler, all that a collation does is to write its lines and to
close its element. -/
theorem append_eq {c : Collation} (hr : c.compiler.Reached) (sources : List (List Char))
    (out : Builder) :
    c.append sources out =
      (sources.findSome? Compiler.failure?, c, (c.opened sources out).closeTo out.depth) := by
  obtain ⟨kind, base, compiler⟩ := c
  unfold append
  simp only [compileAll_eq hr]
  cases base with
  | none => simp [opened, innerLines, out.indent_openBlock, out.depth_openBlock]
  | some base =>
    simp only [Base.write_eq, Markup.Builder.indent_add, Markup.Builder.depth_add,
      Markup.Builder.add_add, out.indent_openBlock, out.depth_openBlock]
    simp [opened, innerLines]

theorem out_append {c : Collation} (hr : c.compiler.Reached) (sources : List (List Char))
    {out : Builder} (hdepth : out.depth.toNat + 1 < UInt64.size) :
    (c.append sources out).2.2 = out.add (c.pieces sources out.indent out.depth) := by
  have hdeeper : out.depth < out.depth + 1 := by
    rw [UInt64.lt_iff_toNat_lt, Markup.toNat_depth_add_one hdepth]
    exact Nat.lt_succ_self _
  rw [append_eq hr, ← closeBlock_opened]
  exact out.closeTo_openBlock hdeeper ..

theorem render_eq_append (c : Collation) (sources : List (List Char)) :
    c.render sources =
      let result := c.append sources c.compiler.layout.builder
      (match result.1 with
        | some failure => .error failure
        | none => result.2.2.render.mapError .write,
        result.2.1) := by
  unfold render answer
  generalize c.append sources c.compiler.layout.builder = result
  obtain ⟨failure, next, out⟩ := result
  cases failure <;> rfl

/-! ### Calls of a collation -/

/-- A collation after any calls, which wrote any rule strings to any builders. -/
inductive Reached : Collation → Prop
  | new (kind : List Char) (base : Option Base) (layout : Layout) :
      Reached { kind, base, compiler := { layout } }
  | withBase {c : Collation} (base : Base) : Reached c → Reached { c with base := some base }
  | append {c : Collation} (sources : List (List Char)) (out : Builder) :
      Reached c → Reached (c.append sources out).2.1
  | render {c : Collation} (sources : List (List Char)) :
      Reached c → Reached (c.render sources).2

theorem Reached.compiler_eq {c : Collation} (h : c.Reached) :
    c.compiler = { layout := c.compiler.layout } := by
  induction h with
  | new kind base layout => rfl
  | withBase base _ ih => exact ih
  | append sources out _ ih => rw [append_eq (ih ▸ .new _)]; exact ih
  | render sources _ ih => rw [render_eq_append, append_eq (ih ▸ .new _)]; exact ih

theorem Reached.compiler {c : Collation} (h : c.Reached) : c.compiler.Reached :=
  h.compiler_eq ▸ .new _

/-- What a rendering does to a builder and to the collation that is rendered. -/
structure IsEnclosing (c : Collation) (sources : List (List Char)) (out : Builder)
    (next : Collation) (result : Builder) : Prop where
  /-- It adds one element, with its indentation and the end of its line. -/
  added : result.tokens.toList = out.tokens.toList ++
    line out.indent out.depth (.openTag "collation" :: attributePieces [("type", c.kind)] ++
      c.content sources out.indent out.depth ++ [.closeTag "collation"])
  /-- All that is opened in the element is closed, the innermost first. -/
  nested : WellNested (c.content sources out.indent out.depth)
  blocks : result.blocks = out.blocks
  indent : result.indent = out.indent
  depth : result.depth = out.depth
  /-- Nothing is left for later calls, which a new collation would answer in the same way. -/
  unaffected :
    next = { kind := c.kind, base := c.base, compiler := { layout := c.compiler.layout } }

theorem append?_eq_some_iff {c : Collation} {sources : List (List Char)} {out : Builder}
    {result : Option Failure × Collation × Builder} :
    c.append? sources out = some result ↔
      (c.append sources out).2.2.fits = true ∧ c.append sources out = result := by
  simp [append?]

/-- The lines of a collation are indented by two steps more than its tags at the most. -/
theorem all_fits_pieces (c : Collation) (sources : List (List Char)) {indent : Spacing}
    {depth : UInt64} (hdepth : depth.toNat + 2 < UInt64.size)
    (hsize : indent.size * (depth.toNat + 2) ≤ Markup.maxTextSize) :
    (c.pieces sources indent depth).all Markup.Token.fits = true := by
  have hinner : (depth + 1).toNat = depth.toNat + 1 :=
    Markup.toNat_depth_add_one (Nat.lt_of_succ_lt hdepth)
  have hsource : ∀ source ∈ attempted sources,
      (Compiler.addition source indent (depth + 1)).all Markup.Token.fits = true := fun source _ =>
    Compiler.all_fits_addition source (by rwa [hinner]) (by rwa [hinner])
  have hfirst : indent.size * (depth.toNat + 1) ≤ Markup.maxTextSize :=
    Nat.le_trans (Nat.mul_le_mul_left _ (Nat.le_succ _)) hsize
  have htags : indent.size * depth.toNat ≤ Markup.maxTextSize :=
    Nat.le_trans (Nat.mul_le_mul_left _ (Nat.le_succ _)) hfirst
  have hbase : ∀ base ∈ c.base.toList,
      (block indent (depth + 1) "base" [base.pieces]).all Markup.Token.fits = true := fun base _ =>
    Markup.all_fits_block (List.forall_mem_singleton.2 rfl) "base" (by rwa [hinner])
      (by rwa [Markup.toNat_depth_add_one (by rwa [hinner]), hinner])
  rw [pieces, innerLines, List.all_append, List.all_append, List.all_append,
    (Markup.all_fits_line (Markup.all_fits_startTag ..)).2 htags, List.all_flatMap,
    List.all_eq_true.2 hbase, List.all_flatMap, List.all_eq_true.2 hsource,
    (Markup.all_fits_line rfl).2 htags]
  rfl

/-- A collation can be rendered if memory can hold what the builder has and the lines of its
element. -/
theorem Reached.isSome_append? {c : Collation} (h : c.Reached) (sources : List (List Char))
    {out : Builder} (hfits : out.fits) (hdepth : out.depth.toNat + 2 < UInt64.size)
    (hsize : out.indent.size * (out.depth.toNat + 2) ≤ Markup.maxTextSize) :
    (c.append? sources out).isSome := by
  have hadded : (c.append sources out).2.2.fits = true := by
    rw [out_append h.compiler sources (Nat.lt_of_succ_lt hdepth), Markup.Builder.fits_add]
    exact ⟨hfits, c.all_fits_pieces sources hdepth hsize⟩
  rw [append?_eq_some_iff.2 ⟨hadded, rfl⟩]
  rfl

/-- Whatever calls came before, and whether or not a rule string fails, a rendering adds a closed
element at the end of a builder and changes nothing else, if the depth in the element is a word.
There is a rendering if memory can hold what the builder has and the lines of the element. -/
theorem append_isEnclosing {c : Collation} (h : c.Reached) (sources : List (List Char))
    {out : Builder} (hdepth : out.depth.toNat + 1 < UInt64.size) :
    (out.fits → out.depth.toNat + 2 < UInt64.size →
        out.indent.size * (out.depth.toNat + 2) ≤ Markup.maxTextSize →
        (c.append? sources out).isSome) ∧
      ∀ failure next result, c.append? sources out = some (failure, next, result) →
        IsEnclosing c sources out next result := by
  have hout := out_append h.compiler sources hdepth
  constructor
  · exact h.isSome_append? sources
  · intro failure next result hresult
    obtain ⟨-, happend⟩ := append?_eq_some_iff.1 hresult
    rw [happend] at hout
    have hnext : next = c := by
      rw [append_eq h.compiler] at happend
      exact (congrArg (·.2.1) happend).symm
    obtain rfl : result = _ := hout
    refine ⟨?_, c.wellNested_content sources out.indent out.depth, Markup.Builder.blocks_add ..,
      Markup.Builder.indent_add .., Markup.Builder.depth_add .., ?_⟩
    · rw [← pieces_eq, Markup.Builder.tokens_add]
    · rw [hnext, ← h.compiler_eq]

/-- A collation that has failed, and fails again in the middle of the rules of its second rule
string, below a block that is open. -/
theorem append_isEnclosing_after_failure :
    let sources := ["[numeric on]&a<b".toList, "&c<d&#".toList, "&e".toList]
    let c := (({ kind := "standard".toList } : Collation).render ["@&#".toList]).2
    let out := ({ indent := .tab, baseDepth := 1 : Builder }).openBlock "ldml" []
    c.Reached ∧ out.depth.toNat + 1 < UInt64.size ∧
      ∃ failure next result, c.append? sources out = some (some failure, next, result) ∧
        IsEnclosing c sources out next result ∧ result.blocks = ["ldml"] := by
  intro sources c out
  have hreached : c.Reached := .render _ (.new "standard".toList none {})
  have hdepth : out.depth.toNat + 1 < UInt64.size := by decide +kernel
  obtain ⟨hfits, hresult⟩ := append_isEnclosing hreached sources hdepth
  obtain ⟨⟨failure, next, result⟩, happend⟩ := Option.isSome_iff_exists.1
    (hfits (by decide +kernel) (by decide +kernel) (by decide +kernel))
  have hrendered := hresult failure next result happend
  have hfailed : failure.isSome := by
    have hfailure : (c.append sources out).1 = failure :=
      congrArg (·.1) (append?_eq_some_iff.1 happend).2
    rw [← hfailure]
    decide +kernel
  obtain ⟨failure, rfl⟩ := Option.isSome_iff_exists.1 hfailed
  exact ⟨hreached, hdepth, failure, next, result, happend, hrendered, hrendered.blocks⟩

/-- At a great depth the element of a collation cannot be written with tabs. Without an indentation
and at the depth of the largest word it can, but it is left open, and the depth in it is zero. -/
theorem append_at_limits :
    let c : Collation := { kind := "standard".toList }
    let deep : Builder := { indent := .tab, baseDepth := 0x8000000000000000 }
    let deepest : Builder := { indent := {}, baseDepth := 0xFFFFFFFFFFFFFFFF }
    (c.append? ["&a<b'".toList] deep).isNone ∧
      (c.append? [] deepest).map (fun result => (result.1, result.2.2.blocks, result.2.2.depth)) =
        some (none, ["collation"], 0) :=
  ⟨by decide +kernel, by decide +kernel⟩

end Collation
end CollationRules
