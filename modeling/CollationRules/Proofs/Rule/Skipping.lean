import CollationRules.Proofs.Rule.Scanning

/-! Blanks between operands. Outside of quotes, brackets and escapes a scanner passes what is
skipped and is as it was before, so that blanks can be put in or left out there. Only between two
angle signs or two quote marks, which belong together where nothing stands between them, they make a
difference. -/

namespace CollationRules

open Text (byteLength)

theorem Mode.unplaced_eq_angled {mode : Mode} (h : mode.unplaced = .angled) : mode = .angled := by
  cases mode <;> first | rfl | cases h

theorem Mode.unplaced_eq_closed {mode : Mode} {start : Nat} (h : mode.unplaced = .closed start) :
    ∃ place, mode = .closed place := by
  cases mode <;> first | exact ⟨_, rfl⟩ | cases h

namespace Draft

/-- Only an angle sign can be strengthened, and only a quote mark ends a quoted section. -/
theorem step_take_mode {first : Bool} {d next : Draft} {offset : Nat} {c : Char}
    (h : d.step first offset c = .take next) :
    (next.mode = .angled → c = '<') ∧ ∀ start, next.mode = .closed start → c = '\'' := by
  have houtcome := d.outcome_step first offset c
  rw [h] at houtcome
  cases houtcome with
  | skipped | aside | exclamation => exact ⟨nofun, nofun⟩
  | begun =>
    dsimp only
    split
    · exact ⟨fun _ => ‹c = '<'›, nofun⟩
    · exact ⟨nofun, nofun⟩
  | inside _ _ _ _ mark =>
    dsimp only
    refine ⟨?_, ?_⟩
    · rintro rfl
      rcases mark with hplain | hmark
      · cases hplain
      · cases hmark
    · rintro start rfl
      rcases mark with hplain | hmark
      · cases hplain
      · exact (congrArg Prod.fst (Option.some.inj hmark)).symm
  | strengthened angled sign =>
    refine ⟨fun _ => sign, fun start hclosed => ?_⟩
    unfold strengthen at hclosed
    split at hclosed
    · rw [angled] at hclosed
      cases hclosed
    · cases hclosed
  | quoted marked _ mark closes =>
    refine ⟨?_, closes⟩
    rintro rfl
    rcases mark with hplain | hmark
    · cases hplain
    · rw [← hmark] at marked
      cases marked

/-- Whether an operator or a quote mark stands directly before a character makes a difference only
for another one. -/
theorem step_eq_plain {d : Draft} (hopen : d.unfinished? = none) {c : Char}
    (hangle : d.mode = .angled → c ≠ '<') (hquote : ∀ start, d.mode = .closed start → c ≠ '\'')
    (first : Bool) (offset : Nat) :
    d.step first offset c = ({ d with mode := .plain } : Draft).step first offset c := by
  have hplain : d.stepPlain first offset c =
      ({ d with mode := .plain } : Draft).stepPlain first offset c := rfl
  conv_rhs => rw [step]
  rw [← hplain, step]
  split
  · rfl
  · rw [if_neg (hangle ‹_›)]
  · rename_i hmode
    simp [unfinished?, hmode] at hopen
  · rename_i hmode
    simp [unfinished?, hmode] at hopen
  · rename_i hmode
    simp [unfinished?, hmode] at hopen
  · rw [if_neg (hquote _ ‹_›)]

end Draft

namespace Pass

/-! ### Passes -/

theorem step_mode {p : Pass} {c : Char} (h : (p.step c).fault = none) :
    ((p.step c).draft.mode = .angled → c = '<') ∧
      ∀ start, (p.step c).draft.mode = .closed start → c = '\'' := by
  obtain ⟨first, found, d, fault⟩ := p
  cases fault with
  | some cause => cases h
  | none =>
    simp only [step] at h ⊢
    cases hstep : d.step first 0 c with
    | take next =>
      obtain ⟨hangle, hquote⟩ := Draft.step_take_mode hstep
      refine ⟨fun hmode => hangle (Mode.unplaced_eq_angled hmode), fun start hmode => ?_⟩
      obtain ⟨place, hclosed⟩ := Mode.unplaced_eq_closed hmode
      exact hquote place hclosed
    | stop last =>
      simp only [Draft.Step.unplaced, Draft.ofOperator]
      split
      · exact ⟨fun _ => ‹c = '<'›, fun start hmode => by cases hmode⟩
      · constructor
        · intro hmode
          cases hmode
        · intro start hmode
          cases hmode
    | fail cause =>
      rw [hstep] at h
      cases h

theorem read_mode {text : List Char} (h : (({} : Pass).read text).fault = none) :
    ((({} : Pass).read text).draft.mode = .angled → text.getLast? = some '<') ∧
      ∀ start, (({} : Pass).read text).draft.mode = .closed start →
        text.getLast? = some '\'' := by
  rcases List.eq_nil_or_concat' text with rfl | ⟨front, c, rfl⟩
  · exact ⟨nofun, nofun⟩
  · rw [read_append] at h ⊢
    obtain ⟨hangle, hquote⟩ := step_mode h
    rw [List.getLast?_concat]
    exact ⟨fun hmode => by rw [hangle hmode], fun start hmode => by rw [hquote start hmode]⟩

theorem outcome_read_plain (first : Bool) (found : List Lexeme) {d : Draft}
    (hopen : d.unfinished? = none) {after : List Char}
    (hangle : d.mode = .angled → after.head? ≠ some '<')
    (hquote : ∀ start, d.mode = .closed start → after.head? ≠ some '\'') :
    ((⟨first, found, { d with mode := .plain }, none⟩ : Pass).read after).outcome =
      ((⟨first, found, d, none⟩ : Pass).read after).outcome := by
  cases after with
  | nil =>
    rw [read_nil, read_nil, outcome, outcome]
    simp only [hopen]
    rfl
  | cons c after =>
    have hangle' (hmode : d.mode = .angled) : c ≠ '<' := by simpa using hangle hmode
    have hquote' (start : Nat) (hmode : d.mode = .closed start) : c ≠ '\'' := by
      simpa using hquote start hmode
    have hstep := Draft.step_eq_plain hopen hangle' hquote' first 0
    rw [read_cons, read_cons]
    simp only [step, ← hstep]
    cases d.step first 0 c with
    | take next => rfl
    | stop last => rfl
    | fail cause =>
      simp only [Draft.Step.unplaced]
      rw [read_of_fault rfl, read_of_fault rfl]
      rfl

/-- A pass that has passed what is skipped goes on as before. -/
theorem outcome_read_skipped (first : Bool) (found : List Lexeme) {d : Draft}
    (hopen : d.unfinished? = none) (hdepth : d.depth = 0) {skipped after : List Char}
    (hskipped : ∀ c ∈ skipped, isSkipped c)
    (hangle : d.unplaced.mode = .angled → after.head? ≠ some '<')
    (hquote : ∀ start, d.unplaced.mode = .closed start → after.head? ≠ some '\'') :
    ((⟨first, found, d.unplaced, none⟩ : Pass).read (skipped ++ after)).outcome =
      ((⟨first, found, d.unplaced, none⟩ : Pass).read after).outcome := by
  obtain ⟨kind, start, mode, depth, text⟩ := d
  obtain rfl : depth = 0 := hdepth
  have hmode : mode.unplaced = .plain ∨ mode.unplaced = .angled ∨ mode.unplaced = .closed 0 := by
    cases mode with
    | plain => exact .inl rfl
    | angled => exact .inr (.inl rfl)
    | closed => exact .inr (.inr rfl)
    | _ => cases hopen
  have hopen' : (⟨kind, none, mode.unplaced, 0, text⟩ : Draft).unfinished? = none := by
    rcases hmode with heq | heq | heq <;> rw [heq] <;> rfl
  obtain ⟨mode', hmode', hread⟩ := read_skipped first found text hmode kind hskipped
  change ((⟨first, found, ⟨kind, none, mode.unplaced, 0, text⟩, none⟩ : Pass).read _).outcome = _
  rw [read_append, hread]
  -- What is skipped lets go of an operator and of a quote mark, or is nothing.
  rcases hmode' with rfl | rfl
  · exact outcome_read_plain first found hopen' hangle hquote
  · rfl

end Pass

/-! ### Places -/

/-- The scanners with which a rule string is read: the one at its start, and those after its tokens.
-/
inductive Scanner.Reached (source : List Char) : Scanner → Prop
  | start : Reached source (ofSource source)
  | next {s : Scanner} {token : Token} (h : Reached source s) (answer : s.next.1 = .ok token)
      (more : ¬token.isFinish) : Reached source s.next.2

/-- A scanner takes what is left of `before` and stands in front of `after`, where the token that it
scans has become `d`. If an operator comes next that token ends, and the scanner after it stands
there too. -/
def Reaches (before after : List Char) (d : Draft) : Prop :=
  ∃ s taken, Scanner.Reached (before ++ after) s ∧ s.rest = taken ++ after ∧
    Draft.Takes s.first {} s.offset taken d

/-- A place between two characters, or at an end, that is reached outside of quotes, brackets and
escapes and does not stand between two angle signs or two quote marks. In front of an operator this
is so for the token that ends there and for the one that begins. -/
structure IsGap (before after : List Char) : Prop where
  reached : ∃ d, Reaches before after d
  outside : ∀ d, Reaches before after d → d.unfinished? = none ∧ d.depth = 0
  angles : ¬(before.getLast? = some '<' ∧ after.head? = some '<')
  quotes : ¬(before.getLast? = some '\'' ∧ after.head? = some '\'')

namespace Scanner

/-- A scanner stands behind `front` in the pass over its rule string. What the pass does next is
what it does where a token begins, and the place is reached with the draft of the pass. -/
structure StandsBehind (s : Scanner) (source front : List Char) : Prop where
  whole : source = front ++ s.rest
  draft : ∃ first found d, Reaches front s.rest d ∧
    ({} : Pass).read front = ⟨first, found, d.unplaced, none⟩
  step : ∃ found, ∀ c ∈ s.rest.head?,
    (({} : Pass).read front).step c = (⟨s.first, found, {}, none⟩ : Pass).step c

section

variable {s : Scanner} {source front taken after : List Char} {last : Draft}
  (h : s.StandsBehind source front) (hreached : s.Reached source) (hrest : s.rest = taken ++ after)
  (htakes : Draft.Takes s.first {} s.offset taken last)

include h hrest htakes

theorem StandsBehind.read_taken (hne : taken ≠ []) :
    ∃ found, ({} : Pass).read (front ++ taken) = ⟨s.first, found, last.unplaced, none⟩ := by
  obtain ⟨found, hstep⟩ := h.step
  obtain ⟨c, text, rfl⟩ := List.exists_cons_of_ne_nil hne
  refine ⟨found, ?_⟩
  rw [Pass.read_append, Pass.read_cons, hstep c (by rw [hrest]; rfl), ← Pass.read_cons]
  exact htakes.read found

/-- The operator that ends a token begins the next one. -/
theorem StandsBehind.step_stop {c : Char} {rest : List Char} (hafter : after = c :: rest)
    {final : Draft} (stop : last.step s.first (s.offset + byteLength taken) c = .stop final) :
    ∃ found, (({} : Pass).read (front ++ taken)).step c =
      (⟨false, found, {}, none⟩ : Pass).step c := by
  have htaken : ∃ found, (({} : Pass).read (front ++ taken)).step c =
      (⟨s.first, found, last.unplaced, none⟩ : Pass).step c := by
    by_cases hne : taken = []
    · subst hne
      cases htakes
      obtain ⟨found, hstep⟩ := h.step
      rw [List.append_nil]
      exact ⟨found, hstep c (by rw [hrest, hafter]; rfl)⟩
    · obtain ⟨found, hread⟩ := h.read_taken hrest htakes hne
      exact ⟨found, by rw [hread]⟩
  obtain ⟨found, htaken⟩ := htaken
  have hoperator := (Draft.step_stop stop).1
  refine ⟨found ++ final.lexeme?.toList, ?_⟩
  rw [htaken, Pass.step_stop s.first found stop, Pass.step_begin hoperator]

include hreached

/-- A place that is reached is reached with the draft of the pass. -/
theorem StandsBehind.exists_draft :
    ∃ first found d, Reaches (front ++ taken) after d ∧
      ({} : Pass).read (front ++ taken) = ⟨first, found, d.unplaced, none⟩ := by
  -- Where the scanner has taken nothing the pass still has the draft of the token before.
  by_cases hne : taken = []
  · subst hne
    obtain ⟨first, found, d, hreaches, hread⟩ := h.draft
    rw [List.append_nil]
    rw [hrest, List.nil_append] at hreaches
    exact ⟨first, found, d, hreaches, hread⟩
  · obtain ⟨found, hread⟩ := h.read_taken hrest htakes hne
    have hwhole : front ++ taken ++ after = source := by
      rw [List.append_assoc, ← hrest, h.whole]
    exact ⟨s.first, found, last, ⟨s, taken, hwhole ▸ hreached, hrest, htakes⟩, hread⟩

end

theorem Reached.standsBehind {source : List Char} {s : Scanner} (h : s.Reached source) :
    ∃ front, s.StandsBehind source front := by
  -- By induction on the tokens. The pass has the operator that ends a token in front of it, as the
  -- scanner after the token has.
  induction h with
  | start =>
    refine ⟨[], rfl, ⟨true, [], {}, ?_, rfl⟩, [], fun _ _ => rfl⟩
    exact ⟨ofSource source, [], .start, rfl, .nil {} 0⟩
  | @next s token h answer more ih =>
    obtain ⟨front, hbehind⟩ := ih
    have hfound := found_of_ok answer
    obtain ⟨taken, rest, last, hrest, htakes, hends⟩ :=
      Draft.scan_cases s.first {} s.offset s.rest
    have hdraft := hbehind.exists_draft h hrest htakes
    have hwhole : source = front ++ taken ++ rest := by
      rw [List.append_assoc, ← hrest, ← hbehind.whole]
    refine ⟨front ++ taken, ?_⟩
    have hnext : s.next.2.first = false ∧
        s.next.2.rest = (({} : Draft).scan s.first s.offset s.rest).rest := ⟨rfl, rfl⟩
    generalize ({} : Draft).scan s.first s.offset s.rest = scan at hfound hends hnext
    cases hends with
    | unfinished => cases hfound
    | failed => cases hfound
    | finished =>
      obtain ⟨-, hend⟩ := hnext
      refine ⟨by rwa [hend], by rwa [hend], [], fun c hc => ?_⟩
      rw [hend] at hc
      cases hc
    | stopped stop =>
      obtain ⟨hfirst, hstands⟩ := hnext
      obtain ⟨found, hstep⟩ := hbehind.step_stop hrest htakes rfl stop
      refine ⟨by rwa [hstands], by rwa [hstands], found, fun c hc => ?_⟩
      rw [hstands] at hc
      cases hc
      rw [hfirst]
      exact hstep

end Scanner

section

variable {before after : List Char} {d : Draft} (h : Reaches before after d)

include h

theorem Reaches.exists_behind :
    ∃ (s : Scanner) (front taken : List Char), before = front ++ taken ∧
      s.StandsBehind (before ++ after) front ∧ s.Reached (before ++ after) ∧
      s.rest = taken ++ after ∧ Draft.Takes s.first {} s.offset taken d := by
  obtain ⟨s, taken, hreached, hrest, htakes⟩ := h
  obtain ⟨front, hbehind⟩ := hreached.standsBehind
  have hwhole := hbehind.whole
  rw [hrest, ← List.append_assoc] at hwhole
  exact ⟨s, front, taken, List.append_cancel_right hwhole, hbehind, hreached, hrest, htakes⟩

theorem Reaches.exists_read :
    ∃ first found d, Reaches before after d ∧
      ({} : Pass).read before = ⟨first, found, d.unplaced, none⟩ := by
  obtain ⟨s, front, taken, rfl, hbehind, hreached, hrest, htakes⟩ := h.exists_behind
  exact hbehind.exists_draft hreached hrest htakes

/-- A place is reached with the draft of the pass or where a token begins. -/
theorem Reaches.unplaced_eq :
    d.unplaced = (({} : Pass).read before).draft ∨ d.unplaced = {} := by
  obtain ⟨s, front, taken, rfl, hbehind, -, hrest, htakes⟩ := h.exists_behind
  by_cases hne : taken = []
  · subst hne
    cases htakes
    exact .inr rfl
  · obtain ⟨found, hread⟩ := hbehind.read_taken hrest htakes hne
    exact .inl (by rw [hread])

/-- A place that is reached is a gap if nothing is open in the pass. -/
theorem Reaches.isGap (hopen : (({} : Pass).read before).draft.unfinished? = none)
    (hdepth : (({} : Pass).read before).draft.depth = 0)
    (hangles : ¬(before.getLast? = some '<' ∧ after.head? = some '<'))
    (hquotes : ¬(before.getLast? = some '\'' ∧ after.head? = some '\'')) :
    IsGap before after := by
  refine ⟨⟨d, h⟩, fun d' hreaches => ?_, hangles, hquotes⟩
  have hclosed : d'.unplaced.unfinished? = none ∧ d'.unplaced.depth = 0 := by
    rcases hreaches.unplaced_eq with heq | heq
    · rw [heq]
      exact ⟨hopen, hdepth⟩
    · rw [heq]
      exact ⟨rfl, rfl⟩
  have hunfinished := d'.unfinished?_unplaced
  rw [hclosed.1, eq_comm, Option.map_none, Option.map_eq_none_iff] at hunfinished
  exact ⟨hunfinished, hclosed.2⟩

end

/-- Blanks can be put in where no quoted section, no bracket and no escape is open, save between
two angle signs or two quote marks. -/
theorem reading_insert_skipped {before after skipped : List Char} (h : IsGap before after)
    (hskipped : ∀ c ∈ skipped, isSkipped c) :
    lexemes (before ++ skipped ++ after) = lexemes (before ++ after) ∧
      (syntaxError? (before ++ skipped ++ after)).map SyntaxError.cause =
        (syntaxError? (before ++ after)).map SyntaxError.cause := by
  obtain ⟨_, hreaches⟩ := h.reached
  obtain ⟨first, found, d, hreaches, hread⟩ := hreaches.exists_read
  obtain ⟨hopen, hdepth⟩ := h.outside d hreaches
  have hfault : (({} : Pass).read before).fault = none := by rw [hread]
  obtain ⟨hangle, hquote⟩ := Pass.read_mode hfault
  rw [hread] at hangle hquote
  have houtcome := Pass.outcome_read_skipped first found hopen hdepth hskipped
    (fun hmode hhead => h.angles ⟨hangle hmode, hhead⟩)
    (fun start hmode hhead => h.quotes ⟨hquote start hmode, hhead⟩)
  have hreading : reading (before ++ skipped ++ after) = reading (before ++ after) := by
    rw [← outcome_source, ← outcome_source, List.append_assoc,
      Pass.read_append _ before (skipped ++ after), Pass.read_append _ before after, hread,
      houtcome]
  exact ⟨congrArg Prod.fst hreading, congrArg Prod.snd hreading⟩

/-- A blank and a joiner between a quoted section and an operator, in front of an error. -/
theorem reading_insert_skipped_quoted :
    let before := "&'a'".toList
    let after := "<b<c*".toList
    let skipped := [' ', '\u200D']
    IsGap before after ∧ (∀ c ∈ skipped, isSkipped c) ∧
      lexemes (before ++ skipped ++ after) =
        [⟨.reset, ['a']⟩, ⟨.relation .primary, ['b']⟩] ∧
      (syntaxError? (before ++ skipped ++ after)).map SyntaxError.cause =
        some (.specialCharacter '*') := by
  intro before after skipped
  have hreaches : Reaches before after {} :=
    ⟨_, [], .next .start rfl (by decide +kernel), by decide +kernel, .nil ..⟩
  have hgap : IsGap before after :=
    hreaches.isGap (by decide +kernel) (by decide +kernel) (by decide) (by decide)
  have hskipped : ∀ c ∈ skipped, isSkipped c := List.all_eq_true.1 (by decide +kernel)
  obtain ⟨hlexemes, hcause⟩ := reading_insert_skipped hgap hskipped
  refine ⟨hgap, hskipped, ?_, ?_⟩
  · rw [hlexemes]
    decide +kernel
  · rw [hcause]
    decide +kernel

end CollationRules
