import CollationRules.Proofs.Rule.Pass
import Mathlib.Data.List.Infix
import Mathlib.Data.List.TakeWhile

/-! Brackets. Characters that are special elsewhere are kept in brackets, save for an exclamation
mark, which is left out, and a slash, for which an expansion mark is put. An operator ends the token
in brackets too. -/

namespace CollationRules

/-- A text that could stand between two brackets: the brackets in it are balanced, and it has no
quote mark, no backslash and no expansion mark. -/
structure IsPayload (text : List Char) : Prop where
  closed : ∀ before, before <+: text → before.count ']' ≤ before.count '['
  equal : text.count '[' = text.count ']'
  unquoted : '\'' ∉ text
  unescaped : '\\' ∉ text
  unmarked : expansionMark ∉ text

instance (text : List Char) : Decidable (IsPayload text) :=
  decidable_of_iff ((∀ before ∈ text.inits, before.count ']' ≤ before.count '[') ∧
      text.count '[' = text.count ']' ∧ '\'' ∉ text ∧ '\\' ∉ text ∧ expansionMark ∉ text)
    ⟨fun ⟨hclosed, hequal, hquote, hescape, hmark⟩ =>
        ⟨fun before hb => hclosed before ((List.mem_inits ..).2 hb), hequal, hquote, hescape,
          hmark⟩,
      fun ⟨hclosed, hequal, hquote, hescape, hmark⟩ =>
        ⟨fun before hb => hclosed before ((List.mem_inits ..).1 hb), hequal, hquote, hescape,
          hmark⟩⟩

/-- Before each character of a payload and before the bracket that closes it, a bracket is open. -/
theorem IsPayload.count_lt {text : List Char} (h : IsPayload text) {before : List Char}
    {c : Char} (hbefore : before ++ [c] <+: text ++ [']']) :
    before.count ']' < 1 + before.count '[' := by
  have hfront : before <+: text := by
    rcases List.prefix_concat_iff.1 hbefore with heq | hpre
    · rw [(List.append_inj' heq rfl).1]
    · exact (List.prefix_append before [c]).trans hpre
  have hle := h.closed before hfront
  omega

def untilOperator (text : List Char) : List Char := text.takeWhile fun c => !(operator? c).isSome

def fromOperator (text : List Char) : List Char := text.dropWhile fun c => !(operator? c).isSome

theorem untilOperator_append_fromOperator (text : List Char) :
    untilOperator text ++ fromOperator text = text :=
  List.takeWhile_append_dropWhile

theorem untilOperator_isPrefix (text : List Char) : untilOperator text <+: text :=
  List.takeWhile_prefix _

theorem untilOperator_eq_self_iff {text : List Char} :
    untilOperator text = text ↔ ∀ c ∈ text, operator? c = none := by
  simp [untilOperator, List.takeWhile_eq_self_iff]

theorem operator?_of_mem_untilOperator {text : List Char} {c : Char} (h : c ∈ untilOperator text) :
    operator? c = none := by
  simpa using List.mem_takeWhile_imp h

theorem atOperator_fromOperator (text : List Char) : Draft.AtOperator (fromOperator text) := by
  intro c hc
  rw [fromOperator, ← List.find?_eq_head?_dropWhile_not] at hc
  exact List.find?_some (p := fun c => (operator? c).isSome) hc

/-! ### What is kept -/

def keptChar (c : Char) : List Char :=
  if c = '!' then [] else if c = '/' then [expansionMark] else [c]

def kept (text : List Char) : List Char := text.flatMap keptChar

theorem kept_cons (c : Char) (text : List Char) : kept (c :: text) = keptChar c ++ kept text := rfl

theorem length_kept_le (text : List Char) : (kept text).length ≤ text.length := by
  induction text with
  | nil => rfl
  | cons c text ih =>
    have hchar : (keptChar c).length ≤ 1 := by
      unfold keptChar
      repeat' split
      all_goals simp
    rw [kept_cons, List.length_append, List.length_cons]
    omega

theorem kept_eq_self_iff (text : List Char) :
    kept text = text ↔ ∀ c ∈ text, c ≠ '!' ∧ c ≠ '/' := by
  induction text with
  | nil => simp [kept]
  | cons c text ih =>
    rw [kept_cons, List.forall_mem_cons, ← ih]
    by_cases hleft : c = '!'
    · have hlength := length_kept_le text
      have hne : kept text ≠ '!' :: text := by
        intro heq
        rw [heq, List.length_cons] at hlength
        omega
      simp [keptChar, hleft, hne]
    · by_cases hslash : c = '/'
      · have hne : expansionMark ≠ '/' := by decide
        simp [keptChar, hslash, hne]
      · simp [keptChar, hleft, hslash]

/-! ### Reading -/

/-- A character that neither ends a token nor changes how the next one is read. -/
structure IsContent (c : Char) : Prop where
  operator : operator? c = none
  quote : c ≠ '\''
  escape : c ≠ '\\'
  mark : c ≠ expansionMark

theorem IsPayload.isContent {text : List Char} (h : IsPayload text) {c : Char}
    (hc : c ∈ text ++ [']']) (hoperator : operator? c = none) : IsContent c := by
  rcases List.mem_append.1 hc with hmem | hmem
  · exact ⟨hoperator, fun heq => h.unquoted (heq ▸ hmem), fun heq => h.unescaped (heq ▸ hmem),
      fun heq => h.unmarked (heq ▸ hmem)⟩
  · obtain rfl := List.mem_singleton.1 hmem
    exact ⟨hoperator, by decide, by decide, by decide⟩

namespace Pass

variable (first : Bool) (found : List Lexeme) (kind : TokenKind)

theorem step_bracketed {depth : Nat} (hdepth : 0 < depth) (text : Array Char) {c : Char}
    (hc : IsContent c) :
    (⟨first, found, ⟨some kind, none, .plain, depth, text⟩, none⟩ : Pass).step c =
      ⟨first, found, ⟨some kind, none, .plain, depth + [c].count '[' - [c].count ']',
        text ++ (keptChar c).toArray⟩, none⟩ := by
  have hdepth' : depth ≠ 0 := by omega
  have hstep : (⟨some kind, none, .plain, depth, text⟩ : Draft).step first 0 c =
      .take ⟨some kind, some 0, .plain, depth + [c].count '[' - [c].count ']',
        text ++ (keptChar c).toArray⟩ := by
    obtain ⟨hoperator, hquote, hescape, hmark⟩ := hc
    have hinside : (⟨some kind, none, .plain, depth, text⟩ : Draft).step first 0 c =
        (⟨some kind, some 0, .plain, depth, text⟩ : Draft).stepInside 0 c := by
      simp [Draft.step, Draft.stepPlain, hdepth']
    rw [hinside]
    by_cases hopen : c = '['
    · subst hopen
      simp [Draft.stepInside, Draft.push, hoperator, keptChar]
    by_cases hclose : c = ']'
    · subst hclose
      simp [Draft.stepInside, Draft.push, hoperator, keptChar]
    by_cases hleft : c = '!'
    · subst hleft
      simp [Draft.stepInside, hoperator, keptChar]
    by_cases hslash : c = '/'
    · subst hslash
      simp [Draft.stepInside, Draft.push, hoperator, keptChar]
    simp [Draft.stepInside, Draft.push, hdepth', hoperator, hopen, hclose, hleft, hslash, hquote,
      hescape, hmark, keptChar]
  exact step_take first found hstep

/-- As long as a bracket is open all characters are kept that are not left out. -/
theorem read_bracketed {depth : Nat} (before : Array Char) {text : List Char}
    (hcontent : ∀ c ∈ text, IsContent c)
    (hopen : ∀ front c, front ++ [c] <+: text → front.count ']' < depth + front.count '[') :
    (⟨first, found, ⟨some kind, none, .plain, depth, before⟩, none⟩ : Pass).read text =
      ⟨first, found, ⟨some kind, none, .plain, depth + text.count '[' - text.count ']',
        before ++ (kept text).toArray⟩, none⟩ := by
  induction text generalizing depth before with
  | nil => simp [kept]
  | cons c text ih =>
    rw [List.forall_mem_cons] at hcontent
    have hdepth : 0 < depth := by simpa using hopen [] c (by simp)
    have hrest : ∀ front c', front ++ [c'] <+: text →
        front.count ']' < depth + [c].count '[' - [c].count ']' + front.count '[' := by
      intro front c' hfront
      have hlt := hopen (c :: front) c' (by simpa using hfront)
      rw [← List.singleton_append, List.count_append, List.count_append] at hlt
      omega
    rw [read_cons, step_bracketed first found kind hdepth before hcontent.1, ih _ hcontent.2 hrest]
    have hcount (bracket : Char) : (c :: text).count bracket =
        [c].count bracket + text.count bracket := by
      rw [← List.singleton_append, List.count_append]
    have hclose : [c].count ']' ≤ 1 := List.count_le_length
    have hdepth' : depth + [c].count '[' - [c].count ']' + text.count '[' - text.count ']' =
        depth + (c :: text).count '[' - (c :: text).count ']' := by
      rw [hcount '[', hcount ']']
      omega
    have htext : before ++ (keptChar c).toArray ++ (kept text).toArray =
        before ++ (kept (c :: text)).toArray := by
      simp [kept_cons]
    rw [hdepth', htext]

end Pass

/-! ### Bracketed rule strings -/

def bracketed (payload : List Char) : List Char := '[' :: payload ++ [']']

/-- A bracket is open throughout the part of a bracketed rule string before its first operator. -/
theorem Pass.read_untilOperator {payload : List Char} (h : IsPayload payload) :
    ∃ depth, ({} : Pass).read (untilOperator (bracketed payload)) =
      ⟨true, [], ⟨some .setting, none, .plain, depth,
        (kept (untilOperator (bracketed payload))).toArray⟩, none⟩ := by
  have hcons : untilOperator (bracketed payload) = '[' :: untilOperator (payload ++ [']']) := rfl
  have hfront := untilOperator_isPrefix (payload ++ [']'])
  have hcontent : ∀ c ∈ untilOperator (payload ++ [']']), IsContent c := fun c hc =>
    h.isContent (hfront.subset hc) (operator?_of_mem_untilOperator hc)
  have hbegin : ({} : Pass).step '[' =
      ⟨true, [], ⟨some .setting, none, .plain, 1, #['[']⟩, none⟩ := rfl
  have hread := Pass.read_bracketed true [] .setting #['['] hcontent
    fun front c hc => h.count_lt (hc.trans hfront)
  have htext : #['['] ++ (kept (untilOperator (payload ++ [']']))).toArray =
      (kept ('[' :: untilOperator (payload ++ [']']))).toArray := by
    simp [kept_cons, keptChar]
  rw [hcons, Pass.read_cons, hbegin, hread, htext]
  exact ⟨_, rfl⟩

theorem reading_bracketed {payload : List Char} (h : IsPayload payload) :
    reading (bracketed payload) =
      (⟨.setting, kept (untilOperator (bracketed payload))⟩ ::
          (Pass.laterOutcome (fromOperator (bracketed payload))).1,
        (Pass.laterOutcome (fromOperator (bracketed payload))).2) := by
  obtain ⟨depth, hread⟩ := Pass.read_untilOperator h
  have hdivide := Pass.outcome_read_atOperator true []
    (d := ⟨some .setting, none, .plain, depth, (kept (untilOperator (bracketed payload))).toArray⟩)
    rfl rfl (atOperator_fromOperator (bracketed payload)) nofun
  rw [← hread, ← Pass.read_append, untilOperator_append_fromOperator, outcome_source] at hdivide
  exact hdivide

/-- The first token of a bracketed rule string ends before its first operator, and keeps what comes
before that save for exclamation marks and slashes. If there is no operator it is the only token,
and the rule string is kept as it is exactly if it has none of the three. -/
theorem lexemes_bracketed {payload : List Char} (h : IsPayload payload) :
    (lexemes (bracketed payload)).head? =
        some ⟨.setting, kept (untilOperator (bracketed payload))⟩ ∧
      ((∀ c ∈ payload, operator? c = none) →
        syntaxError? (bracketed payload) = none ∧
          lexemes (bracketed payload) = [⟨.setting, kept (bracketed payload)⟩]) ∧
      (syntaxError? (bracketed payload) = none ∧
          lexemes (bracketed payload) = [⟨.setting, bracketed payload⟩] ↔
        ∀ c ∈ payload, operator? c = none ∧ c ≠ '!' ∧ c ≠ '/') := by
  have hreading := reading_bracketed h
  have hoperators : (∀ c ∈ bracketed payload, operator? c = none) ↔
      ∀ c ∈ payload, operator? c = none := by
    simp [bracketed, operator?, or_imp, forall_and]
  have hothers : (∀ c ∈ bracketed payload, c ≠ '!' ∧ c ≠ '/') ↔
      ∀ c ∈ payload, c ≠ '!' ∧ c ≠ '/' := by
    simp [bracketed, or_imp, forall_and]
  have halone (hoperator : ∀ c ∈ payload, operator? c = none) :
      syntaxError? (bracketed payload) = none ∧
        lexemes (bracketed payload) = [⟨.setting, kept (bracketed payload)⟩] := by
    have hall : untilOperator (bracketed payload) = bracketed payload :=
      untilOperator_eq_self_iff.2 (hoperators.2 hoperator)
    have hnil : fromOperator (bracketed payload) = [] := by
      have happend := untilOperator_append_fromOperator (bracketed payload)
      rwa [hall, List.append_right_eq_self] at happend
    rw [hall, hnil, Pass.laterOutcome_nil] at hreading
    exact reading_eq_iff.1 hreading
  have hlexemes : lexemes (bracketed payload) = _ := congrArg Prod.fst hreading
  refine ⟨by rw [hlexemes]; rfl, halone, ?_⟩
  constructor
  · rintro ⟨-, hsame⟩
    rw [hlexemes, List.cons.injEq, Lexeme.mk.injEq] at hsame
    obtain ⟨⟨-, hkept⟩, -⟩ := hsame
    -- nothing can have been left out, so that no operator ends the token before the end
    have hlength := length_kept_le (untilOperator (bracketed payload))
    rw [hkept] at hlength
    have hall := (untilOperator_isPrefix (bracketed payload)).eq_of_length_le hlength
    rw [hall] at hkept
    have hoperator := hoperators.1 (untilOperator_eq_self_iff.1 hall)
    have hnone := hothers.1 ((kept_eq_self_iff _).1 hkept)
    exact fun c hc => ⟨hoperator c hc, hnone c hc⟩
  · intro hplain
    have hkept : kept (bracketed payload) = bracketed payload :=
      (kept_eq_self_iff _).2 (hothers.2 fun c hc => (hplain c hc).2)
    rw [hkept] at halone
    exact halone fun c hc => (hplain c hc).1

/-- The operator ends the token inside of brackets, and what comes before it has a slash and an
exclamation mark. -/
theorem lexemes_bracketed_operator :
    let payload := "suppressContractions [a/!b] <[#]".toList
    IsPayload payload ∧
      (lexemes (bracketed payload)).head? =
        some ⟨.setting, "[suppressContractions [a\uFFFFb] ".toList⟩ := by
  intro payload
  have hpayload : IsPayload payload := by decide +kernel
  have hkept : kept (untilOperator (bracketed payload)) =
      "[suppressContractions [a\uFFFFb] ".toList := by
    decide +kernel
  obtain ⟨hhead, -, -⟩ := lexemes_bracketed hpayload
  exact ⟨hpayload, by rw [hhead, hkept]⟩

/-- A set from an exclamation mark to a slash is not kept. -/
theorem lexemes_bracketed_set :
    ¬∀ payload, IsPayload payload → syntaxError? (bracketed payload) = none ∧
      lexemes (bracketed payload) = [⟨.setting, bracketed payload⟩] := by
  intro hverbatim
  obtain ⟨-, hlexemes⟩ := hverbatim "optimize [!-/]".toList (by decide +kernel)
  exact absurd hlexemes (by decide +kernel)

end CollationRules
