import CollationRules.Proofs.Collation.Output
import CollationRules.Proofs.Rule.Calls

/-! That compilations end. A compilation asks for one token at a time and gathers it in a run, which
is written when a token comes that does not belong to it. It is over when the end of the rules has
been found twice, or with the first error, and this takes only a few more calls than the rule string
has characters. -/

namespace CollationRules

open Markup (Builder)
open Text (byteLength)

/-- How a compilation ends that has some runs left to write, and behind them an error in the syntax
if there is one, which leaves the last of them out. -/
def Emission.outcome (e : Emission) (runs : List Run) (error : Option SyntaxError) :
    Emission × Option Failure :=
  let (e, fault) := e.runs (if error.isSome then runs.dropLast else runs)
  (e, (fault.map Failure.config).or (error.map Failure.scan))

theorem Run.gather_ne_nil (run : Run) (tokens : List Token) : run.gather tokens ≠ [] := by
  induction tokens generalizing run with
  | nil => exact List.cons_ne_nil _ _
  | cons token rest ih =>
    unfold gather
    split
    · exact ih (run.add token)
    · exact List.cons_ne_nil _ _

theorem Emission.outcome_cons (e : Emission) (run : Run) {runs : List Run} (hne : runs ≠ [])
    (error : Option SyntaxError) :
    e.outcome (run :: runs) error =
      match e.run run with
      | .ok e => e.outcome runs error
      | .error fault => (e, some (.config fault)) := by
  have hruns : (if error.isSome then (run :: runs).dropLast else run :: runs) =
      run :: if error.isSome then runs.dropLast else runs := by
    rw [List.dropLast_cons_of_ne_nil hne]
    split <;> rfl
  unfold outcome
  rw [hruns, Emission.runs]
  cases e.run run <;> rfl

namespace Gathering

theorem finish?_more {g next : Gathering} (h : g.step = .more next) (limit : Nat) :
    g.finish? (limit + 1) = next.finish? limit := by
  rw [finish?, h]

theorem finish?_over {g : Gathering} {e : Emission} {failure : Option Failure}
    (h : g.step = .over e failure) (limit : Nat) : g.finish? (limit + 1) = some (e, failure) := by
  rw [finish?, h]

variable (e : Emission) {s : Scanner} {run : Run} {token : Token}

theorem step_of_ok (run : Option Run) (h : s.next.1 = .ok token) :
    (⟨e, run, s⟩ : Gathering).step = (⟨e, run, s⟩ : Gathering).take token s.next.2 := by
  unfold step
  cases hnext : s.next with
  | mk answer scanner =>
    rw [hnext] at h
    cases h
    rfl

theorem step_of_error (run : Option Run) {error : SyntaxError} (h : s.next.1 = .error error) :
    (⟨e, run, s⟩ : Gathering).step = .over e (some (.scan error)) := by
  unfold step
  cases hnext : s.next with
  | mk answer scanner =>
    rw [hnext] at h
    cases h
    rfl

/-- A token that belongs to the run that is gathered is added to it. -/
theorem step_of_accepts (hkind : run.kind ≠ .endOfRules) (h : s.next.1 = .ok token)
    (ha : run.accepts token) :
    (⟨e, some run, s⟩ : Gathering).step = .more ⟨e, some (run.add token), s.next.2⟩ := by
  rw [step_of_ok e _ h]
  simp only [take, hkind, ha, false_and, if_false, if_true]

/-- A run is written when a token comes that does not belong to it. -/
theorem step_of_not_accepts (hkind : run.kind ≠ .endOfRules) (h : s.next.1 = .ok token)
    (ha : ¬run.accepts token) :
    (⟨e, some run, s⟩ : Gathering).step =
      match e.run run with
      | .ok emission => .more ⟨emission, some (.ofToken token), s.next.2⟩
      | .error error => .over e (some (.config error)) := by
  rw [step_of_ok e _ h]
  simp only [take, hkind, false_and, if_false]
  exact if_neg ha

/-- Where the end of the rules has been found it is found again. -/
theorem step_ended (hkind : run.kind = .endOfRules) (hlater : s.first = false)
    (hend : s.rest = []) : (⟨e, some run, s⟩ : Gathering).step = .over e none := by
  have hanswer : s.next.1 = .ok (Token.finish (Span.ofOffsets s.offset s.offset)) := by
    rw [Scanner.next_of_end hlater hend]
  rw [step_of_ok e _ hanswer]
  exact if_pos ⟨hkind, rfl⟩

/-- A compilation that has gathered a run writes the runs that this one begins. -/
theorem finish?_gathered {limit : Nat} (hkind : run.kind ≠ .endOfRules)
    (hlimit : s.tokens.length ≤ limit) :
    (⟨e, some run, s⟩ : Gathering).finish? (limit + 2) =
      some (e.outcome (run.gather s.tokens) s.error?) := by
  -- By induction on the answers of the scanner, for every run that was gathered before them.
  induction s using Scanner.answers.induct generalizing e run limit with
  | case1 s error h =>
    rw [Scanner.tokens_of_error h, Scanner.error?_of_error h]
    exact finish?_over (step_of_error e (some run) h) _
  | case2 s token h hf =>
    have hfinish : token.kind = .endOfRules := beq_iff_eq.1 hf
    have ha : ¬run.accepts token := by simp [Run.accepts, hfinish, hkind]
    have hstep := step_of_not_accepts e hkind h ha
    obtain ⟨hend, hhalted⟩ := Scanner.halted_of_finish h hf
    rw [Scanner.tokens_of_finish h hf, Scanner.error?_of_finish h hf]
    simp only [Emission.outcome, Run.gather, Option.isSome_none, Bool.false_eq_true, if_false,
      Emission.runs]
    cases hrun : e.run run with
    | ok emission =>
      rw [hrun] at hstep
      rw [finish?_more hstep (limit + 1)]
      exact finish?_over (step_ended emission hfinish hhalted.later hend) limit
    | error error =>
      rw [hrun] at hstep
      exact finish?_over hstep (limit + 1)
  | case3 s token h hf ih =>
    have hmore : token.kind ≠ .endOfRules := fun hkind => hf (beq_iff_eq.2 hkind)
    rw [Scanner.tokens_of_token h hf] at hlimit ⊢
    rw [Scanner.error?_of_token h hf, Run.gather]
    obtain ⟨limit, rfl⟩ := Nat.exists_eq_add_of_le' hlimit
    split
    · rename_i ha
      exact (finish?_more (step_of_accepts e hkind h ha) _).trans (ih e hmore (by simp))
    · rename_i ha
      have hstep := step_of_not_accepts e hkind h ha
      rw [Emission.outcome_cons e run (Run.gather_ne_nil _ _)]
      cases hrun : e.run run with
      | ok emission =>
        rw [hrun] at hstep
        exact (finish?_more hstep _).trans (ih emission hmore (by simp))
      | error error =>
        rw [hrun] at hstep
        exact finish?_over hstep _

/-- A compilation writes the runs of the tokens that its scanner has left. -/
theorem finish?_start {limit : Nat} (hlimit : s.tokens.length ≤ limit) :
    (⟨e, none, s⟩ : Gathering).finish? (limit + 2) =
      some (e.outcome (Run.ofTokens s.tokens) s.error?) := by
  cases h : s.next.1 with
  | error error =>
    rw [Scanner.tokens_of_error h, Scanner.error?_of_error h]
    exact finish?_over (step_of_error e none h) _
  | ok token =>
    have hstep : (⟨e, none, s⟩ : Gathering).step = .more ⟨e, some (.ofToken token), s.next.2⟩ :=
      step_of_ok e none h
    rw [finish?_more hstep (limit + 1)]
    by_cases hf : token.isFinish
    · have hfinish : token.kind = .endOfRules := beq_iff_eq.1 hf
      obtain ⟨hend, hhalted⟩ := Scanner.halted_of_finish h hf
      rw [Scanner.tokens_of_finish h hf, Scanner.error?_of_finish h hf]
      exact finish?_over (step_ended e hfinish hhalted.later hend) limit
    · rw [Scanner.tokens_of_token h hf] at hlimit ⊢
      rw [Scanner.error?_of_token h hf]
      obtain ⟨limit, rfl⟩ := Nat.exists_eq_add_of_le' hlimit
      exact finish?_gathered e (fun hkind => hf (beq_iff_eq.2 hkind)) (by simp)

end Gathering

/-- Each token takes something away from the work of a scanner. -/
theorem Scanner.length_tokens_le (s : Scanner) : s.tokens.length ≤ s.work := by
  induction s using Scanner.answers.induct with
  | case1 s error h =>
    rw [tokens_of_error h]
    exact Nat.zero_le _
  | case2 s token h hf =>
    rw [tokens_of_finish h hf]
    exact Nat.zero_le _
  | case3 s token h hf ih =>
    have hless := work_next_lt h (by simpa using hf)
    rw [tokens_of_token h hf, List.length_cons]
    omega

/-- A compilation that is given three calls more than the rule string has characters is over, and
has come to the result of the compilation. Each call that gives a token moves the scanner on, or is
the first and implies a reset, or finds the end, which all calls after it find too. -/
theorem Compiler.append_ends (compiler : Compiler) (source : List Char) (out : Builder) :
    compiler.appendWithin? (source.length + 3) source out = some (compiler.append source out) ∧
      ∀ count token, (Scanner.after source count).next.1 = .ok token →
        (¬token.isFinish ∧
          (Scanner.after source count).offset < (Scanner.after source (count + 1)).offset) ∨
        (count = 0 ∧ token.lexeme = ⟨.reset, Draft.implicitReset⟩ ∧
          ∃ c rest strength, (Scanner.after source (count + 1)).rest = c :: rest ∧
            operator? c = some (.relation strength)) ∨
        (token.isFinish ∧ (Scanner.after source (count + 1)).offset = byteLength source ∧
          ∀ later > count, (Scanner.after source later).next.1 =
            .ok (Token.finish (Span.ofOffsets (byteLength source) (byteLength source)))) := by
  constructor
  · have hlength := (Scanner.ofSource source).length_tokens_le
    have hwork : (Scanner.ofSource source).work = source.length + 1 := rfl
    rw [hwork] at hlength
    rw [appendWithin?, Gathering.finish?_start _ hlength, append_eq_finish]
    rfl
  · intro count token h
    cases Scanner.proceeds h with
    | written more advances => exact .inl ⟨more, advances⟩
    | implied first lexeme relation =>
      exact .inr (.inl ⟨Scanner.first_after.1 first, lexeme, relation⟩)
    | ended finish =>
      obtain ⟨-, hoffset, hlater⟩ := Scanner.finish_after h finish
      exact .inr (.inr ⟨finish, hoffset, hlater⟩)

/-- A relation without a reset needs all of these calls: one for the reset that it implies, one for
the relation and two for the end. -/
theorem Compiler.append_ends_implied :
    let source := ['<']
    let out : Builder := { indent := .tab, baseDepth := 0 }
    (({} : Compiler).appendWithin? 3 source out).isNone ∧
      ({} : Compiler).appendWithin? (source.length + 3) source out =
        some (({} : Compiler).append source out) ∧
      (Scanner.after source 0).next.1 = .ok ⟨.reset, Draft.implicitReset, ⟨0, 0⟩⟩ ∧
      ∀ later > 2, (Scanner.after source later).next.1 = .ok (Token.finish ⟨1, 0⟩) := by
  intro source out
  obtain ⟨hends, hcalls⟩ := Compiler.append_ends {} source out
  have hanswer : (Scanner.after source 2).next.1 = .ok (Token.finish ⟨1, 0⟩) := by decide +kernel
  have hspan : Span.ofOffsets (byteLength source) (byteLength source) = ⟨1, 0⟩ := by decide +kernel
  refine ⟨by decide +kernel, hends, by decide +kernel, ?_⟩
  rcases hcalls 2 _ hanswer with ⟨hmore, -⟩ | ⟨hfirst, -⟩ | ⟨-, -, hlater⟩
  · exact absurd rfl hmore
  · cases hfirst
  · rwa [hspan] at hlater

end CollationRules
