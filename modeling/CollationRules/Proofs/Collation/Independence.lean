import CollationRules.Proofs.Collation.Frame

/-! That compilations do not interfere. The settings of a rule string are gathered in its compiler,
but each of them is taken out when it is written and all are dropped where the rule string is wrong,
so that a compiler that has been used answers as a new one. -/

namespace CollationRules

open Markup (Builder)

namespace Compiler

/-- A call of a compiler. A builder that is written to may be one that an earlier call has
returned. -/
inductive Call
  | compile (source : List Char)
  | append (source : List Char) (out : Builder)

inductive Answer
  | compiled (result : Except Failure (List Char))
  | appended (failure : Option Failure) (out : Builder)

def call (compiler : Compiler) : Call → Answer × Compiler
  | .compile source =>
    let (result, next) := compiler.compile source
    (.compiled result, next)
  | .append source out =>
    let result := compiler.append source out
    (.appended result.failure result.out, result.compiler)

/-- The answers to calls one after the other, and the compiler after them. A call that fails does
not keep the next one from being made. -/
def calls (compiler : Compiler) : List Call → List Answer × Compiler
  | [] => ([], compiler)
  | first :: rest =>
    let (answer, next) := compiler.call first
    let (answers, last) := next.calls rest
    (answer :: answers, last)

/-- After a call nothing but its layout tells a compiler from another one. -/
theorem compiler_call (compiler : Compiler) (call : Call) :
    (compiler.call call).2 = { layout := compiler.layout } := by
  cases call with
  | compile source => exact compiler.compiler_compile source
  | append source out => exact compiler.compiler_append source out

theorem calls_new (layout : Layout) (history : List Call) :
    ({ layout } : Compiler).calls history =
      (history.map fun call => (({ layout } : Compiler).call call).1, { layout }) := by
  induction history with
  | nil => rfl
  | cons first rest ih =>
    have hnext : (({ layout } : Compiler).call first).2 = { layout } := compiler_call _ first
    simp only [calls, hnext, ih, List.map_cons]

/-- Whatever calls came before, on any rule strings and builders and with any outcome, a rule string
is compiled to what a new compiler compiles it to, and fails with the same error. So it is for the
calls themselves, each of which is answered as if it were the first. -/
theorem compile_calls (layout : Layout) (history : List Call) :
    let used := (({ layout } : Compiler).calls history).2
    (∀ source, (used.compile source).1 = (({ layout } : Compiler).compile source).1) ∧
      (∀ source out, (used.append source out).failure =
          (({ layout } : Compiler).append source out).failure ∧
        (used.append source out).out = (({ layout } : Compiler).append source out).out) ∧
      (({ layout } : Compiler).calls history).1 =
        history.map fun call => (({ layout } : Compiler).call call).1 := by
  intro used
  have hused : used = { layout } := by
    show (({ layout } : Compiler).calls history).2 = _
    rw [calls_new]
  refine ⟨fun source => ?_, fun source out => ?_, ?_⟩
  · rw [hused]
  · rw [hused]
    exact ⟨rfl, rfl⟩
  · rw [calls_new]

/-- Settings that were left in a compiler would be written with the next rule string. -/
example :
    (({ settings := { attributes := [⟨.numeric, "on".toList⟩] } } : Compiler).compile
        "&a".toList).1 =
      .ok "<settings numeric=\"on\"/>\n<rules>\n\t<reset>a</reset>\n</rules>\n".toList := by
  decide +kernel

end Compiler
end CollationRules
