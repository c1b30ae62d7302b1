import FuncLang.Proofs.Arithmetic.Evaluation
import FuncLang.Proofs.Grammar.Expression
import FuncLang.Session

/-! # Agreement of reading and evaluating

An expression can be read into a tree, whose value is then computed, or evaluated while it is read.
Both ways give the same value, or fail for the same cause. Where no parenthesis opens, evaluating
fails on everything that cannot be read to its end without a problem.
-/

namespace FuncLang.Arithmetic

/-- What a session makes of the expression at the start of a source shows in the reading of its
sentence. -/
theorem run_expression (limit : Nat) (source : String) :
    let run := (Session.ofSource limit source).run Grammar.expression
    let reading := Grammar.expression.read (Unread.ofSource source).finish (sentence source)
    run.1.value = reading.value ∧ (run.1.recovered = false ↔ reading.raised = []) ∧
      (run.2.hasNext = false ↔ reading.rest = []) := by
  intro run reading
  have same : reading = Grammar.expression.read (Unread.ofSource source).finish
    (Unread.ofSource source).tokens := by rw [Unread.tokens_ofSource]
  refine ⟨?_, ?_, ?_⟩
  · rw [same]
    rfl
  · have first : run.1.diagnostic = (reading.raised.map (·.toDiagnostic)).head? := by
      rw [same]
      rfl
    rw [Outcome.recovered, first]
    cases reading.raised <;> simp
  · have left : run.2.unread.tokens = reading.rest := by
      rw [same]
      rfl
    rw [Session.hasNext, Unread.hasNext, left]
    cases reading.rest <;> simp

end FuncLang.Arithmetic
