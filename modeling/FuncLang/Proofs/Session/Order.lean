import FuncLang.Proofs.Grammar.Anchor
import FuncLang.Proofs.Scanner.Placement
import FuncLang.Proofs.Session.Limit

/-! # Diagnostics in the order of the source

Whatever a session is asked to read, one thing after the other, its problems show along the tokens of the
source. So the diagnostics that it records come in the order of the source, and each of them is about a
token of the source. Its position tells this token where words are enough for positions.
-/

namespace FuncLang

theorem Operation.rule_traces (operation : Operation) : operation.rule.Traces := by
  cases operation with
  | program => exact Grammar.program_traces.map _
  | statement => exact Grammar.statement_traces.map _
  | function => exact Grammar.function_traces.map _
  | parameter => exact Grammar.parameter_traces.map _
  | expression => exact Grammar.additive_traces.map _
  | additive => exact Grammar.additive_traces.map _
  | multiplicative => exact Grammar.multiplicative_traces.map _
  | primary => exact Grammar.primary_traces.map _

/-- The problems of several operations show along the tokens that these read one after the other. -/
theorem Unread.exists_traced (unread : Unread) (operations : List Operation) :
    ∃ reading : Grammar.Reading Unit, reading.Traced unread.finish unread.tokens ∧
      unread.raisedAll operations = reading.raised.map (·.toDiagnostic) := by
  induction operations generalizing unread with
  | nil => exact ⟨⟨(), [], unread.tokens⟩, .of_silent (List.suffix_refl _), rfl⟩
  | cons operation operations ih =>
    obtain ⟨others, traced, raised⟩ := ih (unread.behind operation)
    refine ⟨_, (operation.rule_traces unread.finish unread.tokens).append traced, ?_⟩
    rw [raisedAll, raised, List.map_append]
    rfl

/-- All that operations raise shows along the tokens of the source that are no comments. -/
theorem exists_along_tokenize (source : String) (operations : List Operation) :
    ∃ problems, Grammar.Along (significant (tokenize source)) problems ∧
      (Unread.ofSource source).raisedAll operations = problems.map (·.toDiagnostic) := by
  obtain ⟨reading, traced, raised⟩ := (Unread.ofSource source).exists_traced operations
  refine ⟨reading.raised, ?_, raised⟩
  rw [significant_tokenize_eq, ← Unread.tokens_ofSource]
  exact traced.along

/-- Whether the diagnostic is about the token. It is at the position of this token, and it either tells its
text, or it is about the structure of the source, and then the token is the end of the input or a `func`
that is nested too deep. -/
def Diagnostic.IsAbout (diagnostic : Diagnostic) (token : Token) : Prop :=
  token.position = diagnostic.position ∧
    (diagnostic.cause = .unexpectedToken token.text ∨
      diagnostic.cause = .structural ∧
        (token.isEnd = true ∨ token.isKeyword "func" = true ∧
          diagnostic.message = "function nesting too deep"))

theorem Grammar.Problem.isAbout_token {problem : Grammar.Problem} (fits : problem.Fits) :
    problem.toDiagnostic.IsAbout problem.token := by
  refine ⟨rfl, ?_⟩
  unfold toDiagnostic cause
  split
  next structural =>
    refine .inr ⟨rfl, (fits structural).imp_right ?_⟩
    rintro ⟨deep, func⟩
    exact ⟨func, congrArg Grammar.Fault.message deep⟩
  next => exact .inl rfl

end FuncLang
