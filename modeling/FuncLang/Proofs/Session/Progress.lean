import FuncLang.Proofs.Grammar.Anchor
import FuncLang.Proofs.Grammar.Size
import FuncLang.Proofs.Parse.Clean
import FuncLang.Proofs.Session.Operation

/-! # Progress, and what a source can amount to

No operation gives tokens back, and a statement reads one at least where one is left. So reading statements
comes to the end of the input after as many of them as there are tokens at most, and reading a program
always does. Some operations read nothing where something is wrong; still no tree is larger, and no list of
diagnostics longer, than the tokens of the source account for.
-/

namespace FuncLang

namespace Grammar

/-- A program is read up to the end of the input. -/
theorem rest_program (finish : Position) (unread : List Token) :
    (program.read finish unread).rest = [] := by
  have stop := Rule.stops_head?_rest_many (fun _ => false) outerStatementAfter finish unread
  cases rest : ((Rule.many (fun _ => false) outerStatementAfter).read finish unread).rest with
  | nil => exact rest
  | cons token others => simp [rest] at stop

/-- A statement reads its first token, and all that is left is behind that one. -/
theorem rest_statement_suffix (finish : Position) (token : Token) (unread : List Token) :
    (statement.read finish (token :: unread)).rest <:+ unread := by
  rw [read_statement_cons]
  exact (outerStatementAfter token).rest_suffix finish unread

end Grammar

namespace Session

variable (session : Session)

/-- What an operation reads is a beginning of what was unread. -/
theorem exists_read (operation : Operation) :
    ∃ read, session.unread.tokens = read ++ (session.perform operation).2.unread.tokens := by
  obtain ⟨read, same⟩ := operation.rule.rest_suffix session.unread.finish session.unread.tokens
  exact ⟨read, same.symm⟩

/-- A statement leaves fewer tokens. -/
theorem length_behind_statement (more : session.hasNext = true) :
    (session.perform .statement).2.unread.tokens.length < session.unread.tokens.length := by
  obtain ⟨⟨tokens, finish⟩, log⟩ := session
  cases tokens with
  | nil => cases more
  | cons token tokens =>
    apply Nat.lt_succ_of_le
    exact (Grammar.rest_statement_suffix finish token tokens).length_le

theorem length_behind_le (operation : Operation) :
    (session.perform operation).2.unread.tokens.length ≤ session.unread.tokens.length :=
  operation.rule.length_rest_le session.unread.finish session.unread.tokens

theorem hasNext_iff : session.hasNext = true ↔ 0 < session.unread.tokens.length := by
  rw [hasNext, Unread.hasNext, List.length_pos_iff, Bool.not_eq_true', List.isEmpty_eq_false_iff]

/-- Statement after statement, the input ends after as many of them as there are tokens at most. -/
theorem hasNext_after_statements {count : Nat} (enough : session.unread.tokens.length ≤ count) :
    (session.after (List.replicate count .statement)).hasNext = false := by
  induction count generalizing session with
  | zero =>
    rw [← Bool.not_eq_true, hasNext_iff]
    exact Nat.not_lt_of_le enough
  | succ count ih =>
    apply ih
    have behind := session.length_behind_le .statement
    by_cases more : session.hasNext = true
    · have fewer := session.length_behind_statement more
      omega
    · rw [hasNext_iff] at more
      omega

theorem isEnd_behind_program : (session.perform .program).2.current.isEnd = true := by
  have rest : (session.perform .program).2.unread.tokens = [] :=
    Grammar.rest_program session.unread.finish session.unread.tokens
  rw [current, Unread.current, rest, lookahead_nil, Token.isEnd_endOfInput]

end Session

/-- What a parse raises is what the operation does that reads a program. -/
theorem raised_program (source : String) :
    (Unread.ofSource source).raised .program = (reading source).raised.map (·.toDiagnostic) := by
  rw [reading, ← Unread.tokens_ofSource]
  exact congrArg (List.map _) (List.append_nil _)

/-- In every state, no operation gives tokens back, and a statement reads at least one where one is left.
So statement after statement the input ends after as many of them as there are tokens at most, and behind
a program it has ended. The tree of a source with so many tokens, comments left out, has no more than twice
as many nodes and one, and no more than four times as many diagnostics are raised, however many of them are
recorded. -/
theorem progress_within_tokens (session : Session) (config : Config) (source : String) :
    (∀ operation, ∃ read,
      session.unread.tokens = read ++ (session.perform operation).2.unread.tokens ∧
        (operation = .statement → session.hasNext = true → read ≠ [])) ∧
    (∀ count, session.unread.tokens.length ≤ count →
      (session.after (List.replicate count .statement)).hasNext = false) ∧
    (session.perform .program).2.current.isEnd = true ∧
    (parseWith config source).program.toTree.size ≤ 2 * (sentence source).length + 1 ∧
    (parseWith config source).diagnostics.length ≤ ((Unread.ofSource source).raised .program).length ∧
    ((Unread.ofSource source).raised .program).length ≤ 4 * (sentence source).length := by
  obtain ⟨nodes, problems⟩ :=
    Grammar.program_costs (Unread.ofSource source).finish (sentence source)
  refine ⟨fun operation => ?_, fun count => session.hasNext_after_statements,
    session.isEnd_behind_program, ?_, ?_, ?_⟩
  · obtain ⟨read, same⟩ := session.exists_read operation
    refine ⟨read, same, ?_⟩
    rintro rfl more rfl
    have fewer := session.length_behind_statement more
    rw [same, List.nil_append] at fewer
    omega
  · rw [program_parseWith, reading]
    omega
  · rw [diagnostics_parseWith, raised_program]
    exact List.length_take_le' ..
  · rw [raised_program, List.length_map, reading]
    omega

-- Neither number can be lowered: a `func` that nothing follows is a declaration with a body, and lacks a
-- name, its parentheses, its `do` and its `endfunc`.
example : (parse "func func").program.toTree.size = 5 ∧ (parse "func func").diagnostics.length = 8 := by
  decide +kernel

theorem progress_within_funcs :
    let session := Session.ofSource 1 "func func # x\n func"
    session.unread.tokens.length ≤ 3 ∧
      (session.after (List.replicate 3 .statement)).hasNext = false ∧
      (parse "func func # x\n func").program.toTree.size ≤ 7 ∧
      ((Unread.ofSource "func func # x\n func").raised .program).length ≤ 12 := by
  intro session
  have enough : session.unread.tokens.length ≤ 3 := by decide +kernel
  have few : (sentence "func func # x\n func").length = 3 := by decide +kernel
  obtain ⟨-, ended, -, nodes, -, problems⟩ :=
    progress_within_tokens session .standard "func func # x\n func"
  rw [few] at nodes problems
  exact ⟨enough, ended 3 enough, nodes, problems⟩

end FuncLang
