import FuncLang.Grammar.Statement
import FuncLang.Session

/-! # Operations on sessions

The rules that a session can be asked to run, in any order and number. What an operation gives and what
it leaves unread depends on what was unread before it; the log is only written to.
-/

namespace FuncLang

/-- What a session can be asked to read. -/
inductive Operation where
  | program
  | statement
  | function
  | parameter
  | expression
  | additive
  | multiplicative
  | primary
deriving DecidableEq, Repr

namespace Operation

open Grammar (Rule)

/-- The rule for what is asked, which gives its tree. -/
def rule : Operation → Rule Tree
  | program => do return (← Grammar.program).toTree
  | statement => do return (← Grammar.statement).toTree
  | function => do return (← Grammar.function).toTree
  | parameter => do return (← Grammar.parameter).toTree
  | expression => do return (← Grammar.expression).toTree
  | additive => do return (← Grammar.additive).toTree
  | multiplicative => do return (← Grammar.multiplicative).toTree
  | primary => do return (← Grammar.primary).toTree

end Operation

namespace Unread

/-- What an operation makes of unread tokens. -/
def reading (unread : Unread) (operation : Operation) : Grammar.Reading Tree :=
  operation.rule.read unread.finish unread.tokens

/-- The diagnostics that an operation raises, whether or not there is room for them. -/
def raised (unread : Unread) (operation : Operation) : List Diagnostic :=
  (unread.reading operation).raised.map (·.toDiagnostic)

/-- The outcome of an operation: its tree, and the first diagnostic that it raises. -/
def outcome (unread : Unread) (operation : Operation) : Outcome Tree :=
  ⟨(unread.reading operation).value, (unread.raised operation).head?⟩

/-- What an operation leaves unread. -/
def behind (unread : Unread) (operation : Operation) : Unread :=
  ⟨(unread.reading operation).rest, unread.finish⟩

/-- What operations leave unread, one after the other. -/
def behindAll (unread : Unread) : List Operation → Unread
  | [] => unread
  | operation :: operations => (unread.behind operation).behindAll operations

/-- The diagnostics that operations raise, one after the other. -/
def raisedAll (unread : Unread) : List Operation → List Diagnostic
  | [] => []
  | operation :: operations =>
    unread.raised operation ++ (unread.behind operation).raisedAll operations

/-- What was raised by operations stays in front of what further ones raise. -/
theorem raisedAll_append (unread : Unread) (operations others : List Operation) :
    unread.raisedAll (operations ++ others) =
      unread.raisedAll operations ++ (unread.behindAll operations).raisedAll others := by
  induction operations generalizing unread with
  | nil => rfl
  | cons operation operations ih =>
    rw [List.cons_append, raisedAll, ih, raisedAll, behindAll, List.append_assoc]

end Unread

namespace Session

/-- Reads what is asked. -/
def perform (session : Session) (operation : Operation) : Outcome Tree × Session :=
  session.run operation.rule

/-- The session behind operations that are performed one after the other. -/
def after (session : Session) : List Operation → Session
  | [] => session
  | operation :: operations => (session.perform operation).2.after operations

/-- An operation does not look at the log, it only writes to it. -/
theorem perform_eq (session : Session) (operation : Operation) :
    session.perform operation = (session.unread.outcome operation,
      ⟨session.unread.behind operation, session.log.record (session.unread.raised operation)⟩) := rfl

/-- Behind several operations, what is unread does not depend on the log, and the log has been handed
all that they raised. -/
theorem after_eq (session : Session) (operations : List Operation) :
    session.after operations =
      ⟨session.unread.behindAll operations,
        session.log.record (session.unread.raisedAll operations)⟩ := by
  induction operations generalizing session with
  | nil => rw [Unread.raisedAll, Diagnostic.Log.record_nil]; rfl
  | cons operation operations ih =>
    rw [after, ih, perform_eq, Unread.raisedAll, Diagnostic.Log.record_append]
    rfl

end Session

end FuncLang
