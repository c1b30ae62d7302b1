import FuncLang.Diagnostic.Log
import FuncLang.Grammar.Rule

/-! # Sessions

A session runs one rule of the grammar after the other on what is left of a source. The problems
that the rules raise are recorded in a bounded log; the outcome of a rule tells its first problem
whether or not there was room for it.
-/

namespace FuncLang

/-- What a rule gives: a value, and the diagnostic of the first problem on the way to it. -/
structure Outcome (α : Type) where
  value : α
  diagnostic : Option Diagnostic
deriving Repr

/-- Whether the value was given in spite of a problem. -/
def Outcome.recovered {α : Type} (outcome : Outcome α) : Bool := outcome.diagnostic.isSome

/-- What is left of a source, and the diagnostics recorded so far. -/
structure Session where
  unread : Unread
  log : Diagnostic.Log
deriving DecidableEq, Repr

namespace Session

/-- Stands at the start of a source, with room for `limit` diagnostics. -/
def ofSource (limit : Nat) (source : String) : Session := ⟨.ofSource source, .empty limit⟩

/-- The next token, or the end of the input. -/
def current (session : Session) : Token := session.unread.current

/-- Whether there is a next token. -/
def hasNext (session : Session) : Bool := session.unread.hasNext

/-- The diagnostics that were recorded. -/
def recorded (session : Session) : List Diagnostic := session.log.entries

/-- Runs a rule, and stands behind what it read. -/
def run {α : Type} (session : Session) (rule : Grammar.Rule α) : Outcome α × Session :=
  let reading := rule.read session.unread.finish session.unread.tokens
  let diagnostics := reading.raised.map (·.toDiagnostic)
  (⟨reading.value, diagnostics.head?⟩,
    ⟨⟨reading.rest, session.unread.finish⟩, session.log.record diagnostics⟩)

end Session

end FuncLang
