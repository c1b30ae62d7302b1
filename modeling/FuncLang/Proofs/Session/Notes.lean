import FuncLang.Proofs.Grammar.Notes
import FuncLang.Proofs.Session.Operation

/-! # What is recorded of an operation and what its outcome tells

A session that keeps notes records every diagnostic as soon as a check is not passed, and makes up the
outcome of an operation out of the slots of the rules that were followed. What it comes to is what a session
gives that takes both from one list of problems. So the log and the outcome always agree: each check that is
not passed is recorded once, and the outcome tells the first one.
-/

namespace FuncLang

open Grammar (Check Noting)

/-- The rule for what is asked, with notes. A program absorbs its statements as a body does. -/
def Operation.noting : Operation → Noting (Outcome Tree)
  | program => do return (← Noting.program).map Program.toTree
  | statement => do return (← Noting.statement).map Statement.toTree
  | function => do return (← Noting.function).map Statement.toTree
  | parameter => do return (← Noting.parameter).map Parameter.toTree
  | expression => do return (← Noting.expression).map Expression.toTree
  | additive => do return (← Noting.additive).map Expression.toTree
  | multiplicative => do return (← Noting.multiplicative).map Expression.toTree
  | primary => do return (← Noting.primary).map Expression.toTree

theorem Operation.noting_answers (operation : Operation) : operation.noting.Answers operation.rule := by
  cases operation with
  | program => exact Noting.program_answers.map _
  | statement => exact Noting.statement_answers.map _
  | function => exact Noting.function_answers.map _
  | parameter => exact Noting.parameter_answers.map _
  | expression => exact Noting.additive_answers.map _
  | additive => exact Noting.additive_answers.map _
  | multiplicative => exact Noting.multiplicative_answers.map _
  | primary => exact Noting.primary_answers.map _

namespace Session

/-- What comes of an operation when notes are kept. -/
structure Noted where
  outcome : Outcome Tree
  session : Session
  /-- The checks that were made, in order. -/
  checks : List Check

/-- Reads what is asked, with notes. No rule is being followed before. -/
def note (session : Session) (operation : Operation) : Noted :=
  let noted := operation.noting.read session.unread.finish session.unread.tokens ⟨session.log, none, []⟩
  ⟨noted.value, ⟨⟨noted.rest, session.unread.finish⟩, noted.notes.log⟩, noted.notes.checks⟩

/-- Keeping notes comes to the same, and the checks that are not passed are all that is raised. -/
theorem note_eq (session : Session) (operation : Operation) :
    ((session.note operation).outcome, (session.note operation).session) = session.perform operation ∧
      ((session.note operation).checks.filter (!·.passed)).map (·.diagnostic) =
        session.unread.raised operation := by
  obtain ⟨checks, failed, same⟩ :=
    operation.noting_answers session.unread.finish session.unread.tokens
  have noted : session.note operation = ⟨(session.perform operation).1, (session.perform operation).2,
      checks⟩ := by
    simp only [note, same, Grammar.Notes.behind, failed]
    rfl
  rw [noted]
  refine ⟨rfl, ?_⟩
  have raised := congrArg (List.map (·.toDiagnostic)) failed
  rw [Grammar.failures, List.map_map] at raised
  exact raised

end Session

/-- In a session with room for all that an operation raises, it does not matter that outcomes and the log are
kept apart. The diagnostics of the checks that are not passed, one of each, are recorded behind what was
recorded before. The operation recovers exactly if there are any, and its outcome tells the first. -/
theorem failures_recorded_once (session : Session) (operation : Operation)
    (room : session.recorded.length + (session.unread.raised operation).length ≤ session.log.limit) :
    let noted := session.note operation
    let failed := (noted.checks.filter (!·.passed)).map (·.diagnostic)
    (noted.outcome, noted.session) = session.perform operation ∧
      noted.session.recorded = session.recorded ++ failed ∧
      (noted.outcome.recovered = false ↔ failed = []) ∧
      noted.outcome.diagnostic = failed.head? := by
  obtain ⟨same, failed⟩ := session.note_eq operation
  have outcome : (session.note operation).outcome = (session.perform operation).1 := congrArg Prod.fst same
  have behind : (session.note operation).session = (session.perform operation).2 := congrArg Prod.snd same
  dsimp only
  rw [failed]
  refine ⟨same, ?_, ?_, ?_⟩
  · rw [behind]
    refine List.take_of_length_le ?_
    rw [List.length_append]
    exact room
  · rw [outcome, Session.perform_eq]
    simp [Outcome.recovered, Unread.outcome]
  · rw [outcome]
    rfl

/-- A name is missing, and in the body an operand, of a statement of a declaration inside. -/
theorem failures_recorded_at_name_and_operand :
    let session := ((Session.ofSource 8 "func ( a ) do func g ( ) do return 1 + endfunc endfunc").perform
      .primary).2
    let noted := session.note .statement
    let failed := (noted.checks.filter (!·.passed)).map (·.diagnostic)
    session.recorded.length + (session.unread.raised .statement).length ≤ session.log.limit ∧
      session.recorded.length = 1 ∧ failed.length = 2 ∧
      noted.session.recorded = session.recorded ++ failed ∧ noted.outcome.diagnostic = failed.head? := by
  intro session noted failed
  have room : session.recorded.length + (session.unread.raised .statement).length ≤ session.log.limit := by
    decide +kernel
  obtain ⟨-, recorded, -, first⟩ := failures_recorded_once session .statement room
  exact ⟨room, by decide +kernel, by decide +kernel, recorded, first⟩

end FuncLang
