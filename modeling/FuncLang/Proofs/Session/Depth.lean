import FuncLang.Proofs.Grammar.Depth
import FuncLang.Proofs.Session.Operation
import FuncLang.Parse

/-! # Sessions that count open declarations

A session remembers what is unread and what was recorded, but not how many declarations are open: each
operation starts outside of all declarations. A session that counts them remembers the count as well,
and hands it from one operation to the next. It makes no difference. Between operations no declaration
is open, whatever was read and however it ended, so a session that counts does what one does that does
not, and what it does next depends on nothing but what is unread.

In particular a program can be read in pieces: some statements one by one, and then the others as a
program.
-/

namespace FuncLang

open Grammar (Counted)

/-- Reads what is asked, while open declarations are counted. -/
def Operation.count (finish : Position) (opened : Nat) (unread : List Token) :
    Operation → Counted Tree unread
  | .program => (Grammar.countProgram finish opened unread).map Program.toTree
  | .statement => (Grammar.countOuterStatement finish opened unread).map Statement.toTree
  | .function => (Grammar.countFunction finish opened unread).map Statement.toTree
  | other => other.rule.counting opened finish unread

/-- Where no declaration is open, an operation reads what its rule reads, and none is open behind it. -/
theorem Operation.count_agrees (finish : Position) (unread : List Token) (operation : Operation) :
    (operation.count finish 0 unread).Agrees (operation.rule.read finish unread) 0 := by
  cases operation with
  | program => exact (Grammar.countProgram_agrees finish unread).map Program.toTree
  | statement => exact (Grammar.countOuterStatement_agrees finish unread).map Statement.toTree
  | function => exact (Grammar.countFunction_agrees finish unread).map Statement.toTree
  | parameter | expression | additive | multiplicative | primary => exact ⟨rfl, rfl⟩

/-- A session, and how many declarations are open. -/
structure CountingSession where
  session : Session
  opened : Nat

namespace CountingSession

/-- Stands at the start of a source, with room for `limit` diagnostics. -/
def ofSource (limit : Nat) (source : String) : CountingSession := ⟨.ofSource limit source, 0⟩

/-- What is unread. -/
def unread (counting : CountingSession) : Unread := counting.session.unread

/-- The diagnostics that were recorded. -/
def recorded (counting : CountingSession) : List Diagnostic := counting.session.recorded

/-- Reads what is asked, with the count that was left before. -/
def perform (counting : CountingSession) (operation : Operation) : Outcome Tree × CountingSession :=
  let counted := operation.count counting.unread.finish counting.opened counting.unread.tokens
  let diagnostics := counted.reading.raised.map (·.toDiagnostic)
  (⟨counted.reading.value, diagnostics.head?⟩,
    ⟨⟨⟨counted.reading.rest, counting.unread.finish⟩, counting.session.log.record diagnostics⟩,
      counted.opened⟩)

/-- The session behind operations that are performed one after the other. -/
def after (counting : CountingSession) : List Operation → CountingSession
  | [] => counting
  | operation :: operations => (counting.perform operation).2.after operations

/-- The outcomes of operations that are performed one after the other. -/
def outcomes (counting : CountingSession) : List Operation → List (Outcome Tree)
  | [] => []
  | operation :: operations =>
    (counting.perform operation).1 :: (counting.perform operation).2.outcomes operations

/-- Reads so many statements one by one, or fewer where the input ends. -/
def statements (counting : CountingSession) : Nat → List Tree × CountingSession
  | 0 => ([], counting)
  | count + 1 =>
    if counting.session.hasNext then
      let first := counting.perform .statement
      let others := first.2.statements count
      (first.1.value :: others.1, others.2)
    else ([], counting)

/-- A session that counts does what one does that does not. -/
theorem perform_eq (session : Session) (operation : Operation) :
    perform ⟨session, 0⟩ operation =
      ((session.perform operation).1, ⟨(session.perform operation).2, 0⟩) := by
  obtain ⟨reading, kept⟩ :=
    operation.count_agrees session.unread.finish session.unread.tokens
  rw [perform]
  dsimp only [unread]
  rw [reading, kept]
  rfl

theorem after_eq (session : Session) (operations : List Operation) :
    after ⟨session, 0⟩ operations = ⟨session.after operations, 0⟩ := by
  induction operations generalizing session with
  | nil => rfl
  | cons operation operations ih => rw [after, perform_eq, ih, Session.after]

theorem outcomes_eq_of_unread_eq {session session' : Session}
    (same : session.unread = session'.unread) (operations : List Operation) :
    outcomes ⟨session, 0⟩ operations = outcomes ⟨session', 0⟩ operations := by
  induction operations generalizing session session' with
  | nil => rfl
  | cons operation operations ih =>
    have behind : (session.perform operation).2.unread = (session'.perform operation).2.unread := by
      rw [Session.perform_eq, Session.perform_eq, same]
    rw [outcomes, outcomes, perform_eq, perform_eq, ih behind, Session.perform_eq,
      Session.perform_eq, same]

end CountingSession

namespace Session

/-- A log that is not full has dropped nothing. -/
theorem recorded_after_of_room {session : Session} {operations : List Operation}
    (room : (session.after operations).recorded.length < session.log.limit) :
    (session.after operations).recorded = session.recorded ++ session.unread.raisedAll operations := by
  have taken : (session.after operations).recorded =
      (session.recorded ++ session.unread.raisedAll operations).take session.log.limit := by
    rw [after_eq]
    rfl
  rw [taken, List.length_take] at room
  rw [taken, List.take_of_length_le (by omega)]

theorem limit_ofSource (limit : Nat) (source : String) (operations : List Operation) :
    ((ofSource limit source).after operations).log.limit = limit := by
  rw [after_eq]
  rfl

theorem unread_after (session : Session) (operations : List Operation) :
    (session.after operations).unread = session.unread.behindAll operations := by
  rw [after_eq]

/-- A program is its first statement and the program that follows. -/
theorem perform_program_of_hasNext {session : Session} (more : session.hasNext = true) :
    let first := session.perform .statement
    let others := first.2.perform .program
    (session.perform .program).1.value.children = first.1.value :: others.1.value.children ∧
      (session.perform .program).2 = others.2 := by
  obtain ⟨⟨tokens, finish⟩, log⟩ := session
  cases tokens with
  | nil => simp [hasNext, Unread.hasNext] at more
  | cons token tokens =>
    have unrolled := @Grammar.Rule.read_many_item _ (fun _ => false) token rfl
      Grammar.outerStatementAfter finish tokens
    constructor
    · simp [perform, run, Operation.rule, Grammar.program, unrolled, Program.toTree,
        Statement.toTrees]
    · simp [perform, run, Operation.rule, Grammar.program, unrolled, Diagnostic.Log.record_append]

end Session

/-- Reading some statements one by one and then the others is reading them all. -/
theorem CountingSession.statements_then_program (session : Session) (count : Nat) :
    let front := statements ⟨session, 0⟩ count
    let last := front.2.perform .program
    front.1 ++ last.1.value.children = (session.perform .program).1.value.children ∧
      last.2 = ⟨(session.perform .program).2, 0⟩ := by
  induction count generalizing session with
  | zero => simp [statements, perform_eq]
  | succ count ih =>
    rw [statements]
    split
    next more =>
      obtain ⟨children, behind⟩ := Session.perform_program_of_hasNext more
      obtain ⟨others, last⟩ := ih (session.perform .statement).2
      simp only [perform_eq, children, behind]
      exact ⟨congrArg (_ :: ·) others, last⟩
    next => simp [perform_eq]

/-- A parse is the program that is performed on a whole source. -/
theorem Session.perform_program (config : Config) (source : String) :
    ((ofSource config.limit source).perform .program).1.value = (parseWith config source).program.toTree ∧
      ((ofSource config.limit source).perform .program).2.recorded =
        (parseWith config source).diagnostics := by
  refine ⟨rfl, ?_⟩
  simp only [perform, Operation.rule, run, Grammar.Rule.read_bind, Grammar.Rule.read_pure,
    List.append_nil]
  rfl

/-- Between operations no declaration is open, whatever sessions that count have read. Where the same is
unread, the same operations have the same outcomes, leave the same unread and record the same further
diagnostics, as long as no log is full. And some statements read one by one, with the others read as a
program behind them, are the statements of the source when it is parsed as a whole, and so are the
diagnostics. -/
theorem future_depends_on_unread (source source' : String) (limit limit' : Nat)
    (past past' future : List Operation) :
    let one := (CountingSession.ofSource limit source).after past
    let other := (CountingSession.ofSource limit' source').after past'
    one.opened = 0 ∧
      one.session = (Session.ofSource limit source).after past ∧
      (one.unread = other.unread →
        one.outcomes future = other.outcomes future ∧
          (one.after future).unread = (other.after future).unread ∧
          ((one.after future).recorded.length < limit → (other.after future).recorded.length < limit' →
            ∃ raised, (one.after future).recorded = one.recorded ++ raised ∧
              (other.after future).recorded = other.recorded ++ raised)) ∧
      ∀ (config : Config) (count : Nat),
        let front := (CountingSession.ofSource config.limit source).statements count
        let last := front.2.perform .program
        front.1 ++ last.1.value.children = (parseWith config source).program.toTree.children ∧
          last.2.recorded = (parseWith config source).diagnostics ∧ last.2.opened = 0 := by
  intro one other
  have oneEq : one = ⟨(Session.ofSource limit source).after past, 0⟩ := CountingSession.after_eq _ past
  have otherEq : other = ⟨(Session.ofSource limit' source').after past', 0⟩ :=
    CountingSession.after_eq _ past'
  refine ⟨by rw [oneEq], by rw [oneEq], fun same => ?_, fun config count => ?_⟩
  · rw [oneEq, otherEq] at same ⊢
    rw [CountingSession.after_eq, CountingSession.after_eq]
    refine ⟨CountingSession.outcomes_eq_of_unread_eq same future, ?_, fun room room' => ?_⟩
    · exact (Session.unread_after _ future).trans
        ((congrArg (·.behindAll future) same).trans (Session.unread_after _ future).symm)
    · have kept := Session.recorded_after_of_room
        (Nat.lt_of_lt_of_eq room (Session.limit_ofSource limit source past).symm)
      have kept' := Session.recorded_after_of_room
        (Nat.lt_of_lt_of_eq room' (Session.limit_ofSource limit' source' past').symm)
      exact ⟨_, kept, kept'.trans (congrArg (_ ++ ·.raisedAll future) same.symm)⟩
  · obtain ⟨children, last⟩ :=
      CountingSession.statements_then_program (Session.ofSource config.limit source) count
    obtain ⟨program, recorded⟩ := Session.perform_program config source
    intro front behind
    rw [← program, ← recorded]
    exact ⟨children, congrArg CountingSession.recorded last, congrArg CountingSession.opened last⟩

/-- A token behind a declaration and the same token behind a return statement. -/
theorem future_behind_declaration_and_return :
    let one := (CountingSession.ofSource 8 "func f ( ) do endfunc y").after [.statement]
    let other := (CountingSession.ofSource 4 "return 1 + 2 * 3 - 45 y").after [.expression, .statement]
    one.unread = other.unread ∧
      one.outcomes [.function, .statement] = other.outcomes [.function, .statement] ∧
      ∃ raised, (one.after [.function, .statement]).recorded = one.recorded ++ raised ∧
        (other.after [.function, .statement]).recorded = other.recorded ++ raised := by
  intro one other
  have same : one.unread = other.unread := by decide +kernel
  have room : (one.after [.function, .statement]).recorded.length < 8 := by decide +kernel
  have room' : (other.after [.function, .statement]).recorded.length < 4 := by decide +kernel
  obtain ⟨-, -, known, -⟩ := future_depends_on_unread "func f ( ) do endfunc y"
    "return 1 + 2 * 3 - 45 y" 8 4 [.statement] [.expression, .statement] [.function, .statement]
  obtain ⟨outcomes, -, further⟩ := known same
  exact ⟨same, outcomes, further room room'⟩

end FuncLang
