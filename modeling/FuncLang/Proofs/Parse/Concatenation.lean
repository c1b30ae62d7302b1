import FuncLang.Proofs.Grammar.Alike
import FuncLang.Proofs.Grammar.Lookahead
import FuncLang.Proofs.Parse.Clean
import FuncLang.Proofs.Scanner.LineBreak

/-! # Sources one below the other

A source is parsed on its own even when others stand above and below it, whatever is wrong with them.
Three things can come in between. Blanks that are no gaps are trimmed off at the ends of a source, and
are characters like others inside of one. A source that breaks off too early goes on in the one below
it. And a source that begins with an operator goes on with the one above it.
-/

namespace FuncLang

/-- The diagnostic that many lines further down. -/
def Diagnostic.below (diagnostic : Diagnostic) (lines : Nat) : Diagnostic :=
  { diagnostic with position := diagnostic.position.below lines }

namespace Grammar

/-- The problem that many lines further down. -/
def Problem.below (problem : Problem) (lines : Nat) : Problem :=
  ⟨problem.fault, problem.token.below lines⟩

/-- Whether the second token is the first one that many lines further down. -/
def IsBelow (lines : Nat) (token token' : Token) : Prop := token.below lines = token'

theorem indistinct_isBelow (lines : Nat) : Indistinct (IsBelow lines) := by
  rintro token _ rfl
  rfl

theorem below_of_alike_isBelow {lines : Nat} {problem problem' : Problem}
    (alike : problem.Alike (IsBelow lines) problem') : problem.below lines = problem' := by
  obtain ⟨fault', token'⟩ := problem'
  obtain ⟨rfl, rfl⟩ := alike
  rfl

/-- Further down the same is read, and the same problems show further down. -/
theorem read_program_below (finish : Position) (unread : List Token) (lines : Nat) :
    (program.read (finish.below lines) (unread.map (·.below lines))).value =
        (program.read finish unread).value ∧
      (program.read (finish.below lines) (unread.map (·.below lines))).raised =
        (program.read finish unread).raised.map (·.below lines) := by
  have tokens : List.Forall₂ (IsBelow lines) unread (unread.map (·.below lines)) :=
    List.forall₂_map_right_iff.mpr (List.forall₂_same.mpr fun _ _ => rfl)
  obtain ⟨value, raised, -⟩ :=
    program_alike (indistinct_isBelow lines) finish (finish.below lines) rfl unread _ tokens
  refine ⟨value.symm, ?_⟩
  rw [← List.forall₂_eq_eq_eq, List.forall₂_map_right_iff]
  exact raised.flip.imp fun _ _ alike => (below_of_alike_isBelow alike).symm

end Grammar

theorem endOfInput_finish_mem_tokenize (source : String) :
    Token.endOfInput (Unread.ofSource source).finish ∈ tokenize source := by
  obtain ⟨position, last⟩ := Scanner.last_drain (Scanner.ofSource source)
  have finish : (Unread.ofSource source).finish = position := congrArg Token.position last
  rw [finish, ← last]
  exact List.mem_append_right _ List.mem_cons_self

section Lines

variable {config : Config} {a b : String}

/-- Where no diagnostic is at the end of the input, nothing is wrong there. -/
theorem settled_reading (room : (reading a).raised.length ≤ config.limit)
    (complete : ∀ diagnostic ∈ (parseWith config a).diagnostics,
      Token.endOfInput diagnostic.position ∉ tokenize a) :
    Grammar.Settled (Unread.ofSource a).finish (reading a).raised := by
  intro problem member atEnd
  have kept : problem.toDiagnostic ∈ (parseWith config a).diagnostics :=
    diagnostics_parseWith_of_room room ▸ List.mem_map_of_mem member
  have position : problem.toDiagnostic.position = (Unread.ofSource a).finish := by
    rw [Grammar.Problem.toDiagnostic, atEnd]
    rfl
  apply complete _ kept
  rw [position]
  exact endOfInput_finish_mem_tokenize a

/-- The second source is read as it is read on its own. -/
theorem read_second (a b : String) :
    let lines := 1 + a.toList.count '\n'
    let second := Grammar.program.read (Unread.ofSource (a ++ "\n" ++ b)).finish
      ((sentence b).map (·.below lines))
    second.value = (reading b).value ∧ second.raised = (reading b).raised.map (·.below lines) := by
  by_cases blank : ∀ c ∈ b.toList, Text.isBlank c = true
  · rw [reading, sentence_of_blank blank]
    simp [Grammar.program]
  · rw [finish_append_line blank]
    exact Grammar.read_program_below ..

/-- The reading of both sources is that of the first and that of the second. -/
theorem reading_append_line (trailing : ∀ c ∈ Text.trailingBlanks a.toList, isGap c = true)
    (leading : ∀ c ∈ Text.leadingBlanks b.toList, isGap c = true)
    (settled : Grammar.Settled (Unread.ofSource a).finish (reading a).raised)
    (ends : Grammar.EndsStatement (sentence b)) :
    (reading (a ++ "\n" ++ b)).value.statements =
        (reading a).value.statements ++ (reading b).value.statements ∧
      (reading (a ++ "\n" ++ b)).raised =
        (reading a).raised ++ (reading b).raised.map (·.below (1 + a.toList.count '\n')) := by
  have endsBelow : Grammar.EndsStatement ((sentence b).map (·.below (1 + a.toList.count '\n'))) := by
    intro token next
    rw [List.head?_map] at next
    obtain ⟨first, same, rfl⟩ := Option.map_eq_some_iff.mp next
    exact ends first same
  obtain ⟨value, raised⟩ := read_second a b
  have read := Grammar.read_program_append settled endsBelow (Unread.ofSource (a ++ "\n" ++ b)).finish
  rw [reading, sentence_append_line trailing leading, read]
  exact ⟨congrArg (fun second => (reading a).value.statements ++ second.statements) value,
    congrArg ((reading a).raised ++ ·) raised⟩

end Lines

/-- Where no diagnostic is dropped, two sources with a line feed between them are parsed like each of them:
the program is that of the first with that of the second behind it, and so are the diagnostics, those
of the second so many lines further down. So many lines are added to the words that count them, and to their
numbers where words are enough. Around the line feed there may be no blanks but gaps, nothing may be wrong
at the end of the first source, and the second one may not begin with an operator. -/
theorem parseWith_append_line (config : Config) (a b : String)
    (trailing : ∀ c ∈ Text.trailingBlanks a.toList, isGap c = true)
    (leading : ∀ c ∈ Text.leadingBlanks b.toList, isGap c = true)
    (roomFirst : (reading a).raised.length ≤ config.limit)
    (room : (reading (a ++ "\n" ++ b)).raised.length ≤ config.limit)
    (complete : ∀ diagnostic ∈ (parseWith config a).diagnostics,
      Token.endOfInput diagnostic.position ∉ tokenize a)
    (ends : ∀ token ∈ (sentence b).head?, token.kind ≠ .operator) :
    (parseWith config (a ++ "\n" ++ b)).program.toTree.children =
        (parseWith config a).program.toTree.children ++ (parseWith config b).program.toTree.children ∧
      (parseWith config (a ++ "\n" ++ b)).diagnostics =
        (parseWith config a).diagnostics ++
          (parseWith config b).diagnostics.map (·.below (1 + a.toList.count '\n')) ∧
      (CountsInWords (a ++ "\n" ++ b) → ∀ diagnostic ∈ (parseWith config b).diagnostics,
        (diagnostic.below (1 + a.toList.count '\n')).position.coordinates =
          ⟨diagnostic.position.coordinates.line + (1 + a.toList.count '\n'),
            diagnostic.position.coordinates.column⟩) := by
  obtain ⟨statements, raised⟩ :=
    reading_append_line trailing leading (settled_reading roomFirst complete) ends
  have roomSecond : (reading b).raised.length ≤ config.limit := by
    rw [raised, List.length_append, List.length_map] at room
    omega
  refine ⟨?_, ?_, fun counted diagnostic member => ?_⟩
  · simp only [program_parseWith, Program.toTree, Statement.toTrees_eq_map, statements, List.map_append]
  · rw [diagnostics_parseWith_of_room room, diagnostics_parseWith_of_room roomFirst,
      diagnostics_parseWith_of_room roomSecond, raised, List.map_append, List.map_map, List.map_map]
    rfl
  · have solid : ¬ ∀ c ∈ b.toList, Text.isBlank c = true := by
      intro blank
      simp [diagnostics_parseWith, reading, sentence_of_blank blank, Grammar.program] at member
    obtain ⟨problem, rfl, significant⟩ := exists_problem_of_mem member
    exact counted.coordinates_below solid (List.mem_filter.mp significant).1

/-- A tab behind the comment of the first source, and a second source that breaks off. -/
theorem parseWith_append_line_of_broken :
    (∀ c ∈ Text.trailingBlanks "x\n1 # c\t".toList, isGap c = true) ∧
      (∀ c ∈ Text.leadingBlanks "\r return * 2 func".toList, isGap c = true) ∧
      (reading "x\n1 # c\t").raised.length ≤ Config.standard.limit ∧
      (reading ("x\n1 # c\t" ++ "\n" ++ "\r return * 2 func")).raised.length ≤ Config.standard.limit ∧
      (∀ diagnostic ∈ (parseWith .standard "x\n1 # c\t").diagnostics,
        Token.endOfInput diagnostic.position ∉ tokenize "x\n1 # c\t") ∧
      (∀ token ∈ (sentence "\r return * 2 func").head?, token.kind ≠ .operator) ∧
      (parseWith .standard ("x\n1 # c\t" ++ "\n" ++ "\r return * 2 func")).diagnostics =
        (parseWith .standard "x\n1 # c\t").diagnostics ++
          (parseWith .standard "\r return * 2 func").diagnostics.map (·.below 2) ∧
      ∀ diagnostic ∈ (parseWith .standard "\r return * 2 func").diagnostics,
        (diagnostic.below 2).position.coordinates =
          ⟨diagnostic.position.coordinates.line + 2, diagnostic.position.coordinates.column⟩ := by
  have trailing : ∀ c ∈ Text.trailingBlanks "x\n1 # c\t".toList, isGap c = true := by
    rw [show Text.trailingBlanks "x\n1 # c\t".toList = ['\t'] by decide +kernel]
    simp [isGap]
  have leading : ∀ c ∈ Text.leadingBlanks "\r return * 2 func".toList, isGap c = true := by
    rw [show Text.leadingBlanks "\r return * 2 func".toList = ['\r', ' '] by decide +kernel]
    simp [isGap]
  have roomFirst : (reading "x\n1 # c\t").raised.length ≤ Config.standard.limit := by
    decide +kernel
  have room : (reading ("x\n1 # c\t" ++ "\n" ++ "\r return * 2 func")).raised.length ≤
      Config.standard.limit := by decide +kernel
  have complete : ∀ diagnostic ∈ (parseWith .standard "x\n1 # c\t").diagnostics,
      Token.endOfInput diagnostic.position ∉ tokenize "x\n1 # c\t" := by decide +kernel
  have ends : ∀ token ∈ (sentence "\r return * 2 func").head?, token.kind ≠ .operator := by
    decide +kernel
  have counted : CountsInWords ("x\n1 # c\t" ++ "\n" ++ "\r return * 2 func") :=
    countsInWords_of_length_lt (by decide)
  obtain ⟨-, diagnostics, numbers⟩ :=
    parseWith_append_line .standard _ _ trailing leading roomFirst room complete ends
  exact ⟨trailing, leading, roomFirst, room, complete, ends, diagnostics, numbers counted⟩

end FuncLang
