import FuncLang.Parse
import FuncLang.Proofs.Grammar.Anchor
import FuncLang.Proofs.Grammar.Statement
import FuncLang.Proofs.Scanner.Sentence

/-! # Clean parses

What a parse makes of a source depends on its sentence alone, and nothing is wrong exactly if the rule
for programs raises no problem, whatever number of diagnostics is kept as long as it is not zero. The
sources of clean parses are those whose sentence spells a program.
-/

namespace FuncLang

open Grammar (Reading)

/-- What the rule for programs makes of a source. -/
def reading (source : String) : Reading Program :=
  Grammar.program.read (Unread.ofSource source).finish (sentence source)

theorem program_parseWith (config : Config) (source : String) :
    (parseWith config source).program = (reading source).value := by
  rw [reading, ← Unread.tokens_ofSource]
  rfl

theorem diagnostics_parseWith (config : Config) (source : String) :
    (parseWith config source).diagnostics =
      ((reading source).raised.map (·.toDiagnostic)).take config.limit := by
  rw [reading, ← Unread.tokens_ofSource]
  rfl

/-- Where there is room for them all, every problem has its diagnostic. -/
theorem diagnostics_parseWith_of_room {config : Config} {source : String}
    (room : (reading source).raised.length ≤ config.limit) :
    (parseWith config source).diagnostics = (reading source).raised.map (·.toDiagnostic) := by
  rw [diagnostics_parseWith, List.take_of_length_le (by rwa [List.length_map])]

/-- Every diagnostic of a parse comes from a problem that shows at a token of the source. -/
theorem exists_problem_of_mem {config : Config} {source : String} {diagnostic : Diagnostic}
    (member : diagnostic ∈ (parseWith config source).diagnostics) :
    ∃ problem : Grammar.Problem, problem.toDiagnostic = diagnostic ∧
      problem.token ∈ significant (tokenize source) := by
  rw [diagnostics_parseWith] at member
  obtain ⟨problem, among, same⟩ := List.mem_map.mp (List.mem_of_mem_take member)
  refine ⟨problem, same, ?_⟩
  rw [significant_tokenize_eq]
  exact ((Grammar.program_traces _ _).along.of_mem problem among).1

/-- One kept diagnostic is enough to tell that something is wrong. -/
theorem isClean_parseWith {config : Config} (room : 1 ≤ config.limit) (source : String) :
    (parseWith config source).isClean = true ↔ (reading source).raised = [] := by
  rw [Parse.isClean, diagnostics_parseWith, List.isEmpty_iff, List.take_eq_nil_iff,
    List.map_eq_nil_iff]
  exact ⟨fun none => none.resolve_left (by omega), .inr⟩

/-- The rule for programs reads a whole source. -/
theorem rest_reading (source : String) : (reading source).rest = [] := by
  have stops (finish : Position) (unread : List Token) :
      (Grammar.Rule.manyRead (fun _ => false) Grammar.outerStatementAfter finish unread).rest = [] := by
    fun_induction Grammar.Rule.manyRead (fun _ => false) Grammar.outerStatementAfter finish unread with
    | case1 => rfl
    | case2 token unread stop => simp at stop
    | case3 => assumption
  exact stops _ _

/-- A source is read without a problem exactly if its sentence spells a program, which is then the one
that is read. -/
theorem reading_clean_iff (source : String) (program : Program) :
    (reading source).raised = [] ∧ (reading source).value = program ↔
      program.Derives (sentence source) := by
  constructor
  · rintro ⟨clean, rfl⟩
    obtain ⟨tokens, same, derived⟩ := Grammar.program_accepts.sound clean
    rw [show (Grammar.program.read _ (sentence source)).rest = [] from rest_reading source,
      List.append_nil] at same
    rwa [same]
  · intro derived
    have read := Grammar.program_accepts.complete derived (Unread.ofSource source).finish [] rfl
    rw [List.append_nil] at read
    rw [reading, read]
    exact ⟨rfl, rfl⟩

end FuncLang
