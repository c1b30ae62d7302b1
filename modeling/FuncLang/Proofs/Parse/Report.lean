import FuncLang.Proofs.Diagnostic.Snippet
import FuncLang.Proofs.Parse.Clean
import FuncLang.Proofs.Scanner.Offset

/-! # Reports of a parse

Diagnostics of a parse tell a token of the source, and no token goes over the end of a line. So each of them
is displayed in one line, and the report of a parse can be split into its snippets again, whatever text the
lines are taken from that it shows.
-/

namespace FuncLang

variable {config : Config} {source : String} {diagnostic : Diagnostic}

/-- The text of a lexeme is part of what is written of it. -/
theorem Lexeme.IsValid.isOneLine_text {lexeme : Lexeme} (valid : lexeme.IsValid) : IsOneLine lexeme.text := by
  have oneLine := valid.feed_not_mem_written
  unfold written at oneLine
  split at oneLine
  · exact fun inside => oneLine (by simp [inside])
  · exact oneLine

/-- No token of a source goes over the end of a line. -/
theorem isOneLine_text_of_mem {token : Token} (member : token ∈ significant (tokenize source)) :
    IsOneLine token.text := by
  rw [significant_tokenize_eq] at member
  rcases List.mem_append.mp member with among | last
  · exact (isValid_of_mem_sentence among).isOneLine_text
  · have none : IsOneLine "" := by decide
    rwa [List.mem_singleton.mp last]

theorem Grammar.Fault.isOneLine_message (fault : Grammar.Fault) : IsOneLine fault.message := by
  cases fault <;> decide

theorem Grammar.Problem.isOneLine_display {problem : Grammar.Problem} (token : IsOneLine problem.token.text) :
    IsOneLine problem.toDiagnostic.display := by
  refine Diagnostic.isOneLine_display ?_ problem.fault.isOneLine_message
  unfold Grammar.Problem.toDiagnostic Grammar.Problem.cause
  dsimp only
  split
  · decide
  · have opening : IsOneLine "unexpected token '" := by decide
    exact (opening.append token).append (by decide)

theorem isOneLine_display_of_mem (member : diagnostic ∈ (parseWith config source).diagnostics) :
    IsOneLine diagnostic.display := by
  obtain ⟨problem, rfl, token⟩ := exists_problem_of_mem member
  exact problem.isOneLine_display (isOneLine_text_of_mem token)

/-- Each snippet of a parse consists of four lines, none of which is empty, and splitting its report at the
empty lines gives the snippets in the order of the diagnostics. This holds for any text that the snippets
show lines of, and for any name in one line. -/
theorem report_splits_into_snippets (config : Config) (source text name : String)
    (named : '\n' ∉ name.toList) :
    let diagnostics := (parseWith config source).diagnostics
    (∀ diagnostic ∈ diagnostics,
      ((diagnostic.snippet text name).toList.splitOn '\n').length = 4 ∧
        ∀ line ∈ (diagnostic.snippet text name).toList.splitOn '\n', line ≠ []) ∧
      (diagnostics ≠ [] →
        Text.blocks ((parseWith config source).report text name).toList =
          diagnostics.map fun diagnostic => (diagnostic.snippet text name).toList) := by
  intro diagnostics
  have displays : ∀ diagnostic ∈ diagnostics, IsOneLine diagnostic.display :=
    fun diagnostic => isOneLine_display_of_mem
  refine ⟨fun diagnostic member => ?_, fun some => Diagnostic.blocks_report some displays named text⟩
  rw [Diagnostic.splitOn_snippet (displays diagnostic member) named text]
  exact ⟨rfl, diagnostic.ne_nil_of_mem_snippetLines text name⟩

/-- Two diagnostics, one of them about a string, above lines of a text that has empty lines. -/
theorem report_splits_above_empty_lines :
    '\n' ∉ "a b".toList ∧
      Text.blocks ((parseWith .standard "\"x\" func").report "\n\n\r\n" "a b").toList =
        (parseWith .standard "\"x\" func").diagnostics.map
          fun diagnostic => (diagnostic.snippet "\n\n\r\n" "a b").toList := by
  have named : '\n' ∉ "a b".toList := by decide
  have some : (parseWith .standard "\"x\" func").diagnostics ≠ [] := by decide +kernel
  exact ⟨named, (report_splits_into_snippets _ _ _ _ named).2 some⟩

end FuncLang
