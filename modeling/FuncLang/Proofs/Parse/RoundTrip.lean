import FuncLang.Proofs.Parse.Clean
import FuncLang.Proofs.Program.Spelling
import FuncLang.Proofs.Scanner.Lossless

/-! # Printing and parsing

A parse is clean with a tree exactly if the sentence of the source spells that tree and the tree is
canonical. So canonical trees are printed as sources that are parsed to them, and the tree of a clean
parse is printed as a source that differs in blanks, comments and the case of keywords only.
-/

namespace FuncLang

/-- The trees of clean parses are the canonical ones that the sentence of the source spells. -/
theorem parse_clean_iff (source : String) (tree : Tree) :
    (parse source).isClean = true ∧ (parse source).program.toTree = tree ↔
      tree.IsCanonical ∧ tree.SpelledBy (sentence source) := by
  have clean : (parse source).isClean = true ↔ (reading source).raised = [] :=
    isClean_parseWith (by decide) source
  rw [← Program.exists_derives_iff fun token => isValid_of_mem_sentence, clean, parse,
    program_parseWith]
  constructor
  · rintro ⟨noProblem, rfl⟩
    exact ⟨_, rfl, (reading_clean_iff source _).mp ⟨noProblem, rfl⟩⟩
  · rintro ⟨program, rfl, derived⟩
    obtain ⟨noProblem, rfl⟩ := (reading_clean_iff source program).mpr derived
    exact ⟨noProblem, rfl⟩

/-- Nothing is printed as a comment. -/
theorem Tree.IsCanonical.significant_tokenize_print {tree : Tree} (canonical : tree.IsCanonical) :
    significant (tokenize tree.print) = tokenize tree.print := by
  refine List.filter_eq_self.mpr fun token member => ?_
  have among : token.lexeme ∈ (tokenize tree.print).map Token.lexeme := List.mem_map_of_mem member
  rw [canonical.lexemes_tokenize_print] at among
  have kinds : token.lexeme.kind ≠ .comment := by
    rcases List.mem_append.mp among with printed | last
    · have plain := (canonical.isPrinted _ printed).1.2
      intro comment
      simp [comment] at plain
    · rw [List.mem_singleton.mp last]
      decide
  simpa [Token.lexeme] using kinds

/-- The sentence of a printed tree spells it. -/
theorem Tree.IsCanonical.spelledBy_print {tree : Tree} (canonical : tree.IsCanonical) :
    tree.SpelledBy (sentence tree.print) := by
  obtain ⟨position, behind⟩ := significant_tokenize tree.print
  have tokens := canonical.lexemes_tokenize_print
  rw [← canonical.significant_tokenize_print, behind, List.map_append] at tokens
  have lexemes : (sentence tree.print).map Token.lexeme = tree.lexemes :=
    List.append_cancel_right tokens
  have fixed : ∀ lexeme ∈ tree.lexemes, lexeme.normalized = id lexeme :=
    fun lexeme printed => (canonical.isPrinted lexeme printed).2
  calc (sentence tree.print).map Token.normalized
      = ((sentence tree.print).map Token.lexeme).map Lexeme.normalized := by
        rw [List.map_map]
        rfl
    _ = tree.lexemes := by rw [lexemes, List.map_congr_left fixed, List.map_id]

/-- A canonical tree is printed as a source that is parsed to this tree without a diagnostic. The
tree of a clean parse is canonical, and it is printed with the tokens of the source, apart from
comments and from the case of keywords. -/
theorem print_parse_inverse :
    (∀ tree : Tree, tree.IsCanonical →
      (parse tree.print).diagnostics = [] ∧ (parse tree.print).program.toTree = tree) ∧
    (∀ source, (parse source).isClean = true →
      (parse source).program.toTree.IsCanonical ∧
        (tokenize (parse source).program.toTree.print).map Token.lexeme =
          (significant (tokenize source)).map Token.normalized) := by
  constructor
  · intro tree canonical
    obtain ⟨clean, same⟩ := (parse_clean_iff _ tree).mpr ⟨canonical, canonical.spelledBy_print⟩
    exact ⟨List.isEmpty_iff.mp clean, same⟩
  · intro source clean
    obtain ⟨canonical, spelled⟩ := (parse_clean_iff source _).mp ⟨clean, rfl⟩
    obtain ⟨position, behind⟩ := significant_tokenize source
    refine ⟨canonical, ?_⟩
    rw [canonical.lexemes_tokenize_print, behind, List.map_append, spelled]
    rfl

theorem print_parse_of_declared_sum :
    (parse "FUNC f(a, b) do return 1 + 2*3 # seven\n endfunc").isClean = true ∧
      (parse "FUNC f(a, b) do return 1 + 2*3 # seven\n endfunc").program.toTree.IsCanonical ∧
      (parse "func f ( a , b ) do return 1 + 2 * 3 endfunc").program.toTree =
        (parse "FUNC f(a, b) do return 1 + 2*3 # seven\n endfunc").program.toTree := by
  have clean : (parse "FUNC f(a, b) do return 1 + 2*3 # seven\n endfunc").isClean = true := by
    decide +kernel
  have canonical := (print_parse_inverse.2 _ clean).1
  have printed : (parse "FUNC f(a, b) do return 1 + 2*3 # seven\n endfunc").program.toTree.print =
      "func f ( a , b ) do return 1 + 2 * 3 endfunc" := by decide +kernel
  have same := (print_parse_inverse.1 _ canonical).2
  rw [printed] at same
  exact ⟨clean, canonical, same⟩

end FuncLang
