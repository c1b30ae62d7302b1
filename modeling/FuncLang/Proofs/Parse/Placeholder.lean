import FuncLang.Proofs.Grammar.Placeholder
import FuncLang.Proofs.Parse.Clean
import FuncLang.Proofs.Scanner.Lossless

/-! # Placeholders and diagnostics

The placeholders of a parse stand for its diagnostics, one for one and in order, once the diagnostics
about headers and ends of declarations are left out. This needs that no name in the source is one of
the two that placeholders have, since such a name makes a placeholder where nothing is wrong.
-/

namespace FuncLang

/-- Whether the node is a placeholder for what the diagnostic tells. -/
def Tree.StandsFor (node : Tree) (diagnostic : Diagnostic) : Prop :=
  match node.kind with
  | .missingExpression => diagnostic.message ∈
      ["expected integer literal", "expected expression, found end of input"]
  | .returnStatement => node.value = unsupportedStatement ∧
      diagnostic.message ∈ ["unsupported statement", "unrecognized character"]
  | .parameter =>
      node.value = unsupportedParameter ∧ diagnostic.message = "expected parameter name"
  | .functionDeclaration =>
      node.value = unsupportedFunction ∧ diagnostic.message = "function nesting too deep"
  | _ => False

/-- The messages about the parts of a declaration that no placeholder stands for. -/
def headerMessages : List String :=
  ["expected function name", "expected '(' after function name", "expected 'do' before function body",
   "expected ',' or ')' in parameter list", "missing 'endfunc'"]

namespace Grammar

theorem Fault.isHeader_iff_message (fault : Fault) :
    fault.isHeader = true ↔ fault.message ∈ headerMessages := by
  cases fault <;> decide

/-- The placeholder for the fault of a problem stands for its diagnostic. -/
theorem Problem.standsFor_toDiagnostic {problem : Problem} {node : Tree}
    (stands : problem.fault.placeholder? = some node.label) : node.StandsFor problem.toDiagnostic := by
  obtain ⟨fault, token⟩ := problem
  obtain ⟨kind, value, children⟩ := node
  change fault.placeholder? = some ⟨kind, value⟩ at stands
  cases fault with
  | expectedInteger | expectedExpression | unsupportedStatement | unrecognizedCharacter
  | expectedParameter | nestedTooDeep =>
    cases stands
    simp [Tree.StandsFor, Problem.toDiagnostic, Fault.message]
  | endOfInput | expectedFunc | expectedName | expectedOpening | expectedDo | missingEndfunc
  | expectedSeparator => cases stands

end Grammar

/-- The placeholders of a whole source come from its problems and from its names. -/
theorem held_sentence (source : String) :
    Grammar.Held (sentence source) (reading source).value.toTree.heldLabels (reading source).raised := by
  obtain ⟨read, same, labels, held, rfl⟩ :=
    Grammar.program_placed (sentence source) fun _ => isValid_of_mem_sentence
  exact held.mono (same ▸ List.subset_append_left _ _)

theorem mem_tokenize_of_mem_sentence {source : String} {token : Token}
    (member : token ∈ sentence source) : token ∈ tokenize source :=
  (List.mem_filter.mp member).1

/-- Where no diagnostic is dropped and no name reads like a placeholder, the placeholders of the tree and
the diagnostics come in pairs, apart from the diagnostics about the parts of a declaration that no
placeholder stands for. -/
theorem placeholders_match_diagnostics (config : Config) (source : String)
    (room : (reading source).raised.length ≤ config.limit)
    (free : ∀ token ∈ tokenize source, token.kind = .identifier →
      token.text ≠ Tree.unsupportedFunction ∧ token.text ≠ Tree.unsupportedParameter) :
    List.Forall₂ Tree.StandsFor (parseWith config source).program.toTree.placeholders
      ((parseWith config source).diagnostics.filter fun diagnostic =>
        diagnostic.message ∉ headerMessages) := by
  have names : ∀ token ∈ sentence source, token.kind = .identifier →
      ∀ label ∈ Grammar.namedLabels, token.text ≠ label.value := by
    intro token member identifier
    simpa [Grammar.namedLabels] using free token (mem_tokenize_of_mem_sentence member) identifier
  have kept : (fun diagnostic : Diagnostic => decide (diagnostic.message ∉ headerMessages)) ∘
      Grammar.Problem.toDiagnostic = fun problem => !problem.fault.isHeader := by
    funext problem
    rw [Bool.eq_iff_iff, Bool.not_eq_true', Bool.eq_false_iff, Ne, problem.fault.isHeader_iff_message]
    exact decide_eq_true_iff
  rw [program_parseWith, diagnostics_parseWith_of_room room, List.filter_map, kept,
    List.forall₂_map_right_iff]
  exact (List.forall₂_map_left_iff.mp ((held_sentence source).forall₂ names)).imp
    fun _ _ => Grammar.Problem.standsFor_toDiagnostic

/-- A declaration without a name, whose parameter list breaks off and in which an operand is missing. -/
theorem placeholders_of_broken_list :
    (reading "func (a, 1 do return * 2 $ endfunc x").raised.length ≤ Config.standard.limit ∧
      (∀ token ∈ tokenize "func (a, 1 do return * 2 $ endfunc x", token.kind = .identifier →
        token.text ≠ Tree.unsupportedFunction ∧ token.text ≠ Tree.unsupportedParameter) ∧
      (parseWith .standard "func (a, 1 do return * 2 $ endfunc x").program.toTree.placeholders.length
        = 4 := by
  have room : (reading "func (a, 1 do return * 2 $ endfunc x").raised.length ≤
      Config.standard.limit := by decide +kernel
  have free : ∀ token ∈ tokenize "func (a, 1 do return * 2 $ endfunc x", token.kind = .identifier →
      token.text ≠ Tree.unsupportedFunction ∧ token.text ≠ Tree.unsupportedParameter := by
    decide +kernel
  refine ⟨room, free, ?_⟩
  rw [(placeholders_match_diagnostics _ _ room free).length_eq]
  decide +kernel

/-- The placeholders of a clean parse are the declarations and the parameters with the names that
placeholders have, and these names are in the source. -/
theorem placeholders_of_isClean (source : String) (clean : (parse source).isClean = true) :
    (parse source).program.toTree.placeholders =
        (parse source).program.toTree.walk.filter (fun node => node.label ∈ Grammar.namedLabels) ∧
      ∀ node ∈ (parse source).program.toTree.placeholders,
        ∃ token ∈ tokenize source, token.kind = .identifier ∧ token.text = node.value := by
  have held := held_sentence source
  rw [(isClean_parseWith (by decide) source).mp clean] at held
  have named : ∀ node ∈ (parse source).program.toTree.placeholders,
      node.label ∈ Grammar.namedLabels ∧
        ∃ token ∈ sentence source, token.kind = .identifier ∧ token.text = node.value := by
    intro node member
    rw [parse, program_parseWith] at member
    exact held.of_mem (List.mem_map_of_mem member)
  refine ⟨List.filter_congr fun node walked => ?_, fun node member => ?_⟩
  · rw [Bool.eq_iff_iff, decide_eq_true_iff]
    constructor
    · intro placeholder
      exact (named node (List.mem_filter.mpr ⟨walked, placeholder⟩)).1
    · exact Grammar.isPlaceholder_of_mem_namedLabels
  · obtain ⟨token, among, name⟩ := (named node member).2
    exact ⟨token, mem_tokenize_of_mem_sentence among, name⟩

theorem placeholders_of_clean_namesake :
    (parse "func UnsupportedFunction(a) do endfunc").isClean = true ∧
      ∀ node ∈ (parse "func UnsupportedFunction(a) do endfunc").program.toTree.placeholders,
        ∃ token ∈ tokenize "func UnsupportedFunction(a) do endfunc",
          token.kind = .identifier ∧ token.text = node.value := by
  have clean : (parse "func UnsupportedFunction(a) do endfunc").isClean = true := by decide +kernel
  exact ⟨clean, (placeholders_of_isClean _ clean).2⟩

/-- A clean parse may have placeholders all the same. -/
theorem exists_clean_parse_with_placeholder :
    ¬ ∀ source, (parse source).isClean = true → (parse source).program.toTree.placeholders = [] := by
  intro none
  have clean : (parse "func UnsupportedFunction() do endfunc").isClean = true := by decide +kernel
  have some : (parse "func UnsupportedFunction() do endfunc").program.toTree.placeholders.length = 1 := by
    decide +kernel
  rw [none _ clean] at some
  cases some

end FuncLang
