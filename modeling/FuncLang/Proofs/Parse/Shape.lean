import FuncLang.Proofs.Expression.Spelling
import FuncLang.Proofs.Grammar.Contract
import FuncLang.Proofs.Parse.Clean
import FuncLang.Proofs.Scanner.Lossless
import FuncLang.Proofs.Tree.Shape

/-! # The shape of what is parsed

Every rule gives a tree of its shape for any tokens, whatever problems it raises: no way out of a
mistake leaves a node in a wrong place, a declaration without its body or one that is nested too deep.
-/

namespace FuncLang

namespace Grammar

variable {finish : Position} {room : Nat}

/-- An operand is a literal or a hole. -/
theorem primary_shape :
    primary.Gives finish fun value =>
      value.toTree.ExpressionShape ∧ value.toTree.FitsBehind .product := by
  refine (primary_picks.keeps (fun token _ valid integer => ?_) (fun _ _ => ?_) fun _ _ => ?_).gives id
  · have isNumber : Lexeme.IsNumber token.text.toList := by
      simpa [Lexeme.IsValid, Token.lexeme, integer] using valid
    exact ⟨.integer isNumber, rfl⟩
  · exact ⟨.missing, rfl⟩
  · exact ⟨.missing, rfl⟩

/-- Operands that may stand behind the operators of a level make a chain that may stand before
them. -/
theorem chain_shape {level : Level} {operand : Rule Expression}
    (operands : operand.Gives finish fun value =>
      value.toTree.ExpressionShape ∧ value.toTree.FitsBehind level) :
    (chain level operand).Gives finish fun value =>
      value.toTree.ExpressionShape ∧ value.toTree.StandsBefore level := by
  refine chain_gives operands ?_ ?_
  · rintro _ ⟨shape, behind⟩
    exact ⟨shape, shape.standsBefore behind⟩
  · rintro left right operator ⟨shapeLeft, before⟩ rfl ⟨shapeRight, behind⟩
    refine ⟨.binary shapeLeft shapeRight before behind, ?_⟩
    cases level : operator.level with
    | sum => trivial
    | product => exact Tree.not_isSum_binary level _ _

theorem expression_shape : expression.Gives finish fun value => value.toTree.ExpressionShape := by
  -- What may stand before the operators of a product may stand behind those of a sum.
  have products : multiplicative.Gives finish fun value =>
      value.toTree.ExpressionShape ∧ value.toTree.FitsBehind .sum := chain_shape primary_shape
  exact fun unread valid => (chain_shape products unread valid).1

variable {declaration : Token → Rule Statement}

/-- A statement has one of the four forms if declarations have. -/
theorem statementAfter_shape (declarations : ∀ opening, (declaration opening).Gives finish
      fun statement => statement.toTree.StatementShape room) (first : Token) :
    (statementAfter declaration first).Gives finish
      fun statement => statement.toTree.StatementShape room := by
  unfold statementAfter
  split
  · exact expression_shape.map fun shape => .returns shape
  · split
    · exact declarations first
    · exact fun _ _ => .unsupported

theorem statements_shape (declarations : ∀ opening, (declaration opening).Gives finish
      fun statement => statement.toTree.StatementShape room) (stops : Token → Bool) :
    (Rule.many stops (statementAfter declaration)).Gives finish
      fun body => ∀ tree ∈ Statement.toTrees body, tree.StatementShape room := by
  intro unread valid
  rw [Statement.toTrees_eq_map, List.forall_mem_map]
  exact Rule.many_gives (statementAfter_shape declarations) unread valid

/-- By induction on how deep declarations may be nested. -/
theorem declarationAfter_shape (room : Nat) (opening : Token) :
    (declarationAfter room opening).Gives finish
      fun statement => statement.toTree.StatementShape room := by
  induction room generalizing opening with
  | zero => exact fun _ _ => .unsupportedFunction
  | succ room ih =>
    intro unread valid
    rw [read_declarationAfter_succ]
    refine .function (List.forall_mem_map.mpr fun parameter _ => ?_) ?_
    · cases parameter <;> exact ⟨rfl, rfl⟩
    · have inside := (((Rule.expect (isWord "do") .expectedDo).rest_suffix finish _).trans
        (parameterSection.rest_suffix finish _)).trans (functionName.rest_suffix finish unread)
      exact statements_shape ih _ _ fun token member => valid token (inside.subset member)

theorem program_shape : program.Gives finish fun program => program.toTree.ProgramShape :=
  Rule.Gives.map (statements_shape (declarationAfter_shape maxNesting) _)
    fun shapes => ⟨_, rfl, shapes⟩

end Grammar

/-- Every parse gives a program of statements in their four forms. There is no node in it of a kind
that programs have not, and no hole in the place of a statement; and on no path down there are more
than 128 declarations with a body, or more than 129 with the placeholders. -/
theorem programShape_parseWith (config : Config) (source : String) :
    (parseWith config source).program.toTree.ProgramShape ∧
      (∀ node ∈ (parseWith config source).program.toTree.walk,
        node.kind ∉ [.term, .operator, .identifier] ∧
          (node.kind ∈ [.program, .functionBody] →
            ∀ child ∈ node.children, child.isMissing = false)) ∧
      ∀ path, Tree.IsPath ((parseWith config source).program.toTree :: path) →
        ((parseWith config source).program.toTree :: path).countP Tree.hasBody ≤ 128 ∧
          ((parseWith config source).program.toTree :: path).countP Tree.isDeclaration ≤ 129 := by
  have shape : (parseWith config source).program.toTree.ProgramShape := by
    rw [program_parseWith]
    exact Grammar.program_shape (sentence source) fun _ => isValid_of_mem_sentence
  exact ⟨shape, shape.isRegular_of_mem_walk, fun path => shape.countP_le⟩

end FuncLang
