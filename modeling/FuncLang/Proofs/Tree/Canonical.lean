import FuncLang.Expression
import FuncLang.Proofs.Lexeme.Segment

/-! # Canonical trees

Which trees programs without placeholders have. A tree does not show parentheses, so an expression is
grouped the way its operators bind: a product takes no sum on either side and no product on its right,
and a sum takes no sum on its right.
-/

namespace FuncLang.Tree

/-- Whether the tree is an addition or a subtraction. -/
def IsSum (tree : Tree) : Prop :=
  tree.kind = .expression ∧ (tree.value = "+" ∨ tree.value = "-")

/-- Whether the tree may be the left operand of an operator of the level. -/
def StandsBefore : Level → Tree → Prop
  | .product, tree => ¬ tree.IsSum
  | .sum, _ => True

/-- Whether the tree may be the right operand of an operator of the level. -/
def StandsBehind : Level → Tree → Prop
  | .product, tree => tree.kind = .integer
  | .sum, tree => ¬ tree.IsSum

/-- Digits, or operators with two operands each that are grouped as they bind. -/
inductive IsExpression : Tree → Prop
  | integer {digits : String} (isNumber : Lexeme.IsNumber digits.toList) :
      IsExpression (.leaf .integer digits)
  | binary {operator : Operator} {left right : Tree} (isLeft : left.IsExpression)
      (isRight : right.IsExpression) (before : left.StandsBefore operator.level)
      (behind : right.StandsBehind operator.level) :
      IsExpression (.binary operator.symbol left right)

/-- A name that is not reserved. -/
def IsFreeName (name : String) : Prop :=
  Lexeme.IsName name.toList ∧ ¬ Lexeme.IsReserved name.toList

/-- The children of a function declaration: its parameters, and its body behind them. -/
def declared (parameters : List String) (body : List Tree) : List Tree :=
  parameters.map (.leaf .parameter) ++ [⟨.functionBody, "", body⟩]

/-- A `return` with one expression, or a function with a name, named parameters and one body. The
number is how deep declarations may be nested. -/
inductive IsStatement : Nat → Tree → Prop
  | returns {nesting : Nat} {value : Tree} (isExpression : value.IsExpression) :
      IsStatement nesting ⟨.returnStatement, "", [value]⟩
  | function {nesting : Nat} {name : String} {parameters : List String} {body : List Tree}
      (isName : IsFreeName name) (areNames : ∀ parameter ∈ parameters, IsFreeName parameter)
      (areStatements : ∀ statement ∈ body, IsStatement nesting statement) :
      IsStatement (nesting + 1) ⟨.functionDeclaration, name, declared parameters body⟩

/-- A program of statements in which at most 128 declarations are nested in one another. -/
def IsCanonical (tree : Tree) : Prop :=
  ∃ statements, tree = ⟨.program, "", statements⟩ ∧
    ∀ statement ∈ statements, IsStatement 128 statement

end FuncLang.Tree
