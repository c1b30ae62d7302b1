import FuncLang.Token
import FuncLang.Tree

/-! # Expressions

The four operators stand on two levels: products bind tighter than sums. An operand is an integer
literal, or a hole where one was due.
-/

namespace FuncLang

/-- How tightly an operator binds. -/
inductive Level where
  | sum
  | product
deriving DecidableEq, Repr

/-- An operator between two integers. -/
inductive Operator where
  | add
  | subtract
  | multiply
  | divide
deriving DecidableEq, Repr

namespace Operator

/-- The text of the operator. -/
def symbol : Operator → String
  | add => "+"
  | subtract => "-"
  | multiply => "*"
  | divide => "/"

/-- The level on which the operator stands. -/
def level : Operator → Level
  | add | subtract => .sum
  | multiply | divide => .product

end Operator

/-- The operators of a level. -/
def Level.operators : Level → List Operator
  | sum => [.add, .subtract]
  | product => [.multiply, .divide]

/-- The operator of the level that the token is, if it is one. -/
def Level.operator? (level : Level) (token : Token) : Option Operator :=
  level.operators.find? fun operator => token.is .operator operator.symbol

theorem Level.mem_operators {level : Level} {operator : Operator} :
    operator ∈ level.operators ↔ operator.level = level := by
  cases level <;> cases operator <;> decide

/-- The operator found in a token stands on the level asked for, and its symbol is the token. -/
theorem Level.operator?_eq_some {level : Level} {token : Token} {operator : Operator}
    (found : level.operator? token = some operator) :
    operator.level = level ∧ token.kind = .operator ∧ token.text = operator.symbol := by
  refine ⟨Level.mem_operators.mp (List.mem_of_find?_eq_some found), ?_⟩
  have same := List.find?_some found
  simpa [Token.is] using same

/-- An arithmetic expression. -/
inductive Expression where
  /-- An integer literal, with its digits as they are written. -/
  | literal (digits : String)
  /-- Nothing, where an operand was due. -/
  | missing
  | binary (operator : Operator) (left right : Expression)
deriving DecidableEq, Repr

/-- The tree of an expression. -/
def Expression.toTree : Expression → Tree
  | literal digits => .leaf .integer digits
  | missing => .missing
  | binary operator left right => .binary operator.symbol left.toTree right.toTree

end FuncLang
