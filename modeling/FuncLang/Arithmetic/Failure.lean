import FuncLang.Expression

/-! # Failures

Why an expression has no value, and the token that shows it.
-/

namespace FuncLang.Arithmetic

/-- What is due where another token stands. -/
inductive Expectation where
  | integer
  | closing
  | endOfInput
deriving DecidableEq, Repr

/-- What is due, in words. -/
def Expectation.display : Expectation → String
  | integer => "integer literal"
  | closing => "')'"
  | endOfInput => "end of input"

/-- Why an expression has no value. -/
inductive Cause where
  | unexpectedToken (expected : Expectation) (found : String)
  /-- A literal that no word holds. -/
  | invalidInteger (text : String)
  | divisionByZero
  /-- An operation whose exact result no word holds. -/
  | overflow (operator : Operator)
  /-- More parentheses are open than may be. -/
  | tooDeep
deriving DecidableEq, Repr

/-- The cause in words. -/
def Cause.display : Cause → String
  | unexpectedToken expected found => "expected " ++ expected.display ++ ", found '" ++ found ++ "'"
  | invalidInteger text => "invalid integer literal '" ++ text ++ "'"
  | divisionByZero => "division by zero"
  | overflow operator => "integer overflow in '" ++ operator.symbol ++ "'"
  | tooDeep => "expression nested too deeply"

/-- Why an expression has no value, and where that shows. -/
structure Failure where
  cause : Cause
  position : Position
deriving DecidableEq, Repr

/-- The failure in words. -/
def Failure.message (failure : Failure) : String :=
  failure.cause.display ++ " at line " ++ toString failure.position.line ++ ", col " ++
    toString failure.position.column

/-- A failure at a token that is not the one that is due. -/
def Failure.unexpected (expected : Expectation) (token : Token) : Failure :=
  ⟨.unexpectedToken expected token.text, token.position⟩

end FuncLang.Arithmetic
