import FuncLang.Diagnostic
import FuncLang.Token

/-! # Problems

A problem is a fault and the token at which it shows. The rules of the grammar raise problems; what
is recorded and shown of a problem is its diagnostic.
-/

namespace FuncLang.Grammar

/-- What a source does against the grammar. -/
inductive Fault where
  | unsupportedStatement
  | unrecognizedCharacter
  | endOfInput
  | expectedFunc
  | nestedTooDeep
  | expectedName
  | expectedOpening
  | expectedDo
  | missingEndfunc
  | expectedParameter
  | expectedSeparator
  | expectedInteger
  | expectedExpression
deriving DecidableEq, Repr

namespace Fault

/-- The fault in words. -/
def message : Fault → String
  | unsupportedStatement => "unsupported statement"
  | unrecognizedCharacter => "unrecognized character"
  | endOfInput => "unexpected end of input"
  | expectedFunc => "expected 'func'"
  | nestedTooDeep => "function nesting too deep"
  | expectedName => "expected function name"
  | expectedOpening => "expected '(' after function name"
  | expectedDo => "expected 'do' before function body"
  | missingEndfunc => "missing 'endfunc'"
  | expectedParameter => "expected parameter name"
  | expectedSeparator => "expected ',' or ')' in parameter list"
  | expectedInteger => "expected integer literal"
  | expectedExpression => "expected expression, found end of input"

/-- Whether the fault is in the structure of the source and not in a single token. -/
def isStructural : Fault → Bool
  | endOfInput | nestedTooDeep | missingEndfunc | expectedExpression => true
  | _ => false

end Fault

/-- A fault and the token at which it shows. -/
structure Problem where
  fault : Fault
  token : Token
deriving DecidableEq, Repr

namespace Problem

/-- Why the diagnostic of a problem is raised. -/
def cause (problem : Problem) : Diagnostic.Cause :=
  if problem.fault.isStructural then .structural else .unexpectedToken problem.token.text

/-- What is recorded of a problem. -/
def toDiagnostic (problem : Problem) : Diagnostic :=
  ⟨problem.cause, problem.fault.message, problem.token.position⟩

end Problem

end FuncLang.Grammar
