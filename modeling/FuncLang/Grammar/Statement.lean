import FuncLang.Grammar.Expression
import FuncLang.Grammar.Parameter

/-! # Rules for statements

A statement begins with a token that it always reads: `return`, `func`, or a token with which no
statement begins and which becomes a placeholder of its own. So reading statements always moves on.

The parts of a declaration are read one after the other. A part that is missing raises a problem
and reads nothing, so each part has its say once. Declarations can be nested in one another as deep
as `maxNesting`; the `func` of a deeper one becomes a placeholder, and what follows it is read as
statements of the body in which it stands.
-/

namespace FuncLang.Grammar

/-- How many declarations can stand inside one another. -/
def maxNesting : Nat := 128

/-- The name of a function; none where there is no name. -/
def functionName : Rule (Option String) := do
  match ← Rule.take? (·.kind == .identifier) with
  | some token => return some token.text
  | none =>
    Rule.raise .expectedName
    return none

@[simp] theorem read_functionName_nil (finish : Position) :
    functionName.read finish [] = ⟨none, [⟨.expectedName, Token.endOfInput finish⟩], []⟩ := rfl

@[simp] theorem read_functionName_cons (finish : Position) (token : Token) (unread : List Token) :
    functionName.read finish (token :: unread) =
      if token.kind = .identifier then ⟨some token.text, [], unread⟩
      else ⟨none, [⟨.expectedName, token⟩], token :: unread⟩ := by
  by_cases name : token.kind = .identifier <;> simp [functionName, name]

/-- What is wrong with a token with which no statement begins. -/
def strayFault (token : Token) : Fault :=
  if token.kind = .unknown then .unrecognizedCharacter else .unsupportedStatement

/-- What follows the first token of a statement, with a rule for what follows a `func`. -/
def statementAfter (declaration : Token → Rule Statement) (first : Token) : Rule Statement :=
  if isWord "return" first then do return .returns (← expression)
  else if isWord "func" first then declaration first
  else do
    Rule.blame first (strayFault first)
    return .unsupported

/-- What follows the `func` of a declaration in which others can be nested less deep than the given
number. -/
def declarationAfter : Nat → Token → Rule Statement
  | 0, opening => do
    Rule.blame opening .nestedTooDeep
    return .unsupportedFunction
  | nesting + 1, _ => do
    let name ← functionName
    let parameters ← parameterSection
    Rule.expect (isWord "do") .expectedDo
    let body ← Rule.many (isWord "endfunc") (statementAfter (declarationAfter nesting))
    Rule.expect (isWord "endfunc") .missingEndfunc
    return .function name parameters body

@[simp] theorem read_declarationAfter_zero (opening : Token) (finish : Position)
    (unread : List Token) :
    (declarationAfter 0 opening).read finish unread =
      ⟨.unsupportedFunction, [⟨.nestedTooDeep, opening⟩], unread⟩ := rfl

/-- The parts of a declaration are read one after the other. -/
theorem read_declarationAfter_succ (nesting : Nat) (opening : Token) (finish : Position)
    (unread : List Token) :
    (declarationAfter (nesting + 1) opening).read finish unread =
      let name := functionName.read finish unread
      let parameters := parameterSection.read finish name.rest
      let start := (Rule.expect (isWord "do") .expectedDo).read finish parameters.rest
      let body := (Rule.many (isWord "endfunc") (statementAfter (declarationAfter nesting))).read
        finish start.rest
      let closing := (Rule.expect (isWord "endfunc") .missingEndfunc).read finish body.rest
      ⟨.function name.value parameters.value body.value,
        name.raised ++ (parameters.raised ++ (start.raised ++ (body.raised ++ closing.raised))),
        closing.rest⟩ := by
  simp [declarationAfter]

/-- A function declaration; where there is no `func` nothing is read. -/
def function : Rule Statement := do
  match ← Rule.take? (isWord "func") with
  | some opening => declarationAfter maxNesting opening
  | none =>
    Rule.raise .expectedFunc
    return .unsupportedFunction

/-- What follows the first token of a statement outside of all declarations. -/
def outerStatementAfter (first : Token) : Rule Statement :=
  statementAfter (declarationAfter maxNesting) first

/-- A statement. -/
def statement : Rule Statement := do
  match ← Rule.take? fun _ => true with
  | some first => outerStatementAfter first
  | none =>
    Rule.raise .endOfInput
    return .unsupported

@[simp] theorem read_statement_nil (finish : Position) :
    statement.read finish [] =
      ⟨.unsupported, [⟨.endOfInput, Token.endOfInput finish⟩], []⟩ := rfl

/-- A statement reads its first token. -/
@[simp] theorem read_statement_cons (finish : Position) (token : Token) (unread : List Token) :
    statement.read finish (token :: unread) = (outerStatementAfter token).read finish unread := rfl

/-- All statements up to the end of the input. Only a statement whose tree is a hole would be left out of the
program, and there is none, as `Statement.isMissing_toTree` shows. -/
def program : Rule Program := do
  return ⟨← Rule.many (fun _ => false) outerStatementAfter⟩

end FuncLang.Grammar
