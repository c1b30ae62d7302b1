import FuncLang.Grammar.Statement
import FuncLang.Session

/-! # Checks and what is noted of them

What is wrong with a source can be kept in two places while it is read. Every diagnostic is recorded in the
log at once. Besides, each rule that is being followed has a slot for the first diagnostic that it comes
across; the slot becomes a part of its outcome, and the rule that asked for it absorbs the outcome into a
slot of its own. This is how the rules are written here. They test at one token after the other whether it
is what is due there, and note each test, whether or not it is passed.

A rule of the grammar instead gives a list of the problems that it raised.
-/

namespace FuncLang

/-- Passes the value on, and the diagnostic with it. -/
def Outcome.map {α β : Type} (f : α → β) (outcome : Outcome α) : Outcome β :=
  ⟨f outcome.value, outcome.diagnostic⟩

namespace Grammar

/-- What can be due at a token. -/
inductive Due where
  | statement
  | func
  /-- Room for one more declaration inside the others, while this many can be opened. -/
  | nesting (left : Nat)
  | name
  | opening
  | start
  | closing
  | parameter
  | separator
  | operand
deriving DecidableEq, Repr

/-- Whether the token is what is due. -/
def Due.isMetBy : Due → Token → Bool
  | statement, token => isWord "return" token || isWord "func" token
  | func, token => isWord "func" token
  | nesting left, _ => 0 < left
  | name, token => token.kind == .identifier
  | opening, token => isPunctuation "(" token
  | start, token => isWord "do" token
  | closing, token => isWord "endfunc" token
  | parameter, token => token.kind == .identifier
  | separator, token => isPunctuation "," token || isPunctuation ")" token
  | operand, token => token.kind == .integer

/-- A test for what is due at a token or at the end of the input. -/
structure Check where
  due : Due
  token : Token
  atEnd : Bool
deriving DecidableEq, Repr

namespace Check

/-- Whether what is due is there. -/
def passed (check : Check) : Bool := !check.atEnd && check.due.isMetBy check.token

/-- What is wrong if it is not. -/
def fault (check : Check) : Fault :=
  match check.due with
  | .statement => if check.atEnd then .endOfInput else strayFault check.token
  | .func => .expectedFunc
  | .nesting _ => .nestedTooDeep
  | .name => .expectedName
  | .opening => .expectedOpening
  | .start => .expectedDo
  | .closing => .missingEndfunc
  | .parameter => .expectedParameter
  | .separator => .expectedSeparator
  | .operand => if check.atEnd then .expectedExpression else .expectedInteger

def problem (check : Check) : Problem := ⟨check.fault, check.token⟩

def diagnostic (check : Check) : Diagnostic := check.problem.toDiagnostic

end Check

/-- What has been noted. -/
structure Notes where
  log : Diagnostic.Log
  /-- The slot of the rule that is being followed. -/
  first : Option Diagnostic
  checks : List Check

namespace Notes

/-- Notes that a check was made. -/
def tested (notes : Notes) (check : Check) : Notes := { notes with checks := notes.checks ++ [check] }

/-- Records the diagnostic of a check. -/
def record (notes : Notes) (check : Check) : Notes :=
  { notes with log := notes.log.record [check.diagnostic] }

/-- Keeps a diagnostic, if there is one and none has been kept before. -/
def keep (notes : Notes) (diagnostic : Option Diagnostic) : Notes :=
  { notes with first := notes.first.or diagnostic }

end Notes

/-- What is made of unread tokens, and what has been noted by then. -/
structure Noted (α : Type) where
  value : α
  rest : List Token
  notes : Notes

/-- A way to read from a list of tokens while notes are kept. -/
structure Noting (α : Type) where
  read : Position → List Token → Notes → Noted α
  rest_suffix : ∀ finish unread notes, (read finish unread notes).rest <:+ unread

namespace Noting

variable {α β : Type}

/-- Reads nothing and notes nothing. -/
protected def pure (value : α) : Noting α where
  read _ unread notes := ⟨value, unread, notes⟩
  rest_suffix _ unread _ := List.suffix_refl unread

/-- Reads one after the other, with one set of notes. -/
protected def bind (noting : Noting α) (next : α → Noting β) : Noting β where
  read finish unread notes :=
    let one := noting.read finish unread notes
    (next one.value).read finish one.rest one.notes
  rest_suffix finish unread notes :=
    ((next _).rest_suffix finish _ _).trans (noting.rest_suffix finish unread notes)

instance : Monad Noting where
  pure := Noting.pure
  bind := Noting.bind

@[simp] theorem read_pure (value : α) (finish : Position) (unread : List Token) (notes : Notes) :
    (pure value : Noting α).read finish unread notes = ⟨value, unread, notes⟩ := rfl

@[simp] theorem read_bind (noting : Noting α) (next : α → Noting β) (finish : Position)
    (unread : List Token) (notes : Notes) :
    (noting >>= next).read finish unread notes =
      let one := noting.read finish unread notes
      (next one.value).read finish one.rest one.notes := rfl

theorem length_rest_le (noting : Noting α) (finish : Position) (unread : List Token) (notes : Notes) :
    (noting.read finish unread notes).rest.length ≤ unread.length :=
  (noting.rest_suffix finish unread notes).length_le

/-! ## Notes -/

/-- Reads by a rule that raises no problems. -/
def silently (rule : Rule α) : Noting α where
  read finish unread notes :=
    let reading := rule.read finish unread
    ⟨reading.value, reading.rest, notes⟩
  rest_suffix finish unread _ := rule.rest_suffix finish unread

/-- The check for what is due at the next token. -/
def next (due : Due) : Noting Check where
  read finish unread notes := ⟨⟨due, lookahead finish unread, unread.isEmpty⟩, unread, notes⟩
  rest_suffix _ unread _ := List.suffix_refl unread

/-- Makes a check, and tells whether it is passed. -/
def test (check : Check) : Noting Bool where
  read _ unread notes := ⟨check.passed, unread, notes.tested check⟩
  rest_suffix _ unread _ := List.suffix_refl unread

/-- Reads the next token. -/
def advance : Noting Unit where
  read _ unread notes := ⟨(), unread.tail, notes⟩
  rest_suffix _ unread _ := List.tail_suffix unread

/-- Records the diagnostic of a check, and keeps it if none has been kept before. -/
def flag (check : Check) : Noting Unit where
  read _ unread notes := ⟨(), unread, (notes.record check).keep (some check.diagnostic)⟩
  rest_suffix _ unread _ := List.suffix_refl unread

/-- Records the diagnostic of a check, and gives it as the outcome of the rule. -/
def recover (value : α) (check : Check) : Noting (Outcome α) where
  read _ unread notes := ⟨⟨value, some check.diagnostic⟩, unread, notes.record check⟩
  rest_suffix _ unread _ := List.suffix_refl unread

/-- Follows a rule with an empty slot of its own, which becomes a part of the outcome. -/
def withSlot (body : Noting α) : Noting (Outcome α) where
  read finish unread notes :=
    let noted := body.read finish unread { notes with first := none }
    ⟨⟨noted.value, noted.notes.first⟩, noted.rest, { noted.notes with first := notes.first }⟩
  rest_suffix finish unread _ := body.rest_suffix finish unread _

/-- Takes the value out of the outcome of a rule. Its diagnostic is kept if none has been kept before; it is
not recorded again. -/
def absorb (rule : Noting (Outcome α)) : Noting α where
  read finish unread notes :=
    let noted := rule.read finish unread notes
    ⟨noted.value.value, noted.rest, noted.notes.keep noted.value.diagnostic⟩
  rest_suffix finish unread notes := rule.rest_suffix finish unread notes

/-- Makes a check, and goes on by whether it is passed. -/
def require (check : Check) (met unmet : Noting α) : Noting α := do
  if ← test check then met else unmet

/-- Makes a check that is not passed. -/
def reject (value : α) (check : Check) : Noting (Outcome α) := do
  let _ ← test check
  recover value check

/-- Reads the next token if it is what is due. -/
def expect (due : Due) (met : Token → Noting α) (unmet : Check → Noting α) : Noting α := do
  let check ← next due
  require check (do advance; met check.token) (unmet check)

@[simp] theorem read_expect_nil (due : Due) (met : Token → Noting α) (unmet : Check → Noting α)
    (finish : Position) (notes : Notes) :
    (expect due met unmet).read finish [] notes =
      let check : Check := ⟨due, Token.endOfInput finish, true⟩
      (unmet check).read finish [] (notes.tested check) := rfl

@[simp] theorem read_expect_cons (due : Due) (met : Token → Noting α) (unmet : Check → Noting α)
    (finish : Position) (token : Token) (unread : List Token) (notes : Notes) :
    (expect due met unmet).read finish (token :: unread) notes =
      let check : Check := ⟨due, token, false⟩
      if due.isMetBy token then (met token).read finish unread (notes.tested check)
      else (unmet check).read finish (token :: unread) (notes.tested check) := by
  by_cases met : due.isMetBy token <;> simp [expect, require, next, test, advance, Check.passed, met]

/-! ## Rules -/

/-- Items up to a token that stops them. -/
def manyRead (stops : Token → Bool) (item : Token → Noting α) (finish : Position) :
    List Token → Notes → Noted (List α)
  | [], notes => ⟨[], [], notes⟩
  | token :: unread, notes =>
    if stops token then ⟨[], token :: unread, notes⟩
    else
      let one := (item token).read finish unread notes
      let others := manyRead stops item finish one.rest one.notes
      ⟨one.value :: others.value, others.rest, others.notes⟩
termination_by unread => unread.length
decreasing_by exact Nat.lt_succ_of_le ((item token).length_rest_le finish unread notes)

theorem manyRead_rest_suffix (stops : Token → Bool) (item : Token → Noting α) (finish : Position)
    (unread : List Token) (notes : Notes) :
    (manyRead stops item finish unread notes).rest <:+ unread := by
  fun_induction manyRead stops item finish unread notes with
  | case1 => exact List.suffix_refl []
  | case2 => exact List.suffix_refl _
  | case3 token unread notes _ one _ ih =>
    exact (ih.trans ((item token).rest_suffix finish unread notes)).trans
      (List.suffix_cons token unread)

/-- Items up to a token that stops them, or to the end of the input. -/
def many (stops : Token → Bool) (item : Token → Noting α) : Noting (List α) where
  read := manyRead stops item
  rest_suffix := manyRead_rest_suffix stops item

theorem read_many_item {stops : Token → Bool} {token : Token} (go : stops token = false)
    (item : Token → Noting α) (finish : Position) (unread : List Token) (notes : Notes) :
    (many stops item).read finish (token :: unread) notes =
      (do
        let one ← item token
        return one :: (← many stops item) : Noting (List α)).read finish unread notes := by
  simp [many, manyRead, go]

/-- An operand: an integer literal, or a hole. -/
def primary : Noting (Outcome Expression) :=
  expect .operand (fun token => return ⟨.literal token.text, none⟩) (recover .missing)

/-- The operators of a level and their right operands. -/
def chainRead (level : Level) (operand : Noting Expression) (finish : Position) :
    Expression → List Token → Notes → Noted Expression
  | left, [], notes => ⟨left, [], notes⟩
  | left, token :: unread, notes =>
    match level.operator? token with
    | none => ⟨left, token :: unread, notes⟩
    | some operator =>
      let right := operand.read finish unread notes
      chainRead level operand finish (.binary operator left right.value) right.rest right.notes
termination_by _ unread => unread.length
decreasing_by exact Nat.lt_succ_of_le (operand.length_rest_le finish unread notes)

theorem chainRead_rest_suffix (level : Level) (operand : Noting Expression) (finish : Position)
    (left : Expression) (unread : List Token) (notes : Notes) :
    (chainRead level operand finish left unread notes).rest <:+ unread := by
  fun_induction chainRead level operand finish left unread notes with
  | case1 => exact List.suffix_refl []
  | case2 => exact List.suffix_refl _
  | case3 left token unread notes _ _ _ ih =>
    exact (ih.trans (operand.rest_suffix finish unread notes)).trans (List.suffix_cons token unread)

/-- Continues the expression `left` by the operators of a level and their right operands. -/
def chainFrom (level : Level) (operand : Noting Expression) (left : Expression) :
    Noting Expression where
  read finish := chainRead level operand finish left
  rest_suffix finish := chainRead_rest_suffix level operand finish left

theorem read_chainFrom_operator {level : Level} {token : Token} {operator : Operator}
    (found : level.operator? token = some operator) (operand : Noting Expression) (left : Expression)
    (finish : Position) (unread : List Token) (notes : Notes) :
    (chainFrom level operand left).read finish (token :: unread) notes =
      (do chainFrom level operand (.binary operator left (← operand)) : Noting Expression).read
        finish unread notes := by
  simp [chainFrom, chainRead, found]

/-- Operands with the operators of a level between them. -/
def chain (level : Level) (operand : Noting (Outcome Expression)) : Noting (Outcome Expression) :=
  withSlot do chainFrom level (absorb operand) (← absorb operand)

def multiplicative : Noting (Outcome Expression) := chain .product primary

def additive : Noting (Outcome Expression) := chain .sum multiplicative

def expression : Noting (Outcome Expression) := additive

/-- A name, or a placeholder where there is none. -/
def parameter : Noting (Outcome Parameter) :=
  expect .parameter (fun token => return ⟨.named token.text, none⟩) (recover .unsupported)

/-- What stands behind a name: whether it is a comma. If it is not the closing parenthesis either, the list
is skipped. -/
def separator : Noting Bool :=
  expect .separator (fun token => return isPunctuation "," token) fun check => do
    flag check
    silently skipParameters
    return false

/-- A parameter, and whether there is a comma behind it. Where there is no name the list is skipped. -/
def listed : Noting (Parameter × Bool) := do
  let parameter ← absorb parameter
  match parameter with
  | .named _ => return (parameter, ← separator)
  | .unsupported =>
    silently skipParameters
    return (parameter, false)

/-- What stands in front of a comma is read with it. -/
theorem length_rest_listed_lt {finish : Position} {unread : List Token} {notes : Notes}
    (comma : (listed.read finish unread notes).value.2 = true) :
    (listed.read finish unread notes).rest.length < unread.length := by
  cases unread with
  | nil => simp [listed, absorb, parameter, recover] at comma
  | cons token unread =>
    by_cases name : token.kind = .identifier
    · have shorter := separator.length_rest_le finish unread
      simp only [listed, absorb, parameter, read_bind, read_pure, read_expect_cons, Due.isMetBy, name,
        beq_self_eq_true, if_true, List.length_cons]
      exact Nat.lt_succ_of_le (shorter _)
    · simp [listed, absorb, parameter, Due.isMetBy, recover, name] at comma

/-- The parameters behind an opening parenthesis or a comma. -/
def parameterListRead (finish : Position) (unread : List Token) (notes : Notes) :
    Noted (List Parameter) :=
  let one := listed.read finish unread notes
  if _ : one.value.2 then
    let others := parameterListRead finish one.rest one.notes
    ⟨one.value.1 :: others.value, others.rest, others.notes⟩
  else ⟨[one.value.1], one.rest, one.notes⟩
termination_by unread.length
decreasing_by exact length_rest_listed_lt ‹_›

theorem parameterListRead_rest_suffix (finish : Position) (unread : List Token) (notes : Notes) :
    (parameterListRead finish unread notes).rest <:+ unread := by
  fun_induction parameterListRead finish unread notes with
  | case1 unread notes _ _ _ ih => exact ih.trans (listed.rest_suffix finish unread notes)
  | case2 unread notes => exact listed.rest_suffix finish unread notes

/-- The parameters behind an opening parenthesis, which is not closed at once. -/
def parameterList : Noting (List Parameter) where
  read := parameterListRead
  rest_suffix := parameterListRead_rest_suffix

theorem read_parameterList (finish : Position) (unread : List Token) (notes : Notes) :
    parameterList.read finish unread notes =
      (do
        let one ← listed
        if one.2 then return one.1 :: (← parameterList) else return [one.1] :
          Noting (List Parameter)).read finish unread notes := by
  simp only [parameterList]
  rw [parameterListRead]
  by_cases more : (listed.read finish unread notes).value.2 = true
  · simp [more]
  · simp [more]

/-- The parentheses behind the name of a function and the parameters between them. -/
def parameterSection : Noting (List Parameter) :=
  expect .opening
    (fun _ => do
      if ← silently (Rule.eat (isPunctuation ")")) then return [] else parameterList)
    fun check => do
      flag check
      return []

/-- The name of a function; none where there is no name. -/
def functionName : Noting (Option String) :=
  expect .name (fun token => return some token.text) fun check => do
    flag check
    return none

/-- What is due between the parts of a declaration. -/
def word (due : Due) : Noting Unit := expect due (fun _ => return ()) flag

/-- What follows the first token of a statement, with a rule for what follows a `func`. -/
def statementAfter (declaration : Token → Noting (Outcome Statement)) (first : Token) :
    Noting (Outcome Statement) :=
  let check : Check := ⟨.statement, first, false⟩
  require check
    (if isWord "return" first then do return (← expression).map .returns else declaration first)
    (recover .unsupported check)

/-- What follows the `func` of a declaration in which others can be nested less deep than the given
number. -/
def declarationAfter : Nat → Token → Noting (Outcome Statement)
  | 0, opening => reject .unsupportedFunction ⟨.nesting 0, opening, false⟩
  | left + 1, opening =>
    let check : Check := ⟨.nesting (left + 1), opening, false⟩
    let declaration := withSlot do
      let name ← functionName
      let parameters ← parameterSection
      word .start
      let body ← many (isWord "endfunc") fun first =>
        absorb (statementAfter (declarationAfter left) first)
      word .closing
      return .function name parameters body
    require check declaration (recover .unsupportedFunction check)

/-- A function declaration; where there is no `func` nothing is read. -/
def function : Noting (Outcome Statement) :=
  expect .func (declarationAfter maxNesting) (recover .unsupportedFunction)

/-- What follows the first token of a statement outside of all declarations. -/
def outerStatementAfter (first : Token) : Noting (Outcome Statement) :=
  statementAfter (declarationAfter maxNesting) first

/-- A statement. -/
def statement : Noting (Outcome Statement) := do
  match ← silently (Rule.take? fun _ => true) with
  | some first => outerStatementAfter first
  | none => reject .unsupported (← next .statement)

/-- All statements up to the end of the input. -/
def program : Noting (Outcome Program) :=
  withSlot do return ⟨← many (fun _ => false) fun first => absorb (outerStatementAfter first)⟩

end Noting

end Grammar

end FuncLang
