import FuncLang.Arithmetic.Failure
import FuncLang.Arithmetic.Word
import FuncLang.Unread

/-! # Rules of arithmetic

A rule reads an expression from a list of tokens and computes its value on the way, without building
the expression. The first failure ends it. Either way it leaves an end of the list it was given, and
nothing else is remembered, so that after a failure reading can go on from the token at which it
stopped.

An expression is a chain of terms, a term a chain of factors, and a factor is an integer literal or
an expression in parentheses. At most `maxParentheses` may be open at once. `evaluate` computes the
value of a whole source.
-/

namespace FuncLang.Arithmetic

/-- What a rule makes of a list of tokens: a value or a failure, and the tokens that it left. -/
structure Computation where
  result : Except Failure Int64
  rest : List Token

/-- Whether two results are the same can be decided. -/
instance : DecidableEq (Except Failure Int64)
  | .ok a, .ok b => decidable_of_iff (a = b) (by simp)
  | .error a, .error b => decidable_of_iff (a = b) (by simp)
  | .ok _, .error _ => isFalse nofun
  | .error _, .ok _ => isFalse nofun

/-- A way to compute a value from a list of tokens, behind which the input ends at a position. -/
structure Rule where
  read : Position → List Token → Computation
  rest_suffix : ∀ finish unread, (read finish unread).rest <:+ unread

theorem Rule.length_rest_le (rule : Rule) (finish : Position) (unread : List Token) :
    (rule.read finish unread).rest.length ≤ unread.length :=
  (rule.rest_suffix finish unread).length_le

/-- The value of an operator on two words, or the cause for which there is none. -/
def apply (operator : Operator) (left right : Int64) : Except Cause Int64 :=
  if operator = .divide ∧ right = 0 then .error .divisionByZero
  else
    match word? (exact operator left.toInt right.toInt) with
    | some value => .ok value
    | none => .error (.overflow operator)

/-- The value of decimal digits, if a word holds it. -/
def digitsValue (digits : String) : Except Cause Int64 :=
  (word? (decimalValue digits.toList)).elim (.error (.invalidInteger digits)) .ok

/-- The value of a literal, which is read whether or not a word holds it. -/
def literal (token : Token) : Except Failure Int64 :=
  (digitsValue token.text).mapError fun cause => ⟨cause, token.position⟩

/-- Continues the value `left` by the operators of a level and their right operands. -/
def chainRead (level : Level) (operand : Rule) (finish : Position) :
    Int64 → List Token → Computation
  | left, [] => ⟨.ok left, []⟩
  | left, token :: unread =>
    match level.operator? token with
    | none => ⟨.ok left, token :: unread⟩
    | some operator =>
      let right := operand.read finish unread
      match right.result with
      | .error failure => ⟨.error failure, right.rest⟩
      | .ok value =>
        match apply operator left value with
        | .error cause => ⟨.error ⟨cause, token.position⟩, right.rest⟩
        | .ok result => chainRead level operand finish result right.rest
termination_by _ unread => unread.length
decreasing_by exact Nat.lt_succ_of_le (operand.length_rest_le finish unread)

theorem chainRead_rest_suffix (level : Level) (operand : Rule) (finish : Position) (left : Int64)
    (unread : List Token) : (chainRead level operand finish left unread).rest <:+ unread := by
  fun_induction chainRead level operand finish left unread with
  | case1 => exact List.suffix_refl []
  | case2 => exact List.suffix_refl _
  | case3 left token unread =>
    exact (operand.rest_suffix finish unread).trans (List.suffix_cons token unread)
  | case4 left token unread =>
    exact (operand.rest_suffix finish unread).trans (List.suffix_cons token unread)
  | case5 left token unread operator _ right value _ result _ ih =>
    exact (ih.trans (operand.rest_suffix finish unread)).trans (List.suffix_cons token unread)

/-- Operands with the operators of a level between them, grouped from the left. -/
def chain (level : Level) (operand : Rule) : Rule where
  read finish unread :=
    let first := operand.read finish unread
    match first.result with
    | .error failure => ⟨.error failure, first.rest⟩
    | .ok value => chainRead level operand finish value first.rest
  rest_suffix finish unread := by
    simp only
    split
    · exact operand.rest_suffix finish unread
    · exact (chainRead_rest_suffix ..).trans (operand.rest_suffix finish unread)

/-- An integer literal, or what `group` reads from an opening parenthesis on. -/
def factorOver (group : Rule) : Rule where
  read finish
    | [] => ⟨.error (.unexpected .integer (.endOfInput finish)), []⟩
    | token :: unread =>
      if token.is .punctuation "(" then group.read finish (token :: unread)
      else if token.kind = .integer then ⟨literal token, unread⟩
      else ⟨.error (.unexpected .integer token), token :: unread⟩
  rest_suffix finish unread := by
    cases unread with
    | nil => exact List.suffix_refl []
    | cons token unread =>
      simp only
      split
      · exact group.rest_suffix finish _
      · split
        · exact List.suffix_cons token unread
        · exact List.suffix_refl _

/-- Factors with `*` and `/` between them. -/
def termOver (group : Rule) : Rule := chain .product (factorOver group)

/-- Terms with `+` and `-` between them. -/
def expressionOver (group : Rule) : Rule := chain .sum (termOver group)

/-- Accepts the value of a computation if `wanted` is the next token, which is read then. -/
def Computation.thenExpect (computation : Computation) (wanted : Token → Bool)
    (expected : Expectation) (finish : Position) : Computation :=
  match computation.result with
  | .error failure => ⟨.error failure, computation.rest⟩
  | .ok value =>
    match computation.rest with
    | [] => ⟨.error (.unexpected expected (.endOfInput finish)), []⟩
    | token :: unread =>
      if wanted token then ⟨.ok value, unread⟩
      else ⟨.error (.unexpected expected token), token :: unread⟩

theorem Computation.rest_thenExpect_suffix (computation : Computation) (wanted : Token → Bool)
    (expected : Expectation) (finish : Position) :
    (computation.thenExpect wanted expected finish).rest <:+ computation.rest := by
  unfold thenExpect
  split
  · exact List.suffix_refl _
  · split
    next => exact List.nil_suffix
    next token unread tokens =>
      rw [tokens]
      split
      · exact List.suffix_cons token unread
      · exact List.suffix_refl _

/-- Refuses an opening parenthesis, which is not read. -/
def refusal : Rule where
  read finish unread := ⟨.error ⟨.tooDeep, (lookahead finish unread).position⟩, unread⟩
  rest_suffix _ unread := List.suffix_refl unread

/-- An expression in parentheses, read from the opening one on. -/
def parenthesized (inner : Rule) : Rule where
  read finish unread :=
    (inner.read finish unread.tail).thenExpect (·.is .punctuation ")") .closing finish
  rest_suffix finish unread :=
    (Computation.rest_thenExpect_suffix ..).trans
      ((inner.rest_suffix finish _).trans (List.tail_suffix unread))

/-- An expression in parentheses, when the given number of them may still be opened. -/
def group : Nat → Rule
  | 0 => refusal
  | available + 1 => parenthesized (expressionOver (group available))

/-- How many parentheses may be open at once. -/
def maxParentheses : Nat := 256

/-- An integer literal or an expression in parentheses. -/
def factor : Rule := factorOver (group maxParentheses)

/-- Factors with `*` and `/` between them. -/
def term : Rule := termOver (group maxParentheses)

/-- An expression, whatever follows it. -/
def expression : Rule := expressionOver (group maxParentheses)

/-- An expression behind which the input ends. -/
def whole : Rule where
  read finish unread :=
    let value := expression.read finish unread
    match value.result, value.rest with
    | .ok _, token :: _ => ⟨.error (.unexpected .endOfInput token), value.rest⟩
    | result, rest => ⟨result, rest⟩
  rest_suffix finish unread := by
    simp only
    split
    · exact expression.rest_suffix finish unread
    · exact expression.rest_suffix finish unread

/-- Runs a rule on what is left of a source: a value or a failure, and what is left then. -/
def Rule.run (rule : Rule) (unread : Unread) : Except Failure Int64 × Unread :=
  let computation := rule.read unread.finish unread.tokens
  (computation.result, ⟨computation.rest, unread.finish⟩)

/-- The value of a source that is an expression. -/
def evaluate (source : String) : Except Failure Int64 := (whole.run (.ofSource source)).1

end FuncLang.Arithmetic
