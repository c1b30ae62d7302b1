import FuncLang.Expression
import FuncLang.Grammar.Rule

/-! # Rules for expressions

A sum is a chain of products, a product a chain of operands; both are grouped from the left. Only an
integer literal is an operand. Where none stands nothing is read: the expression gets a hole there,
and one problem is raised for it.
-/

namespace FuncLang.Grammar

/-- An operand: an integer literal, or a hole. -/
def primary : Rule Expression := do
  match ← Rule.take? (·.kind == .integer) with
  | some token => return .literal token.text
  | none =>
    match ← Rule.peek? with
    | some _ => Rule.raise .expectedInteger
    | none => Rule.raise .expectedExpression
    return .missing

@[simp] theorem read_primary_nil (finish : Position) :
    primary.read finish [] = ⟨.missing, [⟨.expectedExpression, Token.endOfInput finish⟩], []⟩ := rfl

@[simp] theorem read_primary_cons (finish : Position) (token : Token) (unread : List Token) :
    primary.read finish (token :: unread) =
      if token.kind = .integer then ⟨.literal token.text, [], unread⟩
      else ⟨.missing, [⟨.expectedInteger, token⟩], token :: unread⟩ := by
  by_cases literal : token.kind = .integer <;> simp [primary, literal]

/-- The operators of a level and their right operands, as many as follow each other. -/
def chainRead (level : Level) (operand : Rule Expression) (finish : Position) :
    Expression → List Token → Reading Expression
  | left, [] => ⟨left, [], []⟩
  | left, token :: unread =>
    match level.operator? token with
    | none => ⟨left, [], token :: unread⟩
    | some operator =>
      let right := operand.read finish unread
      let whole := chainRead level operand finish (.binary operator left right.value) right.rest
      ⟨whole.value, right.raised ++ whole.raised, whole.rest⟩
termination_by _ unread => unread.length
decreasing_by exact Nat.lt_succ_of_le (operand.length_rest_le finish unread)

theorem chainRead_rest_suffix (level : Level) (operand : Rule Expression) (finish : Position)
    (left : Expression) (unread : List Token) :
    (chainRead level operand finish left unread).rest <:+ unread := by
  fun_induction chainRead level operand finish left unread with
  | case1 => exact List.suffix_refl []
  | case2 => exact List.suffix_refl _
  | case3 left token unread operator found right whole ih =>
    exact (ih.trans (operand.rest_suffix finish unread)).trans (List.suffix_cons token unread)

/-- Continues the expression `left` by the operators of a level and their right operands. -/
def chainFrom (level : Level) (operand : Rule Expression) (left : Expression) :
    Rule Expression where
  read finish := chainRead level operand finish left
  rest_suffix finish := chainRead_rest_suffix level operand finish left

/-- Operands with the operators of a level between them, grouped from the left. -/
def chain (level : Level) (operand : Rule Expression) : Rule Expression := do
  chainFrom level operand (← operand)

theorem read_chain (level : Level) (operand : Rule Expression) (finish : Position)
    (unread : List Token) :
    (chain level operand).read finish unread =
      let first := operand.read finish unread
      let whole := chainRead level operand finish first.value first.rest
      ⟨whole.value, first.raised ++ whole.raised, whole.rest⟩ := rfl

/-- Operands with `*` and `/` between them. -/
def multiplicative : Rule Expression := chain .product primary

/-- Products with `+` and `-` between them. -/
def additive : Rule Expression := chain .sum multiplicative

/-- An expression. -/
def expression : Rule Expression := additive

end FuncLang.Grammar
