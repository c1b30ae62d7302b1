import FuncLang.Expression

/-! # Derivations of expressions

Which tokens spell which expression. A chain of operands with the operators of a level between them
spells the expression that groups them from the left. An operand of a product is an integer literal
or an expression in parentheses, and an operand of a sum is a product. The tree of an expression does
not show its parentheses.

Derivations are counted by the parentheses that may be open at once. With none at all they are those
of the expressions in a program.
-/

namespace FuncLang

/-- The operators of a level are the tokens of kind operator with one of its symbols. -/
theorem Level.operator?_eq_some_iff {level : Level} {token : Token} {operator : Operator} :
    level.operator? token = some operator ↔
      operator.level = level ∧ token.kind = .operator ∧ token.text = operator.symbol := by
  refine ⟨Level.operator?_eq_some, ?_⟩
  rintro ⟨rfl, kind, text⟩
  cases operator <;> simp [Level.operator?, Level.operators, Operator.level, Token.is, kind, text,
    Operator.symbol]

/-- A token is an operator of one level at most. -/
theorem Level.operator?_eq_none_of_ne {level other : Level} {token : Token} {operator : Operator}
    (found : level.operator? token = some operator) (different : other ≠ level) :
    other.operator? token = none := by
  obtain ⟨rfl, _, text⟩ := Level.operator?_eq_some found
  refine Option.eq_none_iff_forall_not_mem.mpr fun operator' found' => ?_
  obtain ⟨rfl, _, text'⟩ := Level.operator?_eq_some found'
  have same : operator'.symbol = operator.symbol := text'.symm.trans text
  cases operator <;> cases operator' <;> simp_all [Operator.symbol, Operator.level]

/-- Whether no operator of the level comes next. -/
def Level.Ends (level : Level) (unread : List Token) : Prop :=
  ∀ token ∈ unread.head?, level.operator? token = none

@[simp] theorem Level.ends_nil (level : Level) : level.Ends [] := by simp [Level.Ends]

@[simp] theorem Level.ends_cons {level : Level} {token : Token} {unread : List Token} :
    level.Ends (token :: unread) ↔ level.operator? token = none := by simp [Level.Ends]

namespace Expression

/-- Operands with the operators of a level between them spell the expression that groups them from
the left. -/
inductive Chained (level : Level) (Operand : Expression → List Token → Prop) :
    Expression → List Token → Prop
  | single {value : Expression} {tokens : List Token} (operand : Operand value tokens) :
      Chained level Operand value tokens
  | more {left right : Expression} {before after : List Token} {token : Token} {operator : Operator}
      (start : Chained level Operand left before) (found : level.operator? token = some operator)
      (operand : Operand right after) :
      Chained level Operand (.binary operator left right) (before ++ token :: after)

/-- An integer literal, or a group. -/
inductive Factor (Group : Expression → List Token → Prop) : Expression → List Token → Prop
  | literal {token : Token} (integer : token.kind = .integer) :
      Factor Group (.literal token.text) [token]
  | group {value : Expression} {tokens : List Token} (group : Group value tokens) :
      Factor Group value tokens

/-- An expression in parentheses, in which the given number of parentheses may be open at once. -/
def DerivesGroup : Nat → Expression → List Token → Prop
  | 0, _, _ => False
  | available + 1, value, tokens =>
    ∃ opening inner closing, tokens = opening :: (inner ++ [closing]) ∧
      opening.is .punctuation "(" = true ∧ closing.is .punctuation ")" = true ∧
      Chained .sum (Chained .product (Factor (DerivesGroup available))) value inner

/-- An integer literal or an expression in parentheses. -/
def DerivesFactor (available : Nat) : Expression → List Token → Prop :=
  Factor (DerivesGroup available)

/-- Factors with `*` and `/` between them. -/
def DerivesTerm (available : Nat) : Expression → List Token → Prop :=
  Chained .product (DerivesFactor available)

/-- Terms with `+` and `-` between them: the tokens spell the expression, with at most the given
number of parentheses open at once. -/
def Derives (available : Nat) : Expression → List Token → Prop :=
  Chained .sum (DerivesTerm available)

variable {level : Level} {Operand Operand' Group Group' : Expression → List Token → Prop}
variable {value : Expression} {tokens : List Token}

/-- A chain of operands is a chain of other operands if, within its tokens, the former are the
latter. -/
theorem Chained.imp (derived : Chained level Operand value tokens)
    (convert : ∀ {value part}, part ⊆ tokens → Operand value part → Operand' value part) :
    Chained level Operand' value tokens := by
  induction derived with
  | single operand => exact .single (convert (List.Subset.refl _) operand)
  | @more left right before after token operator start found operand ih =>
    have here : after ⊆ before ++ token :: after :=
      List.Subset.trans (List.subset_cons_self token after) (List.subset_append_right _ _)
    refine .more (ih fun within => convert ?_) found (convert here operand)
    exact List.Subset.trans within (List.subset_append_left _ _)

theorem Factor.imp (derived : Factor Group value tokens)
    (convert : Group value tokens → Group' value tokens) : Factor Group' value tokens := by
  cases derived with
  | literal integer => exact .literal integer
  | group group => exact .group (convert group)

/-- What is spelled without parentheses is spelled with any number of them available. -/
theorem Derives.of_zero (derived : Derives 0 value tokens) (available : Nat) :
    Derives available value tokens :=
  Chained.imp derived fun _ term => Chained.imp term fun _ factor => factor.imp False.elim

/-- Where no parenthesis opens, none is needed. -/
theorem Derives.zero_of_flat {available : Nat} (derived : Derives available value tokens)
    (flat : ∀ token ∈ tokens, token.is .punctuation "(" = false) : Derives 0 value tokens := by
  refine Chained.imp derived fun withinTerm term => Chained.imp term fun withinFactor factor => ?_
  refine factor.imp fun group => ?_
  cases available with
  | zero => exact group
  | succ available =>
    obtain ⟨opening, inner, closing, rfl, opens, -⟩ := group
    have closed := flat opening (withinTerm (withinFactor List.mem_cons_self))
    exact absurd opens (Bool.eq_false_iff.mp closed)

end Expression

end FuncLang
