import FuncLang.Proofs.Expression.Spelling
import FuncLang.Proofs.Tree.Shape

/-! # Expressions from left to right

The lexemes of an expression from left to right do not show how it is grouped, and holes do not show in
them at all. But as operators bind, nothing else is needed: an expression splits at the last of its
sums, or at its last operator if there is no sum. So no two expressions are the same from left to right.
-/

namespace FuncLang

namespace Tree

@[simp] theorem lexemes_integer (digits : String) :
    (leaf .integer digits).lexemes = [⟨.integer, digits⟩] := by
  simp [leaf, lexemes]

@[simp] theorem lexemes_missing : missing.lexemes = [] := by simp [missing, leaf, lexemes]

end Tree

/-- Whether an operator that binds no tighter than those of the level is written so. -/
def Level.Splits : Level → Lexeme → Prop
  | sum, lexeme => ∃ operator : Operator, operator.level = .sum ∧ lexeme = ⟨.operator, operator.symbol⟩
  | product, lexeme => lexeme.kind = .operator

theorem Level.splits_symbol (operator : Operator) :
    operator.level.Splits ⟨.operator, operator.symbol⟩ := by
  cases level : operator.level with
  | sum => exact ⟨operator, level, rfl⟩
  | product => rfl

/-- An operator of a product is none of a sum. -/
theorem Level.not_splits_sum {operator : Operator} (level : operator.level = .product) :
    ¬ Level.sum.Splits ⟨.operator, operator.symbol⟩ := by
  rintro ⟨other, sum, same⟩
  have symbols : operator.symbol = other.symbol := (Lexeme.mk.inj same).2
  cases operator <;> cases other <;> simp_all [Operator.level, Operator.symbol]

namespace Tree

/-- There is no sum in an expression that is no sum itself. -/
theorem ExpressionShape.not_splits_sum {tree : Tree} (shape : tree.ExpressionShape)
    (other : ¬ tree.IsSum) : ∀ lexeme ∈ tree.lexemes, ¬ Level.sum.Splits lexeme := by
  induction shape with
  | integer => simp [Level.Splits]
  | missing => simp
  | @binary operator left right shapeLeft shapeRight before behind ihLeft ihRight =>
    cases level : operator.level with
    | sum => exact absurd (isSum_binary level left right) other
    | product =>
      rw [level] at before behind
      rw [lexemes_binary, List.forall_mem_append, List.forall_mem_cons]
      exact ⟨ihLeft before, Level.not_splits_sum level, ihRight (shapeRight.standsBefore behind)⟩

/-- Nothing in a right operand is an operator at which the expression could be split instead. -/
theorem ExpressionShape.not_splits {tree : Tree} {level : Level} (shape : tree.ExpressionShape)
    (behind : tree.FitsBehind level) : ∀ lexeme ∈ tree.lexemes, ¬ level.Splits lexeme := by
  cases level with
  | sum => exact shape.not_splits_sum behind
  | product =>
    cases shape with
    | integer => simp [Level.Splits]
    | missing => simp
    | binary => cases behind

/-- A list splits in one way only at the last of the elements that are marked. -/
theorem append_cons_inj_of_last {α : Type} {Marked : α → Prop} {before before' after after' : List α}
    {last last' : α} (same : before ++ last :: after = before' ++ last' :: after')
    (marked : Marked last) (marked' : Marked last') (none : ∀ a ∈ after, ¬ Marked a)
    (none' : ∀ a ∈ after', ¬ Marked a) :
    before = before' ∧ last = last' ∧ after = after' := by
  rcases List.append_eq_append_iff.mp same with ⟨between, rfl, rest⟩ | ⟨between, rfl, rest⟩
  · cases between with
    | nil => exact ⟨(List.append_nil _).symm, List.cons.inj rest⟩
    | cons first between =>
      have inside : last' ∈ after := by simp [(List.cons.inj rest).2]
      exact absurd marked' (none last' inside)
  · cases between with
    | nil => exact ⟨List.append_nil _, (List.cons.inj rest).imp Eq.symm Eq.symm⟩
    | cons first between =>
      have inside : last ∈ after' := by simp [(List.cons.inj rest).2]
      exact absurd marked (none' last inside)

variable {operator operator' : Operator} {left left' right right' : Tree}

theorem symbol_mem_lexemes (symbol : String) (left right : Tree) :
    ⟨.operator, symbol⟩ ∈ (binary symbol left right).lexemes := by simp [lexemes_binary]

@[simp] theorem lexemes_integer_ne (digits symbol : String) (left right : Tree) :
    (leaf .integer digits).lexemes ≠ (binary symbol left right).lexemes := by
  intro same
  have inside := symbol_mem_lexemes symbol left right
  rw [← same] at inside
  simp at inside

/-- What is a sum from left to right is a sum at its root. -/
theorem ExpressionShape.level_eq_sum {tree : Tree}
    (shape : (Tree.binary operator.symbol left right).ExpressionShape)
    (same : tree.lexemes = (Tree.binary operator.symbol left right).lexemes)
    {lexeme : Lexeme} (member : lexeme ∈ tree.lexemes) (sum : Level.sum.Splits lexeme) :
    operator.level = .sum := by
  cases level : operator.level with
  | sum => rfl
  | product =>
    exact absurd sum (shape.not_splits_sum (not_isSum_binary level _ _) lexeme (same ▸ member))

/-- The levels of two operators are the same at the roots of what is the same from left to right. -/
theorem ExpressionShape.level_eq (shape : (Tree.binary operator.symbol left right).ExpressionShape)
    (shape' : (Tree.binary operator'.symbol left' right').ExpressionShape)
    (same : (Tree.binary operator.symbol left right).lexemes =
      (Tree.binary operator'.symbol left' right').lexemes) : operator.level = operator'.level := by
  have splits := Level.splits_symbol operator
  have splits' := Level.splits_symbol operator'
  cases level : operator.level with
  | sum =>
    rw [level] at splits
    exact (shape'.level_eq_sum same (symbol_mem_lexemes _ _ _) splits).symm
  | product =>
    cases level' : operator'.level with
    | product => rfl
    | sum =>
      rw [level'] at splits'
      exact level.symm.trans (shape.level_eq_sum same.symm (symbol_mem_lexemes _ _ _) splits')

/-- No two expressions are the same from left to right. By induction on one of them: where one splits,
so does the other. -/
theorem ExpressionShape.eq_of_lexemes_eq {tree other : Tree} (shape : tree.ExpressionShape)
    (shape' : other.ExpressionShape) (same : tree.lexemes = other.lexemes) : tree = other := by
  induction shape generalizing other with
  | integer =>
    cases shape' with
    | integer => simp_all
    | missing => simp at same
    | binary => exact absurd same (lexemes_integer_ne _ _ _ _)
  | missing =>
    cases shape' with
    | integer => simp at same
    | missing => rfl
    | binary => simp [lexemes_binary] at same
  | @binary operator left right shapeLeft shapeRight before behind ihLeft ihRight =>
    cases shape' with
    | integer => exact absurd same.symm (lexemes_integer_ne _ _ _ _)
    | missing => simp [lexemes_binary] at same
    | @binary operator' left' right' shapeLeft' shapeRight' before' behind' =>
      -- Both split at an operator of the same level, and behind it there is no further one.
      have level : operator.level = operator'.level :=
        ExpressionShape.level_eq (.binary shapeLeft shapeRight before behind)
          (.binary shapeLeft' shapeRight' before' behind') same
      rw [← level] at behind'
      have split := same
      rw [lexemes_binary, lexemes_binary] at split
      obtain ⟨sameLeft, symbol, sameRight⟩ := append_cons_inj_of_last split
        (Level.splits_symbol operator) (level ▸ Level.splits_symbol operator') (shapeRight.not_splits behind)
        (shapeRight'.not_splits behind')
      rw [ihLeft shapeLeft' sameLeft, ihRight shapeRight' sameRight, (Lexeme.mk.inj symbol).2]

end Tree

end FuncLang
