import FuncLang.Proofs.Expression.Derivation
import FuncLang.Proofs.Tree.Print

/-! # The spelling of expressions

Tokens spell a tree when they are its lexemes, in whatever case their keywords are written. The tokens
from which an expression is derived without parentheses spell its tree, which is grouped as operators
bind; and from the tokens that spell such a tree, an expression with this tree is derived.
-/

namespace FuncLang

/-- The kind and the text of a token, the letters of a keyword in lower case. -/
def Token.normalized (token : Token) : Lexeme := token.lexeme.normalized

/-- Only the text of keywords is normalized. -/
theorem Token.normalized_eq_iff {token : Token} {kind : Token.Kind} {text : String}
    (free : kind ≠ .keyword) :
    token.normalized = ⟨kind, text⟩ ↔ token.kind = kind ∧ token.text = text := by
  unfold Token.normalized Lexeme.normalized Token.lexeme Lexeme.word
  by_cases keyword : token.kind = .keyword
  · simp [keyword, Ne.symm free]
  · simp [keyword]

/-- The tokens are the lexemes of the tree. -/
def Tree.SpelledBy (tree : Tree) (tokens : List Token) : Prop :=
  tokens.map Token.normalized = tree.lexemes

namespace Tree

variable {level : Level} {tree : Tree}

theorem StandsBehind.standsBefore (behind : tree.StandsBehind level) : tree.StandsBefore level := by
  cases level with
  | sum => trivial
  | product =>
    rintro ⟨expression, -⟩
    have integer : tree.kind = .integer := behind
    rw [integer] at expression
    cases expression

theorem not_isSum_binary {operator : Operator} (product : operator.level = .product)
    (left right : Tree) : ¬ (binary operator.symbol left right).IsSum := by
  cases operator <;> simp_all [IsSum, binary, Operator.symbol, Operator.level]

theorem isSum_binary {operator : Operator} (sum : operator.level = .sum) (left right : Tree) :
    (binary operator.symbol left right).IsSum := by
  cases operator <;> simp_all [IsSum, binary, Operator.symbol, Operator.level]

/-- An operator stands between the tokens of its operands. -/
theorem SpelledBy.binary {token : Token} {operator : Operator} {left right : Tree}
    {before after : List Token} (found : level.operator? token = some operator)
    (spelledLeft : left.SpelledBy before) (spelledRight : right.SpelledBy after) :
    (Tree.binary operator.symbol left right).SpelledBy (before ++ token :: after) := by
  obtain ⟨-, kind, text⟩ := Level.operator?_eq_some found
  have symbol : token.normalized = ⟨.operator, operator.symbol⟩ :=
    (Token.normalized_eq_iff (by decide)).mpr ⟨kind, text⟩
  rw [SpelledBy, lexemes_binary, List.map_append, List.map_cons, spelledLeft, symbol, spelledRight]

end Tree

namespace Expression

/-- The tree of the expression is grouped as operators bind, and the tokens spell it. -/
def Spelled (value : Expression) (tokens : List Token) : Prop :=
  value.toTree.IsExpression ∧ value.toTree.SpelledBy tokens

variable {level : Level} {value : Expression} {tokens : List Token}

/-- A chain whose operands may stand behind its operators is grouped as operators bind. -/
theorem Chained.spelled (derived : Chained level
      (fun value part => value.Spelled part ∧ value.toTree.StandsBehind level) value tokens) :
    value.Spelled tokens ∧ value.toTree.StandsBefore level := by
  induction derived with
  | single operand => exact ⟨operand.1, operand.2.standsBefore⟩
  | @more left right before after token operator start found operand ih =>
    obtain ⟨⟨isLeft, spelledLeft⟩, standsBefore⟩ := ih
    obtain ⟨⟨isRight, spelledRight⟩, standsBehind⟩ := operand
    obtain ⟨rfl, -⟩ := Level.operator?_eq_some found
    refine ⟨⟨.binary isLeft isRight standsBefore standsBehind, spelledLeft.binary found spelledRight⟩, ?_⟩
    cases level : operator.level with
    | sum => trivial
    | product => exact Tree.not_isSum_binary level _ _

/-- Without parentheses an operand of a product is a number. -/
theorem DerivesFactor.spelled (derived : value.DerivesFactor 0 tokens)
    (valid : ∀ token ∈ tokens, token.lexeme.IsValid) :
    value.Spelled tokens ∧ value.toTree.StandsBehind .product := by
  cases derived with
  | @literal token integer =>
    have isNumber : Lexeme.IsNumber token.text.toList := by
      have isValid := valid token (by simp)
      simpa [Lexeme.IsValid, Token.lexeme, integer] using isValid
    have same : token.normalized = ⟨.integer, token.text⟩ :=
      (Token.normalized_eq_iff (by decide)).mpr ⟨integer, rfl⟩
    exact ⟨⟨.integer isNumber, by simp [Tree.SpelledBy, toTree, Tree.leaf, Tree.lexemes, same]⟩, rfl⟩
  | group impossible => exact impossible.elim

/-- The tokens of a derivation spell the tree of the expression. -/
theorem Derives.spelled (derived : value.Derives 0 tokens)
    (valid : ∀ token ∈ tokens, token.lexeme.IsValid) : value.Spelled tokens := by
  refine (Chained.imp derived fun inTerm term => ?_).spelled.1
  refine (Chained.imp term fun inFactor factor => ?_).spelled
  exact DerivesFactor.spelled factor fun token member => valid token (inTerm (inFactor member))

end Expression

/-- From the tokens that spell it an expression with the tree is derived, as a term or a factor if it
can be an operand there. -/
theorem Tree.IsExpression.derives {tree : Tree} (isExpression : tree.IsExpression) :
    ∀ {tokens : List Token}, tree.SpelledBy tokens → ∃ value : Expression, value.toTree = tree ∧
      value.Derives 0 tokens ∧ (tree.StandsBefore .product → value.DerivesTerm 0 tokens) ∧
      (tree.StandsBehind .product → value.DerivesFactor 0 tokens) := by
  induction isExpression with
  | @integer digits isNumber =>
    intro tokens spelled
    obtain ⟨token, rfl, same⟩ : ∃ token, tokens = [token] ∧ token.normalized = ⟨.integer, digits⟩ := by
      simpa [SpelledBy, leaf, lexemes, List.map_eq_singleton_iff] using spelled
    obtain ⟨kind, rfl⟩ := (Token.normalized_eq_iff (by decide)).mp same
    have factor : Expression.DerivesFactor 0 (.literal token.text) [token] := .literal kind
    exact ⟨.literal token.text, rfl, .single (.single factor), fun _ => .single factor, fun _ => factor⟩
  | @binary operator left right _ _ before behind ihLeft ihRight =>
    intro tokens spelled
    rw [SpelledBy, lexemes_binary] at spelled
    obtain ⟨front, back, rfl, spelledLeft, spelledBack⟩ := List.map_eq_append_iff.mp spelled
    obtain ⟨token, after, rfl, same, spelledRight⟩ := List.map_eq_cons_iff.mp spelledBack
    obtain ⟨kind, text⟩ := (Token.normalized_eq_iff (by decide)).mp same
    have found : operator.level.operator? token = some operator :=
      Level.operator?_eq_some_iff.mpr ⟨rfl, kind, text⟩
    obtain ⟨valueLeft, rfl, derivesLeft, termLeft, -⟩ := ihLeft spelledLeft
    obtain ⟨valueRight, rfl, -, termRight, factorRight⟩ := ihRight spelledRight
    refine ⟨.binary operator valueLeft valueRight, rfl, ?_⟩
    cases level : operator.level with
    | sum =>
      rw [level] at found before behind
      have isSum := isSum_binary level valueLeft.toTree valueRight.toTree
      refine ⟨.more derivesLeft found (termRight behind), fun stands => absurd isSum stands, ?_⟩
      exact fun stands => absurd isSum stands.standsBefore
    | product =>
      rw [level] at found before behind
      have term : Expression.DerivesTerm 0 (.binary operator valueLeft valueRight)
          (front ++ token :: after) := .more (termLeft before) found (factorRight behind)
      exact ⟨.single term, fun _ => term, fun stands => by cases stands⟩

end FuncLang
