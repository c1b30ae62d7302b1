import FuncLang.Grammar.Expression
import FuncLang.Proofs.Expression.Derivation
import FuncLang.Proofs.Grammar.Acceptance

/-! # Expressions as they are read

The rules for expressions accept the derivations without parentheses. A chain is read from the left
while its derivation is built from the left, so the tokens of a chain are followed by whatever the
loop makes of the expression they spell.
-/

namespace FuncLang.Grammar

open Expression (Chained DerivesFactor DerivesTerm Derives)

variable {level : Level} {operand : Rule Expression} {Follow : List Token → Prop}
variable {Operand : Expression → List Token → Prop}

/-- Only an integer literal is an operand. -/
theorem primary_accepts : primary.Accepts (DerivesFactor 0) (fun _ => True) where
  sound {finish unread} clean := by
    cases unread with
    | nil => simp at clean
    | cons token unread =>
      rw [read_primary_cons] at clean ⊢
      split at clean
      next integer =>
        rw [if_pos integer]
        exact ⟨[token], rfl, .literal integer⟩
      next => simp at clean
  complete := by
    rintro _ _ (integer | group) finish rest _
    · simp [integer]
    · exact group.elim

theorem chainRead_of_ends {rest : List Token} (ends : level.Ends rest) (operand : Rule Expression)
    (finish : Position) (left : Expression) :
    chainRead level operand finish left rest = ⟨left, [], rest⟩ := by
  cases rest with
  | nil => simp [chainRead]
  | cons token rest => simp [chainRead, Level.ends_cons.mp ends]

/-- The loop continues the chain that it was handed. -/
theorem chainRead_sound (accepts : operand.Accepts Operand Follow) (finish : Position)
    (left : Expression) (unread : List Token) :
    ∀ {before}, Chained level Operand left before →
      (chainRead level operand finish left unread).raised = [] →
      ∃ tokens, unread = tokens ++ (chainRead level operand finish left unread).rest ∧
        Chained level Operand (chainRead level operand finish left unread).value
          (before ++ tokens) := by
  fun_induction chainRead level operand finish left unread with
  | case1 => exact fun start _ => ⟨[], rfl, by simpa using start⟩
  | case2 => exact fun start _ => ⟨[], rfl, by simpa using start⟩
  | case3 left token unread operator found right whole =>
    rename_i ih
    intro before start clean
    obtain ⟨cleanRight, cleanWhole⟩ := List.append_eq_nil_iff.mp clean
    obtain ⟨read, same, derived⟩ := accepts.sound cleanRight
    obtain ⟨behind, sameBehind, chained⟩ := ih (start.more found derived) cleanWhole
    refine ⟨token :: (read ++ behind), ?_, by simpa using chained⟩
    rw [same, List.cons_append, List.append_assoc, ← sameBehind]

/-- Behind the tokens of a chain the loop goes on with the expression that they spell. -/
theorem read_chain_of_chained (accepts : operand.Accepts Operand Follow)
    (follow : ∀ {token operator} rest, level.operator? token = some operator →
      Follow (token :: rest))
    {value : Expression} {tokens : List Token} (chained : Chained level Operand value tokens)
    (finish : Position) (rest : List Token) (follows : Follow rest) :
    (chain level operand).read finish (tokens ++ rest) =
      chainRead level operand finish value rest := by
  induction chained generalizing rest with
  | single derived => simp [read_chain, accepts.complete derived finish rest follows]
  | @more left right before after token operator start found derived ih =>
    rw [List.append_assoc, List.cons_append, ih _ (follow _ found)]
    simp [chainRead, found, accepts.complete derived finish rest follows]

theorem chain_accepts (accepts : operand.Accepts Operand Follow)
    (follow : ∀ {token operator} rest, level.operator? token = some operator →
      Follow (token :: rest)) :
    (chain level operand).Accepts (Chained level Operand)
      (fun rest => Follow rest ∧ level.Ends rest) where
  sound {finish unread} clean := by
    rw [read_chain] at clean ⊢
    obtain ⟨cleanFirst, cleanWhole⟩ := List.append_eq_nil_iff.mp clean
    obtain ⟨read, same, derived⟩ := accepts.sound cleanFirst
    obtain ⟨behind, sameBehind, chained⟩ := chainRead_sound accepts _ _ _ (.single derived) cleanWhole
    refine ⟨read ++ behind, ?_, chained⟩
    rw [List.append_assoc, ← sameBehind]
    exact same
  complete chained finish rest follows := by
    rw [read_chain_of_chained accepts follow chained finish rest follows.1,
      chainRead_of_ends follows.2 operand]

theorem multiplicative_accepts : multiplicative.Accepts (DerivesTerm 0) Level.product.Ends :=
  (chain_accepts primary_accepts fun _ _ => trivial).mono fun ends => ⟨trivial, ends⟩

/-- An expression is read without a problem exactly from the tokens that spell it, when no operator
comes behind them. -/
theorem expression_accepts :
    expression.Accepts (Derives 0) (fun rest => Level.product.Ends rest ∧ Level.sum.Ends rest) :=
  chain_accepts multiplicative_accepts fun _ found =>
    Level.ends_cons.mpr (Level.operator?_eq_none_of_ne found (by decide))

end FuncLang.Grammar
