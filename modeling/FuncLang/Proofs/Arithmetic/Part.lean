import FuncLang.Proofs.Arithmetic.Evaluation
import FuncLang.Proofs.Expression.Beginning

/-! # Rules of the parts of an expression

The rule of a part of an expression gives values of what spells the part, and leaves nothing that the
part would have gone on with: no operator of its own level, and none that binds tighter.
-/

namespace FuncLang

open Arithmetic
open Expression (Part Factor DerivesGroup)

/-- Whether the part does not go on with what follows. -/
def Expression.Part.Ends : Part → List Token → Prop
  | expression, rest => Level.product.Ends rest ∧ Level.sum.Ends rest
  | term, rest => Level.product.Ends rest
  | factor, _ => True

/-- The rule that computes the part when so many parentheses may still be opened. -/
def Expression.Part.rule (available : Nat) : Part → Arithmetic.Rule
  | expression => expressionOver (group available)
  | term => termOver (group available)
  | factor => factorOver (group available)

theorem Level.rule_chain (level : Level) (available : Nat) :
    level.chain.rule available = Arithmetic.chain level (level.operand.rule available) := by
  cases level <;> rfl

/-- The end of the input does not go on with an operand either. -/
theorem Level.Ends.append_endOfInput {level : Level} {rest : List Token} (ends : level.Ends rest)
    (finish : Position) : level.Ends (rest ++ [Token.endOfInput finish]) := by
  cases rest with
  | nil => exact Level.ends_cons.mpr (by cases level <;> rfl)
  | cons token rest => exact ends

theorem Expression.Part.Ends.append_endOfInput {part : Part} {rest : List Token} (ends : part.Ends rest)
    (finish : Position) : part.Ends (rest ++ [Token.endOfInput finish]) := by
  cases part with
  | expression => exact ⟨ends.1.append_endOfInput finish, ends.2.append_endOfInput finish⟩
  | term => exact Level.Ends.append_endOfInput ends finish
  | factor => trivial

namespace Arithmetic

variable {level : Level} {operand : Rule} {OperandEnds : List Token → Prop} {finish : Position}

/-- A loop that ends with a value leaves no operator of its level, and nothing that its last operand
goes on with. -/
theorem ends_rest_chainRead
    (operands : ∀ {unread word}, (operand.read finish unread).result = .ok word →
      OperandEnds (operand.read finish unread).rest) (left : Int64) (unread : List Token) :
    ∀ {word}, OperandEnds unread → (chainRead level operand finish left unread).result = .ok word →
      OperandEnds (chainRead level operand finish left unread).rest ∧
        level.Ends (chainRead level operand finish left unread).rest := by
  fun_induction chainRead level operand finish left unread with
  | case1 => exact fun ends _ => ⟨ends, Level.ends_nil level⟩
  | case2 left token unread none => exact fun ends _ => ⟨ends, Level.ends_cons.mpr none⟩
  | case3 =>
    intro _ _ done
    cases done
  | case4 =>
    intro _ _ done
    cases done
  | case5 left token unread operator found right second evaluated result applied =>
    rename_i ih
    exact fun _ done => ih (operands evaluated) done

theorem ends_rest_chain
    (operands : ∀ {unread word}, (operand.read finish unread).result = .ok word →
      OperandEnds (operand.read finish unread).rest) {unread : List Token} {word : Int64}
    (done : ((chain level operand).read finish unread).result = .ok word) :
    OperandEnds ((chain level operand).read finish unread).rest ∧
      level.Ends ((chain level operand).read finish unread).rest := by
  unfold chain at done ⊢
  dsimp only at done ⊢
  split at done
  next => cases done
  next first firstOk => exact ends_rest_chainRead operands first _ (operands firstOk) done

end Arithmetic

namespace Expression.Part

variable {available : Nat} {finish : Position} {unread : List Token} {word : Int64}

/-- A rule that gives a value leaves nothing that its part would go on with. -/
theorem ends_rest (part : Part) (done : ((part.rule available).read finish unread).result = .ok word) :
    part.Ends ((part.rule available).read finish unread).rest := by
  have terms {unread : List Token} {word : Int64}
      (done : ((term.rule available).read finish unread).result = .ok word) :
      term.Ends ((term.rule available).read finish unread).rest :=
    (@ends_rest_chain .product _ (fun _ => True) _ (fun _ => trivial) _ _ done).2
  cases part with
  | expression => exact ends_rest_chain terms done
  | term => exact terms done
  | factor => trivial

/-- The rule of a part computes the values of what spells the part. -/
theorem evaluates (part : Part) (available : Nat) :
    (part.rule available).Evaluates (part.Derives available) (fun _ => True) part.Ends := by
  have factors := factorOver_evaluates (group_evaluates available) opens_of_derivesGroup
  cases part with
  | expression =>
    have sums := expressionOver_evaluates (group_evaluates available) opens_of_derivesGroup
    exact ⟨sums.sound, fun derived finish rest ends =>
      sums.complete derived finish rest ⟨⟨trivial, ends.1⟩, ends.2⟩⟩
  | term =>
    have products := @chain_evaluates .product _ _ _ factors fun _ _ => trivial
    exact ⟨products.sound, fun derived finish rest ends =>
      products.complete derived finish rest ⟨trivial, ends⟩⟩
  | factor => exact factors

/-- What a rule read if it gave a value. -/
theorem exists_derives (part : Part)
    (done : ((part.rule available).read finish unread).result = .ok word) :
    ∃ value tokens, unread = tokens ++ ((part.rule available).read finish unread).rest ∧
      part.Derives available value tokens ∧ value.evaluate = .ok word :=
  (part.evaluates available).sound trivial done

end Expression.Part

end FuncLang
