import FuncLang.Arithmetic.Rule
import FuncLang.Proofs.Expression.Derivation
import Mathlib.Algebra.Group.Int.Defs

/-! # Values of expressions

The value of an expression in two ways. `exactValue` is computed on the integers, without regard to
words; an expression is in range when every literal and every result on the way fits into a word and
nothing is divided by zero. `evaluate` is computed on words, one operand after the other and then the
operation, and stops at the first cause for which there is no value. They agree: the words give a
value exactly when the expression is in range, and it is the exact one.

Operations on words are described here by their exact results and by whether these fit. What the rules of
arithmetic compute comes to the same.
-/

namespace FuncLang.Arithmetic

/-- Whether a word holds the integer. -/
def Fits (n : Int) : Prop := -2 ^ 63 ≤ n ∧ n ≤ 2 ^ 63 - 1

instance (n : Int) : Decidable (Fits n) := inferInstanceAs (Decidable (_ ∧ _))

theorem fits_toInt (word : Int64) : Fits word.toInt := by
  have lower := word.le_toInt
  have upper := word.toInt_lt
  constructor <;> omega

theorem exists_toInt_iff_fits {n : Int} : (∃ word : Int64, word.toInt = n) ↔ Fits n := by
  constructor
  · rintro ⟨word, rfl⟩
    exact fits_toInt word
  · rintro ⟨lower, upper⟩
    exact ⟨Int64.ofInt n, Int64.toInt_ofInt_of_le (by omega) (by omega)⟩

/-- The word that holds the integer, or the cause for which none does. -/
def inWord (n : Int) (cause : Cause) : Except Cause Int64 :=
  if Fits n then .ok (Int64.ofInt n) else .error cause

/-- The value of an operator on two words. There is none for a division by zero, and none where no word
holds the exact result. -/
def checked (operator : Operator) (left right : Int64) : Except Cause Int64 :=
  if operator = .divide ∧ right.toInt = 0 then .error .divisionByZero
  else inWord (exact operator left.toInt right.toInt) (.overflow operator)

theorem inWord_eq_ok_iff {n : Int} {cause : Cause} {word : Int64} :
    inWord n cause = .ok word ↔ n = word.toInt := by
  unfold inWord
  split
  next fits =>
    obtain ⟨held, rfl⟩ := exists_toInt_iff_fits.mpr fits
    rw [Int64.ofInt_toInt, Except.ok.injEq, Int64.toInt_inj]
  next out => exact ⟨fun done => (by cases done), fun same => absurd (same ▸ fits_toInt word) out⟩

/-- An operation has a value unless it divides by zero or no word holds its exact result. -/
theorem checked_eq_ok_iff {operator : Operator} {left right word : Int64} :
    checked operator left right = .ok word ↔
      (operator = .divide → right.toInt ≠ 0) ∧ exact operator left.toInt right.toInt = word.toInt := by
  unfold checked
  split
  next divides => simp [divides]
  next nonzero =>
    rw [inWord_eq_ok_iff, and_iff_right fun divide none => nonzero ⟨divide, none⟩]

/-! ## The operations of the rules -/

theorem word?_eq_ite (n : Int) : word? n = if Fits n then some (Int64.ofInt n) else none := by
  split
  next fits =>
    obtain ⟨word, rfl⟩ := exists_toInt_iff_fits.mpr fits
    rw [word?_eq_some, Int64.ofInt_toInt]
  next out =>
    rw [Option.eq_none_iff_forall_ne_some]
    intro word held
    exact out (word?_eq_some.mp held ▸ fits_toInt word)

theorem digitsValue_eq_inWord (digits : String) :
    digitsValue digits = inWord (decimalValue digits.toList) (.invalidInteger digits) := by
  rw [digitsValue, word?_eq_ite, inWord]
  split <;> rfl

theorem apply_eq_checked (operator : Operator) (left right : Int64) :
    apply operator left right = checked operator left right := by
  have zero : right.toInt = 0 ↔ right = 0 := Int64.toInt_inj (y := 0)
  simp only [apply, checked, word?_eq_ite, inWord, zero]
  split
  · rfl
  · by_cases fits : Fits (exact operator left.toInt right.toInt)
    · simp only [if_pos fits]
    · simp only [if_neg fits]

end FuncLang.Arithmetic

namespace FuncLang.Expression

open Arithmetic

/-- The value on the integers, where a quotient is cut off toward zero. -/
def exactValue : Expression → Int
  | literal digits => decimalValue digits.toList
  | missing => 0
  | binary operator left right => exact operator left.exactValue right.exactValue

/-- Whether every literal and every result fits into a word and no divisor is zero. A hole has no
value. -/
def InRange : Expression → Prop
  | literal digits => Fits (decimalValue digits.toList)
  | missing => False
  | binary operator left right => left.InRange ∧ right.InRange ∧
    (operator = .divide → right.exactValue ≠ 0) ∧
    Fits (exact operator left.exactValue right.exactValue)

/-- The value on words: left operand, right operand, operation; or the first cause for which there is
none. -/
def evaluate : Expression → Except Cause Int64
  | literal digits => inWord (decimalValue digits.toList) (.invalidInteger digits)
  | missing => .error (.unexpectedToken .integer "")
  | binary operator left right => do
    let first ← left.evaluate
    let second ← right.evaluate
    checked operator first second

theorem InRange.fits {value : Expression} (inside : value.InRange) : Fits value.exactValue := by
  cases value with
  | literal digits => exact inside
  | missing => exact inside.elim
  | binary operator left right => exact inside.2.2.2

theorem evaluate_literal (digits : String) : (literal digits).evaluate = digitsValue digits :=
  (digitsValue_eq_inWord digits).symm

theorem evaluate_binary_eq_ok_iff {operator : Operator} {left right : Expression} {word : Int64} :
    (binary operator left right).evaluate = .ok word ↔
      ∃ first second, left.evaluate = .ok first ∧ right.evaluate = .ok second ∧
        apply operator first second = .ok word := by
  simp only [evaluate, apply_eq_checked]
  cases left.evaluate with
  | error cause => simp [bind, Except.bind]
  | ok first =>
    cases right.evaluate with
    | error cause => simp [bind, Except.bind]
    | ok second => simp [bind, Except.bind]

/-- There is no value for the first cause on the way: in the left operand, in the right one, or in the
operation. -/
theorem evaluate_binary_eq_error_iff {operator : Operator} {left right : Expression}
    {cause : Cause} :
    (binary operator left right).evaluate = .error cause ↔
      left.evaluate = .error cause ∨ ∃ first, left.evaluate = .ok first ∧
        (right.evaluate = .error cause ∨ ∃ second, right.evaluate = .ok second ∧
          apply operator first second = .error cause) := by
  simp only [evaluate, apply_eq_checked]
  cases left.evaluate with
  | error cause => simp [bind, Except.bind]
  | ok first =>
    cases right.evaluate with
    | error cause => simp [bind, Except.bind]
    | ok second => simp [bind, Except.bind]

/-- The words give a value exactly when the expression is in range, and it is the exact one. -/
theorem evaluate_eq_ok_iff {value : Expression} {word : Int64} :
    value.evaluate = .ok word ↔ value.InRange ∧ value.exactValue = word.toInt := by
  induction value generalizing word with
  | literal digits =>
    rw [evaluate, inWord_eq_ok_iff, InRange, exactValue]
    exact ⟨fun same => ⟨same ▸ fits_toInt word, same⟩, And.right⟩
  | missing => simp [evaluate, InRange]
  | binary operator left right ihLeft ihRight =>
    rw [evaluate_binary_eq_ok_iff, InRange, exactValue]
    constructor
    · rintro ⟨first, second, leftOk, rightOk, applied⟩
      obtain ⟨leftIn, leftValue⟩ := ihLeft.mp leftOk
      obtain ⟨rightIn, rightValue⟩ := ihRight.mp rightOk
      rw [apply_eq_checked] at applied
      obtain ⟨divides, result⟩ := checked_eq_ok_iff.mp applied
      rw [← leftValue, ← rightValue] at result
      rw [← rightValue] at divides
      exact ⟨⟨leftIn, rightIn, divides, result ▸ fits_toInt word⟩, result⟩
    · rintro ⟨⟨leftIn, rightIn, divides, fits⟩, result⟩
      obtain ⟨first, leftValue⟩ := exists_toInt_iff_fits.mpr leftIn.fits
      obtain ⟨second, rightValue⟩ := exists_toInt_iff_fits.mpr rightIn.fits
      rw [← leftValue, ← rightValue] at result
      rw [← rightValue] at divides
      refine ⟨first, second, ihLeft.mpr ⟨leftIn, leftValue.symm⟩, ihRight.mpr ⟨rightIn, rightValue.symm⟩, ?_⟩
      rw [apply_eq_checked]
      exact checked_eq_ok_iff.mpr ⟨divides, result⟩

end FuncLang.Expression
