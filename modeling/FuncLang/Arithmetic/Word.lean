import FuncLang.Expression

/-! # Words

Arithmetic is exact on integers of 64 bits: an operation is done on the integers and its result is
accepted only if a word holds it. So no result is ever wrapped around. Division drops the fraction.
-/

namespace FuncLang.Arithmetic

/-- The word that holds an integer, if one does. -/
def word? (n : Int) : Option Int64 :=
  if -9223372036854775808 ≤ n ∧ n < 9223372036854775808 then some (Int64.ofInt n) else none

/-- A word holds an integer exactly when it is that integer. -/
theorem word?_eq_some {n : Int} {word : Int64} : word? n = some word ↔ word.toInt = n := by
  unfold word?
  constructor
  · intro held
    split at held
    next fits => rw [← Option.some.inj held, Int64.toInt_ofInt_of_le fits.1 fits.2]
    next => simp at held
  · rintro rfl
    rw [if_pos ⟨word.le_toInt, word.toInt_lt⟩, Int64.ofInt_toInt]

/-- The number that decimal digits write. -/
def decimalValue (digits : List Char) : Nat :=
  digits.foldl (fun value digit => 10 * value + (digit.toNat - '0'.toNat)) 0

/-- The exact result of an operator; a quotient is cut off toward zero. -/
def exact (operator : Operator) (left right : Int) : Int :=
  match operator with
  | .add => left + right
  | .subtract => left - right
  | .multiply => left * right
  | .divide => left.tdiv right

example : exact .divide (-7) 2 = -3 := by decide
example : word? (exact .divide (-9223372036854775808) (-1)) = none := by decide

end FuncLang.Arithmetic
