import FuncLang.Toml.Text
import FuncLang.Toml.Value

/-! # Numbers of TOML

Digits may be separated by single underscores. Integers are those of 64 bits; without a sign they
can also be written in the bases 16, 8 and 2. A floating point literal has a fraction or an
exponent. A positive one that is too large to be finite is refused, while `inf` and `nan` can be
written as such.
-/

namespace FuncLang.Toml

open Reader

/-- Digits of one class, with single underscores between them; the underscores are dropped. -/
def digitsOf (isDigit : Char → Bool) : Reader (List Char) := do
  let first ← satisfy isDigit
  let others ← many <| satisfy isDigit <|> do
    let _ ← char '_'
    satisfy isDigit
  return first :: others

/-- A sign, if there is one: whether it is a minus. -/
def sign : Reader Bool :=
  (do let _ ← char '-'; return true) <|> (do let _ ← char '+'; return false) <|> pure false

/-- Decimal digits, of which the first is no zero unless it stands alone. -/
def wholeDigits : Reader (List Char) :=
  (do return [← char '0']) <|> digitsOf Char.isDigit

/-- Whether an integer has 64 bits. -/
def fits (value : Int) : Bool :=
  -9223372036854775808 ≤ value && value < 9223372036854775808

/-- An integer in the base that a letter behind a zero announces. -/
def integerInBase (letter : Char) (base : Nat) (isDigit : Char → Bool) : Reader Int := do
  word ['0', letter]
  return valueInBase base (← digitsOf isDigit)

/-- A decimal integer. -/
def decimalInteger : Reader Int := do
  let negative ← sign
  let value : Int := valueInBase 10 (← wholeDigits)
  return if negative then -value else value

/-- An integer. -/
def integer : Reader Int := do
  let value ← integerInBase 'x' 16 isHexDigit <|>
    integerInBase 'o' 8 (fun c => '0' ≤ c && c ≤ '7') <|>
    integerInBase 'b' 2 (fun c => c == '0' || c == '1') <|>
    decimalInteger
  require (fits value)
  return value

/-- The least positive number that is rounded to infinity in double precision: half a unit above
the greatest finite one. -/
def overflowBound : Nat := Nat.pow 2 1024 - Nat.pow 2 970

/-- Whether the size of a number is at least `overflowBound`. Where the leading digit does not stand
at the 309th place before the point, its place decides alone. -/
def Decimal.overflows (value : Decimal) : Bool :=
  let places : Int := (Nat.toDigits 10 value.digits).length + value.exponent
  if value.digits = 0 ∨ places < 309 then false
  else if places > 309 then true
  else
    overflowBound * Nat.pow 10 (-value.exponent).toNat ≤
      value.digits * Nat.pow 10 value.exponent.toNat

/-- The exponent of a floating point literal. -/
def exponent : Reader Int := do
  let _ ← satisfy fun c => c == 'e' || c == 'E'
  let negative ← sign
  let value : Int := valueInBase 10 (← digitsOf Char.isDigit)
  return if negative then -value else value

/-- The fraction of a floating point literal: its digits. -/
def fraction : Reader (List Char) := do
  let _ ← char '.'
  digitsOf Char.isDigit

/-- A floating point literal in digits. -/
def finite : Reader Decimal := do
  let negative ← sign
  let whole ← wholeDigits
  let fraction? ← maybe fraction
  let exponent? ← maybe exponent
  require (fraction?.isSome || exponent?.isSome)
  let places := fraction?.getD []
  let value : Decimal :=
    ⟨negative, valueInBase 10 (whole ++ places), exponent?.getD 0 - places.length⟩
  require (value.negative || !value.overflows)
  return value

/-- A floating point number. -/
def floating : Reader Floating :=
  (do return .finite (← finite)) <|> do
    let negative ← sign
    (do word "inf".toList; return .infinity negative) <|>
      (do word "nan".toList; return .notANumber)

end FuncLang.Toml
