/-! # TOML values

The values that a TOML document can hold. Tables keep their entries in the order in which they are
written, and remember how they came about, because that decides whether they can be added to later.
-/

namespace FuncLang.Toml

/-- A day of the calendar. -/
structure Date where
  year : Nat
  month : Nat
  day : Nat
deriving DecidableEq, Repr

/-- A time of day. The fraction of the second is the digits behind its point. -/
structure Time where
  hour : Nat
  minute : Nat
  second : Nat
  fraction : List Char
deriving DecidableEq, Repr

/-- A date, a time or both; only both together can have an offset, in minutes. -/
inductive Moment where
  | date (date : Date)
  | time (time : Time)
  | dateTime (date : Date) (time : Time) (offset : Option Int)
deriving DecidableEq, Repr

/-- A number in scientific notation: `digits` times ten to the `exponent`. -/
structure Decimal where
  negative : Bool
  digits : Nat
  exponent : Int
deriving DecidableEq, Repr

/-- A floating point literal. -/
inductive Floating where
  | finite (value : Decimal)
  | infinity (negative : Bool)
  | notANumber
deriving DecidableEq, Repr

/-- How a table came about. -/
inductive Form where
  /-- By a header of its own. -/
  | header
  /-- By a longer header that passes through it. -/
  | implied
  /-- By a dotted key. -/
  | dotted
  /-- In braces, which nothing can be added to. -/
  | inline
deriving DecidableEq, Repr

/-- A value of a TOML document. -/
inductive Value where
  | string (text : String)
  | integer (value : Int)
  | float (value : Floating)
  | boolean (value : Bool)
  | moment (value : Moment)
  | array (elements : List Value)
  | table (form : Form) (entries : List (String × Value))
  /-- The tables of a repeated header; the last one can be added to. -/
  | tables (elements : List (List (String × Value)))
deriving Repr

/-- The entries of a table. -/
abbrev Entries := List (String × Value)

end FuncLang.Toml
