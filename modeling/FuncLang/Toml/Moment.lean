import FuncLang.Toml.Text
import FuncLang.Toml.Value

/-! # Dates and times of TOML

A date is a day that the Gregorian calendar has. A time has hours, minutes and seconds, where second
60 is there for leap seconds. A date and a time are joined by the letter T or a space, and only then
there can be an offset. A space behind a date that no time follows is not part of it.
-/

namespace FuncLang.Toml

open Reader

/-- A number of exactly so many digits, between two bounds. -/
def digitsBetween (count least most : Nat) : Reader Nat := do
  let value := valueInBase 10 (← times (satisfy Char.isDigit) count)
  require (least ≤ value && value ≤ most)
  return value

/-- Whether a year has a 29th of February. -/
def isLeapYear (year : Nat) : Bool := year % 4 == 0 && (year % 100 != 0 || year % 400 == 0)

/-- The number of days in a month. -/
def daysInMonth (year month : Nat) : Nat :=
  if month = 2 then if isLeapYear year then 29 else 28
  else if month ∈ [4, 6, 9, 11] then 30
  else 31

/-- A date. -/
def date : Reader Date := do
  let year ← digitsBetween 4 0 9999
  let _ ← char '-'
  let month ← digitsBetween 2 1 12
  let _ ← char '-'
  let day ← digitsBetween 2 1 (daysInMonth year month)
  return ⟨year, month, day⟩

/-- Hours and minutes. -/
def hourAndMinute : Reader (Nat × Nat) := do
  let hour ← digitsBetween 2 0 23
  let _ ← char ':'
  return (hour, ← digitsBetween 2 0 59)

/-- A time of day. -/
def time : Reader Time := do
  let (hour, minute) ← hourAndMinute
  let _ ← char ':'
  let second ← digitsBetween 2 0 60
  let fraction? ← maybe do
    let _ ← char '.'
    let digits ← run Char.isDigit
    require !digits.isEmpty
    return digits
  return ⟨hour, minute, second, fraction?.getD []⟩

/-- An offset in minutes. -/
def offset : Reader Int :=
  (do let _ ← satisfy fun c => c == 'Z' || c == 'z'; return 0) <|> do
    let mark ← satisfy fun c => c == '+' || c == '-'
    let (hour, minute) ← hourAndMinute
    let minutes : Int := hour * 60 + minute
    return if mark = '-' then -minutes else minutes

/-- A time behind a date, and its offset if it has one. -/
def timeOfDate : Reader (Time × Option Int) := do
  let _ ← satisfy fun c => c == 'T' || c == 't' || c == ' '
  let time ← time
  return (time, ← maybe offset)

/-- A date, a time or both. -/
def moment : Reader Moment :=
  (do
    let date ← date
    match ← maybe timeOfDate with
    | some (time, offset?) => return .dateTime date time offset?
    | none => return .date date) <|>
  (do return .time (← time))

end FuncLang.Toml
