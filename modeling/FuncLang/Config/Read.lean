import FuncLang.Config
import FuncLang.Toml.Document

/-! # Reading settings

Settings are read from a TOML document, under the key `diagnostics`. Its value is a table with the
keys `limit` and `filename`, or an array with the two in this order. What is not given keeps its
standard value, and what has no meaning here is passed over; but what is given has to have the
right type. A date or time in place of the table gives nothing.
-/

namespace FuncLang.Config

open Toml

/-- The limit that a value gives: a number that is not negative. -/
def limit? : Option Value → Option Nat
  | none => some standard.limit
  | some (.integer value) => if 0 ≤ value then some value.toNat else none
  | some _ => none

/-- The name that a value gives: a string. -/
def filename? : Option Value → Option String
  | none => some standard.filename
  | some (.string text) => some text
  | some _ => none

/-- The settings with the given values. -/
def ofFields? (limit filename : Option Value) : Option Config := do
  return ⟨← limit? limit, ← filename? filename⟩

/-- The settings that the value of `diagnostics` gives. -/
def ofValue? : Value → Option Config
  | .table _ entries => ofFields? (entries.lookup "limit") (entries.lookup "filename")
  | .array elements => ofFields? elements[0]? elements[1]?
  | .tables elements =>
    ofFields? (elements[0]?.map (.table .header)) (elements[1]?.map (.table .header))
  | .moment _ => some standard
  | .string _ | .integer _ | .float _ | .boolean _ => none

/-- The settings that a document gives; none if it is no document or a value has the wrong type. -/
def ofToml? (text : String) : Option Config := do
  match (← document? text.toList).lookup "diagnostics" with
  | none => some standard
  | some value => ofValue? value

end FuncLang.Config
