import FuncLang.Toml.Value

/-! # Adding to tables

A key is defined once. Headers and dotted keys lead through tables, which come into being on the
way. A table that has a header of its own or was written in braces is closed to dotted keys, and a
header can stand for a table only once, but it may come after longer headers that imply the table.
Through a repeated header the way always leads to its last table.
-/

namespace FuncLang.Toml

namespace Entries

/-- The entries with a value for a key, in the place of the one it had. -/
def put (entries : Entries) (key : String) (value : Value) : Entries :=
  if entries.any (·.1 == key) then
    entries.map fun entry => if entry.1 == key then (key, value) else entry
  else entries ++ [(key, value)]

/-- The entries of a table with the one that the change gives to a key; fails if the change does. -/
def alter (entries : Entries) (key : String) (change : Option Value → Option Value) :
    Option Entries :=
  (change (entries.lookup key)).map (put entries key)

end Entries

/-- Whether a way that makes tables of the form `made` may lead through one of the form `found`. -/
def Form.admits (found made : Form) : Bool :=
  match found with
  | header => made != dotted
  | implied | dotted => true
  | inline => false

/-- Changes the table to which a path leads, where tables that are not there yet come about with the
form `made`. The change is handed the form of the table and its entries. -/
def changeAt (made : Form) (change : Form → Entries → Option Entries) :
    List String → Form → Entries → Option Entries
  | [], form, entries => change form entries
  | key :: path, _, entries =>
    entries.alter key fun
      | none => (changeAt made change path made []).map (.table made)
      | some (.table form inner) =>
        if form.admits made then (changeAt made change path form inner).map (.table form) else none
      | some (.tables elements) => do
        let last ← elements.getLast?
        let changed ← changeAt made change path .header last
        return .tables (elements.dropLast ++ [changed])
      | some _ => none

/-- Gives a value to a key that has none yet. -/
def define (key : String) (value : Value) (entries : Entries) : Option Entries :=
  entries.alter key fun
    | none => some value
    | some _ => none

/-- Adds the value of a key to a table; all parts of the key but the last one lead to the table that
gets it, which dotted keys then have made. -/
def addValue (path : List String) (key : String) (value : Value) :
    Form → Entries → Option Entries :=
  changeAt .dotted
    (fun form entries =>
      if (form = .dotted) = (path ≠ []) then define key value entries else none)
    path

/-- Adds a table with a header of its own. -/
def addTable (path : List String) (key : String) : Entries → Option Entries :=
  changeAt .implied
    (fun _ entries => entries.alter key fun
      | none => some (.table .header [])
      | some (.table .implied inner) => some (.table .header inner)
      | some _ => none)
    path .header

/-- Adds one more table of a repeated header. -/
def addElement (path : List String) (key : String) : Entries → Option Entries :=
  changeAt .implied
    (fun _ entries => entries.alter key fun
      | none => some (.tables [[]])
      | some (.tables elements) => some (.tables (elements ++ [[]]))
      | some _ => none)
    path .header

end FuncLang.Toml
