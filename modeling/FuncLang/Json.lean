/-! # Serialised values

The part of the JSON data model in which trees and diagnostics are serialised. The fields of an
object are listed in the order in which they are written.
-/

namespace FuncLang

/-- A serialised value. -/
inductive Json where
  | text (value : String)
  | number (value : Nat)
  | array (elements : List Json)
  | object (fields : List (String × Json))
deriving Repr

end FuncLang
