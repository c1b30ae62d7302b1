import FuncLang.Toml.Moment
import FuncLang.Toml.Number
import FuncLang.Toml.Table

/-! # TOML documents

A document is read line by line, where a line holds a header, a key with its value, or nothing; the
value may go over several lines of the text. The lines are then added to a table one after the
other, each key in the table of the header before it. A mark of the byte order may come first.
-/

namespace FuncLang.Toml

open Reader

/-- What a line of a document says. -/
inductive Line where
  | header (path : List String) (key : String)
  | element (path : List String) (key : String)
  | entry (path : List String) (key : String) (value : Value)
deriving Repr

/-- Splits a key into the parts that lead to a table and the one that is defined there. -/
def splitKey (parts : List String) : List String × String :=
  (parts.dropLast, parts.getLast?.getD "")

/-- A key, an equals sign and a value, which ends before the blanks behind it. -/
def keyAndValue (value : Reader Value) : Reader (List String × Value) := do
  let parts ← key
  let _ ← char '='
  spaces
  return (parts, ← value)

/-- A value in one piece. -/
def atom : Reader Value :=
  (do return .string (← string)) <|>
  (do return .moment (← moment)) <|>
  (do return .float (← floating)) <|>
  (do return .integer (← integer)) <|>
  (do word "true".toList; return .boolean true) <|>
  (do word "false".toList; return .boolean false)

/-- Values in brackets, with commas between them and possibly behind them. -/
def array (value : Reader Value) : Reader Value := do
  let _ ← char '['
  let elements ← maybe do
    let elements ← separated (char ',') do
      blankLines
      let element ← value
      blankLines
      return element
    let _ ← maybe (char ',')
    return elements
  blankLines
  let _ ← char ']'
  return .array (elements.getD [])

/-- Keys and values in braces, with commas between them. -/
def inlineTable (value : Reader Value) : Reader Value := do
  let _ ← char '\x7b'
  let pairs ← maybe <| separated (char ',') do
    let pair ← keyAndValue value
    spaces
    return pair
  spaces
  let _ ← char '\x7d'
  let entries ← ofOption <| (pairs.getD []).foldlM
    (fun entries pair => addValue (splitKey pair.1).1 (splitKey pair.1).2 pair.2 .header entries) []
  return .table .inline entries

/-- A value in which others can be nested as deep as the given number. -/
def value : Nat → Reader Value
  | 0 => atom
  | depth + 1 => atom <|> array (value depth) <|> inlineTable (value depth)

/-- How deep values can be nested in one another. -/
def maxDepth : Nat := 79

/-- A key in brackets. -/
def bracketed (opening closing : List Char) : Reader (List String) := do
  word opening
  let parts ← key
  word closing
  return parts

/-- What a line says that is not empty. -/
def content : Reader Line :=
  (do
    let (path, key) := splitKey (← bracketed "[[".toList "]]".toList)
    return .element path key) <|>
  (do
    let (path, key) := splitKey (← bracketed "[".toList "]".toList)
    return .header path key) <|>
  (do
    let (parts, value) ← keyAndValue (value maxDepth)
    return .entry (splitKey parts).1 (splitKey parts).2 value)

/-- A line with the line break that ends it, unless the text ends there. -/
def line : Reader (Option Line) := do
  spaces
  let said ← maybe content
  spaces
  let _ ← maybe comment
  (do let _ ← newline) <|> endOfText
  return said

/-- The lines of a text that say something. -/
def lines? (text : List Char) : Option (List Line) :=
  ((many line).all? text).map (·.filterMap id)

/-- A document of which some lines have been added. -/
structure Draft where
  entries : Entries
  /-- The key of the last header, to which entries are added. -/
  current : List String

/-- Adds a line. -/
def Draft.add (draft : Draft) : Line → Option Draft
  | .header path key => do
    return ⟨← addTable path key draft.entries, path ++ [key]⟩
  | .element path key => do
    return ⟨← addElement path key draft.entries, path ++ [key]⟩
  | .entry path key value => do
    let entries ← changeAt .implied (addValue path key value) draft.current .header draft.entries
    return { draft with entries }

/-- The text without a mark of the byte order in front. -/
def dropMark : List Char → List Char
  | '\ufeff' :: text => text
  | text => text

/-- The entries of a whole document. -/
def document? (text : List Char) : Option Entries := do
  let lines ← lines? (dropMark text)
  let draft ← lines.foldlM Draft.add ⟨[], []⟩
  return draft.entries

end FuncLang.Toml
