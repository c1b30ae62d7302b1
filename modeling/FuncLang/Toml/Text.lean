import FuncLang.Toml.Reader

/-! # Blanks, strings and keys of TOML

Basic strings stand in quotes and have escapes, literal strings stand in apostrophes and have none.
Tripled delimiters let a string go over several lines: a line break directly behind the opening
delimiter is dropped, every other one becomes a line feed, and up to two delimiters may stand
directly in front of the closing ones.
-/

namespace FuncLang.Toml

open Reader

/-- A space or a tab. -/
def isSpace (c : Char) : Bool := c == ' ' || c == '\t'

/-- A tab, or a character that is not a control character of the basic alphabet. -/
def isPlain (c : Char) : Bool := c == '\t' || 0x20 ≤ c.toNat && c.toNat != 0x7F

/-- A hexadecimal digit, in either case. -/
def isHexDigit (c : Char) : Bool :=
  c.isDigit || 'a' ≤ c && c ≤ 'f' || 'A' ≤ c && c ≤ 'F'

/-- The number that a hexadecimal digit stands for. -/
def hexDigitValue (c : Char) : Nat :=
  if c.isDigit then c.toNat - '0'.toNat else c.toLower.toNat - 'a'.toNat + 10

/-- The number that digits write in the given base. -/
def valueInBase (base : Nat) (digits : List Char) : Nat :=
  digits.foldl (fun value digit => base * value + hexDigitValue digit) 0

/-- Blanks within a line. -/
def spaces : Reader Unit := do
  let _ ← run isSpace

/-- A line break: a line feed, with or without a carriage return in front. -/
def newline : Reader Char := char '\n' <|> do
  let _ ← char '\r'
  char '\n'

/-- A comment, up to the end of its line. -/
def comment : Reader Unit := do
  let _ ← char '#'
  let _ ← run isPlain

/-- Blanks, line breaks and comments, each comment with the line break that ends it. -/
def blankLines : Reader Unit := do
  let _ ← many <| (do let _ ← satisfy isSpace) <|> (do let _ ← newline) <|> do
    comment
    let _ ← newline

/-- The character with a code point, if there is one. -/
def scalar? (codePoint : Nat) : Option Char :=
  if codePoint.isValidChar then some (Char.ofNat codePoint) else none

/-- A character written by the given number of hexadecimal digits. -/
def codePoint (digits : Nat) : Reader Char := do
  ofOption (scalar? (valueInBase 16 (← times (satisfy isHexDigit) digits)))

/-- A character written behind a backslash. -/
def escape : Reader Char := do
  let _ ← char '\\'
  match ← satisfy fun _ => true with
  | 'b' => return '\x08'
  | 't' => return '\t'
  | 'n' => return '\n'
  | 'f' => return '\x0C'
  | 'r' => return '\r'
  | '\x22' => return '\x22'
  | '\\' => return '\\'
  | 'u' => codePoint 4
  | 'U' => codePoint 8
  | _ => fail

/-- How the strings with a delimiter are written. -/
structure Quoting where
  delimiter : Char
  /-- Whether a backslash begins an escape. -/
  escapes : Bool

/-- Strings in quotes. -/
def basic : Quoting := ⟨'\x22', true⟩

/-- Strings in apostrophes. -/
def verbatim : Quoting := ⟨'\x27', false⟩

namespace Quoting

/-- A character that stands for itself. -/
def plain (quoting : Quoting) : Reader Char :=
  satisfy fun c => isPlain c && c != quoting.delimiter && !(quoting.escapes && c == '\\')

/-- A character that stands for itself or is written by an escape. -/
def character (quoting : Quoting) : Reader Char :=
  quoting.plain <|> do
    require quoting.escapes
    escape

/-- A string within a line. -/
def line (quoting : Quoting) : Reader String := do
  let _ ← char quoting.delimiter
  let text ← many quoting.character
  let _ ← char quoting.delimiter
  return String.ofList text

/-- A backslash at the end of a line, with all blanks and line breaks behind it. -/
def continuation : Reader Unit := do
  let _ ← char '\\'
  spaces
  let _ ← newline
  let _ ← many ((do let _ ← newline) <|> (do let _ ← satisfy isSpace))

/-- A delimiter behind which no two others stand. -/
def single (quoting : Quoting) : Reader Char where
  read
    | [] => none
    | c :: rest =>
      if c = quoting.delimiter ∧ ¬ [c, c] <+: rest then some (c, rest) else none
  rest_suffix {text _ _} success := by
    cases text with
    | nil => nomatch success
    | cons c cs =>
      simp only at success
      split at success
      · obtain ⟨-, rfl⟩ := Prod.mk.inj (Option.some.inj success)
        exact List.suffix_cons c _
      · nomatch success

/-- The delimiters that end a string of several lines, and those that belong to it before them. -/
def closing (quoting : Quoting) : Reader (List Char) :=
  let more (count : Nat) : Reader (List Char) := do
    let kept := List.replicate count quoting.delimiter
    word (kept ++ List.replicate 3 quoting.delimiter)
    return kept
  more 2 <|> more 1 <|> more 0

/-- A string of several lines. -/
def lines (quoting : Quoting) : Reader String := do
  word (List.replicate 3 quoting.delimiter)
  let _ ← maybe newline
  let pieces ← many <|
    (do return [← newline]) <|>
    (do
      require quoting.escapes
      continuation
      return []) <|>
    (do return [← quoting.character]) <|>
    (do return [← quoting.single])
  return String.ofList (pieces.flatten ++ (← quoting.closing))

end Quoting

/-- A string as a value. -/
def string : Reader String :=
  basic.lines <|> basic.line <|> verbatim.lines <|> verbatim.line

/-- A character of a key without quotes. -/
def isBareKey (c : Char) : Bool := c.isAlphanum || c == '_' || c == '-'

/-- One part of a key. -/
def keyPart : Reader String :=
  basic.line <|> verbatim.line <|> do
    let text ← run isBareKey
    require !text.isEmpty
    return String.ofList text

/-- How many parts a key can have. -/
def maxKeyParts : Nat := 79

/-- A key: its parts with points between them, and blanks around each. -/
def key : Reader (List String) := do
  let parts ← separated (char '.') do
    spaces
    let part ← keyPart
    spaces
    return part
  require (parts.length ≤ maxKeyParts)
  return parts

end FuncLang.Toml
