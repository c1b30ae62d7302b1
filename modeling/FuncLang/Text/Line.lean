/-! # Lines of a text

A line ends at a line feed. A carriage return directly before that line feed belongs to the line
break and not to the line; anywhere else it is an ordinary character. A text that ends in a line
feed has no further empty line behind it.
-/

namespace FuncLang.Text

/-- Puts a character in front of the first line, which it starts when there is none. -/
def extendFirst (c : Char) : List (List Char) → List (List Char)
  | [] => [[c]]
  | line :: lines => (c :: line) :: lines

/-- The lines of a text, without their line breaks. -/
def lines : List Char → List (List Char)
  | [] => []
  | '\n' :: cs => [] :: lines cs
  | '\r' :: '\n' :: cs => [] :: lines cs
  | c :: cs => extendFirst c (lines cs)

/-- The line with the given number, counted from one; the empty line where the text has none.
Number zero stands for the first line. -/
def lineAt (cs : List Char) (number : Nat) : List Char := (lines cs)[number - 1]?.getD []

example : lines "a\r\n\rb\n\nc\r".toList = ["a".toList, "\rb".toList, [], "c\r".toList] := by decide

end FuncLang.Text
