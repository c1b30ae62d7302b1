import FuncLang.Lexeme
import FuncLang.Text.Blank

/-! # Scanner

A scanner stands in a source text and is pulled for one token after the other. It reads the source
without its leading and trailing blanks and with one line feed behind it, so that every line is
ended; positions count in the untrimmed source. Between tokens it passes over gaps of spaces, tabs,
carriage returns and line feeds. Behind the last token every pull gives the end of the input, which
is at the start of the line behind the last one.

`Scanner.drain` is the list of all tokens that pulling gives, and `tokenize` the one of a whole
source.
-/

namespace FuncLang

/-- The characters that may stand between two tokens. -/
def isGap (c : Char) : Bool := c == ' ' || c == '\t' || c == '\r' || c == '\n'

/-- A place between two tokens of a source text. -/
structure Scanner where
  /-- What has not been read yet. -/
  rest : List Char
  /-- The position of the first character that has not been read yet. -/
  position : Position
  /-- The token that was pulled last. -/
  last : Token
deriving DecidableEq, Repr

namespace Scanner

/-- Stands at the start of a text, where no token has been pulled yet. -/
def ofChars (source : List Char) : Scanner where
  rest := Text.trim source ++ ['\n']
  position := Position.first.advance (Text.leadingBlanks source)
  last := Token.endOfInput Position.first

/-- Stands at the start of a source, where no token has been pulled yet. -/
def ofSource (source : String) : Scanner := ofChars source.toList

/-- The gap in front of the next token. -/
def gap (scanner : Scanner) : List Char := scanner.rest.takeWhile isGap

/-- What has not been read yet behind the gap. -/
def ahead (scanner : Scanner) : List Char := scanner.rest.dropWhile isGap

/-- Reads the next token, which is then the `last` one. -/
def pull (scanner : Scanner) : Scanner :=
  let start := scanner.position.advance scanner.gap
  match scanner.ahead with
  | [] => ⟨[], start, Token.endOfInput start⟩
  | c :: cs =>
    let (lexeme, rest) := Lexeme.scan c cs
    ⟨rest, start.advance lexeme.written, lexeme.toToken start⟩

/-- The next token, if that is not the end of the input. It is pulled in any case. -/
def next? (scanner : Scanner) : Option Token × Scanner :=
  let behind := scanner.pull
  (if behind.last.isEnd then none else some behind.last, behind)

/-- Whether everything has been read, the line feed behind the source included. -/
def atEnd (scanner : Scanner) : Bool := scanner.rest.isEmpty

/-- Whether the next pull gives a token before the end of the input. -/
def hasNext (scanner : Scanner) : Bool := !scanner.ahead.isEmpty

theorem pull_rest_lt {scanner : Scanner} (more : scanner.hasNext = true) :
    scanner.pull.rest.length < scanner.rest.length := by
  have shorter := (List.dropWhile_suffix isGap (l := scanner.rest)).length_le
  unfold hasNext ahead at more
  unfold pull ahead
  split
  next empty => simp [empty] at more
  next c cs tokens =>
    have := (Lexeme.rest_suffix c cs).length_le
    simp only [tokens, List.length_cons] at shorter
    simp only
    omega

/-- All tokens up to the end of the input, which is not one of them, and the scanner behind it. -/
def drain (scanner : Scanner) : List Token × Scanner :=
  if _ : scanner.hasNext = true then
    let (tokens, final) := scanner.pull.drain
    (scanner.pull.last :: tokens, final)
  else ([], scanner.pull)
termination_by scanner.rest.length
decreasing_by exact pull_rest_lt ‹_›

/-- A pull gives the end of the input exactly when there is no next token. -/
theorem isEnd_pull (scanner : Scanner) : scanner.pull.last.isEnd = !scanner.hasNext := by
  unfold pull hasNext
  split
  next empty => simp [empty]
  next c cs tokens => simp [tokens, Token.isEnd, Lexeme.toToken, Lexeme.kind_ne_endOfInput c cs]

end Scanner

/-- All tokens of a source, comments included, and the end of the input behind them. -/
def tokenize (source : String) : List Token :=
  let (tokens, final) := (Scanner.ofSource source).drain
  tokens ++ [final.last]

end FuncLang
