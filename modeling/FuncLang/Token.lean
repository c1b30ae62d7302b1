import FuncLang.Position

/-! # Tokens

A token is a kind, a text and the position of its first character. The text of a string literal is
what stands between its quotes; every other text is written in the source as it is. Keywords are
recognised without regard to the case of the letters A to Z, and keep the case in which they were
written.
-/

namespace FuncLang

/-- The letters A to Z in lower case, all other characters as they are. -/
def foldCase (cs : List Char) : List Char := cs.map Char.toLower

/-- The reserved words, in lower case. -/
def keywords : List String :=
  ["func", "do", "end", "endfunc", "return", "fn", "when", "else", "if"]

/-- Whether a word is reserved, in whatever case it is written. -/
def isKeyword (word : List Char) : Bool :=
  keywords.any fun keyword => keyword.toList == foldCase word

namespace Token

/-- What a token is. -/
inductive Kind where
  | endOfInput
  | identifier
  | integer
  | stringLiteral
  | keyword
  | operator
  | punctuation
  | comment
  | unknown
deriving DecidableEq, Repr

namespace Kind

/-- All kinds, in the order of their declaration. -/
def all : List Kind :=
  [endOfInput, identifier, integer, stringLiteral, keyword, operator, punctuation, comment, unknown]

/-- The name under which a kind is shown. -/
def name : Kind → String
  | endOfInput => "EndOfInput"
  | identifier => "Identifier"
  | integer => "Integer"
  | stringLiteral => "StringLiteral"
  | keyword => "Keyword"
  | operator => "Operator"
  | punctuation => "Punctuation"
  | comment => "Comment"
  | unknown => "Unknown"

/-- The kind with the given name. -/
def ofName? (name : String) : Option Kind := all.find? (·.name == name)

theorem ofName?_name (kind : Kind) : ofName? kind.name = some kind := by cases kind <;> rfl

end Kind

end Token

/-- A lexical unit of a source text. -/
structure Token where
  kind : Token.Kind
  text : String
  position : Position
deriving DecidableEq, Repr

namespace Token

/-- The token that stands behind all others. -/
def endOfInput (position : Position) : Token := ⟨.endOfInput, "", position⟩

/-- Whether the token has exactly this kind and this text. -/
def is (token : Token) (kind : Kind) (text : String) : Bool :=
  token.kind == kind && token.text == text

/-- Whether the token is the given keyword, in whatever case either is written. -/
def isKeyword (token : Token) (word : String) : Bool :=
  token.kind == .keyword && foldCase token.text.toList == foldCase word.toList

/-- Whether the token is one of the given operators. -/
def isOperator (token : Token) (symbols : List String) : Bool :=
  token.kind == .operator && symbols.contains token.text

/-- Whether the token stands behind all others. -/
def isEnd (token : Token) : Bool := token.kind == .endOfInput

@[simp] theorem isEnd_endOfInput (position : Position) : (endOfInput position).isEnd = true := rfl

end Token

end FuncLang
