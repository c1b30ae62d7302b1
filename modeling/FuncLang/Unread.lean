import FuncLang.Scanner

/-! # Unread tokens

What the rules of the grammar and of arithmetic read from: the tokens of a source without its
comments, and the position at which the input ends behind them. The end of the input is not one of
the tokens; it is what is looked at when there are none left.
-/

namespace FuncLang

/-- The first of the tokens, or the end of the input if there are none. -/
def lookahead (finish : Position) (tokens : List Token) : Token :=
  tokens.head?.getD (Token.endOfInput finish)

@[simp] theorem lookahead_nil (finish : Position) :
    lookahead finish [] = Token.endOfInput finish := rfl

@[simp] theorem lookahead_cons (finish : Position) (token : Token) (tokens : List Token) :
    lookahead finish (token :: tokens) = token := rfl

/-- The tokens that mean something, comments left out. -/
def significant (tokens : List Token) : List Token := tokens.filter (·.kind != .comment)

/-- The tokens of a source that have not been read yet. -/
structure Unread where
  tokens : List Token
  /-- The position at which the input ends. -/
  finish : Position
deriving DecidableEq, Repr

namespace Unread

/-- All tokens of a source. -/
def ofSource (source : String) : Unread :=
  let (tokens, final) := (Scanner.ofSource source).drain
  ⟨significant tokens, final.last.position⟩

/-- The next token, or the end of the input. -/
def current (unread : Unread) : Token := lookahead unread.finish unread.tokens

/-- Whether there is a next token. -/
def hasNext (unread : Unread) : Bool := !unread.tokens.isEmpty

end Unread

end FuncLang
