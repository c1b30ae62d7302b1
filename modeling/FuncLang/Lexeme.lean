import FuncLang.Token

/-! # Lexemes

A lexeme is a token without its position: its kind and its text. `Lexeme.scan` takes the lexeme at
the front of a text. The classes are tried in a fixed order, each takes as much as it can, and a
character that starts none of them is a lexeme of its own. So scanning always succeeds, and what is
written of the lexeme followed by the rest is the text that was scanned.
-/

namespace FuncLang

/-- A letter of the basic alphabet or an underscore. -/
def isNameStart (c : Char) : Bool := c.isAlpha || c == '_'

/-- A character of a name behind its first one. -/
def isNamePart (c : Char) : Bool := isNameStart c || c.isDigit

/-- The characters that are operators. -/
def operatorSymbols : List Char := ['-', '+', '*', '/']

/-- The characters that are punctuation. -/
def punctuationSymbols : List Char := ['(', ')', '{', '}', '[', ']', ',', ';', '.']

/-- The kind and the text of a token. -/
structure Lexeme where
  kind : Token.Kind
  text : String
deriving DecidableEq, Repr

namespace Lexeme

/-- The lexeme as it stands in a source text: string literals have their quotes around them. -/
def written (lexeme : Lexeme) : List Char :=
  if lexeme.kind = .stringLiteral then '"' :: (lexeme.text.toList ++ ['"']) else lexeme.text.toList

/-- The token that the lexeme is at a position. -/
def toToken (lexeme : Lexeme) (position : Position) : Token := ⟨lexeme.kind, lexeme.text, position⟩

/-- The text up to the next quote and what follows that quote, which has to come before the line
ends. -/
def quoted? : List Char → Option (List Char × List Char)
  | [] => none
  | c :: cs =>
    if c = '"' then some ([], cs)
    else if c = '\n' then none
    else (quoted? cs).map fun (body, rest) => (c :: body, rest)

/-- A name, which is a keyword if it is reserved. -/
def ofName (word : List Char) : Lexeme :=
  ⟨if FuncLang.isKeyword word then .keyword else .identifier, String.ofList word⟩

/-- The lexeme at the front of the nonempty text `c :: cs`, and the text behind it. -/
def scan (c : Char) (cs : List Char) : Lexeme × List Char :=
  if isNameStart c then
    (ofName (c :: cs.takeWhile isNamePart), cs.dropWhile isNamePart)
  else if c.isDigit then
    (⟨.integer, String.ofList (c :: cs.takeWhile Char.isDigit)⟩, cs.dropWhile Char.isDigit)
  else if c = '"' then
    match quoted? cs with
    | some (body, rest) => (⟨.stringLiteral, String.ofList body⟩, rest)
    | none => (⟨.unknown, String.singleton c⟩, cs)
  else if c ∈ operatorSymbols then
    (⟨.operator, String.singleton c⟩, cs)
  else if c ∈ punctuationSymbols then
    (⟨.punctuation, String.singleton c⟩, cs)
  else if c = '#' then
    (⟨.comment, String.ofList (c :: cs.takeWhile (· ≠ '\n'))⟩, cs.dropWhile (· ≠ '\n'))
  else
    (⟨.unknown, String.singleton c⟩, cs)

/-- A quoted text, its closing quote and the rest are the scanned text. -/
theorem quoted?_eq_some {cs body rest : List Char} (found : quoted? cs = some (body, rest)) :
    cs = body ++ '"' :: rest := by
  induction cs generalizing body with
  | nil => simp [quoted?] at found
  | cons c cs ih =>
    simp only [quoted?] at found
    split at found
    · simp_all
    · split at found
      · simp at found
      · obtain ⟨⟨body', rest'⟩, inner, same⟩ := Option.map_eq_some_iff.mp found
        obtain ⟨rfl, rfl⟩ := Prod.mk.inj same
        simp [ih inner]

/-- Nothing is lost or invented: the written lexeme and the rest are the scanned text. -/
theorem written_append_rest (c : Char) (cs : List Char) :
    (scan c cs).1.written ++ (scan c cs).2 = c :: cs := by
  unfold scan
  split
  · simp only [ofName, written]
    split <;> simp_all
  · split
    · simp [written]
    · split
      · split
        next body rest found => simp_all [written, quoted?_eq_some found]
        next => simp [written]
      · split
        · simp [written]
        · split
          · simp [written]
          · split <;> simp [written]

/-- What is left behind a lexeme is an end of the text. -/
theorem rest_suffix (c : Char) (cs : List Char) : (scan c cs).2 <:+ cs := by
  unfold scan
  split
  · exact List.dropWhile_suffix _
  · split
    · exact List.dropWhile_suffix _
    · split
      · split
        next body rest found => exact ⟨body ++ ['"'], by simp [quoted?_eq_some found]⟩
        next => exact List.suffix_refl cs
      · split
        · exact List.suffix_refl cs
        · split
          · exact List.suffix_refl cs
          · split
            · exact List.dropWhile_suffix _
            · exact List.suffix_refl cs

/-- No lexeme is the end of the input. -/
theorem kind_ne_endOfInput (c : Char) (cs : List Char) : (scan c cs).1.kind ≠ .endOfInput := by
  unfold scan ofName
  repeat' split
  all_goals simp

end Lexeme

end FuncLang
