import FuncLang.Grammar.Rule
import FuncLang.Program

/-! # Rules for parameters

A parameter list is read behind its opening parenthesis. Names are separated by commas, and a
closing parenthesis ends the list. The first mistake ends it too: the rest of the list is then
skipped, up to its closing parenthesis or up to where the body or the declaration would go on, so a
list costs one problem at most.
-/

namespace FuncLang.Grammar

/-- Whether the token is the given punctuation. -/
def isPunctuation (text : String) (token : Token) : Bool := token.is .punctuation text

/-- Whether the token is the given keyword. -/
def isWord (word : String) (token : Token) : Bool := token.isKeyword word

/-- A name, or a placeholder where there is none; nothing is read then. -/
def parameter : Rule Parameter := do
  match ← Rule.take? (·.kind == .identifier) with
  | some token => return .named token.text
  | none =>
    Rule.raise .expectedParameter
    return .unsupported

@[simp] theorem read_parameter_nil (finish : Position) :
    parameter.read finish [] =
      ⟨.unsupported, [⟨.expectedParameter, Token.endOfInput finish⟩], []⟩ := rfl

@[simp] theorem read_parameter_cons (finish : Position) (token : Token) (unread : List Token) :
    parameter.read finish (token :: unread) =
      if token.kind = .identifier then ⟨.named token.text, [], unread⟩
      else ⟨.unsupported, [⟨.expectedParameter, token⟩], token :: unread⟩ := by
  by_cases name : token.kind = .identifier <;> simp [parameter, name]

/-- What is left of a parameter list when it is skipped: what follows its closing parenthesis, or
everything from a `do` or `endfunc` that comes first. -/
def skipList : List Token → List Token
  | [] => []
  | token :: unread =>
    if isWord "do" token || isWord "endfunc" token then token :: unread
    else if isPunctuation ")" token then unread
    else skipList unread

theorem skipList_suffix (unread : List Token) : skipList unread <:+ unread := by
  induction unread with
  | nil => exact List.suffix_refl []
  | cons token unread ih =>
    simp only [skipList]
    split
    · exact List.suffix_refl _
    · split
      · exact List.suffix_cons token unread
      · exact ih.trans (List.suffix_cons token unread)

/-- Skips the rest of a parameter list. -/
def skipParameters : Rule Unit where
  read _ unread := ⟨(), [], skipList unread⟩
  rest_suffix _ unread := skipList_suffix unread

@[simp] theorem read_skipParameters (finish : Position) (unread : List Token) :
    skipParameters.read finish unread = ⟨(), [], skipList unread⟩ := rfl

/-- The parameter that no comma follows, with the end of the list. -/
def lastParameter : Rule (List Parameter) := do
  let last ← parameter
  match last with
  | .named _ =>
    unless ← Rule.eat (isPunctuation ")") do
      Rule.raise .expectedSeparator
      skipParameters
  | .unsupported => skipParameters
  return [last]

/-- The parameters behind an opening parenthesis or a comma. -/
def parameterListRead (finish : Position) : List Token → Reading (List Parameter)
  | name :: comma :: unread =>
    if name.kind == .identifier && isPunctuation "," comma then
      let others := parameterListRead finish unread
      ⟨.named name.text :: others.value, others.raised, others.rest⟩
    else lastParameter.read finish (name :: comma :: unread)
  | [token] => lastParameter.read finish [token]
  | [] => lastParameter.read finish []

theorem parameterListRead_rest_suffix (finish : Position) (unread : List Token) :
    (parameterListRead finish unread).rest <:+ unread := by
  fun_induction parameterListRead finish unread with
  | case1 name comma unread separated others ih =>
    exact ih.trans ((List.suffix_cons comma unread).trans (List.suffix_cons name _))
  | case2 => exact lastParameter.rest_suffix finish _
  | case3 => exact lastParameter.rest_suffix finish _
  | case4 => exact lastParameter.rest_suffix finish _

/-- The parameters behind an opening parenthesis, which is not closed at once. -/
def parameterList : Rule (List Parameter) where
  read := parameterListRead
  rest_suffix := parameterListRead_rest_suffix

/-- The parentheses behind the name of a function and the parameters between them. -/
def parameterSection : Rule (List Parameter) := do
  if ← Rule.eat (isPunctuation "(") then
    if ← Rule.eat (isPunctuation ")") then return [] else parameterList
  else
    Rule.raise .expectedOpening
    return []

end FuncLang.Grammar
