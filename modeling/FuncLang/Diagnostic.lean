import FuncLang.Json
import FuncLang.Position

/-! # Diagnostics

A diagnostic tells what is wrong and where. Its cause decides how it is displayed and what it says
besides its message: the token that was not expected, or the path of an input that cannot be used.
-/

namespace FuncLang

namespace Diagnostic

/-- Why a diagnostic is raised. -/
inductive Cause where
  /-- Something is wrong that no other cause describes. -/
  | general
  /-- A token stands where another one was due. -/
  | unexpectedToken (token : String)
  /-- The text breaks off or goes beyond what the grammar can follow. -/
  | structural
  /-- The text is grammatical but means nothing. -/
  | semantic
  /-- An input cannot be used at all. -/
  | invalidInput (path : String)
deriving DecidableEq, Repr

/-- The name under which a cause is serialised. -/
def Cause.name : Cause → String
  | general => "parsing"
  | unexpectedToken _ => "unexpected_token"
  | structural => "syntax"
  | semantic => "semantic"
  | invalidInput _ => "io_validation"

end Diagnostic

/-- Something that is wrong at a place of a source. -/
structure Diagnostic where
  cause : Diagnostic.Cause
  message : String
  position : Position
deriving DecidableEq, Repr

namespace Position

/-- The position in words. -/
def display (place : Position) : String :=
  "line " ++ toString place.line.toNat ++ ", column " ++ toString place.column.toNat

/-- The serialised form of a position. -/
def toJson (place : Position) : Json :=
  .object [("line", .number place.line.toNat), ("column", .number place.column.toNat)]

end Position

namespace Diagnostic

/-- What a display of the cause begins with. -/
def Cause.display : Cause → String
  | general => "error"
  | unexpectedToken token => "unexpected token '" ++ token ++ "'"
  | structural => "syntax error"
  | semantic => "semantic error"
  | invalidInput path => "invalid input '" ++ path ++ "'"

/-- The diagnostic in words: cause, place and message. -/
def display (diagnostic : Diagnostic) : String :=
  diagnostic.cause.display ++ " at " ++ diagnostic.position.display ++ ": " ++ diagnostic.message

/-- The serialised fields that only some causes have. -/
def Cause.fields : Cause → List (String × Json)
  | unexpectedToken token => [("token", .text token)]
  | invalidInput path => [("path", .text path)]
  | general | structural | semantic => []

/-- The serialised form of a diagnostic. -/
def toJson (diagnostic : Diagnostic) : Json :=
  .object ([("kind", .text diagnostic.cause.name), ("message", .text diagnostic.message)] ++
    diagnostic.cause.fields ++ [("position", diagnostic.position.toJson)])

end Diagnostic

end FuncLang
