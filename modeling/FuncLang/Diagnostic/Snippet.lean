import FuncLang.Diagnostic
import FuncLang.Text.Line

/-! # Snippets

A snippet shows a diagnostic in four lines: the diagnostic in words, the place it points to, the
source line and a caret below the character. A report is a list of snippets with an empty line
between any two of them. Places outside the source are shown above an empty line.
-/

namespace FuncLang.Diagnostic

/-- The line that puts a caret below a column. -/
def caret (column : Nat) : String := String.ofList (List.replicate (column - 1) ' ' ++ ['^'])

/-- The diagnostic in four lines, about a source that goes by the given name. -/
def snippet (diagnostic : Diagnostic) (source name : String) : String :=
  let place := diagnostic.position
  let line := String.ofList (Text.lineAt source.toList place.line.toNat)
  diagnostic.display ++ "\n --> " ++ name ++ ":" ++ toString place.line.toNat ++ ":" ++
    toString place.column.toNat ++ "\n " ++ line ++ "\n " ++ caret place.column.toNat

/-- The snippets of several diagnostics, with an empty line between them. -/
def report (diagnostics : List Diagnostic) (source name : String) : String :=
  "\n\n".intercalate (diagnostics.map (·.snippet source name))

end FuncLang.Diagnostic
