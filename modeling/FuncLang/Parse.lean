import FuncLang.Config
import FuncLang.Diagnostic.Snippet
import FuncLang.Grammar.Statement
import FuncLang.Session

/-! # Parsing

Parsing turns any source into a program and the diagnostics of what is wrong with it.
-/

namespace FuncLang

/-- A program and what is wrong with its source. -/
structure Parse where
  program : Program
  diagnostics : List Diagnostic
deriving Repr

/-- Parses a source with the given settings. -/
def parseWith (config : Config) (source : String) : Parse :=
  let (outcome, session) := (Session.ofSource config.limit source).run Grammar.program
  ⟨outcome.value, session.recorded⟩

/-- Parses a source with the standard settings. -/
def parse (source : String) : Parse := parseWith .standard source

namespace Parse

/-- Whether nothing is wrong. -/
def isClean (parse : Parse) : Bool := parse.diagnostics.isEmpty

/-- The snippets of all diagnostics. -/
def report (parse : Parse) (source name : String) : String :=
  Diagnostic.report parse.diagnostics source name

end Parse

end FuncLang
