import FuncLang.Arithmetic.Failure
import FuncLang.Arithmetic.Rule
import FuncLang.Arithmetic.Word
import FuncLang.Config
import FuncLang.Config.Load
import FuncLang.Config.Read
import FuncLang.Diagnostic
import FuncLang.Diagnostic.Log
import FuncLang.Diagnostic.Snippet
import FuncLang.Expression
import FuncLang.Grammar.Expression
import FuncLang.Grammar.Parameter
import FuncLang.Grammar.Problem
import FuncLang.Grammar.Rule
import FuncLang.Grammar.Statement
import FuncLang.Json
import FuncLang.Lexeme
import FuncLang.Parse
import FuncLang.Position
import FuncLang.Program
import FuncLang.Proofs.Arithmetic.Agreement
import FuncLang.Proofs.Arithmetic.Alike
import FuncLang.Proofs.Arithmetic.Calculator
import FuncLang.Proofs.Arithmetic.Depth
import FuncLang.Proofs.Arithmetic.Evaluation
import FuncLang.Proofs.Arithmetic.Location
import FuncLang.Proofs.Arithmetic.Part
import FuncLang.Proofs.Arithmetic.Value
import FuncLang.Proofs.Diagnostic.Snippet
import FuncLang.Proofs.Expression.Beginning
import FuncLang.Proofs.Expression.Derivation
import FuncLang.Proofs.Expression.Spelling
import FuncLang.Proofs.Grammar.Acceptance
import FuncLang.Proofs.Grammar.Accounting
import FuncLang.Proofs.Grammar.Alike
import FuncLang.Proofs.Grammar.Anchor
import FuncLang.Proofs.Grammar.Check
import FuncLang.Proofs.Grammar.Contract
import FuncLang.Proofs.Grammar.Depth
import FuncLang.Proofs.Grammar.Expression
import FuncLang.Proofs.Grammar.Language
import FuncLang.Proofs.Grammar.Longest
import FuncLang.Proofs.Grammar.Lookahead
import FuncLang.Proofs.Grammar.Notes
import FuncLang.Proofs.Grammar.ParameterList
import FuncLang.Proofs.Grammar.Placeholder
import FuncLang.Proofs.Grammar.Size
import FuncLang.Proofs.Grammar.Statement
import FuncLang.Proofs.Lexeme.Reserved
import FuncLang.Proofs.Lexeme.Segment
import FuncLang.Proofs.Parse.Accounting
import FuncLang.Proofs.Parse.Caret
import FuncLang.Proofs.Parse.Clean
import FuncLang.Proofs.Parse.Concatenation
import FuncLang.Proofs.Parse.Layout
import FuncLang.Proofs.Parse.ParameterList
import FuncLang.Proofs.Parse.Placeholder
import FuncLang.Proofs.Parse.Report
import FuncLang.Proofs.Parse.RoundTrip
import FuncLang.Proofs.Parse.Shape
import FuncLang.Proofs.Position.Count
import FuncLang.Proofs.Position.Order
import FuncLang.Proofs.Program.Derivation
import FuncLang.Proofs.Program.Spelling
import FuncLang.Proofs.Scanner.Boundary
import FuncLang.Proofs.Scanner.Joined
import FuncLang.Proofs.Scanner.LineBreak
import FuncLang.Proofs.Scanner.Lossless
import FuncLang.Proofs.Scanner.Offset
import FuncLang.Proofs.Scanner.Placement
import FuncLang.Proofs.Scanner.Rendering
import FuncLang.Proofs.Scanner.Run
import FuncLang.Proofs.Scanner.Segmentation
import FuncLang.Proofs.Scanner.Sentence
import FuncLang.Proofs.Session.Depth
import FuncLang.Proofs.Session.Expression
import FuncLang.Proofs.Session.Limit
import FuncLang.Proofs.Session.Notes
import FuncLang.Proofs.Session.Operation
import FuncLang.Proofs.Session.Order
import FuncLang.Proofs.Session.Progress
import FuncLang.Proofs.Text.Split
import FuncLang.Proofs.Text.Trim
import FuncLang.Proofs.Tree.Canonical
import FuncLang.Proofs.Tree.Lexemes
import FuncLang.Proofs.Tree.Placeholder
import FuncLang.Proofs.Tree.Print
import FuncLang.Proofs.Tree.Readback
import FuncLang.Proofs.Tree.Serial
import FuncLang.Proofs.Tree.Shape
import FuncLang.Proofs.Tree.Walk
import FuncLang.Scanner
import FuncLang.Session
import FuncLang.Text.Blank
import FuncLang.Text.Line
import FuncLang.Token
import FuncLang.Toml.Document
import FuncLang.Toml.Moment
import FuncLang.Toml.Number
import FuncLang.Toml.Reader
import FuncLang.Toml.Table
import FuncLang.Toml.Text
import FuncLang.Toml.Value
import FuncLang.Tree
import FuncLang.Unread
