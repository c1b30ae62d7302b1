import FuncLang.Expression

/-! # Programs

A program is a list of statements; function declarations are statements and hold statements in
turn. Whatever cannot be recognised has a constructor of its own, so that a program can be built
from any source. In the tree of a program these constructors become placeholders.
-/

namespace FuncLang

/-- A parameter of a function. -/
inductive Parameter where
  | named (name : String)
  /-- Stands where a name was due. -/
  | unsupported
deriving DecidableEq, Repr

/-- A statement. -/
inductive Statement where
  | returns (value : Expression)
  /-- A declaration, with no name where one was due. -/
  | function (name : Option String) (parameters : List Parameter) (body : List Statement)
  /-- Stands for a token with which no statement begins. -/
  | unsupported
  /-- Stands for a declaration that could not be read. -/
  | unsupportedFunction
deriving Repr

/-- A whole program. -/
structure Program where
  statements : List Statement
deriving Repr

/-- The tree of a parameter. -/
def Parameter.toTree : Parameter → Tree
  | named name => .leaf .parameter name
  | unsupported => .leaf .parameter Tree.unsupportedParameter

mutual

/-- The tree of a statement. -/
def Statement.toTree : Statement → Tree
  | .returns value => ⟨.returnStatement, "", [value.toTree]⟩
  | .function name parameters body =>
    ⟨.functionDeclaration, name.getD "",
      parameters.map Parameter.toTree ++ [⟨.functionBody, "", Statement.toTrees body⟩]⟩
  | .unsupported => .leaf .returnStatement Tree.unsupportedStatement
  | .unsupportedFunction => .leaf .functionDeclaration Tree.unsupportedFunction

/-- The trees of several statements. -/
def Statement.toTrees : List Statement → List Tree
  | [] => []
  | statement :: statements => statement.toTree :: Statement.toTrees statements

end

/-- No statement has a hole for its tree. -/
theorem Statement.isMissing_toTree (statement : Statement) : statement.toTree.isMissing = false := by
  cases statement <;> rw [toTree] <;> rfl

/-- The tree of a program. -/
def Program.toTree (program : Program) : Tree :=
  ⟨.program, "", Statement.toTrees program.statements⟩

theorem Statement.toTrees_eq_map (statements : List Statement) :
    Statement.toTrees statements = statements.map Statement.toTree := by
  induction statements with
  | nil => rfl
  | cons statement statements ih => simp only [Statement.toTrees, ih, List.map_cons]

end FuncLang
