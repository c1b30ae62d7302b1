import FuncLang.Program

/-! # Reading trees back

What a tree still tells of the source from which it was parsed: its words, in the order in which the
source has them. The punctuation of a source and the keywords around a body are not in the tree, and
neither is a token for which there is a placeholder.
-/

namespace FuncLang.Tree

/-- The name of a declaration as words; no word where there was no name. -/
def nameWords (name : String) : List String := if name = "" then [] else [name]

mutual

/-- The words of a tree. A declaration without children is a placeholder, whose value is not a name. -/
def readback : Tree → List String
  | ⟨.program, _, children⟩ => readbackAll children
  | ⟨.functionDeclaration, name, children⟩ =>
    "func" :: ((if children.isEmpty then [] else nameWords name) ++ readbackAll children)
  | ⟨.functionBody, _, children⟩ => readbackAll children
  | ⟨.parameter, name, _⟩ => [name]
  | ⟨.returnStatement, value, children⟩ =>
    if value = "" then "return" :: readbackAll children else []
  | ⟨.expression, symbol, [left, right]⟩ => readback left ++ symbol :: readback right
  | ⟨.integer, digits, _⟩ => [digits]
  | _ => []

/-- The words of several trees, one tree after the other. -/
def readbackAll : List Tree → List String
  | [] => []
  | tree :: trees => readback tree ++ readbackAll trees

end

theorem readbackAll_append (trees others : List Tree) :
    readbackAll (trees ++ others) = readbackAll trees ++ readbackAll others := by
  induction trees with
  | nil => rfl
  | cons tree trees ih => rw [List.cons_append, readbackAll, readbackAll, ih, List.append_assoc]

@[simp] theorem readback_binary (symbol : String) (left right : Tree) :
    (binary symbol left right).readback = left.readback ++ symbol :: right.readback := by
  simp [binary, readback]

end FuncLang.Tree

namespace FuncLang

@[simp] theorem Parameter.readback_named (name : String) :
    (Parameter.named name).toTree.readback = [name] := rfl

namespace Statement

@[simp] theorem readback_returns (value : Expression) :
    (returns value).toTree.readback = "return" :: value.toTree.readback := by
  simp [toTree, Tree.readback, Tree.readbackAll]

/-- A declaration with a body is read back part by part. -/
theorem readback_function (name : Option String) (parameters : List Parameter)
    (body : List Statement) :
    (function name parameters body).toTree.readback =
      "func" :: (Tree.nameWords (name.getD "") ++
        (Tree.readbackAll (parameters.map Parameter.toTree) ++ Tree.readbackAll (toTrees body))) := by
  simp [toTree, Tree.readback, Tree.readbackAll, Tree.readbackAll_append]

end Statement

end FuncLang
