import FuncLang.Program

/-! # Placeholders of trees

The placeholders of a tree in the order of the walk, told by kind and value. Nothing else tells a
placeholder from other nodes, so a declaration or a parameter is also one if it has the name that
placeholders of its kind have.
-/

namespace FuncLang.Tree

/-- What shows whether a node is a placeholder. -/
structure Label where
  kind : Kind
  value : String
deriving DecidableEq

/-- The kind and the value of a node. -/
def label (tree : Tree) : Label := ⟨tree.kind, tree.value⟩

/-- The label of a node alone, if it is that of a placeholder. -/
def ownLabels (kind : Kind) (value : String) : List Label :=
  if (leaf kind value).isPlaceholder then [⟨kind, value⟩] else []

/-- The labels of the placeholders of a tree. -/
def heldLabels (tree : Tree) : List Label := tree.placeholders.map label

/-- The labels of the placeholders of several trees, one tree after the other. -/
def heldLabelsAll (trees : List Tree) : List Label := trees.flatMap heldLabels

@[simp] theorem heldLabelsAll_nil : heldLabelsAll [] = [] := rfl

@[simp] theorem heldLabelsAll_cons (tree : Tree) (trees : List Tree) :
    heldLabelsAll (tree :: trees) = tree.heldLabels ++ heldLabelsAll trees := List.flatMap_cons ..

@[simp] theorem heldLabelsAll_append (trees others : List Tree) :
    heldLabelsAll (trees ++ others) = heldLabelsAll trees ++ heldLabelsAll others :=
  List.flatMap_append ..

/-- A node comes before what is below it. -/
theorem heldLabels_node (kind : Kind) (value : String) (children : List Tree) :
    heldLabels ⟨kind, value, children⟩ = ownLabels kind value ++ heldLabelsAll children := by
  have below : ((walkAll children).filter isPlaceholder).map label = heldLabelsAll children := by
    rw [walkAll_eq_flatMap, List.filter_flatMap, List.map_flatMap]
    rfl
  have alone : isPlaceholder ⟨kind, value, children⟩ = (leaf kind value).isPlaceholder := by
    cases kind <;> rfl
  rw [heldLabels, placeholders, walk_eq, List.filter_cons, alone, ownLabels]
  split
  · rw [List.map_cons, below]
    rfl
  · rw [below]
    rfl

@[simp] theorem heldLabels_binary (symbol : String) (left right : Tree) :
    (binary symbol left right).heldLabels = left.heldLabels ++ right.heldLabels := by
  simp [binary, heldLabels_node, ownLabels, leaf, isPlaceholder]

end FuncLang.Tree

namespace FuncLang

theorem Parameter.heldLabels_named (name : String) :
    (named name).toTree.heldLabels = Tree.ownLabels .parameter name := by
  simp [toTree, Tree.leaf, Tree.heldLabels_node]

namespace Statement

@[simp] theorem heldLabels_returns (value : Expression) :
    (returns value).toTree.heldLabels = value.toTree.heldLabels := by
  simp [toTree, Tree.heldLabels_node, Tree.ownLabels, Tree.leaf, Tree.isPlaceholder,
    Tree.unsupportedStatement]

/-- The placeholders of a declaration are those of its parts, one after the other. -/
theorem heldLabels_function (name : Option String) (parameters : List Parameter)
    (body : List Statement) :
    (function name parameters body).toTree.heldLabels =
      Tree.ownLabels .functionDeclaration (name.getD "") ++
        (Tree.heldLabelsAll (parameters.map Parameter.toTree) ++ Tree.heldLabelsAll (toTrees body)) := by
  simp [toTree, Tree.heldLabels_node, Tree.ownLabels, Tree.leaf, Tree.isPlaceholder]

end Statement

end FuncLang
