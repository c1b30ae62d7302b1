import FuncLang.Json

/-! # Trees

The uniform form of a program: every node has a kind, a value and its children. It is what is
serialised and walked; the grammar's own types are turned into it. Some nodes are placeholders,
which stand for what could not be recognised. Whether a node is one shows in its kind and value.
-/

namespace FuncLang

namespace Tree

/-- What a node stands for. -/
inductive Kind where
  | program
  | functionDeclaration
  | parameter
  | returnStatement
  | functionBody
  | expression
  | term
  | operator
  | identifier
  | integer
  | missingExpression
deriving DecidableEq, Repr

namespace Kind

/-- All kinds, in the order of their declaration. -/
def all : List Kind :=
  [program, functionDeclaration, parameter, returnStatement, functionBody, expression, term,
   operator, identifier, integer, missingExpression]

/-- The name under which a kind is shown. -/
def name : Kind → String
  | program => "Program"
  | functionDeclaration => "FunctionDeclaration"
  | parameter => "Parameter"
  | returnStatement => "ReturnStatement"
  | functionBody => "FunctionBody"
  | expression => "Expression"
  | term => "Term"
  | operator => "Operator"
  | identifier => "Identifier"
  | integer => "Integer"
  | missingExpression => "MissingExpression"

/-- The kind with the given name. -/
def ofName? (name : String) : Option Kind := all.find? (·.name == name)

theorem ofName?_name (kind : Kind) : ofName? kind.name = some kind := by cases kind <;> rfl

end Kind

end Tree

/-- A node with everything below it. -/
structure Tree where
  kind : Tree.Kind
  value : String
  children : List Tree
deriving Repr

namespace Tree

/-- The value of the return statement that stands for a statement the grammar does not have. -/
def unsupportedStatement : String := "Unsupported Statement"

/-- The value of the declaration that stands for one that could not be read. -/
def unsupportedFunction : String := "UnsupportedFunction"

/-- The value of the parameter that stands where a name was due. -/
def unsupportedParameter : String := "UnsupportedParameter"

/-- The value of the node that stands where an operand was due. -/
def unsupportedPrimary : String := "Unsupported Primary Expression"

/-- A node without children. -/
def leaf (kind : Kind) (value : String) : Tree := ⟨kind, value, []⟩

/-- A program without statements. -/
def program : Tree := leaf .program ""

/-- An operator with its two operands. -/
def binary (symbol : String) (left right : Tree) : Tree := ⟨.expression, symbol, [left, right]⟩

/-- Stands where an operand was due. -/
def missing : Tree := leaf .missingExpression unsupportedPrimary

/-- The node with further children behind those it has. -/
def append (tree : Tree) (children : List Tree) : Tree :=
  { tree with children := tree.children ++ children }

/-- Whether the node stands where an operand was due. -/
def isMissing (tree : Tree) : Bool := tree.kind == .missingExpression

/-- Whether the node stands for something that could not be recognised. -/
def isPlaceholder (tree : Tree) : Bool :=
  match tree.kind with
  | .missingExpression => true
  | .returnStatement => tree.value == unsupportedStatement
  | .functionDeclaration => tree.value == unsupportedFunction
  | .parameter => tree.value == unsupportedParameter
  | _ => false

mutual

/-- All nodes of a tree, each before its children. -/
def walk : Tree → List Tree
  | ⟨kind, value, children⟩ => ⟨kind, value, children⟩ :: walkAll children

/-- All nodes of several trees, one tree after the other. -/
def walkAll : List Tree → List Tree
  | [] => []
  | tree :: trees => walk tree ++ walkAll trees

end

/-- The placeholders of a tree, in the order of the walk. -/
def placeholders (tree : Tree) : List Tree := tree.walk.filter isPlaceholder

/-- What a walk shows of one node: kind, value and number of children. -/
structure Visit where
  kind : Kind
  value : String
  arity : Nat
deriving DecidableEq, Repr

/-- What a walk shows of the node. -/
def visit (tree : Tree) : Visit := ⟨tree.kind, tree.value, tree.children.length⟩

/-- The walk as a flat list. -/
def visits (tree : Tree) : List Visit := tree.walk.map visit

mutual

/-- The serialised form of a tree. -/
def toJson : Tree → Json
  | ⟨kind, value, children⟩ =>
    .object
      [("kind", .text kind.name), ("value", .text value),
        ("children", .array (listToJson children))]

/-- The serialised forms of several trees. -/
def listToJson : List Tree → List Json
  | [] => []
  | tree :: trees => toJson tree :: listToJson trees

end

mutual

/-- Trees are equal when kinds, values and children are. -/
def decideEq : (a b : Tree) → Decidable (a = b)
  | ⟨kind, value, children⟩, ⟨kind', value', children'⟩ =>
    match decEq kind kind', decEq value value', decideListEq children children' with
    | isTrue sameKind, isTrue sameValue, isTrue sameChildren =>
      isTrue (by rw [sameKind, sameValue, sameChildren])
    | isFalse different, _, _ => isFalse fun same => different (congrArg Tree.kind same)
    | _, isFalse different, _ => isFalse fun same => different (congrArg Tree.value same)
    | _, _, isFalse different => isFalse fun same => different (congrArg Tree.children same)

/-- Lists of trees are equal when their members are. -/
def decideListEq : (as bs : List Tree) → Decidable (as = bs)
  | [], [] => isTrue rfl
  | [], _ :: _ => isFalse nofun
  | _ :: _, [] => isFalse nofun
  | a :: as, b :: bs =>
    match decideEq a b, decideListEq as bs with
    | isTrue sameHead, isTrue sameTail => isTrue (by rw [sameHead, sameTail])
    | isFalse different, _ => isFalse fun same => different (List.cons.inj same).1
    | _, isFalse different => isFalse fun same => different (List.cons.inj same).2

end

instance : DecidableEq Tree := decideEq

@[simp] theorem walkAll_nil : walkAll [] = [] := rfl

@[simp] theorem walkAll_cons (tree : Tree) (trees : List Tree) :
    walkAll (tree :: trees) = tree.walk ++ walkAll trees := rfl

theorem walk_eq (tree : Tree) : tree.walk = tree :: walkAll tree.children := by cases tree; rfl

theorem walkAll_eq_flatMap (trees : List Tree) : walkAll trees = trees.flatMap walk := by
  induction trees with
  | nil => rfl
  | cons tree trees ih => rw [walkAll_cons, ih, List.flatMap_cons]

theorem listToJson_eq_map (trees : List Tree) : listToJson trees = trees.map toJson := by
  induction trees with
  | nil => rfl
  | cons tree trees ih => simp only [listToJson, ih, List.map_cons]

end Tree

end FuncLang
