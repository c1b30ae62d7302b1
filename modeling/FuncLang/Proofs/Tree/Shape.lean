import FuncLang.Proofs.Tree.Canonical
import Mathlib.Data.List.Chain

/-! # Shapes of program trees

Which trees programs have when placeholders are allowed. Expressions are grouped as operators bind
and may have holes; a statement is a `return`, a declaration with its body, or a placeholder for one
of the two. The shape of a statement counts how many declarations with a body can stand inside one
another in it. Only where there is no room for another one a declaration is a placeholder.
-/

namespace FuncLang.Tree

/-! ## Expressions and statements -/

/-- Whether the tree may be the right operand of an operator of the level, a hole included. -/
def FitsBehind : Level → Tree → Prop
  | .product, tree => tree.children = []
  | .sum, tree => ¬ tree.IsSum

/-- Digits, a hole, or operators with two operands each that are grouped as they bind. -/
inductive ExpressionShape : Tree → Prop
  | integer {digits : String} (isNumber : Lexeme.IsNumber digits.toList) :
      ExpressionShape (.leaf .integer digits)
  | missing : ExpressionShape .missing
  | binary {operator : Operator} {left right : Tree} (shapeLeft : left.ExpressionShape)
      (shapeRight : right.ExpressionShape) (before : left.StandsBefore operator.level)
      (behind : right.FitsBehind operator.level) :
      ExpressionShape (.binary operator.symbol left right)

/-- One of the four forms of a statement, with room for the given number of declarations inside one
another. -/
inductive StatementShape : Nat → Tree → Prop
  | returns {room : Nat} {value : Tree} (shape : value.ExpressionShape) :
      StatementShape room ⟨.returnStatement, "", [value]⟩
  | unsupported {room : Nat} : StatementShape room (.leaf .returnStatement unsupportedStatement)
  | function {room : Nat} {name : String} {parameters body : List Tree}
      (areParameters : ∀ tree ∈ parameters, tree.kind = .parameter ∧ tree.children = [])
      (areStatements : ∀ tree ∈ body, StatementShape room tree) :
      StatementShape (room + 1)
        ⟨.functionDeclaration, name, parameters ++ [⟨.functionBody, "", body⟩]⟩
  | unsupportedFunction : StatementShape 0 (.leaf .functionDeclaration unsupportedFunction)

/-- A program of statements, with room for 128 declarations inside one another. -/
def ProgramShape (tree : Tree) : Prop :=
  ∃ statements, tree = ⟨.program, "", statements⟩ ∧
    ∀ statement ∈ statements, StatementShape 128 statement

/-- Of expressions, only those that may be left operands are leaves. -/
theorem ExpressionShape.standsBefore {tree : Tree} (shape : tree.ExpressionShape) {level : Level}
    (behind : tree.FitsBehind level) : tree.StandsBefore level := by
  cases level with
  | sum => trivial
  | product =>
    rintro ⟨expression, -⟩
    cases shape with
    | integer | missing => cases expression
    | binary => cases behind

/-! ## Nodes -/

/-- What holds of all nodes of a tree holds of its root and of all nodes below it. -/
theorem forall_mem_walk {tree : Tree} {Wanted : Tree → Prop} :
    (∀ node ∈ tree.walk, Wanted node) ↔
      Wanted tree ∧ ∀ child ∈ tree.children, ∀ node ∈ child.walk, Wanted node := by
  rw [walk_eq, walkAll_eq_flatMap, List.forall_mem_cons, List.forall_mem_flatMap]

/-- Expressions are made of literals, holes and operators. -/
theorem ExpressionShape.kind_of_mem_walk {tree : Tree} (shape : tree.ExpressionShape) :
    ∀ node ∈ tree.walk,
      node.kind = .integer ∨ node.kind = .missingExpression ∨ node.kind = .expression := by
  induction shape with
  | integer | missing => simp [leaf, Tree.missing, walk]
  | binary _ _ _ _ left right =>
    rw [forall_mem_walk]
    refine ⟨by simp [Tree.binary], ?_⟩
    simpa [Tree.binary] using ⟨left, right⟩

/-- Whether the node is of a kind that trees of programs have, and has no hole among its children if
they ought to be statements. -/
def IsRegular (node : Tree) : Prop :=
  node.kind ∉ [.term, .operator, .identifier] ∧
    (node.kind ∈ [.program, .functionBody] → ∀ child ∈ node.children, child.isMissing = false)

theorem StatementShape.isMissing {room : Nat} {tree : Tree} (shape : tree.StatementShape room) :
    tree.isMissing = false := by
  cases shape <;> rfl

theorem StatementShape.isRegular_of_mem_walk {room : Nat} {tree : Tree}
    (shape : tree.StatementShape room) : ∀ node ∈ tree.walk, node.IsRegular := by
  induction shape with
  | returns value =>
    rw [forall_mem_walk]
    refine ⟨by simp [IsRegular], ?_⟩
    intro child member node below
    obtain rfl := List.mem_singleton.mp member
    rcases value.kind_of_mem_walk node below with kind | kind | kind <;> simp [IsRegular, kind]
  | unsupported | unsupportedFunction => simp [leaf, walk, IsRegular]
  | @function room name parameters body areParameters areStatements ih =>
    rw [forall_mem_walk]
    refine ⟨by simp [IsRegular], ?_⟩
    intro child member
    rcases List.mem_append.mp member with parameter | last
    · obtain ⟨kind, none⟩ := areParameters child parameter
      rw [forall_mem_walk]
      exact ⟨by simp [IsRegular, kind], by simp [none]⟩
    · obtain rfl := List.mem_singleton.mp last
      rw [forall_mem_walk]
      exact ⟨⟨by simp, fun _ statement among => (areStatements statement among).isMissing⟩, ih⟩

theorem ProgramShape.isRegular_of_mem_walk {tree : Tree} (shape : tree.ProgramShape) :
    ∀ node ∈ tree.walk, node.IsRegular := by
  obtain ⟨statements, rfl, areStatements⟩ := shape
  rw [forall_mem_walk]
  refine ⟨⟨by simp, fun _ statement among => (areStatements statement among).isMissing⟩, ?_⟩
  exact fun statement among => (areStatements statement among).isRegular_of_mem_walk

/-! ## Paths -/

/-- Nodes of which each one is a child of the one in front of it. -/
def IsPath (path : List Tree) : Prop := path.IsChain fun parent child => child ∈ parent.children

theorem isPath_cons_cons {parent child : Tree} {path : List Tree} :
    IsPath (parent :: child :: path) ↔ child ∈ parent.children ∧ IsPath (child :: path) :=
  List.isChain_cons_cons

/-- Whether the node is a function declaration. -/
def isDeclaration (node : Tree) : Bool := node.kind == .functionDeclaration

/-- Whether the node is a function declaration that is no placeholder. -/
def hasBody (node : Tree) : Bool := node.isDeclaration && !node.children.isEmpty

/-- All nodes on a path are below the first one. -/
theorem IsPath.mem_walk {path : List Tree} : ∀ {tree : Tree}, IsPath (tree :: path) →
    ∀ node ∈ tree :: path, node ∈ tree.walk := by
  induction path with
  | nil =>
    intro tree _ node member
    rw [List.mem_singleton.mp member, walk_eq]
    exact List.mem_cons_self
  | cons child path ih =>
    intro tree isPath node member
    obtain ⟨below, behind⟩ := isPath_cons_cons.mp isPath
    rw [walk_eq, walkAll_eq_flatMap]
    rcases List.mem_cons.mp member with rfl | member
    · exact List.mem_cons_self
    · exact List.mem_cons_of_mem _ (List.mem_flatMap.mpr ⟨child, below, ih behind node member⟩)

/-- A path ends at a node without children. -/
theorem IsPath.eq_nil {tree : Tree} {path : List Tree} (isPath : IsPath (tree :: path))
    (none : tree.children = []) : path = [] := by
  cases path with
  | nil => rfl
  | cons child path => simpa [none] using (isPath_cons_cons.mp isPath).1

/-- There is no declaration in an expression. -/
theorem ExpressionShape.countP_isDeclaration {tree : Tree} (shape : tree.ExpressionShape)
    {path : List Tree} (isPath : IsPath (tree :: path)) :
    (tree :: path).countP isDeclaration = 0 := by
  refine List.countP_eq_zero.mpr fun node member => ?_
  rcases shape.kind_of_mem_walk node (isPath.mem_walk node member) with kind | kind | kind <;>
    simp [isDeclaration, kind]

theorem countP_hasBody_le (path : List Tree) : path.countP hasBody ≤ path.countP isDeclaration :=
  List.countP_mono_left fun _ _ body => (Bool.and_eq_true_iff.mp body).1

/-- No path has more declarations with a body than there is room for, and at most one more that is a
placeholder. -/
theorem StatementShape.countP_le {room : Nat} {tree : Tree} (shape : tree.StatementShape room) :
    ∀ {path : List Tree}, IsPath (tree :: path) →
      (tree :: path).countP hasBody ≤ room ∧ (tree :: path).countP isDeclaration ≤ room + 1 := by
  induction shape with
  | @returns room value shape =>
    intro path isPath
    have none : path.countP isDeclaration = 0 := by
      cases path with
      | nil => rfl
      | cons child path =>
        obtain ⟨member, behind⟩ := isPath_cons_cons.mp isPath
        obtain rfl := List.mem_singleton.mp member
        exact shape.countP_isDeclaration behind
    have noBody := countP_hasBody_le path
    rw [List.countP_cons_of_neg (by simp [hasBody, isDeclaration]),
      List.countP_cons_of_neg (by simp [isDeclaration])]
    omega
  | unsupported =>
    intro path isPath
    obtain rfl := isPath.eq_nil rfl
    simp [leaf, hasBody, isDeclaration]
  | unsupportedFunction =>
    intro path isPath
    obtain rfl := isPath.eq_nil rfl
    simp [leaf, hasBody, isDeclaration]
  | @function room name parameters body areParameters _ ih =>
    intro path isPath
    have below : path.countP hasBody ≤ room ∧ path.countP isDeclaration ≤ room + 1 := by
      cases path with
      | nil => simp
      | cons child path =>
        obtain ⟨member, behind⟩ := isPath_cons_cons.mp isPath
        rcases List.mem_append.mp member with parameter | last
        · obtain ⟨kind, none⟩ := areParameters child parameter
          obtain rfl := behind.eq_nil none
          simp [hasBody, isDeclaration, kind]
        · obtain rfl := List.mem_singleton.mp last
          rw [List.countP_cons_of_neg (by simp [hasBody, isDeclaration]),
            List.countP_cons_of_neg (by simp [isDeclaration])]
          cases path with
          | nil => simp
          | cons statement path =>
            obtain ⟨among, behind⟩ := isPath_cons_cons.mp behind
            exact ih statement among behind
    simp only [List.countP_cons]
    split <;> split <;> omega

theorem ProgramShape.countP_le {tree : Tree} (shape : tree.ProgramShape) {path : List Tree}
    (isPath : IsPath (tree :: path)) :
    (tree :: path).countP hasBody ≤ 128 ∧ (tree :: path).countP isDeclaration ≤ 129 := by
  obtain ⟨statements, rfl, areStatements⟩ := shape
  rw [List.countP_cons_of_neg (by simp [hasBody, isDeclaration]),
    List.countP_cons_of_neg (by simp [isDeclaration])]
  cases path with
  | nil => simp
  | cons statement path =>
    obtain ⟨among, behind⟩ := isPath_cons_cons.mp isPath
    exact (areStatements statement among).countP_le behind

end FuncLang.Tree
