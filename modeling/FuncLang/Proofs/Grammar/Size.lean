import FuncLang.Grammar.Statement
import FuncLang.Proofs.Grammar.Contract

/-! # How much a rule makes of its tokens

What a rule makes is bounded by what it reads. Every token that is read pays for two nodes of the tree and
for four problems, which is enough: where a rule puts a placeholder or raises a problem without reading,
the token that led to it has something left. A `func` alone pays for a declaration and its body, and for
the name, the parentheses, the `do` and the `endfunc` that may be missing. The operand that follows a
`return` or an operator is paid for by that token, and what is wrong in a list of parameters by its opening
parenthesis.
-/

namespace FuncLang

namespace Tree

/-- How many nodes a tree has. -/
def size (tree : Tree) : Nat := tree.walk.length

/-- How many nodes several trees have. -/
def sizeAll (trees : List Tree) : Nat := (walkAll trees).length

@[simp] theorem size_node (kind : Kind) (value : String) (children : List Tree) :
    size ⟨kind, value, children⟩ = sizeAll children + 1 := by
  rw [size, walk_eq, List.length_cons, sizeAll]

@[simp] theorem sizeAll_nil : sizeAll [] = 0 := rfl

@[simp] theorem sizeAll_cons (tree : Tree) (trees : List Tree) :
    sizeAll (tree :: trees) = tree.size + sizeAll trees := by
  rw [sizeAll, walkAll_cons, List.length_append, size, sizeAll]

@[simp] theorem sizeAll_append (trees others : List Tree) :
    sizeAll (trees ++ others) = sizeAll trees + sizeAll others := by
  simp [sizeAll, walkAll_eq_flatMap]

end Tree

/-- Parameters have no nodes below them. -/
theorem Parameter.sizeAll_map_toTree (parameters : List Parameter) :
    Tree.sizeAll (parameters.map Parameter.toTree) = parameters.length := by
  induction parameters with
  | nil => rfl
  | cons parameter parameters ih =>
    have one : parameter.toTree.size = 1 := by cases parameter <;> rfl
    rw [List.map_cons, Tree.sizeAll_cons, one, ih, List.length_cons]
    omega

namespace Grammar

variable {α β : Type} {size : α → Nat} {nodes faults : Nat}

/-- Besides two nodes and four problems for each token that was read, there are only so many. -/
structure Reading.Within (reading : Reading α) (unread : List Token) (size : α → Nat)
    (nodes faults : Nat) : Prop where
  value : size reading.value + 2 * reading.rest.length ≤ 2 * unread.length + nodes
  raised : reading.raised.length + 4 * reading.rest.length ≤ 4 * unread.length + faults

/-- Whatever it is handed, the rule makes only so many nodes and problems that no token pays for. -/
def Rule.Costs (rule : Rule α) (size : α → Nat) (nodes faults : Nat) : Prop :=
  ∀ finish unread, (rule.read finish unread).Within unread size nodes faults

namespace Reading.Within

variable {reading : Reading α} {unread : List Token}

/-- A token that is read in front pays for two nodes and four problems. -/
theorem behind (within : reading.Within unread size (nodes + 2) (faults + 4)) (token : Token) :
    reading.Within (token :: unread) size nodes faults := by
  obtain ⟨value, raised⟩ := within
  constructor
  · rw [List.length_cons]
    omega
  · rw [List.length_cons]
    omega

/-- Where nothing is read, there is no more than what is allowed anyway. -/
theorem of_unread {value : α} {raised : List Problem} (small : size value ≤ nodes)
    (few : raised.length ≤ faults) :
    (⟨value, raised, unread⟩ : Reading α).Within unread size nodes faults := by
  constructor
  · dsimp only
    omega
  · dsimp only
    omega

end Reading.Within

namespace Rule

theorem pure_costs {value : α} (small : size value ≤ nodes) :
    (pure value : Rule α).Costs size nodes faults :=
  fun _ _ => .of_unread small (Nat.zero_le _)

/-- What the first rule makes is left to the next one. -/
theorem Costs.bind {rule : Rule α} {next : α → Rule β} {sizes : β → Nat} {more others : Nat}
    (first : rule.Costs size more others)
    (behind : ∀ value, (next value).Costs sizes (nodes + size value) faults) :
    (rule >>= next).Costs sizes (nodes + more) (faults + others) := by
  intro finish unread
  obtain ⟨value, raised⟩ := first finish unread
  obtain ⟨values, raisedBehind⟩ := behind (rule.read finish unread).value finish
    (rule.read finish unread).rest
  rw [read_bind]
  constructor
  · dsimp only
    omega
  · simp only [List.length_append]
    omega

theorem blame_costs (token : Token) (fault : Fault) : (blame token fault).Costs (fun _ => 0) 0 1 :=
  fun _ _ => .of_unread (Nat.le_refl 0) (Nat.le_refl 1)

theorem raise_costs (fault : Fault) : (raise fault).Costs (fun _ => 0) 0 1 :=
  fun _ _ => .of_unread (Nat.le_refl 0) (Nat.le_refl 1)

/-- A token that is wanted and read pays for what follows it. -/
theorem eat_bind_costs {wanted : Token → Bool} {next : Bool → Rule α}
    (found : (next true).Costs size (nodes + 2) (faults + 4))
    (lacking : (next false).Costs size nodes faults) :
    (eat wanted >>= next).Costs size nodes faults := by
  intro finish unread
  cases unread with
  | nil => exact lacking finish []
  | cons token unread =>
    rw [read_bind, read_eat_cons]
    split
    · exact (found finish unread).behind token
    · exact lacking finish (token :: unread)

theorem expect_costs (wanted : Token → Bool) (fault : Fault) :
    (expect wanted fault).Costs (fun _ => 0) 0 1 :=
  eat_bind_costs (pure_costs (Nat.zero_le _)) (raise_costs fault)

theorem Picks.costs {rule : Rule α} {kind : Token.Kind} {value : String → α} {none : α}
    {atEnd fault : Fault} (picks : rule.Picks kind value none atEnd fault)
    (found : ∀ text, size (value text) ≤ nodes + 2) (lacking : size none ≤ nodes) :
    rule.Costs size nodes 1 := by
  intro finish unread
  cases unread with
  | nil =>
    rw [picks.read_nil]
    exact .of_unread lacking (Nat.le_refl 1)
  | cons token unread =>
    rw [picks.read_cons]
    split
    · apply Reading.Within.behind
      exact .of_unread (found token.text) (Nat.zero_le _)
    · exact .of_unread lacking (Nat.le_refl 1)

/-- An item is paid for by the token with which it begins. -/
theorem many_costs {stops : Token → Bool} {item : Token → Rule α} {sizes : List α → Nat}
    (none : sizes [] = 0) (more : ∀ value values, sizes (value :: values) = size value + sizes values)
    (items : ∀ token, (item token).Costs size 2 4) : (many stops item).Costs sizes 0 0 := by
  intro finish unread
  change (manyRead stops item finish unread).Within unread sizes 0 0
  fun_induction manyRead stops item finish unread with
  | case1 => exact .of_unread (Nat.le_of_eq none) (Nat.le_refl 0)
  | case2 => exact .of_unread (Nat.le_of_eq none) (Nat.le_refl 0)
  | case3 token unread _ one others ih =>
    obtain ⟨value, raised⟩ : one.Within unread size 2 4 := items token finish unread
    obtain ⟨values, raisedOthers⟩ : others.Within one.rest sizes 0 0 := ih
    constructor
    · simp only [more, List.length_cons]
      omega
    · simp only [List.length_append, List.length_cons]
      omega

end Rule

/-! ## The rules of the grammar -/

theorem primary_costs : primary.Costs (·.toTree.size) 1 1 :=
  primary_picks.costs (fun _ => by simp [Expression.toTree, Tree.leaf]) (by decide)

/-- An operator pays for its node, and for the node and the problem that its right operand may be. -/
theorem chainRead_within {level : Level} {operand : Rule Expression}
    (operands : operand.Costs (·.toTree.size) 1 1) (finish : Position) (left : Expression)
    (unread : List Token) :
    (chainRead level operand finish left unread).Within unread (·.toTree.size) left.toTree.size 0 := by
  fun_induction chainRead level operand finish left unread with
  | case1 => exact .of_unread (Nat.le_refl _) (Nat.le_refl 0)
  | case2 => exact .of_unread (Nat.le_refl _) (Nat.le_refl 0)
  | case3 left token unread operator found right whole ih =>
    obtain ⟨value, raised⟩ : right.Within unread (·.toTree.size) 1 1 := operands finish unread
    obtain ⟨values, raisedWhole⟩ : whole.Within right.rest (·.toTree.size)
      (Expression.binary operator left right.value).toTree.size 0 := ih
    simp only [Expression.toTree, Tree.binary, Tree.size_node, Tree.sizeAll_cons,
      Tree.sizeAll_nil] at values
    constructor
    · simp only [List.length_cons]
      omega
    · simp only [List.length_append, List.length_cons]
      omega

theorem chain_costs {level : Level} {operand : Rule Expression}
    (operands : operand.Costs (·.toTree.size) 1 1) :
    (chain level operand).Costs (·.toTree.size) 1 1 := by
  refine operands.bind fun left finish unread => ?_
  rw [Nat.zero_add]
  exact chainRead_within operands finish left unread

theorem expression_costs : expression.Costs (·.toTree.size) 1 1 :=
  chain_costs (chain_costs primary_costs)

theorem functionName_costs : functionName.Costs (fun _ => 0) 0 1 :=
  functionName_picks.costs (fun _ => Nat.zero_le _) (Nat.le_refl 0)

theorem parameter_costs : parameter.Costs (fun _ => 1) 1 1 :=
  parameter_picks.costs (fun _ => by omega) (by omega)

/-- Skipping reads tokens and makes nothing. -/
theorem skipParameters_costs : skipParameters.Costs (fun _ => 0) 0 0 := by
  intro finish unread
  have shorter := (skipList_suffix unread).length_le
  constructor
  · dsimp only [read_skipParameters]
    omega
  · simp only [read_skipParameters, List.length_nil]
    omega

theorem lastParameter_costs : lastParameter.Costs List.length 1 2 := by
  refine parameter_costs.bind ?_
  rintro (name | _)
  · refine Rule.eat_bind_costs (Rule.pure_costs (by simp)) ?_
    refine (Rule.raise_costs _).bind fun _ => ?_
    exact skipParameters_costs.bind fun _ => Rule.pure_costs (Nat.le_refl 1)
  · exact skipParameters_costs.bind fun _ => Rule.pure_costs (by simp)

theorem parameterList_costs : parameterList.Costs List.length 1 2 := by
  intro finish unread
  change (parameterListRead finish unread).Within unread List.length 1 2
  fun_induction parameterListRead finish unread with
  | case1 name comma unread separated others ih =>
    obtain ⟨value, raised⟩ : others.Within unread List.length 1 2 := ih
    constructor
    · simp only [List.length_cons]
      omega
    · simp only [List.length_cons]
      omega
  | case2 => exact lastParameter_costs finish _
  | case3 => exact lastParameter_costs finish _
  | case4 => exact lastParameter_costs finish _

/-- The opening parenthesis pays for what is wrong in the list. -/
theorem parameterSection_costs : parameterSection.Costs List.length 0 1 := by
  refine Rule.eat_bind_costs (Rule.eat_bind_costs ?_ ?_) ?_
  · exact Rule.pure_costs (by simp)
  · intro finish unread
    obtain ⟨value, raised⟩ := parameterList_costs finish unread
    change (parameterList.read finish unread).Within unread List.length 2 5
    exact ⟨by omega, by omega⟩
  · exact (Rule.raise_costs _).bind fun _ => Rule.pure_costs (Nat.le_refl 0)

variable {declaration : Token → Rule Statement}

theorem statementAfter_costs
    (declarations : ∀ opening, (declaration opening).Costs (·.toTree.size) 2 4) (first : Token) :
    (statementAfter declaration first).Costs (·.toTree.size) 2 4 := by
  unfold statementAfter
  split
  · refine expression_costs.bind fun value => Rule.pure_costs ?_
    simp only [Statement.toTree, Tree.size_node, Tree.sizeAll_cons, Tree.sizeAll_nil]
    omega
  · split
    · exact declarations first
    · exact (Rule.blame_costs _ _).bind fun _ => Rule.pure_costs (by decide)

/-- By induction on how deep declarations may be nested. -/
theorem declarationAfter_costs (nesting : Nat) (opening : Token) :
    (declarationAfter nesting opening).Costs (·.toTree.size) 2 4 := by
  induction nesting generalizing opening with
  | zero => exact (Rule.blame_costs _ _).bind fun _ => Rule.pure_costs (by decide)
  | succ nesting ih =>
    refine functionName_costs.bind fun name => ?_
    refine parameterSection_costs.bind fun parameters => ?_
    refine (Rule.expect_costs _ _).bind fun _ => ?_
    have body : (Rule.many (isWord "endfunc") (statementAfter (declarationAfter nesting))).Costs
        (fun body => Tree.sizeAll (Statement.toTrees body)) 0 0 :=
      Rule.many_costs rfl (fun _ _ => Tree.sizeAll_cons ..) (statementAfter_costs ih)
    refine body.bind fun body => ?_
    refine (Rule.expect_costs _ _).bind fun _ => Rule.pure_costs ?_
    change Tree.size _ ≤ 2 + parameters.length + Tree.sizeAll (Statement.toTrees body)
    simp only [Statement.toTree, Tree.size_node, Tree.sizeAll_append, Tree.sizeAll_cons, Tree.sizeAll_nil,
      Parameter.sizeAll_map_toTree]
    omega

theorem program_costs : program.Costs (·.toTree.size) 1 0 := by
  have statements : (Rule.many (fun _ => false) outerStatementAfter).Costs
      (fun statements => Tree.sizeAll (Statement.toTrees statements)) 0 0 :=
    Rule.many_costs rfl (fun _ _ => Tree.sizeAll_cons ..)
      (statementAfter_costs (declarationAfter_costs maxNesting))
  refine statements.bind fun statements => Rule.pure_costs ?_
  rw [Program.toTree, Tree.size_node]
  dsimp only
  omega

end Grammar

end FuncLang
