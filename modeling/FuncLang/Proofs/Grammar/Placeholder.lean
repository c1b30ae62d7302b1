import FuncLang.Grammar.Statement
import FuncLang.Proofs.Grammar.Contract
import FuncLang.Proofs.Tree.Placeholder
import Mathlib.Data.List.Forall2

/-! # Placeholders and problems

Where a rule does not find what is due it raises a problem, and either a placeholder takes the place of
what is missing or, in the header and at the end of a declaration, nothing does. So the placeholders of
a tree stand for its problems, in the order in which they were raised. The one exception are names:
a name that reads like a placeholder makes one without a problem.
-/

namespace FuncLang.Grammar

open FuncLang.Tree (Label)

namespace Fault

/-- The placeholder that stands for the fault in a program. -/
def placeholder? : Fault → Option Label
  | expectedInteger | expectedExpression => some ⟨.missingExpression, Tree.unsupportedPrimary⟩
  | unsupportedStatement | unrecognizedCharacter =>
    some ⟨.returnStatement, Tree.unsupportedStatement⟩
  | expectedParameter => some ⟨.parameter, Tree.unsupportedParameter⟩
  | nestedTooDeep => some ⟨.functionDeclaration, Tree.unsupportedFunction⟩
  | endOfInput | expectedFunc | expectedName | expectedOpening | expectedDo | missingEndfunc
  | expectedSeparator => none

/-- Whether the fault is in the parts of a declaration that no placeholder stands for. -/
def isHeader : Fault → Bool
  | expectedName | expectedOpening | expectedDo | missingEndfunc | expectedSeparator => true
  | _ => false

theorem isHeader_of_placeholder? {fault : Fault} {label : Label}
    (stands : fault.placeholder? = some label) : fault.isHeader = false := by
  cases fault <;> first | rfl | cases stands

end Fault

/-- The labels that a declaration and a parameter have as placeholders, though a name may give them the
same ones. -/
def namedLabels : List Label :=
  [⟨.functionDeclaration, Tree.unsupportedFunction⟩, ⟨.parameter, Tree.unsupportedParameter⟩]

theorem isPlaceholder_of_mem_namedLabels {node : Tree} (named : node.label ∈ namedLabels) :
    node.isPlaceholder = true := by
  obtain ⟨kind, value, children⟩ := node
  simp only [namedLabels, Tree.label, List.mem_cons, Label.mk.injEq, List.not_mem_nil, or_false] at named
  rcases named with ⟨rfl, rfl⟩ | ⟨rfl, rfl⟩ <;> simp [Tree.isPlaceholder]

/-- What placeholders come from: a problem for which one stands, or a name among the tokens read. The
two faults that are only raised outside of programs are no source of placeholders. -/
inductive Held (read : List Token) : List Label → List Problem → Prop
  | nil : Held read [] []
  | stands {label : Label} {problem : Problem} {labels : List Label} {problems : List Problem}
      (stands : problem.fault.placeholder? = some label) (others : Held read labels problems) :
      Held read (label :: labels) (problem :: problems)
  | header {problem : Problem} {labels : List Label} {problems : List Problem}
      (header : problem.fault.isHeader = true) (others : Held read labels problems) :
      Held read labels (problem :: problems)
  | name {token : Token} {label : Label} {labels : List Label} {problems : List Problem}
      (member : token ∈ read) (identifier : token.kind = .identifier)
      (named : label ∈ namedLabels) (text : label.value = token.text)
      (others : Held read labels problems) : Held read (label :: labels) problems

namespace Held

variable {read read' : List Token} {labels labels' : List Label} {problems problems' : List Problem}

theorem mono (held : Held read labels problems) (within : read ⊆ read') :
    Held read' labels problems := by
  induction held with
  | nil => exact .nil
  | stands stands _ ih => exact .stands stands ih
  | header header _ ih => exact .header header ih
  | name member identifier named text _ ih => exact .name (within member) identifier named text ih

theorem append (front : Held read labels problems) (back : Held read labels' problems') :
    Held read (labels ++ labels') (problems ++ problems') := by
  induction front with
  | nil => exact back
  | stands stands _ ih => exact .stands stands ih
  | header header _ ih => exact .header header ih
  | name member identifier named text _ ih => exact .name member identifier named text ih

/-- What comes behind was read behind. -/
theorem append_read (front : Held read labels problems) (back : Held read' labels' problems') :
    Held (read ++ read') (labels ++ labels') (problems ++ problems') :=
  (front.mono (List.subset_append_left _ _)).append (back.mono (List.subset_append_right _ _))

/-- Where no name reads like a placeholder, placeholders and problems come in pairs. -/
theorem forall₂ (held : Held read labels problems)
    (free : ∀ token ∈ read, token.kind = .identifier →
      ∀ label ∈ namedLabels, token.text ≠ label.value) :
    List.Forall₂ (fun label problem => problem.fault.placeholder? = some label) labels
      (problems.filter fun problem => !problem.fault.isHeader) := by
  induction held with
  | nil => exact .nil
  | stands stands _ ih =>
    rw [List.filter_cons_of_pos (by simp [Fault.isHeader_of_placeholder? stands])]
    exact .cons stands ih
  | header header _ ih => rwa [List.filter_cons_of_neg (by simp [header])]
  | name member identifier named text => exact absurd text.symm (free _ member identifier _ named)

/-- Where nothing is wrong, every placeholder is a name. -/
theorem of_mem (held : Held read labels []) {label : Label} (member : label ∈ labels) :
    label ∈ namedLabels ∧ ∃ token ∈ read, token.kind = .identifier ∧ token.text = label.value := by
  generalize clean : ([] : List Problem) = problems at held
  induction held with
  | nil => simp at member
  | stands | header => cases clean
  | @name token first labels problems read identifier named text _ ih =>
    rcases List.mem_cons.mp member with rfl | member
    · exact ⟨named, token, read, identifier, text.symm⟩
    · exact ih member clean

end Held

/-! ## Rules -/

variable {α β : Type} {finish : Position} {Shows : α → List Label → Prop}

/-- The placeholders that the value shows come from the tokens that were read and from the problems. -/
def Placed (Shows : α → List Label → Prop) (read : List Token) (reading : Reading α) : Prop :=
  ∃ labels, Held read labels reading.raised ∧ Shows reading.value labels

namespace Rule

theorem pure_placed {value : α} (shows : Shows value []) :
    (pure value : Rule α).Keeps finish (Placed Shows) :=
  fun _ _ => ⟨[], rfl, [], .nil, shows⟩

/-- The placeholders of the first rule stand in front of those of the next one. -/
theorem bind_placed {rule : Rule α} {next : α → Rule β} {Tells : β → List Label → Prop}
    (first : rule.Keeps finish (Placed Shows))
    (behind : ∀ value labels, Shows value labels →
      (next value).Keeps finish (Placed fun result others => Tells result (labels ++ others))) :
    (rule >>= next).Keeps finish (Placed Tells) := by
  refine bind_keeps first ?_
  rintro front one ⟨labels, held, shows⟩
  refine (behind _ labels shows).imp ?_
  rintro back two ⟨others, heldBehind, tells⟩
  exact ⟨labels ++ others, held.append_read heldBehind, tells⟩

/-- Without a problem there is no placeholder. -/
theorem silent_placed {rule : Rule α} (silent : ∀ unread, (rule.read finish unread).raised = []) :
    rule.Keeps finish (Placed fun _ labels => labels = []) := by
  intro unread _
  obtain ⟨read, same⟩ := rule.rest_suffix finish unread
  exact ⟨read, same.symm, [], silent unread ▸ .nil, rfl⟩

theorem eat_placed (wanted : Token → Bool) :
    (eat wanted).Keeps finish (Placed fun _ labels => labels = []) := by
  refine silent_placed fun unread => ?_
  cases unread with
  | nil => rfl
  | cons token unread =>
    rw [read_eat_cons]
    split <;> rfl

theorem raise_placed {fault : Fault} (header : fault.isHeader = true) :
    (raise fault).Keeps finish (Placed fun _ labels => labels = []) :=
  fun _ _ => ⟨[], rfl, [], .header header .nil, rfl⟩

theorem expect_placed {wanted : Token → Bool} {fault : Fault} (header : fault.isHeader = true) :
    (expect wanted fault).Keeps finish (Placed fun _ labels => labels = []) := by
  refine bind_placed (eat_placed wanted) ?_
  rintro (_ | _) _ rfl
  · exact raise_placed header
  · exact pure_placed rfl

end Rule

/-! ## Expressions -/

/-- A hole stands for the problem that is raised there. -/
theorem primary_placed :
    primary.Keeps finish (Placed fun value labels => labels = value.toTree.heldLabels) := by
  refine primary_picks.keeps (fun token _ _ _ => ?_) (fun _ _ => ?_) (fun _ _ => ?_)
  · exact ⟨[], .nil, rfl⟩
  · exact ⟨_, .stands rfl .nil, rfl⟩
  · exact ⟨_, .stands rfl .nil, rfl⟩

/-- The holes of the left operand come before those of the right one. -/
theorem chain_placed {level : Level} {operand : Rule Expression}
    (operands : operand.Keeps finish
      (Placed fun value labels => labels = value.toTree.heldLabels)) :
    (chain level operand).Keeps finish
      (Placed fun value labels => labels = value.toTree.heldLabels) := by
  refine chain_keeps operands id ?_
  rintro before after left right token operator ⟨_, heldLeft, rfl⟩ - ⟨_, heldRight, rfl⟩ -
  have behind : after ⊆ token :: after := List.subset_cons_self token after
  exact ⟨_, heldLeft.append_read (heldRight.mono behind), (Tree.heldLabels_binary ..).symm⟩

theorem expression_placed :
    expression.Keeps finish (Placed fun value labels => labels = value.toTree.heldLabels) :=
  chain_placed (chain_placed primary_placed)

/-! ## The header of a declaration -/

/-- The name of a declaration or a parameter makes a placeholder only if it reads like one. -/
theorem held_ownLabels {token : Token} (identifier : token.kind = .identifier) {kind : Tree.Kind}
    (named : kind = .functionDeclaration ∨ kind = .parameter) :
    Held [token] (Tree.ownLabels kind token.text) [] := by
  unfold Tree.ownLabels
  split
  next reads =>
    refine .name List.mem_cons_self identifier ?_ rfl .nil
    rcases named with rfl | rfl <;> simp_all [namedLabels, Tree.isPlaceholder, Tree.leaf]
  next => exact .nil

theorem functionName_placed :
    functionName.Keeps finish (Placed fun name labels =>
      labels = Tree.ownLabels .functionDeclaration (name.getD "")) := by
  refine functionName_picks.keeps (fun token _ _ identifier => ?_) (fun _ _ => ?_) (fun _ _ => ?_)
  · exact ⟨_, held_ownLabels identifier (.inl rfl), rfl⟩
  · exact ⟨[], .header rfl .nil, rfl⟩
  · exact ⟨[], .header rfl .nil, rfl⟩

/-- A parameter without a name is a placeholder and raises the problem for which it stands. -/
theorem parameter_placed :
    parameter.Keeps finish (Placed fun value labels => labels = value.toTree.heldLabels) := by
  refine parameter_picks.keeps (fun token _ _ identifier => ?_) (fun _ _ => ?_) (fun _ _ => ?_)
  · exact ⟨_, held_ownLabels identifier (.inr rfl), (Parameter.heldLabels_named _).symm⟩
  · exact ⟨_, .stands rfl .nil, rfl⟩
  · exact ⟨_, .stands rfl .nil, rfl⟩

/-- What is skipped behind the last parameter leaves nothing. -/
theorem lastParameter_placed :
    lastParameter.Keeps finish (Placed fun parameters labels =>
      labels = Tree.heldLabelsAll (parameters.map Parameter.toTree)) := by
  have skipped : skipParameters.Keeps finish (Placed fun _ labels => labels = []) :=
    Rule.silent_placed fun _ => rfl
  refine Rule.bind_placed parameter_placed ?_
  rintro (name | _) _ rfl
  · refine Rule.bind_placed (Rule.eat_placed _) ?_
    rintro (_ | _) _ rfl
    · refine Rule.bind_placed (Rule.raise_placed rfl) ?_
      rintro - _ rfl
      refine Rule.bind_placed skipped ?_
      rintro - _ rfl
      exact Rule.pure_placed (by simp)
    · exact Rule.pure_placed (by simp)
  · refine Rule.bind_placed skipped ?_
    rintro - _ rfl
    exact Rule.pure_placed (by simp)

/-- The placeholders of a list come in the order of its parameters. -/
theorem parameterList_placed :
    parameterList.Keeps finish (Placed fun parameters labels =>
      labels = Tree.heldLabelsAll (parameters.map Parameter.toTree)) := by
  intro unread
  change _ → ∃ read, unread = read ++ (parameterListRead finish unread).rest ∧
    Placed _ read (parameterListRead finish unread)
  fun_induction parameterListRead finish unread with
  | case1 name comma unread separated others ih =>
    intro valid
    obtain ⟨read, same, _, held, rfl⟩ := ih fun token member =>
      valid token (List.mem_cons_of_mem _ (List.mem_cons_of_mem _ member))
    simp only [Bool.and_eq_true, beq_iff_eq] at separated
    have named := held_ownLabels separated.1 (.inr rfl)
    have behind : read ⊆ comma :: read := List.subset_cons_self comma read
    refine ⟨name :: comma :: read, by simpa using same, _, named.append_read (held.mono behind), ?_⟩
    rw [← Parameter.heldLabels_named]
    rfl
  | case2 => exact lastParameter_placed _
  | case3 => exact lastParameter_placed _
  | case4 => exact lastParameter_placed _

theorem parameterSection_placed :
    parameterSection.Keeps finish (Placed fun parameters labels =>
      labels = Tree.heldLabelsAll (parameters.map Parameter.toTree)) := by
  refine Rule.bind_placed (Rule.eat_placed _) ?_
  rintro (_ | _) _ rfl
  · refine Rule.bind_placed (Rule.raise_placed rfl) ?_
    rintro - _ rfl
    exact Rule.pure_placed rfl
  · refine Rule.bind_placed (Rule.eat_placed _) ?_
    rintro (_ | _) _ rfl
    · exact parameterList_placed
    · exact Rule.pure_placed rfl

/-! ## Statements -/

variable {declaration : Token → Rule Statement}

/-- A token with which no statement begins has a placeholder and a problem of its own. -/
theorem statementAfter_placed
    (declarations : ∀ opening, (declaration opening).Keeps finish
      (Placed fun statement labels => labels = statement.toTree.heldLabels)) (first : Token) :
    (statementAfter declaration first).Keeps finish
      (Placed fun statement labels => labels = statement.toTree.heldLabels) := by
  unfold statementAfter
  split
  · refine Rule.bind_placed expression_placed ?_
    rintro value _ rfl
    exact Rule.pure_placed (by simp)
  · split
    · exact declarations first
    · have stands : (strayFault first).placeholder? = some ⟨.returnStatement, Tree.unsupportedStatement⟩ := by
        unfold strayFault
        split <;> rfl
      exact fun unread _ => ⟨[], rfl, _, .stands stands .nil, rfl⟩

/-- The placeholders of statements come one statement after the other. -/
theorem statements_placed
    (declarations : ∀ opening, (declaration opening).Keeps finish
      (Placed fun statement labels => labels = statement.toTree.heldLabels))
    (stops : Token → Bool) :
    (Rule.many stops (statementAfter declaration)).Keeps finish
      (Placed fun body labels => labels = Tree.heldLabelsAll (Statement.toTrees body)) := by
  refine Rule.many_keeps (Placed fun statement labels => labels = statement.toTree.heldLabels)
    (fun first _ _ => (statementAfter_placed declarations first).imp ?_)
    (fun _ => ⟨[], .nil, rfl⟩) ?_
  · rintro read reading ⟨labels, held, shows⟩
    exact ⟨labels, held.mono (List.subset_cons_self first read), shows⟩
  · rintro front back one others ⟨_, heldOne, rfl⟩ ⟨_, heldOthers, rfl⟩ -
    exact ⟨_, heldOne.append_read heldOthers, rfl⟩

/-- By induction on how deep declarations may be nested. A declaration is walked in the order in which
its parts are read. -/
theorem declarationAfter_placed (nesting : Nat) (opening : Token) :
    (declarationAfter nesting opening).Keeps finish
      (Placed fun statement labels => labels = statement.toTree.heldLabels) := by
  induction nesting generalizing opening with
  | zero => exact fun _ _ => ⟨[], rfl, _, .stands rfl .nil, rfl⟩
  | succ nesting ih =>
    refine Rule.bind_placed functionName_placed ?_
    rintro name _ rfl
    refine Rule.bind_placed parameterSection_placed ?_
    rintro parameters _ rfl
    refine Rule.bind_placed (Rule.expect_placed rfl) ?_
    rintro - _ rfl
    refine Rule.bind_placed (statements_placed ih _) ?_
    rintro body _ rfl
    refine Rule.bind_placed (Rule.expect_placed rfl) ?_
    rintro - _ rfl
    exact Rule.pure_placed (by simp [Statement.heldLabels_function])

theorem program_placed :
    program.Keeps finish (Placed fun program labels => labels = program.toTree.heldLabels) := by
  refine Rule.bind_placed (statements_placed (declarationAfter_placed maxNesting) _) ?_
  rintro statements _ rfl
  exact Rule.pure_placed (by simp [Program.toTree, Tree.heldLabels_node, Tree.ownLabels, Tree.leaf,
    Tree.isPlaceholder])

end FuncLang.Grammar
