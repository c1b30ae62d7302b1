import FuncLang.Proofs.Grammar.Contract
import FuncLang.Proofs.Grammar.Statement

/-! # What comes behind

A rule looks at the tokens that it reads and at the next one, and no further. So where it leaves a
token it would have read the same whatever came behind that one, and wherever the input ended.

Where it leaves no token, either a problem tells that the input ended too early, or only an operator
could have gone on with what was read. Programs are read one after the other then.
-/

namespace FuncLang.Grammar

variable {α β : Type} {finish : Position} {more : List Token}

/-- The reading with more tokens left behind the others. -/
def Reading.followedBy (reading : Reading α) (more : List Token) : Reading α :=
  ⟨reading.value, reading.raised, reading.rest ++ more⟩

/-- Whether no problem was raised at the end of the input. -/
def Settled (finish : Position) (raised : List Problem) : Prop :=
  ∀ problem ∈ raised, problem.token ≠ Token.endOfInput finish

theorem settled_append {raised others : List Problem} :
    Settled finish (raised ++ others) ↔ Settled finish raised ∧ Settled finish others :=
  List.forall_mem_append

theorem not_settled_cons (finish : Position) (fault : Fault) (raised : List Problem) :
    ¬ Settled finish (⟨fault, Token.endOfInput finish⟩ :: raised) :=
  fun settled => settled _ List.mem_cons_self rfl

/-- Whether more tokens may come behind what was read: a token was left in front of them, or nothing is
wrong at the end and they begin with no operator. -/
def Reading.Allows (reading : Reading α) (finish : Position) (more : List Token) : Prop :=
  reading.rest ≠ [] ∨ Settled finish reading.raised ∧ EndsStatement more

/-- What may come behind two readings may come behind each of them. -/
theorem Reading.Allows.parts {one : Reading α} {two : Reading β} {value : β}
    (suffix : two.rest <:+ one.rest)
    (allows : Allows ⟨value, one.raised ++ two.raised, two.rest⟩ finish more) :
    one.Allows finish more ∧ two.Allows finish more := by
  rcases allows with left | ⟨settled, ends⟩
  · have leftFirst : one.rest ≠ [] := fun none => left (List.suffix_nil.mp (none ▸ suffix))
    exact ⟨.inl leftFirst, .inl left⟩
  · obtain ⟨settledOne, settledTwo⟩ := settled_append.mp settled
    exact ⟨.inr ⟨settledOne, ends⟩, .inr ⟨settledTwo, ends⟩⟩

namespace Rule

/-- Where the rule leaves a token, it does not matter what comes behind. -/
def Local (rule : Rule α) : Prop :=
  ∀ finish unread, (rule.read finish unread).rest ≠ [] → ∀ finish' more,
    rule.read finish' (unread ++ more) = (rule.read finish unread).followedBy more

/-- What may come behind does not matter. -/
def Continues (rule : Rule α) : Prop :=
  ∀ finish unread more, (rule.read finish unread).Allows finish more → ∀ finish',
    rule.read finish' (unread ++ more) = (rule.read finish unread).followedBy more

/-- The rule continues, and an input without tokens ends too early for it. -/
structure Closes (rule : Rule α) : Prop where
  continues : rule.Continues
  wants : ∀ finish, ¬ Settled finish (rule.read finish []).raised

variable {rule : Rule α} {next : α → Rule β}

theorem Continues.local (continues : rule.Continues) : rule.Local :=
  fun finish unread left finish' more => continues finish unread more (.inl left) finish'

/-! ## Sequences of rules -/

theorem rest_read_nil (rule : Rule α) (finish : Position) : (rule.read finish []).rest = [] :=
  List.suffix_nil.mp (rule.rest_suffix finish [])

theorem pure_continues (value : α) : (pure value : Rule α).Continues := fun _ _ _ _ _ => rfl

theorem Local.bind (first : rule.Local) (behind : ∀ value, (next value).Local) :
    (rule >>= next).Local := by
  intro finish unread left finish' more
  have leftFirst : (rule.read finish unread).rest ≠ [] := by
    intro none
    simp only [read_bind, none, rest_read_nil, ne_eq, not_true_eq_false] at left
  rw [read_bind, first finish unread leftFirst finish' more]
  simp only [Reading.followedBy, behind _ _ _ left finish' more]
  rfl

theorem Continues.bind (first : rule.Continues) (behind : ∀ value, (next value).Continues) :
    (rule >>= next).Continues := by
  intro finish unread more allows finish'
  obtain ⟨allowsFirst, allowsBehind⟩ := Reading.Allows.parts ((next _).rest_suffix finish _) allows
  rw [read_bind, first finish unread more allowsFirst finish']
  simp only [Reading.followedBy, behind _ _ _ more allowsBehind finish']
  rfl

theorem Closes.bind (first : rule.Closes) (behind : ∀ value, (next value).Continues) :
    (rule >>= next).Closes where
  continues := first.continues.bind behind
  wants finish settled := first.wants finish (settled_append.mp settled).1

/-- If an input without tokens ends too early for what comes behind, the first rule has left one. -/
theorem Local.bind_closes (first : rule.Local) (behind : ∀ value, (next value).Closes) :
    (rule >>= next).Closes where
  continues finish unread more allows finish' := by
    have allowsBehind := (Reading.Allows.parts ((next _).rest_suffix finish _) allows).2
    have left : (rule.read finish unread).rest ≠ [] := by
      intro none
      rw [none] at allowsBehind
      rcases allowsBehind with left | ⟨settled, -⟩
      · exact left (rest_read_nil _ finish)
      · exact (behind _).wants finish settled
    rw [read_bind, first finish unread left finish' more]
    simp only [Reading.followedBy, (behind _).continues _ _ more allowsBehind finish']
    rfl
  wants finish settled := by
    have settledBehind := (settled_append.mp settled).2
    rw [rest_read_nil] at settledBehind
    exact (behind _).wants finish settledBehind

/-! ## Single tokens -/

theorem eat_local (wanted : Token → Bool) : (eat wanted).Local := by
  intro finish unread left finish' more
  cases unread with
  | nil => exact absurd rfl left
  | cons token unread =>
    rw [List.cons_append, read_eat_cons, read_eat_cons]
    split <;> rfl

theorem raise_local (fault : Fault) : (raise fault).Local := by
  intro finish unread left finish' more
  cases unread with
  | nil => exact absurd rfl left
  | cons token unread => rfl

theorem expect_closes (wanted : Token → Bool) (fault : Fault) : (expect wanted fault).Closes where
  continues finish unread more allows finish' := by
    cases unread with
    | nil =>
      rcases allows with left | ⟨settled, -⟩
      · exact absurd rfl left
      · exact absurd settled (not_settled_cons finish fault [])
    | cons token unread =>
      rw [List.cons_append, read_expect_cons, read_expect_cons]
      split <;> rfl
  wants finish := not_settled_cons finish fault []

/-- Where nothing is raised at the end of the input, there is a token to look at. -/
theorem Picks.continues {kind : Token.Kind} {value : String → α} {none : α} {atEnd fault : Fault}
    (picks : rule.Picks kind value none atEnd fault) : rule.Continues := by
  intro finish unread more allows finish'
  cases unread with
  | nil =>
    rw [picks.read_nil] at allows
    rcases allows with left | ⟨settled, -⟩
    · exact absurd rfl left
    · exact absurd settled (not_settled_cons finish atEnd [])
  | cons token unread =>
    rw [List.cons_append, picks.read_cons, picks.read_cons]
    split <;> rfl

/-! ## Items -/

section Many

variable {stops : Token → Bool} {item : Token → Rule α}

/-- Items leave a token only where one stops them. -/
theorem many_local (items : ∀ token, (item token).Local) : (many stops item).Local := by
  intro finish unread left finish' more
  change manyRead stops item finish' (unread ++ more) =
    (manyRead stops item finish unread).followedBy more
  change (manyRead stops item finish unread).rest ≠ [] at left
  fun_induction manyRead stops item finish unread with
  | case1 => exact absurd rfl left
  | case2 token unread stop => rw [List.cons_append, manyRead, if_pos stop]; rfl
  | case3 token unread go one others ih =>
    have leftOne : one.rest ≠ [] := by
      intro none
      apply left
      simp only [others, none, manyRead]
    have read : (item token).read finish' (unread ++ more) = one.followedBy more :=
      items token finish unread leftOne finish' more
    rw [List.cons_append, manyRead, if_neg go, read]
    simp only [Reading.followedBy, ih left]
    rfl

/-- Items that nothing stops are followed by the items behind them. -/
theorem read_many_append (items : ∀ token, (item token).Continues) (go : ∀ token, stops token = false)
    {unread : List Token} (settled : Settled finish ((many stops item).read finish unread).raised)
    (ends : EndsStatement more) (finish' : Position) :
    (many stops item).read finish' (unread ++ more) =
      let front := (many stops item).read finish unread
      let back := (many stops item).read finish' more
      ⟨front.value ++ back.value, front.raised ++ back.raised, back.rest⟩ := by
  change manyRead stops item finish' (unread ++ more) =
    let front := manyRead stops item finish unread
    let back := manyRead stops item finish' more
    ⟨front.value ++ back.value, front.raised ++ back.raised, back.rest⟩
  change Settled finish (manyRead stops item finish unread).raised at settled
  fun_induction manyRead stops item finish unread with
  | case1 => rfl
  | case2 token unread stop => simp [go token] at stop
  | case3 token unread going one others ih =>
    obtain ⟨settledOne, settledOthers⟩ := settled_append.mp settled
    have read : (item token).read finish' (unread ++ more) = one.followedBy more :=
      items token finish unread more (.inr ⟨settledOne, ends⟩) finish'
    rw [List.cons_append, manyRead, if_neg going, read]
    simp only [Reading.followedBy, ih settledOthers, List.cons_append, List.append_assoc]
    rfl

end Many

end Rule

/-! ## Expressions -/

section Chain

variable {level : Level} {operand : Rule Expression}

/-- The loop goes on only with an operator. -/
theorem chainRead_continues (operands : operand.Continues) {left : Expression} {unread : List Token}
    (allows : (chainRead level operand finish left unread).Allows finish more) (finish' : Position) :
    chainRead level operand finish' left (unread ++ more) =
      (chainRead level operand finish left unread).followedBy more := by
  fun_induction chainRead level operand finish left unread with
  | case1 left =>
    rcases allows with some | ⟨-, ends⟩
    · exact absurd rfl some
    · exact chainRead_of_ends (ends_of_endsStatement ends level) operand finish' left
  | case2 left token unread none => simp [chainRead, none, Reading.followedBy]
  | case3 left token unread operator found right =>
    rename_i whole ih
    obtain ⟨allowsRight, allowsWhole⟩ :=
      Reading.Allows.parts (chainRead_rest_suffix level operand finish _ right.rest) allows
    have read : operand.read finish' (unread ++ more) = right.followedBy more :=
      operands finish unread more allowsRight finish'
    simp only [List.cons_append, chainRead, found, read, Reading.followedBy, ih allowsWhole]
    rfl

theorem chain_continues (operands : operand.Continues) : (chain level operand).Continues :=
  operands.bind fun _ _ _ _ allows => chainRead_continues operands allows

end Chain

theorem expression_continues : expression.Continues :=
  chain_continues (chain_continues primary_picks.continues)

/-! ## The header of a declaration -/

/-- What is skipped ends in front of a token that is left or behind the parenthesis in front of it. -/
theorem skipList_append {unread : List Token} (left : skipList unread ≠ []) (more : List Token) :
    skipList (unread ++ more) = skipList unread ++ more := by
  induction unread with
  | nil => exact absurd rfl left
  | cons token unread ih =>
    simp only [List.cons_append, skipList] at left ⊢
    split
    · rfl
    · split
      · rfl
      · exact ih (by simp_all)

theorem skipParameters_local : skipParameters.Local :=
  fun _ _ left _ more => congrArg (Reading.mk () []) (skipList_append left more)

theorem lastParameter_local : lastParameter.Local := by
  have done (parameters : List Parameter) : (pure parameters : Rule (List Parameter)).Local :=
    (Rule.pure_continues parameters).local
  refine parameter_picks.continues.local.bind ?_
  rintro (name | _)
  · refine (Rule.eat_local _).bind ?_
    rintro (_ | _)
    · exact (Rule.raise_local _).bind fun _ => skipParameters_local.bind fun _ => done _
    · exact done _
  · exact skipParameters_local.bind fun _ => done _

/-- Behind a single name nothing is left. -/
theorem parameterList_local : parameterList.Local := by
  intro finish unread left finish' more
  change parameterListRead finish' (unread ++ more) = (parameterListRead finish unread).followedBy more
  change (parameterListRead finish unread).rest ≠ [] at left
  fun_induction parameterListRead finish unread with
  | case1 name comma unread separated others ih =>
    simp only [List.cons_append, parameterListRead, separated, if_true, ih left]
    rfl
  | case2 name comma unread single =>
    rw [← lastParameter_local finish _ left finish' more]
    simp only [List.cons_append, parameterListRead, single]
    rfl
  | case3 token =>
    have noName : token.kind ≠ .identifier := by
      intro identifier
      simp [lastParameter, identifier, skipList] at left
    rw [← lastParameter_local finish _ left finish' more]
    cases more with
    | nil => rfl
    | cons next more => simp [parameterListRead, noName]
  | case4 => exact absurd (Rule.rest_read_nil lastParameter finish) left

theorem parameterSection_local : parameterSection.Local := by
  have none : (pure [] : Rule (List Parameter)).Local := (Rule.pure_continues []).local
  refine (Rule.eat_local _).bind ?_
  rintro (_ | _)
  · exact (Rule.raise_local _).bind fun _ => none
  · refine (Rule.eat_local _).bind ?_
    rintro (_ | _)
    · exact parameterList_local
    · exact none

/-! ## Statements -/

theorem statementAfter_continues {declaration : Token → Rule Statement}
    (declarations : ∀ opening, (declaration opening).Continues) (first : Token) :
    (statementAfter declaration first).Continues := by
  unfold statementAfter
  split
  · exact expression_continues.bind fun _ => Rule.pure_continues _
  · split
    · exact declarations first
    · exact fun _ _ _ _ _ => rfl

/-- By induction on how deep declarations may be nested. A declaration wants its `endfunc`, so each of
its parts has left a token. -/
theorem declarationAfter_continues (nesting : Nat) (opening : Token) :
    (declarationAfter nesting opening).Continues := by
  induction nesting generalizing opening with
  | zero => exact fun _ _ _ _ _ => rfl
  | succ nesting ih =>
    have items (first : Token) := (statementAfter_continues ih first).local
    refine Rule.Closes.continues (functionName_picks.continues.local.bind_closes fun name => ?_)
    refine parameterSection_local.bind_closes fun parameters => ?_
    refine (Rule.expect_closes _ _).continues.local.bind_closes fun _ => ?_
    refine (Rule.many_local items).bind_closes fun body => ?_
    exact (Rule.expect_closes _ _).bind fun _ => Rule.pure_continues _

/-- Where nothing is wrong at the end of a program and no operator comes behind, what comes behind is a
program of its own. -/
theorem read_program_append {unread : List Token}
    (settled : Settled finish (program.read finish unread).raised) (ends : EndsStatement more)
    (finish' : Position) :
    program.read finish' (unread ++ more) =
      let front := program.read finish unread
      let back := program.read finish' more
      ⟨⟨front.value.statements ++ back.value.statements⟩, front.raised ++ back.raised, back.rest⟩ := by
  have continues := statementAfter_continues (declarationAfter_continues maxNesting)
  have settledFront := (settled_append.mp settled).1
  have read := Rule.read_many_append continues (fun _ => rfl) settledFront ends finish'
  simp only [program, Rule.read_bind, Rule.read_pure, List.append_nil]
  rw [show outerStatementAfter = statementAfter (declarationAfter maxNesting) from rfl, read]

end FuncLang.Grammar
