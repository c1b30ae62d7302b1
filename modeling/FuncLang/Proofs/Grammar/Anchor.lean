import FuncLang.Proofs.Grammar.Contract
import FuncLang.Proofs.Position.Order
import Mathlib.Data.List.Forall2

/-! # Where problems show

A rule goes through its tokens from the front to the back, and raises problems at the token that it has
just read or at the one that comes next. So its problems show along the tokens that it reads, in their
order, and the last of them at the token in front of which it stops, if not before.

A fault in the structure of the source shows at the end of the input. The exception is a declaration that
is nested too deep, which shows at its `func`.
-/

namespace FuncLang.Grammar

variable {α β : Type}

/-- Whether the token is one at which the fault can show, if that is in the structure of the source. -/
def Problem.Fits (problem : Problem) : Prop :=
  problem.fault.isStructural = true →
    problem.token.isEnd = true ∨ problem.fault = .nestedTooDeep ∧ isWord "func" problem.token = true

/-- The problems show at tokens of the list, from the front to the back. Several can show at the same
token. -/
inductive Along : List Token → List Problem → Prop
  | none {tokens : List Token} : Along tokens []
  | pass {token : Token} {tokens : List Token} {problems : List Problem}
      (others : Along tokens problems) : Along (token :: tokens) problems
  | here {problem : Problem} {tokens : List Token} {problems : List Problem} (fits : problem.Fits)
      (others : Along (problem.token :: tokens) problems) :
      Along (problem.token :: tokens) (problem :: problems)

namespace Along

variable {tokens front back : List Token} {next : Token} {problems others : List Problem}

theorem behind (along : Along tokens problems) (front : List Token) :
    Along (front ++ tokens) problems := by
  induction front with
  | nil => exact along
  | cons token front ih => exact .pass ih

theorem ahead (along : Along tokens problems) (back : List Token) :
    Along (tokens ++ back) problems := by
  induction along with
  | none => exact .none
  | pass _ ih => exact .pass ih
  | here fits _ ih => exact .here fits ih

/-- Problems up to a token and problems from there on show one after the other. -/
theorem append (first : Along (front ++ [next]) problems) (second : Along (next :: back) others) :
    Along (front ++ next :: back) (problems ++ others) := by
  generalize start : front ++ [next] = tokens at first
  induction first generalizing front with
  | none => exact second.behind front
  | pass along ih =>
    cases front with
    | nil =>
      obtain ⟨-, rfl⟩ := List.cons.inj start
      cases along
      exact second
    | cons token front =>
      obtain ⟨rfl, rfl⟩ := List.cons.inj start
      exact .pass (ih rfl)
  | here fits along ih =>
    cases front with
    | nil =>
      obtain ⟨rfl, rfl⟩ := List.cons.inj start
      exact .here fits (@ih [] rfl)
    | cons token front =>
      obtain ⟨rfl, rfl⟩ := List.cons.inj start
      exact .here fits (@ih (_ :: front) rfl)

theorem of_mem (along : Along tokens problems) :
    ∀ problem ∈ problems, problem.token ∈ tokens ∧ problem.Fits := by
  induction along with
  | none => exact List.forall_mem_nil _
  | pass _ ih => exact fun problem member => ⟨.tail _ (ih problem member).1, (ih problem member).2⟩
  | here fits _ ih => exact List.forall_mem_cons.mpr ⟨⟨List.mem_cons_self, fits⟩, ih⟩

/-- The problems are numbered by the tokens at which they show, and these numbers never decrease. -/
theorem exists_numbers (along : Along tokens problems) :
    ∃ numbers : List Nat, numbers.Pairwise (· ≤ ·) ∧
      List.Forall₂ (fun number problem => tokens[number]? = some problem.token ∧ problem.Fits)
        numbers problems := by
  induction along with
  | none => exact ⟨[], .nil, .nil⟩
  | pass _ ih =>
    obtain ⟨numbers, ordered, shown⟩ := ih
    refine ⟨numbers.map (· + 1), List.pairwise_map.mpr ?_, List.forall₂_map_left_iff.mpr shown⟩
    exact ordered.imp Nat.succ_le_succ
  | here fits _ ih =>
    obtain ⟨numbers, ordered, shown⟩ := ih
    exact ⟨0 :: numbers, .cons (fun number _ => Nat.zero_le number) ordered, .cons ⟨rfl, fits⟩ shown⟩

/-- Along tokens that come one behind the other, problems are in the order of the source. -/
theorem pairwise (along : Along tokens problems)
    (ordered : tokens.Pairwise fun a b => a.position < b.position) :
    problems.Pairwise fun a b => a.token.position ≤ b.token.position := by
  induction along with
  | none => exact .nil
  | pass _ ih => exact ih (List.pairwise_cons.mp ordered).2
  | here fits along ih =>
    apply List.pairwise_cons.mpr
    refine ⟨fun problem member => ?_, ih ordered⟩
    rcases List.mem_cons.mp (along.of_mem problem member).1 with same | later
    · rw [same]
      exact Position.le_refl _
    · exact Position.le_of_lt ((List.pairwise_cons.mp ordered).1 _ later)

end Along

/-! ## Readings -/

/-- The problems show along the tokens that were read, up to the one that comes next. -/
def Reading.Traced (reading : Reading α) (finish : Position) (unread : List Token) : Prop :=
  ∃ read, unread = read ++ reading.rest ∧
    Along (read ++ [lookahead finish reading.rest]) reading.raised

namespace Reading.Traced

variable {finish : Position} {unread rest : List Token}

/-- The token that comes next is the first one that is read, if any is. -/
theorem exists_lookahead_cons (finish : Position) (read rest : List Token) :
    ∃ others, read ++ [lookahead finish rest] = lookahead finish (read ++ rest) :: others := by
  cases read with
  | nil => exact ⟨[], rfl⟩
  | cons token read => exact ⟨read ++ [lookahead finish rest], rfl⟩

theorem append {one : Reading α} {two : Reading β} (first : one.Traced finish unread)
    (second : two.Traced finish one.rest) :
    (⟨two.value, one.raised ++ two.raised, two.rest⟩ : Reading β).Traced finish unread := by
  obtain ⟨front, sameFront, alongFront⟩ := first
  obtain ⟨back, sameBack, alongBack⟩ := second
  obtain ⟨others, next⟩ := exists_lookahead_cons finish back two.rest
  refine ⟨front ++ back, ?_, ?_⟩
  · rw [List.append_assoc, ← sameBack, ← sameFront]
  · dsimp only
    rw [next, ← sameBack] at alongBack
    rw [List.append_assoc, next, ← sameBack]
    exact alongFront.append alongBack

/-- The problems show along all the tokens and the end of the input. -/
theorem along {reading : Reading α} (traced : reading.Traced finish unread) :
    Along (unread ++ [Token.endOfInput finish]) reading.raised := by
  obtain ⟨read, same, along⟩ := traced
  obtain ⟨others, next⟩ := exists_lookahead_cons finish reading.rest []
  have whole : unread ++ [Token.endOfInput finish] = read ++ [lookahead finish reading.rest] ++ others := by
    rw [same, List.append_assoc, List.append_assoc]
    exact congrArg (read ++ ·) (by simpa using next)
  rw [whole]
  exact along.ahead others

/-- One more token in front. -/
theorem cons {reading : Reading α} (traced : reading.Traced finish unread) (token : Token) :
    reading.Traced finish (token :: unread) := by
  obtain ⟨read, same, along⟩ := traced
  exact ⟨token :: read, congrArg (token :: ·) same, .pass along⟩

theorem of_silent {value : α} (suffix : rest <:+ unread) :
    (⟨value, [], rest⟩ : Reading α).Traced finish unread := by
  obtain ⟨read, same⟩ := suffix
  exact ⟨read, same.symm, .none⟩

/-- A problem at the token that comes next, where nothing is read. -/
theorem of_next {value : α} {fault : Fault} (fits : (⟨fault, lookahead finish unread⟩ : Problem).Fits) :
    (⟨value, [⟨fault, lookahead finish unread⟩], unread⟩ : Reading α).Traced finish unread :=
  ⟨[], rfl, .here fits .none⟩

end Reading.Traced

/-- No fault of a single token has to show at the end of the input. -/
theorem Problem.fits_of_token {fault : Fault} (single : fault.isStructural = false) (token : Token) :
    (⟨fault, token⟩ : Problem).Fits := fun structural => by simp [single] at structural

theorem Problem.fits_at_end (fault : Fault) (finish : Position) :
    (⟨fault, Token.endOfInput finish⟩ : Problem).Fits := fun _ => .inl rfl

namespace Rule

/-- Whether the problems of the rule always show along the tokens that it reads. -/
def Traces (rule : Rule α) : Prop := ∀ finish unread, (rule.read finish unread).Traced finish unread

variable {rule : Rule α}

theorem pure_traces (value : α) : (pure value : Rule α).Traces :=
  fun _ _ => .of_silent (List.suffix_refl _)

theorem Traces.bind {next : α → Rule β} (first : rule.Traces) (behind : ∀ value, (next value).Traces) :
    (rule >>= next).Traces :=
  fun finish unread => (first finish unread).append (behind _ finish _)

theorem Traces.map (traces : rule.Traces) (f : α → β) : (do return f (← rule) : Rule β).Traces :=
  traces.bind fun value => pure_traces (f value)

theorem raise_traces {fault : Fault} (single : fault.isStructural = false) : (raise fault).Traces :=
  fun _ _ => .of_next (Problem.fits_of_token single _)

theorem eat_traces (wanted : Token → Bool) : (eat wanted).Traces := by
  intro finish unread
  cases unread with
  | nil => exact .of_silent (List.suffix_refl [])
  | cons token unread =>
    rw [read_eat_cons]
    split
    · exact .of_silent (List.suffix_cons token unread)
    · exact .of_silent (List.suffix_refl _)

theorem expect_traces (wanted : Token → Bool) {fault : Fault} (single : fault.isStructural = false) :
    (expect wanted fault).Traces := by
  refine (eat_traces wanted).bind ?_
  rintro (_ | _)
  · exact raise_traces single
  · exact pure_traces ()

theorem Picks.traces {kind : Token.Kind} {value : String → α} {none : α} {atEnd fault : Fault}
    (picks : rule.Picks kind value none atEnd fault) (single : fault.isStructural = false) :
    rule.Traces := by
  intro finish unread
  cases unread with
  | nil =>
    rw [picks.read_nil]
    exact .of_next (Problem.fits_at_end atEnd finish)
  | cons token unread =>
    rw [picks.read_cons]
    split
    · exact .of_silent (List.suffix_cons token unread)
    · exact .of_next (Problem.fits_of_token single token)

section Many

variable {stops : Token → Bool} {item : Token → Rule α}

/-- The problems of an item show from the token on with which it begins. -/
theorem many_traces
    (items : ∀ token finish unread, ((item token).read finish unread).Traced finish (token :: unread)) :
    (many stops item).Traces := by
  intro finish unread
  change (manyRead stops item finish unread).Traced finish unread
  fun_induction manyRead stops item finish unread with
  | case1 => exact .of_silent (List.suffix_refl [])
  | case2 => exact .of_silent (List.suffix_refl _)
  | case3 token unread _ one others ih => exact (items token finish unread).append ih

/-- Items are read up to a token that stops them, or to the end of the input. -/
theorem stops_head?_rest_many (stops : Token → Bool) (item : Token → Rule α) (finish : Position)
    (unread : List Token) :
    ∀ token ∈ ((many stops item).read finish unread).rest.head?, stops token = true := by
  change ∀ token ∈ (manyRead stops item finish unread).rest.head?, stops token = true
  fun_induction manyRead stops item finish unread with
  | case1 => simp
  | case2 token unread stop => simpa using stop
  | case3 => assumption

/-- A token that stops the items is only missing behind them at the end of the input. -/
theorem many_expect_traces
    (items : ∀ token finish unread, ((item token).read finish unread).Traced finish (token :: unread))
    (fault : Fault) (f : List α → β) :
    (do
      let values ← many stops item
      expect stops fault
      return f values : Rule β).Traces := by
  intro finish unread
  refine (many_traces items finish unread).append ?_
  have stop := stops_head?_rest_many stops item finish unread
  generalize ((many stops item).read finish unread).rest = rest at stop
  have closing : ((expect stops fault).read finish rest).Traced finish rest := by
    cases rest with
    | nil => exact .of_next (Problem.fits_at_end fault finish)
    | cons token rest =>
      rw [read_expect_cons, if_pos (stop token rfl)]
      exact .of_silent (List.suffix_cons token rest)
  exact closing.append (pure_traces _ finish _)

end Many

end Rule

/-! ## The rules of the grammar -/

theorem chain_traces {level : Level} {operand : Rule Expression} (operands : operand.Traces) :
    (chain level operand).Traces := by
  refine operands.bind fun left finish unread => ?_
  change (chainRead level operand finish left unread).Traced finish unread
  fun_induction chainRead level operand finish left unread with
  | case1 => exact .of_silent (List.suffix_refl [])
  | case2 => exact .of_silent (List.suffix_refl _)
  | case3 left token unread operator found right whole ih =>
    exact ((operands finish unread).append ih).cons token

theorem primary_traces : primary.Traces := primary_picks.traces rfl

theorem multiplicative_traces : multiplicative.Traces := chain_traces primary_traces

theorem additive_traces : additive.Traces := chain_traces multiplicative_traces

theorem parameter_traces : parameter.Traces := parameter_picks.traces rfl

theorem skipParameters_traces : skipParameters.Traces :=
  fun _ unread => .of_silent (skipList_suffix unread)

theorem lastParameter_traces : lastParameter.Traces := by
  refine parameter_traces.bind ?_
  rintro (name | _)
  · refine (Rule.eat_traces _).bind ?_
    rintro (_ | _)
    · exact (Rule.raise_traces rfl).bind fun _ => skipParameters_traces.bind fun _ => Rule.pure_traces _
    · exact Rule.pure_traces _
  · exact skipParameters_traces.bind fun _ => Rule.pure_traces _

theorem parameterList_traces : parameterList.Traces := by
  intro finish unread
  change (parameterListRead finish unread).Traced finish unread
  fun_induction parameterListRead finish unread with
  | case1 name comma unread _ others ih => exact (ih.cons comma).cons name
  | case2 => exact lastParameter_traces finish _
  | case3 => exact lastParameter_traces finish _
  | case4 => exact lastParameter_traces finish _

theorem parameterSection_traces : parameterSection.Traces := by
  refine (Rule.eat_traces _).bind ?_
  rintro (_ | _)
  · exact (Rule.raise_traces rfl).bind fun _ => Rule.pure_traces _
  · refine (Rule.eat_traces _).bind ?_
    rintro (_ | _)
    · exact parameterList_traces
    · exact Rule.pure_traces _

/-- A token with which no statement begins is blamed itself. -/
theorem statementAfter_traced {declaration : Token → Rule Statement}
    (declarations : ∀ opening, isWord "func" opening = true → ∀ finish unread,
      ((declaration opening).read finish unread).Traced finish (opening :: unread))
    (first : Token) (finish : Position) (unread : List Token) :
    ((statementAfter declaration first).read finish unread).Traced finish (first :: unread) := by
  unfold statementAfter
  split
  · exact (additive_traces.map _ finish unread).cons first
  · split
    next func => exact declarations first func finish unread
    next =>
      have single : (strayFault first).isStructural = false := by
        unfold strayFault
        split <;> rfl
      exact ⟨[first], rfl, .here (Problem.fits_of_token single first) .none⟩

/-- By induction on how deep declarations may be nested. -/
theorem declarationAfter_traced (nesting : Nat) (opening : Token) (func : isWord "func" opening = true)
    (finish : Position) (unread : List Token) :
    ((declarationAfter nesting opening).read finish unread).Traced finish (opening :: unread) := by
  induction nesting generalizing opening finish unread with
  | zero =>
    have fits : (⟨.nestedTooDeep, opening⟩ : Problem).Fits := fun _ => .inr ⟨rfl, func⟩
    exact ⟨[opening], rfl, .here fits .none⟩
  | succ nesting ih =>
    have name : functionName.Traces := functionName_picks.traces rfl
    have parts : (declarationAfter (nesting + 1) opening).Traces := by
      refine name.bind fun name => parameterSection_traces.bind fun parameters => ?_
      refine (Rule.expect_traces _ rfl).bind fun _ => ?_
      exact Rule.many_expect_traces (statementAfter_traced ih) .missingEndfunc _
    exact (parts finish unread).cons opening

theorem outerStatementAfter_traced (first : Token) (finish : Position) (unread : List Token) :
    ((outerStatementAfter first).read finish unread).Traced finish (first :: unread) :=
  statementAfter_traced (declarationAfter_traced maxNesting) first finish unread

theorem statement_traces : statement.Traces := by
  intro finish unread
  cases unread with
  | nil => exact .of_next (Problem.fits_at_end .endOfInput finish)
  | cons first unread => exact outerStatementAfter_traced first finish unread

theorem function_traces : function.Traces := by
  intro finish unread
  cases unread with
  | nil => exact .of_next (Problem.fits_at_end .expectedFunc finish)
  | cons opening unread =>
    by_cases func : isWord "func" opening = true
    · have traced := declarationAfter_traced maxNesting opening func finish unread
      simpa [function, func] using traced
    · have fits : (⟨.expectedFunc, opening⟩ : Problem).Fits := Problem.fits_of_token rfl opening
      have none : function.read finish (opening :: unread) =
          ⟨.unsupportedFunction, [⟨.expectedFunc, opening⟩], opening :: unread⟩ := by
        simp [function, func]
      rw [none]
      exact .of_next fits

theorem program_traces : program.Traces := (Rule.many_traces outerStatementAfter_traced).map _

end FuncLang.Grammar
