import FuncLang.Proofs.Arithmetic.Value
import FuncLang.Proofs.Scanner.Sentence

/-! # Evaluation of derived expressions

The rules of arithmetic compute while they read, and never build the expression that they read. What
they compute from tokens that spell an expression is nevertheless the value of that expression, or
the first cause for which it has none; and when they give a value, the tokens that they read spell an
expression with that value.
-/

namespace FuncLang.Arithmetic

open Expression (Chained Factor DerivesGroup DerivesFactor DerivesTerm Derives)

/-! ## Computations -/

/-- The computation gives the value of the expression and leaves `rest`, or fails for the cause for
which the expression has no value. -/
def Computation.Computes (computation : Computation) (value : Expression) (rest : List Token) :
    Prop :=
  computation.result.mapError Failure.cause = value.evaluate ∧
    ∀ word, computation.result = .ok word → computation.rest = rest

/-- The rule computes the values of the derived expressions, provided that what follows them is none
of its business. Only tokens that begin in a certain way are its business at all. -/
structure Rule.Evaluates (rule : Rule) (Derived : Expression → List Token → Prop)
    (Begins Follow : List Token → Prop) : Prop where
  sound : ∀ {finish : Position} {unread : List Token} {word : Int64}, Begins unread →
    (rule.read finish unread).result = .ok word →
      ∃ value tokens, unread = tokens ++ (rule.read finish unread).rest ∧ Derived value tokens ∧
        value.evaluate = .ok word
  complete : ∀ {value : Expression} {tokens : List Token}, Derived value tokens →
    ∀ (finish : Position) (rest : List Token), Follow rest →
      (rule.read finish (tokens ++ rest)).Computes value rest

@[simp] theorem mapError_ok (word : Int64) :
    (Except.ok word).mapError Failure.cause = .ok word := rfl

@[simp] theorem mapError_error (failure : Failure) :
    (Except.error failure : Except Failure Int64).mapError Failure.cause = .error failure.cause := rfl

theorem mapError_eq_ok {result : Except Failure Int64} {word : Int64} :
    result.mapError Failure.cause = .ok word ↔ result = .ok word := by
  cases result <;> simp

theorem mapError_eq_error {result : Except Failure Int64} {cause : Cause} :
    result.mapError Failure.cause = .error cause ↔
      ∃ failure, result = .error failure ∧ failure.cause = cause := by
  cases result <;> simp

theorem Computation.Computes.of_ok {computation : Computation} {value : Expression}
    {rest : List Token} {word : Int64} (computes : computation.Computes value rest)
    (evaluated : value.evaluate = .ok word) : computation = ⟨.ok word, rest⟩ := by
  have same : computation.result = .ok word := mapError_eq_ok.mp (computes.1.trans evaluated)
  rw [← same, ← computes.2 word same]

theorem Computation.Computes.of_error {computation : Computation} {value : Expression}
    {rest : List Token} {cause : Cause} (computes : computation.Computes value rest)
    (evaluated : value.evaluate = .error cause) :
    ∃ failure, computation.result = .error failure ∧ failure.cause = cause :=
  mapError_eq_error.mp (computes.1.trans evaluated)

theorem computes_of_error {failure : Failure} {value : Expression} {left rest : List Token}
    (evaluated : value.evaluate = .error failure.cause) :
    (⟨.error failure, left⟩ : Computation).Computes value rest :=
  ⟨evaluated.symm, fun _ impossible => by cases impossible⟩

theorem computes_of_ok {word : Int64} {value : Expression} {rest : List Token}
    (evaluated : value.evaluate = .ok word) :
    (⟨.ok word, rest⟩ : Computation).Computes value rest :=
  ⟨evaluated.symm, fun _ _ => rfl⟩

theorem mapError_literal (token : Token) :
    (literal token).mapError Failure.cause = digitsValue token.text := by
  unfold literal
  cases digitsValue token.text <;> rfl

/-! ## Chains -/

variable {level : Level} {operand : Rule} {Operand : Expression → List Token → Prop}
variable {Follow : List Token → Prop}

theorem chainRead_of_ends {rest : List Token} (ends : level.Ends rest) (operand : Rule)
    (finish : Position) (left : Int64) :
    chainRead level operand finish left rest = ⟨.ok left, rest⟩ := by
  cases rest with
  | nil => simp [chainRead]
  | cons token rest => simp [chainRead, Level.ends_cons.mp ends]

/-- The loop continues the chain whose value it was handed. -/
theorem chainRead_sound (evaluates : operand.Evaluates Operand (fun _ => True) Follow)
    (finish : Position) (left : Int64) (unread : List Token) :
    ∀ {start before word}, Chained level Operand start before → start.evaluate = .ok left →
      (chainRead level operand finish left unread).result = .ok word →
      ∃ value tokens, unread = tokens ++ (chainRead level operand finish left unread).rest ∧
        Chained level Operand value (before ++ tokens) ∧ value.evaluate = .ok word := by
  fun_induction chainRead level operand finish left unread with
  | case1 left =>
    intro start before word chained evaluated done
    obtain rfl : left = word := Except.ok.inj done
    exact ⟨start, [], rfl, by simpa using chained, evaluated⟩
  | case2 left token unread none =>
    intro start before word chained evaluated done
    obtain rfl : left = word := Except.ok.inj done
    exact ⟨start, [], rfl, by simpa using chained, evaluated⟩
  | case3 =>
    intro start before word _ _ done
    cases done
  | case4 =>
    intro start before word _ _ done
    cases done
  | case5 left token unread operator found right second evaluatedRight result applied =>
    rename_i ih
    intro start before word chained evaluated done
    obtain ⟨next, read, same, derived, nextValue⟩ := evaluates.sound trivial evaluatedRight
    have whole : (Expression.binary operator start next).evaluate = .ok result :=
      Expression.evaluate_binary_eq_ok_iff.mpr ⟨left, second, evaluated, nextValue, applied⟩
    obtain ⟨value, behind, sameBehind, chainedAll, valueAll⟩ :=
      ih (chained.more found derived) whole done
    refine ⟨value, token :: (read ++ behind), ?_, by simpa using chainedAll, valueAll⟩
    rw [same, List.cons_append, List.append_assoc, ← sameBehind]

/-- Behind the tokens of a chain the loop goes on with the value of what they spell, if it has one. -/
theorem read_chain_of_chained (evaluates : operand.Evaluates Operand (fun _ => True) Follow)
    (follow : ∀ {token operator} rest, level.operator? token = some operator →
      Follow (token :: rest))
    {value : Expression} {tokens : List Token} (chained : Chained level Operand value tokens)
    (finish : Position) (rest : List Token) (follows : Follow rest) :
    (∀ word, value.evaluate = .ok word → (chain level operand).read finish (tokens ++ rest) =
      chainRead level operand finish word rest) ∧
    (∀ cause, value.evaluate = .error cause → ∃ failure,
      ((chain level operand).read finish (tokens ++ rest)).result = .error failure ∧
        failure.cause = cause) := by
  induction chained generalizing rest with
  | @single value tokens derived =>
    have computes := evaluates.complete derived finish rest follows
    constructor
    · intro word evaluated
      simp [chain, computes.of_ok evaluated]
    · intro cause evaluated
      obtain ⟨failure, failed, same⟩ := computes.of_error evaluated
      exact ⟨failure, by simp [chain, failed], same⟩
  | @more left right before after token operator start found derived ih =>
    have computes := evaluates.complete derived finish rest follows
    obtain ⟨ok, error⟩ := ih (token :: (after ++ rest)) (follow _ found)
    rw [List.append_assoc, List.cons_append]
    constructor
    · intro word evaluated
      obtain ⟨first, second, leftOk, rightOk, applied⟩ :=
        Expression.evaluate_binary_eq_ok_iff.mp evaluated
      rw [ok first leftOk]
      simp [chainRead, found, computes.of_ok rightOk, applied]
    · intro cause evaluated
      rcases Expression.evaluate_binary_eq_error_iff.mp evaluated with
        leftError | ⟨first, leftOk, rightError | ⟨second, rightOk, applied⟩⟩
      · exact error cause leftError
      · obtain ⟨failure, failed, same⟩ := computes.of_error rightError
        rw [ok first leftOk]
        exact ⟨failure, by simp [chainRead, found, failed], same⟩
      · rw [ok first leftOk]
        exact ⟨⟨cause, token.position⟩, by simp [chainRead, found, computes.of_ok rightOk, applied],
          rfl⟩

theorem chain_evaluates (evaluates : operand.Evaluates Operand (fun _ => True) Follow)
    (follow : ∀ {token operator} rest, level.operator? token = some operator →
      Follow (token :: rest)) :
    (chain level operand).Evaluates (Chained level Operand) (fun _ => True)
      (fun rest => Follow rest ∧ level.Ends rest) where
  sound {finish unread word} _ done := by
    unfold chain at done ⊢
    dsimp only at done ⊢
    split at done
    next => cases done
    next first firstOk =>
      obtain ⟨start, read, same, derived, startValue⟩ := evaluates.sound trivial firstOk
      obtain ⟨value, behind, sameBehind, chained, valueAll⟩ :=
        chainRead_sound evaluates finish first _ (.single derived) startValue done
      refine ⟨value, read ++ behind, ?_, chained, valueAll⟩
      rw [List.append_assoc, ← sameBehind]
      exact same
  complete {value tokens} chained finish rest follows := by
    obtain ⟨ok, error⟩ := read_chain_of_chained evaluates follow chained finish rest follows.1
    cases evaluated : value.evaluate with
    | ok word =>
      rw [ok word evaluated, chainRead_of_ends follows.2 operand]
      exact computes_of_ok evaluated
    | error cause =>
      obtain ⟨failure, failed, rfl⟩ := error cause evaluated
      refine ⟨?_, fun word done => by cases failed.symm.trans done⟩
      rw [failed, evaluated]
      rfl

/-! ## Groups -/

variable {group : Rule} {Group : Expression → List Token → Prop}

/-- Whether an opening parenthesis comes next. -/
def Opens (unread : List Token) : Prop := ∃ token ∈ unread.head?, token.is .punctuation "(" = true

/-- A factor is a group where a parenthesis opens, and a literal elsewhere. -/
theorem factorOver_evaluates (groups : group.Evaluates Group Opens (fun _ => True))
    (opens : ∀ {value tokens}, Group value tokens → Opens tokens) :
    (factorOver group).Evaluates (Factor Group) (fun _ => True) (fun _ => True) where
  sound {finish unread word} _ done := by
    cases unread with
    | nil => cases done
    | cons token unread =>
      simp only [factorOver] at done ⊢
      split at done
      next opening =>
        rw [if_pos opening]
        obtain ⟨value, tokens, same, derived, evaluated⟩ :=
          groups.sound ⟨token, rfl, opening⟩ done
        exact ⟨value, tokens, same, .group derived, evaluated⟩
      next other =>
        rw [if_neg other]
        split at done
        next integer =>
          rw [if_pos integer]
          dsimp only at done
          rw [← mapError_eq_ok, mapError_literal] at done
          exact ⟨.literal token.text, [token], rfl, .literal integer, by rwa [Expression.evaluate_literal]⟩
        next => cases done
  complete := by
    intro value tokens derived finish rest _
    cases derived with
    | @literal token integer =>
      have other : token.is .punctuation "(" = false := by simp [Token.is, integer]
      simp only [factorOver, List.singleton_append, other, Bool.false_eq_true, if_false, integer,
        if_true]
      refine ⟨?_, fun _ _ => rfl⟩
      rw [mapError_literal, Expression.evaluate_literal]
    | group derived =>
      have computes := groups.complete derived finish rest trivial
      obtain ⟨token, next, opening⟩ := opens derived
      obtain ⟨behind, rfl⟩ : ∃ behind, tokens = token :: behind := by
        cases tokens with
        | nil => simp at next
        | cons first behind => exact ⟨behind, by simpa using next⟩
      rw [List.cons_append] at computes ⊢
      simpa only [factorOver, opening, if_true] using computes

theorem expressionOver_evaluates (groups : group.Evaluates Group Opens (fun _ => True))
    (opens : ∀ {value tokens}, Group value tokens → Opens tokens) :
    (expressionOver group).Evaluates (Chained .sum (Chained .product (Factor Group)))
      (fun _ => True) (fun rest => (True ∧ Level.product.Ends rest) ∧ Level.sum.Ends rest) :=
  chain_evaluates (chain_evaluates (factorOver_evaluates groups opens) fun _ _ => trivial)
    fun _ found => ⟨trivial, Level.ends_cons.mpr (Level.operator?_eq_none_of_ne found (by decide))⟩

theorem opens_of_derivesGroup {available : Nat} {value : Expression} {tokens : List Token}
    (derived : DerivesGroup available value tokens) : Opens tokens := by
  cases available with
  | zero => exact derived.elim
  | succ available =>
    obtain ⟨opening, inner, closing, rfl, opens, -⟩ := derived
    exact ⟨opening, rfl, opens⟩

section Expectations

variable {computation : Computation} {wanted : Token → Bool} {expected : Expectation}

/-- A value is accepted when a wanted token comes behind it. -/
theorem thenExpect_eq_ok {finish : Position} {word : Int64}
    (done : (computation.thenExpect wanted expected finish).result = .ok word) :
    ∃ token, computation.result = .ok word ∧ wanted token = true ∧
      computation.rest = token :: (computation.thenExpect wanted expected finish).rest := by
  unfold Computation.thenExpect at done ⊢
  split at done
  next => cases done
  next value held =>
    rw [held]
    split at done
    next => cases done
    next token unread left =>
      split at done
      next found => exact ⟨token, done, found, by simp [left, found]⟩
      next => cases done

theorem thenExpect_computes {value : Expression} {token : Token} {rest : List Token}
    (computes : computation.Computes value (token :: rest)) (found : wanted token = true)
    (expected : Expectation) (finish : Position) :
    (computation.thenExpect wanted expected finish).Computes value rest := by
  cases evaluated : value.evaluate with
  | ok word =>
    simp only [computes.of_ok evaluated, Computation.thenExpect, found, if_true]
    exact computes_of_ok evaluated
  | error cause =>
    obtain ⟨failure, failed, rfl⟩ := computes.of_error evaluated
    simp only [Computation.thenExpect, failed]
    exact computes_of_error evaluated

end Expectations

/-- By induction on how many parentheses may still be opened. -/
theorem group_evaluates (available : Nat) :
    (Arithmetic.group available).Evaluates (DerivesGroup available) Opens (fun _ => True) := by
  induction available with
  | zero =>
    refine ⟨fun _ done => ?_, fun derived _ _ _ => False.elim derived⟩
    cases done
  | succ available ih =>
    have inside := expressionOver_evaluates ih opens_of_derivesGroup
    refine ⟨fun {finish unread word} opening done => ?_, fun {value tokens} derived finish rest _ => ?_⟩
    · obtain ⟨opening, next, opens⟩ := opening
      cases unread with
      | nil => simp at next
      | cons token unread =>
        obtain rfl : token = opening := by simpa using next
        obtain ⟨closing, held, closes, left⟩ := thenExpect_eq_ok done
        obtain ⟨value, inner, same, derived, evaluated⟩ := inside.sound trivial held
        refine ⟨value, token :: (inner ++ [closing]), ?_, ⟨token, inner, closing, rfl, opens, closes,
          derived⟩, evaluated⟩
        rw [List.cons_append, List.append_assoc, List.singleton_append]
        exact congrArg (token :: ·) (same.trans (congrArg (inner ++ ·) left))
    · obtain ⟨opening, inner, closing, rfl, opens, closes, derived⟩ := derived
      have noOperator (level : Level) : level.Ends (closing :: rest) := by
        refine Level.ends_cons.mpr (Option.eq_none_iff_forall_not_mem.mpr fun operator found => ?_)
        have kind := (Level.operator?_eq_some found).2.1
        simp [Token.is, kind] at closes
      have computes := inside.complete derived finish (closing :: rest)
        ⟨⟨trivial, noOperator _⟩, noOperator _⟩
      have same : (opening :: (inner ++ [closing]) ++ rest).tail = inner ++ closing :: rest := by simp
      simp only [Arithmetic.group, parenthesized, same]
      exact thenExpect_computes computes closes _ _

/-- The rule for expressions computes the values of the expressions in which no more parentheses are
open at once than may be. -/
theorem expression_evaluates :
    Arithmetic.expression.Evaluates (Derives maxParentheses) (fun _ => True)
      (fun rest => (True ∧ Level.product.Ends rest) ∧ Level.sum.Ends rest) :=
  expressionOver_evaluates (group_evaluates maxParentheses) opens_of_derivesGroup

/-! ## Whole sources -/

/-- What the rule for expressions makes of a source. -/
def computation (source : String) : Computation :=
  Arithmetic.expression.read (Unread.ofSource source).finish (sentence source)

/-- A value behind which a token comes is refused. -/
theorem evaluate_eq (source : String) :
    evaluate source =
      match (computation source).result, (computation source).rest with
      | .ok _, token :: _ => .error (.unexpected .endOfInput token)
      | result, _ => result := by
  rw [computation, ← Unread.tokens_ofSource]
  simp only [evaluate, Rule.run, whole]
  split <;> simp_all

/-- What a source evaluates to if its sentence spells an expression: its value, or the cause for
which it has none. -/
theorem mapError_evaluate_of_derives {source : String} {value : Expression}
    (derived : value.Derives maxParentheses (sentence source)) :
    (evaluate source).mapError Failure.cause = value.evaluate := by
  have computes : (computation source).Computes value [] := by
    have read := expression_evaluates.complete derived (Unread.ofSource source).finish []
      ⟨⟨trivial, Level.ends_nil _⟩, Level.ends_nil _⟩
    rwa [List.append_nil] at read
  rw [evaluate_eq, ← computes.1]
  cases done : (computation source).result with
  | ok word => simp [computes.2 word done]
  | error failure => simp

/-- When a source has a value, its sentence spells an expression that has it. -/
theorem exists_derives_of_evaluate {source : String} {word : Int64}
    (done : evaluate source = .ok word) :
    ∃ value : Expression, value.Derives maxParentheses (sentence source) ∧
      value.evaluate = .ok word := by
  rw [evaluate_eq] at done
  split at done
  next => cases done
  next result rest ended =>
    obtain ⟨value, tokens, same, derived, evaluated⟩ := expression_evaluates.sound trivial done
    -- The value is the last thing in the source, so nothing is left behind it.
    have nothing : (computation source).rest = [] := by
      cases left : (computation source).rest with
      | nil => rfl
      | cons token rest => exact (ended _ token rest done left).elim
    change sentence source = tokens ++ (computation source).rest at same
    rw [nothing, List.append_nil] at same
    exact ⟨value, same ▸ derived, evaluated⟩

end FuncLang.Arithmetic
