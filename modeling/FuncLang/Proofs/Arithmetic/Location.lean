import FuncLang.Proofs.Arithmetic.Calculator
import FuncLang.Proofs.Arithmetic.Part
import FuncLang.Proofs.Scanner.Placement

/-! # Where evaluating fails

A failure is at a token, and that token shows why there is no value. If it is not the one that is due,
then an expression may begin with the tokens in front of it, but none goes on with it. If it opens a
parenthesis, an operand is due and too many parentheses are open already. If it is a literal, no word
holds it. If it is an operator, both of its operands have values, and it has none for them.

The rules are followed from the outside in. A rule starts where its part is due, and hands on to the
rules of its operands that these are due behind what was read. So at the token of a failure it is known
what is due there.
-/

namespace FuncLang.Arithmetic

open Expression (Part Derives Begins Due Place)

/-! ## What a token shows -/

/-- In an expression that begins with the tokens `before`, the token is the operator, with the given
operands in front of it and behind it. -/
def Joins (limit : Nat) (before : List Token) (token : Token) (behind : List Token)
    (operator : Operator) (left right : Expression) : Prop :=
  ∃ available outer leftTokens rightTokens rest,
    before = outer ++ leftTokens ∧ behind = rightTokens ++ rest ∧
      Due limit available operator.level.chain outer ∧
      operator.level.chain.Derives available left leftTokens ∧
      token.is .operator operator.symbol = true ∧
      operator.level.operand.Derives available right rightTokens ∧ operator.level.operand.Ends rest

/-- What is expected may stand behind the tokens. -/
def Expectation.MayFollow (limit : Nat) (before : List Token) : Expectation → Prop
  | integer => ∀ token : Token, token.kind = .integer → Begins limit (before ++ [token])
  | closing => ∀ token : Token, token.is .punctuation ")" = true → Begins limit (before ++ [token])
  | endOfInput => ∃ value, Derives limit value before

/-- Behind the tokens `before`, the token shows the cause. -/
def Cause.ShownBy (limit : Nat) (before : List Token) (token : Token) (behind : List Token) :
    Cause → Prop
  | unexpectedToken expected found =>
    found = token.text ∧ expected.display ∈ ["integer literal", "')'", "end of input"] ∧
      expected.MayFollow limit before ∧ Begins limit before ∧
      (∀ limit, ¬ Begins limit (before ++ [token])) ∧
      (token.isEnd = true → ∀ limit value, ¬ Derives limit value before)
  | invalidInteger text =>
    text = token.text ∧ token.kind = .integer ∧ 2 ^ 63 - 1 < decimalValue token.text.toList
  | divisionByZero => ∃ left right, Joins limit before token behind .divide left right ∧
      left.InRange ∧ right.InRange ∧ right.exactValue = 0
  | overflow operator => ∃ left right, Joins limit before token behind operator left right ∧
      left.InRange ∧ right.InRange ∧ (operator = .divide → right.exactValue ≠ 0) ∧
      ¬ Fits (exact operator left.exactValue right.exactValue)
  | tooDeep =>
    token.is .punctuation "(" = true ∧ Expectation.integer.MayFollow limit before ∧
      before.countP (·.is .punctuation "(") = before.countP (·.is .punctuation ")") + limit

/-- The failure is at one of the tokens that follow, the end of the input included, and this token shows
its cause. -/
def Located (limit : Nat) (finish : Position) (before unread : List Token) (failure : Failure) : Prop :=
  ∃ read token behind, unread ++ [Token.endOfInput finish] = read ++ token :: behind ∧
    failure.position = token.position ∧ failure.cause.ShownBy limit (before ++ read) token behind

variable {limit available : Nat} {finish : Position} {before unread : List Token} {failure : Failure}
variable {level : Level} {token : Token} {operator : Operator}

theorem Located.behind (read : List Token)
    (located : Located limit finish (before ++ read) unread failure) :
    Located limit finish before (read ++ unread) failure := by
  obtain ⟨more, token, behind, same, position, shown⟩ := located
  refine ⟨read ++ more, token, behind, ?_, position, by rwa [← List.append_assoc]⟩
  rw [List.append_assoc, same, List.append_assoc]

/-- A failure at the token that comes next, whatever stands behind it. -/
theorem located_lookahead {cause : Cause}
    (shown : ∀ behind, cause.ShownBy limit before (lookahead finish unread) behind) :
    Located limit finish before unread ⟨cause, (lookahead finish unread).position⟩ := by
  cases unread with
  | nil => exact ⟨[], _, [], rfl, rfl, by simpa using shown []⟩
  | cons token rest => exact ⟨[], token, _, rfl, rfl, by simpa using shown _⟩

/-- A token that is not the one that is due. -/
theorem shownBy_of_refused {place : Place} {expected : Expectation} {behind : List Token}
    (may : expected.MayFollow limit before) (begins : Begins limit before)
    (reached : Place.start.behind before = some place) (refused : place.step token = none)
    (inside : token.isEnd = true → place ≠ ⟨0, false⟩) :
    (Cause.unexpectedToken expected token.text).ShownBy limit before token behind := by
  refine ⟨rfl, by cases expected <;> decide, may, begins, Place.not_begins reached refused,
    fun ended limit value derived => ?_⟩
  exact inside ended (Option.some.inj (reached.symm.trans (Place.behind_of_derives derived)))

/-- Where a factor is due, an integer literal may stand. -/
theorem mayFollow_integer (due : Due limit available .factor before) :
    Expectation.integer.MayFollow limit before :=
  fun _ integer => due.begins_append (Part.derives_literal integer .factor available)

/-! ## Chains -/

/-- An operation has no value if it divides by zero, and if no word holds its exact result. -/
theorem apply_eq_error {left right : Int64} {cause : Cause}
    (failed : apply operator left right = .error cause) :
    (operator = .divide ∧ cause = .divisionByZero ∧ right.toInt = 0) ∨
      (cause = .overflow operator ∧ (operator = .divide → right.toInt ≠ 0) ∧
        ¬ Fits (exact operator left.toInt right.toInt)) := by
  rw [apply_eq_checked, checked, inWord] at failed
  split at failed
  next divides => exact .inl ⟨divides.1, (Except.error.inj failed).symm, divides.2⟩
  next nonzero =>
    split at failed
    next => cases failed
    next out =>
      exact .inr ⟨(Except.error.inj failed).symm, fun divide none => nonzero ⟨divide, none⟩, out⟩

/-- The operands of an operator that a chain goes on with. -/
theorem Joins.of_found {left right : Expression} {leftTokens rightTokens rest : List Token}
    (due : Due limit available level.chain before)
    (leftDerived : level.chain.Derives available left leftTokens)
    (found : level.operator? token = some operator)
    (rightDerived : level.operand.Derives available right rightTokens)
    (ends : level.operand.Ends rest) :
    Joins limit (before ++ leftTokens) token (rightTokens ++ rest) operator left right := by
  obtain ⟨rfl, kind, text⟩ := Level.operator?_eq_some found
  exact ⟨available, before, leftTokens, rightTokens, rest, rfl, rfl, due, leftDerived,
    by simp [Token.is, kind, text], rightDerived, ends⟩

/-- The operator shows why an operation on the values of its operands has none. -/
theorem Joins.shownBy {behind : List Token} {left right : Expression} {first second : Int64}
    {cause : Cause} (joins : Joins limit before token behind operator left right)
    (leftOk : left.evaluate = .ok first) (rightOk : right.evaluate = .ok second)
    (failed : apply operator first second = .error cause) :
    cause.ShownBy limit before token behind := by
  obtain ⟨leftIn, leftValue⟩ := Expression.evaluate_eq_ok_iff.mp leftOk
  obtain ⟨rightIn, rightValue⟩ := Expression.evaluate_eq_ok_iff.mp rightOk
  have reason := apply_eq_error failed
  rw [← leftValue, ← rightValue] at reason
  rcases reason with ⟨rfl, rfl, zero⟩ | ⟨rfl, nonzero, out⟩
  · exact ⟨left, right, joins, leftIn, rightIn, zero⟩
  · exact ⟨left, right, joins, leftIn, rightIn, nonzero, out⟩

/-- Wherever the part is due, its rule fails only at tokens that show the cause. -/
def Locates (limit available : Nat) (part : Part) : Prop :=
  ∀ ⦃finish before unread failure⦄, Due limit available part before →
    ((part.rule available).read finish unread).result = .error failure →
      Located limit finish before unread failure

/-- The loop stands behind a chain that has the value it was handed. -/
theorem located_of_chainRead (operands : Locates limit available level.operand)
    (due : Due limit available level.chain before) (left : Int64) (unread : List Token) :
    ∀ {start tokens}, level.chain.Derives available start tokens → start.evaluate = .ok left →
      (chainRead level (level.operand.rule available) finish left unread).result = .error failure →
      Located limit finish (before ++ tokens) unread failure := by
  fun_induction chainRead level (level.operand.rule available) finish left unread with
  | case1 =>
    intro _ _ _ _ failed
    cases failed
  | case2 =>
    intro _ _ _ _ failed
    cases failed
  | case3 left token unread operator found right inner =>
    rename_i failedInner
    intro start tokens derived _ failed
    obtain rfl := Except.error.inj failed
    exact (operands (due.next derived found) failedInner).behind [token]
  | case4 left token unread operator found right second evaluated cause =>
    rename_i failedApply
    intro start tokens derived startOk failed
    obtain rfl := Except.error.inj failed
    obtain ⟨value, read, same, derivedRight, valueOk⟩ := level.operand.exists_derives evaluated
    have ends := (level.operand.ends_rest evaluated).append_endOfInput finish
    -- Both operands are read already when the operator is applied, so the failure is in front of `unread`.
    refine ⟨[], token, read ++ (right.rest ++ [Token.endOfInput finish]), ?_, rfl, ?_⟩
    · rw [List.nil_append, List.cons_append, ← List.append_assoc, ← same]
    · rw [List.append_nil]
      exact (Joins.of_found due derived found derivedRight ends).shownBy startOk valueOk failedApply
  | case5 left token unread operator found right second evaluated result applied =>
    rename_i ih
    intro start tokens derived startOk failed
    obtain ⟨value, read, same, derivedRight, valueOk⟩ := level.operand.exists_derives evaluated
    have whole : level.chain.Derives available (.binary operator start value)
        (tokens ++ token :: read) := by
      rw [level.derives_chain] at derived ⊢
      exact .more derived found derivedRight
    have located := ih whole
      (Expression.evaluate_binary_eq_ok_iff.mpr ⟨left, second, startOk, valueOk, applied⟩) failed
    rw [← List.append_assoc] at located
    rw [same]
    exact located.behind (token :: read)

theorem locates_chain (operands : Locates limit available level.operand) :
    Locates limit available level.chain := by
  intro finish before unread failure due failed
  rw [level.rule_chain] at failed
  unfold chain at failed
  dsimp only at failed
  split at failed
  next inner failedInner =>
    obtain rfl := Except.error.inj failed
    exact operands due.first failedInner
  next first firstOk =>
    obtain ⟨value, read, same, derived, valueOk⟩ := level.operand.exists_derives firstOk
    have single : level.chain.Derives available value read := by
      rw [level.derives_chain]
      exact .single derived
    rw [same]
    exact (located_of_chainRead operands due first _ single valueOk failed).behind read

/-! ## Factors and groups -/

/-- Behind a value stands neither an operator nor a closing parenthesis that is due. -/
theorem step_eq_none {opened : Nat} {rest : List Token} (ends : Part.expression.Ends rest)
    (other : (lookahead finish rest).is .punctuation ")" = true → opened = 0) :
    Place.step ⟨opened, false⟩ (lookahead finish rest) = none := by
  have noOperator {level : Level} (ends : level.Ends rest) :
      level.operator? (lookahead finish rest) = none := by
    cases rest with
    | nil => cases level <;> rfl
    | cons token rest => exact Level.ends_cons.mp ends
  simp only [Place.step, noOperator ends.1, noOperator ends.2, Option.isSome_none, Bool.false_eq_true,
    or_self, if_false]
  exact if_neg fun closes => absurd (other closes.1) (Nat.ne_of_gt closes.2)

theorem thenExpect_eq_error {computation : Computation} {wanted : Token → Bool} {expected : Expectation}
    (failed : (computation.thenExpect wanted expected finish).result = .error failure) :
    computation.result = .error failure ∨ ∃ word, computation.result = .ok word ∧
      failure = .unexpected expected (lookahead finish computation.rest) ∧
      ∀ token ∈ computation.rest.head?, wanted token = false := by
  unfold Computation.thenExpect at failed
  split at failed
  next inner failedInner => exact .inl (failedInner.trans failed)
  next word done =>
    refine .inr ⟨word, done, ?_⟩
    split at failed
    next nothing =>
      rw [nothing]
      exact ⟨(Except.error.inj failed).symm, by simp⟩
    next token rest left =>
      rw [left]
      split at failed
      next => cases failed
      next other =>
        exact ⟨(Except.error.inj failed).symm, by simpa using other⟩

/-- A literal has no value only if it is too large. -/
theorem literal_eq_error (failed : literal token = .error failure) :
    failure = ⟨.invalidInteger token.text, token.position⟩ ∧
      2 ^ 63 - 1 < decimalValue token.text.toList := by
  rw [literal, digitsValue_eq_inWord, inWord] at failed
  split at failed
  next => cases failed
  next out =>
    refine ⟨(Except.error.inj failed).symm, ?_⟩
    by_contra small
    exact out ⟨by omega, by omega⟩

/-- Wherever a factor is due, the rule for groups fails only at tokens that show the cause. -/
def LocatesGroups (limit available : Nat) : Prop :=
  ∀ ⦃finish before token unread failure⦄, Due limit available .factor before →
    token.is .punctuation "(" = true →
    ((group available).read finish (token :: unread)).result = .error failure →
      Located limit finish before (token :: unread) failure

/-- A factor fails at its first token, unless that opens a parenthesis. -/
theorem locates_factor (groups : LocatesGroups limit available) : Locates limit available .factor := by
  intro finish before unread failure due failed
  have refusedHere {token : Token} {behind : List Token}
      (notOpening : token.is .punctuation "(" = false) (notInteger : token.kind ≠ .integer) :
      (Cause.unexpectedToken .integer token.text).ShownBy limit before token behind :=
    shownBy_of_refused (mayFollow_integer due) due.begins due.behind_eq.2
      (by simp [Place.step, notOpening, notInteger]) (by simp)
  cases unread with
  | nil =>
    obtain rfl := Except.error.inj failed
    exact located_lookahead fun _ => refusedHere rfl (by simp [Token.endOfInput])
  | cons token unread =>
    simp only [Part.rule, factorOver] at failed
    split at failed
    next opens => exact groups due opens failed
    next other =>
      split at failed
      next integer =>
        dsimp only at failed
        obtain ⟨rfl, tooLarge⟩ := literal_eq_error failed
        exact ⟨[], token, _, rfl, rfl, rfl, integer, tooLarge⟩
      next notInteger =>
        obtain rfl := Except.error.inj failed
        exact located_lookahead fun _ => refusedHere (Bool.eq_false_iff.mpr other) notInteger

theorem locates_expression (groups : LocatesGroups limit available) :
    Locates limit available .expression :=
  @locates_chain _ _ .sum (@locates_chain _ _ .product (locates_factor groups))

/-- Where the closing parenthesis is missing, it is due, and nothing else that stands there is. -/
theorem located_of_unclosed {value : Expression} {tokens rest : List Token}
    (due : Due limit (available + 1) .factor before) (opens : token.is .punctuation "(" = true)
    (derived : Part.expression.Derives available value tokens) (ends : Part.expression.Ends rest)
    (other : ∀ token ∈ rest.head?, token.is .punctuation ")" = false) (finish : Position) :
    Located limit finish (before ++ token :: tokens) rest
      (.unexpected .closing (lookahead finish rest)) := by
  have inside := due.inside opens
  have someOpen : limit - available ≠ 0 := Nat.sub_ne_zero_of_lt due.behind_eq.1
  have notClosing : (lookahead finish rest).is .punctuation ")" = false := by
    cases rest with
    | nil => rfl
    | cons token rest => exact other token rfl
  have split : before ++ token :: tokens = before ++ [token] ++ tokens := by simp
  refine located_lookahead fun _ => ?_
  rw [split]
  refine shownBy_of_refused (fun closing closes => ?_) (inside.begins_append derived)
    (inside.behind_append_eq derived) (step_eq_none ends fun closes => ?_) fun _ same => ?_
  · have group : Part.factor.Derives (available + 1) value (token :: (tokens ++ [closing])) :=
      .group ⟨token, tokens, closing, rfl, opens, closes, derived⟩
    simpa using due.begins_append group
  · rw [notClosing] at closes
    cases closes
  · exact someOpen (congrArg Place.opened same)

/-- By induction on how many parentheses may still be opened. With none left to open, as many are open
as may be. -/
theorem locatesGroups (limit available : Nat) : LocatesGroups limit available := by
  induction available with
  | zero =>
    intro finish before token unread failure due opens failed
    obtain rfl := Except.error.inj failed
    have opened := Place.opened_behind due.behind_eq.2
    refine located_lookahead fun _ => ⟨opens, mayFollow_integer due, ?_⟩
    simpa [Place.start, Nat.add_comm] using opened
  | succ available ih =>
    intro finish before token unread failure due opens failed
    rcases thenExpect_eq_error failed with failedInner | ⟨word, done, rfl, other⟩
    · exact (locates_expression ih (due.inside opens) failedInner).behind [token]
    · obtain ⟨value, tokens, same, derived, -⟩ := Part.expression.exists_derives done
      have ends := Part.expression.ends_rest done
      have located := (located_of_unclosed due opens derived ends other finish).behind (token :: tokens)
      rwa [List.cons_append, ← same] at located

/-! ## Whole sources -/

/-- Behind an expression, where the input should end. -/
theorem located_of_surplus {value : Expression} {tokens rest : List Token}
    (derived : Derives limit value tokens) (ends : Part.expression.Ends rest)
    (notEnd : (lookahead finish rest).isEnd = false) :
    Located limit finish tokens rest (.unexpected .endOfInput (lookahead finish rest)) := by
  refine located_lookahead fun _ => ?_
  refine shownBy_of_refused ⟨value, derived⟩ ⟨value, [], by rwa [List.append_nil]⟩
    (Place.behind_of_derives derived) (step_eq_none ends fun _ => rfl) fun ended => ?_
  exact absurd ended (Bool.eq_false_iff.mp notEnd)

/-- Evaluating a source fails only at tokens that show why. -/
theorem located_of_evaluate {source : String} (failed : evaluate source = .error failure) :
    Located maxParentheses (Unread.ofSource source).finish [] (sentence source) failure := by
  have locates := locates_expression (locatesGroups maxParentheses maxParentheses)
  rw [evaluate_eq] at failed
  split at failed
  next word token rest done left =>
    obtain rfl := Except.error.inj failed
    obtain ⟨value, tokens, same, derived, -⟩ := Part.expression.exists_derives done
    have ends := Part.expression.ends_rest done
    change sentence source = tokens ++ (computation source).rest at same
    change Part.expression.Ends (computation source).rest at ends
    have member : token ∈ sentence source := by
      rw [same, left]
      simp
    have kept := (List.mem_filter.mp member).2
    rw [Bool.and_eq_true, Bool.not_eq_true'] at kept
    -- The value is that of the tokens in front of the one that is too much.
    rw [same, left]
    rw [left] at ends
    exact Located.behind tokens (located_of_surplus derived ends kept.2)
  next => exact locates .start failed

/-- A source that has no value fails at one of its tokens, the end of the input included, and where words
are enough for positions no other token is there. This token, with what stands in front of it and behind
it, shows the cause. A calculator that checks the operators it reads fails in the same way, and none of
its checks ever stops it, whatever it is asked for. -/
theorem evaluate_fails_at_shown_token {source : String} {failure : Failure}
    (failed : evaluate source = .error failure) :
    (∃ before token behind, significant (tokenize source) = before ++ token :: behind ∧
      failure.position = token.position ∧
      (CountsInWords source →
        ∀ other ∈ tokenize source, other.position = failure.position → other = token) ∧
      failure.cause.ShownBy 256 before token behind) ∧
    ((Calculator.ofSource source).perform .evaluate).1 = .error (.failure failure) ∧
    ∀ past request, ∃ result : Except Failure Int64,
      (((Calculator.ofSource source).after past).perform request).1 = result.mapError .failure := by
  refine ⟨?_, ?_, fun past request => ?_⟩
  · obtain ⟨before, token, behind, same, position, shown⟩ := located_of_evaluate failed
    rw [← significant_tokenize_eq] at same
    refine ⟨before, token, behind, same, position, fun counted other found equal => ?_, shown⟩
    have member : token ∈ significant (tokenize source) := by
      rw [same]
      simp
    exact List.inj_on_of_nodup_map (nodup_position_tokenize counted) found (List.mem_filter.mp member).1
      (equal.trans position)
  · have result : ((Calculator.ofSource source).perform .evaluate).1 =
        (evaluate source).mapError .failure :=
      congrArg Prod.fst (Calculator.perform_new (.ofSource source) .evaluate)
    rw [result, failed]
    rfl
  · obtain ⟨tokens, same, -⟩ := Calculator.exists_after_new (.ofSource source) past
    refine ⟨(request.rule.run ⟨tokens, (Unread.ofSource source).finish⟩).1, ?_⟩
    rw [Calculator.ofSource, same, Calculator.perform_new]

/-- The division fails before the factor is missed that is due at the end. -/
theorem fails_at_division_before_missing_factor :
    evaluate "1 + 2 / (4 - 4) * )" = .error ⟨.divisionByZero, ⟨1, 7⟩⟩ ∧
      ∃ token ∈ tokenize "1 + 2 / (4 - 4) * )",
        token.position = ⟨1, 7⟩ ∧ token.is .operator "/" = true := by
  have failed : evaluate "1 + 2 / (4 - 4) * )" = .error ⟨.divisionByZero, ⟨1, 7⟩⟩ := by decide +kernel
  obtain ⟨⟨before, token, behind, same, position, -, left, right, joins, -⟩, -⟩ :=
    evaluate_fails_at_shown_token failed
  obtain ⟨available, outer, leftTokens, rightTokens, rest, -, -, -, -, isDivision, -⟩ := joins
  have member : token ∈ significant (tokenize "1 + 2 / (4 - 4) * )") := by
    rw [same]
    simp
  exact ⟨failed, token, (List.mem_filter.mp member).1, position.symm, isDivision⟩

end FuncLang.Arithmetic
