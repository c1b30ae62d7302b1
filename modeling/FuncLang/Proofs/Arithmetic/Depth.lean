import FuncLang.Arithmetic.Rule

/-! # Open parentheses

How many parentheses may be opened can be kept in two ways, as with declarations. The rules of
arithmetic are told how many more may be opened. Instead, the parentheses that are open can be counted
while an expression is read: one more behind an opening parenthesis, and one less when the expression
inside has a value or has failed, before the closing parenthesis is looked for or the failure is passed
on.

Moreover, an operator can be checked more often than the rules do it: its kind when it is read, although
only operators come that far, and its symbol when it is applied.

Both ways agree. However deep the parentheses are in which a failure arises, the count is the same as
before once the failure is out, and no operator ever fails its checks.
-/

namespace FuncLang.Arithmetic

/-- Why nothing is computed when operators are checked. -/
inductive Stop where
  | failure (failure : Failure)
  /-- An operator that does not pass a check. -/
  | mismatch (expected : String) (found : Token)
deriving DecidableEq, Repr

/-- The operator that is written so. -/
def operatorOfText? : String → Option Operator
  | "+" => some .add
  | "-" => some .subtract
  | "*" => some .multiply
  | "/" => some .divide
  | _ => none

theorem operatorOfText?_symbol (operator : Operator) :
    operatorOfText? operator.symbol = some operator := by
  cases operator <;> rfl

/-- What is computed from unread tokens while open parentheses are counted. -/
structure Counted (unread : List Token) where
  result : Except Stop Int64
  rest : List Token
  /-- How many parentheses are open behind what was read. -/
  opened : Nat
  rest_suffix : rest <:+ unread

namespace Counted

variable {unread : List Token}

theorem length_rest_le (counted : Counted unread) : counted.rest.length ≤ unread.length :=
  counted.rest_suffix.length_le

/-- Reads nothing. -/
def stay (unread : List Token) (result : Except Stop Int64) (opened : Nat) : Counted unread :=
  ⟨result, unread, opened, List.suffix_refl unread⟩

/-- Fails behind what was read. -/
def failing (counted : Counted unread) (stop : Stop) : Counted unread :=
  ⟨.error stop, counted.rest, counted.opened, counted.rest_suffix⟩

/-- Behind one more token, which was read already. -/
def behind (counted : Counted unread) (token : Token) : Counted (token :: unread) :=
  ⟨counted.result, counted.rest, counted.opened,
    counted.rest_suffix.trans (List.suffix_cons token unread)⟩

/-- Goes on with what was left. -/
def followedBy (counted : Counted unread) (next : Counted counted.rest) : Counted unread :=
  ⟨next.result, next.rest, next.opened, next.rest_suffix.trans counted.rest_suffix⟩

/-- Accepts a value that a closing parenthesis follows. In any case one parenthesis less is open. -/
def closed (counted : Counted unread) (finish : Position) : Counted unread :=
  let current := lookahead finish counted.rest
  match counted.result with
  | .error stop => ⟨.error stop, counted.rest, counted.opened - 1, counted.rest_suffix⟩
  | .ok value =>
    if current.is .punctuation ")" then
      ⟨.ok value, counted.rest.tail, counted.opened - 1,
        (List.tail_suffix counted.rest).trans counted.rest_suffix⟩
    else
      ⟨.error (.failure (.unexpected .closing current)), counted.rest, counted.opened - 1,
        counted.rest_suffix⟩

end Counted

mutual

/-- An integer literal or an expression in parentheses. -/
def countFactor (finish : Position) (opened : Nat) : (unread : List Token) → Counted unread
  | [] => .stay [] (.error (.failure (.unexpected .integer (.endOfInput finish)))) opened
  | token :: unread =>
    if token.is .punctuation "(" then
      if maxParentheses ≤ opened then
        .stay (token :: unread) (.error (.failure ⟨.tooDeep, token.position⟩)) opened
      else ((countChain .sum finish (opened + 1) unread).closed finish).behind token
    else if token.kind = .integer then
      (Counted.stay unread ((literal token).mapError .failure) opened).behind token
    else .stay (token :: unread) (.error (.failure (.unexpected .integer token))) opened
termination_by unread => 6 * unread.length
decreasing_by
  simp only [List.length_cons]
  omega

/-- What stands between the operators of a level: factors in a product, products in a sum. -/
def countOperand (level : Level) (finish : Position) (opened : Nat) (unread : List Token) :
    Counted unread :=
  match level with
  | .product => countFactor finish opened unread
  | .sum => countChain .product finish opened unread
termination_by 6 * unread.length + (match level with | .product => 1 | .sum => 3)
decreasing_by
  all_goals omega

/-- Operands with the operators of a level between them. -/
def countChain (level : Level) (finish : Position) (opened : Nat) (unread : List Token) :
    Counted unread :=
  let first := countOperand level finish opened unread
  match first.result with
  | .error _ => first
  | .ok value => first.followedBy (countMore level finish first.opened value first.rest)
termination_by 6 * unread.length + (match level with | .product => 2 | .sum => 4)
decreasing_by
  · cases level <;> simp only <;> omega
  · exact Nat.lt_of_le_of_lt (Nat.mul_le_mul_left 6 (Counted.length_rest_le _))
      (Nat.lt_add_of_pos_right (by cases level <;> decide))

/-- The operators of a level and their right operands behind a value. -/
def countMore (level : Level) (finish : Position) (opened : Nat) (left : Int64) :
    (unread : List Token) → Counted unread
  | [] => .stay [] (.ok left) opened
  | token :: unread =>
    if token.isOperator (level.operators.map (·.symbol)) then
      if token.kind = .operator then
        let right := countOperand level finish opened unread
        match right.result with
        | .error _ => right.behind token
        | .ok value =>
          match operatorOfText? token.text with
          | none => (right.failing (.mismatch "arithmetic operator" token)).behind token
          | some operator =>
            match apply operator left value with
            | .error cause => (right.failing (.failure ⟨cause, token.position⟩)).behind token
            | .ok result =>
              (right.followedBy (countMore level finish right.opened result right.rest)).behind token
      else .stay (token :: unread) (.error (.mismatch "operator" token)) opened
    else .stay (token :: unread) (.ok left) opened
termination_by unread => 6 * unread.length
decreasing_by
  · cases level <;> simp only [List.length_cons] <;> omega
  · exact Nat.mul_lt_mul_of_pos_left (Nat.lt_succ_of_le (Counted.length_rest_le _)) (by decide)

end

/-! ## Agreement -/

section Agreement

variable {finish : Position} {opened : Nat} {unread : List Token} {level : Level}

/-- What was computed with a count is the given computation, and the count is the given one. -/
structure Counted.Agrees (counted : Counted unread) (computation : Computation) (opened : Nat) :
    Prop where
  result : counted.result = computation.result.mapError .failure
  rest : counted.rest = computation.rest
  opened : counted.opened = opened

namespace Counted.Agrees

theorem stay (unread : List Token) (result : Except Failure Int64) (opened : Nat) :
    (Counted.stay unread (result.mapError .failure) opened).Agrees ⟨result, unread⟩ opened :=
  ⟨rfl, rfl, rfl⟩

variable {counted : Counted unread} {computation : Computation}

theorem behind (agrees : counted.Agrees computation opened) (token : Token) :
    (counted.behind token).Agrees computation opened :=
  ⟨agrees.result, agrees.rest, agrees.opened⟩

/-- A failure behind what was read. -/
theorem failing (agrees : counted.Agrees computation opened) (failure : Failure) :
    (counted.failing (.failure failure)).Agrees ⟨.error failure, computation.rest⟩ opened :=
  ⟨rfl, agrees.rest, agrees.opened⟩

theorem result_eq_error (agrees : counted.Agrees computation opened) {failure : Failure}
    (failed : computation.result = .error failure) : counted.result = .error (.failure failure) := by
  rw [agrees.result, failed]
  rfl

theorem result_eq_ok (agrees : counted.Agrees computation opened) {word : Int64}
    (done : computation.result = .ok word) : counted.result = .ok word := by
  rw [agrees.result, done]
  rfl

/-- A failure that is passed on. -/
theorem passed (agrees : counted.Agrees computation opened) {failure : Failure}
    (failed : computation.result = .error failure) :
    counted.Agrees ⟨.error failure, computation.rest⟩ opened :=
  ⟨agrees.result_eq_error failed, agrees.rest, agrees.opened⟩

/-- What goes on with the tokens that were left, and with the same count. -/
theorem followedBy (agrees : counted.Agrees computation opened) {whole : Computation}
    (next : (opened : Nat) → (unread : List Token) → Counted unread)
    (further : (next opened computation.rest).Agrees whole opened) :
    (counted.followedBy (next counted.opened counted.rest)).Agrees whole opened := by
  obtain ⟨-, rest, opened⟩ := agrees
  rw [← rest, ← opened] at further
  exact ⟨further.result, further.rest, opened ▸ further.opened⟩

/-- A parenthesis that is closed. -/
theorem closed (agrees : counted.Agrees computation (opened + 1)) (finish : Position) :
    (counted.closed finish).Agrees
      (computation.thenExpect (·.is .punctuation ")") .closing finish) opened := by
  obtain ⟨result, rest⟩ := computation
  have kept : counted.opened - 1 = opened := by rw [agrees.opened, Nat.add_sub_cancel]
  cases result with
  | error failure =>
    simp only [Counted.closed, agrees.result_eq_error rfl]
    exact ⟨rfl, agrees.rest, kept⟩
  | ok value =>
    simp only [Counted.closed, agrees.result_eq_ok rfl, agrees.rest, Computation.thenExpect]
    cases rest with
    | nil => exact ⟨rfl, rfl, kept⟩
    | cons token rest =>
      cases closes : token.is .punctuation ")" with
      | true =>
        simp only [lookahead_cons, closes, if_true]
        exact ⟨rfl, rfl, kept⟩
      | false =>
        simp only [lookahead_cons, closes, Bool.false_eq_true, if_false]
        exact ⟨rfl, rfl, kept⟩

end Counted.Agrees

/-- The symbols of a level find its operators. -/
theorem isOperator_symbols (level : Level) (token : Token) :
    token.isOperator (level.operators.map (·.symbol)) = (level.operator? token).isSome := by
  rw [Bool.eq_iff_iff, Level.operator?, List.find?_isSome]
  simp only [Token.isOperator, Token.is, Bool.and_eq_true, beq_iff_eq, List.contains_iff_mem,
    List.mem_map]
  constructor
  · rintro ⟨kind, operator, member, text⟩
    exact ⟨operator, member, kind, text.symm⟩
  · rintro ⟨operator, member, kind, text⟩
    exact ⟨kind, operator, member, text.symm⟩

/-- An operator of the level passes both checks. -/
theorem countMore_of_found {token : Token} {operator : Operator}
    (found : level.operator? token = some operator) (left : Int64) (unread : List Token) :
    countMore level finish opened left (token :: unread) =
      let right := countOperand level finish opened unread
      match right.result with
      | .error _ => right.behind token
      | .ok value =>
        match apply operator left value with
        | .error cause => (right.failing (.failure ⟨cause, token.position⟩)).behind token
        | .ok result =>
          (right.followedBy (countMore level finish right.opened result right.rest)).behind token := by
  obtain ⟨-, kind, text⟩ := Level.operator?_eq_some found
  have passes : token.isOperator (level.operators.map (·.symbol)) = true := by
    rw [isOperator_symbols, found]
    rfl
  rw [countMore, if_pos passes, if_pos kind]
  simp only [text, operatorOfText?_symbol]

variable {operand : Rule}

/-- No operand changes the count with which the next one is read. -/
theorem countMore_agrees
    (operands : ∀ unread, (countOperand level finish opened unread).Agrees
      (operand.read finish unread) opened) (left : Int64) (unread : List Token) :
    (countMore level finish opened left unread).Agrees
      (chainRead level operand finish left unread) opened := by
  fun_induction chainRead level operand finish left unread with
  | case1 left =>
    rw [countMore]
    exact ⟨rfl, rfl, rfl⟩
  | case2 left token unread none =>
    rw [countMore, isOperator_symbols, none]
    exact ⟨rfl, rfl, rfl⟩
  | case3 left token unread operator found right failure failed =>
    have agrees := operands unread
    simp only [countMore_of_found found, agrees.result_eq_error failed]
    exact (agrees.passed failed).behind token
  | case4 left token unread operator found right value done cause =>
    rename_i failed
    have agrees := operands unread
    simp only [countMore_of_found found, agrees.result_eq_ok done, failed]
    exact (agrees.failing ⟨cause, token.position⟩).behind token
  | case5 left token unread operator found right value done word applied =>
    rename_i ih
    have agrees := operands unread
    simp only [countMore_of_found found, agrees.result_eq_ok done, applied]
    exact (agrees.followedBy (countMore level finish · word) ih).behind token

theorem countChain_agrees
    (operands : ∀ unread, (countOperand level finish opened unread).Agrees
      (operand.read finish unread) opened) (unread : List Token) :
    (countChain level finish opened unread).Agrees ((chain level operand).read finish unread)
      opened := by
  have agrees := operands unread
  unfold chain
  dsimp only
  split
  next failure failed =>
    simp only [countChain, agrees.result_eq_error failed]
    exact agrees.passed failed
  next value done =>
    simp only [countChain, agrees.result_eq_ok done]
    exact agrees.followedBy (countMore level finish · value) (countMore_agrees operands value _)

/-- What agrees on factors agrees on sums of products of them. -/
theorem countChain_sum_agrees {group : Rule}
    (factors : ∀ unread, (countFactor finish opened unread).Agrees
      ((factorOver group).read finish unread) opened) (unread : List Token) :
    (countChain .sum finish opened unread).Agrees ((expressionOver group).read finish unread)
      opened := by
  refine countChain_agrees (fun unread => ?_) unread
  rw [countOperand]
  refine countChain_agrees (fun unread => ?_) unread
  rw [countOperand]
  exact factors unread

/-- A factor is a literal, unless a parenthesis opens. -/
theorem countFactor_agrees_of_opens {group : Rule}
    (groups : ∀ token unread, token.is .punctuation "(" = true →
      (countFactor finish opened (token :: unread)).Agrees (group.read finish (token :: unread)) opened)
    (unread : List Token) :
    (countFactor finish opened unread).Agrees ((factorOver group).read finish unread) opened := by
  cases unread with
  | nil =>
    rw [countFactor]
    exact ⟨rfl, rfl, rfl⟩
  | cons token unread =>
    simp only [factorOver]
    split
    next opens => exact groups token unread opens
    next other =>
      rw [countFactor, if_neg other]
      split
      · exact (Counted.Agrees.stay unread (literal token) opened).behind token
      · exact .stay (token :: unread) (.error (.unexpected .integer token)) opened

/-- The count of open parentheses and what is left to the limit make up the limit. By induction on what
is left: one more is open inside, and one less is left. Whether the inner expression has a value or
fails, the count is lowered behind it. -/
theorem countFactor_agrees (available : Nat) (room : opened + available = maxParentheses)
    (unread : List Token) :
    (countFactor finish opened unread).Agrees ((factorOver (group available)).read finish unread)
      opened := by
  induction available generalizing opened unread with
  | zero =>
    refine countFactor_agrees_of_opens (fun token unread opens => ?_) unread
    rw [countFactor, if_pos opens, if_pos (by omega)]
    exact ⟨rfl, rfl, rfl⟩
  | succ available ih =>
    refine countFactor_agrees_of_opens (fun token unread opens => ?_) unread
    have inner := countChain_sum_agrees (@ih (opened + 1) (by omega)) unread
    rw [countFactor, if_pos opens, if_neg (by omega)]
    exact (inner.closed finish).behind token

end Agreement

end FuncLang.Arithmetic
