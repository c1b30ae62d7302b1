import FuncLang.Proofs.Arithmetic.Depth

/-! # Calculators

A calculator stands in front of unread tokens and is asked for one value after the other. It remembers
how many parentheses are open and goes on counting from there, whether it gave a value or failed. But
between requests no parenthesis is open. So a calculator that failed is as good as a new one that stands
where it stopped, and what it computes next depends on nothing but what is unread. Its checks of
operators never stop it.
-/

namespace FuncLang.Arithmetic

/-- What a calculator can be asked to compute. -/
inductive Request where
  | evaluate
  | expression
  | term
  | factor
deriving DecidableEq, Repr

namespace Request

/-- The rule for what is asked. -/
def rule : Request → Rule
  | evaluate => whole
  | expression => Arithmetic.expression
  | term => Arithmetic.term
  | factor => Arithmetic.factor

/-- Computes what is asked while open parentheses are counted. -/
def count (finish : Position) (opened : Nat) (unread : List Token) : Request → Counted unread
  | evaluate =>
    let value := countChain .sum finish opened unread
    match value.result, value.rest with
    | .ok _, token :: _ => value.failing (.failure (.unexpected .endOfInput token))
    | _, _ => value
  | expression => countChain .sum finish opened unread
  | term => countChain .product finish opened unread
  | factor => countFactor finish opened unread

/-- Where no parenthesis is open, a request is computed by its rule, and none is open behind it. -/
theorem count_agrees (finish : Position) (unread : List Token) (request : Request) :
    (request.count finish 0 unread).Agrees (request.rule.read finish unread) 0 := by
  have factors (unread : List Token) :
      (countFactor finish 0 unread).Agrees (Arithmetic.factor.read finish unread) 0 :=
    countFactor_agrees maxParentheses (Nat.zero_add _) unread
  have expressions (unread : List Token) :
      (countChain .sum finish 0 unread).Agrees (Arithmetic.expression.read finish unread) 0 :=
    countChain_sum_agrees factors unread
  cases request with
  | evaluate =>
    have agrees := expressions unread
    dsimp only [count, rule, whole]
    generalize Arithmetic.expression.read finish unread = computation at agrees
    obtain ⟨result, rest⟩ := computation
    cases result with
    | error failure =>
      simp only [agrees.result_eq_error rfl]
      exact agrees
    | ok word =>
      simp only [agrees.result_eq_ok rfl, agrees.rest]
      cases rest with
      | nil => exact agrees
      | cons token rest => exact agrees.failing _
  | expression => exact expressions unread
  | term =>
    refine countChain_agrees (fun unread => ?_) unread
    rw [countOperand]
    exact factors unread
  | factor => exact factors unread

end Request

/-- What is unread, and how many parentheses are open. -/
structure Calculator where
  unread : Unread
  opened : Nat
deriving DecidableEq, Repr

namespace Calculator

/-- A new calculator in front of unread tokens. -/
def new (unread : Unread) : Calculator := ⟨unread, 0⟩

/-- A new calculator at the start of a source. -/
def ofSource (source : String) : Calculator := new (.ofSource source)

/-- Computes what is asked, with the count that was left before. -/
def perform (calculator : Calculator) (request : Request) : Except Stop Int64 × Calculator :=
  let counted := request.count calculator.unread.finish calculator.opened calculator.unread.tokens
  (counted.result, ⟨⟨counted.rest, calculator.unread.finish⟩, counted.opened⟩)

/-- The calculator behind requests that are made one after the other. -/
def after (calculator : Calculator) : List Request → Calculator
  | [] => calculator
  | request :: requests => (calculator.perform request).2.after requests

/-- What is given for requests that are made one after the other. -/
def results (calculator : Calculator) : List Request → List (Except Stop Int64)
  | [] => []
  | request :: requests =>
    (calculator.perform request).1 :: (calculator.perform request).2.results requests

/-- A new calculator gives what the rule gives, and is as good as new then. -/
theorem perform_new (unread : Unread) (request : Request) :
    (new unread).perform request =
      ((request.rule.run unread).1.mapError .failure, new (request.rule.run unread).2) := by
  obtain ⟨result, rest, opened⟩ := request.count_agrees unread.finish unread.tokens
  rw [perform]
  dsimp only [new]
  rw [result, rest, opened]
  rfl

/-- Requests leave a calculator as good as new, in front of an end of what was unread before. -/
theorem exists_after_new (unread : Unread) (requests : List Request) :
    ∃ tokens, (new unread).after requests = new ⟨tokens, unread.finish⟩ ∧ tokens <:+ unread.tokens := by
  induction requests generalizing unread with
  | nil => exact ⟨unread.tokens, rfl, List.suffix_refl _⟩
  | cons request requests ih =>
    obtain ⟨tokens, same, suffix⟩ := ih (request.rule.run unread).2
    rw [after, perform_new]
    exact ⟨tokens, same, suffix.trans (request.rule.rest_suffix unread.finish unread.tokens)⟩

/-- Whatever calculators were asked for, and however often they failed and in whichever parentheses,
each is as good as a new one in front of what it has left unread; so where that is the same, the same
requests have the same results. A request gives what its rule gives for the unread tokens, and leaves a
new calculator behind what the rule reads, also when it fails. No request goes back in the tokens. -/
theorem results_depend_on_unread (source source' : String) (past past' future : List Request) :
    let one := (ofSource source).after past
    let other := (ofSource source').after past'
    one = new one.unread ∧ one.opened = 0 ∧
      (one.unread = other.unread → one.results future = other.results future) ∧
      (∀ request, one.perform request =
        ((request.rule.run one.unread).1.mapError .failure, new (request.rule.run one.unread).2)) ∧
      (one.after future).unread.tokens <:+ one.unread.tokens ∧
      (one.after future).unread.finish = one.unread.finish := by
  intro one other
  obtain ⟨tokens, same, -⟩ := exists_after_new (.ofSource source) past
  obtain ⟨tokens', same', -⟩ := exists_after_new (.ofSource source') past'
  have oneNew : one = new one.unread := by
    rw [show one = _ from same]
    rfl
  have otherNew : other = new other.unread := by
    rw [show other = _ from same']
    rfl
  obtain ⟨left, further, suffix⟩ := exists_after_new one.unread future
  rw [← oneNew] at further
  refine ⟨oneNew, ?_, fun unread => ?_, fun request => ?_, ?_, ?_⟩
  · rw [oneNew]
    rfl
  · rw [oneNew, otherNew, unread]
  · rw [← perform_new, ← oneNew]
  · rw [further]
    exact suffix
  · rw [further]
    rfl

/-- A failure in two parentheses, and a literal in front of the token at which it arose. -/
theorem results_behind_failure_and_literal :
    let one := (ofSource "((x + 1) 7").after [.evaluate]
    let other := (ofSource "1 x + 1) 7").after [.factor]
    one.unread = other.unread ∧
      one.results [.term, .expression, .factor] = other.results [.term, .expression, .factor] := by
  intro one other
  have same : one.unread = other.unread := by decide +kernel
  obtain ⟨-, -, known, -⟩ := results_depend_on_unread "((x + 1) 7" "1 x + 1) 7" [.evaluate] [.factor]
    [.term, .expression, .factor]
  exact ⟨same, known same⟩

end Calculator

end FuncLang.Arithmetic
