import FuncLang.Arithmetic.Rule
import FuncLang.Proofs.Grammar.Alike

/-! # Arithmetic on alike tokens

The rules of arithmetic do not look at positions or at the case of keywords either. From tokens that are
alike they compute the same word, or fail for the same cause at tokens that are alike. Only a cause that
tells the text of a token tells it as that token has it.
-/

namespace FuncLang.Arithmetic

open FuncLang.Grammar (Indistinct Respects)

variable {Like : Token → Token → Prop}

/-- The same failure at tokens that are alike. -/
inductive Failure.Alike (Like : Token → Token → Prop) : Failure → Failure → Prop
  | unexpected {token token' : Token} (expected : Expectation) (alike : Like token token') :
      Alike Like (.unexpected expected token) (.unexpected expected token')
  | cause {token token' : Token} (cause : Cause) (alike : Like token token') :
      Alike Like ⟨cause, token.position⟩ ⟨cause, token'.position⟩

/-- The same word, or failures that are alike. -/
inductive ResultAlike (Like : Token → Token → Prop) :
    Except Failure Int64 → Except Failure Int64 → Prop
  | ok (word : Int64) : ResultAlike Like (.ok word) (.ok word)
  | error {failure failure' : Failure} (alike : failure.Alike Like failure') :
      ResultAlike Like (.error failure) (.error failure')

/-- Results and tokens left that are alike. -/
structure Computation.Alike (Like : Token → Token → Prop) (computation computation' : Computation) :
    Prop where
  result : ResultAlike Like computation.result computation'.result
  rest : List.Forall₂ Like computation.rest computation'.rest

/-- From tokens that are alike, the rule makes computations that are alike. -/
def Rule.Alike (Like : Token → Token → Prop) (rule : Rule) : Prop :=
  ∀ finish finish', Like (Token.endOfInput finish) (Token.endOfInput finish') →
    ∀ unread unread', List.Forall₂ Like unread unread' →
      (rule.read finish unread).Alike Like (rule.read finish' unread')

namespace ResultAlike

variable {result result' : Except Failure Int64}

theorem of_ok {word : Int64} (alike : ResultAlike Like result result') (done : result = .ok word) :
    result' = .ok word := by
  cases alike with
  | ok => exact done
  | error => cases done

theorem of_error {failure : Failure} (alike : ResultAlike Like result result')
    (failed : result = .error failure) :
    ∃ failure', result' = .error failure' ∧ failure.Alike Like failure' := by
  cases alike with
  | ok => cases failed
  | error alike => exact ⟨_, rfl, Except.error.inj failed ▸ alike⟩

end ResultAlike

section Rules

variable (indistinct : Indistinct Like)
include indistinct

theorem chainRead_alike {level : Level} {operand : Rule} (operands : operand.Alike Like)
    {finish finish' : Position} (ends : Like (Token.endOfInput finish) (Token.endOfInput finish'))
    (left : Int64) {unread unread' : List Token} (alike : List.Forall₂ Like unread unread') :
    (chainRead level operand finish left unread).Alike Like
      (chainRead level operand finish' left unread') := by
  fun_induction chainRead level operand finish left unread generalizing unread' with
  | case1 left =>
    cases alike
    rw [chainRead]
    exact ⟨.ok left, .nil⟩
  | case2 left token unread none =>
    obtain _ | ⟨first, others⟩ := alike
    rw [Level.operator?_eq_of_normalized_eq (indistinct _ _ first)] at none
    rw [chainRead, none]
    exact ⟨.ok left, .cons first others⟩
  | case3 left token unread operator found right failure =>
    rename_i failed
    obtain _ | ⟨first, others⟩ := alike
    rw [Level.operator?_eq_of_normalized_eq (indistinct _ _ first)] at found
    obtain ⟨result, rest⟩ := operands finish finish' ends unread _ others
    obtain ⟨failure', failed', same⟩ := result.of_error failed
    simp only [chainRead, found, failed']
    exact ⟨.error same, rest⟩
  | case4 left token unread operator found right value done cause =>
    rename_i failed
    obtain _ | ⟨first, others⟩ := alike
    rw [Level.operator?_eq_of_normalized_eq (indistinct _ _ first)] at found
    obtain ⟨result, rest⟩ := operands finish finish' ends unread _ others
    simp only [chainRead, found, result.of_ok done, failed]
    exact ⟨.error (.cause cause first), rest⟩
  | case5 left token unread operator found right value done word applied =>
    rename_i ih
    obtain _ | ⟨first, others⟩ := alike
    rw [Level.operator?_eq_of_normalized_eq (indistinct _ _ first)] at found
    obtain ⟨result, rest⟩ := operands finish finish' ends unread _ others
    simp only [chainRead, found, result.of_ok done, applied]
    exact ih rest

theorem chain_alike {level : Level} {operand : Rule} (operands : operand.Alike Like) :
    (chain level operand).Alike Like := by
  intro finish finish' ends unread unread' alike
  obtain ⟨result, rest⟩ := operands finish finish' ends unread unread' alike
  unfold chain
  dsimp only
  split
  next failure failed =>
    obtain ⟨failure', failed', same⟩ := result.of_error failed
    rw [failed']
    exact ⟨.error same, rest⟩
  next value done =>
    rw [result.of_ok done]
    exact chainRead_alike indistinct operands ends value rest

theorem factorOver_alike {group : Rule} (groups : group.Alike Like) :
    (factorOver group).Alike Like := by
  intro finish finish' ends unread unread' alike
  cases alike with
  | nil => exact ⟨.error (.unexpected .integer ends), .nil⟩
  | @cons token token' unread unread' first others =>
    have same := indistinct _ _ first
    have opens : token.is .punctuation "(" = token'.is .punctuation "(" :=
      Token.is_eq_of_normalized_eq same (by decide) "("
    simp only [factorOver, ← opens, ← Token.kind_eq_of_normalized_eq same]
    split
    · exact groups finish finish' ends _ _ (.cons first others)
    · split
      next integer =>
        obtain ⟨-, text⟩ := Token.of_normalized_eq same integer (by decide)
        refine ⟨?_, others⟩
        dsimp only [literal]
        rw [text]
        cases digitsValue token.text with
        | ok word => exact .ok word
        | error cause => exact .error (.cause cause first)
      next => exact ⟨.error (.unexpected .integer first), .cons first others⟩

theorem expressionOver_alike {group : Rule} (groups : group.Alike Like) :
    (expressionOver group).Alike Like :=
  chain_alike indistinct (chain_alike indistinct (factorOver_alike indistinct groups))

omit indistinct in
theorem thenExpect_alike {computation computation' : Computation} {wanted : Token → Bool}
    (respects : Respects Like wanted) {finish finish' : Position}
    (ends : Like (Token.endOfInput finish) (Token.endOfInput finish'))
    (alike : computation.Alike Like computation') (expected : Expectation) :
    (computation.thenExpect wanted expected finish).Alike Like
      (computation'.thenExpect wanted expected finish') := by
  obtain ⟨first, left⟩ := computation
  obtain ⟨second, left'⟩ := computation'
  obtain ⟨result, rest⟩ : ResultAlike Like first second ∧ List.Forall₂ Like left left' :=
    ⟨alike.result, alike.rest⟩
  cases result with
  | error same => exact ⟨.error same, rest⟩
  | ok word =>
    cases rest with
    | nil => exact ⟨.error (.unexpected expected ends), .nil⟩
    | cons next others =>
      simp only [Computation.thenExpect, ← respects _ _ next]
      split
      · exact ⟨.ok word, others⟩
      · exact ⟨.error (.unexpected expected next), .cons next others⟩

/-- By induction on how many parentheses may still be opened. -/
theorem group_alike (available : Nat) : (group available).Alike Like := by
  induction available with
  | zero =>
    intro finish finish' ends unread unread' alike
    exact ⟨.error (.cause .tooDeep (Grammar.lookahead_alike ends alike)), alike⟩
  | succ available ih =>
    intro finish finish' ends unread unread' alike
    have closes : Respects Like (·.is .punctuation ")") :=
      Grammar.respects_isPunctuation indistinct ")"
    have inner : List.Forall₂ Like unread.tail unread'.tail := by
      cases alike with
      | nil => exact .nil
      | cons _ others => exact others
    exact thenExpect_alike closes ends
      (expressionOver_alike indistinct ih finish finish' ends _ _ inner) .closing

theorem whole_alike : whole.Alike Like := by
  intro finish finish' ends unread unread' alike
  have expression : expression.Alike Like :=
    expressionOver_alike indistinct (group_alike indistinct maxParentheses)
  have inner := expression finish finish' ends unread unread' alike
  unfold whole
  dsimp only
  generalize Arithmetic.expression.read finish unread = computation at inner
  generalize Arithmetic.expression.read finish' unread' = computation' at inner
  obtain ⟨first, left⟩ := computation
  obtain ⟨second, left'⟩ := computation'
  obtain ⟨result, rest⟩ : ResultAlike Like first second ∧ List.Forall₂ Like left left' :=
    ⟨inner.result, inner.rest⟩
  cases result with
  | error same => exact ⟨.error same, rest⟩
  | ok word =>
    cases rest with
    | nil => exact ⟨.ok word, .nil⟩
    | cons next others => exact ⟨.error (.unexpected .endOfInput next), .cons next others⟩

end Rules

end FuncLang.Arithmetic
