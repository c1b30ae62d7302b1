import FuncLang.Proofs.Grammar.Longest
import FuncLang.Proofs.Parse.Shape
import FuncLang.Proofs.Session.Operation

/-! # Expressions in a session

Whatever a session was asked before, the next expression is read from the longest beginning of what is
unread that can be one. Its tree is the only one that has these lexemes, and it has one hole for each
problem.
-/

namespace FuncLang

/-- What operations leave unread is an end of what was unread before them. -/
theorem Unread.tokens_behindAll_suffix (unread : Unread) (operations : List Operation) :
    (unread.behindAll operations).tokens <:+ unread.tokens := by
  induction operations generalizing unread with
  | nil => exact List.suffix_refl _
  | cons operation operations ih =>
    exact (ih (unread.behind operation)).trans (operation.rule.rest_suffix unread.finish unread.tokens)

/-- In every state that a session can reach, an expression is read from the longest beginning of the
unread tokens in which operators stand between operands that may be missing. From left to right its tree
consists of these tokens, and it is the only tree of its shape that does. The call raises as many
diagnostics as the tree has holes, and it succeeds if there are none. -/
theorem expression_is_longest_and_only (limit : Nat) (source : String) (operations : List Operation) :
    let session := (Session.ofSource limit source).after operations
    let outcome := (session.perform .expression).1
    let behind := (session.perform .expression).2
    let raised := session.unread.raised .expression
    session.unread.tokens <:+ sentence source ∧
    (∃ read, session.unread.tokens = read ++ behind.unread.tokens ∧ ExpressionLike read ∧
      (∀ longer, longer <+: session.unread.tokens → ExpressionLike longer → longer <+: read) ∧
      outcome.value.lexemes = read.map Token.lexeme ∧ outcome.value.ExpressionShape ∧
      ∀ tree : Tree, tree.ExpressionShape → tree.lexemes = read.map Token.lexeme →
        tree = outcome.value) ∧
    outcome.value.walk.countP Tree.isMissing = raised.length ∧
    behind.recorded = (session.recorded ++ raised).take limit ∧
    (outcome.recovered = false ↔ outcome.value.walk.countP Tree.isMissing = 0) := by
  intro session outcome behind raised
  have reached : session = _ := Session.after_eq (Session.ofSource limit source) operations
  have ending : session.unread.tokens <:+ sentence source := by
    rw [reached, ← Unread.tokens_ofSource]
    exact Unread.tokens_behindAll_suffix _ operations
  have valid : ∀ token ∈ session.unread.tokens, token.lexeme.IsValid :=
    fun token member => isValid_of_mem_sentence (ending.subset member)
  obtain ⟨read, same, reads⟩ := Grammar.expression_reads session.unread.tokens valid
  have shape : outcome.value.ExpressionShape := Grammar.expression_shape session.unread.tokens valid
  have holes : outcome.value.walk.countP Tree.isMissing = raised.length := by
    have problems : raised =
        (Grammar.expression.read session.unread.finish session.unread.tokens).raised.map
          (·.toDiagnostic) := congrArg (List.map _) (List.append_nil _)
    rw [problems, List.length_map]
    exact reads.holes
  refine ⟨ending, ⟨read, same, reads.like, ?_, reads.lexemes, shape, ?_⟩, holes, ?_, ?_⟩
  · exact fun longer begins like => Grammar.isLongest valid same reads begins like
  · exact fun tree other lexemes => other.eq_of_lexemes_eq shape (lexemes.trans reads.lexemes.symm)
  · have room : session.log.limit = limit := by
      rw [reached]
      rfl
    rw [← room]
    rfl
  · rw [holes, List.length_eq_zero_iff, ← List.head?_eq_none_iff]
    exact Option.isSome_eq_false_iff.trans Option.isNone_iff_eq_none

end FuncLang
