import FuncLang.Proofs.Arithmetic.Alike
import FuncLang.Proofs.Parse.Clean

/-! # Layout, comments and the case of keywords

Two sources can have the same tokens although their lines are broken differently, comments stand
elsewhere, and keywords are written in another case. Such sources are parsed to the same program and have
the same value. What is wrong with one of them is wrong with the other at the token that stands in the
same place, and the diagnostics differ in nothing but positions and in the case of keywords that they
show.
-/

namespace FuncLang

variable {Like : Token → Token → Prop} {a b : String}

/-- The same kind and the same text, keywords in whatever case they are written. -/
def Token.IsVariant (token token' : Token) : Prop :=
  token.kind = token'.kind ∧ (token.text = token'.text ∨
    token.kind = .keyword ∧ foldCase token.text.toList = foldCase token'.text.toList)

instance (token token' : Token) : Decidable (token.IsVariant token') :=
  inferInstanceAs (Decidable (_ ∧ _))

theorem Token.IsVariant.normalized_eq {token token' : Token} (variant : token.IsVariant token') :
    token.normalized = token'.normalized := by
  obtain ⟨kind, same | ⟨keyword, folded⟩⟩ := variant
  · rw [normalized, normalized, lexeme, lexeme, kind, same]
  · simp only [normalized, Lexeme.normalized, lexeme, ← kind, keyword, folded, if_true]

/-- The same diagnostic about tokens that are alike. -/
inductive Diagnostic.Alike (Like : Token → Token → Prop) : Diagnostic → Diagnostic → Prop
  | unexpected {token token' : Token} (message : String) (alike : Like token token') :
      Alike Like ⟨.unexpectedToken token.text, message, token.position⟩
        ⟨.unexpectedToken token'.text, message, token'.position⟩
  | structural {token token' : Token} (message : String) (alike : Like token token') :
      Alike Like ⟨.structural, message, token.position⟩ ⟨.structural, message, token'.position⟩

theorem Grammar.Problem.Alike.toDiagnostic {problem problem' : Problem}
    (alike : problem.Alike Like problem') : problem.toDiagnostic.Alike Like problem'.toDiagnostic := by
  obtain ⟨fault, token⟩ := problem
  obtain ⟨fault', token'⟩ := problem'
  obtain ⟨rfl, like⟩ : fault = fault' ∧ Like token token' := alike
  cases structural : fault.isStructural with
  | true => simpa [Problem.toDiagnostic, cause, structural] using .structural fault.message like
  | false => simpa [Problem.toDiagnostic, cause, structural] using .unexpected fault.message like

/-- The two tokens stand in the same place of their sources, comments left out, and are variants of each
other. -/
def Counterparts (a b : String) (token token' : Token) : Prop :=
  token.IsVariant token' ∧ ∃ index : Nat,
    (significant (tokenize a))[index]? = some token ∧ (significant (tokenize b))[index]? = some token'

theorem indistinct_counterparts (a b : String) : Grammar.Indistinct (Counterparts a b) :=
  fun _ _ counterparts => counterparts.1.normalized_eq

theorem forall₂_getElem? {α β : Type} {R : α → β → Prop} {xs : List α} {ys : List β}
    (related : List.Forall₂ R xs ys) :
    List.Forall₂ (fun x y => R x y ∧ ∃ index : Nat, xs[index]? = some x ∧ ys[index]? = some y) xs ys := by
  induction related with
  | nil => exact .nil
  | cons first _ ih =>
    refine .cons ⟨first, 0, rfl, rfl⟩ (ih.imp ?_)
    rintro x y ⟨related, index, left, right⟩
    exact ⟨related, index + 1, left, right⟩

/-- In sources with the same tokens, each token of the sentence has its counterpart, and so has the end of
the input. -/
theorem counterparts_of_variants
    (variants : List.Forall₂ Token.IsVariant (significant (tokenize a)) (significant (tokenize b))) :
    List.Forall₂ (Counterparts a b) (sentence a) (sentence b) ∧
      Counterparts a b (Token.endOfInput (Unread.ofSource a).finish)
        (Token.endOfInput (Unread.ofSource b).finish) := by
  have all : List.Forall₂ (Counterparts a b) (significant (tokenize a)) (significant (tokenize b)) :=
    forall₂_getElem? variants
  rw [significant_tokenize_eq, significant_tokenize_eq] at all
  have length : (sentence a).length = (sentence b).length := by
    have both := all.length_eq
    simp only [List.length_append, List.length_singleton] at both
    omega
  have front := List.forall₂_take_append _ _ _ all
  have back := List.forall₂_drop_append _ _ _ all
  rw [← length, List.take_left' rfl] at front
  rw [← length, List.drop_left' rfl] at back
  obtain _ | ⟨ends, _⟩ := back
  exact ⟨front, ends⟩

/-- Two sources with the same tokens, apart from layout, comments and the case of keywords, are parsed to
the same program. Their diagnostics come in pairs with the same message about tokens in the same place, and
they evaluate to the same word or fail for the same cause at tokens in the same place. -/
theorem layout_independent (config : Config) (a b : String)
    (variants : List.Forall₂ Token.IsVariant (significant (tokenize a)) (significant (tokenize b))) :
    (parseWith config a).program = (parseWith config b).program ∧
      List.Forall₂ (Diagnostic.Alike (Counterparts a b)) (parseWith config a).diagnostics
        (parseWith config b).diagnostics ∧
      Arithmetic.ResultAlike (Counterparts a b) (Arithmetic.evaluate a) (Arithmetic.evaluate b) := by
  obtain ⟨tokens, ends⟩ := counterparts_of_variants variants
  obtain ⟨value, raised, -⟩ := Grammar.program_alike (indistinct_counterparts a b) _ _ ends _ _ tokens
  refine ⟨?_, ?_, ?_⟩
  · rw [program_parseWith, program_parseWith]
    exact value
  · rw [diagnostics_parseWith, diagnostics_parseWith]
    apply List.forall₂_take
    rw [List.forall₂_map_left_iff, List.forall₂_map_right_iff]
    exact raised.imp fun _ _ alike => alike.toDiagnostic
  · have computed := (Arithmetic.whole_alike (indistinct_counterparts a b) _ _ ends _ _ tokens).result
    rw [← Unread.tokens_ofSource, ← Unread.tokens_ofSource] at computed
    exact computed

/-- Nothing is right about these sources, and they are laid out differently. -/
theorem layout_independent_of_broken :
    List.Forall₂ Token.IsVariant (significant (tokenize "Func f(1) RETURN + $ # c"))
        (significant (tokenize "\n\tfunc f # d\n (1)\nreturn+$")) ∧
      (parse "Func f(1) RETURN + $ # c").program = (parse "\n\tfunc f # d\n (1)\nreturn+$").program := by
  have variants : List.Forall₂ Token.IsVariant (significant (tokenize "Func f(1) RETURN + $ # c"))
      (significant (tokenize "\n\tfunc f # d\n (1)\nreturn+$")) := by decide +kernel
  exact ⟨variants, (layout_independent .standard _ _ variants).1⟩

end FuncLang
