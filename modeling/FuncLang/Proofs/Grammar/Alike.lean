import FuncLang.Proofs.Expression.Spelling
import FuncLang.Proofs.Grammar.Contract
import Mathlib.Data.List.Forall2

/-! # Alike tokens

No rule looks at the position of a token or at the case of a keyword. So from tokens that are alike, by
any relation that leaves the kind and the normalized text of a token as they are, every rule makes the
same value, leaves tokens that are alike, and raises the same faults at tokens that are alike.
-/

namespace FuncLang

namespace Token

variable {token token' : Token}

theorem kind_eq_of_normalized_eq (same : token.normalized = token'.normalized) :
    token.kind = token'.kind := by
  have kind (token : Token) : token.normalized.kind = token.kind := by
    unfold normalized Lexeme.normalized
    split
    next keyword => exact keyword.symm
    next => rfl
  rw [← kind token, same, kind token']

/-- Apart from keywords, the text is the same too. -/
theorem of_normalized_eq (same : token.normalized = token'.normalized) {kind : Kind}
    (found : token.kind = kind) (free : kind ≠ .keyword) :
    token'.kind = kind ∧ token'.text = token.text :=
  (normalized_eq_iff free).mp (same.symm.trans ((normalized_eq_iff free).mpr ⟨found, rfl⟩))

theorem is_eq_of_normalized_eq (same : token.normalized = token'.normalized) {kind : Kind}
    (free : kind ≠ .keyword) (text : String) : token.is kind text = token'.is kind text := by
  have both (token : Token) : token.is kind text = true ↔ token.normalized = ⟨kind, text⟩ := by
    rw [normalized_eq_iff free, is, Bool.and_eq_true, beq_iff_eq, beq_iff_eq]
  rw [Bool.eq_iff_iff, both, both, same]

theorem isKeyword_eq_of_normalized_eq (same : token.normalized = token'.normalized) (word : String) :
    token.isKeyword word = token'.isKeyword word := by
  have kind := kind_eq_of_normalized_eq same
  unfold isKeyword
  by_cases keyword : token'.kind = .keyword
  · have folded : foldCase token.text.toList = foldCase token'.text.toList := by
      apply String.ofList_injective
      simpa [normalized, Lexeme.normalized, lexeme, kind, keyword, Lexeme.word] using same
    rw [kind, folded]
  · rw [kind, beq_eq_false_iff_ne.mpr keyword, Bool.false_and, Bool.false_and]

end Token

theorem Level.operator?_eq_of_normalized_eq {token token' : Token}
    (same : token.normalized = token'.normalized) (level : Level) :
    level.operator? token = level.operator? token' := by
  have symbols (operator : Operator) :
      token.is .operator operator.symbol = token'.is .operator operator.symbol :=
    Token.is_eq_of_normalized_eq same (by decide) _
  simp only [operator?, symbols]

namespace Grammar

variable {α β : Type} {Like : Token → Token → Prop}

/-- Whether tokens that are alike have the same kind and the same normalized text. -/
def Indistinct (Like : Token → Token → Prop) : Prop :=
  ∀ token token', Like token token' → token.normalized = token'.normalized

/-- Whether all tokens that are alike are wanted, or none of them. -/
def Respects (Like : Token → Token → Prop) (wanted : Token → Bool) : Prop :=
  ∀ token token', Like token token' → wanted token = wanted token'

/-- The same fault at tokens that are alike. -/
def Problem.Alike (Like : Token → Token → Prop) (problem problem' : Problem) : Prop :=
  problem.fault = problem'.fault ∧ Like problem.token problem'.token

/-- The same value, with problems and tokens left that are alike. -/
structure Reading.Alike (Like : Token → Token → Prop) (reading reading' : Reading α) : Prop where
  value : reading.value = reading'.value
  raised : List.Forall₂ (Problem.Alike Like) reading.raised reading'.raised
  rest : List.Forall₂ Like reading.rest reading'.rest

/-- From tokens that are alike, the rules make readings that are alike. -/
def Rule.Alike (Like : Token → Token → Prop) (rule rule' : Rule α) : Prop :=
  ∀ finish finish', Like (Token.endOfInput finish) (Token.endOfInput finish') →
    ∀ unread unread', List.Forall₂ Like unread unread' →
      (rule.read finish unread).Alike Like (rule'.read finish' unread')

theorem lookahead_alike {finish finish' : Position} {unread unread' : List Token}
    (ends : Like (Token.endOfInput finish) (Token.endOfInput finish'))
    (alike : List.Forall₂ Like unread unread') :
    Like (lookahead finish unread) (lookahead finish' unread') := by
  cases alike with
  | nil => exact ends
  | cons first _ => exact first

namespace Rule

theorem pure_alike (value : α) : (pure value : Rule α).Alike Like (pure value) :=
  fun _ _ _ _ _ alike => ⟨rfl, .nil, alike⟩

theorem Alike.bind {rule rule' : Rule α} {next next' : α → Rule β} (first : rule.Alike Like rule')
    (behind : ∀ value, (next value).Alike Like (next' value)) :
    (rule >>= next).Alike Like (rule' >>= next') := by
  intro finish finish' ends unread unread' alike
  obtain ⟨value, raised, rest⟩ := first finish finish' ends unread unread' alike
  obtain ⟨valueBehind, raisedBehind, restBehind⟩ :=
    behind (rule.read finish unread).value finish finish' ends _ _ rest
  rw [read_bind, read_bind]
  simp only [← value]
  exact ⟨valueBehind, List.rel_append raised raisedBehind, restBehind⟩

theorem raise_alike (fault : Fault) : (raise fault).Alike Like (raise fault) :=
  fun _ _ ends _ _ alike => ⟨rfl, .cons ⟨rfl, lookahead_alike ends alike⟩ .nil, alike⟩

variable {wanted : Token → Bool}

theorem eat_alike (respects : Respects Like wanted) :
    (eat wanted).Alike Like (eat wanted) := by
  intro finish finish' ends unread unread' alike
  cases alike with
  | nil => exact ⟨rfl, .nil, .nil⟩
  | cons first others =>
    rw [read_eat_cons, read_eat_cons, respects _ _ first]
    split
    · exact ⟨rfl, .nil, others⟩
    · exact ⟨rfl, .nil, .cons first others⟩

theorem expect_alike (respects : Respects Like wanted) (fault : Fault) :
    (expect wanted fault).Alike Like (expect wanted fault) := by
  refine (eat_alike respects).bind ?_
  rintro (_ | _)
  · exact raise_alike fault
  · exact pure_alike ()

theorem many_alike {stops : Token → Bool} {item : Token → Rule α}
    (respects : Respects Like stops)
    (items : ∀ token token', Like token token' → (item token).Alike Like (item token')) :
    (many stops item).Alike Like (many stops item) := by
  intro finish finish' ends unread
  change ∀ unread', _ →
    (manyRead stops item finish unread).Alike Like (manyRead stops item finish' unread')
  fun_induction manyRead stops item finish unread with
  | case1 =>
    rintro _ (_ | _)
    simpa only [manyRead] using ⟨rfl, .nil, .nil⟩
  | case2 token unread stop =>
    rintro _ (_ | ⟨first, others⟩)
    rw [manyRead, if_pos (respects _ _ first ▸ stop)]
    exact ⟨rfl, .nil, .cons first others⟩
  | case3 token unread go one others ih =>
    rintro _ (_ | ⟨first, behind⟩)
    obtain ⟨value, raised, rest⟩ := items _ _ first finish finish' ends unread _ behind
    obtain ⟨values, raisedOthers, restOthers⟩ := ih _ rest
    rw [manyRead, if_neg (respects _ _ first ▸ go)]
    exact ⟨congrArg₂ List.cons value values, List.rel_append raised raisedOthers, restOthers⟩

end Rule

/-! ## The rules of the grammar -/

section Grammar

variable (indistinct : Indistinct Like)
include indistinct

theorem respects_isWord (word : String) : Respects Like (isWord word) :=
  fun _ _ alike => Token.isKeyword_eq_of_normalized_eq (indistinct _ _ alike) word

theorem respects_isPunctuation (text : String) : Respects Like (isPunctuation text) :=
  fun _ _ alike => Token.is_eq_of_normalized_eq (indistinct _ _ alike) (by decide) text

/-- The token that is read has the same text, since it is no keyword. -/
theorem Rule.Picks.alike {rule : Rule α} {kind : Token.Kind} {value : String → α} {none : α}
    {atEnd fault : Fault} (picks : rule.Picks kind value none atEnd fault) (free : kind ≠ .keyword) :
    rule.Alike Like rule := by
  intro finish finish' ends unread unread' alike
  cases alike with
  | nil =>
    rw [picks.read_nil, picks.read_nil]
    exact ⟨rfl, .cons ⟨rfl, ends⟩ .nil, .nil⟩
  | cons first others =>
    rw [picks.read_cons, picks.read_cons, ← Token.kind_eq_of_normalized_eq (indistinct _ _ first)]
    split
    next found =>
      have text := (Token.of_normalized_eq (indistinct _ _ first) found free).2
      exact ⟨congrArg value text.symm, .nil, others⟩
    next => exact ⟨rfl, .cons ⟨rfl, first⟩ .nil, .cons first others⟩

theorem chain_alike {level : Level} {operand : Rule Expression} (operands : operand.Alike Like operand) :
    (chain level operand).Alike Like (chain level operand) := by
  refine operands.bind fun left => ?_
  intro finish finish' ends unread
  change ∀ unread', _ → (chainRead level operand finish left unread).Alike Like
    (chainRead level operand finish' left unread')
  fun_induction chainRead level operand finish left unread with
  | case1 left =>
    rintro _ (_ | _)
    simpa only [chainRead] using ⟨rfl, .nil, .nil⟩
  | case2 left token unread none =>
    rintro _ (_ | ⟨first, others⟩)
    rw [Level.operator?_eq_of_normalized_eq (indistinct _ _ first)] at none
    simpa only [chainRead, none] using ⟨rfl, .nil, .cons first others⟩
  | case3 left token unread operator found right =>
    rename_i whole ih
    rintro _ (_ | ⟨first, behind⟩)
    rw [Level.operator?_eq_of_normalized_eq (indistinct _ _ first)] at found
    obtain ⟨value, raised, rest⟩ := operands finish finish' ends unread _ behind
    obtain ⟨valueWhole, raisedWhole, restWhole⟩ := ih _ rest
    simp only [chainRead, found, ← value]
    exact ⟨valueWhole, List.rel_append raised raisedWhole, restWhole⟩

theorem expression_alike : expression.Alike Like expression :=
  chain_alike indistinct (chain_alike indistinct (primary_picks.alike indistinct (by decide)))

theorem skipList_alike {unread unread' : List Token} (alike : List.Forall₂ Like unread unread') :
    List.Forall₂ Like (skipList unread) (skipList unread') := by
  induction alike with
  | nil => exact .nil
  | cons first others ih =>
    simp only [skipList, respects_isWord indistinct _ _ _ first,
      respects_isPunctuation indistinct _ _ _ first]
    split
    · exact .cons first others
    · split
      · exact others
      · exact ih

theorem skipParameters_alike : skipParameters.Alike Like skipParameters :=
  fun _ _ _ _ _ alike => ⟨rfl, .nil, skipList_alike indistinct alike⟩

theorem lastParameter_alike : lastParameter.Alike Like lastParameter := by
  refine (parameter_picks.alike indistinct (by decide)).bind ?_
  rintro (name | _)
  · refine (Rule.eat_alike (respects_isPunctuation indistinct ")")).bind ?_
    rintro (_ | _)
    · refine (Rule.raise_alike _).bind fun _ => ?_
      exact (skipParameters_alike indistinct).bind fun _ => Rule.pure_alike _
    · exact Rule.pure_alike _
  · exact (skipParameters_alike indistinct).bind fun _ => Rule.pure_alike _

theorem parameterList_alike : parameterList.Alike Like parameterList := by
  intro finish finish' ends unread
  change ∀ unread', _ → (parameterListRead finish unread).Alike Like (parameterListRead finish' unread')
  have last := lastParameter_alike indistinct finish finish' ends
  fun_induction parameterListRead finish unread with
  | case1 name comma unread separated others ih =>
    rintro _ (_ | ⟨first, _ | ⟨second, behind⟩⟩)
    obtain ⟨value, raised, rest⟩ := ih _ behind
    rw [Bool.and_eq_true, beq_iff_eq] at separated
    obtain ⟨kind, text⟩ := Token.of_normalized_eq (indistinct _ _ first) separated.1 (by decide)
    rw [respects_isPunctuation indistinct _ _ _ second] at separated
    simp only [parameterListRead, kind, separated.2, text, beq_self_eq_true, Bool.and_self, if_true]
    exact ⟨congrArg (Parameter.named name.text :: ·) value, raised, rest⟩
  | case2 name comma unread single =>
    rintro _ (_ | ⟨first, _ | ⟨second, behind⟩⟩)
    rw [Token.kind_eq_of_normalized_eq (indistinct _ _ first),
      respects_isPunctuation indistinct _ _ _ second] at single
    rw [parameterListRead, if_neg single]
    exact last _ _ (.cons first (.cons second behind))
  | case3 token =>
    rintro _ (_ | ⟨first, _ | _⟩)
    exact last _ _ (.cons first .nil)
  | case4 =>
    rintro _ (_ | _)
    exact last _ _ .nil

theorem parameterSection_alike : parameterSection.Alike Like parameterSection := by
  refine (Rule.eat_alike (respects_isPunctuation indistinct "(")).bind ?_
  rintro (_ | _)
  · exact (Rule.raise_alike _).bind fun _ => Rule.pure_alike _
  · refine (Rule.eat_alike (respects_isPunctuation indistinct ")")).bind ?_
    rintro (_ | _)
    · exact parameterList_alike indistinct
    · exact Rule.pure_alike _

theorem statementAfter_alike {declaration : Token → Rule Statement}
    (declarations : ∀ opening opening', Like opening opening' →
      (declaration opening).Alike Like (declaration opening'))
    (first first' : Token) (alike : Like first first') :
    (statementAfter declaration first).Alike Like (statementAfter declaration first') := by
  unfold statementAfter
  rw [respects_isWord indistinct _ _ _ alike, respects_isWord indistinct _ _ _ alike]
  split
  · exact (expression_alike indistinct).bind fun _ => Rule.pure_alike _
  · split
    · exact declarations _ _ alike
    · have fault : strayFault first = strayFault first' := by
        rw [strayFault, strayFault, Token.kind_eq_of_normalized_eq (indistinct _ _ alike)]
      exact fun _ _ _ _ _ others => ⟨rfl, .cons ⟨fault, alike⟩ .nil, others⟩

/-- By induction on how deep declarations may be nested. -/
theorem declarationAfter_alike (nesting : Nat) (opening opening' : Token)
    (alike : Like opening opening') :
    (declarationAfter nesting opening).Alike Like (declarationAfter nesting opening') := by
  induction nesting generalizing opening opening' with
  | zero => exact fun _ _ _ _ _ others => ⟨rfl, .cons ⟨rfl, alike⟩ .nil, others⟩
  | succ nesting ih =>
    refine (functionName_picks.alike indistinct (by decide)).bind fun name => ?_
    refine (parameterSection_alike indistinct).bind fun parameters => ?_
    refine (Rule.expect_alike (respects_isWord indistinct _) _).bind fun _ => ?_
    refine (Rule.many_alike (respects_isWord indistinct _)
      (statementAfter_alike indistinct ih)).bind fun body => ?_
    exact (Rule.expect_alike (respects_isWord indistinct _) _).bind fun _ => Rule.pure_alike _

theorem program_alike : program.Alike Like program :=
  (Rule.many_alike (fun _ _ _ => rfl)
    (statementAfter_alike indistinct (declarationAfter_alike indistinct maxNesting))).bind
      fun _ => Rule.pure_alike _

end Grammar

end Grammar

end FuncLang
