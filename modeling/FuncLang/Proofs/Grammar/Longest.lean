import FuncLang.Proofs.Grammar.Contract
import FuncLang.Proofs.Grammar.Expression
import FuncLang.Proofs.Tree.Lexemes

/-! # What an expression is read from

The rules for expressions read operands with operators between them, where each operand may be missing.
They stop only where no more of such tokens come: in front of an operator they never stop, and in front
of a literal only behind another one. So they read the longest beginning of this form. Every token that
is read shows in the tree, and every operand that is missing shows in one problem.
-/

namespace FuncLang

/-- An integer literal, or nothing. -/
inductive OperandLike : List Token → Prop
  | literal {token : Token} (integer : token.kind = .integer) : OperandLike [token]
  | none : OperandLike []

/-- Operands, each of which may be missing, with an operator between each two. -/
inductive ExpressionLike : List Token → Prop
  | operand {tokens : List Token} (operand : OperandLike tokens) : ExpressionLike tokens
  | more {before after : List Token} {token : Token} (start : ExpressionLike before)
      (operator : token.kind = .operator) (operand : OperandLike after) :
      ExpressionLike (before ++ token :: after)

namespace ExpressionLike

variable {before after tokens : List Token} {token : Token}

/-- What stands behind an operator may have further operators. -/
theorem append (start : ExpressionLike before) (operator : token.kind = .operator)
    (others : ExpressionLike after) : ExpressionLike (before ++ token :: after) := by
  induction others with
  | operand operand => exact .more start operator operand
  | @more front back next _ found operand ih =>
    have all := ExpressionLike.more ih found operand
    rwa [List.append_assoc, List.cons_append] at all

theorem kind_of_mem (like : ExpressionLike tokens) :
    ∀ token ∈ tokens, token.kind = .integer ∨ token.kind = .operator := by
  have operands {part : List Token} (operand : OperandLike part) :
      ∀ token ∈ part, token.kind = .integer := by
    cases operand with
    | literal integer => simpa using integer
    | none => simp
  induction like with
  | operand operand => exact fun token member => .inl (operands operand token member)
  | more start operator operand ih =>
    rw [List.forall_mem_append, List.forall_mem_cons]
    exact ⟨ih, .inr operator, fun token member => .inl (operands operand token member)⟩

/-- No two literals come one behind the other. -/
theorem isChain (like : ExpressionLike tokens) :
    tokens.IsChain fun a b => a.kind = .integer → b.kind ≠ .integer := by
  induction like with
  | operand operand => cases operand <;> simp
  | @more before after token start operator operand ih =>
    rw [List.isChain_append]
    refine ⟨ih, ?_, by simp [operator]⟩
    cases operand <;> simp [operator]

end ExpressionLike

namespace Grammar

variable {finish : Position} {level : Level} {operand : Rule Expression}

/-- What is read of an expression, and what of it shows in the reading. -/
structure Reads (read : List Token) (reading : Reading Expression) : Prop where
  like : ExpressionLike read
  lexemes : reading.value.toTree.lexemes = read.map Token.lexeme
  holes : reading.value.toTree.walk.countP Tree.isMissing = reading.raised.length
  /-- In front of a literal, the last token that is read is a literal too. -/
  settled : ∀ token ∈ reading.rest.head?, token.kind = .integer →
    ∃ last ∈ read.getLast?, last.kind = .integer

theorem primary_reads : primary.Keeps finish Reads := by
  intro unread _
  cases unread with
  | nil => exact ⟨[], rfl, .operand .none, by simp [Expression.toTree], by rfl, by simp⟩
  | cons token unread =>
    rw [read_primary_cons]
    split
    next integer =>
      refine ⟨[token], rfl, .operand (.literal integer), ?_, rfl, ?_⟩
      · simp [Expression.toTree, Token.lexeme, integer]
      · simp [integer]
    next other =>
      refine ⟨[], rfl, .operand .none, by simp [Expression.toTree], rfl, ?_⟩
      simp [other]

theorem chain_reads (operands : operand.Keeps finish Reads) :
    (chain level operand).Keeps finish Reads := by
  refine chain_keeps operands id ?_
  intro before after left right token operator start found last rest
  obtain ⟨-, kind, text⟩ := Level.operator?_eq_some found
  refine ⟨start.like.append kind last.like, ?_, ?_, ?_⟩
  · have symbol : token.lexeme = ⟨.operator, operator.symbol⟩ := by rw [Token.lexeme, kind, text]
    rw [Expression.toTree, Tree.lexemes_binary, start.lexemes, last.lexemes, List.map_append,
      List.map_cons, symbol]
  · rw [Expression.toTree, Tree.walk_eq,
      List.countP_cons_of_neg (by simp [Tree.isMissing, Tree.binary])]
    simp [Tree.binary, start.holes, last.holes]
  · intro next comes integer
    obtain ⟨literal, isLast, kind⟩ := last.settled next comes integer
    have behind : after.getLast? = some literal := isLast
    exact ⟨literal, by simp [List.getLast?_append, List.getLast?_cons, behind], kind⟩

theorem expression_reads : expression.Keeps finish Reads := chain_reads (chain_reads primary_reads)

/-- The loop leaves no operator of its level, and nothing that its last operand goes on with. -/
theorem ends_rest_chainRead {OperandEnds : List Token → Prop}
    (operands : ∀ unread, OperandEnds (operand.read finish unread).rest) (left : Expression)
    (unread : List Token) :
    OperandEnds unread → OperandEnds (chainRead level operand finish left unread).rest ∧
      level.Ends (chainRead level operand finish left unread).rest := by
  fun_induction chainRead level operand finish left unread with
  | case1 => exact fun ends => ⟨ends, Level.ends_nil level⟩
  | case2 left token unread none => exact fun ends => ⟨ends, Level.ends_cons.mpr none⟩
  | case3 left token unread operator found right whole ih => exact fun _ => ih (operands unread)

/-- No operator stands behind an expression. -/
theorem ends_rest_expression (finish : Position) (unread : List Token) :
    Level.product.Ends (expression.read finish unread).rest ∧
      Level.sum.Ends (expression.read finish unread).rest := by
  have products (unread : List Token) : Level.product.Ends (multiplicative.read finish unread).rest :=
    (@ends_rest_chainRead finish .product primary (fun _ => True) (fun _ => trivial) _ _ trivial).2
  exact ends_rest_chainRead products _ _ (products unread)

/-- Every operator of a source is on one of the levels. -/
theorem exists_symbol {token : Token} (valid : token.lexeme.IsValid) (kind : token.kind = .operator) :
    ∃ operator : Operator, token.text = operator.symbol := by
  have listed : ∃ c ∈ operatorSymbols, token.text.toList = [c] := by
    simpa [Lexeme.IsValid, Token.lexeme, kind] using valid
  obtain ⟨c, member, text⟩ := listed
  have written : token.text = String.ofList [c] := by rw [← text, String.ofList_toList]
  simp only [operatorSymbols, List.mem_cons, List.not_mem_nil, or_false] at member
  rcases member with rfl | rfl | rfl | rfl
  · exact ⟨.subtract, written⟩
  · exact ⟨.add, written⟩
  · exact ⟨.multiply, written⟩
  · exact ⟨.divide, written⟩

/-- The rule reads the longest beginning of this form, whatever comes behind it. -/
theorem isLongest {unread read longer : List Token} (valid : ∀ token ∈ unread, token.lexeme.IsValid)
    (same : unread = read ++ (expression.read finish unread).rest)
    (reads : Reads read (expression.read finish unread)) (begins : longer <+: unread)
    (like : ExpressionLike longer) : longer <+: read := by
  rw [same] at begins
  rcases List.prefix_or_prefix_of_prefix begins (List.prefix_append read _) with within | ⟨more, rfl⟩
  · exact within
  -- What is longer goes on with a token in front of which the rule does not stop.
  · have behind : more <+: (expression.read finish unread).rest :=
      (List.prefix_append_right_inj read).mp begins
    cases more with
    | nil => simp
    | cons next more =>
      obtain ⟨rest, split⟩ := behind
      have comes : (expression.read finish unread).rest.head? = some next := by rw [← split]; rfl
      have kind := like.kind_of_mem next (by simp)
      rcases kind with integer | operator
      · obtain ⟨last, isLast, lastKind⟩ := reads.settled next comes integer
        have chained := (List.isChain_append.mp like.isChain).2.2 last isLast next rfl
        exact absurd integer (chained lastKind)
      · have member : next ∈ unread := by
          rw [same, ← split]
          simp
        obtain ⟨symbol, text⟩ := exists_symbol (valid next member) operator
        obtain ⟨noProduct, noSum⟩ := ends_rest_expression finish unread
        have found := Level.operator?_eq_some_iff.mpr ⟨rfl, operator, text⟩
        have none : symbol.level.operator? next = none := by
          cases symbol.level with
          | sum => exact noSum next comes
          | product => exact noProduct next comes
        exact absurd (found.symm.trans none) (Option.some_ne_none symbol)

end Grammar

end FuncLang
