import FuncLang.Proofs.Expression.Spelling
import FuncLang.Proofs.Program.Derivation

/-! # The spelling of programs

The tokens from which a program is derived spell its tree, which is canonical; and from the tokens
that spell a canonical tree, a program with this tree is derived.
-/

namespace FuncLang

open Grammar (isWord isPunctuation maxNesting Sequence)
open Lexeme (word mark)

namespace Token

variable {token : Token} {text : String}

/-- A token is a word in lower case if it is this word in some case. -/
theorem normalized_eq_word_iff (lower : foldCase text.toList = text.toList) :
    token.normalized = word text ↔ isWord text token = true := by
  unfold normalized Lexeme.normalized isWord Token.isKeyword
  by_cases keyword : token.kind = .keyword
  · simp [word, lexeme, keyword, lower, ← String.toList_inj]
  · simp [word, lexeme, keyword]

theorem normalized_eq_mark_iff : token.normalized = mark text ↔ isPunctuation text token = true := by
  rw [mark, normalized_eq_iff (by decide)]
  simp [isPunctuation, Token.is]

theorem normalized_eq_name_iff :
    token.normalized = .name text ↔ token.kind = .identifier ∧ token.text = text :=
  normalized_eq_iff (by decide)

/-- A valid identifier is a name that is not reserved. -/
theorem isFreeName (valid : token.lexeme.IsValid) (identifier : token.kind = .identifier) :
    Tree.IsFreeName token.text := by
  simpa [Tree.IsFreeName, Lexeme.IsValid, lexeme, identifier] using valid

end Token

variable {tokens : List Token}

namespace Parameter

/-- Names with commas between them are spelled as such. -/
theorem DerivesNames.spelled {parameters : List Parameter} (derived : DerivesNames parameters tokens)
    (valid : ∀ token ∈ tokens, token.lexeme.IsValid) :
    ∃ first others, parameters = (first :: others).map .named ∧
      (∀ name ∈ first :: others, Tree.IsFreeName name) ∧
      tokens.map Token.normalized = Tree.nameLexemes (first :: others) := by
  induction derived with
  | @single name identifier =>
    refine ⟨name.text, [], rfl, ?_, ?_⟩
    · simpa using Token.isFreeName (valid name (by simp)) identifier
    · simpa [Tree.nameLexemes] using Token.normalized_eq_name_iff.mpr ⟨identifier, rfl⟩
  | @more name comma parameters tokens identifier separates _ ih =>
    obtain ⟨validName, validBehind⟩ := List.forall_mem_cons.mp valid
    obtain ⟨-, validOthers⟩ := List.forall_mem_cons.mp validBehind
    obtain ⟨first, others, rfl, free, spelled⟩ := ih validOthers
    refine ⟨name.text, first :: others, rfl, ?_, ?_⟩
    · exact List.forall_mem_cons.mpr ⟨Token.isFreeName validName identifier, free⟩
    · rw [List.map_cons, List.map_cons, spelled, Tree.nameLexemes_cons_cons,
        Token.normalized_eq_name_iff.mpr ⟨identifier, rfl⟩, Token.normalized_eq_mark_iff.mpr separates]

theorem DerivesList.spelled {parameters : List Parameter} (derived : DerivesList parameters tokens)
    (valid : ∀ token ∈ tokens, token.lexeme.IsValid) :
    ∃ names, parameters = names.map .named ∧ (∀ name ∈ names, Tree.IsFreeName name) ∧
      tokens.map Token.normalized = Tree.nameLexemes names := by
  cases derived with
  | none => exact ⟨[], rfl, List.forall_mem_nil _, rfl⟩
  | names names =>
    obtain ⟨first, others, spelled⟩ := names.spelled valid
    exact ⟨first :: others, spelled⟩

/-- Names are derived from the tokens that spell them. -/
theorem derivesNames_of_spelled {first : String} {others : List String} :
    ∀ {tokens : List Token}, tokens.map Token.normalized = Tree.nameLexemes (first :: others) →
      DerivesNames ((first :: others).map .named) tokens := by
  induction others generalizing first with
  | nil =>
    intro tokens spelled
    obtain ⟨name, rfl, same⟩ : ∃ name, tokens = [name] ∧ name.normalized = .name first := by
      simpa [Tree.nameLexemes, List.map_eq_singleton_iff] using spelled
    obtain ⟨identifier, rfl⟩ := Token.normalized_eq_name_iff.mp same
    exact .single identifier
  | cons second others ih =>
    intro tokens spelled
    rw [Tree.nameLexemes_cons_cons] at spelled
    obtain ⟨name, behind, rfl, same, spelledBehind⟩ := List.map_eq_cons_iff.mp spelled
    obtain ⟨comma, rest, rfl, separates, spelledRest⟩ := List.map_eq_cons_iff.mp spelledBehind
    obtain ⟨identifier, rfl⟩ := Token.normalized_eq_name_iff.mp same
    exact .more identifier (Token.normalized_eq_mark_iff.mp separates) (ih spelledRest)

theorem derivesList_of_spelled {names : List String}
    (spelled : tokens.map Token.normalized = Tree.nameLexemes names) :
    DerivesList (names.map .named) tokens := by
  cases names with
  | nil =>
    obtain rfl : tokens = [] := by simpa [Tree.nameLexemes] using spelled
    exact .none
  | cons first others => exact .names (derivesNames_of_spelled spelled)

end Parameter

namespace Statement

variable {nesting : Nat} {Item Declaration : Statement → List Token → Prop}

theorem toTree_function (name : String) (names : List String) (body : List Statement) :
    (function (some name) (names.map .named) body).toTree =
      ⟨.functionDeclaration, name, Tree.declared names (toTrees body)⟩ := by
  simp [toTree, Tree.declared, Parameter.toTree, Function.comp_def]

/-- The tree of the statement is one of statements, and the tokens spell it. -/
def Spelled (nesting : Nat) (statement : Statement) (tokens : List Token) : Prop :=
  statement.toTree.IsStatement nesting ∧ statement.toTree.SpelledBy tokens

theorem sequence_spelled {statements : List Statement}
    (derived : Sequence (Spelled nesting) statements tokens) :
    (∀ tree ∈ toTrees statements, tree.IsStatement nesting) ∧
      tokens.map Token.normalized = Tree.lexemesAll (toTrees statements) := by
  induction derived with
  | nil => exact ⟨List.forall_mem_nil _, rfl⟩
  | cons item _ ih =>
    obtain ⟨isStatement, spelled⟩ := item
    obtain ⟨areStatements, spelledOthers⟩ := ih
    refine ⟨List.forall_mem_cons.mpr ⟨isStatement, areStatements⟩, ?_⟩
    rw [List.map_append, spelled, spelledOthers]
    rfl

theorem Declared.spelled {statement : Statement}
    (derived : Declared (Sequence Item) statement tokens)
    (items : ∀ {statement part}, part ⊆ tokens → Item statement part → Spelled nesting statement part)
    (valid : ∀ token ∈ tokens, token.lexeme.IsValid) : statement.Spelled (nesting + 1) tokens := by
  obtain @⟨first, name, opening, closing, start, last, parameters, body, list, inner, begins,
    identifier, opens, derivedList, closes, starts, derivedBody, ends⟩ := derived
  have validName := valid name (by simp)
  have validList : ∀ token ∈ list, token.lexeme.IsValid :=
    fun token member => valid token (by simp [member])
  have within : inner ⊆ first :: name :: opening :: (list ++ closing :: start :: (inner ++ [last])) :=
    fun token member => by simp [member]
  obtain ⟨names, rfl, free, spelledList⟩ := derivedList.spelled validList
  obtain ⟨areStatements, spelledBody⟩ :=
    sequence_spelled (derivedBody.imp fun inside => items (List.Subset.trans inside within))
  have word {text : String} {token : Token} (found : isWord text token = true)
      (lower : foldCase text.toList = text.toList) : token.normalized = word text :=
    (Token.normalized_eq_word_iff lower).mpr found
  rw [Spelled, toTree_function]
  refine ⟨.function (Token.isFreeName validName identifier) free areStatements, ?_⟩
  simp only [Tree.SpelledBy, Tree.lexemes_declared, List.map_cons, List.map_append, List.map_nil,
    word begins (by decide), word starts (by decide), word ends (by decide), spelledList,
    spelledBody, Token.normalized_eq_name_iff.mpr ⟨identifier, rfl⟩,
    Token.normalized_eq_mark_iff.mpr opens, Token.normalized_eq_mark_iff.mpr closes]

theorem Stated.spelled {statement : Statement} (derived : Stated Declaration statement tokens)
    (declaration : Declaration statement tokens → statement.Spelled nesting tokens)
    (valid : ∀ token ∈ tokens, token.lexeme.IsValid) : statement.Spelled nesting tokens := by
  cases derived with
  | @returns first value behind begins derived =>
    obtain ⟨isExpression, spelled⟩ := derived.spelled (List.forall_mem_cons.mp valid).2
    refine ⟨.returns isExpression, ?_⟩
    rw [Tree.SpelledBy, toTree, Tree.lexemes_returns, List.map_cons, spelled,
      (Token.normalized_eq_word_iff (by decide)).mpr begins]
  | declares declared => exact declaration declared

/-- The tokens of a derivation spell the tree of the statement. -/
theorem Derives.spelled {statement : Statement} (derived : statement.Derives nesting tokens)
    (valid : ∀ token ∈ tokens, token.lexeme.IsValid) : statement.Spelled nesting tokens := by
  induction nesting generalizing statement tokens with
  | zero => exact Stated.spelled derived False.elim valid
  | succ nesting ih =>
    refine Stated.spelled derived (fun declared => ?_) valid
    exact declared.spelled (fun within item => ih item fun token member => valid token (within member)) valid

end Statement

/-- Each statement is derived from the tokens that spell it. -/
theorem Tree.sequence_of_spelled {Item : Statement → List Token → Prop} {trees : List Tree}
    (items : ∀ tree ∈ trees, ∀ {part : List Token}, tree.SpelledBy part →
      ∃ statement : Statement, statement.toTree = tree ∧ Item statement part) :
    ∀ {tokens : List Token}, tokens.map Token.normalized = lexemesAll trees →
      ∃ statements, Statement.toTrees statements = trees ∧ Sequence Item statements tokens := by
  induction trees with
  | nil =>
    intro tokens spelled
    obtain rfl : tokens = [] := by simpa [lexemesAll] using spelled
    exact ⟨[], rfl, .nil⟩
  | cons tree trees ih =>
    intro tokens spelled
    obtain ⟨itemTree, itemTrees⟩ := List.forall_mem_cons.mp items
    obtain ⟨front, back, rfl, spelledTree, spelledTrees⟩ := List.map_eq_append_iff.mp spelled
    obtain ⟨statement, rfl, item⟩ := itemTree spelledTree
    obtain ⟨statements, rfl, derived⟩ := ih itemTrees spelledTrees
    exact ⟨statement :: statements, rfl, .cons item derived⟩

/-- From the tokens that spell it a statement with the tree is derived. -/
theorem Tree.IsStatement.derives {nesting : Nat} {tree : Tree} (isStatement : tree.IsStatement nesting) :
    ∀ {tokens : List Token}, tree.SpelledBy tokens →
      ∃ statement : Statement, statement.toTree = tree ∧ statement.Derives nesting tokens := by
  induction isStatement with
  | returns isExpression =>
    intro tokens spelled
    rw [SpelledBy, lexemes_returns] at spelled
    obtain ⟨first, behind, rfl, same, spelledValue⟩ := List.map_eq_cons_iff.mp spelled
    obtain ⟨value, rfl, derived, -⟩ := isExpression.derives spelledValue
    have begins := (Token.normalized_eq_word_iff (by decide)).mp same
    exact ⟨.returns value, rfl, .returns begins derived⟩
  | @function nesting name parameters body _ _ _ ih =>
    intro tokens spelled
    rw [SpelledBy, lexemes_declared] at spelled
    simp only [List.map_eq_cons_iff, List.map_eq_append_iff, List.map_eq_nil_iff] at spelled
    obtain ⟨first, _, rfl, begins, second, _, rfl, same, opening, _, rfl, opens, list, _, rfl,
      spelledList, closing, _, rfl, closes, start, _, rfl, starts, inner, _, rfl, spelledBody, last,
      _, rfl, ends, rfl⟩ := spelled
    obtain ⟨statements, rfl, derivedBody⟩ := sequence_of_spelled ih spelledBody
    obtain ⟨identifier, rfl⟩ := Token.normalized_eq_name_iff.mp same
    have word {text : String} {token : Token} (same : token.normalized = word text)
        (lower : foldCase text.toList = text.toList) : isWord text token = true :=
      (Token.normalized_eq_word_iff lower).mp same
    refine ⟨_, Statement.toTree_function second.text parameters statements, .declares ?_⟩
    exact .intro (word begins (by decide)) identifier (Token.normalized_eq_mark_iff.mp opens)
      (Parameter.derivesList_of_spelled spelledList) (Token.normalized_eq_mark_iff.mp closes)
      (word starts (by decide)) derivedBody (word ends (by decide))

/-- A program is derived exactly from the tokens that spell its tree, and the trees of derived
programs are the canonical ones. -/
theorem Program.exists_derives_iff {tree : Tree} {tokens : List Token}
    (valid : ∀ token ∈ tokens, token.lexeme.IsValid) :
    (∃ program : Program, program.toTree = tree ∧ program.Derives tokens) ↔
      tree.IsCanonical ∧ tree.SpelledBy tokens := by
  constructor
  · rintro ⟨program, rfl, derived⟩
    have spelled := Sequence.imp derived fun within item =>
      Statement.Derives.spelled item fun token member => valid token (within member)
    obtain ⟨areStatements, spelled⟩ := Statement.sequence_spelled spelled
    refine ⟨⟨Statement.toTrees program.statements, rfl, areStatements⟩, ?_⟩
    rw [Tree.SpelledBy, spelled, toTree, Tree.lexemes]
  · rintro ⟨⟨trees, rfl, areStatements⟩, spelled⟩
    rw [Tree.SpelledBy, Tree.lexemes] at spelled
    obtain ⟨statements, rfl, derived⟩ :=
      Tree.sequence_of_spelled (fun tree among => (areStatements tree among).derives) spelled
    exact ⟨⟨statements⟩, rfl, derived⟩

end FuncLang
