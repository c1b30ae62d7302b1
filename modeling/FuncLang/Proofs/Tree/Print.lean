import FuncLang.Proofs.Scanner.Joined
import FuncLang.Proofs.Tree.Canonical

/-! # Printed trees

A tree is printed as the lexemes of a source that has it, with one blank between each two of them.
-/

namespace FuncLang

namespace Lexeme

/-- A reserved word. -/
def word (text : String) : Lexeme := ⟨.keyword, text⟩

/-- A name. -/
def name (text : String) : Lexeme := ⟨.identifier, text⟩

/-- A punctuation mark. -/
def mark (text : String) : Lexeme := ⟨.punctuation, text⟩

/-- The lexeme with the letters of a keyword in lower case. -/
def normalized (lexeme : Lexeme) : Lexeme :=
  if lexeme.kind = .keyword then word (String.ofList (foldCase lexeme.text.toList)) else lexeme

/-- Whether the lexeme can be printed and is not changed by normalizing it. -/
def IsPrinted (lexeme : Lexeme) : Prop := lexeme.IsPlain ∧ lexeme.normalized = lexeme

theorem isPrinted_word {text : String} (listed : text ∈ ["func", "do", "endfunc", "return"]) :
    (word text).IsPrinted := by
  have reserved : ∀ text ∈ ["func", "do", "endfunc", "return"], IsName text.toList ∧
      FuncLang.isKeyword text.toList = true ∧ foldCase text.toList = text.toList := by decide
  obtain ⟨isName, isKeyword, lower⟩ := reserved text listed
  refine ⟨⟨⟨isName, isKeyword_iff.mp isKeyword⟩, by simp [word]⟩, ?_⟩
  simp [normalized, word, lower]

theorem isPrinted_mark {text : String} (listed : text ∈ ["(", ")", ","]) :
    (mark text).IsPrinted := by
  have symbols : ∀ text ∈ ["(", ")", ","], ∃ c ∈ punctuationSymbols, text.toList = [c] := by
    simp [punctuationSymbols]
  exact ⟨⟨symbols text listed, by simp [mark]⟩, rfl⟩

theorem isPrinted_name {text : String} (free : Tree.IsFreeName text) : (name text).IsPrinted :=
  ⟨⟨free, by simp [name]⟩, rfl⟩

theorem isPrinted_integer {digits : String} (isNumber : IsNumber digits.toList) :
    IsPrinted ⟨.integer, digits⟩ := ⟨⟨isNumber, by simp⟩, rfl⟩

theorem isPrinted_operator (operator : Operator) : IsPrinted ⟨.operator, operator.symbol⟩ := by
  have symbol : ∃ c ∈ operatorSymbols, operator.symbol.toList = [c] := by
    cases operator <;> simp [operatorSymbols, Operator.symbol]
  exact ⟨⟨symbol, by simp⟩, rfl⟩

end Lexeme

namespace Tree

open Lexeme (word mark isPrinted_word isPrinted_mark)

/-- Names with commas between them. -/
def nameLexemes (names : List String) : List Lexeme :=
  (names.map Lexeme.name).intersperse (mark ",")

/-- The names of the parameters among the children of a declaration. -/
def parameterNames (children : List Tree) : List String :=
  (children.filter (·.kind == .parameter)).map (·.value)

mutual

/-- The lexemes of a tree in the order in which a source has them. -/
def lexemes : Tree → List Lexeme
  | ⟨.program, _, children⟩ => lexemesAll children
  | ⟨.functionDeclaration, value, children⟩ =>
    word "func" :: .name value :: mark "(" ::
      (nameLexemes (parameterNames children) ++ mark ")" :: lexemesAll children)
  | ⟨.functionBody, _, children⟩ => word "do" :: (lexemesAll children ++ [word "endfunc"])
  | ⟨.returnStatement, _, children⟩ => word "return" :: lexemesAll children
  | ⟨.expression, value, [left, right]⟩ => lexemes left ++ ⟨.operator, value⟩ :: lexemes right
  | ⟨.integer, value, _⟩ => [⟨.integer, value⟩]
  | _ => []

/-- The lexemes of several trees, one tree after the other. -/
def lexemesAll : List Tree → List Lexeme
  | [] => []
  | tree :: trees => lexemes tree ++ lexemesAll trees

end

/-- The lexemes of a tree as a source, with one blank between each two of them. -/
def print (tree : Tree) : String := String.ofList (Lexeme.joined ' ' tree.lexemes)

theorem lexemesAll_eq_flatMap (trees : List Tree) : lexemesAll trees = trees.flatMap lexemes := by
  induction trees with
  | nil => rfl
  | cons tree trees ih => rw [lexemesAll, ih, List.flatMap_cons]

theorem lexemes_returns (value : Tree) :
    lexemes ⟨.returnStatement, "", [value]⟩ = word "return" :: value.lexemes := by
  simp [lexemes, lexemesAll]

theorem lexemes_binary (symbol : String) (left right : Tree) :
    (Tree.binary symbol left right).lexemes =
      left.lexemes ++ ⟨.operator, symbol⟩ :: right.lexemes := by
  simp [Tree.binary, lexemes]

/-- Parameters print in the header of their declaration, the body behind it. -/
theorem lexemes_declared (name : String) (parameters : List String) (body : List Tree) :
    lexemes ⟨.functionDeclaration, name, declared parameters body⟩ =
      word "func" :: .name name :: mark "(" :: (nameLexemes parameters ++
        mark ")" :: word "do" :: (lexemesAll body ++ [word "endfunc"])) := by
  have names : parameterNames (declared parameters body) = parameters := by
    simp [parameterNames, declared, leaf, List.filter_map, Function.comp_def]
  have children : lexemesAll (declared parameters body) =
      word "do" :: (lexemesAll body ++ [word "endfunc"]) := by
    simp [lexemesAll_eq_flatMap, declared, leaf, lexemes, List.flatMap_map]
  rw [lexemes, names, children]

/-- All lexemes of an expression can be printed. -/
theorem IsExpression.isPrinted {tree : Tree} (isExpression : tree.IsExpression) :
    ∀ lexeme ∈ tree.lexemes, lexeme.IsPrinted := by
  induction isExpression with
  | integer isNumber => simpa [leaf, lexemes] using Lexeme.isPrinted_integer isNumber
  | @binary operator left right _ _ _ _ printedLeft printedRight =>
    rw [lexemes_binary]
    intro lexeme member
    rcases List.mem_append.mp member with member | member
    · exact printedLeft lexeme member
    · rcases List.mem_cons.mp member with rfl | member
      · exact Lexeme.isPrinted_operator operator
      · exact printedRight lexeme member

theorem nameLexemes_cons_cons (first second : String) (others : List String) :
    nameLexemes (first :: second :: others) =
      .name first :: mark "," :: nameLexemes (second :: others) := by
  simp [nameLexemes]

theorem isPrinted_nameLexemes {names : List String} (free : ∀ name ∈ names, IsFreeName name) :
    ∀ lexeme ∈ nameLexemes names, lexeme.IsPrinted := by
  induction names with
  | nil => simp [nameLexemes]
  | cons first others ih =>
    obtain ⟨freeFirst, freeOthers⟩ := List.forall_mem_cons.mp free
    have printedFirst := Lexeme.isPrinted_name freeFirst
    cases others with
    | nil => simpa [nameLexemes] using printedFirst
    | cons second others =>
      rw [nameLexemes_cons_cons]
      have comma : (mark ",").IsPrinted := isPrinted_mark (by decide)
      exact List.forall_mem_cons.mpr ⟨printedFirst, List.forall_mem_cons.mpr ⟨comma, ih freeOthers⟩⟩

theorem isPrinted_lexemesAll {trees : List Tree}
    (printed : ∀ tree ∈ trees, ∀ lexeme ∈ tree.lexemes, lexeme.IsPrinted) :
    ∀ lexeme ∈ lexemesAll trees, lexeme.IsPrinted := by
  intro lexeme member
  rw [lexemesAll_eq_flatMap] at member
  obtain ⟨tree, among, member⟩ := List.mem_flatMap.mp member
  exact printed tree among lexeme member

/-- All lexemes of a statement can be printed. -/
theorem IsStatement.isPrinted {nesting : Nat} {tree : Tree} (isStatement : tree.IsStatement nesting) :
    ∀ lexeme ∈ tree.lexemes, lexeme.IsPrinted := by
  induction isStatement with
  | returns isExpression =>
    rw [lexemes_returns]
    exact List.forall_mem_cons.mpr ⟨isPrinted_word (by decide), isExpression.isPrinted⟩
  | @function nesting name parameters body isName areNames _ printed =>
    have names := isPrinted_nameLexemes areNames
    have inner := isPrinted_lexemesAll printed
    rw [lexemes_declared]
    simp only [List.forall_mem_cons, List.forall_mem_append]
    exact ⟨isPrinted_word (by decide), Lexeme.isPrinted_name isName, isPrinted_mark (by decide),
      names, isPrinted_mark (by decide), isPrinted_word (by decide), inner,
      isPrinted_word (by decide), List.forall_mem_nil _⟩

theorem IsCanonical.isPrinted {tree : Tree} (canonical : tree.IsCanonical) :
    ∀ lexeme ∈ tree.lexemes, lexeme.IsPrinted := by
  obtain ⟨statements, rfl, areStatements⟩ := canonical
  rw [lexemes]
  exact isPrinted_lexemesAll fun statement among => (areStatements statement among).isPrinted

/-- A canonical tree is printed as a source with its lexemes. -/
theorem IsCanonical.lexemes_tokenize_print {tree : Tree} (canonical : tree.IsCanonical) :
    (tokenize tree.print).map Token.lexeme = tree.lexemes ++ [⟨.endOfInput, ""⟩] :=
  Lexeme.lexemes_tokenize_joined_of_plain fun lexeme member => (canonical.isPrinted lexeme member).1

end Tree

end FuncLang
