import FuncLang.Proofs.Parse.Clean
import Mathlib.Computability.Language

/-! # The language of clean sources

The grammar as languages of tokens, without any trees: what may stand where, and how often. A source
parses cleanly exactly if its sentence is in the language of programs.

Each language is the one of the tokens that spell something, so the rest is a matter of derivations.
-/

namespace FuncLang.Grammar

open Expression (Chained Factor DerivesTerm)
open Parameter (DerivesNames DerivesList)
open Statement (Declared Stated DerivesDeclaration)
open scoped Computability

/-! ## Definitions -/

namespace Sentences

/-- One wanted token. -/
def one (wanted : Token → Bool) : Language Token :=
  {tokens | ∃ token, wanted token = true ∧ tokens = [token]}

/-- One operator with one of the symbols. -/
def operator (symbols : List String) : Language Token := one (·.isOperator symbols)

/-- Items with separators between them, at least one. -/
def separated (separator item : Language Token) : Language Token := item * (separator * item)∗

def identifier : Language Token := one (·.kind == .identifier)

def integer : Language Token := one (·.kind == .integer)

def word (text : String) : Language Token := one (isWord text)

def mark (text : String) : Language Token := one (isPunctuation text)

/-- Integers with `*` and `/` between them. -/
def product : Language Token := separated (operator ["*", "/"]) integer

/-- Products with `+` and `-` between them. -/
def sum : Language Token := separated (operator ["+", "-"]) product

/-- Nothing, or identifiers with commas between them. -/
def parameters : Language Token := 1 + separated (mark ",") identifier

/-- A `return` with its sum, or a declaration. -/
def stated (declaration : Language Token) : Language Token := word "return" * sum + declaration

/-- A declaration in which no more than the given number are nested inside one another, itself
included. -/
def declaration : Nat → Language Token
  | 0 => 0
  | nesting + 1 => word "func" * identifier * mark "(" * parameters * mark ")" * word "do" *
      (stated (declaration nesting))∗ * word "endfunc"

/-- Statements, with at most 128 declarations nested inside one another. -/
def program : Language Token := (stated (declaration 128))∗

end Sentences

open Sentences

/-! ## Languages and derivations -/

variable {α : Type} {tokens : List Token}

theorem mem_single {wanted : Token → Bool} :
    tokens ∈ one wanted ↔ ∃ token, wanted token = true ∧ tokens = [token] := Iff.rfl

theorem mem_identifier :
    tokens ∈ identifier ↔ ∃ token, token.kind = .identifier ∧ tokens = [token] := by
  simp only [identifier, mem_single, beq_iff_eq]

theorem mem_integer : tokens ∈ integer ↔ ∃ token, token.kind = .integer ∧ tokens = [token] := by
  simp only [integer, mem_single, beq_iff_eq]

theorem mem_word {text : String} :
    tokens ∈ word text ↔ ∃ token, isWord text token = true ∧ tokens = [token] := mem_single

theorem mem_mark {text : String} :
    tokens ∈ mark text ↔ ∃ token, isPunctuation text token = true ∧ tokens = [token] := mem_single

/-- A repeated language is that of the sequences of its items. -/
theorem mem_kstar_iff_sequence {language : Language Token} {Item : α → List Token → Prop}
    (items : ∀ {tokens}, tokens ∈ language ↔ ∃ value, Item value tokens) :
    tokens ∈ language∗ ↔ ∃ values, Sequence Item values tokens := by
  rw [Language.mem_kstar]
  constructor
  · rintro ⟨parts, rfl, members⟩
    induction parts with
    | nil => exact ⟨[], .nil⟩
    | cons part parts ih =>
      obtain ⟨value, item⟩ := items.mp (members part List.mem_cons_self)
      obtain ⟨values, others⟩ := ih fun part member => members part (List.mem_cons_of_mem _ member)
      exact ⟨value :: values, .cons item others⟩
  · rintro ⟨values, derived⟩
    induction derived with
    | nil => exact ⟨[], rfl, by simp⟩
    | @cons value values part others item _ ih =>
      obtain ⟨parts, rfl, members⟩ := ih
      refine ⟨part :: parts, rfl, fun other member => ?_⟩
      rcases List.mem_cons.mp member with rfl | member
      · exact items.mpr ⟨value, item⟩
      · exact members other member

theorem mem_separated_of_mem {separator item : Language Token} (member : tokens ∈ item) :
    tokens ∈ separated separator item :=
  Language.mem_mul.mpr ⟨tokens, member, [], Language.nil_mem_kstar _, List.append_nil _⟩

/-- Another item and separator in front of a separated list. -/
theorem cons_mem_separated {separator item : Language Token} {before between after : List Token}
    (first : before ∈ item) (separates : between ∈ separator)
    (others : after ∈ separated separator item) :
    before ++ (between ++ after) ∈ separated separator item := by
  obtain ⟨next, isNext, _, ⟨parts, rfl, members⟩, rfl⟩ := Language.mem_mul.mp others
  refine Language.mem_mul.mpr ⟨before, first, ((between ++ next) :: parts).flatten,
    Language.join_mem_kstar ?_, by simp⟩
  intro part member
  rcases List.mem_cons.mp member with rfl | member
  · exact Language.append_mem_mul separates isNext
  · exact members part member

/-- Another separator and item behind a separated list. -/
theorem append_mem_separated {separator item : Language Token} {before between after : List Token}
    (start : before ∈ separated separator item) (separates : between ∈ separator)
    (follows : after ∈ item) : before ++ (between ++ after) ∈ separated separator item := by
  obtain ⟨first, isFirst, _, ⟨parts, rfl, members⟩, rfl⟩ := Language.mem_mul.mp start
  refine Language.mem_mul.mpr ⟨first, isFirst, (parts ++ [between ++ after]).flatten,
    Language.join_mem_kstar ?_, by simp⟩
  intro part member
  rcases List.mem_append.mp member with member | member
  · exact members part member
  · rw [List.mem_singleton.mp member]
    exact Language.append_mem_mul separates follows

/-- What holds of every item alone and is kept by another separator and item behind it holds of every
separated list. -/
theorem separated_induction {separator item : Language Token} {motive : List Token → Prop}
    (single : ∀ {part}, part ∈ item → motive part)
    (more : ∀ {before between after}, motive before → between ∈ separator → after ∈ item →
      motive (before ++ (between ++ after)))
    (member : tokens ∈ separated separator item) : motive tokens := by
  obtain ⟨first, isFirst, _, ⟨parts, rfl, members⟩, rfl⟩ := Language.mem_mul.mp member
  have known : motive first := single isFirst
  clear isFirst member
  induction parts generalizing first with
  | nil => simpa using known
  | cons part parts ih =>
    obtain ⟨between, separates, after, follows, rfl⟩ :=
      Language.mem_mul.mp (members part List.mem_cons_self)
    rw [List.flatten_cons, ← List.append_assoc]
    exact ih _ (fun part member => members part (List.mem_cons_of_mem _ member))
      (more known separates follows)

theorem mem_operator {level : Level} {symbols : List String}
    (all : level.operators.map Operator.symbol = symbols) :
    tokens ∈ operator symbols ↔
      ∃ token operator, level.operator? token = some operator ∧ tokens = [token] := by
  have same (token : Token) : token.isOperator symbols = true ↔
      ∃ operator, level.operator? token = some operator := by
    simp only [Level.operator?_eq_some_iff, Token.isOperator, ← all, Bool.and_eq_true, beq_iff_eq,
      List.contains_eq_mem, decide_eq_true_eq, List.mem_map, Level.mem_operators]
    constructor
    · rintro ⟨kind, operator, found, text⟩
      exact ⟨operator, found, kind, text.symm⟩
    · rintro ⟨operator, found, kind, text⟩
      exact ⟨kind, operator, found, text.symm⟩
  simp only [operator, mem_single, same]
  constructor
  · rintro ⟨token, ⟨operator, found⟩, rfl⟩
    exact ⟨token, operator, found, rfl⟩
  · rintro ⟨token, operator, found, rfl⟩
    exact ⟨token, ⟨operator, found⟩, rfl⟩

/-- Operands separated by the operators of a level are the chains of these operands. -/
theorem mem_separated_iff_chained {level : Level} {symbols : List String}
    (all : level.operators.map Operator.symbol = symbols) {item : Language Token}
    {Operand : Expression → List Token → Prop}
    (operands : ∀ {tokens}, tokens ∈ item ↔ ∃ value, Operand value tokens) :
    tokens ∈ separated (operator symbols) item ↔ ∃ value, Chained level Operand value tokens := by
  constructor
  · refine separated_induction (motive := fun tokens => ∃ value, Chained level Operand value tokens)
      (fun member => ?_) ?_
    · obtain ⟨value, operand⟩ := operands.mp member
      exact ⟨value, .single operand⟩
    · rintro before between after ⟨left, chained⟩ separates follows
      obtain ⟨token, operator, found, rfl⟩ := (mem_operator all).mp separates
      obtain ⟨right, operand⟩ := operands.mp follows
      exact ⟨_, chained.more found operand⟩
  · rintro ⟨value, chained⟩
    induction chained with
    | single operand => exact mem_separated_of_mem (operands.mpr ⟨_, operand⟩)
    | more _ found operand ih =>
      exact append_mem_separated ih ((mem_operator all).mpr ⟨_, _, found, rfl⟩)
        (operands.mpr ⟨_, operand⟩)

theorem mem_integer_iff :
    tokens ∈ integer ↔ ∃ value, Expression.DerivesFactor 0 value tokens := by
  rw [mem_integer]
  constructor
  · rintro ⟨token, kind, rfl⟩
    exact ⟨_, .literal kind⟩
  · rintro ⟨value, derived⟩
    cases derived with
    | literal kind => exact ⟨_, kind, rfl⟩
    | group group => exact group.elim

theorem mem_product_iff : tokens ∈ product ↔ ∃ value, DerivesTerm 0 value tokens := by
  have all : Level.product.operators.map Operator.symbol = ["*", "/"] := rfl
  exact mem_separated_iff_chained all mem_integer_iff

theorem mem_sum_iff : tokens ∈ sum ↔ ∃ value, Expression.Derives 0 value tokens := by
  have all : Level.sum.operators.map Operator.symbol = ["+", "-"] := rfl
  exact mem_separated_iff_chained all mem_product_iff

theorem mem_separated_names_iff :
    tokens ∈ separated (mark ",") identifier ↔ ∃ parameters, DerivesNames parameters tokens := by
  constructor
  · refine separated_induction (motive := fun tokens => ∃ parameters, DerivesNames parameters tokens)
      (fun member => ?_) ?_
    · obtain ⟨name, kind, rfl⟩ := mem_identifier.mp member
      exact ⟨_, .single kind⟩
    · rintro before between after ⟨parameters, derived⟩ between' follows
      obtain ⟨comma, separates, rfl⟩ := mem_mark.mp between'
      obtain ⟨name, kind, rfl⟩ := mem_identifier.mp follows
      exact ⟨_, derived.append separates kind⟩
  · rintro ⟨parameters, derived⟩
    induction derived with
    | @single name kind => exact mem_separated_of_mem (mem_identifier.mpr ⟨name, kind, rfl⟩)
    | @more name comma parameters tokens kind separates _ ih =>
      exact cons_mem_separated (mem_identifier.mpr ⟨name, kind, rfl⟩)
        (mem_mark.mpr ⟨comma, separates, rfl⟩) ih

theorem mem_parameters_iff :
    tokens ∈ Sentences.parameters ↔ ∃ parameters, DerivesList parameters tokens := by
  rw [Sentences.parameters, Language.mem_add, Language.mem_one, mem_separated_names_iff]
  constructor
  · rintro (rfl | ⟨parameters, names⟩)
    · exact ⟨[], .none⟩
    · exact ⟨parameters, .names names⟩
  · rintro ⟨parameters, derived⟩
    cases derived with
    | none => exact .inl rfl
    | names names => exact .inr ⟨parameters, names⟩

theorem mem_stated_iff {declared : Language Token} {Declaration : Statement → List Token → Prop}
    (declarations : ∀ {tokens}, tokens ∈ declared ↔ ∃ statement, Declaration statement tokens) :
    tokens ∈ stated declared ↔ ∃ statement, Stated Declaration statement tokens := by
  rw [stated, Language.mem_add, Language.mem_mul, declarations]
  constructor
  · rintro (⟨_, returns, rest, member, rfl⟩ | ⟨statement, declared⟩)
    · obtain ⟨first, begins, rfl⟩ := mem_word.mp returns
      obtain ⟨value, derived⟩ := mem_sum_iff.mp member
      exact ⟨_, .returns begins derived⟩
    · exact ⟨statement, .declares declared⟩
  · rintro ⟨statement, derived⟩
    cases derived with
    | @returns first value rest begins derived =>
      exact .inl ⟨[first], mem_word.mpr ⟨first, begins, rfl⟩, rest, mem_sum_iff.mpr ⟨value, derived⟩,
        rfl⟩
    | declares declared => exact .inr ⟨statement, declared⟩

/-- The parts of a declaration, one after the other. -/
theorem mem_parts_iff {bodies : Language Token} {Body : List Statement → List Token → Prop}
    (derivedBodies : ∀ {tokens}, tokens ∈ bodies ↔ ∃ body, Body body tokens) :
    tokens ∈ word "func" * identifier * mark "(" * Sentences.parameters * mark ")" * word "do" *
      bodies * word "endfunc" ↔ ∃ statement, Declared Body statement tokens := by
  simp only [mul_assoc, Language.mem_mul]
  constructor
  · rintro ⟨_, func, _, ⟨_, name, _, ⟨_, opening, _, ⟨list, member, _, ⟨_, closing, _, ⟨_, start, _,
      ⟨inner, memberBody, _, last, rfl⟩, rfl⟩, rfl⟩, rfl⟩, rfl⟩, rfl⟩, rfl⟩
    obtain ⟨_, begins, rfl⟩ := mem_word.mp func
    obtain ⟨_, kind, rfl⟩ := mem_identifier.mp name
    obtain ⟨_, opens, rfl⟩ := mem_mark.mp opening
    obtain ⟨_, derivedList⟩ := mem_parameters_iff.mp member
    obtain ⟨_, closes, rfl⟩ := mem_mark.mp closing
    obtain ⟨_, starts, rfl⟩ := mem_word.mp start
    obtain ⟨_, derivedBody⟩ := derivedBodies.mp memberBody
    obtain ⟨_, ends, rfl⟩ := mem_word.mp last
    exact ⟨_, .intro begins kind opens derivedList closes starts derivedBody ends⟩
  · rintro ⟨_, begins, kind, opens, derivedList, closes, starts, derivedBody, ends⟩
    exact ⟨_, mem_word.mpr ⟨_, begins, rfl⟩, _, ⟨_, mem_identifier.mpr ⟨_, kind, rfl⟩, _,
      ⟨_, mem_mark.mpr ⟨_, opens, rfl⟩, _, ⟨_, mem_parameters_iff.mpr ⟨_, derivedList⟩, _,
      ⟨_, mem_mark.mpr ⟨_, closes, rfl⟩, _, ⟨_, mem_word.mpr ⟨_, starts, rfl⟩, _,
      ⟨_, derivedBodies.mpr ⟨_, derivedBody⟩, _, mem_word.mpr ⟨_, ends, rfl⟩,
      rfl⟩, rfl⟩, rfl⟩, rfl⟩, rfl⟩, rfl⟩, rfl⟩

/-- By induction on how deep declarations may be nested. -/
theorem mem_declaration_iff (nesting : Nat) :
    tokens ∈ declaration nesting ↔ ∃ statement, DerivesDeclaration nesting statement tokens := by
  induction nesting generalizing tokens with
  | zero =>
    refine ⟨fun member => (Language.notMem_zero tokens member).elim, ?_⟩
    rintro ⟨_, impossible⟩
    exact impossible.elim
  | succ nesting ih => exact mem_parts_iff (mem_kstar_iff_sequence (mem_stated_iff ih))

/-- The sentences of the grammar are the token lists that spell a program. -/
theorem mem_program_iff : tokens ∈ Sentences.program ↔ ∃ program : Program, program.Derives tokens := by
  rw [Sentences.program, mem_kstar_iff_sequence (mem_stated_iff (mem_declaration_iff 128))]
  exact ⟨fun ⟨statements, derived⟩ => ⟨⟨statements⟩, derived⟩,
    fun ⟨program, derived⟩ => ⟨program.statements, derived⟩⟩

/-- With room for a diagnostic, a parse is clean exactly if the sentence of the source is one of the
grammar. -/
theorem isClean_iff_mem_program (config : Config) (source : String) (room : 1 ≤ config.limit) :
    (parseWith config source).isClean = true ↔ sentence source ∈ Sentences.program := by
  rw [isClean_parseWith room, mem_program_iff]
  constructor
  · intro clean
    exact ⟨_, (reading_clean_iff source _).mp ⟨clean, rfl⟩⟩
  · rintro ⟨program, derived⟩
    exact ((reading_clean_iff source program).mpr derived).1

theorem mem_program_of_room_for_one :
    1 ≤ (⟨1, "main"⟩ : Config).limit ∧
      sentence "FUNC f(a, b) do # both\n return 1 + 2*3 func g() do endfunc endFunc" ∈
        Sentences.program :=
  ⟨by decide, (isClean_iff_mem_program ⟨1, "main"⟩ _ (by decide)).mp (by decide +kernel)⟩

end FuncLang.Grammar
