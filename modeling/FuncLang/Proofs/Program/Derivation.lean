import FuncLang.Grammar.Statement
import FuncLang.Proofs.Expression.Derivation
import FuncLang.Proofs.Grammar.Acceptance

/-! # Derivations of programs

Which tokens spell which program. A program is a sequence of statements, and a statement is a
`return` with its expression or a declaration, whose body is a sequence of statements again.
Derivations of declarations are counted by how deep declarations may be nested. Nothing spells the
placeholders.
-/

namespace FuncLang

open Grammar (isWord isPunctuation maxNesting Sequence)

namespace Parameter

/-- Names with commas between them. -/
inductive DerivesNames : List Parameter → List Token → Prop
  | single {name : Token} (identifier : name.kind = .identifier) :
      DerivesNames [.named name.text] [name]
  | more {name comma : Token} {parameters : List Parameter} {tokens : List Token}
      (identifier : name.kind = .identifier) (separates : isPunctuation "," comma = true)
      (others : DerivesNames parameters tokens) :
      DerivesNames (.named name.text :: parameters) (name :: comma :: tokens)

/-- Another name behind a list of names. -/
theorem DerivesNames.append {parameters : List Parameter} {tokens : List Token} {comma name : Token}
    (derived : DerivesNames parameters tokens) (separates : isPunctuation "," comma = true)
    (identifier : name.kind = .identifier) :
    DerivesNames (parameters ++ [.named name.text]) (tokens ++ [comma, name]) := by
  induction derived with
  | single first => exact .more first separates (.single identifier)
  | more first between _ ih => exact .more first between ih

/-- Nothing, or names with commas between them. -/
inductive DerivesList : List Parameter → List Token → Prop
  | none : DerivesList [] []
  | names {parameters : List Parameter} {tokens : List Token}
      (names : DerivesNames parameters tokens) : DerivesList parameters tokens

end Parameter

namespace Statement

/-- The parts of a declaration one after the other. -/
inductive Declared (Body : List Statement → List Token → Prop) : Statement → List Token → Prop
  | intro {first name opening closing start last : Token} {parameters : List Parameter}
      {body : List Statement} {list inner : List Token} (begins : isWord "func" first = true)
      (identifier : name.kind = .identifier) (opens : isPunctuation "(" opening = true)
      (derivedList : Parameter.DerivesList parameters list)
      (closes : isPunctuation ")" closing = true) (starts : isWord "do" start = true)
      (derivedBody : Body body inner) (ends : isWord "endfunc" last = true) :
      Declared Body (.function (some name.text) parameters body)
        (first :: name :: opening :: (list ++ closing :: start :: (inner ++ [last])))

/-- A `return` with its expression, or a declaration. -/
inductive Stated (Declaration : Statement → List Token → Prop) : Statement → List Token → Prop
  | returns {first : Token} {value : Expression} {tokens : List Token}
      (begins : isWord "return" first = true) (derived : value.Derives 0 tokens) :
      Stated Declaration (.returns value) (first :: tokens)
  | declares {statement : Statement} {tokens : List Token}
      (declared : Declaration statement tokens) : Stated Declaration statement tokens

/-- A declaration in which others are nested less deep than the given number. -/
def DerivesDeclaration : Nat → Statement → List Token → Prop
  | 0 => fun _ _ => False
  | nesting + 1 => Declared (Sequence (Stated (DerivesDeclaration nesting)))

/-- A statement in which declarations are nested as deep as the given number at most. -/
def Derives (nesting : Nat) : Statement → List Token → Prop := Stated (DerivesDeclaration nesting)

/-- A declaration begins with its `func`. -/
theorem DerivesDeclaration.begins {nesting : Nat} {statement : Statement} {tokens : List Token}
    (derived : DerivesDeclaration nesting statement tokens) :
    ∃ first behind, tokens = first :: behind ∧ isWord "func" first = true := by
  cases nesting with
  | zero => exact derived.elim
  | succ nesting =>
    obtain ⟨begins, _⟩ := derived
    exact ⟨_, _, rfl, begins⟩

/-- A statement begins with one of two keywords. -/
theorem Derives.begins {nesting : Nat} {statement : Statement} {tokens : List Token}
    (derived : Derives nesting statement tokens) :
    ∃ first behind, tokens = first :: behind ∧
      (isWord "return" first = true ∨ isWord "func" first = true) := by
  cases derived with
  | returns begins _ => exact ⟨_, _, rfl, .inl begins⟩
  | declares declared =>
    obtain ⟨first, behind, rfl, begins⟩ := declared.begins
    exact ⟨first, behind, rfl, .inr begins⟩

end Statement

/-- The tokens spell the program, in which declarations are nested no deeper than they may be. -/
def Program.Derives (program : Program) (tokens : List Token) : Prop :=
  Sequence (Statement.Derives maxNesting) program.statements tokens

end FuncLang
