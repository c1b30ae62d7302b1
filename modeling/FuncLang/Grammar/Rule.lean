import FuncLang.Grammar.Problem
import FuncLang.Unread

/-! # Rules

A rule of the grammar reads from a list of tokens. It never fails: it gives a value, the problems
that it raised, and the tokens that it left. That these are an end of the list it was given is part
of a rule, so no rule can lose its place or go back.

The end of the input is not a token of the list; its position is handed to every rule, because
problems can show there.
-/

namespace FuncLang.Grammar

/-- What a rule makes of a list of tokens. -/
structure Reading (α : Type) where
  value : α
  /-- The problems that were raised, in order. -/
  raised : List Problem
  /-- The tokens that were not read. -/
  rest : List Token
deriving Repr

/-- A way to read from a list of tokens, behind which the input ends at a position. -/
structure Rule (α : Type) where
  read : Position → List Token → Reading α
  rest_suffix : ∀ finish unread, (read finish unread).rest <:+ unread

namespace Rule

variable {α β : Type}

/-- Reads nothing. -/
protected def pure (value : α) : Rule α where
  read _ unread := ⟨value, [], unread⟩
  rest_suffix _ unread := List.suffix_refl unread

/-- Reads by one rule, then by the one that its value asks for. -/
protected def bind (rule : Rule α) (next : α → Rule β) : Rule β where
  read finish unread :=
    let one := rule.read finish unread
    let two := (next one.value).read finish one.rest
    ⟨two.value, one.raised ++ two.raised, two.rest⟩
  rest_suffix finish unread :=
    ((next _).rest_suffix finish _).trans (rule.rest_suffix finish unread)

instance : Monad Rule where
  pure := Rule.pure
  bind := Rule.bind

@[simp] theorem read_pure (value : α) (finish : Position) (unread : List Token) :
    (pure value : Rule α).read finish unread = ⟨value, [], unread⟩ := rfl

@[simp] theorem read_bind (rule : Rule α) (next : α → Rule β) (finish : Position)
    (unread : List Token) :
    (rule >>= next).read finish unread =
      let one := rule.read finish unread
      let two := (next one.value).read finish one.rest
      ⟨two.value, one.raised ++ two.raised, two.rest⟩ := rfl

theorem length_rest_le (rule : Rule α) (finish : Position) (unread : List Token) :
    (rule.read finish unread).rest.length ≤ unread.length :=
  (rule.rest_suffix finish unread).length_le

/-- The next token, which is not read; none at the end of the input. -/
def peek? : Rule (Option Token) where
  read _ unread := ⟨unread.head?, [], unread⟩
  rest_suffix _ unread := List.suffix_refl unread

/-- Reads the next token if it is a wanted one. -/
def take? (wanted : Token → Bool) : Rule (Option Token) where
  read _
    | [] => ⟨none, [], []⟩
    | token :: unread =>
      if wanted token then ⟨some token, [], unread⟩ else ⟨none, [], token :: unread⟩
  rest_suffix _ unread := by
    cases unread with
    | nil => exact List.suffix_refl []
    | cons token unread =>
      simp only
      split
      · exact List.suffix_cons token unread
      · exact List.suffix_refl _

/-- Reads nothing and raises a fault at a token. -/
def blame (token : Token) (fault : Fault) : Rule Unit where
  read _ unread := ⟨(), [⟨fault, token⟩], unread⟩
  rest_suffix _ unread := List.suffix_refl unread

/-- Reads nothing and raises a fault at the next token or the end of the input. -/
def raise (fault : Fault) : Rule Unit where
  read finish unread := ⟨(), [⟨fault, lookahead finish unread⟩], unread⟩
  rest_suffix _ unread := List.suffix_refl unread

@[simp] theorem read_peek? (finish : Position) (unread : List Token) :
    peek?.read finish unread = ⟨unread.head?, [], unread⟩ := rfl

@[simp] theorem read_take?_nil (wanted : Token → Bool) (finish : Position) :
    (take? wanted).read finish [] = ⟨none, [], []⟩ := rfl

@[simp] theorem read_take?_cons (wanted : Token → Bool) (finish : Position) (token : Token)
    (unread : List Token) :
    (take? wanted).read finish (token :: unread) =
      if wanted token then ⟨some token, [], unread⟩ else ⟨none, [], token :: unread⟩ := rfl

@[simp] theorem read_blame (token : Token) (fault : Fault) (finish : Position)
    (unread : List Token) :
    (blame token fault).read finish unread = ⟨(), [⟨fault, token⟩], unread⟩ := rfl

@[simp] theorem read_raise (fault : Fault) (finish : Position) (unread : List Token) :
    (raise fault).read finish unread = ⟨(), [⟨fault, lookahead finish unread⟩], unread⟩ := rfl

/-- Reads the next token if it is a wanted one, and tells whether it was. -/
def eat (wanted : Token → Bool) : Rule Bool := do return (← take? wanted).isSome

/-- Reads the next token, which ought to be a wanted one; raises a fault if it is not. -/
def expect (wanted : Token → Bool) (fault : Fault) : Rule Unit := do
  unless ← eat wanted do raise fault

@[simp] theorem read_eat_nil (wanted : Token → Bool) (finish : Position) :
    (eat wanted).read finish [] = ⟨false, [], []⟩ := rfl

@[simp] theorem read_eat_cons (wanted : Token → Bool) (finish : Position) (token : Token)
    (unread : List Token) :
    (eat wanted).read finish (token :: unread) =
      if wanted token then ⟨true, [], unread⟩ else ⟨false, [], token :: unread⟩ := by
  simp only [eat, read_bind, read_take?_cons, read_pure]
  split <;> rfl

@[simp] theorem read_expect_nil (wanted : Token → Bool) (fault : Fault) (finish : Position) :
    (expect wanted fault).read finish [] = ⟨(), [⟨fault, Token.endOfInput finish⟩], []⟩ := rfl

@[simp] theorem read_expect_cons (wanted : Token → Bool) (fault : Fault) (finish : Position)
    (token : Token) (unread : List Token) :
    (expect wanted fault).read finish (token :: unread) =
      if wanted token then ⟨(), [], unread⟩ else ⟨(), [⟨fault, token⟩], token :: unread⟩ := by
  simp only [expect, read_bind, read_eat_cons]
  split <;> rfl

/-- Items that each begin with a token of their own, up to a token that stops them. -/
def manyRead (stops : Token → Bool) (item : Token → Rule α) (finish : Position) :
    List Token → Reading (List α)
  | [] => ⟨[], [], []⟩
  | token :: unread =>
    if stops token then ⟨[], [], token :: unread⟩
    else
      let one := (item token).read finish unread
      let others := manyRead stops item finish one.rest
      ⟨one.value :: others.value, one.raised ++ others.raised, others.rest⟩
termination_by unread => unread.length
decreasing_by exact Nat.lt_succ_of_le ((item token).length_rest_le finish unread)

theorem manyRead_rest_suffix (stops : Token → Bool) (item : Token → Rule α) (finish : Position)
    (unread : List Token) : (manyRead stops item finish unread).rest <:+ unread := by
  fun_induction manyRead stops item finish unread with
  | case1 => exact List.suffix_refl []
  | case2 => exact List.suffix_refl _
  | case3 token unread _ one _ ih =>
    exact (ih.trans ((item token).rest_suffix finish unread)).trans (List.suffix_cons token unread)

/-- Reads items up to a token that stops them, or to the end of the input. An item is handed the
token it begins with, and reads what follows. -/
def many (stops : Token → Bool) (item : Token → Rule α) : Rule (List α) where
  read := manyRead stops item
  rest_suffix := manyRead_rest_suffix stops item

@[simp] theorem read_many_nil (stops : Token → Bool) (item : Token → Rule α)
    (finish : Position) : (many stops item).read finish [] = ⟨[], [], []⟩ := by
  simp only [many, manyRead]

theorem read_many_stop {stops : Token → Bool} {token : Token} (stop : stops token = true)
    (item : Token → Rule α) (finish : Position) (unread : List Token) :
    (many stops item).read finish (token :: unread) = ⟨[], [], token :: unread⟩ := by
  simp only [many, manyRead, stop, if_true]

theorem read_many_item {stops : Token → Bool} {token : Token} (go : stops token = false)
    (item : Token → Rule α) (finish : Position) (unread : List Token) :
    (many stops item).read finish (token :: unread) =
      let one := (item token).read finish unread
      let others := (many stops item).read finish one.rest
      ⟨one.value :: others.value, one.raised ++ others.raised, others.rest⟩ := by
  simp [many, manyRead, go]

end Rule

end FuncLang.Grammar
