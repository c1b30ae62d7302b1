import FuncLang.Proofs.Expression.Derivation

/-! # Beginnings of expressions

With which tokens an expression can begin shows in two ways. `Place.behind` takes in one token after the
other and remembers nothing but how many parentheses are open and whether an operand is due. What it
refuses begins no expression, whatever the number of parentheses that may be open. `Due` follows the
grammar instead: it says which part of an expression is due behind which tokens. Where a part is due, it
can be completed to an expression, so the tokens that stand before it do begin one.
-/

namespace FuncLang.Expression

/-- Whether some expression, with no more than `limit` parentheses open at once, begins with the tokens.
-/
def Begins (limit : Nat) (tokens : List Token) : Prop :=
  ∃ value behind, Derives limit value (tokens ++ behind)

/-! ## One token after the other -/

/-- How many parentheses are open behind some tokens, and whether an operand is due next. -/
structure Place where
  opened : Nat
  operandDue : Bool
deriving DecidableEq, Repr

namespace Place

/-- The place at the beginning of an expression. -/
def start : Place := ⟨0, true⟩

/-- The place behind one more token, if the token can stand here. -/
def step : Place → Token → Option Place
  | ⟨opened, true⟩, token =>
    if token.is .punctuation "(" then some ⟨opened + 1, true⟩
    else if token.kind = .integer then some ⟨opened, false⟩
    else none
  | ⟨opened, false⟩, token =>
    if (Level.sum.operator? token).isSome ∨ (Level.product.operator? token).isSome then
      some ⟨opened, true⟩
    else if token.is .punctuation ")" ∧ 0 < opened then some ⟨opened - 1, false⟩
    else none

/-- The place behind some more tokens, if they can stand here. -/
def behind (place : Place) (tokens : List Token) : Option Place := tokens.foldlM step place

theorem behind_append (place : Place) (before after : List Token) :
    place.behind (before ++ after) = (place.behind before).bind (·.behind after) :=
  List.foldlM_append

@[simp] theorem behind_cons (place : Place) (token : Token) (tokens : List Token) :
    place.behind (token :: tokens) = (place.step token).bind (·.behind tokens) :=
  List.foldlM_cons

@[simp] theorem behind_nil (place : Place) : place.behind [] = some place := rfl

theorem step_integer {token : Token} (integer : token.kind = .integer) (opened : Nat) :
    step ⟨opened, true⟩ token = some ⟨opened, false⟩ := by
  simp [step, Token.is, integer]

theorem step_opening {token : Token} (opens : token.is .punctuation "(" = true) (opened : Nat) :
    step ⟨opened, true⟩ token = some ⟨opened + 1, true⟩ := by
  rw [step, if_pos opens]

theorem step_operator {level : Level} {token : Token} {operator : Operator}
    (found : level.operator? token = some operator) (opened : Nat) :
    step ⟨opened, false⟩ token = some ⟨opened, true⟩ := by
  cases level <;> simp [step, found]

theorem step_closing {token : Token} (closes : token.is .punctuation ")" = true) (opened : Nat) :
    step ⟨opened + 1, false⟩ token = some ⟨opened, false⟩ := by
  have kind : token.kind ≠ .operator := fun operator => by simp [Token.is, operator] at closes
  have noOperator (level : Level) : level.operator? token = none :=
    Option.eq_none_iff_forall_not_mem.mpr fun _ found => kind (Level.operator?_eq_some found).2.1
  simp [step, noOperator, closes]

/-- A step opens a parenthesis, closes one, or does neither, just as its token does. -/
theorem opened_step {place next : Place} {token : Token} (stepped : place.step token = some next) :
    place.opened + (if token.is .punctuation "(" then 1 else 0) =
      next.opened + (if token.is .punctuation ")" then 1 else 0) := by
  obtain ⟨opened, due⟩ := place
  cases due with
  | true =>
    simp only [step] at stepped
    split at stepped
    next opens =>
      obtain rfl := Option.some.inj stepped
      have other : token.is .punctuation ")" = false := by simp_all [Token.is]
      simp [opens, other]
    next other =>
      split at stepped
      next integer =>
        obtain rfl := Option.some.inj stepped
        simp [Token.is, integer]
      next => cases stepped
  | false =>
    simp only [step] at stepped
    split at stepped
    next operator =>
      obtain rfl := Option.some.inj stepped
      have kind : token.kind = .operator := by
        rcases operator with found | found <;>
          exact (Level.operator?_eq_some (Option.some_get found).symm).2.1
      simp [Token.is, kind]
    next =>
      split at stepped
      next closes =>
        obtain rfl := Option.some.inj stepped
        have other : token.is .punctuation "(" = false := by simp_all [Token.is]
        simp [closes.1, other, Nat.sub_add_cancel closes.2]
      next => cases stepped

/-- What is open behind some tokens is what was open before, and every parenthesis opened, without those
closed. -/
theorem opened_behind {place last : Place} {tokens : List Token}
    (reached : place.behind tokens = some last) :
    place.opened + tokens.countP (·.is .punctuation "(") =
      last.opened + tokens.countP (·.is .punctuation ")") := by
  induction tokens generalizing place with
  | nil =>
    obtain rfl := Option.some.inj reached
    rfl
  | cons token tokens ih =>
    rw [behind_cons] at reached
    obtain ⟨next, stepped, further⟩ := Option.bind_eq_some_iff.mp reached
    have first := opened_step stepped
    have others := ih further
    simp only [List.countP_cons]
    omega

variable {level : Level} {Operand Group : Expression → List Token → Prop}
variable {value : Expression} {tokens : List Token}

/-- Reading the tokens of such a part where an operand is due leaves no operand due, and no parenthesis
open that was not open before. -/
def Crosses (Part : Expression → List Token → Prop) : Prop :=
  ∀ value tokens, Part value tokens → ∀ opened, behind ⟨opened, true⟩ tokens = some ⟨opened, false⟩

theorem crosses_chained (operands : Crosses Operand) : Crosses (Chained level Operand) := by
  intro value tokens chained opened
  induction chained with
  | single derived => exact operands _ _ derived opened
  | more start found derived ih =>
    rw [behind_append, ih]
    simp [step_operator found, operands _ _ derived opened]

theorem crosses_factor (groups : Crosses Group) : Crosses (Factor Group) := by
  intro value tokens derived opened
  cases derived with
  | literal integer => simp [step_integer integer]
  | group derived => exact groups _ _ derived opened

/-- By induction on how many parentheses may be open at once. -/
theorem crosses_derivesGroup (available : Nat) : Crosses (DerivesGroup available) := by
  induction available with
  | zero => exact fun _ _ impossible => impossible.elim
  | succ available ih =>
    rintro value _ ⟨opening, inner, closing, rfl, opens, closes, derived⟩ opened
    have inside := crosses_chained (crosses_chained (crosses_factor ih)) _ _ derived (opened + 1)
    simp [step_opening opens, behind_append, inside, step_closing closes]

/-- At the end of an expression no parenthesis is open and no operand is due. -/
theorem behind_of_derives {available : Nat} (derived : Derives available value tokens) :
    start.behind tokens = some ⟨0, false⟩ :=
  crosses_chained (crosses_chained (crosses_factor (crosses_derivesGroup available))) _ _ derived 0

/-- What cannot stand behind the tokens is not what an expression goes on with. -/
theorem not_begins {before : List Token} {place : Place} {token : Token}
    (reached : start.behind before = some place) (refused : place.step token = none) (limit : Nat) :
    ¬ Begins limit (before ++ [token]) := by
  rintro ⟨value, after, derived⟩
  have last := behind_of_derives derived
  simp [behind_append, reached, refused] at last

end Place

/-! ## One part inside the other -/

/-- The parts of an expression. -/
inductive Part where
  | expression
  | term
  | factor
deriving DecidableEq, Repr

/-- Which tokens spell such a part. -/
def Part.Derives (available : Nat) : Part → Expression → List Token → Prop
  | expression => Expression.Derives available
  | term => DerivesTerm available
  | factor => DerivesFactor available

end FuncLang.Expression

namespace FuncLang

open Expression (Part Chained)

/-- The part in which operands stand between operators of the level. -/
def Level.chain : Level → Part
  | sum => .expression
  | product => .term

/-- The part that stands between operators of the level. -/
def Level.operand : Level → Part
  | sum => .term
  | product => .factor

theorem Level.derives_chain (level : Level) (available : Nat) :
    level.chain.Derives available = Chained level (level.operand.Derives available) := by
  cases level <;> rfl

end FuncLang

namespace FuncLang.Expression

/-- Behind the tokens, the part is due at the beginning of an expression with no more than `limit`
parentheses open at once, and so many parentheses may still be opened in it. -/
inductive Due (limit : Nat) : Nat → Part → List Token → Prop
  | start : Due limit limit .expression []
  | first {available : Nat} {level : Level} {before : List Token}
      (due : Due limit available level.chain before) : Due limit available level.operand before
  | next {available : Nat} {level : Level} {before tokens : List Token} {left : Expression}
      {token : Token} {operator : Operator} (due : Due limit available level.chain before)
      (derived : level.chain.Derives available left tokens)
      (found : level.operator? token = some operator) :
      Due limit available level.operand (before ++ tokens ++ [token])
  | inside {available : Nat} {before : List Token} {token : Token}
      (due : Due limit (available + 1) .factor before) (opens : token.is .punctuation "(" = true) :
      Due limit available .expression (before ++ [token])

variable {limit available : Nat} {part : Part} {before tokens : List Token} {value : Expression}

theorem Part.derives_literal {token : Token} (integer : token.kind = .integer) (part : Part)
    (available : Nat) : part.Derives available (.literal token.text) [token] := by
  have factor : DerivesFactor available (.literal token.text) [token] := .literal integer
  cases part with
  | expression => exact .single (.single factor)
  | term => exact .single factor
  | factor => exact factor

theorem Part.crosses (part : Part) (available : Nat) : Place.Crosses (part.Derives available) := by
  have factors := Place.crosses_factor (Place.crosses_derivesGroup available)
  cases part with
  | expression => exact Place.crosses_chained (Place.crosses_chained factors)
  | term => exact Place.crosses_chained factors
  | factor => exact factors

namespace Due

/-- An operand is due where a part is due. -/
theorem behind_eq (due : Due limit available part before) :
    available ≤ limit ∧ Place.start.behind before = some ⟨limit - available, true⟩ := by
  induction due with
  | start => simp [Place.start]
  | first _ ih => exact ih
  | @next available level before tokens left token operator _ derived found ih =>
    have crossed := level.chain.crosses available left tokens derived (limit - available)
    simp [Place.behind_append, ih.1, ih.2, crossed, Place.step_operator found]
  | @inside available before token _ opens ih =>
    obtain ⟨room, reached⟩ := ih
    have deeper : limit - (available + 1) + 1 = limit - available := by omega
    refine ⟨by omega, ?_⟩
    simp [Place.behind_append, reached, Place.step_opening opens, deeper]

/-- No operand is due behind a part that was due. -/
theorem behind_append_eq (due : Due limit available part before)
    (derived : part.Derives available value tokens) :
    Place.start.behind (before ++ tokens) = some ⟨limit - available, false⟩ := by
  rw [Place.behind_append, due.behind_eq.2]
  exact part.crosses available _ _ derived _

/-- What can stand behind the part does not depend on how the part is spelled. -/
theorem exists_behind (due : Due limit available part before) :
    ∃ behind, ∀ value tokens, part.Derives available value tokens →
      ∃ whole, Derives limit whole (before ++ tokens ++ behind) := by
  induction due with
  | start =>
    refine ⟨[], fun value tokens derived => ⟨value, ?_⟩⟩
    rwa [List.nil_append, List.append_nil]
  | @first available level before due ih =>
    obtain ⟨behind, complete⟩ := ih
    refine ⟨behind, fun value tokens derived => complete value tokens ?_⟩
    rw [level.derives_chain]
    exact .single derived
  | @next available level before tokens left token operator due derived found ih =>
    obtain ⟨behind, complete⟩ := ih
    refine ⟨behind, fun value after operand => ?_⟩
    rw [level.derives_chain] at derived
    obtain ⟨whole, all⟩ := complete (.binary operator left value) (tokens ++ token :: after) (by
      rw [level.derives_chain]
      exact .more derived found operand)
    exact ⟨whole, by simpa using all⟩
  | @inside available before token due opens ih =>
    -- The parenthesis has to be closed before what stands behind it.
    obtain ⟨behind, complete⟩ := ih
    let closing : Token := ⟨.punctuation, ")", token.position⟩
    refine ⟨closing :: behind, fun value tokens derived => ?_⟩
    obtain ⟨whole, all⟩ := complete value (token :: (tokens ++ [closing]))
      (.group ⟨token, tokens, closing, rfl, opens, rfl, derived⟩)
    exact ⟨whole, by simpa using all⟩

/-- Where a part is due, the part can stand. -/
theorem begins_append (due : Due limit available part before)
    (derived : part.Derives available value tokens) : Begins limit (before ++ tokens) := by
  obtain ⟨behind, complete⟩ := due.exists_behind
  obtain ⟨whole, all⟩ := complete value tokens derived
  exact ⟨whole, behind, all⟩

theorem begins (due : Due limit available part before) : Begins limit before := by
  obtain ⟨value, behind, derived⟩ := due.begins_append
    (@Part.derives_literal ⟨.integer, "0", Position.first⟩ rfl part available)
  exact ⟨value, _, by rwa [List.append_assoc] at derived⟩

end Due

end FuncLang.Expression
