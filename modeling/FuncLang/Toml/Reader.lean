/-! # Readers

A reader takes a value from the front of a text, or fails. What it leaves is an end of the text it
was given. Alternatives are tried in order, and the first that succeeds is taken for good;
repetitions take as much as they can.
-/

namespace FuncLang.Toml

/-- A way to take a value from the front of a text. -/
structure Reader (α : Type) where
  read : List Char → Option (α × List Char)
  rest_suffix : ∀ {text value rest}, read text = some (value, rest) → rest <:+ text

namespace Reader

variable {α β : Type}

/-- Takes nothing. -/
protected def pure (value : α) : Reader α where
  read text := some (value, text)
  rest_suffix success := by
    obtain ⟨-, rfl⟩ := Prod.mk.inj (Option.some.inj success)
    exact List.suffix_refl _

/-- Takes a value, then another that depends on it. -/
protected def bind (reader : Reader α) (next : α → Reader β) : Reader β where
  read text := (reader.read text).bind fun (value, rest) => (next value).read rest
  rest_suffix success := by
    obtain ⟨⟨value, rest⟩, first, second⟩ := Option.bind_eq_some_iff.mp success
    exact ((next value).rest_suffix second).trans (reader.rest_suffix first)

instance : Monad Reader where
  pure := Reader.pure
  bind := Reader.bind

/-- Takes nothing, and fails. -/
def fail : Reader α where
  read _ := none
  rest_suffix success := nomatch success

/-- Takes what the first reader takes, or what the second takes if the first fails. -/
protected def orElse (first : Reader α) (second : Unit → Reader α) : Reader α where
  read text := (first.read text).or ((second ()).read text)
  rest_suffix success := by
    rcases Option.or_eq_some_iff.mp success with success | ⟨_, success⟩
    · exact first.rest_suffix success
    · exact (second ()).rest_suffix success

instance : OrElse (Reader α) := ⟨Reader.orElse⟩

/-- Takes nothing; fails unless there is a value. -/
def ofOption : Option α → Reader α
  | some value => pure value
  | none => fail

/-- Takes nothing; fails unless the condition holds. -/
def require (condition : Bool) : Reader Unit := if condition then pure () else fail

/-- Takes nothing; fails unless the text has ended. -/
def endOfText : Reader Unit where
  read text := if text.isEmpty then some ((), text) else none
  rest_suffix success := by
    split at success
    · obtain ⟨-, rfl⟩ := Prod.mk.inj (Option.some.inj success)
      exact List.suffix_refl _
    · nomatch success

/-- Takes one wanted character. -/
def satisfy (wanted : Char → Bool) : Reader Char where
  read
    | [] => none
    | c :: rest => if wanted c then some (c, rest) else none
  rest_suffix {text _ _} success := by
    cases text with
    | nil => nomatch success
    | cons c cs =>
      simp only at success
      split at success
      · obtain ⟨-, rfl⟩ := Prod.mk.inj (Option.some.inj success)
        exact List.suffix_cons c _
      · nomatch success

/-- Takes the given character. -/
def char (c : Char) : Reader Char := satisfy (· == c)

/-- Takes the given characters. -/
def word : List Char → Reader Unit
  | [] => pure ()
  | c :: cs => do
    let _ ← char c
    word cs

/-- Takes as many wanted characters as follow each other. -/
def run (wanted : Char → Bool) : Reader (List Char) where
  read text := some (text.takeWhile wanted, text.dropWhile wanted)
  rest_suffix success := by
    obtain ⟨-, rfl⟩ := Prod.mk.inj (Option.some.inj success)
    exact List.dropWhile_suffix wanted

/-- Takes a value if there is one. -/
def maybe (reader : Reader α) : Reader (Option α) :=
  (do return some (← reader)) <|> pure none

/-- Takes the given number of values. -/
def times (reader : Reader α) : Nat → Reader (List α)
  | 0 => pure []
  | count + 1 => do
    let value ← reader
    return value :: (← times reader count)

/-- Values that follow each other, up to a failure or to one that takes nothing. -/
def manyRead (reader : Reader α) (text : List Char) : List α × List Char :=
  match reader.read text with
  | none => ([], text)
  | some (value, rest) =>
    if rest.length < text.length then
      let others := manyRead reader rest
      (value :: others.1, others.2)
    else ([], text)
termination_by text.length

theorem manyRead_rest_suffix (reader : Reader α) (text : List Char) :
    (manyRead reader text).2 <:+ text := by
  fun_induction manyRead reader text with
  | case1 => exact List.suffix_refl _
  | case2 text value rest success _ _ ih => exact ih.trans (reader.rest_suffix success)
  | case3 => exact List.suffix_refl _

/-- Takes as many values as follow each other. -/
def many (reader : Reader α) : Reader (List α) where
  read text := some (manyRead reader text)
  rest_suffix {text _ _} success := by
    have suffix := manyRead_rest_suffix reader text
    rwa [Option.some.inj success] at suffix

/-- Takes values with a separator between any two of them, at least one. -/
def separated (separator : Reader β) (reader : Reader α) : Reader (List α) := do
  let first ← reader
  let others ← many do
    let _ ← separator
    reader
  return first :: others

/-- The value of a whole text. -/
def all? (reader : Reader α) (text : List Char) : Option α :=
  match reader.read text with
  | some (value, []) => some value
  | _ => none

end Reader

end FuncLang.Toml
