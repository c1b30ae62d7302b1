/-! # Source positions

A position is a line and a column, both counted from one; columns count characters. The counters are
words of 32 bits, which start again at zero behind the greatest number that they hold. Positions are
ordered by line, then by column. Moving over a character leads to the next column, moving over a line
feed to the first column of the next line.
-/

namespace FuncLang

/-- A word holds the last 32 bits of a number. -/
scoped instance coeNatWord : Coe Nat UInt32 := ⟨UInt32.ofNat⟩

/-- A place in a source text. -/
structure Position where
  line : UInt32
  column : UInt32
deriving DecidableEq, Repr

namespace Position

/-- The first character of a text. -/
def first : Position := ⟨1, 1⟩

instance : Inhabited Position := ⟨first⟩

/-- The position behind one character. -/
def step (place : Position) (c : Char) : Position :=
  if c = '\n' then ⟨place.line + 1, 1⟩ else ⟨place.line, place.column + 1⟩

/-- The position behind a run of characters. -/
def advance (place : Position) (cs : List Char) : Position := cs.foldl step place

@[simp] theorem advance_nil (place : Position) : place.advance [] = place := rfl

@[simp] theorem advance_cons (place : Position) (c : Char) (cs : List Char) :
    place.advance (c :: cs) = (place.step c).advance cs := rfl

theorem advance_append (place : Position) (cs ds : List Char) :
    place.advance (cs ++ ds) = (place.advance cs).advance ds := List.foldl_append

/-- Line first, then column. -/
instance : Ord Position where
  compare a b := (compare a.line b.line).then (compare a.column b.column)

instance : LT Position where
  lt a b := a.line < b.line ∨ a.line = b.line ∧ a.column < b.column

instance (a b : Position) : Decidable (a < b) :=
  inferInstanceAs (Decidable (a.line < b.line ∨ a.line = b.line ∧ a.column < b.column))

instance : LE Position where
  le a b := a.line < b.line ∨ a.line = b.line ∧ a.column ≤ b.column

instance (a b : Position) : Decidable (a ≤ b) :=
  inferInstanceAs (Decidable (a.line < b.line ∨ a.line = b.line ∧ a.column ≤ b.column))

/-- The later of two positions. -/
instance : Max Position where
  max a b := if a ≤ b then b else a

theorem compare_eq_lt {a b : Position} : compare a b = .lt ↔ a < b := by
  change (compare a.line b.line).then (compare a.column b.column) = .lt ↔
    a.line < b.line ∨ a.line = b.line ∧ a.column < b.column
  simp [Ordering.then_eq_lt, Std.compare_eq_lt]

end Position

end FuncLang
