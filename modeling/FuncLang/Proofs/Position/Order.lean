import FuncLang.Position
import Mathlib.Algebra.Group.Nat.Defs

/-! # The order of positions

The line and the column of a position are words, and its coordinates are the numbers that these hold.
Positions are ordered like their coordinates.
-/

namespace FuncLang

/-- A line and a column as numbers, however great they are. -/
structure Coordinates where
  line : Nat
  column : Nat
deriving DecidableEq, Repr

namespace Coordinates

/-- Line first, then column. -/
instance : LT Coordinates where
  lt a b := a.line < b.line ∨ a.line = b.line ∧ a.column < b.column

theorem lt_iff {a b : Coordinates} :
    a < b ↔ a.line < b.line ∨ a.line = b.line ∧ a.column < b.column := Iff.rfl

theorem lt_trans {a b c : Coordinates} (first : a < b) (second : b < c) : a < c := by
  rw [lt_iff] at first second ⊢
  omega

/-- Whether words of 32 bits hold the line and the column. -/
def FitsWords (coordinates : Coordinates) : Prop :=
  coordinates.line < 2 ^ 32 ∧ coordinates.column < 2 ^ 32

end Coordinates

namespace Position

/-- The numbers that a position holds. -/
def coordinates (position : Position) : Coordinates := ⟨position.line.toNat, position.column.toNat⟩

variable {a b : Position}

theorem lt_iff : a < b ↔ a.coordinates < b.coordinates := by
  rw [Coordinates.lt_iff, coordinates, coordinates, UInt32.toNat_inj]
  exact Iff.rfl

theorem lt_irrefl (place : Position) : ¬ place < place := by
  rw [lt_iff, Coordinates.lt_iff]
  omega

theorem le_refl (place : Position) : place ≤ place := .inr ⟨rfl, UInt32.le_refl _⟩

theorem le_of_lt (before : a < b) : a ≤ b := by
  rcases before with line | ⟨line, column⟩
  · exact .inl line
  · exact .inr ⟨line, UInt32.le_of_lt column⟩

end Position

end FuncLang
