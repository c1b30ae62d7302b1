import FuncLang.Proofs.Position.Order
import Mathlib.Data.List.DropRight

/-! # Positions counted at once

The coordinates behind a text are found by counting its line feeds and the characters behind the last of
them, and reading on always leads to later ones. Stepping over one character after the other comes to the
words of 32 bits that hold the last bits of these numbers. Behind a text with too many lines or a line that
is too long they have started again at zero; elsewhere they hold the numbers that were counted.
-/

namespace FuncLang

namespace Coordinates

/-- The line and the column behind a text. -/
def behind (cs : List Char) : Coordinates where
  line := 1 + cs.count '\n'
  column := 1 + (cs.rtakeWhile (· ≠ '\n')).length

theorem behind_append_singleton (cs : List Char) (c : Char) :
    behind (cs ++ [c]) =
      if c = '\n' then ⟨(behind cs).line + 1, 1⟩ else ⟨(behind cs).line, (behind cs).column + 1⟩ := by
  by_cases feed : c = '\n' <;> simp [behind, feed, Nat.add_assoc]

/-- Every character leads on. -/
theorem behind_lt_append_singleton (cs : List Char) (c : Char) : behind cs < behind (cs ++ [c]) := by
  rw [behind_append_singleton]
  split
  · exact .inl (Nat.lt_succ_self _)
  · exact .inr ⟨rfl, Nat.lt_succ_self _⟩

theorem behind_lt_append (cs : List Char) {ds : List Char} (some : ds ≠ []) :
    behind cs < behind (cs ++ ds) := by
  induction ds using List.reverseRecOn with
  | nil => exact absurd rfl some
  | append_singleton ds d ih =>
    rw [← List.append_assoc]
    by_cases none : ds = []
    · rw [none, List.append_nil]
      exact behind_lt_append_singleton cs d
    · exact lt_trans (ih none) (behind_lt_append_singleton _ d)

/-- A text behind a line feed is counted on its own, only so many lines further down. -/
theorem behind_append_feed (cs ds : List Char) : behind (cs ++ '\n' :: ds) =
    ⟨(behind ds).line + (1 + cs.count '\n'), (behind ds).column⟩ := by
  induction ds using List.reverseRecOn with
  | nil =>
    rw [behind_append_singleton, if_pos rfl]
    exact congrArg (Coordinates.mk · 1) (Nat.add_comm ..)
  | append_singleton ds d ih =>
    rw [← List.cons_append, ← List.append_assoc, behind_append_singleton, behind_append_singleton, ih]
    split
    · exact congrArg (Coordinates.mk · 1) (Nat.add_right_comm ..)
    · rfl

/-- Words are enough for a short text. -/
theorem fitsWords_behind {cs : List Char} (short : 1 + cs.length < 2 ^ 32) : (behind cs).FitsWords := by
  have feeds : cs.count '\n' ≤ cs.length := List.count_le_length
  have rest : (cs.rtakeWhile (· ≠ '\n')).length ≤ cs.length := (List.rtakeWhile_suffix ..).length_le
  exact ⟨Nat.lt_of_le_of_lt (Nat.add_le_add_left feeds 1) short,
    Nat.lt_of_le_of_lt (Nat.add_le_add_left rest 1) short⟩

/-- The words that hold the last bits of coordinates. -/
def toPosition (coordinates : Coordinates) : Position := ⟨coordinates.line, coordinates.column⟩

theorem coordinates_toPosition {coordinates : Coordinates} (fits : coordinates.FitsWords) :
    coordinates.toPosition.coordinates = coordinates := by
  rw [toPosition, Position.coordinates, UInt32.toNat_ofNat_of_lt' fits.1, UInt32.toNat_ofNat_of_lt' fits.2]

end Coordinates

namespace Position

/-- The position behind a text, by counting. -/
def behind (cs : List Char) : Position := (Coordinates.behind cs).toPosition

theorem behind_append_singleton (cs : List Char) (c : Char) :
    behind (cs ++ [c]) = (behind cs).step c := by
  rw [behind, Coordinates.behind_append_singleton, step]
  by_cases feed : c = '\n'
  · rw [if_pos feed, if_pos feed, Coordinates.toPosition, UInt32.ofNat_add]
    rfl
  · rw [if_neg feed, if_neg feed, Coordinates.toPosition, UInt32.ofNat_add]
    rfl

/-- Stepping comes to the same as counting. -/
theorem advance_first (cs : List Char) : first.advance cs = behind cs := by
  induction cs using List.reverseRecOn with
  | nil => rfl
  | append_singleton cs c ih =>
    rw [advance_append, ih, behind_append_singleton]
    rfl

theorem behind_append (cs ds : List Char) : behind (cs ++ ds) = (behind cs).advance ds := by
  rw [← advance_first, ← advance_first, advance_append]

/-- Reading on leads to a later position, where words are enough for both. -/
theorem behind_lt_append {cs ds : List Char} (some : ds ≠ []) (fits : (Coordinates.behind cs).FitsWords)
    (fitsAll : (Coordinates.behind (cs ++ ds)).FitsWords) : behind cs < behind (cs ++ ds) := by
  rw [lt_iff, behind, behind, Coordinates.coordinates_toPosition fits,
    Coordinates.coordinates_toPosition fitsAll]
  exact Coordinates.behind_lt_append cs some

end Position

end FuncLang
