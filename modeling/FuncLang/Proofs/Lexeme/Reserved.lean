import FuncLang.Token
import Mathlib.Data.List.Forall2

/-! # Reserved words

Nine words are reserved, and a name that is one of them is a keyword, whether its letters are capital or
small. Only the letters of the basic alphabet have two cases here. The case of a name is folded before it is
looked up among the reserved words, which comes to the same as comparing it with each of them letter by
letter.
-/

namespace FuncLang

namespace Lexeme

/-- The first character is a letter from `A` to `Z`, with a code from 65 to 90, and the second one is the
same letter from `a` to `z`, with the code 32 behind it. -/
def IsCapitalOf (capital small : Char) : Prop :=
  65 ≤ capital.toNat ∧ capital.toNat ≤ 90 ∧ small.toNat = capital.toNat + 32

/-- The same character, or the same letter in the other case. -/
def SameLetter (c d : Char) : Prop := c = d ∨ IsCapitalOf c d ∨ IsCapitalOf d c

/-- One of the nine reserved words, each letter in either case. -/
def IsReserved (text : List Char) : Prop :=
  ∃ word ∈ ["func", "do", "end", "endfunc", "return", "fn", "when", "else", "if"],
    List.Forall₂ SameLetter word.toList text

theorem toNat_toLower (c : Char) :
    c.toLower.toNat = if 65 ≤ c.toNat ∧ c.toNat ≤ 90 then c.toNat + 32 else c.toNat := by
  have capital : (c.val ≥ 'A'.val ∧ c.val ≤ 'Z'.val) ↔ (65 ≤ c.toNat ∧ c.toNat ≤ 90) := Iff.rfl
  unfold Char.toLower
  split
  next letter =>
    rw [if_pos (capital.mp letter)]
    have small : c.toNat + 32 < 2 ^ 32 := by
      have := (capital.mp letter).2
      omega
    exact (UInt32.toNat_add ..).trans (Nat.mod_eq_of_lt small)
  next other => rw [if_neg (mt capital.mpr other)]

/-- Folding makes the same of two characters exactly if they are the same letter. -/
theorem sameLetter_iff_toLower {c d : Char} : SameLetter c d ↔ c.toLower = d.toLower := by
  rw [SameLetter, IsCapitalOf, IsCapitalOf, ← Char.toNat_inj, ← Char.toNat_inj, toNat_toLower,
    toNat_toLower]
  split <;> split <;> omega

theorem forall₂_sameLetter_iff {cs ds : List Char} :
    List.Forall₂ SameLetter cs ds ↔ foldCase cs = foldCase ds := by
  have letters : SameLetter = fun c d => c.toLower = d.toLower := by
    funext c d
    exact propext sameLetter_iff_toLower
  rw [foldCase, foldCase, ← List.forall₂_eq_eq_eq, List.forall₂_map_left_iff, List.forall₂_map_right_iff,
    letters]

end Lexeme

/-- The words that are keywords are the reserved ones. -/
theorem isKeyword_iff {text : List Char} : isKeyword text = true ↔ Lexeme.IsReserved text := by
  have small : ∀ word ∈ keywords, foldCase word.toList = word.toList := by decide
  rw [isKeyword, List.any_eq_true]
  refine exists_congr fun word => and_congr_right fun listed => ?_
  rw [beq_iff_eq, Lexeme.forall₂_sameLetter_iff, small word listed]

theorem isKeyword_eq_false_iff {text : List Char} :
    isKeyword text = false ↔ ¬ Lexeme.IsReserved text := by
  rw [← isKeyword_iff, Bool.not_eq_true]

end FuncLang
