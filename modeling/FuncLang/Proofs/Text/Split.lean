import FuncLang.Text.Line
import Mathlib.Algebra.Group.Nat.Defs
import Mathlib.Data.List.DropRight

/-! # Splitting texts

A text is split at its line feeds, or at its empty lines. The lines of a text are those that come from
splitting it at line feeds, without the carriage returns that belong to line breaks. Where one text stands
behind another, the first part of it goes on the last part of the other one and all others are its own, which
tells what stands in a line once it is known how many line feeds stand in front.

Texts that have no empty line are found again between the empty lines that separate them.
-/

namespace FuncLang.Text

/-! ## Splitting at line feeds -/

theorem splitOn_cons (c : Char) (cs : List Char) :
    (c :: cs).splitOn '\n' =
      if c = '\n' then [] :: cs.splitOn '\n' else (cs.splitOn '\n').modifyHead (c :: ·) := by
  rw [List.splitOn_cons_eq_if_modifyHead]
  simp

theorem length_splitOn (cs : List Char) : (cs.splitOn '\n').length = cs.count '\n' + 1 := by
  induction cs with
  | nil => rw [List.splitOn_nil, List.length_singleton, List.count_nil]
  | cons c cs ih =>
    rw [splitOn_cons]
    split
    next feed => rw [feed, List.length_cons, ih, List.count_cons_self]
    next noFeed => rw [List.length_modifyHead, ih, List.count_cons_of_ne noFeed]

/-- The first part is all that stands in front of the first line feed. -/
theorem exists_splitOn_eq_cons (cs : List Char) :
    ∃ others, cs.splitOn '\n' = cs.takeWhile (· ≠ '\n') :: others := by
  induction cs with
  | nil => exact ⟨[], rfl⟩
  | cons c cs ih =>
    obtain ⟨others, split⟩ := ih
    rw [splitOn_cons, split]
    by_cases feed : c = '\n'
    · exact ⟨cs.takeWhile (· ≠ '\n') :: others, by simp [feed]⟩
    · exact ⟨others, by simp [feed]⟩

/-- The first part of the text behind goes on the last part of the text in front. -/
theorem splitOn_append (cs ds : List Char) :
    (cs ++ ds).splitOn '\n' = (cs.splitOn '\n').dropLast ++
      (ds.splitOn '\n').modifyHead (cs.rtakeWhile (· ≠ '\n') ++ ·) := by
  -- From the end of the text in front, so that each character is handed on to the text behind.
  induction cs using List.reverseRecOn generalizing ds with
  | nil =>
    obtain ⟨others, split⟩ := exists_splitOn_eq_cons ds
    simp [split]
  | append_singleton cs c ih =>
    obtain ⟨others, split⟩ := exists_splitOn_eq_cons ds
    rw [List.append_assoc, ih, ih [c], List.singleton_append, splitOn_cons, splitOn_cons, split]
    by_cases feed : c = '\n' <;> simp [feed]

/-- Behind as many parts as the text in front has line feeds come those of the text behind. -/
theorem getElem?_splitOn_append (cs ds : List Char) (index : Nat) :
    ((cs ++ ds).splitOn '\n')[cs.count '\n' + index]? =
      ((ds.splitOn '\n').modifyHead (cs.rtakeWhile (· ≠ '\n') ++ ·))[index]? := by
  have front : (cs.splitOn '\n').dropLast.length = cs.count '\n' := by
    rw [List.length_dropLast, length_splitOn, Nat.add_sub_cancel]
  rw [splitOn_append, ← front, List.getElem?_append_right (Nat.le_add_right ..),
    Nat.add_sub_cancel_left]

/-- No part goes over a line feed, and none has anything in it that is not in the text. -/
theorem of_mem_splitOn {cs line : List Char} (member : line ∈ cs.splitOn '\n') :
    '\n' ∉ line ∧ ∀ c ∈ line, c ∈ cs := by
  induction cs generalizing line with
  | nil =>
    rw [List.splitOn_nil, List.mem_singleton] at member
    simp [member]
  | cons c cs ih =>
    rw [splitOn_cons] at member
    split at member
    next feed =>
      rcases List.mem_cons.mp member with rfl | member
      · simp
      · exact ⟨(ih member).1, fun d inside => .tail _ ((ih member).2 d inside)⟩
    next noFeed =>
      obtain ⟨others, split⟩ := exists_splitOn_eq_cons cs
      rw [split, List.modifyHead_cons] at member
      rcases List.mem_cons.mp member with rfl | member
      · obtain ⟨oneLine, inside⟩ := ih (split ▸ List.mem_cons_self)
        refine ⟨List.not_mem_cons_of_ne_of_not_mem (Ne.symm noFeed) oneLine, ?_⟩
        exact List.forall_mem_cons.mpr ⟨List.mem_cons_self, fun d member => .tail _ (inside d member)⟩
      · obtain ⟨oneLine, inside⟩ := ih (split ▸ List.mem_cons_of_mem _ member)
        exact ⟨oneLine, fun d member => .tail _ (inside d member)⟩

/-! ## Lines -/

/-- A line without a carriage return at its end. -/
def withoutReturn (line : List Char) : List Char :=
  if line.getLast? = some '\r' then line.dropLast else line

theorem withoutReturn_isPrefix (line : List Char) : withoutReturn line <+: line := by
  unfold withoutReturn
  split
  · exact List.dropLast_prefix line
  · exact List.prefix_refl line

theorem withoutReturn_cons {c : Char} {line : List Char} (kept : c ≠ '\r' ∨ line ≠ []) :
    withoutReturn (c :: line) = c :: withoutReturn line := by
  cases line with
  | nil => simpa [withoutReturn] using kept
  | cons d line =>
    unfold withoutReturn
    rw [List.getLast?_cons_cons]
    split <;> simp

/-- A carriage return alone in a line that is ended would be part of the line break. -/
theorem withoutReturn_cons_takeWhile {c : Char} {cs : List Char}
    (noBreak : ∀ ds, c = '\r' → cs = '\n' :: ds → False) (feeds : 0 < cs.count '\n') :
    withoutReturn (c :: cs.takeWhile (· ≠ '\n')) = c :: withoutReturn (cs.takeWhile (· ≠ '\n')) := by
  cases cs with
  | nil => simp at feeds
  | cons d ds =>
    apply withoutReturn_cons
    by_cases feed : d = '\n'
    · exact .inl fun carriage => noBreak ds carriage (by rw [feed])
    · exact .inr (by simp [feed])

/-- Behind a text that ends in no carriage return only the text behind it can lose one. -/
theorem withoutReturn_append {front : List Char} (kept : ∀ c ∈ front.getLast?, c ≠ '\r')
    (tail : List Char) : withoutReturn (front ++ tail) = front ++ withoutReturn tail := by
  cases tail with
  | nil =>
    have none : front.getLast? ≠ some '\r' := fun last => kept '\r' last rfl
    rw [List.append_nil, withoutReturn, if_neg none]
    exact (List.append_nil front).symm
  | cons c tail =>
    have some : c :: tail ≠ [] := List.cons_ne_nil _ _
    unfold withoutReturn
    rw [List.getLast?_append_of_ne_nil _ some, List.dropLast_append_of_ne_nil some]
    split <;> rfl

theorem getElem?_extendFirst_zero (c : Char) (lines : List (List Char)) :
    (extendFirst c lines)[0]?.getD [] = c :: lines[0]?.getD [] := by
  cases lines <;> rfl

theorem getElem?_extendFirst_succ (c : Char) (lines : List (List Char)) (index : Nat) :
    (extendFirst c lines)[index + 1]? = lines[index + 1]? := by
  cases lines <;> rfl

/-- The lines of a text come from splitting it at line feeds. A line that one of them ends is shown
without a carriage return in front of it; the last line is shown as it is. -/
theorem lineAt_eq (cs : List Char) (number : Nat) :
    lineAt cs number =
      let line := (cs.splitOn '\n')[number - 1]?.getD []
      if number - 1 < cs.count '\n' then withoutReturn line else line := by
  unfold lineAt
  generalize number - 1 = index
  dsimp only
  fun_induction lines cs generalizing index with
  | case1 => cases index <;> simp
  | case2 cs ih =>
    rw [splitOn_cons, if_pos rfl, List.count_cons_self]
    cases index with
    | zero => simp [withoutReturn]
    | succ index => simpa using ih index
  | case3 cs ih =>
    have split : ('\r' :: '\n' :: cs).splitOn '\n' = ['\r'] :: cs.splitOn '\n' := by
      rw [splitOn_cons, if_neg (by decide), splitOn_cons, if_pos rfl, List.modifyHead_cons]
    have feeds : ('\r' :: '\n' :: cs).count '\n' = cs.count '\n' + 1 := by simp
    rw [split, feeds]
    cases index with
    | zero => simp [withoutReturn]
    | succ index => simpa using ih index
  | case4 c cs noFeed noBreak ih =>
    obtain ⟨others, split⟩ := exists_splitOn_eq_cons cs
    rw [splitOn_cons, if_neg noFeed, List.count_cons_of_ne noFeed]
    cases index with
    | zero =>
      rw [getElem?_extendFirst_zero, ih 0, split]
      by_cases feeds : 0 < cs.count '\n'
      · rw [if_pos feeds, if_pos feeds]
        exact (withoutReturn_cons_takeWhile noBreak feeds).symm
      · rw [if_neg feeds, if_neg feeds]
        rfl
    | succ index =>
      rw [getElem?_extendFirst_succ, ih (index + 1), split]
      rfl

/-- The line with a number that counts from one. -/
theorem lineAt_of_getElem? {cs line : List Char} {number : Nat} (counted : 1 ≤ number)
    (found : (cs.splitOn '\n')[number - 1]? = some line) :
    lineAt cs number = if number ≤ cs.count '\n' then withoutReturn line else line := by
  have ended : number - 1 < cs.count '\n' ↔ number ≤ cs.count '\n' := by omega
  rw [lineAt_eq, found, Option.getD_some]
  exact if_congr ended rfl rfl

/-- A line is part of what stands between two line feeds. -/
theorem lineAt_isPrefix (cs : List Char) (number : Nat) :
    lineAt cs number <+: (cs.splitOn '\n')[number - 1]?.getD [] := by
  rw [lineAt_eq]
  dsimp only
  split
  · exact withoutReturn_isPrefix _
  · exact List.prefix_refl _

theorem feed_not_mem_lineAt (cs : List Char) (number : Nat) : '\n' ∉ lineAt cs number := by
  intro inside
  have inside := (lineAt_isPrefix cs number).subset inside
  cases found : (cs.splitOn '\n')[number - 1]? with
  | none => simp [found] at inside
  | some line => exact (of_mem_splitOn (List.mem_of_getElem? found)).1 (by simpa [found] using inside)

/-! ## Splitting at empty lines -/

/-- The parts of a text between its empty lines: the text is split at every two line feeds, from the
front on. -/
def blocks : List Char → List (List Char)
  | [] => [[]]
  | '\n' :: '\n' :: cs => [] :: blocks cs
  | c :: cs => extendFirst c (blocks cs)

theorem blocks_cons {c : Char} {cs : List Char} (kept : c = '\n' → ∀ d ∈ cs.head?, d ≠ '\n') :
    blocks (c :: cs) = extendFirst c (blocks cs) := by
  rw [blocks]
  rintro cs rfl rfl
  exact kept rfl '\n' rfl rfl

/-- A text is a part of its own in front of the end or of two line feeds, if none of its lines is empty. It
may begin with a line feed all the same. -/
theorem blocks_append {cs behind : List Char} {others : List (List Char)}
    (solid : ∀ line ∈ (cs.splitOn '\n').tail, line ≠ []) (rest : blocks behind = [] :: others) :
    blocks (cs ++ behind) = cs :: others := by
  induction cs with
  | nil => exact rest
  | cons c cs ih =>
    obtain ⟨below, split⟩ := exists_splitOn_eq_cons cs
    rw [splitOn_cons] at solid
    rw [split] at solid ih
    by_cases feed : c = '\n'
    · rw [if_pos feed, List.tail_cons] at solid
      have kept : ∀ d ∈ (cs ++ behind).head?, d ≠ '\n' := by
        rintro d next rfl
        cases cs with
        | nil => exact solid _ List.mem_cons_self rfl
        | cons d cs =>
          obtain rfl : d = '\n' := by simpa using next
          exact solid _ List.mem_cons_self (by simp)
      rw [List.cons_append, blocks_cons fun _ => kept, ih (List.forall_mem_cons.mp solid).2]
      rfl
    · rw [if_neg feed, List.modifyHead_cons] at solid
      rw [List.cons_append, blocks_cons fun same => absurd same feed, ih solid]
      rfl

/-- Texts without empty lines are found again between the empty lines that separate them. -/
theorem blocks_intercalate {parts : List (List Char)} (some : parts ≠ [])
    (solid : ∀ part ∈ parts, ∀ line ∈ part.splitOn '\n', line ≠ []) :
    blocks (['\n', '\n'].intercalate parts) = parts := by
  induction parts with
  | nil => exact absurd rfl some
  | cons part parts ih =>
    obtain ⟨first, others⟩ := List.forall_mem_cons.mp solid
    have below : ∀ line ∈ (part.splitOn '\n').tail, line ≠ [] :=
      fun line member => first line (List.mem_of_mem_tail member)
    cases parts with
    | nil =>
      rw [List.intercalate_singleton]
      have alone := @blocks_append part [] [] below rfl
      rwa [List.append_nil] at alone
    | cons second parts =>
      rw [List.intercalate_cons_cons, List.append_assoc]
      apply blocks_append below
      exact congrArg ([] :: ·) (ih (List.cons_ne_nil _ _) others)

end FuncLang.Text
