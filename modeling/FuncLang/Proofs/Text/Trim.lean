import FuncLang.Text.Blank
import Mathlib.Data.List.DropRight

/-! # Trimmed texts

Trimming takes the blanks off either end of a text and nothing else, and there is only one text that
is left then. It changes nothing where no blank stands at an end.
-/

namespace FuncLang.Text

/-- Whether `text` is the source without the blanks at either end. -/
structure IsTrimmed (source text : List Char) : Prop where
  blank_around : ∃ lead trail, source = lead ++ (text ++ trail) ∧
    (∀ c ∈ lead, isBlank c = true) ∧ ∀ c ∈ trail, isBlank c = true
  first : ∀ c ∈ text.head?, isBlank c = false
  last : ∀ c ∈ text.getLast?, isBlank c = false

/-- Nothing is dropped from a text that begins with no blank. -/
theorem dropWhile_isBlank_eq_self {cs : List Char} (first : ∀ c ∈ cs.head?, isBlank c = false) :
    cs.dropWhile isBlank = cs := by
  cases cs with
  | nil => rfl
  | cons c cs => rw [List.dropWhile_cons_of_neg (by simp [first c rfl])]

theorem isBlank_of_mem_leadingBlanks {source : List Char} {c : Char}
    (inside : c ∈ leadingBlanks source) : isBlank c = true := List.mem_takeWhile_imp inside

/-! ## Blanks at the ends -/

/-- The longest blank end of a text. -/
def trailingBlanks (cs : List Char) : List Char := cs.rtakeWhile isBlank

theorem isBlank_of_mem_trailingBlanks {source : List Char} {c : Char}
    (inside : c ∈ trailingBlanks source) : isBlank c = true := List.mem_rtakeWhile_imp inside

theorem trimEnd_append_trailingBlanks (cs : List Char) : trimEnd cs ++ trailingBlanks cs = cs :=
  List.rdropWhile_append_rtakeWhile ..

/-- More text behind takes no blank off the front. -/
theorem leadingBlanks_prefix_append (cs ds : List Char) :
    leadingBlanks cs <+: leadingBlanks (cs ++ ds) := by
  unfold leadingBlanks
  rw [List.takeWhile_append]
  split
  · exact (List.takeWhile_prefix isBlank).trans (List.prefix_append cs _)
  · exact List.prefix_refl _

/-- More text in front takes no blank off the end. -/
theorem trailingBlanks_suffix_append (cs ds : List Char) :
    trailingBlanks ds <:+ trailingBlanks (cs ++ ds) := by
  unfold trailingBlanks List.rtakeWhile
  rw [List.reverse_append, List.reverse_suffix]
  exact leadingBlanks_prefix_append ds.reverse cs.reverse

/-- Blanks in front go on over a line feed no further than to the next text that is solid. -/
theorem leadingBlanks_append_feed_isPrefix (cs ds : List Char) :
    leadingBlanks (cs ++ '\n' :: ds) <+: cs ++ '\n' :: leadingBlanks ds := by
  unfold leadingBlanks
  rw [List.takeWhile_append]
  split
  · have feed : isBlank '\n' = true := by decide
    simp only [List.takeWhile_cons_of_pos feed, List.prefix_refl]
  · exact (List.takeWhile_prefix _).trans (List.prefix_append ..)

theorem leadingBlanks_of_solid {cs : List Char} (first : ∀ c ∈ cs.head?, isBlank c = false) :
    leadingBlanks cs = [] := by
  cases cs with
  | nil => rfl
  | cons c cs => rw [leadingBlanks, List.takeWhile_cons_of_neg (by simp [first c rfl])]

theorem trailingBlanks_of_solid {cs : List Char} (last : ∀ c ∈ cs.getLast?, isBlank c = false) :
    trailingBlanks cs = [] := by
  unfold trailingBlanks List.rtakeWhile
  rw [List.reverse_eq_nil_iff]
  exact leadingBlanks_of_solid (by rwa [List.head?_reverse])

theorem isBlank_head?_trimStart (cs : List Char) : ∀ c ∈ (trimStart cs).head?, isBlank c = false := by
  intro c next
  have solid := List.head?_dropWhile_not isBlank cs
  rw [← trimStart, next] at solid
  exact solid

theorem isBlank_getLast?_trimEnd (cs : List Char) : ∀ c ∈ (trimEnd cs).getLast?, isBlank c = false := by
  intro c next
  rw [trimEnd, List.getLast?_reverse] at next
  exact isBlank_head?_trimStart cs.reverse c next

/-! ## Trimming -/

/-- Behind its leading blanks a source goes on with the trimmed text, behind which only blanks are
left. -/
theorem exists_trail (source : List Char) :
    ∃ trail, source = leadingBlanks source ++ (trim source ++ trail) ∧
      ∀ c ∈ trail, isBlank c = true := by
  refine ⟨trailingBlanks (trimStart source), ?_, fun c => isBlank_of_mem_trailingBlanks⟩
  rw [trim, trimEnd_append_trailingBlanks, leadingBlanks_append_trimStart]

/-- What trimming leaves is trimmed. -/
theorem isTrimmed_trim (source : List Char) : IsTrimmed source (trim source) where
  blank_around := by
    obtain ⟨trail, whole, blank⟩ := exists_trail source
    exact ⟨leadingBlanks source, trail, whole, fun c => isBlank_of_mem_leadingBlanks, blank⟩
  first c next := by
    apply isBlank_head?_trimStart source
    rw [← trimEnd_append_trailingBlanks (trimStart source)]
    exact List.mem_head?_append_of_mem_head? next
  last := isBlank_getLast?_trimEnd (trimStart source)

/-- No other text is left of a source than the one that trimming leaves. -/
theorem IsTrimmed.trim_eq {source text : List Char} (trimmed : IsTrimmed source text) :
    trim source = text := by
  obtain ⟨⟨lead, trail, rfl, blankLead, blankTrail⟩, first, last⟩ := trimmed
  have front : trimStart (lead ++ (text ++ trail)) = (text ++ trail).dropWhile isBlank :=
    List.dropWhile_append_of_pos blankLead
  cases text with
  | nil =>
    have none : ([] ++ trail).dropWhile isBlank = [] :=
      List.dropWhile_eq_nil_iff.mpr (by simpa using blankTrail)
    rw [trim, front, none]
    rfl
  | cons c cs =>
    have solid : isBlank c = false := first c rfl
    have kept : ((c :: cs) ++ trail).dropWhile isBlank = (c :: cs) ++ trail :=
      dropWhile_isBlank_eq_self (by simpa using solid)
    have behind : ∀ d ∈ trail.reverse, isBlank d = true := by simpa using blankTrail
    have back : ∀ d ∈ (c :: cs).reverse.head?, isBlank d = false := by rwa [List.head?_reverse]
    rw [trim, front, kept, trimEnd, List.reverse_append, List.dropWhile_append_of_pos behind,
      dropWhile_isBlank_eq_self back, List.reverse_reverse]

theorem trim_eq_self {cs : List Char} (first : ∀ c ∈ cs.head?, isBlank c = false)
    (last : ∀ c ∈ cs.getLast?, isBlank c = false) : trim cs = cs :=
  IsTrimmed.trim_eq ⟨⟨[], [], by simp⟩, first, last⟩

/-- Blanks are dropped from the end up to the last character that is no blank. -/
theorem rdropWhile_isBlank {trail : List Char} {d : Char} (front : List Char)
    (solid : isBlank d = false) (blank : ∀ c ∈ trail, isBlank c = true) :
    (front ++ [d] ++ trail).rdropWhile isBlank = front ++ [d] := by
  rw [List.rdropWhile, List.reverse_append, List.dropWhile_append_of_pos (by simpa using blank)]
  exact List.rdropWhile_concat_neg _ _ _ (by simp [solid])

/-- The last character that is no blank is where the trimmed text ends. -/
theorem leadingBlanks_append_trim {source before after : List Char} {c : Char}
    (whole : source = before ++ c :: after) (solid : isBlank c = false)
    (blank : ∀ d ∈ after, isBlank d = true) :
    leadingBlanks source ++ trim source = before ++ [c] := by
  obtain ⟨trail, same, blankTrail⟩ := exists_trail source
  rcases List.eq_nil_or_concat' (trim source) with none | ⟨init, d, text⟩
  · rw [none, List.nil_append] at same
    have inside : c ∈ leadingBlanks source ++ trail := same ▸ whole ▸ by simp
    rcases List.mem_append.mp inside with inside | inside
    · simp [isBlank_of_mem_leadingBlanks inside] at solid
    · simp [blankTrail c inside] at solid
  · have solidLast : isBlank d = false := (isTrimmed_trim source).last d (by simp [text])
    have split : leadingBlanks source ++ init ++ [d] ++ trail = before ++ [c] ++ after := by
      rw [text] at same
      simpa [← whole] using same.symm
    have cut := rdropWhile_isBlank before solid blank
    rwa [← split, rdropWhile_isBlank _ solidLast blankTrail, List.append_assoc, ← text] at cut

theorem trim_of_blank {source : List Char} (blank : ∀ c ∈ source, isBlank c = true) :
    leadingBlanks source = source ∧ trim source = [] :=
  ⟨List.takeWhile_eq_self_iff.mpr blank,
    IsTrimmed.trim_eq ⟨⟨source, [], by simp, blank, by simp⟩, by simp, by simp⟩⟩

theorem trim_eq_nil_iff {source : List Char} :
    trim source = [] ↔ ∀ c ∈ source, isBlank c = true := by
  refine ⟨fun none => ?_, fun blank => (trim_of_blank blank).2⟩
  obtain ⟨trail, whole, blankTrail⟩ := exists_trail source
  rw [none, List.nil_append] at whole
  rw [whole]
  exact List.forall_mem_append.mpr ⟨fun c => isBlank_of_mem_leadingBlanks, blankTrail⟩

/-- A text that ends in no blank is trimmed in front only. -/
theorem leadingBlanks_append_trim_of_solid {cs : List Char}
    (last : ∀ c ∈ cs.getLast?, isBlank c = false) : leadingBlanks cs ++ trim cs = cs := by
  rcases List.eq_nil_or_concat' cs with rfl | ⟨before, c, rfl⟩
  · rfl
  · have solid : isBlank c = false := last c (by simp)
    apply leadingBlanks_append_trim rfl solid
    exact List.forall_mem_nil _

/-- A text that begins with no blank is trimmed behind only. -/
theorem exists_trim_append_of_solid {cs : List Char} (first : ∀ c ∈ cs.head?, isBlank c = false) :
    ∃ trail, cs = trim cs ++ trail ∧ ∀ c ∈ trail, isBlank c = true := by
  obtain ⟨trail, whole, blank⟩ := exists_trail cs
  rw [leadingBlanks_of_solid first, List.nil_append] at whole
  exact ⟨trail, whole, blank⟩

/-- A text that is not blank has a last character that is no blank. -/
theorem exists_last_solid {cs : List Char} (solid : ¬ ∀ c ∈ cs, isBlank c = true) :
    ∃ before c, cs = before ++ c :: trailingBlanks cs ∧ isBlank c = false := by
  rcases List.eq_nil_or_concat' (trimEnd cs) with none | ⟨before, c, some⟩
  · refine absurd (fun c inside => ?_) solid
    rw [← trimEnd_append_trailingBlanks cs, none] at inside
    exact isBlank_of_mem_trailingBlanks inside
  · refine ⟨before, c, ?_, isBlank_getLast?_trimEnd cs c (by simp [some])⟩
    conv_lhs => rw [← trimEnd_append_trailingBlanks cs, some]
    simp

/-- The leading blanks of a text that is not blank do not depend on what comes behind it. -/
theorem leadingBlanks_append_of_solid {lead cs : List Char} (blank : ∀ c ∈ lead, isBlank c = true)
    (solid : ¬ ∀ c ∈ cs, isBlank c = true) (ds : List Char) :
    leadingBlanks (lead ++ (cs ++ ds)) = lead ++ leadingBlanks cs := by
  have shorter : (cs.takeWhile isBlank).length ≠ cs.length := by
    intro same
    exact solid (List.takeWhile_eq_self_iff.mp ((List.takeWhile_prefix isBlank).eq_of_length same))
  unfold leadingBlanks
  rw [List.takeWhile_append_of_pos blank, List.takeWhile_append, if_neg shorter]

end FuncLang.Text
