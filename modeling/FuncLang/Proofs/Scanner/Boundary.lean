import FuncLang.Proofs.Scanner.LineBreak

/-! # Line breaks as boundaries

A line feed between two sources is a boundary that no token goes over, neither a string that lacks its
closing quote nor a comment. Where no blank stands at the seam nothing is trimmed there, so each source has
the same tokens as on its own, comments included; only the second one is so many lines further down.
-/

namespace FuncLang

open Scanner (tokensAt)

/-- The tokens in front of the end of the input. -/
def beforeEnd (tokens : List Token) : List Token := tokens.takeWhile fun token => !token.isEnd

/-- The tokens of a source are found in the trimmed text. -/
theorem beforeEnd_tokenize (source : String) :
    beforeEnd (tokenize source) = tokensAt
      (Position.first.advance (Text.leadingBlanks source.toList)) (Text.trim source.toList ++ ['\n']) := by
  obtain ⟨position, last⟩ := Scanner.last_drain (Scanner.ofSource source)
  have tokens : ∀ token ∈ (Scanner.ofSource source).drain.1, (!token.isEnd) = true := by
    intro token member
    rw [Scanner.isEnd_of_mem_drain _ token member, Bool.not_false]
  change ((Scanner.ofSource source).drain.1 ++ [_]).takeWhile _ = (Scanner.ofSource source).drain.1
  rw [List.takeWhile_append_of_pos tokens, last, List.takeWhile_cons_of_neg (by simp), List.append_nil]

theorem beforeEnd_tokenize_of_blank {source : String}
    (blank : ∀ c ∈ source.toList, Text.isBlank c = true) : beforeEnd (tokenize source) = [] := by
  rw [beforeEnd_tokenize, (Text.trim_of_blank blank).2, Scanner.tokensAt_gap (by simp [isGap])]

/-- A text with solid ends is what trimming leaves of a source, if only blanks stand around it. -/
theorem beforeEnd_tokenize_of_solid {source : String} {lead text trail : List Char}
    (whole : source.toList = lead ++ (text ++ trail))
    (blankLead : ∀ c ∈ lead, Text.isBlank c = true) (blankTrail : ∀ c ∈ trail, Text.isBlank c = true)
    (some : text ≠ []) (first : ∀ c ∈ text.head?, Text.isBlank c = false)
    (last : ∀ c ∈ text.getLast?, Text.isBlank c = false) :
    beforeEnd (tokenize source) = tokensAt (Position.first.advance lead) (text ++ ['\n']) := by
  have solid : ¬ ∀ c ∈ text, Text.isBlank c = true := by
    intro blank
    obtain ⟨c, cs, rfl⟩ := List.exists_cons_of_ne_nil some
    simp [blank c List.mem_cons_self] at first
  have leads : Text.leadingBlanks source.toList = lead := by
    rw [whole, Text.leadingBlanks_append_of_solid blankLead solid trail,
      Text.leadingBlanks_of_solid first, List.append_nil]
  have trimmed : Text.trim source.toList = text :=
    Text.IsTrimmed.trim_eq ⟨⟨lead, trail, whole, blankLead, blankTrail⟩, first, last⟩
  rw [beforeEnd_tokenize, leads, trimmed]

section Seam

variable {a b : String}

/-- So many lines further down, the second source is scanned from the line below the first one. -/
theorem beforeEnd_tokenize_below (first : ∀ c ∈ b.toList.head?, Text.isBlank c = false)
    (cs : List Char) :
    (beforeEnd (tokenize b)).map (·.below (1 + cs.count '\n')) =
      tokensAt (Position.first.advance (cs ++ ['\n'])) (Text.trim b.toList ++ ['\n']) := by
  rw [beforeEnd_tokenize, Text.leadingBlanks_of_solid first, Position.advance_first_feed,
    Scanner.tokensAt_below]
  rfl

/-- A source that is blank does not show below another one. -/
theorem beforeEnd_tokenize_append_blank (last : ∀ c ∈ a.toList.getLast?, Text.isBlank c = false)
    (blank : ∀ c ∈ b.toList, Text.isBlank c = true) :
    beforeEnd (tokenize (a ++ "\n" ++ b)) = beforeEnd (tokenize a) := by
  have blankTrail : ∀ c ∈ '\n' :: b.toList, Text.isBlank c = true :=
    List.forall_mem_cons.mpr ⟨by decide, blank⟩
  by_cases none : Text.trim a.toList = []
  · have blankA := Text.trim_eq_nil_iff.mp none
    rw [beforeEnd_tokenize_of_blank blankA, beforeEnd_tokenize_of_blank]
    rw [toList_append_line]
    exact List.forall_mem_append.mpr ⟨blankA, blankTrail⟩
  · have trimmed := Text.isTrimmed_trim a.toList
    rw [beforeEnd_tokenize a]
    apply beforeEnd_tokenize_of_solid _ _ blankTrail none trimmed.first trimmed.last
    · rw [toList_append_line, ← List.append_assoc, Text.leadingBlanks_append_trim_of_solid last]
    · exact fun c => Text.isBlank_of_mem_leadingBlanks

/-- A source that is blank only moves down what stands below it. -/
theorem beforeEnd_tokenize_blank_append (blank : ∀ c ∈ a.toList, Text.isBlank c = true)
    (first : ∀ c ∈ b.toList.head?, Text.isBlank c = false) (solid : Text.trim b.toList ≠ []) :
    beforeEnd (tokenize (a ++ "\n" ++ b)) =
      (beforeEnd (tokenize b)).map (·.below (1 + a.toList.count '\n')) := by
  obtain ⟨trail, whole, blankTrail⟩ := Text.exists_trim_append_of_solid first
  have trimmed := Text.isTrimmed_trim b.toList
  have blankLead : ∀ c ∈ a.toList ++ ['\n'], Text.isBlank c = true :=
    List.forall_mem_append.mpr ⟨blank, List.forall_mem_singleton.mpr (by decide)⟩
  rw [beforeEnd_tokenize_below first]
  apply beforeEnd_tokenize_of_solid _ blankLead blankTrail solid trimmed.first trimmed.last
  rw [toList_append_line, ← whole, List.append_assoc, List.singleton_append]

/-- Where neither source is blank, scanning starts anew behind the line feed between them. -/
theorem beforeEnd_tokenize_solid_append (last : ∀ c ∈ a.toList.getLast?, Text.isBlank c = false)
    (first : ∀ c ∈ b.toList.head?, Text.isBlank c = false) (solidA : Text.trim a.toList ≠ [])
    (solidB : Text.trim b.toList ≠ []) :
    beforeEnd (tokenize (a ++ "\n" ++ b)) = beforeEnd (tokenize a) ++
      (beforeEnd (tokenize b)).map (·.below (1 + a.toList.count '\n')) := by
  obtain ⟨trail, back, blankTrail⟩ := Text.exists_trim_append_of_solid first
  have front := Text.leadingBlanks_append_trim_of_solid last
  have trimmedA := Text.isTrimmed_trim a.toList
  have trimmedB := Text.isTrimmed_trim b.toList
  have whole : (a ++ "\n" ++ b).toList = Text.leadingBlanks a.toList ++
      ((Text.trim a.toList ++ '\n' :: Text.trim b.toList) ++ trail) := by
    rw [toList_append_line]
    conv_lhs => rw [← front, back]
    simp
  have firstBoth : ∀ c ∈ (Text.trim a.toList ++ '\n' :: Text.trim b.toList).head?,
      Text.isBlank c = false := by
    rw [List.head?_append_of_ne_nil _ solidA]
    exact trimmedA.first
  have lastBoth : ∀ c ∈ (Text.trim a.toList ++ '\n' :: Text.trim b.toList).getLast?,
      Text.isBlank c = false := by
    rw [← List.singleton_append, ← List.append_assoc, List.getLast?_append_of_ne_nil _ solidB]
    exact trimmedB.last
  rw [beforeEnd_tokenize_of_solid whole (fun c => Text.isBlank_of_mem_leadingBlanks) blankTrail
    (by simp) firstBoth lastBoth, List.append_assoc, List.cons_append, Scanner.tokensAt_append_feed,
    beforeEnd_tokenize_below first, beforeEnd_tokenize a, ← Position.advance_append,
    ← List.append_assoc, front]

/-- The tokens of the second source stand behind those of the first. -/
theorem beforeEnd_tokenize_append (last : ∀ c ∈ a.toList.getLast?, Text.isBlank c = false)
    (first : ∀ c ∈ b.toList.head?, Text.isBlank c = false) :
    beforeEnd (tokenize (a ++ "\n" ++ b)) = beforeEnd (tokenize a) ++
      (beforeEnd (tokenize b)).map (·.below (1 + a.toList.count '\n')) := by
  by_cases noneB : Text.trim b.toList = []
  · have blank := Text.trim_eq_nil_iff.mp noneB
    rw [beforeEnd_tokenize_append_blank last blank, beforeEnd_tokenize_of_blank blank, List.map_nil,
      List.append_nil]
  · by_cases noneA : Text.trim a.toList = []
    · have blank := Text.trim_eq_nil_iff.mp noneA
      rw [beforeEnd_tokenize_blank_append blank first noneB, beforeEnd_tokenize_of_blank blank,
        List.nil_append]
    · exact beforeEnd_tokenize_solid_append last first noneA noneB

end Seam

/-- No token goes over a line feed. Where no blank stands at either side of it, the tokens of two sources
with a line feed between them are those of the first and, so many lines further down, those of the
second. So many lines are added to the word that counts them, and to its number where words are enough. -/
theorem beforeEnd_tokenize_append_line (a b : String)
    (last : ∀ c ∈ a.toList.getLast?, Text.isBlank c = false)
    (first : ∀ c ∈ b.toList.head?, Text.isBlank c = false) :
    beforeEnd (tokenize (a ++ "\n" ++ b)) = beforeEnd (tokenize a) ++
        (beforeEnd (tokenize b)).map (·.below (1 + a.toList.count '\n')) ∧
      (CountsInWords (a ++ "\n" ++ b) → ∀ token ∈ beforeEnd (tokenize b),
        (token.below (1 + a.toList.count '\n')).position.coordinates =
          ⟨token.position.coordinates.line + (1 + a.toList.count '\n'),
            token.position.coordinates.column⟩) := by
  refine ⟨beforeEnd_tokenize_append last first, fun counted token member => ?_⟩
  refine counted.coordinates_below ?_ ((List.takeWhile_sublist _).subset member)
  intro blank
  simp [beforeEnd_tokenize_of_blank blank] at member

/-- A quote that is not closed in its line, behind a comment, and one that is the first character below
it. -/
theorem beforeEnd_tokenize_of_quotes_at_seam :
    (∀ c ∈ " x # c\n1 \"y".toList.getLast?, Text.isBlank c = false) ∧
      (∀ c ∈ "\"\r# z\" ".toList.head?, Text.isBlank c = false) ∧
      beforeEnd (tokenize (" x # c\n1 \"y" ++ "\n" ++ "\"\r# z\" ")) =
        beforeEnd (tokenize " x # c\n1 \"y") ++
          (beforeEnd (tokenize "\"\r# z\" ")).map (·.below 2) ∧
      ∀ token ∈ beforeEnd (tokenize "\"\r# z\" "), (token.below 2).position.coordinates =
        ⟨token.position.coordinates.line + 2, token.position.coordinates.column⟩ := by
  have last : ∀ c ∈ " x # c\n1 \"y".toList.getLast?, Text.isBlank c = false := by
    rw [show " x # c\n1 \"y".toList.getLast? = some 'y' by decide]
    simp [Text.isBlank, Text.blankRanges]
  have first : ∀ c ∈ "\"\r# z\" ".toList.head?, Text.isBlank c = false := by
    rw [show "\"\r# z\" ".toList.head? = some '"' by decide]
    simp [Text.isBlank, Text.blankRanges]
  have counted : CountsInWords (" x # c\n1 \"y" ++ "\n" ++ "\"\r# z\" ") :=
    countsInWords_of_length_lt (by decide)
  obtain ⟨tokens, numbers⟩ := beforeEnd_tokenize_append_line _ _ last first
  exact ⟨last, first, tokens, numbers counted⟩

end FuncLang
