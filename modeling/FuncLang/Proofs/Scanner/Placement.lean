import FuncLang.Proofs.Position.Count
import FuncLang.Proofs.Position.Order
import FuncLang.Proofs.Scanner.Lossless
import Mathlib.Data.List.Nodup

/-! # Where tokens stand

The position of a token is that of the first character of its lexeme, counted in the source as it
was given, with the blanks that are trimmed off in front. The end of the input is in the first column
of the line behind the last one. Where no line and no column is too great for a word of 32 bits, positions
increase from one token to the next.
-/

namespace FuncLang

namespace Scanner

/-- A pull reads the lexeme behind the gap. -/
theorem pull_of_lexeme {scanner : Scanner} {gap rest : List Char} {lexeme : Lexeme}
    (blank : ∀ c ∈ gap, isGap c = true) (valid : lexeme.IsValid) (ends : lexeme.Ends rest)
    (text : scanner.rest = gap ++ (lexeme.written ++ rest)) :
    scanner.hasNext = true ∧ scanner.pull =
      ⟨rest, scanner.position.advance (gap ++ lexeme.written),
        lexeme.toToken (scanner.position.advance gap)⟩ := by
  obtain ⟨front, behind⟩ := valid.takeWhile_isGap blank rest
  rw [← text] at front behind
  obtain ⟨c, cs, first, solid⟩ := valid.written_eq_cons
  have next : scanner.ahead = c :: (cs ++ rest) := by rw [ahead, behind, first, List.cons_append]
  have scanned : Lexeme.scan c (cs ++ rest) = (lexeme, rest) :=
    (Lexeme.scan_eq_iff solid).mpr ⟨valid, ends, by rw [first, List.cons_append]⟩
  refine ⟨by simp [hasNext, next], ?_⟩
  rw [pull, next, Scanner.gap, front]
  simp only [scanned, Position.advance_append]

/-- A pull that finds no lexeme reads the last gap. -/
theorem pull_of_gap {scanner : Scanner} (blank : ∀ c ∈ scanner.rest, isGap c = true) :
    scanner.hasNext = false ∧ scanner.pull =
      ⟨[], scanner.position.advance scanner.rest,
        Token.endOfInput (scanner.position.advance scanner.rest)⟩ := by
  have next : scanner.ahead = [] := List.dropWhile_eq_nil_iff.mpr blank
  have whole : scanner.gap = scanner.rest := List.takeWhile_eq_self_iff.mpr blank
  refine ⟨by simp [hasNext, next], ?_⟩
  rw [pull, next, whole]

end Scanner

/-- The tokens of segments that are written from the place on. -/
def Segment.tokens : Position → List Segment → List Token
  | _, [] => []
  | place, ⟨gap, lexeme⟩ :: segments =>
    lexeme.toToken (place.advance gap) ::
      Segment.tokens (place.advance (gap ++ lexeme.written)) segments

@[simp] theorem Segment.length_tokens (place : Position) (segments : List Segment) :
    (Segment.tokens place segments).length = segments.length := by
  induction segments generalizing place with
  | nil => rfl
  | cons segment segments ih => simp [Segment.tokens, ih]

/-- The token of a segment stands behind all that is written in front of its lexeme. -/
theorem Segment.getElem?_tokens (place : Position) (front : List Segment) (segment : Segment)
    (back : List Segment) :
    (Segment.tokens place (front ++ segment :: back))[front.length]? =
      some (segment.lexeme.toToken (place.advance (Segment.written front ++ segment.gap))) := by
  induction front generalizing place with
  | nil => rfl
  | cons first front ih =>
    rw [List.cons_append, Segment.tokens, List.length_cons, List.getElem?_cons_succ, ih]
    simp only [Segment.written_cons, Position.advance_append]

namespace Segmented

variable {text last : List Char} {segments : List Segment}

/-- Draining gives the tokens of the segmentation. -/
theorem drain_eq (segmented : Segmented text segments last) :
    ∀ scanner : Scanner, scanner.rest = text →
      scanner.drain.1 = Segment.tokens scanner.position segments ∧
        scanner.drain.2.last = Token.endOfInput (scanner.position.advance text) := by
  induction segmented with
  | none blank =>
    rintro scanner rfl
    obtain ⟨done, pulled⟩ := Scanner.pull_of_gap blank
    rw [Scanner.drain, dif_neg (by simp [done]), pulled]
    exact ⟨rfl, rfl⟩
  | more blank valid ends _ ih =>
    intro scanner text
    obtain ⟨more, pulled⟩ := Scanner.pull_of_lexeme blank valid ends text
    obtain ⟨tokens, final⟩ := ih scanner.pull (by rw [pulled])
    rw [Scanner.drain, dif_pos more]
    dsimp only
    rw [tokens, final, pulled]
    refine ⟨rfl, ?_⟩
    dsimp only
    rw [← Position.advance_append, List.append_assoc]

/-- Every token stands behind something that was read of the text. -/
theorem exists_read_of_mem (segmented : Segmented text segments last) :
    ∀ lead : List Char, ∀ token ∈ Segment.tokens (Position.behind lead) segments ++
        [Token.endOfInput (Position.behind (lead ++ text))],
      ∃ read, read <+: text ∧ token.position = Position.behind (lead ++ read) := by
  induction segmented with
  | none blank =>
    intro lead token member
    rw [List.mem_singleton.mp member]
    exact ⟨_, List.prefix_refl _, rfl⟩
  | @more gap rest last lexeme segments blank valid ends _ ih =>
    intro lead token member
    have whole : lead ++ (gap ++ (lexeme.written ++ rest)) = lead ++ gap ++ lexeme.written ++ rest := by simp
    rw [Segment.tokens, ← Position.behind_append, ← Position.behind_append, ← List.append_assoc, whole]
      at member
    rcases List.mem_cons.mp member with rfl | member
    · exact ⟨gap, List.prefix_append .., rfl⟩
    · obtain ⟨read, ⟨after, rfl⟩, position⟩ := ih _ token member
      exact ⟨gap ++ (lexeme.written ++ read), ⟨after, by simp⟩, by rw [position]; simp⟩

/-- Where words are enough for what is read, positions increase from token to token. -/
theorem pairwise_tokens (segmented : Segmented text segments last) :
    ∀ lead : List Char, (∀ read, read <+: text → (Coordinates.behind (lead ++ read)).FitsWords) →
      (Segment.tokens (Position.behind lead) segments ++
          [Token.endOfInput (Position.behind (lead ++ text))]).Pairwise
        fun a b => a.position < b.position := by
  induction segmented with
  | none blank => exact fun lead fits => List.pairwise_singleton _ _
  | @more gap rest last lexeme segments blank valid ends segmented ih =>
    intro lead fits
    have some : lexeme.written ≠ [] := by
      obtain ⟨c, cs, front, -⟩ := valid.written_eq_cons
      simp [front]
    have whole : lead ++ (gap ++ (lexeme.written ++ rest)) = lead ++ gap ++ lexeme.written ++ rest := by simp
    have fitsBehind : ∀ read, read <+: rest →
        (Coordinates.behind (lead ++ gap ++ lexeme.written ++ read)).FitsWords := by
      rintro read ⟨after, rfl⟩
      simpa using fits (gap ++ (lexeme.written ++ read)) ⟨after, by simp⟩
    rw [Segment.tokens, ← Position.behind_append, ← Position.behind_append, ← List.append_assoc, whole]
    refine List.pairwise_cons.mpr ⟨fun token member => ?_, ih _ fitsBehind⟩
    obtain ⟨read, part, position⟩ := segmented.exists_read_of_mem _ token member
    have fitsToken := fitsBehind read part
    rw [List.append_assoc (lead ++ gap)] at position fitsToken
    rw [position]
    exact Position.behind_lt_append (by simp [some]) (fits gap (List.prefix_append ..)) fitsToken

end Segmented

variable {source : String} {segments : List Segment} {last : List Char}

/-- The segmentation of a source tells its tokens with their positions. -/
theorem tokenize_of_segmented
    (segmented : Segmented (Text.trim source.toList ++ ['\n']) segments last) :
    tokenize source =
      Segment.tokens (Position.behind (Text.leadingBlanks source.toList)) segments ++
        [Token.endOfInput
          (Position.behind (Text.leadingBlanks source.toList ++ Text.trim source.toList ++ ['\n']))] := by
  obtain ⟨tokens, final⟩ := segmented.drain_eq (Scanner.ofSource source) rfl
  have start : (Scanner.ofSource source).position =
      Position.behind (Text.leadingBlanks source.toList) := Position.advance_first _
  rw [start] at tokens final
  rw [List.append_assoc, Position.behind_append, ← tokens, ← final]
  rfl

/-- Whether words of 32 bits are enough for all lines and columns that the scanner counts on its way through
the source, up to the end of the input. Elsewhere its counters would start again at zero. -/
def CountsInWords (source : String) : Prop :=
  ∀ read, read <+: Text.trim source.toList ++ ['\n'] →
    (Coordinates.behind (Text.leadingBlanks source.toList ++ read)).FitsWords

/-- They are enough for every source of less than 2 ^ 32 - 2 characters. -/
theorem countsInWords_of_length_lt (short : source.length < 2 ^ 32 - 2) : CountsInWords source := by
  intro read part
  obtain ⟨trail, whole, -⟩ := Text.exists_trail source.toList
  have total := congrArg List.length whole
  have most := part.length_le
  apply Coordinates.fitsWords_behind
  simp only [List.length_append, List.length_singleton, String.length_toList] at total most ⊢
  omega

/-- Every token of a source stands behind the blanks in front and what was read of the rest. -/
theorem exists_read_of_mem_tokenize {token : Token} (member : token ∈ tokenize source) :
    ∃ read, read <+: Text.trim source.toList ++ ['\n'] ∧
      token.position = Position.behind (Text.leadingBlanks source.toList ++ read) := by
  obtain ⟨-, segments, last, segmented, -⟩ := tokenize_unique_segmentation source
  rw [tokenize_of_segmented segmented, List.append_assoc] at member
  exact segmented.exists_read_of_mem _ token member

/-- Positions increase from each token of a source to the next one, where words are enough for them. -/
theorem pairwise_tokenize (counted : CountsInWords source) :
    (tokenize source).Pairwise fun a b => a.position < b.position := by
  obtain ⟨-, segments, last, segmented, -⟩ := tokenize_unique_segmentation source
  rw [tokenize_of_segmented segmented, List.append_assoc]
  exact segmented.pairwise_tokens _ counted

/-- No two tokens are at the same position then. -/
theorem nodup_position_tokenize (counted : CountsInWords source) :
    ((tokenize source).map (·.position)).Nodup := by
  apply List.pairwise_map.mpr
  refine (pairwise_tokenize counted).imp fun before same => ?_
  exact Position.lt_irrefl _ (same ▸ before)

end FuncLang
