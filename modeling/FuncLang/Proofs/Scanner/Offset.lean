import FuncLang.Proofs.Scanner.Joined
import FuncLang.Proofs.Scanner.Placement

/-! # Offsets in the source

The lexeme of a token is found in the source as it was given, at an offset that counts the blanks in
front of it as well. The lines and columns of tokens are those of these offsets, and in a source of less
than 2 ^ 32 - 2 characters there is none that does not fit in a word of 32 bits.
-/

namespace FuncLang

/-- No lexeme goes over the end of a line. -/
theorem Lexeme.IsValid.feed_not_mem_written {lexeme : Lexeme} (valid : lexeme.IsValid) :
    '\n' ∉ lexeme.written := by
  intro inside
  by_cases plain : lexeme.IsPlain
  · exact absurd (plain.isBlank_of_mem inside) (by decide)
  · obtain ⟨kind, text⟩ := lexeme
    cases kind with
    | stringLiteral =>
      have outside : '\n' ∉ text.toList := valid.2
      simp [written, outside] at inside
    | comment =>
      obtain ⟨cs, spelt, oneLine⟩ := valid
      simp [written, spelt, oneLine] at inside
    | unknown =>
      obtain ⟨c, stray, spelt⟩ := valid
      obtain rfl : '\n' = c := by simpa [written, spelt] using inside
      exact absurd stray.1 (by decide)
    | endOfInput => exact valid
    | identifier | keyword | integer | operator | punctuation => exact plain ⟨valid, by simp⟩

/-- The lexeme of the token with the given number begins at the given offset of the source: that many
characters are blanks that are trimmed off in front, or are written of the segments in front of it, or
are the gap between them and it. -/
def BeginsAt (source : String) (number offset : Nat) : Prop :=
  ∃ front segment back last,
    Segmented (Text.trim source.toList ++ ['\n']) (front ++ segment :: back) last ∧
      number = front.length ∧
      offset = (Text.leadingBlanks source.toList ++ (Segment.written front ++ segment.gap)).length

variable {source : String} {front back : List Segment} {segment : Segment} {last : List Char}

theorem Segmented.isValid_of_mem {text : List Char} {segments : List Segment}
    (segmented : Segmented text segments last) :
    ∀ segment ∈ segments, segment.lexeme.IsValid := by
  induction segmented with
  | none => exact List.forall_mem_nil _
  | more _ valid _ _ ih => exact List.forall_mem_cons.mpr ⟨valid, ih⟩

/-- A lexeme stands in the source behind what is written of the segments in front of it. -/
theorem Segmented.exists_after
    (segmented : Segmented (Text.trim source.toList ++ ['\n']) (front ++ segment :: back) last) :
    ∃ after, source.toList = Text.leadingBlanks source.toList ++
      (Segment.written front ++ segment.gap) ++ (segment.lexeme.written ++ after) := by
  have valid := segmented.isValid_of_mem segment (by simp)
  obtain ⟨trail, whole, -⟩ := Text.exists_trail source.toList
  have text : Text.trim source.toList ++ ['\n'] = Segment.written front ++
      (segment.gap ++ (segment.lexeme.written ++ (Segment.written back ++ last))) := by
    rw [segmented.text_eq]
    simp
  -- The line feed stands behind the lexeme, and so the lexeme is in the trimmed text.
  rcases List.eq_nil_or_concat' (Segment.written back ++ last) with none | ⟨inner, feed, behind⟩
  · rcases List.eq_nil_or_concat' segment.lexeme.written with empty | ⟨init, final, spelt⟩
    · obtain ⟨c, cs, some, -⟩ := valid.written_eq_cons
      simp [some] at empty
    · rw [none, spelt, List.append_nil, ← List.append_assoc, ← List.append_assoc] at text
      obtain ⟨-, same⟩ := List.append_inj' text rfl
      obtain rfl : '\n' = final := by simpa using same
      exact absurd (by simp [spelt]) valid.feed_not_mem_written
  · rw [behind, ← List.append_assoc, ← List.append_assoc, ← List.append_assoc] at text
    obtain ⟨same, -⟩ := List.append_inj' text rfl
    refine ⟨inner ++ trail, ?_⟩
    conv_lhs => rw [whole, same]
    simp

/-- Every token before the end of the input begins somewhere. -/
theorem exists_beginsAt {number : Nat} {token : Token}
    (found : (tokenize source)[number]? = some token) (more : token.isEnd = false) :
    ∃ offset, BeginsAt source number offset := by
  obtain ⟨-, segments, last, segmented, -⟩ := tokenize_unique_segmentation source
  rw [tokenize_of_segmented segmented] at found
  have inside : number < segments.length := by
    by_contra outside
    rw [List.getElem?_append_right (by simpa using outside)] at found
    have final := List.mem_singleton.mp (List.mem_of_getElem? found)
    simp [final] at more
  have split : segments = segments.take number ++ segments[number] :: segments.drop (number + 1) := by
    rw [← List.drop_eq_getElem_cons inside, List.take_append_drop]
  rw [split] at segmented
  exact ⟨_, _, _, _, last, segmented, by simp [Nat.min_eq_left (Nat.le_of_lt inside)], rfl⟩

/-- A token has the position of its offset, where its lexeme is found in the source. -/
theorem BeginsAt.getElem?_tokenize {number offset : Nat} (begins : BeginsAt source number offset) :
    ∃ lexeme : Lexeme,
      (tokenize source)[number]? =
          some (lexeme.toToken (Position.behind (source.toList.take offset))) ∧
        lexeme.written <+: source.toList.drop offset := by
  obtain ⟨front, segment, back, last, segmented, rfl, rfl⟩ := begins
  obtain ⟨after, whole⟩ := segmented.exists_after
  refine ⟨segment.lexeme, ?_, ?_⟩
  · rw [tokenize_of_segmented segmented, List.getElem?_append_left (by simp),
      Segment.getElem?_tokens, ← Position.behind_append]
    conv_rhs => rw [whole, List.take_left' (by rw [← whole])]
  · conv_rhs => rw [whole, List.drop_left' (by rw [← whole])]
    exact List.prefix_append _ _

/-- The end of the input is in the first column of a line of its own. -/
theorem getLast?_tokenize (source : String) :
    (tokenize source).getLast? = some (Token.endOfInput
      ⟨(Position.behind (Text.leadingBlanks source.toList ++ Text.trim source.toList)).line + 1, 1⟩) := by
  obtain ⟨-, segments, last, segmented, -⟩ := tokenize_unique_segmentation source
  rw [tokenize_of_segmented segmented, List.getLast?_concat, Position.behind_append_singleton]
  rfl

/-- Wherever the scanner comes, its position holds what is counted, where words are enough for that. -/
theorem CountsInWords.coordinates_behind (counted : CountsInWords source) {read : List Char}
    (part : read <+: Text.trim source.toList ++ ['\n']) :
    (Position.behind (Text.leadingBlanks source.toList ++ read)).coordinates =
      Coordinates.behind (Text.leadingBlanks source.toList ++ read) :=
  Coordinates.coordinates_toPosition (counted read part)

/-- The number of the line that the end of a source has for itself. -/
theorem CountsInWords.toNat_line_behind_trim (counted : CountsInWords source) :
    ((Position.behind (Text.leadingBlanks source.toList ++ Text.trim source.toList)).line + 1).toNat =
      (Coordinates.behind (Text.leadingBlanks source.toList ++ Text.trim source.toList)).line + 1 := by
  have behind := counted.coordinates_behind (List.prefix_refl _)
  rw [← List.append_assoc, Position.behind_append_singleton, Coordinates.behind_append_singleton,
    if_pos rfl, Position.step, if_pos rfl] at behind
  exact congrArg Coordinates.line behind

/-- In a source of less than 2 ^ 32 - 2 characters the position of every token holds what is counted
up to the offset where its lexeme begins, the end of the input stands in the first column behind the
last line, positions increase from token to token, and on the way the scanner never starts to count at
zero again. -/
theorem positions_tokenize_exact (source : String) (short : source.length < 2 ^ 32 - 2) :
    (∀ number token, (tokenize source)[number]? = some token → token.isEnd = false →
      (∃ offset, BeginsAt source number offset) ∧ ∀ offset, BeginsAt source number offset →
        token.lexeme.written <+: source.toList.drop offset ∧
          token.position.coordinates = Coordinates.behind (source.toList.take offset)) ∧
    (∃ line, (tokenize source).getLast? = some (Token.endOfInput ⟨line, 1⟩) ∧
      (∀ before c after, source.toList = before ++ c :: after → Text.isBlank c = false →
        (∀ d ∈ after, Text.isBlank d = true) → line.toNat = (Coordinates.behind before).line + 1) ∧
      ((∀ c ∈ source.toList, Text.isBlank c = true) →
        line.toNat = 2 + source.toList.count '\n')) ∧
    ((tokenize source).Pairwise fun a b => a.position < b.position) ∧
    ∀ read, read <+: Text.trim source.toList ++ ['\n'] →
      ((Scanner.ofSource source).position.advance read).coordinates =
        Coordinates.behind (Text.leadingBlanks source.toList ++ read) := by
  have counted := countsInWords_of_length_lt short
  refine ⟨fun number token found more => ⟨exists_beginsAt found more, fun offset begins => ?_⟩,
    ⟨_, getLast?_tokenize source, fun before c after whole solid blank => ?_, fun blank => ?_⟩,
    pairwise_tokenize counted, fun read part => ?_⟩
  · obtain ⟨lexeme, stands, inSource⟩ := begins.getElem?_tokenize
    obtain rfl := Option.some.inj (stands.symm.trans found)
    refine ⟨inSource, Coordinates.coordinates_toPosition (Coordinates.fitsWords_behind ?_)⟩
    rw [List.length_take, String.length_toList]
    omega
  · have noFeed : c ≠ '\n' := by
      rintro rfl
      exact absurd solid (by decide)
    rw [counted.toNat_line_behind_trim, Text.leadingBlanks_append_trim whole solid blank,
      Coordinates.behind_append_singleton, if_neg noFeed]
  · obtain ⟨lead, text⟩ := Text.trim_of_blank blank
    rw [counted.toNat_line_behind_trim]
    simp only [lead, text, List.append_nil, Coordinates.behind]
    omega
  · rw [show (Scanner.ofSource source).position = _ from Position.advance_first _, ← Position.behind_append]
    exact counted.coordinates_behind part

theorem positions_tokenize_below_blank_line :
    "\u00a0\n é 12 ".length < 2 ^ 32 - 2 ∧
      (tokenize "\u00a0\n é 12 ").getLast? = some (Token.endOfInput ⟨3, 1⟩) ∧
      ∃ offset, BeginsAt "\u00a0\n é 12 " 1 offset ∧
        ['1', '2'] <+: "\u00a0\n é 12 ".toList.drop offset := by
  have short : "\u00a0\n é 12 ".length < 2 ^ 32 - 2 := by decide
  obtain ⟨tokens, ⟨line, last, ends, -⟩, -⟩ := positions_tokenize_exact "\u00a0\n é 12 " short
  have found : (tokenize "\u00a0\n é 12 ")[1]? = some ⟨.integer, "12", ⟨2, 4⟩⟩ := by decide +kernel
  obtain ⟨⟨offset, begins⟩, stands⟩ := tokens 1 _ found rfl
  have lines := ends "\u00a0\n é 1".toList '2' [' '] (by decide) (by decide) (by simp; decide)
  obtain rfl : line = 3 := UInt32.toNat_inj.mp lines
  exact ⟨short, last, offset, begins, (stands offset begins).1⟩

end FuncLang
