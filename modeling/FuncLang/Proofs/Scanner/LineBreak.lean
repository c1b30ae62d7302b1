import FuncLang.Proofs.Scanner.Offset

/-! # Texts joined at a line break

No lexeme goes over the end of a line, so a text behind a line feed is scanned as if nothing stood in
front of it, apart from its position. The tokens of two texts with a line feed between them are those of
the first and, so many lines further down, those of the second. The word that counts the lines goes on
in the same way, also where it starts again at zero.

Where only gaps are trimmed off a text, its tokens are the same with and without them, except that a
comment at its end may be longer.
-/

namespace FuncLang

/-- The position that many lines further down. -/
def Position.below (place : Position) (lines : Nat) : Position :=
  ⟨place.line + lines, place.column⟩

/-- The token that many lines further down. -/
def Token.below (token : Token) (lines : Nat) : Token :=
  { token with position := token.position.below lines }

namespace Position

variable (place : Position) (lines : Nat)

theorem advance_below (cs : List Char) :
    (place.below lines).advance cs = (place.advance cs).below lines := by
  have step (place : Position) (c : Char) : (place.below lines).step c = (place.step c).below lines := by
    unfold Position.step below
    split
    · have lines : place.line + lines + 1 = place.line + 1 + lines := by
        rw [UInt32.add_assoc, UInt32.add_comm lines, UInt32.add_assoc]
      exact congrArg (Position.mk · 1) lines
    · rfl
  induction cs generalizing place with
  | nil => rfl
  | cons c cs ih => rw [advance_cons, advance_cons, step, ih]

/-- Where the word does not start again at zero, so many lines are added to its number. -/
theorem coordinates_below (fits : place.coordinates.line + lines < 2 ^ 32) :
    (place.below lines).coordinates = ⟨place.coordinates.line + lines, place.coordinates.column⟩ := by
  have added : (place.line + lines).toNat = place.line.toNat + lines := by
    rw [UInt32.toNat_add, UInt32.toNat_ofNat', Nat.add_mod_mod]
    exact Nat.mod_eq_of_lt fits
  exact congrArg (Coordinates.mk · place.column.toNat) added

/-- A line feed leads to the first column. -/
theorem advance_first_feed (cs : List Char) :
    first.advance (cs ++ ['\n']) = first.below (1 + cs.count '\n') := by
  rw [advance_first, behind_append_singleton, step, if_pos rfl]
  exact congrArg (Position.mk · 1) (UInt32.add_comm ..)

end Position

theorem Segment.tokens_below (place : Position) (lines : Nat) (segments : List Segment) :
    Segment.tokens (place.below lines) segments =
      (Segment.tokens place segments).map (·.below lines) := by
  induction segments generalizing place with
  | nil => rfl
  | cons segment segments ih =>
    simp only [Segment.tokens, Position.advance_below, ih, List.map_cons]
    rfl

/-! ## Lexemes before more text -/

namespace Lexeme

variable {lexeme : Lexeme} {rest : List Char}

/-- A line that ends before the next quote still does so with another text behind its first part, if a
quote in that text comes too late as well. -/
theorem feed_before_quote {front line more : List Char}
    (early : ∀ body behind, front ++ line = body ++ '"' :: behind → '\n' ∈ body)
    (late : ∀ body behind, more = body ++ '"' :: behind → '\n' ∈ front ++ body) :
    ∀ body behind, front ++ more = body ++ '"' :: behind → '\n' ∈ body := by
  intro body behind same
  rcases List.append_eq_append_iff.mp same with ⟨inner, rfl, split⟩ | ⟨inner, rfl, split⟩
  · exact late inner behind split
  · cases inner with
    | nil => simpa using late [] behind split.symm
    | cons c inner =>
      obtain ⟨rfl, -⟩ := List.cons.inj split
      exact early body (inner ++ line) (by simp)

/-- Where a lexeme ends in a line, more lines behind that one do not matter. -/
theorem Ends.append (ends : lexeme.Ends rest) (feed : '\n' ∈ rest) (more : List Char) :
    lexeme.Ends (rest ++ more) := by
  have head : (rest ++ more).head? = rest.head? := by
    obtain ⟨c, cs, rfl⟩ := List.exists_cons_of_ne_nil (List.ne_nil_of_mem feed)
    rfl
  obtain ⟨kind, text⟩ := lexeme
  cases kind with
  | identifier | keyword | integer | comment => rwa [Ends, head]
  | stringLiteral | operator | punctuation | endOfInput => trivial
  | unknown =>
    intro quote
    have early := ends quote
    rw [← List.append_nil rest] at early
    exact feed_before_quote early fun body _ _ => List.mem_append_left body feed

/-- A valid lexeme in a text that ends in a line feed ends before that. -/
theorem IsValid.getLast?_rest (valid : lexeme.IsValid) {gap : List Char}
    (feed : (gap ++ (lexeme.written ++ rest)).getLast? = some '\n') : rest.getLast? = some '\n' := by
  cases rest with
  | cons c rest => simpa using feed
  | nil =>
    obtain ⟨c, cs, front, -⟩ := valid.written_eq_cons
    have inside : '\n' ∈ lexeme.written := by
      apply List.mem_of_getLast?
      simpa [front] using feed
    exact absurd inside valid.feed_not_mem_written

/-- Only a comment goes on with a gap that is put between it and the end of its line. -/
theorem Ends.padded {text pad : List Char} (ends : lexeme.Ends (text ++ ['\n']))
    (blank : ∀ c ∈ pad ++ ['\n'], isGap c = true) (solid : lexeme.kind = .comment → text ≠ []) :
    lexeme.Ends (text ++ (pad ++ ['\n'])) := by
  have noQuote : '"' ∉ pad ++ ['\n'] := fun inside => absurd (blank _ inside) (by decide)
  have noPart : text = [] → ∀ c ∈ (text ++ (pad ++ ['\n'])).head?, isNamePart c = false := by
    rintro rfl c next
    exact isNamePart_of_isGap (blank c (List.mem_of_head? next))
  have head : text ≠ [] → (text ++ (pad ++ ['\n'])).head? = (text ++ ['\n']).head? := by
    intro some
    rw [List.head?_append_of_ne_nil _ some, List.head?_append_of_ne_nil _ some]
  obtain ⟨kind, written⟩ := lexeme
  cases kind with
  | stringLiteral | operator | punctuation | endOfInput => trivial
  | comment => rwa [Ends, head (solid rfl)]
  | identifier | keyword =>
    by_cases none : text = []
    · exact noPart none
    · rwa [Ends, head none]
  | integer =>
    by_cases none : text = []
    · exact fun c next => (isNamePart_eq_false_iff.mp (noPart none c next)).2
    · rwa [Ends, head none]
  | unknown =>
    intro quote
    refine feed_before_quote (ends quote) fun body behind same => ?_
    exact absurd (same ▸ List.mem_append_right body List.mem_cons_self) noQuote

/-- A comment takes in the gap that is put between it and the end of its line. -/
theorem IsValid.padded_comment (valid : lexeme.IsValid) (comment : lexeme.kind = .comment)
    (pad : List Char) :
    ∃ longer : Lexeme, longer.kind = .comment ∧ longer.IsValid ∧
      longer.Ends ((pad ++ ['\n']).dropWhile (· ≠ '\n')) ∧
      lexeme.written ++ (pad ++ ['\n']) =
        longer.written ++ (pad ++ ['\n']).dropWhile (· ≠ '\n') := by
  obtain ⟨kind, text⟩ := lexeme
  obtain rfl : kind = .comment := comment
  obtain ⟨cs, spelt, oneLine⟩ := valid
  refine ⟨⟨.comment, String.ofList ('#' :: (cs ++ (pad ++ ['\n']).takeWhile (· ≠ '\n')))⟩, rfl, ?_, ?_, ?_⟩
  · refine ⟨_, String.toList_ofList, fun inside => ?_⟩
    rcases List.mem_append.mp inside with inside | inside
    · exact oneLine inside
    · simpa using List.mem_takeWhile_imp inside
  · exact fun c next => by simpa using of_mem_head?_dropWhile next
  · simp [written, spelt, List.takeWhile_append_dropWhile]

end Lexeme

/-! ## Tokens of a text -/

namespace Scanner

/-- The tokens of a text that begins at the place. -/
def tokensAt (place : Position) (text : List Char) : List Token :=
  (Scanner.mk text place (Token.endOfInput Position.first)).drain.1

variable {text gap rest : List Char} {segments : List Segment} {lexeme : Lexeme}

theorem tokensAt_of_segmented {last : List Char} (segmented : Segmented text segments last)
    (place : Position) : tokensAt place text = Segment.tokens place segments :=
  (segmented.drain_eq _ rfl).1

theorem exists_segmented (text : List Char) : ∃ segments last, Segmented text segments last := by
  have drained := segments_drain (Scanner.mk text Position.first (Token.endOfInput Position.first))
  obtain ⟨segments, last, segmented, -⟩ := Lexeme.segments_iff_exists_segmented.mp drained
  exact ⟨segments, last, segmented⟩

theorem tokensAt_below (place : Position) (lines : Nat) (text : List Char) :
    tokensAt (place.below lines) text = (tokensAt place text).map (·.below lines) := by
  obtain ⟨segments, last, segmented⟩ := exists_segmented text
  rw [tokensAt_of_segmented segmented, tokensAt_of_segmented segmented, Segment.tokens_below]

theorem tokensAt_gap (blank : ∀ c ∈ gap, isGap c = true) (place : Position) :
    tokensAt place gap = [] :=
  tokensAt_of_segmented (.none blank) place

theorem tokensAt_lexeme (blank : ∀ c ∈ gap, isGap c = true) (valid : lexeme.IsValid)
    (ends : lexeme.Ends rest) (place : Position) :
    tokensAt place (gap ++ (lexeme.written ++ rest)) =
      lexeme.toToken (place.advance gap) :: tokensAt (place.advance (gap ++ lexeme.written)) rest := by
  obtain ⟨segments, last, segmented⟩ := exists_segmented rest
  rw [tokensAt_of_segmented segmented, tokensAt_of_segmented (.more blank valid ends segmented)]
  rfl

/-- A gap in front of a text is passed over. -/
theorem tokensAt_gap_append (blank : ∀ c ∈ gap, isGap c = true) (place : Position) (text : List Char) :
    tokensAt place (gap ++ text) = tokensAt (place.advance gap) text := by
  obtain ⟨segments, last, segmented⟩ := exists_segmented text
  cases segmented with
  | none blankText =>
    rw [tokensAt_gap blankText, tokensAt_gap (List.forall_mem_append.mpr ⟨blank, blankText⟩)]
  | more blankText valid ends =>
    rw [← List.append_assoc, tokensAt_lexeme (List.forall_mem_append.mpr ⟨blank, blankText⟩) valid ends,
      tokensAt_lexeme blankText valid ends, List.append_assoc, Position.advance_append,
      Position.advance_append]

/-- Behind a line feed scanning starts anew. -/
theorem tokensAt_append_feed (place : Position) (text more : List Char) :
    tokensAt place (text ++ '\n' :: more) =
      tokensAt place (text ++ ['\n']) ++ tokensAt (place.advance (text ++ ['\n'])) more := by
  obtain ⟨segments, last, segmented⟩ := exists_segmented (text ++ ['\n'])
  have feed : (text ++ ['\n']).getLast? = some '\n' := by simp
  rw [← List.singleton_append, ← List.append_assoc]
  generalize text ++ ['\n'] = line at segmented feed
  induction segmented generalizing place with
  | none blank => rw [tokensAt_gap blank, tokensAt_gap_append blank, List.nil_append]
  | @more gap rest last lexeme segments blank valid ends _ ih =>
    have feedRest := valid.getLast?_rest feed
    have endsMore := ends.append (List.mem_of_getLast? feedRest) more
    rw [List.append_assoc, List.append_assoc, tokensAt_lexeme blank valid endsMore,
      tokensAt_lexeme blank valid ends, ih _ feedRest, List.cons_append, ← Position.advance_append,
      List.append_assoc]

theorem significant_cons (token : Token) (tokens : List Token) :
    significant (token :: tokens) = significant [token] ++ significant tokens :=
  List.filter_append [token] tokens

/-- A gap at the end of a text is passed over, or taken in by a comment. -/
theorem significant_tokensAt_padded {pad : List Char} (blank : ∀ c ∈ pad ++ ['\n'], isGap c = true)
    (place : Position) (text : List Char) :
    significant (tokensAt place (text ++ (pad ++ ['\n']))) =
      significant (tokensAt place (text ++ ['\n'])) := by
  obtain ⟨segments, last, segmented⟩ := exists_segmented (text ++ ['\n'])
  generalize line : text ++ ['\n'] = whole at segmented
  induction segmented generalizing place text with
  | none blankLine =>
    subst line
    have blankText := (List.forall_mem_append.mp blankLine).1
    rw [tokensAt_gap blankLine, tokensAt_gap (List.forall_mem_append.mpr ⟨blankText, blank⟩)]
  | @more gap rest last lexeme segments blankGap valid ends _ ih =>
    have feed : (gap ++ (lexeme.written ++ rest)).getLast? = some '\n' := by simp [← line]
    obtain ⟨inner, rfl⟩ := List.getLast?_eq_some_iff.mp (valid.getLast?_rest feed)
    obtain rfl : text = gap ++ (lexeme.written ++ inner) :=
      List.append_cancel_right (by simpa using line)
    rw [List.append_assoc, List.append_assoc, ← line, List.append_assoc, List.append_assoc]
    by_cases grows : lexeme.kind = .comment ∧ inner = []
    · obtain ⟨comment, rfl⟩ := grows
      obtain ⟨longer, kind, validLonger, endsLonger, same⟩ := valid.padded_comment comment pad
      have blankBehind : ∀ c ∈ (pad ++ ['\n']).dropWhile (· ≠ '\n'), isGap c = true :=
        fun c inside => blank c ((List.dropWhile_suffix _).subset inside)
      have blankFeed : ∀ c ∈ [] ++ ['\n'], isGap c = true := by simp [isGap]
      rw [List.nil_append, same, tokensAt_lexeme blankGap validLonger endsLonger,
        tokensAt_gap blankBehind, tokensAt_lexeme blankGap valid ends, tokensAt_gap blankFeed]
      simp [significant, Lexeme.toToken, kind, comment]
    · have endsPadded := ends.padded blank fun comment none => grows ⟨comment, none⟩
      rw [tokensAt_lexeme blankGap valid endsPadded, tokensAt_lexeme blankGap valid ends,
        significant_cons, ih _ inner rfl, ← significant_cons]

end Scanner

/-! ## Gaps at the ends of a text -/

/-- Whether only gaps would be trimmed off the text. -/
structure HasGapEnds (text : List Char) : Prop where
  front : ∀ c ∈ Text.leadingBlanks text, isGap c = true
  back : ∀ c ∈ Text.trailingBlanks text, isGap c = true

namespace HasGapEnds

variable {cs ds : List Char}

/-- In front, blanks go on over a line feed only if they come up to it. -/
theorem front_joined (gapFront : ∀ c ∈ Text.leadingBlanks cs, isGap c = true)
    (gapBehind : ∀ c ∈ Text.leadingBlanks ds, isGap c = true) :
    ∀ c ∈ Text.leadingBlanks (cs ++ '\n' :: ds), isGap c = true := by
  unfold Text.leadingBlanks at *
  rw [List.takeWhile_append]
  split
  next all =>
    rw [(List.takeWhile_prefix Text.isBlank).eq_of_length all] at gapFront
    rw [List.takeWhile_cons_of_pos (by decide)]
    exact List.forall_mem_append.mpr ⟨gapFront, List.forall_mem_cons.mpr ⟨by decide, gapBehind⟩⟩
  next => exact gapFront

theorem joined (front : HasGapEnds cs) (behind : HasGapEnds ds) : HasGapEnds (cs ++ '\n' :: ds) where
  front := front_joined front.front behind.front
  back := by
    have reversed : ∀ c ∈ Text.leadingBlanks (ds.reverse ++ '\n' :: cs.reverse), isGap c = true :=
      front_joined (fun c inside => behind.back c (List.mem_reverse.mpr inside))
        fun c inside => front.back c (List.mem_reverse.mpr inside)
    intro c inside
    apply reversed
    simpa [Text.trailingBlanks, Text.leadingBlanks, List.rtakeWhile] using inside

theorem trimStart (gap : ∀ c ∈ Text.trailingBlanks cs, isGap c = true) :
    HasGapEnds (Text.trimStart cs) where
  front := by
    rw [Text.leadingBlanks_of_solid (Text.isBlank_head?_trimStart cs)]
    exact List.forall_mem_nil _
  back c inside := by
    have suffix := Text.trailingBlanks_suffix_append (Text.leadingBlanks cs) (Text.trimStart cs)
    rw [Text.leadingBlanks_append_trimStart] at suffix
    exact gap c (suffix.subset inside)

theorem trimEnd (gap : ∀ c ∈ Text.leadingBlanks cs, isGap c = true) :
    HasGapEnds (Text.trimEnd cs) where
  front c inside := by
    have before := Text.leadingBlanks_prefix_append (Text.trimEnd cs) (Text.trailingBlanks cs)
    rw [Text.trimEnd_append_trailingBlanks] at before
    exact gap c (before.subset inside)
  back := by
    rw [Text.trailingBlanks_of_solid (Text.isBlank_getLast?_trimEnd cs)]
    exact List.forall_mem_nil _

end HasGapEnds

/-! ## Tokens of sources -/

open Scanner (tokensAt)

theorem sentence_eq_tokensAt (source : String) :
    sentence source = significant (tokensAt
      (Position.first.advance (Text.leadingBlanks source.toList)) (Text.trim source.toList ++ ['\n'])) :=
  sentence_eq_significant source

theorem sentence_of_blank {source : String} (blank : ∀ c ∈ source.toList, Text.isBlank c = true) :
    sentence source = [] := by
  rw [sentence_eq_tokensAt, (Text.trim_of_blank blank).2, Scanner.tokensAt_gap (by simp [isGap])]
  rfl

/-- Whatever blanks are taken off a source, the sentence is found in the text that is left, as long as
that has only gaps at its ends. -/
theorem sentence_of_blank_around {source : String} {lead text trail : List Char}
    (whole : source.toList = lead ++ (text ++ trail))
    (blankLead : ∀ c ∈ lead, Text.isBlank c = true) (blankTrail : ∀ c ∈ trail, Text.isBlank c = true)
    (ends : HasGapEnds text) :
    sentence source = significant (tokensAt (Position.first.advance lead) (text ++ ['\n'])) := by
  have feed : ∀ c ∈ ['\n'], isGap c = true := by simp [isGap]
  by_cases blank : ∀ c ∈ text, Text.isBlank c = true
  · have gap : ∀ c ∈ text, isGap c = true := by
      have front := ends.front
      rwa [(Text.trim_of_blank blank).1] at front
    have blankSource : ∀ c ∈ source.toList, Text.isBlank c = true := by
      rw [whole]
      exact List.forall_mem_append.mpr ⟨blankLead, List.forall_mem_append.mpr ⟨blank, blankTrail⟩⟩
    rw [sentence_of_blank blankSource, Scanner.tokensAt_gap (List.forall_mem_append.mpr ⟨gap, feed⟩)]
    rfl
  · -- The last solid character of the text is that of the source, and the first one as well.
    obtain ⟨before, d, split, solid⟩ := Text.exists_last_solid blank
    have blankBehind : ∀ c ∈ Text.trailingBlanks text, Text.isBlank c = true :=
      fun c => Text.isBlank_of_mem_trailingBlanks
    have cut := Text.leadingBlanks_append_trim split solid blankBehind
    have leads := Text.leadingBlanks_append_of_solid blankLead blank trail
    have splitSource : source.toList = lead ++ before ++ d :: (Text.trailingBlanks text ++ trail) := by
      conv_lhs => rw [whole, split]
      simp
    have cutSource := Text.leadingBlanks_append_trim splitSource solid
      (List.forall_mem_append.mpr ⟨blankBehind, blankTrail⟩)
    rw [whole, leads, List.append_assoc, List.append_assoc, ← cut] at cutSource
    have trimmed := List.append_cancel_left (List.append_cancel_left cutSource)
    have parts : text = Text.leadingBlanks text ++ (Text.trim text ++ Text.trailingBlanks text) := by
      rw [← List.append_assoc, cut, List.append_assoc]
      exact split
    have padded : ∀ c ∈ Text.trailingBlanks text ++ ['\n'], isGap c = true :=
      List.forall_mem_append.mpr ⟨ends.back, feed⟩
    conv_rhs => rw [parts, List.append_assoc, List.append_assoc, Scanner.tokensAt_gap_append ends.front,
      Scanner.significant_tokensAt_padded padded]
    rw [sentence_eq_tokensAt, whole, leads, trimmed, Position.advance_append]

variable {a b : String}

theorem toList_append_line (a b : String) :
    (a ++ "\n" ++ b).toList = a.toList ++ '\n' :: b.toList := by
  simp

theorem significant_append (front back : List Token) :
    significant (front ++ back) = significant front ++ significant back :=
  List.filter_append front back

theorem significant_below (tokens : List Token) (lines : Nat) :
    significant (tokens.map (·.below lines)) = (significant tokens).map (·.below lines) := by
  rw [significant, List.filter_map]
  rfl

/-- The sentence of two sources with a line feed between them is that of the first and, below it, that of
the second, if around the line feed only gaps would be trimmed off. -/
theorem sentence_append_line (trailing : ∀ c ∈ Text.trailingBlanks a.toList, isGap c = true)
    (leading : ∀ c ∈ Text.leadingBlanks b.toList, isGap c = true) :
    sentence (a ++ "\n" ++ b) =
      sentence a ++ (sentence b).map (·.below (1 + a.toList.count '\n')) := by
  have blankLead : ∀ c ∈ Text.leadingBlanks a.toList, Text.isBlank c = true :=
    fun c => Text.isBlank_of_mem_leadingBlanks
  have blankTrail : ∀ c ∈ Text.trailingBlanks b.toList, Text.isBlank c = true :=
    fun c => Text.isBlank_of_mem_trailingBlanks
  have none : ∀ c ∈ ([] : List Char), Text.isBlank c = true := List.forall_mem_nil _
  have wholeA : a.toList = Text.leadingBlanks a.toList ++ (Text.trimStart a.toList ++ []) := by
    rw [List.append_nil, Text.leadingBlanks_append_trimStart]
  have wholeB : b.toList = [] ++ (Text.trimEnd b.toList ++ Text.trailingBlanks b.toList) :=
    (Text.trimEnd_append_trailingBlanks b.toList).symm
  have whole : (a ++ "\n" ++ b).toList = Text.leadingBlanks a.toList ++
      ((Text.trimStart a.toList ++ '\n' :: Text.trimEnd b.toList) ++ Text.trailingBlanks b.toList) := by
    rw [toList_append_line]
    conv_lhs => rw [wholeA, wholeB]
    simp
  -- Only the outer blanks are taken off, so that scanning starts anew behind the line feed.
  have ends := (HasGapEnds.trimStart trailing).joined (HasGapEnds.trimEnd leading)
  have start : (Position.first.advance (Text.leadingBlanks a.toList)).advance
      (Text.trimStart a.toList ++ ['\n']) = Position.first.below (1 + a.toList.count '\n') := by
    rw [← Position.advance_append, ← List.append_assoc, Text.leadingBlanks_append_trimStart,
      Position.advance_first_feed]
  rw [sentence_of_blank_around whole blankLead blankTrail ends,
    sentence_of_blank_around wholeA blankLead none (.trimStart trailing),
    sentence_of_blank_around wholeB none blankTrail (.trimEnd leading), List.append_assoc,
    List.cons_append, Scanner.tokensAt_append_feed, significant_append, start, Scanner.tokensAt_below,
    significant_below]
  rfl

theorem finish_ofSource (source : String) : (Unread.ofSource source).finish = Position.first.advance
    (Text.leadingBlanks source.toList ++ Text.trim source.toList ++ ['\n']) := by
  obtain ⟨segments, last, segmented⟩ := Scanner.exists_segmented (Text.trim source.toList ++ ['\n'])
  have final := (segmented.drain_eq (Scanner.ofSource source) rfl).2
  change (Scanner.ofSource source).drain.2.last.position = _
  rw [final, List.append_assoc]
  exact (Position.advance_append ..).symm

/-- If the second source is not blank, nothing is trimmed off in front of its last token. -/
theorem leadingBlanks_append_trim_append_line (solid : ¬ ∀ c ∈ b.toList, Text.isBlank c = true) :
    Text.leadingBlanks (a ++ "\n" ++ b).toList ++ Text.trim (a ++ "\n" ++ b).toList =
      a.toList ++ '\n' :: (Text.leadingBlanks b.toList ++ Text.trim b.toList) := by
  obtain ⟨before, d, split, solidLast⟩ := Text.exists_last_solid solid
  have blankBehind : ∀ c ∈ Text.trailingBlanks b.toList, Text.isBlank c = true :=
    fun c => Text.isBlank_of_mem_trailingBlanks
  have splitBoth : (a ++ "\n" ++ b).toList =
      (a.toList ++ '\n' :: before) ++ d :: Text.trailingBlanks b.toList := by
    rw [toList_append_line, List.append_assoc, List.cons_append]
    exact congrArg (fun cs => a.toList ++ '\n' :: cs) split
  rw [Text.leadingBlanks_append_trim splitBoth solidLast blankBehind,
    Text.leadingBlanks_append_trim split solidLast blankBehind, List.append_assoc, List.cons_append]

/-- Its end is that of both then. -/
theorem finish_append_line (solid : ¬ ∀ c ∈ b.toList, Text.isBlank c = true) :
    (Unread.ofSource (a ++ "\n" ++ b)).finish =
      (Unread.ofSource b).finish.below (1 + a.toList.count '\n') := by
  rw [finish_ofSource, finish_ofSource, leadingBlanks_append_trim_append_line solid,
    ← Position.advance_below, ← Position.advance_first_feed, ← Position.advance_append]
  simp

/-- Where words are enough for both sources, they are enough for the second one so many lines further
down. -/
theorem CountsInWords.fitsWords_below (counted : CountsInWords (a ++ "\n" ++ b))
    (solid : ¬ ∀ c ∈ b.toList, Text.isBlank c = true) {read : List Char}
    (part : read <+: Text.trim b.toList ++ ['\n']) :
    (Coordinates.behind (a.toList ++ '\n' :: (Text.leadingBlanks b.toList ++ read))).FitsWords := by
  have front : Text.leadingBlanks (a ++ "\n" ++ b).toList <+:
      a.toList ++ '\n' :: (Text.leadingBlanks b.toList ++ read) := by
    rw [toList_append_line]
    exact (Text.leadingBlanks_append_feed_isPrefix ..).trans ⟨read, by simp⟩
  have inside : a.toList ++ '\n' :: (Text.leadingBlanks b.toList ++ read) <+:
      Text.leadingBlanks (a ++ "\n" ++ b).toList ++ (Text.trim (a ++ "\n" ++ b).toList ++ ['\n']) := by
    rw [← List.append_assoc, leadingBlanks_append_trim_append_line solid]
    obtain ⟨after, same⟩ := part
    exact ⟨after, by simp [← same]⟩
  obtain ⟨more, same⟩ := front
  rw [← same] at inside ⊢
  exact counted more ((List.prefix_append_right_inj _).mp inside)

/-- So many lines are added to the numbers of its lines then. -/
theorem CountsInWords.coordinates_below (counted : CountsInWords (a ++ "\n" ++ b))
    (solid : ¬ ∀ c ∈ b.toList, Text.isBlank c = true) {token : Token} (member : token ∈ tokenize b) :
    (token.position.below (1 + a.toList.count '\n')).coordinates =
      ⟨token.position.coordinates.line + (1 + a.toList.count '\n'), token.position.coordinates.column⟩ := by
  obtain ⟨read, part, position⟩ := exists_read_of_mem_tokenize member
  have fits := counted.fitsWords_below solid part
  rw [Coordinates.behind_append_feed] at fits
  have own : token.position.coordinates =
      Coordinates.behind (Text.leadingBlanks b.toList ++ read) := by
    rw [position]
    exact Coordinates.coordinates_toPosition ⟨Nat.lt_of_le_of_lt (Nat.le_add_right ..) fits.1, fits.2⟩
  exact Position.coordinates_below _ _ (own ▸ fits.1)

end FuncLang
