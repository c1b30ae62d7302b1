import FuncLang.Proofs.Parse.Report

/-! # Carets

The caret of a snippet stands below the first character of the token that its diagnostic is about. Unless the
source is too long for positions of 32 bits, they count the line feeds in front of the token and the
characters behind the last of them, and the same counts find the token in the lines of the source, however
these end. A carriage return is left out at the end of a line, but only if a line feed follows it, and so
never within a token.

Behind the last token there may be blanks in front of the end of the input and behind it. It stands in the
first column of a line of its own, which is shown as a line of blanks.
-/

namespace FuncLang

namespace Text

/-! ## Texts in their lines -/

section

variable {written : List Char} (oneLine : '\n' ∉ written) (before after : List Char)

include oneLine

/-- A text without line feeds stands in one line, behind all that comes in front of it in that line. -/
theorem getElem?_splitOn_behind :
    ((before ++ (written ++ after)).splitOn '\n')[(Coordinates.behind before).line - 1]? =
      some (before.rtakeWhile (· ≠ '\n') ++ (written ++ after.takeWhile (· ≠ '\n'))) := by
  have inLine : ∀ c ∈ written, decide (c ≠ '\n') = true :=
    fun c inside => decide_eq_true fun feed => oneLine (feed ▸ inside)
  have index : (Coordinates.behind before).line - 1 = before.count '\n' + 0 := Nat.add_sub_cancel_left ..
  obtain ⟨others, split⟩ := exists_splitOn_eq_cons (written ++ after)
  rw [index, getElem?_splitOn_append, split, List.takeWhile_append_of_pos inLine, List.modifyHead_cons]
  rfl

/-- A text that ends in no carriage return is shown in its column. -/
theorem isPrefix_drop_lineAt (solid : written ≠ []) (kept : ∀ c ∈ written.getLast?, c ≠ '\r') :
    written <+: (lineAt (before ++ (written ++ after)) (Coordinates.behind before).line).drop
      ((Coordinates.behind before).column - 1) := by
  have counted : 1 ≤ (Coordinates.behind before).line := Nat.le_add_right ..
  have column : (Coordinates.behind before).column - 1 = (before.rtakeWhile (· ≠ '\n')).length :=
    Nat.add_sub_cancel_left ..
  have last : ∀ c ∈ (before.rtakeWhile (· ≠ '\n') ++ written).getLast?, c ≠ '\r' := by
    rwa [List.getLast?_append_of_ne_nil _ solid]
  rw [lineAt_of_getElem? counted (getElem?_splitOn_behind oneLine before after), column]
  split
  · -- A carriage return that is left out comes from what stands behind the text.
    rw [← List.append_assoc, withoutReturn_append last, List.append_assoc, List.drop_left]
    exact List.prefix_append ..
  · rw [List.drop_left]
    exact List.prefix_append ..

end

theorem exists_head?_of_isPrefix_drop {part cs : List Char} {number : Nat} (solid : part ≠ [])
    (begins : part <+: cs.drop number) :
    ∃ first, part.head? = some first ∧ cs[number]? = some first := by
  obtain ⟨first, others, rfl⟩ := List.exists_cons_of_ne_nil solid
  obtain ⟨behind, whole⟩ := begins
  refine ⟨first, rfl, ?_⟩
  rw [← List.head?_drop, ← whole]
  rfl

/-- Lines below the last one that is not blank are blank. -/
theorem isBlank_of_mem_lineAt (front : List Char) {trail : List Char}
    (blank : ∀ c ∈ trail, isBlank c = true) :
    ∀ c ∈ lineAt (front ++ trail) ((Coordinates.behind front).line + 1), isBlank c = true := by
  intro c inside
  -- However the line is shown, it is part of one that has come from splitting.
  have inside := (lineAt_isPrefix _ _).subset inside
  have index : (Coordinates.behind front).line + 1 - 1 = front.count '\n' + 1 := Nat.add_comm ..
  obtain ⟨others, split⟩ := exists_splitOn_eq_cons trail
  rw [index, getElem?_splitOn_append, split, List.modifyHead_cons, List.getElem?_cons_succ] at inside
  cases found : others[0]? with
  | none => simp [found] at inside
  | some line =>
    have part : line ∈ trail.splitOn '\n' := split ▸ List.mem_cons_of_mem _ (List.mem_of_getElem? found)
    exact blank c ((of_mem_splitOn part).2 c (by simpa [found] using inside))

end Text

/-- No token but a comment has a carriage return at its end. -/
theorem Lexeme.IsValid.getLast?_ne_return {lexeme : Lexeme} (valid : lexeme.IsValid)
    (noComment : lexeme.kind ≠ .comment) : ∀ c ∈ lexeme.written.getLast?, c ≠ '\r' := by
  rintro c final rfl
  obtain ⟨kind, text⟩ := lexeme
  cases kind with
  | identifier | keyword | integer | operator | punctuation =>
    have plain : IsPlain ⟨_, text⟩ := ⟨valid, by simp⟩
    exact absurd (plain.isBlank_of_mem (List.mem_of_getLast? final)) (by decide)
  | stringLiteral =>
    rw [written, if_pos rfl, ← List.cons_append, List.getLast?_concat] at final
    exact absurd (Option.some.inj final) (by decide)
  | comment => exact noComment rfl
  | unknown =>
    obtain ⟨c, stray, spelt⟩ := valid
    obtain rfl : c = '\r' := by simpa [written, spelt] using final
    exact absurd stray.1 (by decide)
  | endOfInput => exact valid

/-! ## Tokens in their lines -/

section

variable {source : String} {token : Token}

/-- A token stands in the source behind the blanks in front and what has been read before it. -/
theorem exists_read_in_source (member : token ∈ tokenize source) (more : token.isEnd = false) :
    ∃ read after, read <+: Text.trim source.toList ++ ['\n'] ∧
      token.position = Position.behind (Text.leadingBlanks source.toList ++ read) ∧
      source.toList =
        (Text.leadingBlanks source.toList ++ read) ++ (token.lexeme.written ++ after) := by
  obtain ⟨number, found⟩ := List.mem_iff_getElem?.mp member
  obtain ⟨offset, front, segment, back, last, segmented, rfl, -⟩ := exists_beginsAt found more
  rw [tokenize_of_segmented segmented, List.getElem?_append_left (by simp), Segment.getElem?_tokens,
    ← Position.behind_append] at found
  obtain rfl := Option.some.inj found
  obtain ⟨after, whole⟩ := segmented.exists_after
  refine ⟨Segment.written front ++ segment.gap, after, ?_, rfl, whole⟩
  rw [segmented.text_eq, Segment.written_append, Segment.written_cons]
  exact ⟨segment.lexeme.written ++ (Segment.written back ++ last), by simp⟩

/-- The end of the input stands behind the line feed that is put at the end of the trimmed text. -/
theorem position_of_isEnd (member : token ∈ tokenize source) (last : token.isEnd = true) :
    token.position =
      Position.behind (Text.leadingBlanks source.toList ++ (Text.trim source.toList ++ ['\n'])) := by
  rcases List.mem_append.mp member with among | among
  · simp [Scanner.isEnd_of_mem_drain _ token among] at last
  · have final := getLast?_tokenize source
    rw [tokenize, List.getLast?_concat] at final
    rw [List.mem_singleton.mp among, ← List.append_assoc, Position.behind_append_singleton]
    exact congrArg Token.position (Option.some.inj final)

variable (counted : CountsInWords source)

include counted

/-- The position of every token holds what is counted. -/
theorem exists_coordinates_eq (member : token ∈ tokenize source) :
    ∃ read, read <+: Text.trim source.toList ++ ['\n'] ∧
      token.position.coordinates = Coordinates.behind (Text.leadingBlanks source.toList ++ read) := by
  obtain ⟨read, part, position⟩ := exists_read_of_mem_tokenize member
  exact ⟨read, part, position ▸ counted.coordinates_behind part⟩

/-- The end of the input is at the start of the line behind the last one that has a token. -/
theorem coordinates_of_isEnd (member : token ∈ tokenize source) (last : token.isEnd = true) :
    token.position.coordinates =
      ⟨(Coordinates.behind (Text.leadingBlanks source.toList ++ Text.trim source.toList)).line + 1, 1⟩ := by
  rw [position_of_isEnd member last, counted.coordinates_behind (List.prefix_refl _),
    ← List.append_assoc, Coordinates.behind_append_singleton, if_pos rfl]

/-- No two tokens have one position. -/
theorem eq_of_position_eq {other : Token} (member : token ∈ tokenize source)
    (second : other ∈ tokenize source) (same : other.position = token.position) : other = token :=
  List.inj_on_of_nodup_map (nodup_position_tokenize counted) second member same

/-- Lines and columns count from one. -/
theorem one_le_coordinates (member : token ∈ tokenize source) :
    1 ≤ token.position.coordinates.line ∧ 1 ≤ token.position.coordinates.column := by
  obtain ⟨read, -, same⟩ := exists_coordinates_eq counted member
  rw [same]
  exact ⟨Nat.le_add_right .., Nat.le_add_right ..⟩

/-- A token that is no comment is shown in its line and column. Comments may end in carriage returns. -/
theorem isPrefix_drop_lineAt_of_mem (member : token ∈ significant (tokenize source))
    (more : token.isEnd = false) :
    ∃ line, (source.toList.splitOn '\n')[token.position.coordinates.line - 1]? = some line ∧
      token.lexeme.written ≠ [] ∧ token.lexeme.written <+:
        (Text.lineAt source.toList token.position.coordinates.line).drop
          (token.position.coordinates.column - 1) := by
  obtain ⟨among, kept⟩ := List.mem_filter.mp member
  have noComment : token.lexeme.kind ≠ .comment := bne_iff_ne.mp kept
  have valid : token.lexeme.IsValid := by
    rw [significant_tokenize_eq] at member
    rcases List.mem_append.mp member with inside | last
    · exact isValid_of_mem_sentence inside
    · simp [List.mem_singleton.mp last] at more
  have last := valid.getLast?_ne_return noComment
  obtain ⟨c, cs, spelt, -⟩ := valid.written_eq_cons
  have solid : token.lexeme.written ≠ [] := by simp [spelt]
  obtain ⟨read, after, part, position, whole⟩ := exists_read_in_source among more
  have oneLine := valid.feed_not_mem_written
  have same := counted.coordinates_behind part
  rw [← position] at same
  rw [whole, same]
  exact ⟨_, Text.getElem?_splitOn_behind oneLine _ after, solid,
    Text.isPrefix_drop_lineAt oneLine _ after solid last⟩

/-- The end of the input is shown in a line of blanks. -/
theorem isBlank_of_mem_line_of_isEnd (member : token ∈ tokenize source) (last : token.isEnd = true) :
    ∀ c ∈ Text.lineAt source.toList token.position.coordinates.line, Text.isBlank c = true := by
  obtain ⟨trail, whole, blank⟩ := Text.exists_trail source.toList
  rw [← List.append_assoc] at whole
  have below := Text.isBlank_of_mem_lineAt (Text.leadingBlanks source.toList ++ Text.trim source.toList) blank
  rw [← whole] at below
  rwa [coordinates_of_isEnd counted member last]

end

/-! ## The caret -/

theorem exists_token_of_mem {config : Config} {source : String} {diagnostic : Diagnostic}
    (member : diagnostic ∈ (parseWith config source).diagnostics) :
    ∃ token ∈ significant (tokenize source), token.position = diagnostic.position := by
  obtain ⟨problem, rfl, among⟩ := exists_problem_of_mem member
  exact ⟨problem.token, among, rfl⟩

/-- The caret of every diagnostic stands below the first character of the token that is at its place. The
source line above it has all characters between its line feeds but a carriage return at the end of a line
that a line feed ends, and the lexeme stands in it behind as many characters as there are blanks in front of
the caret. The end of the input is shown above a caret in the first column, in a line of blanks. -/
theorem snippet_points_at_token (config : Config) (source name : String)
    (short : source.length < 2 ^ 32 - 2) (named : '\n' ∉ name.toList) :
    ∀ diagnostic ∈ (parseWith config source).diagnostics,
      let place := diagnostic.position.coordinates
      let lines := (diagnostic.snippet source name).toList.splitOn '\n'
      let caret := ' ' :: (List.replicate (place.column - 1) ' ' ++ ['^'])
      (1 ≤ place.line ∧ 1 ≤ place.column ∧ lines[3]? = some caret ∧ caret[place.column]? = some '^') ∧
      (∃ read, read <+: Text.trim source.toList ++ ['\n'] ∧
        place = Coordinates.behind (Text.leadingBlanks source.toList ++ read)) ∧
      ∃ token ∈ tokenize source, token.position = diagnostic.position ∧
        (∀ other ∈ tokenize source, other.position = diagnostic.position → other = token) ∧
        (token.isEnd = false → ∃ line shown first,
          (source.toList.splitOn '\n')[place.line - 1]? = some line ∧
          shown = (if place.line ≤ source.toList.count '\n' then Text.withoutReturn line else line) ∧
          lines[2]? = some (' ' :: shown) ∧
          token.lexeme.written <+: shown.drop (place.column - 1) ∧
          token.lexeme.written.head? = some first ∧ (' ' :: shown)[place.column]? = some first) ∧
        (token.isEnd = true → place.column = 1 ∧
          ∃ shown, lines[2]? = some (' ' :: shown) ∧ ∀ c ∈ shown, Text.isBlank c = true) := by
  intro diagnostic member place lines caret
  have counted := countsInWords_of_length_lt short
  have split : lines = diagnostic.snippetLines source name :=
    Diagnostic.splitOn_snippet (isOneLine_display_of_mem member) named source
  obtain ⟨token, significant, position⟩ := exists_token_of_mem member
  have among := (List.mem_filter.mp significant).1
  have same : token.position.coordinates = place := congrArg Position.coordinates position
  obtain ⟨line, column⟩ : 1 ≤ place.line ∧ 1 ≤ place.column := same ▸ one_le_coordinates counted among
  -- Columns count from one, and the blank in front of the line makes up for it.
  have behindBlank (cs : List Char) : (' ' :: cs)[place.column]? = cs[place.column - 1]? := by
    rw [List.getElem?_cons, if_neg (Nat.ne_of_gt column)]
  refine ⟨⟨line, column, by rw [split]; rfl, ?_⟩, same ▸ exists_coordinates_eq counted among,
    token, among, position, ?_, ?_, ?_⟩
  · rw [behindBlank, List.getElem?_append_right (by simp), List.length_replicate, Nat.sub_self]
    rfl
  · intro other second there
    exact eq_of_position_eq counted among second (there.trans position.symm)
  · intro more
    obtain ⟨text, found, solid, begins⟩ := isPrefix_drop_lineAt_of_mem counted significant more
    rw [same] at found begins
    obtain ⟨first, head, shown⟩ := Text.exists_head?_of_isPrefix_drop solid begins
    exact ⟨text, _, first, found, Text.lineAt_of_getElem? line found, by rw [split]; rfl, begins, head,
      (behindBlank _).trans shown⟩
  · intro last
    have final := coordinates_of_isEnd counted among last
    have blank := isBlank_of_mem_line_of_isEnd counted among last
    rw [same] at final blank
    exact ⟨by rw [final], _, by rw [split]; rfl, blank⟩

/-- A string behind a tabulator and in front of a carriage return that stays, as only the second one belongs
to the line break. -/
theorem snippet_points_at_string :
    "\n\t\"é\"\r\r\n".length < 2 ^ 32 - 2 ∧ '\n' ∉ "a".toList ∧
      ∃ diagnostic ∈ (parseWith .standard "\n\t\"é\"\r\r\n").diagnostics, ∃ shown,
        ((diagnostic.snippet "\n\t\"é\"\r\r\n" "a").toList.splitOn '\n')[2]? = some (' ' :: shown) ∧
          ((diagnostic.snippet "\n\t\"é\"\r\r\n" "a").toList.splitOn '\n')[3]? = some "  ^".toList ∧
          shown = "\t\"é\"\r".toList ∧ "\"é\"".toList <+: shown.drop 1 := by
  have short : "\n\t\"é\"\r\r\n".length < 2 ^ 32 - 2 := by decide
  have named : '\n' ∉ "a".toList := by decide
  have member : (⟨.unexpectedToken "é", "unsupported statement", ⟨2, 2⟩⟩ : Diagnostic) ∈
      (parseWith .standard "\n\t\"é\"\r\r\n").diagnostics := by decide +kernel
  have among : (⟨.stringLiteral, "é", ⟨2, 2⟩⟩ : Token) ∈ tokenize "\n\t\"é\"\r\r\n" := by decide +kernel
  obtain ⟨⟨-, -, caret, -⟩, -, token, -, -, only, points, -⟩ :=
    snippet_points_at_token .standard "\n\t\"é\"\r\r\n" "a" short named _ member
  obtain rfl := only _ among rfl
  obtain ⟨line, shown, first, found, kept, third, begins, -⟩ := points rfl
  obtain rfl : "\t\"é\"\r\r".toList = line := Option.some.inj found
  exact ⟨short, named, _, member, shown, third, caret, kept, begins⟩

/-- A carriage return stays at the end of a last line that no line feed ends. -/
theorem exists_line_shown_with_return :
    ¬ ∀ source name : String, source.length < 2 ^ 32 - 2 → '\n' ∉ name.toList →
      ∀ diagnostic ∈ (parse source).diagnostics, ∀ token ∈ tokenize source,
        token.position = diagnostic.position → token.isEnd = false →
        ∃ line, (source.toList.splitOn '\n')[diagnostic.position.line.toNat - 1]? = some line ∧
          ((diagnostic.snippet source name).toList.splitOn '\n')[2]? =
            some (' ' :: Text.withoutReturn line) := by
  intro always
  have member : (⟨.unexpectedToken "x", "unsupported statement", ⟨1, 1⟩⟩ : Diagnostic) ∈
      (parse "x\r").diagnostics := by decide +kernel
  have among : (⟨.identifier, "x", ⟨1, 1⟩⟩ : Token) ∈ tokenize "x\r" := by decide +kernel
  obtain ⟨line, found, shown⟩ := always "x\r" "" (by decide) (by decide) _ member _ among rfl rfl
  obtain rfl : "x\r".toList = line := Option.some.inj found
  exact absurd shown (by decide +kernel)

end FuncLang
