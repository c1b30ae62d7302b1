import FuncLang.Proofs.Scanner.Segmentation
import FuncLang.Proofs.Text.Trim

/-! # Lexemes joined by a gap

Lexemes that are written with a gap between them are scanned again one by one, if each of them ends
before that gap and nothing is trimmed off the first and the last one. Names, keywords, numbers,
operators and punctuation end before every gap, and none of their characters is blank, so nothing is
trimmed off them either.
-/

namespace FuncLang

namespace Lexeme

/-- The lexemes as they are written, with a character between each two of them. -/
def joined (between : Char) (lexemes : List Lexeme) : List Char :=
  List.intercalate [between] (lexemes.map written)

@[simp] theorem joined_single (between : Char) (lexeme : Lexeme) :
    joined between [lexeme] = lexeme.written := by simp [joined, List.intercalate]

theorem joined_cons_cons (between : Char) (first second : Lexeme) (others : List Lexeme) :
    joined between (first :: second :: others) =
      first.written ++ between :: joined between (second :: others) := by
  simp [joined, List.intercalate]

/-- A longer gap in front changes nothing. -/
theorem Segments.cons {c : Char} {text : List Char} {lexemes : List Lexeme}
    (segments : Segments text lexemes) (blank : isGap c = true) : Segments (c :: text) lexemes := by
  cases segments with
  | gap all => exact .gap (List.forall_mem_cons.mpr ⟨blank, all⟩)
  | lexeme all valid ends behind =>
    rw [← List.cons_append]
    exact .lexeme (List.forall_mem_cons.mpr ⟨blank, all⟩) valid ends behind

/-- Every lexeme ends before the end of the line. -/
theorem ends_feed (lexeme : Lexeme) (rest : List Char) : lexeme.Ends ('\n' :: rest) := by
  obtain ⟨kind, text⟩ := lexeme
  cases kind with
  | identifier | keyword | integer | comment => simp [Ends, isNamePart, isNameStart]
  | stringLiteral | operator | punctuation | endOfInput => trivial
  | unknown =>
    intro _ body behind same
    cases body with
    | nil => simp at same
    | cons c body => exact List.mem_cons.mpr (.inl (List.cons.inj same).1)

/-- Valid lexemes are the segmentation of what they are joined to, a line feed behind it. -/
theorem segments_joined {between : Char} {lexemes : List Lexeme} (blank : isGap between = true)
    (valid : ∀ lexeme ∈ lexemes, lexeme.IsValid)
    (inner : ∀ lexeme ∈ lexemes, ∀ rest, lexeme.Ends (between :: rest)) :
    Segments (joined between lexemes ++ ['\n']) lexemes := by
  have feed : ∀ c ∈ ['\n'], isGap c = true := by simp [isGap]
  induction lexemes with
  | nil => exact .gap feed
  | cons first others ih =>
    obtain ⟨validFirst, validOthers⟩ := List.forall_mem_cons.mp valid
    obtain ⟨innerFirst, innerOthers⟩ := List.forall_mem_cons.mp inner
    cases others with
    | nil =>
      rw [joined_single, ← List.nil_append (first.written ++ _)]
      exact .lexeme (List.forall_mem_nil _) validFirst (first.ends_feed []) (.gap feed)
    | cons second others =>
      have behind := (ih validOthers innerOthers).cons blank
      rw [joined_cons_cons, List.append_assoc, ← List.nil_append (first.written ++ _)]
      exact .lexeme (List.forall_mem_nil _) validFirst (innerFirst _) behind

/-! ## Both ends -/

/-- The first lexeme stands at the start of what they are joined to. -/
theorem written_prefix_joined (between : Char) (first : Lexeme) (others : List Lexeme) :
    first.written <+: joined between (first :: others) := by
  cases others with
  | nil => simp
  | cons second others =>
    rw [joined_cons_cons]
    exact List.prefix_append _ _

/-- The last lexeme stands at the end of what they are joined to. -/
theorem written_suffix_joined (between : Char) {lexemes : List Lexeme} {last : Lexeme}
    (final : lexemes.getLast? = some last) : last.written <:+ joined between lexemes := by
  induction lexemes with
  | nil => simp at final
  | cons first others ih =>
    cases others with
    | nil =>
      obtain rfl : first = last := by simpa using final
      simp
    | cons second others =>
      rw [joined_cons_cons]
      have suffix := ih (by simpa using final)
      exact (suffix.trans (List.suffix_cons between _)).trans (List.suffix_append _ _)

/-- Whether there is no blank at either end of the lexemes as they are written. -/
structure HaveSolidEnds (lexemes : List Lexeme) : Prop where
  first : ∀ lexeme ∈ lexemes.head?, ∀ c ∈ lexeme.written.head?, Text.isBlank c = false
  last : ∀ lexeme ∈ lexemes.getLast?, ∀ c ∈ lexeme.written.getLast?, Text.isBlank c = false

/-- Nothing is trimmed off lexemes with solid ends. -/
theorem HaveSolidEnds.trim_joined {lexemes : List Lexeme} (solid : HaveSolidEnds lexemes)
    (valid : ∀ lexeme ∈ lexemes, lexeme.IsValid) (between : Char) :
    Text.trim (joined between lexemes) = joined between lexemes := by
  cases lexemes with
  | nil => rfl
  | cons first others =>
    have nonempty (lexeme : Lexeme) (member : lexeme ∈ first :: others) : lexeme.written ≠ [] := by
      obtain ⟨c, cs, spelt, -⟩ := (valid lexeme member).written_eq_cons
      simp [spelt]
    apply Text.trim_eq_self
    · obtain ⟨behind, front⟩ := written_prefix_joined between first others
      rw [← front, List.head?_append_of_ne_nil _ (nonempty first List.mem_cons_self)]
      exact solid.first first rfl
    · obtain ⟨last, final⟩ : ∃ last, (first :: others).getLast? = some last :=
        ⟨_, List.getLast?_cons⟩
      obtain ⟨before, back⟩ := written_suffix_joined between final
      rw [← back, List.getLast?_append_of_ne_nil _ (nonempty last (List.mem_of_getLast? final))]
      exact solid.last last final

/-- Valid lexemes that end before a gap are the tokens of the source in which they are joined by it, if
nothing is trimmed off that. -/
theorem lexemes_tokenize_joined {between : Char} {lexemes : List Lexeme} (blank : isGap between = true)
    (valid : ∀ lexeme ∈ lexemes, lexeme.IsValid)
    (inner : ∀ lexeme ∈ lexemes, ∀ rest, lexeme.Ends (between :: rest)) (solid : HaveSolidEnds lexemes) :
    (tokenize (String.ofList (joined between lexemes))).map Token.lexeme =
      lexemes ++ [⟨.endOfInput, ""⟩] := by
  rw [lexemes_tokenize_eq_iff, String.toList_ofList, solid.trim_joined valid]
  exact segments_joined blank valid inner

/-! ## Plain lexemes -/

/-- A name, a keyword, a number, an operator or a punctuation mark. -/
def IsPlain (lexeme : Lexeme) : Prop :=
  lexeme.IsValid ∧
    lexeme.kind ∈ [.identifier, .keyword, .integer, .operator, .punctuation]

namespace IsPlain

variable {lexeme : Lexeme}

/-- A plain lexeme ends before every gap. -/
theorem ends_gap (plain : lexeme.IsPlain) {c : Char} (blank : isGap c = true) (rest : List Char) :
    lexeme.Ends (c :: rest) := by
  have noPart := isNamePart_of_isGap blank
  obtain ⟨kind, text⟩ := lexeme
  obtain ⟨-, kinds⟩ := plain
  cases kind with
  | identifier | keyword => simpa [Ends] using noPart
  | integer =>
    have noDigit : c.isDigit = false := by simp_all [isNamePart]
    simpa [Ends] using noDigit
  | operator | punctuation => trivial
  | stringLiteral | comment | unknown | endOfInput => simp at kinds

/-- No character of a plain lexeme is blank. -/
theorem isBlank_of_mem (plain : lexeme.IsPlain) {c : Char} (inside : c ∈ lexeme.written) :
    Text.isBlank c = false := by
  obtain ⟨kind, text⟩ := lexeme
  obtain ⟨valid, kinds⟩ := plain
  cases kind with
  | identifier | keyword =>
    obtain ⟨⟨d, ds, spelt, start, parts⟩, -⟩ := valid
    apply isBlank_of_isNamePart
    simp only [written, spelt] at inside
    rcases List.mem_cons.mp (by simpa using inside) with rfl | inside
    · simp [isNamePart, start]
    · exact parts c inside
  | integer =>
    have digit := valid.2 c (by simpa [written] using inside)
    exact isBlank_of_isNamePart (by simp [isNamePart, digit])
  | operator =>
    obtain ⟨d, listed, spelt⟩ := valid
    obtain rfl : c = d := by simpa [written, spelt] using inside
    exact (of_mem_symbols (List.mem_append_left _ listed)).2.1
  | punctuation =>
    obtain ⟨d, listed, spelt⟩ := valid
    obtain rfl : c = d := by simpa [written, spelt] using inside
    exact (of_mem_symbols (List.mem_append_right _ listed)).2.1
  | stringLiteral | comment | unknown | endOfInput => simp at kinds

end IsPlain

/-- The tokens of a source in which plain lexemes are joined by blanks are these lexemes. -/
theorem lexemes_tokenize_joined_of_plain {lexemes : List Lexeme}
    (plain : ∀ lexeme ∈ lexemes, lexeme.IsPlain) :
    (tokenize (String.ofList (joined ' ' lexemes))).map Token.lexeme =
      lexemes ++ [⟨.endOfInput, ""⟩] := by
  apply lexemes_tokenize_joined (by decide)
  · exact fun lexeme member => (plain lexeme member).1
  · exact fun lexeme member => (plain lexeme member).ends_gap (by decide)
  · constructor
    · intro lexeme first c start
      exact (plain lexeme (List.mem_of_head? first)).isBlank_of_mem (List.mem_of_head? start)
    · intro lexeme last c final
      exact (plain lexeme (List.mem_of_getLast? last)).isBlank_of_mem (List.mem_of_getLast? final)

end Lexeme

end FuncLang
