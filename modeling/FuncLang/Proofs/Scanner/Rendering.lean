import FuncLang.Proofs.Scanner.LineBreak

/-! # Rendering lexemes

Lexemes are rendered one below the other. A source has valid lexemes, and since it is trimmed, neither
does the first of them begin with a blank nor does the last one end in a blank. Apart from that there is
no restriction: any list of lexemes that meets these conditions is scanned again from its rendering.
-/

namespace FuncLang

namespace Lexeme

/-- The source in which each of the lexemes stands in a line of its own. -/
def rendered (lexemes : List Lexeme) : String := String.ofList (joined '\n' lexemes)

/-- Whether the lexeme is a blank that is no gap. -/
def IsStrayBlank (lexeme : Lexeme) : Prop :=
  lexeme.kind = .unknown ∧ ∃ c ∈ lexeme.text.toList, Text.isBlank c = true

/-- Whether the lexeme is a comment with a blank at its end. -/
def IsPaddedComment (lexeme : Lexeme) : Prop :=
  lexeme.kind = .comment ∧ ∃ c ∈ lexeme.text.toList.getLast?, Text.isBlank c = true

/-- The conditions under which the lexemes are those of a source. -/
structure AreScannable (lexemes : List Lexeme) : Prop where
  valid : ∀ lexeme ∈ lexemes, lexeme.IsValid
  first : ∀ lexeme ∈ lexemes.head?, ¬ lexeme.IsStrayBlank
  last : ∀ lexeme ∈ lexemes.getLast?, ¬ lexeme.IsStrayBlank ∧ ¬ lexeme.IsPaddedComment

/-! ## Solid ends -/

section Written

variable {lexeme : Lexeme}

theorem IsValid.head?_solid_iff (valid : lexeme.IsValid) :
    (∀ c ∈ lexeme.written.head?, Text.isBlank c = false) ↔ ¬ lexeme.IsStrayBlank := by
  obtain ⟨kind, text⟩ := lexeme
  cases kind with
  | identifier | keyword | integer | operator | punctuation =>
    have plain : IsPlain ⟨_, text⟩ := ⟨valid, by simp⟩
    apply iff_of_true
    · exact fun c start => plain.isBlank_of_mem (List.mem_of_head? start)
    · rintro ⟨⟨⟩, -⟩
  | stringLiteral => simp [written, IsStrayBlank]; decide
  | comment =>
    obtain ⟨cs, spelt, -⟩ := valid
    simp [written, spelt, IsStrayBlank]
    decide
  | unknown =>
    obtain ⟨c, -, spelt⟩ := valid
    simp [written, spelt, IsStrayBlank]
  | endOfInput => exact valid.elim

theorem IsValid.getLast?_solid_iff (valid : lexeme.IsValid) :
    (∀ c ∈ lexeme.written.getLast?, Text.isBlank c = false) ↔
      ¬ lexeme.IsStrayBlank ∧ ¬ lexeme.IsPaddedComment := by
  obtain ⟨kind, text⟩ := lexeme
  cases kind with
  | identifier | keyword | integer | operator | punctuation =>
    have plain : IsPlain ⟨_, text⟩ := ⟨valid, by simp⟩
    apply iff_of_true
    · exact fun c final => plain.isBlank_of_mem (List.mem_of_getLast? final)
    · constructor <;> rintro ⟨⟨⟩, -⟩
  | stringLiteral =>
    have quote : (written ⟨.stringLiteral, text⟩).getLast? = some '"' := by
      rw [written, if_pos rfl, ← List.cons_append, List.getLast?_concat]
    simp [quote, IsStrayBlank, IsPaddedComment]
    decide
  | comment => simp [written, IsStrayBlank, IsPaddedComment]
  | unknown =>
    obtain ⟨c, -, spelt⟩ := valid
    simp [written, spelt, IsStrayBlank, IsPaddedComment]
  | endOfInput => exact valid.elim

end Written

variable {lexemes : List Lexeme} {text : List Char}

/-- Scannable lexemes are valid ones with solid ends. -/
theorem areScannable_iff :
    AreScannable lexemes ↔ (∀ lexeme ∈ lexemes, lexeme.IsValid) ∧ HaveSolidEnds lexemes := by
  constructor
  · rintro ⟨valid, first, last⟩
    refine ⟨valid, fun lexeme front => ?_, fun lexeme back => ?_⟩
    · exact (valid lexeme (List.mem_of_head? front)).head?_solid_iff.mpr (first lexeme front)
    · exact (valid lexeme (List.mem_of_getLast? back)).getLast?_solid_iff.mpr (last lexeme back)
  · rintro ⟨valid, first, last⟩
    refine ⟨valid, fun lexeme front => ?_, fun lexeme back => ?_⟩
    · exact (valid lexeme (List.mem_of_head? front)).head?_solid_iff.mp (first lexeme front)
    · exact (valid lexeme (List.mem_of_getLast? back)).getLast?_solid_iff.mp (last lexeme back)

/-! ## The ends of a segmentation -/

/-- There is only a gap in front of the first lexeme. -/
theorem Segments.exists_first (segments : Segments text lexemes) :
    ∀ first ∈ lexemes.head?, ∃ gap behind, text = gap ++ (first.written ++ behind) ∧
      ∀ c ∈ gap, isGap c = true := by
  intro first front
  cases segments with
  | gap => simp at front
  | lexeme blank =>
    obtain rfl := Option.some.inj front
    exact ⟨_, _, rfl, blank⟩

/-- There is only a gap behind the last lexeme. -/
theorem Segments.exists_last (segments : Segments text lexemes) :
    ∀ last ∈ lexemes.getLast?, ∃ before gap, text = before ++ (last.written ++ gap) ∧
      ∀ c ∈ gap, isGap c = true := by
  induction segments with
  | gap => simp
  | @lexeme gap rest lexeme lexemes blank valid ends behind ih =>
    intro last back
    cases lexemes with
    | nil =>
      obtain rfl : lexeme = last := by simpa using back
      cases behind with
      | gap blankBehind => exact ⟨gap, rest, rfl, blankBehind⟩
    | cons second others =>
      obtain ⟨before, gapBehind, rfl, blankBehind⟩ := ih last (by simpa using back)
      exact ⟨gap ++ (lexeme.written ++ before), gapBehind, by simp, blankBehind⟩

/-- No gap is left in front of a text that begins with no blank, so its first lexeme does not either. -/
theorem Segments.isBlank_head? (segments : Segments (text ++ ['\n']) lexemes)
    (solid : ∀ c ∈ text.head?, Text.isBlank c = false) :
    ∀ first ∈ lexemes.head?, ∀ c ∈ first.written.head?, Text.isBlank c = false := by
  intro first front c start
  obtain ⟨gap, behind, split, blank⟩ := segments.exists_first first front
  obtain ⟨d, ds, spelt, noGap⟩ := (segments.isValid first (List.mem_of_head? front)).written_eq_cons
  obtain rfl : d = c := by simpa [spelt] using start
  rw [spelt] at split
  cases gap with
  | nil =>
    cases text with
    | nil =>
      obtain rfl : '\n' = d := (List.cons.inj split).1
      exact absurd noGap (by decide)
    | cons e text => exact solid d (congrArg some (List.cons.inj split).1)
  | cons g gap =>
    cases text with
    | nil => simp at split
    | cons e text =>
      obtain rfl : e = g := (List.cons.inj split).1
      have noGapFirst := isGap_of_isBlank_eq_false (solid e rfl)
      simp [noGapFirst] at blank

/-- Only the line feed is left behind a text that ends in no blank, so its last lexeme does not either. -/
theorem Segments.isBlank_getLast? (segments : Segments (text ++ ['\n']) lexemes)
    (solid : ∀ c ∈ text.getLast?, Text.isBlank c = false) :
    ∀ last ∈ lexemes.getLast?, ∀ c ∈ last.written.getLast?, Text.isBlank c = false := by
  intro last back c final
  obtain ⟨before, gap, split, blank⟩ := segments.exists_last last back
  have feed : gap.getLast? = some '\n' := by
    apply (segments.isValid last (List.mem_of_getLast? back)).getLast?_rest
    rw [← split, List.getLast?_concat]
  obtain ⟨gap, rfl⟩ := List.getLast?_eq_some_iff.mp feed
  have split' : text ++ ['\n'] = before ++ (last.written ++ gap) ++ ['\n'] := by simpa using split
  obtain rfl := List.append_cancel_right split'
  rcases List.eq_nil_or_concat' gap with rfl | ⟨gap, d, rfl⟩
  · rw [Option.mem_def] at final
    exact solid c (by simp [List.getLast?_append, final])
  · have noGapLast := isGap_of_isBlank_eq_false (solid d (by simp))
    have gapLast : isGap d = true := blank d (by simp)
    simp [noGapLast] at gapLast

end Lexeme

open Lexeme

/-- The lexemes of a source are scannable. -/
theorem areScannable_of_tokenize {source : String} {lexemes : List Lexeme}
    (tokens : (tokenize source).map Token.lexeme = lexemes ++ [⟨.endOfInput, ""⟩]) :
    AreScannable lexemes := by
  have segments := lexemes_tokenize_eq_iff.mp tokens
  have trimmed := Text.isTrimmed_trim source.toList
  exact areScannable_iff.mpr ⟨segments.isValid, segments.isBlank_head? trimmed.first,
    segments.isBlank_getLast? trimmed.last⟩

theorem Lexeme.AreScannable.lexemes_tokenize_rendered {lexemes : List Lexeme}
    (scannable : AreScannable lexemes) :
    (tokenize (rendered lexemes)).map Token.lexeme = lexemes ++ [⟨.endOfInput, ""⟩] := by
  obtain ⟨valid, solid⟩ := areScannable_iff.mp scannable
  exact lexemes_tokenize_joined (by decide) valid (fun lexeme _ => lexeme.ends_feed) solid

/-- Scannable lexemes are scanned from the source that they are rendered to, and the lexemes of every
source are scannable. So rendering the lexemes of a source gives another one with the same lexemes. -/
theorem tokenize_rendered_inverse :
    (∀ lexemes, AreScannable lexemes →
      (tokenize (rendered lexemes)).map Token.lexeme = lexemes ++ [⟨.endOfInput, ""⟩]) ∧
    ∀ source, ∃ lexemes, (tokenize source).map Token.lexeme = lexemes ++ [⟨.endOfInput, ""⟩] ∧
      AreScannable lexemes ∧
      (tokenize (rendered lexemes)).map Token.lexeme = (tokenize source).map Token.lexeme := by
  refine ⟨fun lexemes scannable => scannable.lexemes_tokenize_rendered, fun source => ?_⟩
  have tokens := lexemes_tokenize source
  have scannable := areScannable_of_tokenize tokens
  exact ⟨_, tokens, scannable, scannable.lexemes_tokenize_rendered.trans tokens.symm⟩

/-- A blank that is no gap is a lexeme, and so is a quote without another one in its line. -/
theorem tokenize_rendered_of_lone_quote :
    AreScannable [⟨.comment, "#\u2003"⟩, ⟨.unknown, "\u2003"⟩, ⟨.unknown, "\""⟩, ⟨.stringLiteral, "# "⟩] ∧
      (tokenize "#\u2003\n\u2003\n\"\n\"# \"").map Token.lexeme =
        [⟨.comment, "#\u2003"⟩, ⟨.unknown, "\u2003"⟩, ⟨.unknown, "\""⟩, ⟨.stringLiteral, "# "⟩,
          ⟨.endOfInput, ""⟩] := by
  obtain ⟨lexemes, tokens, scannable, -⟩ := tokenize_rendered_inverse.2 "#\u2003\n\u2003 \"\n \"# \""
  have known : (tokenize "#\u2003\n\u2003 \"\n \"# \"").map Token.lexeme =
      [⟨.comment, "#\u2003"⟩, ⟨.unknown, "\u2003"⟩, ⟨.unknown, "\""⟩, ⟨.stringLiteral, "# "⟩] ++
        [⟨.endOfInput, ""⟩] := by decide +kernel
  obtain rfl := List.append_cancel_right (tokens.symm.trans known)
  have source : rendered [⟨.comment, "#\u2003"⟩, ⟨.unknown, "\u2003"⟩, ⟨.unknown, "\""⟩,
      ⟨.stringLiteral, "# "⟩] = "#\u2003\n\u2003\n\"\n\"# \"" := by decide +kernel
  rw [← source]
  exact ⟨scannable, tokenize_rendered_inverse.1 _ scannable⟩

end FuncLang
