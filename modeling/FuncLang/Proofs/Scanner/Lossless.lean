import FuncLang.Proofs.Scanner.Segmentation
import FuncLang.Proofs.Text.Trim

/-! # Nothing is lost in tokens

A trimmed source with a line feed behind it is a sequence of gaps and lexemes. The lexemes are valid
for their kinds and go on as far as they can, and these conditions leave no choice: whatever sequence
of gaps and lexemes meets them, its lexemes are those of the tokens of the source.
-/

namespace FuncLang

/-- A lexeme and the gap in front of it. -/
structure Segment where
  gap : List Char
  lexeme : Lexeme

/-- What is written of several segments, one after the other. -/
def Segment.written (segments : List Segment) : List Char :=
  segments.flatMap fun segment => segment.gap ++ segment.lexeme.written

/-- The text is made up of the segments and of one more gap behind the last of them. -/
inductive Segmented : List Char → List Segment → List Char → Prop
  | none {last : List Char} (blank : ∀ c ∈ last, isGap c = true) : Segmented last [] last
  | more {gap rest last : List Char} {lexeme : Lexeme} {segments : List Segment}
      (blank : ∀ c ∈ gap, isGap c = true) (valid : lexeme.IsValid) (ends : lexeme.Ends rest)
      (behind : Segmented rest segments last) :
      Segmented (gap ++ (lexeme.written ++ rest)) (⟨gap, lexeme⟩ :: segments) last

@[simp] theorem Segment.written_cons (segment : Segment) (segments : List Segment) :
    Segment.written (segment :: segments) =
      segment.gap ++ (segment.lexeme.written ++ Segment.written segments) := by
  simp [Segment.written]

@[simp] theorem Segment.written_append (front back : List Segment) :
    Segment.written (front ++ back) = Segment.written front ++ Segment.written back := by
  simp [Segment.written]

theorem Segmented.text_eq {text last : List Char} {segments : List Segment}
    (segmented : Segmented text segments last) : text = Segment.written segments ++ last := by
  induction segmented with
  | none => rfl
  | more _ _ _ _ ih => rw [ih, Segment.written_cons, List.append_assoc, List.append_assoc]

/-- The gap in front of a valid lexeme is all that stands in front of the first character that is in no
gap. -/
theorem Lexeme.IsValid.takeWhile_isGap {lexeme : Lexeme} (valid : lexeme.IsValid) {gap : List Char}
    (blank : ∀ c ∈ gap, isGap c = true) (rest : List Char) :
    (gap ++ (lexeme.written ++ rest)).takeWhile isGap = gap ∧
      (gap ++ (lexeme.written ++ rest)).dropWhile isGap = lexeme.written ++ rest := by
  obtain ⟨c, cs, front, solid⟩ := valid.written_eq_cons
  exact takeWhile_run blank (by simpa [front] using solid)

/-- No valid lexeme is written in a gap. -/
theorem Lexeme.IsValid.gap_ne {lexeme : Lexeme} (valid : lexeme.IsValid) {last : List Char}
    (blank : ∀ c ∈ last, isGap c = true) (before after : List Char) :
    last ≠ before ++ (lexeme.written ++ after) := by
  rintro rfl
  obtain ⟨c, cs, front, solid⟩ := valid.written_eq_cons
  simp [blank c (by simp [front])] at solid

/-- A text has no more than one segmentation. -/
theorem Segmented.unique {text last : List Char} {segments : List Segment}
    (segmented : Segmented text segments last) :
    ∀ {text' last' : List Char} {segments' : List Segment}, Segmented text' segments' last' →
      text' = text → segments' = segments ∧ last' = last := by
  induction segmented with
  | none blank =>
    rintro _ _ _ (_ | ⟨_, valid, _, _⟩) same
    · exact ⟨rfl, same⟩
    · exact absurd same.symm (valid.gap_ne blank _ _)
  | @more gap rest last lexeme segments blank valid ends behind ih =>
    rintro _ _ _ (blank' | ⟨blank', valid', ends', behind'⟩) same
    · exact absurd same (valid.gap_ne blank' gap rest)
    · obtain ⟨front, ahead⟩ := valid.takeWhile_isGap blank rest
      obtain ⟨front', ahead'⟩ := valid'.takeWhile_isGap blank' _
      rw [same] at front' ahead'
      have sameAhead := ahead'.symm.trans ahead
      obtain ⟨c, cs, first, solid⟩ := valid.written_eq_cons
      rw [first, List.cons_append] at sameAhead
      have scanned := (Lexeme.scan_eq_iff solid).mpr ⟨valid, ends, by rw [first, List.cons_append]⟩
      have scanned' := (Lexeme.scan_eq_iff solid).mpr ⟨valid', ends', sameAhead⟩
      obtain ⟨rfl, rfl⟩ := Prod.mk.inj (scanned'.symm.trans scanned)
      obtain ⟨rfl, rfl⟩ := ih behind' rfl
      exact ⟨by rw [← front', front], rfl⟩

/-- The lexemes of a text are those of its segments. -/
theorem Lexeme.segments_iff_exists_segmented {text : List Char} {lexemes : List Lexeme} :
    Segments text lexemes ↔
      ∃ segments last, Segmented text segments last ∧ segments.map Segment.lexeme = lexemes := by
  constructor
  · intro segments
    induction segments with
    | @gap gap blank => exact ⟨[], gap, .none blank, rfl⟩
    | @lexeme gap rest lexeme lexemes blank valid ends _ ih =>
      obtain ⟨segments, last, segmented, rfl⟩ := ih
      exact ⟨⟨gap, lexeme⟩ :: segments, last, .more blank valid ends segmented, rfl⟩
  · rintro ⟨segments, last, segmented, rfl⟩
    induction segmented with
    | none blank => exact .gap blank
    | more blank valid ends _ ih => exact .lexeme blank valid ends ih

theorem isValid_of_mem_sentence {source : String} {token : Token} (member : token ∈ sentence source) :
    token.lexeme.IsValid := by
  rw [sentence_eq_significant] at member
  exact Scanner.isValid_of_mem_drain (List.mem_filter.mp member).1

/-- The trimmed source with a line feed behind it has one segmentation, and its lexemes are those of
the tokens before the end of the input. -/
theorem tokenize_unique_segmentation (source : String) :
    Text.IsTrimmed source.toList (Text.trim source.toList) ∧
      ∃ segments last, Segmented (Text.trim source.toList ++ ['\n']) segments last ∧
        (tokenize source).map Token.lexeme =
          segments.map Segment.lexeme ++ [⟨.endOfInput, ""⟩] ∧
        ∀ segments' last', Segmented (Text.trim source.toList ++ ['\n']) segments' last' →
          segments' = segments ∧ last' = last := by
  have drained := Scanner.segments_drain (Scanner.ofSource source)
  obtain ⟨segments, last, segmented, same⟩ := Lexeme.segments_iff_exists_segmented.mp drained
  refine ⟨Text.isTrimmed_trim _, segments, last, segmented, ?_, ?_⟩
  · rw [lexemes_tokenize, same]
  · exact fun segments' last' other => segmented.unique other rfl

end FuncLang
