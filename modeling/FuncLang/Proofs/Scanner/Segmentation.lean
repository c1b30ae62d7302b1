import FuncLang.Proofs.Lexeme.Segment
import FuncLang.Proofs.Scanner.Sentence

/-! # The segmentation of a text

A text is segmented into lexemes when gaps and valid lexemes take turns in it and every lexeme ends
before the text behind it. Every text has one segmentation, and draining a scanner finds it.
-/

namespace FuncLang

/-- The kind and the text of a token, its position left out. -/
def Token.lexeme (token : Token) : Lexeme := ⟨token.kind, token.text⟩

@[simp] theorem Lexeme.lexeme_toToken (lexeme : Lexeme) (position : Position) :
    (lexeme.toToken position).lexeme = lexeme := rfl

namespace Lexeme

/-- The text is made up of the lexemes in this order, with gaps in front of and behind each of them. -/
inductive Segments : List Char → List Lexeme → Prop
  | gap {gap : List Char} (blank : ∀ c ∈ gap, isGap c = true) : Segments gap []
  | lexeme {gap rest : List Char} {lexeme : Lexeme} {lexemes : List Lexeme}
      (blank : ∀ c ∈ gap, isGap c = true) (valid : lexeme.IsValid) (ends : lexeme.Ends rest)
      (behind : Segments rest lexemes) :
      Segments (gap ++ (lexeme.written ++ rest)) (lexeme :: lexemes)

theorem Segments.isValid {text : List Char} {lexemes : List Lexeme} (segments : Segments text lexemes) :
    ∀ lexeme ∈ lexemes, lexeme.IsValid := by
  induction segments with
  | gap => exact List.forall_mem_nil _
  | lexeme _ valid _ _ ih => exact List.forall_mem_cons.mpr ⟨valid, ih⟩

/-- No valid lexeme begins like a gap. -/
theorem IsValid.written_eq_cons {lexeme : Lexeme} (valid : lexeme.IsValid) :
    ∃ c cs, lexeme.written = c :: cs ∧ isGap c = false := by
  obtain ⟨kind, text⟩ := lexeme
  cases kind with
  | identifier | keyword =>
    obtain ⟨⟨c, cs, spelt, start, -⟩, -⟩ := valid
    have solid : Text.isBlank c = false := isBlank_of_isNamePart (by simp [isNamePart, start])
    exact ⟨c, cs, by simp [written, spelt], isGap_of_isBlank_eq_false solid⟩
  | integer =>
    obtain ⟨some, digits⟩ := valid
    obtain ⟨c, cs, spelt⟩ := List.exists_cons_of_ne_nil some
    have digit := digits c (by simp [spelt])
    have solid : Text.isBlank c = false := isBlank_of_isNamePart (by simp [isNamePart, digit])
    exact ⟨c, cs, by simp [written, spelt], isGap_of_isBlank_eq_false solid⟩
  | stringLiteral => exact ⟨'"', text.toList ++ ['"'], by simp [written], by decide⟩
  | operator =>
    obtain ⟨c, listed, spelt⟩ := valid
    have solid := (of_mem_symbols (List.mem_append_left _ listed)).2.1
    exact ⟨c, [], by simp [written, spelt], isGap_of_isBlank_eq_false solid⟩
  | punctuation =>
    obtain ⟨c, listed, spelt⟩ := valid
    have solid := (of_mem_symbols (List.mem_append_right _ listed)).2.1
    exact ⟨c, [], by simp [written, spelt], isGap_of_isBlank_eq_false solid⟩
  | comment =>
    obtain ⟨cs, spelt, -⟩ := valid
    exact ⟨'#', cs, by simp [written, spelt], by decide⟩
  | unknown =>
    obtain ⟨c, stray, spelt⟩ := valid
    exact ⟨c, [], by simp [written, spelt], stray.1⟩
  | endOfInput => exact valid.elim

end Lexeme

namespace Scanner

open Lexeme

theorem drain_of_ahead_eq_nil {scanner : Scanner} (none : scanner.ahead = []) :
    scanner.drain.1 = [] := by
  rw [drain, dif_neg (by simp [hasNext, none])]

/-- The first token is the lexeme behind the gap, and the others are those of the text behind it. -/
theorem drain_of_ahead_eq_cons {scanner : Scanner} {c : Char} {cs : List Char}
    (next : scanner.ahead = c :: cs) :
    ∃ behind : Scanner, behind.rest = (scan c cs).2 ∧
      scanner.drain.1.map Token.lexeme = (scan c cs).1 :: behind.drain.1.map Token.lexeme := by
  refine ⟨scanner.pull, by simp [pull, next], ?_⟩
  rw [drain, dif_pos (by simp [hasNext, next])]
  simp [pull, next]

/-- A pull that does not give the end of the input passes over the gap and takes the lexeme behind it. -/
theorem exists_lexeme_of_hasNext {scanner : Scanner} (more : scanner.hasNext = true) :
    ∃ lexeme : Lexeme, lexeme.IsValid ∧ lexeme.Ends scanner.pull.rest ∧
      scanner.rest = scanner.gap ++ (lexeme.written ++ scanner.pull.rest) ∧
      scanner.pull.last.lexeme = lexeme := by
  have split : scanner.gap ++ scanner.ahead = scanner.rest := List.takeWhile_append_dropWhile
  cases next : scanner.ahead with
  | nil => simp [hasNext, next] at more
  | cons c cs =>
    have first : c ∈ (scanner.rest.dropWhile isGap).head? := by
      rw [← ahead, next]
      rfl
    have noGap : isGap c = false := of_mem_head?_dropWhile first
    simp only [pull, next]
    refine ⟨(scan c cs).1, isValid_scan noGap cs, ends_scan c cs, ?_, rfl⟩
    rw [written_append_rest, ← next, split]

/-- What draining gives is a segmentation of the text. -/
theorem segments_drain (scanner : Scanner) :
    Segments scanner.rest (scanner.drain.1.map Token.lexeme) := by
  fun_induction drain scanner with
  | case1 scanner more tokens final behind ih =>
    have blank : ∀ c ∈ scanner.gap, isGap c = true := fun c inside => List.mem_takeWhile_imp inside
    obtain ⟨lexeme, valid, ends, split, same⟩ := exists_lexeme_of_hasNext more
    rw [behind] at ih
    rw [List.map_cons, same, split]
    exact .lexeme blank valid ends ih
  | case2 scanner none =>
    have nothing : scanner.rest.dropWhile isGap = [] := by simpa [hasNext, ahead] using none
    exact .gap (List.dropWhile_eq_nil_iff.mp nothing)

/-- A text has no other segmentation than the one that draining gives. -/
theorem drain_of_segments {cs : List Char} {lexemes : List Lexeme} (segments : Segments cs lexemes) :
    ∀ scanner : Scanner, scanner.rest = cs → scanner.drain.1.map Token.lexeme = lexemes := by
  induction segments with
  | gap blank =>
    rintro scanner rfl
    rw [drain_of_ahead_eq_nil, List.map_nil]
    exact List.dropWhile_eq_nil_iff.mpr blank
  | @lexeme gap rest lexeme lexemes blank valid ends segments ih =>
    intro scanner text
    obtain ⟨c, cs, front, noGap⟩ := valid.written_eq_cons
    have next : scanner.ahead = c :: (cs ++ rest) := by
      rw [ahead, text, List.dropWhile_append_of_pos blank, front]
      simp [noGap]
    obtain ⟨behind, left, tokens⟩ := drain_of_ahead_eq_cons next
    rw [(scan_eq_iff noGap).mpr ⟨valid, ends, by rw [front, List.cons_append]⟩] at left tokens
    rw [tokens, ih behind left]

/-- All tokens before the end of the input are valid lexemes. -/
theorem isValid_of_mem_drain {scanner : Scanner} {token : Token} (member : token ∈ scanner.drain.1) :
    token.lexeme.IsValid :=
  (segments_drain scanner).isValid _ (List.mem_map_of_mem member)

theorem map_lexeme_drain_eq_iff {scanner : Scanner} {lexemes : List Lexeme} :
    scanner.drain.1.map Token.lexeme = lexemes ↔ Segments scanner.rest lexemes :=
  ⟨fun drained => drained ▸ segments_drain scanner, fun segments => drain_of_segments segments scanner rfl⟩

end Scanner

/-- The tokens of a source are its lexemes and the end of the input. -/
theorem lexemes_tokenize (source : String) :
    (tokenize source).map Token.lexeme =
      (Scanner.ofSource source).drain.1.map Token.lexeme ++ [⟨.endOfInput, ""⟩] := by
  obtain ⟨position, last⟩ := Scanner.last_drain (Scanner.ofSource source)
  rw [tokenize, List.map_append, last]
  rfl

/-- The tokens before the end of the input are the segmentation of the trimmed source with a line feed
behind it. -/
theorem lexemes_tokenize_eq_iff {source : String} {lexemes : List Lexeme} :
    (tokenize source).map Token.lexeme = lexemes ++ [⟨.endOfInput, ""⟩] ↔
      Lexeme.Segments (Text.trim source.toList ++ ['\n']) lexemes := by
  rw [lexemes_tokenize, List.append_cancel_right_eq]
  exact Scanner.map_lexeme_drain_eq_iff

end FuncLang
