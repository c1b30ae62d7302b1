import FuncLang.Proofs.Lexeme.Reserved
import FuncLang.Scanner
import Mathlib.Data.List.TakeWhile

/-! # Lexemes as segments of a text

Which lexemes there are, and where each of them ends. A valid lexeme is one of its kind, whatever
stands around it; it ends before a text if the classes that read on as long as they can would not
read on there. `Lexeme.scan` takes the one valid lexeme that stands in front and ends there.
-/

namespace FuncLang.Lexeme

/-- A name start and name parts behind it. -/
def IsName (text : List Char) : Prop :=
  ∃ c cs, text = c :: cs ∧ isNameStart c = true ∧ ∀ d ∈ cs, isNamePart d = true

instance : DecidablePred IsName
  | [] => isFalse (by simp [IsName])
  | c :: cs =>
    decidable_of_iff (isNameStart c = true ∧ cs.all isNamePart = true) <| by
      rw [List.all_eq_true]
      constructor
      · rintro ⟨start, parts⟩
        exact ⟨c, cs, rfl, start, parts⟩
      · rintro ⟨_, _, same, start, parts⟩
        cases same
        exact ⟨start, parts⟩

/-- At least one digit, and nothing else. -/
def IsNumber (text : List Char) : Prop := text ≠ [] ∧ ∀ c ∈ text, c.isDigit = true

/-- A character with which no other lexeme than a string begins, and that is not in a gap. -/
def IsStray (c : Char) : Prop :=
  isGap c = false ∧ isNamePart c = false ∧ c ∉ operatorSymbols ∧ c ∉ punctuationSymbols ∧ c ≠ '#'

/-- Whether the text is one that lexemes of the kind have. -/
def IsValid (lexeme : Lexeme) : Prop :=
  let text := lexeme.text.toList
  match lexeme.kind with
  | .identifier => IsName text ∧ ¬ IsReserved text
  | .keyword => IsName text ∧ IsReserved text
  | .integer => IsNumber text
  | .stringLiteral => '"' ∉ text ∧ '\n' ∉ text
  | .operator => ∃ c ∈ operatorSymbols, text = [c]
  | .punctuation => ∃ c ∈ punctuationSymbols, text = [c]
  | .comment => ∃ cs, text = '#' :: cs ∧ '\n' ∉ cs
  | .unknown => ∃ c, IsStray c ∧ text = [c]
  | .endOfInput => False

/-- Whether the lexeme ends before the text `rest`: a name before a name part, a number before a digit
and a comment before anything but the end of its line would go on, and a quote is the start of a string
if another one comes in the same line. -/
def Ends (lexeme : Lexeme) (rest : List Char) : Prop :=
  match lexeme.kind with
  | .identifier | .keyword => ∀ c ∈ rest.head?, isNamePart c = false
  | .integer => ∀ c ∈ rest.head?, c.isDigit = false
  | .comment => ∀ c ∈ rest.head?, c = '\n'
  | .unknown => lexeme.text.toList = ['"'] → ∀ body behind, rest = body ++ '"' :: behind → '\n' ∈ body
  | _ => True

/-! ## Characters -/

theorem isNamePart_eq_false_iff {c : Char} :
    isNamePart c = false ↔ isNameStart c = false ∧ c.isDigit = false := by simp [isNamePart]

theorem isAlpha_iff_toNat {c : Char} :
    c.isAlpha = true ↔ (65 ≤ c.toNat ∧ c.toNat ≤ 90) ∨ (97 ≤ c.toNat ∧ c.toNat ≤ 122) := by
  have ranges : c.isAlpha = (decide (c.val ≥ 'A'.val ∧ c.val ≤ 'Z'.val) ||
      (decide (c.val ≥ 'a'.val) && decide (c.val ≤ 'z'.val))) := rfl
  rw [ranges, Bool.or_eq_true, Bool.and_eq_true, decide_eq_true_iff, decide_eq_true_iff,
    decide_eq_true_iff]
  exact Iff.rfl

theorem isNameStart_iff_toNat {c : Char} : isNameStart c = true ↔
    (65 ≤ c.toNat ∧ c.toNat ≤ 90) ∨ (97 ≤ c.toNat ∧ c.toNat ≤ 122) ∨ c.toNat = 95 := by
  have underscore : c = '_' ↔ c.toNat = 95 := Char.toNat_inj.symm
  rw [isNameStart, Bool.or_eq_true, isAlpha_iff_toNat, beq_iff_eq, underscore, or_assoc]

theorem isDigit_iff_toNat {c : Char} : c.isDigit = true ↔ 48 ≤ c.toNat ∧ c.toNat ≤ 57 :=
  Char.isDigit_iff_toNat

theorem isNameStart_of_isDigit {c : Char} (digit : c.isDigit = true) : isNameStart c = false := by
  have code := isDigit_iff_toNat.mp digit
  rw [Bool.eq_false_iff, Ne, isNameStart_iff_toNat]
  omega

theorem isBlank_of_isNamePart {c : Char} (part : isNamePart c = true) : Text.isBlank c = false := by
  rw [isNamePart, Bool.or_eq_true, isNameStart_iff_toNat, isDigit_iff_toNat] at part
  simp only [Text.isBlank, Text.blankRanges, List.any_cons, List.any_nil, Bool.or_false,
    Bool.or_eq_false_iff, Bool.and_eq_false_iff, decide_eq_false_iff_not]
  omega

/-- Gaps are made of blanks. -/
theorem isGap_of_isBlank_eq_false {c : Char} (solid : Text.isBlank c = false) : isGap c = false := by
  rw [Bool.eq_false_iff]
  intro gap
  simp only [isGap, Bool.or_eq_true, beq_iff_eq] at gap
  rcases gap with ((rfl | rfl) | rfl) | rfl <;> exact absurd solid (by decide)

theorem isNamePart_of_isGap {c : Char} (gap : isGap c = true) : isNamePart c = false := by
  rw [Bool.eq_false_iff]
  intro part
  simp [isGap_of_isBlank_eq_false (isBlank_of_isNamePart part)] at gap

/-- Operators and punctuation are neither in names nor blank, and no quotes. -/
theorem of_mem_symbols {c : Char} (listed : c ∈ operatorSymbols ++ punctuationSymbols) :
    isNamePart c = false ∧ Text.isBlank c = false ∧ c ≠ '"' := by
  simp only [operatorSymbols, punctuationSymbols, List.cons_append, List.nil_append, List.mem_cons,
    List.not_mem_nil, or_false] at listed
  rcases listed with rfl | rfl | rfl | rfl | rfl | rfl | rfl | rfl | rfl | rfl | rfl | rfl | rfl <;>
    decide

/-- No punctuation mark is an operator. -/
theorem not_mem_operatorSymbols {c : Char} (listed : c ∈ punctuationSymbols) :
    c ∉ operatorSymbols := by
  simp only [punctuationSymbols, List.mem_cons, List.not_mem_nil, or_false] at listed
  rcases listed with rfl | rfl | rfl | rfl | rfl | rfl | rfl | rfl | rfl <;> decide

/-! ## Strings -/

/-- A string is closed by the next quote, and does not go over the end of its line. -/
theorem quoted?_eq_some_iff {cs body rest : List Char} :
    quoted? cs = some (body, rest) ↔ cs = body ++ '"' :: rest ∧ '"' ∉ body ∧ '\n' ∉ body := by
  induction cs generalizing body with
  | nil => simp [quoted?]
  | cons c cs ih =>
    simp only [quoted?]
    split
    next quote => cases body <;> grind
    next other =>
      split
      next feed => cases body <;> grind
      next inside =>
        rw [Option.map_eq_some_iff]
        cases body with
        | nil => grind
        | cons d body => have := @ih body; grind

/-- There is no string where the line ends before the next quote. -/
theorem quoted?_eq_none_iff {cs : List Char} :
    quoted? cs = none ↔ ∀ body rest, cs = body ++ '"' :: rest → '\n' ∈ body := by
  induction cs with
  | nil => simp [quoted?]
  | cons c cs ih =>
    simp only [quoted?]
    split
    next quote =>
      subst quote
      constructor
      · intro none
        cases none
      · intro feeds
        cases feeds [] cs rfl
    next other =>
      split
      next feed =>
        refine ⟨fun _ body rest same => ?_, fun _ => rfl⟩
        cases body <;> grind
      next inside =>
        rw [Option.map_eq_none_iff, ih]
        constructor
        · intro feeds body rest same
          cases body with
          | nil => exact absurd (List.cons.inj same).1 other
          | cons d body => exact List.mem_cons_of_mem d (feeds body rest (List.cons.inj same).2)
        · intro feeds body rest same
          have := feeds (c :: body) rest (by rw [same, List.cons_append])
          exact (List.mem_cons.mp this).resolve_left (Ne.symm inside)

/-! ## Scanning -/

section Runs

variable {wanted : Char → Bool} {run rest : List Char}

/-- A run of wanted characters ends where one is not wanted. -/
theorem takeWhile_run (all : ∀ c ∈ run, wanted c = true) (ends : ∀ c ∈ rest.head?, wanted c = false) :
    (run ++ rest).takeWhile wanted = run ∧ (run ++ rest).dropWhile wanted = rest := by
  rw [List.takeWhile_append_of_pos all, List.dropWhile_append_of_pos all]
  cases rest with
  | nil => simp
  | cons c rest => simp [ends c rfl]

theorem of_mem_head?_dropWhile {cs : List Char} {c : Char}
    (next : c ∈ (cs.dropWhile wanted).head?) : wanted c = false := by
  have := List.head?_dropWhile_not wanted cs
  rw [next] at this
  simpa using this

end Runs

/-- The scanned lexeme is one of its kind. -/
theorem isValid_scan {c : Char} (notGap : isGap c = false) (cs : List Char) :
    (scan c cs).1.IsValid := by
  unfold scan
  split
  next start =>
    have isName : IsName (c :: cs.takeWhile isNamePart) :=
      ⟨c, _, rfl, start, fun d inside => List.mem_takeWhile_imp inside⟩
    unfold ofName
    split
    next keyword => simpa [IsValid, isName] using isKeyword_iff.mp keyword
    next free => simpa [IsValid, isName] using mt isKeyword_iff.mpr free
  next noName =>
    split
    next digit =>
      refine ⟨by simp, fun d inside => ?_⟩
      rw [String.toList_ofList, List.mem_cons] at inside
      rcases inside with rfl | inside
      · exact digit
      · exact List.mem_takeWhile_imp inside
    next noDigit =>
      split
      next quote =>
        split
        next body rest found => simpa [IsValid] using (quoted?_eq_some_iff.mp found).2
        next => exact ⟨c, by subst quote; unfold IsStray; decide, by simp⟩
      next noQuote =>
        split
        next operator => exact ⟨c, operator, by simp⟩
        next noOperator =>
          split
          next mark => exact ⟨c, mark, by simp⟩
          next noMark =>
            split
            next comment =>
              refine ⟨cs.takeWhile (· ≠ '\n'), by simp [comment], fun inside => ?_⟩
              simpa using List.mem_takeWhile_imp inside
            next noComment =>
              exact ⟨c, ⟨notGap, by simp_all [isNamePart], noOperator, noMark, noComment⟩, by simp⟩

/-- The scanned lexeme ends before what is left. -/
theorem ends_scan (c : Char) (cs : List Char) : (scan c cs).1.Ends (scan c cs).2 := by
  unfold scan
  split
  next =>
    unfold ofName
    split <;> exact fun d => of_mem_head?_dropWhile
  next =>
    split
    next => exact fun d => of_mem_head?_dropWhile
    next =>
      split
      next =>
        split
        next => trivial
        next none => exact fun _ => quoted?_eq_none_iff.mp none
      next noQuote =>
        split
        next => trivial
        next =>
          split
          next => trivial
          next =>
            split
            next => exact fun d next => by simpa using of_mem_head?_dropWhile next
            next => exact fun quote => absurd (by simpa using quote) noQuote

theorem scan_name {c : Char} {cs rest : List Char} (start : isNameStart c = true)
    (parts : ∀ d ∈ cs, isNamePart d = true) (ends : ∀ d ∈ rest.head?, isNamePart d = false) :
    scan c (cs ++ rest) = (ofName (c :: cs), rest) := by
  obtain ⟨taken, left⟩ := takeWhile_run parts ends
  rw [scan, if_pos start, taken, left]

/-- A valid lexeme in front of a text before which it ends is the one that is scanned. -/
theorem scan_of_isValid {lexeme : Lexeme} {c : Char} {cs rest : List Char} (valid : lexeme.IsValid)
    (ends : lexeme.Ends rest) (front : lexeme.written ++ rest = c :: cs) :
    scan c cs = (lexeme, rest) := by
  obtain ⟨kind, text⟩ := lexeme
  cases kind with
  | identifier =>
    obtain ⟨⟨d, ds, spelt, start, parts⟩, free⟩ := valid
    obtain ⟨rfl, rfl⟩ : d = c ∧ ds ++ rest = cs := by simpa [written, spelt] using front
    rw [scan_name start parts ends, ofName, ← spelt, isKeyword_eq_false_iff.mpr free]
    simp
  | keyword =>
    obtain ⟨⟨d, ds, spelt, start, parts⟩, reserved⟩ := valid
    obtain ⟨rfl, rfl⟩ : d = c ∧ ds ++ rest = cs := by simpa [written, spelt] using front
    rw [scan_name start parts ends, ofName, ← spelt, isKeyword_iff.mpr reserved]
    simp
  | integer =>
    obtain ⟨some, digits⟩ := valid
    obtain ⟨d, ds, spelt⟩ := List.exists_cons_of_ne_nil some
    obtain ⟨rfl, rfl⟩ : d = c ∧ ds ++ rest = cs := by simpa [written, spelt] using front
    simp only [spelt] at digits
    obtain ⟨digit, digits⟩ := List.forall_mem_cons.mp digits
    obtain ⟨taken, left⟩ := takeWhile_run digits ends
    rw [scan, if_neg (by simp [isNameStart_of_isDigit digit]), if_pos digit, taken, left, ← spelt]
    simp
  | stringLiteral =>
    obtain ⟨rfl, rfl⟩ : '"' = c ∧ text.toList ++ '"' :: rest = cs := by
      simpa [written] using front
    have found : quoted? (text.toList ++ '"' :: rest) = some (text.toList, rest) :=
      quoted?_eq_some_iff.mpr ⟨rfl, valid⟩
    rw [scan, if_neg (by decide), if_neg (by decide), if_pos rfl, found]
    simp
  | operator =>
    obtain ⟨d, listed, spelt⟩ := valid
    obtain ⟨rfl, rfl⟩ : d = c ∧ rest = cs := by simpa [written, spelt] using front
    obtain ⟨noPart, -, noQuote⟩ := of_mem_symbols (List.mem_append_left _ listed)
    obtain ⟨noStart, noDigit⟩ := isNamePart_eq_false_iff.mp noPart
    rw [scan, if_neg (by simp [noStart]), if_neg (by simp [noDigit]), if_neg noQuote, if_pos listed]
    simp [← String.toList_inj, spelt]
  | punctuation =>
    obtain ⟨d, listed, spelt⟩ := valid
    obtain ⟨rfl, rfl⟩ : d = c ∧ rest = cs := by simpa [written, spelt] using front
    obtain ⟨noPart, -, noQuote⟩ := of_mem_symbols (List.mem_append_right _ listed)
    obtain ⟨noStart, noDigit⟩ := isNamePart_eq_false_iff.mp noPart
    rw [scan, if_neg (by simp [noStart]), if_neg (by simp [noDigit]), if_neg noQuote,
      if_neg (not_mem_operatorSymbols listed), if_pos listed]
    simp [← String.toList_inj, spelt]
  | comment =>
    obtain ⟨ds, spelt, oneLine⟩ := valid
    obtain ⟨rfl, rfl⟩ : '#' = c ∧ ds ++ rest = cs := by simpa [written, spelt] using front
    have inLine : ∀ d ∈ ds, decide (d ≠ '\n') = true :=
      fun d inside => decide_eq_true fun feed => oneLine (feed ▸ inside)
    have lineEnds : ∀ d ∈ rest.head?, decide (d ≠ '\n') = false :=
      fun d next => decide_eq_false (not_not.mpr (ends d next))
    obtain ⟨taken, left⟩ := takeWhile_run inLine lineEnds
    rw [scan, if_neg (by decide), if_neg (by decide), if_neg (by decide), if_neg (by decide),
      if_neg (by decide), if_pos rfl, taken, left, ← spelt]
    simp
  | unknown =>
    obtain ⟨d, ⟨-, noPart, noOperator, noMark, noComment⟩, spelt⟩ := valid
    obtain ⟨rfl, rfl⟩ : d = c ∧ rest = cs := by simpa [written, spelt] using front
    obtain ⟨noStart, noDigit⟩ := isNamePart_eq_false_iff.mp noPart
    have text_eq : text = String.singleton d := by simp [← String.toList_inj, spelt]
    rw [scan, if_neg (by simp [noStart]), if_neg (by simp [noDigit])]
    by_cases quote : d = '"'
    · rw [if_pos quote, quoted?_eq_none_iff.mpr (ends (by rw [spelt, quote])), text_eq]
    · rw [if_neg quote, if_neg noOperator, if_neg noMark, if_neg noComment, text_eq]
  | endOfInput => exact valid.elim

/-- Scanning takes the only valid lexeme that stands in front of the text and ends there. -/
theorem scan_eq_iff {c : Char} (notGap : isGap c = false) {cs rest : List Char} {lexeme : Lexeme} :
    scan c cs = (lexeme, rest) ↔
      lexeme.IsValid ∧ lexeme.Ends rest ∧ lexeme.written ++ rest = c :: cs := by
  constructor
  · intro scanned
    have valid := isValid_scan notGap cs
    have ends := ends_scan c cs
    have front := written_append_rest c cs
    rw [scanned] at valid ends front
    exact ⟨valid, ends, front⟩
  · rintro ⟨valid, ends, front⟩
    exact scan_of_isValid valid ends front

end FuncLang.Lexeme
