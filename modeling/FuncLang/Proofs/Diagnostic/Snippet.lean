import FuncLang.Diagnostic.Snippet
import FuncLang.Proofs.Text.Split

/-! # Snippets and reports as lines

A snippet has four lines, and none of them is empty. This takes that no line feed comes into it from outside:
a source line has none, and neither have the words of the diagnostic and the name of the source if they are
displayed in one line. A report of such snippets has empty lines only between them, and so it is split into
them again.
-/

namespace FuncLang

/-- Whether no line feed is in the text. -/
def IsOneLine (text : String) : Prop := '\n' ∉ text.toList

instance (text : String) : Decidable (IsOneLine text) :=
  inferInstanceAs (Decidable ('\n' ∉ text.toList))

theorem IsOneLine.append {text other : String} (first : IsOneLine text) (second : IsOneLine other) :
    IsOneLine (text ++ other) := by
  rw [IsOneLine, String.toList_append]
  exact List.not_mem_append first second

/-- Numbers are written with digits. -/
theorem isOneLine_toString (number : Nat) : IsOneLine (toString number) := by
  intro inside
  rw [Nat.toString_eq_ofList_toDigits, String.toList_ofList] at inside
  exact absurd (Nat.isDigit_of_mem_toDigits (by decide) (by decide) inside) (by decide)

theorem Position.isOneLine_display (place : Position) : IsOneLine place.display := by
  have line : IsOneLine "line " := by decide
  exact ((line.append (isOneLine_toString _)).append (by decide)).append (isOneLine_toString _)

namespace Diagnostic

variable {diagnostic : Diagnostic} {name : String}

/-- A diagnostic is displayed in one line if its cause is displayed in one and its message has one. -/
theorem isOneLine_display (cause : IsOneLine diagnostic.cause.display)
    (message : IsOneLine diagnostic.message) : IsOneLine diagnostic.display := by
  have place := diagnostic.position.isOneLine_display
  exact (((cause.append (by decide)).append place).append (by decide)).append message

/-- The lines of a snippet. -/
def snippetLines (diagnostic : Diagnostic) (source name : String) : List (List Char) :=
  let place := diagnostic.position
  [diagnostic.display.toList,
    (" --> " ++ name ++ ":" ++ toString place.line.toNat ++ ":" ++ toString place.column.toNat).toList,
    ' ' :: Text.lineAt source.toList place.line.toNat,
    ' ' :: (List.replicate (place.column.toNat - 1) ' ' ++ ['^'])]

theorem toList_snippet (diagnostic : Diagnostic) (source name : String) :
    (diagnostic.snippet source name).toList =
      ['\n'].intercalate (diagnostic.snippetLines source name) := by
  simp [snippet, snippetLines, caret, List.intercalate]

/-- None of the lines of a snippet is empty. -/
theorem ne_nil_of_mem_snippetLines (diagnostic : Diagnostic) (source name : String) :
    ∀ line ∈ diagnostic.snippetLines source name, line ≠ [] := by
  simp [snippetLines, Diagnostic.display]

theorem feed_not_mem_snippetLines (display : IsOneLine diagnostic.display) (named : IsOneLine name)
    (source : String) : ∀ line ∈ diagnostic.snippetLines source name, '\n' ∉ line := by
  have arrow : IsOneLine " --> " := by decide
  have place : IsOneLine (" --> " ++ name ++ ":" ++ toString diagnostic.position.line.toNat ++ ":" ++
      toString diagnostic.position.column.toNat) :=
    ((((arrow.append named).append (by decide)).append (isOneLine_toString _)).append
      (by decide)).append (isOneLine_toString _)
  have shown := Text.feed_not_mem_lineAt source.toList diagnostic.position.line.toNat
  simp only [snippetLines, List.forall_mem_cons]
  refine ⟨display, place, ?_, ?_, List.forall_mem_nil _⟩
  · exact List.not_mem_cons_of_ne_of_not_mem (by decide) shown
  · simp

/-- Splitting a snippet at line feeds gives its lines. -/
theorem splitOn_snippet (display : IsOneLine diagnostic.display) (named : IsOneLine name)
    (source : String) :
    (diagnostic.snippet source name).toList.splitOn '\n' = diagnostic.snippetLines source name := by
  rw [toList_snippet]
  exact List.splitOn_intercalate '\n' (feed_not_mem_snippetLines display named source)
    (List.cons_ne_nil _ _)

/-- Splitting a report at empty lines gives the snippets. -/
theorem blocks_report {diagnostics : List Diagnostic} (some : diagnostics ≠ [])
    (displays : ∀ diagnostic ∈ diagnostics, IsOneLine diagnostic.display) (named : IsOneLine name)
    (source : String) :
    Text.blocks (report diagnostics source name).toList =
      diagnostics.map fun diagnostic => (diagnostic.snippet source name).toList := by
  rw [report, String.toList_intercalate, List.map_map]
  apply Text.blocks_intercalate
  · exact mt List.map_eq_nil_iff.mp some
  · intro part member
    obtain ⟨diagnostic, among, rfl⟩ := List.mem_map.mp member
    rw [Function.comp_apply, splitOn_snippet (displays diagnostic among) named source]
    exact diagnostic.ne_nil_of_mem_snippetLines source name

end Diagnostic

end FuncLang
