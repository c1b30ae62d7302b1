import FuncLang.Proofs.Grammar.Accounting
import FuncLang.Proofs.Parse.Clean
import FuncLang.Proofs.Scanner.Placement

/-! # What a parse keeps of its source

The words of the tree of a parse are the tokens of its source, apart from those that no tree shows and
those at which diagnostics tell that a placeholder stands for them. This holds however broken the
source is, as long as no parameter list was skipped and no diagnostic dropped.

The tokens for which placeholders stand are those at the positions of these diagnostics, in their order. Where
words are enough for positions, the position is enough to tell such a token from all others.
-/

namespace FuncLang

namespace Parse

/-- Whether a diagnostic tells that the rest of a parameter list was skipped. -/
def skips (parse : Parse) : Bool :=
  parse.diagnostics.any fun diagnostic => diagnostic.message ∈
    ["expected parameter name", "expected ',' or ')' in parameter list"]

/-- Whether a diagnostic tells that a placeholder stands for the token. -/
def isStray (parse : Parse) (token : Token) : Bool :=
  parse.diagnostics.any fun diagnostic => diagnostic.position = token.position ∧
    diagnostic.message ∈ ["unsupported statement", "unrecognized character"]

/-- Where diagnostics tell that a placeholder stands for a token. -/
def strayPositions (parse : Parse) : List Position :=
  (parse.diagnostics.filter fun diagnostic =>
    diagnostic.message ∈ ["unsupported statement", "unrecognized character"]).map (·.position)

end Parse

namespace Grammar.Fault

theorem skips_iff_message (fault : Fault) : fault.skips = true ↔
    fault.message ∈ ["expected parameter name", "expected ',' or ')' in parameter list"] := by
  cases fault <;> decide

theorem isStray_iff_message (fault : Fault) : fault.isStray = true ↔
    fault.message ∈ ["unsupported statement", "unrecognized character"] := by
  cases fault <;> decide

end Grammar.Fault

theorem nodup_position_sentence {source : String} (counted : CountsInWords source) :
    ((sentence source).map (·.position)).Nodup :=
  (nodup_position_tokenize counted).sublist (List.filter_sublist.map _)

section Recorded

variable {config : Config} {source : String}

theorem unskipped_reading (room : (reading source).raised.length ≤ config.limit)
    (unskipped : (parseWith config source).skips = false) :
    Grammar.Unskipped (reading source).raised := by
  intro problem member
  have kept : problem.toDiagnostic ∈ (parseWith config source).diagnostics :=
    diagnostics_parseWith_of_room room ▸ List.mem_map_of_mem member
  have other := List.any_eq_false.mp unskipped _ kept
  rw [decide_eq_true_iff] at other
  exact Bool.eq_false_iff.mpr (mt problem.fault.skips_iff_message.mp other)

/-- All tokens of a source are accounted for. -/
theorem accounted_sentence (unskipped : Grammar.Unskipped (reading source).raised) :
    Accounted (sentence source) (Grammar.strays (reading source).raised)
      (reading source).value.toTree.readback := by
  obtain ⟨read, same, account⟩ :=
    Grammar.program_account (sentence source) fun _ => isValid_of_mem_sentence
  obtain ⟨_, accounted, rfl⟩ := account unskipped
  rw [show (Grammar.program.read _ (sentence source)).rest = [] from rest_reading source,
    List.append_nil] at same
  rwa [← same] at accounted

/-- Each stray token is told by a diagnostic of its own. -/
theorem map_position_strays (room : (reading source).raised.length ≤ config.limit) :
    (Grammar.strays (reading source).raised).map (·.position) =
      (parseWith config source).strayPositions := by
  have message (problem : Grammar.Problem) : problem.fault.isStray =
      decide (problem.toDiagnostic.message ∈ ["unsupported statement", "unrecognized character"]) :=
    Bool.eq_iff_iff.mpr (problem.fault.isStray_iff_message.trans decide_eq_true_iff.symm)
  rw [Parse.strayPositions, diagnostics_parseWith_of_room room, List.filter_map, List.map_map,
    Grammar.strays, List.map_map]
  exact congrArg (List.map _) (List.filter_congr fun problem _ => message problem)

/-- The position of a stray token is enough to find it, where words are enough for positions. -/
theorem isStray_parseWith_iff (counted : CountsInWords source)
    (room : (reading source).raised.length ≤ config.limit)
    (unskipped : Grammar.Unskipped (reading source).raised) {token : Token}
    (member : token ∈ sentence source) :
    (parseWith config source).isStray token = true ↔
      token ∈ Grammar.strays (reading source).raised := by
  have strays := (accounted_sentence unskipped).strays_subset
  simp only [Parse.isStray, diagnostics_parseWith_of_room room, List.any_map, List.any_eq_true,
    Function.comp_apply, decide_eq_true_iff]
  constructor
  · rintro ⟨problem, raised, place, message⟩
    have found : problem.token ∈ Grammar.strays (reading source).raised :=
      List.mem_map_of_mem (List.mem_filter.mpr ⟨raised, problem.fault.isStray_iff_message.mpr message⟩)
    rwa [List.inj_on_of_nodup_map (nodup_position_sentence counted) (strays found) member place] at found
  · intro found
    obtain ⟨problem, among, rfl⟩ := List.mem_map.mp found
    obtain ⟨raised, stray⟩ := List.mem_filter.mp among
    exact ⟨problem, raised, rfl, problem.fault.isStray_iff_message.mp stray⟩

end Recorded

end FuncLang
