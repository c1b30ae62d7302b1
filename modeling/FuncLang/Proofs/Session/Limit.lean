import FuncLang.Proofs.Parse.Clean
import FuncLang.Proofs.Session.Operation

/-! # The limit of a log

How many diagnostics a session may record changes nothing but the record. Sessions over the same source
with different limits give the same outcomes and come to the same tokens, operation for operation, and
what each of them has recorded is the beginning of what was raised by then, as far as its limit allows.
-/

namespace FuncLang

namespace Diagnostic.Log

/-- A single diagnostic is recorded if there is room. -/
theorem entries_record_singleton (log : Log) (diagnostic : Diagnostic) :
    (log.record [diagnostic]).entries =
      if log.entries.length < log.limit then log.entries ++ [diagnostic] else log.entries := by
  have bounded := log.bounded
  rw [entries_record]
  split
  next room => rw [List.take_of_length_le (by rw [List.length_append, List.length_singleton]; omega)]
  next full =>
    have exact : log.entries.length = log.limit := by omega
    exact List.take_left' exact

/-- Recording is adding one diagnostic after the other, as long as there is room. -/
theorem entries_record_eq_foldl (log : Log) (raised : List Diagnostic) :
    (log.record raised).entries = raised.foldl
      (fun kept diagnostic => if kept.length < log.limit then kept ++ [diagnostic] else kept)
      log.entries := by
  induction raised generalizing log with
  | nil => rw [entries_record, List.append_nil, List.take_of_length_le log.bounded, List.foldl_nil]
  | cons diagnostic raised ih =>
    rw [List.foldl_cons, ← entries_record_singleton, ← List.singleton_append, record_append, ih]
    rfl

end Diagnostic.Log

namespace Session

variable {source : String} {limit : Nat}

/-- A session records the beginning of what is raised, as much of it as there is room for. -/
theorem recorded_after (operations : List Operation) :
    ((ofSource limit source).after operations).recorded =
      ((Unread.ofSource source).raisedAll operations).take limit := by
  rw [after_eq]
  rfl

end Session

/-- With any two limits, the same operations lead to the same next token, and each further one has the
same outcome. All that is raised in a sequence of operations is a list that no limit changes, and what is
recorded up to a point is the beginning of it, as long as the limit and what was raised by then allow.
So whether a parse is clean does not depend on a limit that leaves room for a diagnostic. -/
theorem limit_only_truncates (source : String) :
    (∀ operations limit limit',
      ((Session.ofSource limit source).after operations).current =
          ((Session.ofSource limit' source).after operations).current ∧
        ∀ next, (((Session.ofSource limit source).after operations).perform next).1 =
          (((Session.ofSource limit' source).after operations).perform next).1) ∧
      (∀ operations others limit,
        ((Session.ofSource limit source).after operations).recorded =
          ((Unread.ofSource source).raisedAll (operations ++ others)).take
            (min limit ((Unread.ofSource source).raisedAll operations).length)) ∧
      ∀ config config' : Config, 1 ≤ config.limit → 1 ≤ config'.limit →
        (parseWith config source).isClean = (parseWith config' source).isClean := by
  refine ⟨fun operations limit limit' => ?_, fun operations others limit => ?_,
    fun config config' room room' => ?_⟩
  · rw [Session.after_eq, Session.after_eq]
    exact ⟨rfl, fun next => rfl⟩
  · rw [Session.recorded_after, Unread.raisedAll_append, ← List.take_take, List.take_left' rfl]
  · rw [Bool.eq_iff_iff, isClean_parseWith room, isClean_parseWith room']

/-- A log with room for one of the two diagnostics is enough. -/
theorem isClean_with_room_for_one :
    1 ≤ (⟨1, ""⟩ : Config).limit ∧ 1 ≤ Config.standard.limit ∧
      (parseWith ⟨1, ""⟩ "x y").isClean = (parseWith .standard "x y").isClean := by
  have one : 1 ≤ (⟨1, ""⟩ : Config).limit := by decide
  have standard : 1 ≤ Config.standard.limit := by decide
  exact ⟨one, standard, (limit_only_truncates "x y").2.2 _ _ one standard⟩

end FuncLang
