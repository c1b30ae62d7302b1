import FuncLang.Diagnostic

/-! # Bounded logs

A log keeps the first diagnostics that are recorded in it, as many as its limit allows, and drops
the others. What a log holds is the beginning of everything that was recorded.
-/

namespace FuncLang.Diagnostic

/-- A log with room for `limit` diagnostics. -/
structure Log where
  limit : Nat
  entries : List Diagnostic
  bounded : entries.length ≤ limit
deriving DecidableEq, Repr

namespace Log

/-- A log in which nothing has been recorded. -/
def empty (limit : Nat) : Log := ⟨limit, [], Nat.zero_le limit⟩

/-- Records diagnostics in order while there is room. -/
def record (log : Log) (raised : List Diagnostic) : Log where
  limit := log.limit
  entries := (log.entries ++ raised).take log.limit
  bounded := List.length_take_le ..

@[simp] theorem limit_record (log : Log) (raised : List Diagnostic) :
    (log.record raised).limit = log.limit := rfl

@[simp] theorem entries_record (log : Log) (raised : List Diagnostic) :
    (log.record raised).entries = (log.entries ++ raised).take log.limit := rfl

private theorem take_take_append {α : Type} (xs ys : List α) (n : Nat) :
    (xs.take n ++ ys).take n = (xs ++ ys).take n := by
  rw [List.take_append, List.take_append, List.take_take, Nat.min_self, List.length_take,
    show n - min n xs.length = n - xs.length by omega]

@[simp] theorem record_nil (log : Log) : log.record [] = log := by
  obtain ⟨limit, entries, bounded⟩ := log
  simp [record, List.take_of_length_le bounded]

/-- Recording in two steps is recording in one. -/
theorem record_append (log : Log) (first second : List Diagnostic) :
    log.record (first ++ second) = (log.record first).record second := by
  simp [record, take_take_append]

end Log

end FuncLang.Diagnostic
