import Mathlib.Data.List.Basic

/-! A common history of what the threads have done, and each thread's portion of it. Nothing here
fixes what an event is. -/
namespace Interleaving

variable {ι E : Type}

/-- An event of a common history, with the thread it belongs to. -/
structure Entry (ι E : Type) where
  thread : ι
  event : E
  deriving DecidableEq

section Portions
variable [DecidableEq ι] {i j : ι} {history later : List (Entry ι E)} {event : E}

/-- What thread `i` has done, in order. -/
def portion (i : ι) (history : List (Entry ι E)) : List E := (history.filter (·.thread = i)).map Entry.event

theorem portion_nil : portion i ([] : List (Entry ι E)) = [] := rfl

theorem portion_append : portion i (history ++ later) = portion i history ++ portion i later := by
  rw [portion, List.filter_append, List.map_append]
  rfl

theorem portion_snoc : portion i (history ++ [⟨i, event⟩]) = portion i history ++ [event] := by
  simp [portion]

theorem portion_snoc_of_ne (other : j ≠ i) : portion i (history ++ [⟨j, event⟩]) = portion i history := by
  simp [portion, other]

/-- A history that has grown without thread `i` says the same of what it did since an earlier time. -/
theorem portion_drop_of_prefix {n : Nat} (grown : history <+: later) (same : portion i later = portion i history)
    (bound : n ≤ history.length) : portion i (later.drop n) = portion i (history.drop n) := by
  obtain ⟨more, rfl⟩ := grown
  rw [portion_append, List.append_right_eq_self] at same
  rw [List.drop_append_of_le_length bound, portion_append, same, List.append_nil]

end Portions
end Interleaving
