import Mathlib.Data.List.Sort
import Mathlib.Data.List.Destutter

/-!
# Sorting and removing repetitions

A list that is sorted, and from which repetitions of neighbours are then removed, has the elements it
had, in increasing order and each once.
-/

namespace SortedUnique

variable {α : Type} [LE α] [DecidableLE α] [DecidableEq α] [Std.IsLinearOrder α]

/-- `std::sort`, and what `std::unique` leaves of it. -/
def sortUnique (l : List α) : List α := (l.insertionSort (· ≤ ·)).destutter (· ≠ ·)

theorem sortUnique_eq_dedup (l : List α) :
    sortUnique l = (l.insertionSort (· ≤ ·)).dedup :=
  (List.pairwise_insertionSort (· ≤ ·) l).destutter_eq_dedup

theorem mem_sortUnique {l : List α} {x : α} : x ∈ sortUnique l ↔ x ∈ l := by
  rw [sortUnique_eq_dedup, List.mem_dedup, List.mem_insertionSort]

theorem pairwise_sortUnique [LT α] [Std.LawfulOrderLT α] (l : List α) : (sortUnique l).Pairwise (· < ·) := by
  rw [sortUnique_eq_dedup]
  have hsorted := (List.pairwise_insertionSort (· ≤ ·) l).sublist (List.dedup_sublist _)
  refine (hsorted.and (List.nodup_dedup _)).imp ?_
  rintro x y ⟨hle, hne⟩
  exact Std.lt_of_le_of_ne hle hne

end SortedUnique
