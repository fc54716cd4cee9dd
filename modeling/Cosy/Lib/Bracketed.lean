import Mathlib.Tactic.Common

/-!
# Logs with brackets

A log, newest entry first, in which some entries open a block and others close one. Blocks are not
nested, and every block that was opened is closed.
-/

variable {α : Type} {opens closes : α → Bool} {P : α → List α → Prop}

/-- The log consists of whole blocks and of entries that neither open nor close one. `P` holds of
the opening entry of each block and of what the block contains. -/
inductive Bracketed (opens closes : α → Bool) (P : α → List α → Prop) : List α → Prop
  | nil : Bracketed opens closes P []
  | single {x : α} {log : List α} (hopens : opens x = false) (hcloses : closes x = false)
      (hlog : Bracketed opens closes P log) : Bracketed opens closes P (x :: log)
  | block {opening closing : α} {block log : List α} (hopening : opens opening = true)
      (hclosing : closes closing = true)
      (hinside : ∀ x ∈ block, opens x = false ∧ closes x = false) (hblock : P opening block)
      (hlog : Bracketed opens closes P log) :
      Bracketed opens closes P (closing :: (block ++ opening :: log))

/-- What does not look at such entries does not see any number of them. -/
theorem eq_append_of_skipped {β : Type} {f : List α → β} {skipped : α → Prop}
    (hskip : ∀ x log, skipped x → f (x :: log) = f log) {newer : List α} (log : List α)
    (hnewer : ∀ x ∈ newer, skipped x) : f (newer ++ log) = f log := by
  induction newer with
  | nil => rfl
  | cons x newer ih =>
      rw [List.cons_append, hskip x _ (hnewer x List.mem_cons_self)]
      exact ih fun y hy => hnewer y (List.mem_cons_of_mem _ hy)

namespace Bracketed

theorem append {newer log : List α} (hlog : Bracketed opens closes P log)
    (hnewer : ∀ x ∈ newer, opens x = false ∧ closes x = false) :
    Bracketed opens closes P (newer ++ log) := by
  induction newer with
  | nil => exact hlog
  | cons x newer ih =>
      obtain ⟨hopens, hcloses⟩ := hnewer x List.mem_cons_self
      exact .single hopens hcloses (ih fun y hy => hnewer y (List.mem_cons_of_mem _ hy))

end Bracketed
