import Mathlib.Data.List.Perm.Basic
import Mathlib.Tactic.Common

/-!
# Handles

Whoever opens a handle owns it until it is closed. A handle that is open and has no owner is lost:
nothing will ever close it.
-/

namespace Handles

open scoped List

variable {α : Type} [DecidableEq α] {owned owned' lost opened : List α} {x : α}

/-- What is open is what is owned and what was lost, and nothing is open twice. -/
structure Account (owned lost opened : List α) : Prop where
  nodup : opened.Nodup
  perm : opened.Perm (owned ++ lost)

namespace Account

omit [DecidableEq α]

theorem nil : Account ([] : List α) [] [] := ⟨List.nodup_nil, List.Perm.refl _⟩

theorem of_perm (h : Account owned lost opened) (howned : owned.Perm owned') :
    Account owned' lost opened :=
  ⟨h.nodup, h.perm.trans (howned.append_right lost)⟩

/-- A new handle gets an owner. -/
theorem acquire (h : Account owned lost opened) (hfresh : x ∉ opened) :
    Account (x :: owned) lost (x :: opened) :=
  ⟨List.nodup_cons.mpr ⟨hfresh, h.nodup⟩, h.perm.cons x⟩

/-- A new handle that nobody keeps. -/
theorem lose (h : Account owned lost opened) (hfresh : x ∉ opened) :
    Account owned (x :: lost) (x :: opened) := by
  refine ⟨List.nodup_cons.mpr ⟨hfresh, h.nodup⟩, ?_⟩
  calc x :: opened ~ x :: (owned ++ lost) := h.perm.cons x
    _ ~ owned ++ x :: lost := List.perm_middle.symm

/-- What is open is exactly what is owned when nothing was lost. -/
theorem balanced_iff (h : Account owned lost opened) :
    (∀ x, x ∈ opened ↔ x ∈ owned) ↔ lost = [] := by
  have hnodup : (owned ++ lost).Nodup := h.perm.nodup_iff.mp h.nodup
  constructor
  · intro hsame
    refine List.eq_nil_iff_forall_not_mem.mpr fun x hx => ?_
    have hopened : x ∈ opened := h.perm.mem_iff.mpr (List.mem_append_right _ hx)
    exact (List.nodup_append.mp hnodup).2.2 x ((hsame x).mp hopened) x hx rfl
  · intro hlost x
    rw [h.perm.mem_iff, hlost, List.append_nil]

end Account

theorem Account.release (h : Account (x :: owned) lost opened) :
    Account owned lost (opened.erase x) := by
  refine ⟨h.nodup.erase x, ?_⟩
  calc opened.erase x ~ (x :: owned ++ lost).erase x := h.perm.erase x
    _ = owned ++ lost := by rw [List.cons_append, List.erase_cons_head]

end Handles
