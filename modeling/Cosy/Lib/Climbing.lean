import Mathlib.Data.List.Chain
import Mathlib.Order.Lattice

/-!
# Climbing

A walk that goes from place to place by a relation, and for a limited number of places. It ends before
the limit only in a place where it has to stop.
-/

namespace Climbing

variable {α β : Type} {step : α → α → Prop} {stops : α → Prop} {n : Nat} {x y : α} {l l' : List α}

/-- The places of a walk from `x` that may visit `n` of them. -/
inductive Climb (step : α → α → Prop) (stops : α → Prop) : Nat → α → List α → Prop
  | spent (x : α) : Climb step stops 0 x []
  | stop {n : Nat} {x : α} (hstop : stops x) : Climb step stops (n + 1) x [x]
  | go {n : Nat} {x y : α} {l : List α} (hstep : step x y) (hrest : Climb step stops n y l) :
      Climb step stops (n + 1) x (x :: l)

theorem Climb.head (h : Climb step stops (n + 1) x l) : l.head? = some x := by
  cases h <;> rfl

theorem Climb.length_le (h : Climb step stops n x l) : l.length ≤ n := by
  induction h with
  | spent => exact le_rfl
  | stop => simp
  | go _ _ ih => simpa using ih

/-- Each place leads to the next one. -/
theorem Climb.linked (h : Climb step stops n x l) : l.IsChain step := by
  induction h with
  | spent => exact .nil
  | stop => exact .singleton _
  | go hstep hrest ih =>
      cases hrest with
      | spent => exact .singleton _
      | stop => exact .cons_cons hstep ih
      | go => exact .cons_cons hstep ih

/-- A walk that is shorter than it may be has stopped. -/
theorem Climb.ends (h : Climb step stops n x l) (hshort : l.length < n) :
    ∀ last ∈ l.getLast?, stops last := by
  induction h with
  | spent => exact absurd hshort (lt_irrefl 0)
  | stop hstop => simpa using hstop
  | @go n x y l _ hrest ih =>
      have hshort' : l.length < n := Nat.lt_of_succ_lt_succ hshort
      cases l with
      | nil => cases hrest with
          | spent => exact absurd hshort' (lt_irrefl 0)
      | cons first rest =>
          rw [List.getLast?_cons_cons]
          exact ih hshort'

/-- What rises with every step rises along the walk. -/
theorem Climb.pairwise [Preorder β] {height : α → β} (hup : ∀ x y, step x y → height x < height y)
    (h : Climb step stops n x l) : (l.map height).Pairwise (· < ·) := by
  rw [← List.isChain_iff_pairwise, List.isChain_map]
  exact h.linked.imp hup

/-- There is one walk only, if a place leads to one other at most and none leads on where it stops. -/
theorem Climb.unique (hfun : ∀ x y y', step x y → step x y' → y = y')
    (hstops : ∀ x y, step x y → ¬ stops x) (h : Climb step stops n x l)
    (h' : Climb step stops n x l') : l = l' := by
  induction h generalizing l' with
  | spent =>
      cases h'
      rfl
  | stop hstop =>
      cases h' with
      | stop => rfl
      | go hstep => exact absurd hstop (hstops _ _ hstep)
  | go hstep _ ih =>
      cases h' with
      | stop hstop => exact absurd hstop (hstops _ _ hstep)
      | go hstep' hrest' =>
          obtain rfl := hfun _ _ _ hstep hstep'
          rw [ih hrest']

end Climbing
