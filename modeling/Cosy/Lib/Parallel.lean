import Mathlib.Init

/-!
# One program for any monad

A program that is written once, for any monad, can be run in two of them. Whatever relates its
requests in the one to its requests in the other relates the two runs, if it relates results to
themselves and does not mind how runs go on that go on alike.
-/

namespace Parallel

variable {M N : Type → Type}

/-- The relation holds of results, and of runs one after the other. -/
structure Relates [Monad M] [Monad N] (R : (α : Type) → M α → N α → Prop) : Prop where
  result : ∀ {α : Type} (a : α), R α (pure a) (pure a)
  bind : ∀ {α β : Type} {m : M α} {n : N α} {f : α → M β} {g : α → N β}, R α m n →
    (∀ a, R β (f a) (g a)) → R β (m >>= f) (n >>= g)

/-- What holds of results, and of runs one after the other, holds of runs that are the same. -/
theorem Relates.of_closed [Monad M] {P : (α : Type) → M α → Prop}
    (hresult : ∀ {α : Type} (a : α), P α (pure a))
    (hbind : ∀ {α β : Type} {m : M α} {f : α → M β}, P α m → (∀ a, P β (f a)) → P β (m >>= f)) :
    Relates (M := M) (N := M) fun α m n => m = n ∧ P α m where
  result a := ⟨rfl, hresult a⟩
  bind := by
    rintro α β m n f g ⟨rfl, hm⟩ hf
    obtain rfl : f = g := funext fun a => (hf a).1
    exact ⟨rfl, hbind hm fun a => (hf a).2⟩

theorem related_ite {R : (α : Type) → M α → N α → Prop} {α : Type} {c : Prop} [Decidable c]
    {m m' : M α} {n n' : N α} (hthen : R α m n) (helse : R α m' n') :
    R α (if c then m else m') (if c then n else n') := by
  split
  · exact hthen
  · exact helse

end Parallel
