import Mathlib.Data.List.Induction
import Mathlib.Order.Lattice

/-!
# The first of the greatest

One pass over a list that keeps the greatest element so far of those that qualify, and gives it up only
for one that is strictly greater, ends with the first of the greatest ones.
-/

namespace FirstGreatest

variable {α β : Type} [LinearOrder β] {p : α → Prop} {f : α → β} {l : List α} {x : α}

/-- One round: `x` replaces the best so far if it qualifies and is greater. -/
def better (p : α → Prop) [DecidablePred p] (f : α → β) (best : Option α) (x : α) : Option α :=
  if p x ∧ best.all (fun y => f y < f x) then some x else best

/-- `x` is the first of the greatest among those that qualify. -/
structure IsFirst (p : α → Prop) (f : α → β) (l : List α) (x : α) : Prop where
  qualifies : p x
  split : ∃ before after, l = before ++ x :: after ∧ (∀ y ∈ before, p y → f y < f x) ∧
    ∀ y ∈ after, p y → f y ≤ f x

theorem IsFirst.mem (hx : IsFirst p f l x) : x ∈ l := by
  obtain ⟨before, after, rfl, -, -⟩ := hx.split
  simp

theorem IsFirst.le (hx : IsFirst p f l x) {y : α} (hy : y ∈ l) (hqualifies : p y) : f y ≤ f x := by
  obtain ⟨before, after, rfl, hbefore, hafter⟩ := hx.split
  rcases List.mem_append.mp hy with hy | hy
  · exact le_of_lt (hbefore y hy hqualifies)
  rcases List.mem_cons.mp hy with rfl | hy
  · exact le_rfl
  · exact hafter y hy hqualifies

variable [DecidablePred p]

/-- The pass finds nothing if nothing qualifies, and otherwise the first of the greatest. -/
theorem foldl_better (l : List α) :
    match l.foldl (better p f) none with
    | none => ∀ x ∈ l, ¬ p x
    | some x => IsFirst p f l x := by
  induction l using List.reverseRecOn with
  | nil => simp
  | append_singleton l last ih =>
      rw [List.foldl_append, List.foldl_cons, List.foldl_nil]
      cases hbest : l.foldl (better p f) none with
      | none =>
          rw [hbest] at ih
          by_cases hlast : p last
          · simp only [better, hlast, Option.all_none, and_self, if_true]
            exact ⟨hlast, l, [], rfl, fun y hy hqualifies => absurd hqualifies (ih y hy), by simp⟩
          · simp only [better, hlast, false_and, if_false]
            intro x hx
            rcases List.mem_append.mp hx with hx | hx
            · exact ih x hx
            · rwa [List.mem_singleton.mp hx]
      | some best =>
          rw [hbest] at ih
          by_cases hlast : p last ∧ f best < f last
          · simp only [better, Option.all_some, decide_eq_true_eq, hlast, and_self, if_true]
            refine ⟨hlast.1, l, [], rfl, fun y hy hqualifies => ?_, by simp⟩
            exact lt_of_le_of_lt (ih.le hy hqualifies) hlast.2
          · simp only [better, Option.all_some, decide_eq_true_eq, hlast, if_false]
            obtain ⟨before, after, rfl, hbefore, hafter⟩ := ih.split
            refine ⟨ih.qualifies, before, after ++ [last], by simp, hbefore, fun y hy hqualifies => ?_⟩
            rcases List.mem_append.mp hy with hy | hy
            · exact hafter y hy hqualifies
            · obtain rfl := List.mem_singleton.mp hy
              exact not_lt.mp fun hlt => hlast ⟨hqualifies, hlt⟩

theorem foldl_better_eq_none_iff : l.foldl (better p f) none = none ↔ ∀ x ∈ l, ¬ p x := by
  have hspec := foldl_better (p := p) (f := f) l
  constructor
  · intro hnone
    rwa [hnone] at hspec
  · intro hall
    cases hfound : l.foldl (better p f) none with
    | none => rfl
    | some x =>
        rw [hfound] at hspec
        exact absurd hspec.qualifies (hall x hspec.mem)

theorem isFirst_of_foldl (hfound : l.foldl (better p f) none = some x) : IsFirst p f l x := by
  have hspec := foldl_better (p := p) (f := f) l
  rwa [hfound] at hspec

end FirstGreatest
