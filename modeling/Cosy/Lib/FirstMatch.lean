import Mathlib.Data.List.Perm.Basic
import Mathlib.Tactic.Common

/-!
# The first match in any order

A search that takes the first answer it finds depends on the order of the candidates, unless all of
those that have an answer have the same one.
-/

namespace FirstMatch

open scoped List

variable {α β γ : Type} {l : List α} {f : α → Option β} {x : β}

theorem findSome?_filterMap (g : γ → Option α) (xs : List γ) :
    (xs.filterMap g).findSome? f = xs.findSome? fun c => (g c).bind f := by
  induction xs with
  | nil => rfl
  | cons c rest ih =>
      rw [List.filterMap_cons, List.findSome?_cons]
      cases g c with
      | none => exact ih
      | some a =>
          rw [List.findSome?_cons, Option.bind_some]
          cases f a with
          | none => exact ih
          | some x => rfl

/-- Some order begins with any given candidate. -/
theorem exists_perm_findSome? [DecidableEq α] {a : α} (ha : a ∈ l) (hx : x ∈ f a) :
    ∃ l', l' ~ l ∧ l'.findSome? f = some x := by
  refine ⟨a :: l.erase a, (List.perm_cons_erase ha).symm, ?_⟩
  rw [List.findSome?_cons, Option.mem_def.mp hx]

theorem mem_of_findSome? (hfound : l.findSome? f = some x) : ∃ a ∈ l, x ∈ f a :=
  List.exists_of_findSome?_eq_some hfound

theorem findSome?_of_agree (hsome : ∃ a ∈ l, (f a).isSome) (hagree : ∀ a ∈ l, ∀ y ∈ f a, y = x) :
    l.findSome? f = some x := by
  have hfound : (l.findSome? f).isSome := by
    obtain ⟨a, ha, hsome⟩ := hsome
    exact List.findSome?_isSome_iff.mpr ⟨a, ha, hsome⟩
  obtain ⟨y, hy⟩ := Option.isSome_iff_exists.mp hfound
  obtain ⟨a, ha, hya⟩ := mem_of_findSome? hy
  rw [hy, hagree a ha y hya]

/-- One answer in every order: some candidate has it, and none has another. -/
theorem findSome?_eq_some_iff_forall_perm [DecidableEq α] :
    (∀ l', l' ~ l → l'.findSome? f = some x) ↔
      (∃ a ∈ l, (f a).isSome) ∧ ∀ a ∈ l, ∀ y ∈ f a, y = x := by
  constructor
  · intro hall
    constructor
    · obtain ⟨a, ha, hx⟩ := mem_of_findSome? (hall l (List.Perm.refl l))
      exact ⟨a, ha, Option.isSome_iff_exists.mpr ⟨x, hx⟩⟩
    · intro a ha y hy
      obtain ⟨l', hperm, hfound⟩ := exists_perm_findSome? ha hy
      exact Option.some.inj (hfound.symm.trans (hall l' hperm))
  · rintro ⟨⟨a, ha, hsome⟩, hagree⟩ l' hperm
    exact findSome?_of_agree ⟨a, hperm.mem_iff.mpr ha, hsome⟩
      fun b hb => hagree b (hperm.mem_iff.mp hb)

/-- The same answer in any two orders: all the candidates that have one agree. -/
theorem findSome?_independent_iff [DecidableEq α] :
    (∀ l₁ l₂, l₁ ~ l → l₂ ~ l → l₁.findSome? f = l₂.findSome? f) ↔
      ∀ a ∈ l, ∀ b ∈ l, ∀ x ∈ f a, ∀ y ∈ f b, x = y := by
  constructor
  · intro hsame a ha b hb x hx y hy
    obtain ⟨l₁, hperm₁, hfound₁⟩ := exists_perm_findSome? ha hx
    obtain ⟨l₂, hperm₂, hfound₂⟩ := exists_perm_findSome? hb hy
    exact Option.some.inj (hfound₁.symm.trans ((hsame l₁ l₂ hperm₁ hperm₂).trans hfound₂))
  · intro hagree l₁ l₂ hperm₁ hperm₂
    cases hfound : l₁.findSome? f with
    | none =>
        have hnone := List.findSome?_eq_none_iff.mp hfound
        refine (List.findSome?_eq_none_iff.mpr fun a ha => hnone a ?_).symm
        exact hperm₁.mem_iff.mpr (hperm₂.mem_iff.mp ha)
    | some x =>
        obtain ⟨a, ha, hx⟩ := mem_of_findSome? hfound
        have hmem := hperm₁.mem_iff.mp ha
        refine (findSome?_of_agree ⟨a, hperm₂.mem_iff.mpr hmem, ?_⟩ fun b hb y hy => ?_).symm
        · exact Option.isSome_iff_exists.mpr ⟨x, hx⟩
        · exact hagree b (hperm₂.mem_iff.mp hb) a hmem y hy x hx

end FirstMatch
