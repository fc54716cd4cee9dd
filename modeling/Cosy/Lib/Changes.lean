import Mathlib.Data.List.Basic
import Mathlib.Tactic.Common

/-!
# Changes made one after another until one is refused

A list of changes, each addressed to a key, is carried out in order; whether the next one is granted
depends on the key and on how many went before. What has been granted when one is refused stays
done.
-/

namespace Changes

variable {κ δ : Type} {grants : Nat → κ → Bool}

/-- The changes that are carried out, the first of them being number `n`. -/
def granted (grants : Nat → κ → Bool) : Nat → List (κ × (δ → δ)) → List (κ × (δ → δ))
  | _, [] => []
  | n, change :: rest => if grants n change.1 then change :: granted grants (n + 1) rest else []

theorem granted_cons {n : Nat} {change : κ × (δ → δ)} {rest : List (κ × (δ → δ))}
    (hgrants : grants n change.1 = true) :
    granted grants n (change :: rest) = change :: granted grants (n + 1) rest := if_pos hgrants

theorem granted_cons_of_refused {n : Nat} {change : κ × (δ → δ)} {rest : List (κ × (δ → δ))}
    (hrefused : ¬ grants n change.1 = true) : granted grants n (change :: rest) = [] :=
  if_neg hrefused

theorem granted_append {n : Nat} {changes : List (κ × (δ → δ))} (rest : List (κ × (δ → δ)))
    (hall : granted grants n changes = changes) :
    granted grants n (changes ++ rest)
      = changes ++ granted grants (n + changes.length) rest := by
  induction changes generalizing n with
  | nil => rfl
  | cons change later ih =>
      by_cases hgrants : grants n change.1 = true
      · rw [granted_cons hgrants] at hall
        rw [List.cons_append, granted_cons hgrants, ih (List.cons.inj hall).2, List.cons_append,
          List.length_cons, Nat.add_right_comm, Nat.add_assoc]
      · rw [granted_cons_of_refused hgrants] at hall
        cases hall

/-- What comes after a refusal does not matter. -/
theorem granted_append_of_refused {n : Nat} {changes : List (κ × (δ → δ))}
    (rest : List (κ × (δ → δ))) (hrefused : granted grants n changes ≠ changes) :
    granted grants n (changes ++ rest) = granted grants n changes := by
  induction changes generalizing n with
  | nil => exact absurd rfl hrefused
  | cons change later ih =>
      by_cases hgrants : grants n change.1 = true
      · rw [granted_cons hgrants] at hrefused
        rw [List.cons_append, granted_cons hgrants, granted_cons hgrants, ih fun hall => hrefused
          (congrArg (change :: ·) hall)]
      · rw [List.cons_append, granted_cons_of_refused hgrants, granted_cons_of_refused hgrants]

theorem granted_length_le (n : Nat) (changes : List (κ × (δ → δ))) :
    (granted grants n changes).length ≤ changes.length := by
  induction changes generalizing n with
  | nil => exact Nat.le_refl 0
  | cons change rest ih =>
      rw [granted]
      split
      · exact Nat.succ_le_succ (ih (n + 1))
      · exact Nat.zero_le _

theorem granted_ne_append {n : Nat} {changes : List (κ × (δ → δ))} (rest : List (κ × (δ → δ)))
    (hrefused : granted grants n changes ≠ changes) :
    granted grants n changes ≠ changes ++ rest := by
  intro heq
  have hle := @granted_length_le _ _ grants n changes
  rw [heq, List.length_append] at hle
  have hnil : rest = [] := List.eq_nil_of_length_eq_zero (by omega)
  exact hrefused (by rw [heq, hnil, List.append_nil])

/-- What is carried out was asked for, and granted. -/
theorem of_mem_granted {n : Nat} {changes : List (κ × (δ → δ))} {change : κ × (δ → δ)}
    (hmem : change ∈ granted grants n changes) : change ∈ changes ∧ ∃ m, grants m change.1 = true := by
  induction changes generalizing n with
  | nil => cases hmem
  | cons first rest ih =>
      by_cases hgrants : grants n first.1 = true
      · rw [granted_cons hgrants] at hmem
        rcases List.mem_cons.mp hmem with rfl | hlater
        · exact ⟨List.mem_cons_self, n, hgrants⟩
        · exact ⟨List.mem_cons_of_mem _ (ih hlater).1, (ih hlater).2⟩
      · rw [granted_cons_of_refused hgrants] at hmem
        cases hmem

variable [DecidableEq κ]

/-- What the changes make of the value of a key. -/
def applied (changes : List (κ × (δ → δ))) (key : κ) (value : δ) : δ :=
  changes.foldl (fun value change => if change.1 = key then change.2 value else value) value

@[simp]
theorem applied_nil (key : κ) (value : δ) :
    applied ([] : List (κ × (δ → δ))) key value = value := rfl

theorem applied_append (changes later : List (κ × (δ → δ))) (key : κ) (value : δ) :
    applied (changes ++ later) key value = applied later key (applied changes key value) :=
  List.foldl_append

theorem applied_concat (changes : List (κ × (δ → δ))) (last : κ × (δ → δ)) (key : κ) (value : δ) :
    applied (changes ++ [last]) key value
      = if last.1 = key then last.2 (applied changes key value) else applied changes key value :=
  applied_append changes [last] key value

theorem applied_of_notMem {changes : List (κ × (δ → δ))} {key : κ}
    (hkey : ∀ change ∈ changes, change.1 ≠ key) (value : δ) :
    applied changes key value = value := by
  induction changes with
  | nil => rfl
  | cons change rest ih =>
      rw [applied, List.foldl_cons, if_neg (hkey change List.mem_cons_self)]
      exact ih fun other hmem => hkey other (List.mem_cons_of_mem _ hmem)

end Changes
