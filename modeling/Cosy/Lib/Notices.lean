import Mathlib.Data.List.Basic

/-!
# Notices for whoever is present

A notice is read by the parties that are present when it is posted. The others miss it, and a party
may forget what it has read. A party that comes in may be briefed, which makes up for all it has
missed. No party that is present is behind as long as each of those that come in is briefed or has
missed nothing, and nobody forgets anything while present.
-/

namespace Notices

variable {κ : Type} [DecidableEq κ]

inductive Event (κ : Type) where
  | posted
  | arrived (key : κ) (briefed : Bool)
  | left (key : κ)
  /-- The party has gone for good; another one may come under its name. -/
  | ended (key : κ)
  /-- The party has forgotten all it had read. -/
  | forgotten (key : κ)
deriving DecidableEq

/-- Whether a notice was posted. The newest event comes first, here and below. -/
def posted : List (Event κ) → Bool
  | [] => false
  | event :: older => event = .posted || posted older

def present (key : κ) : List (Event κ) → Bool
  | [] => false
  | .arrived other _ :: older => other = key || present key older
  | .left other :: older | .ended other :: older => other ≠ key && present key older
  | .posted :: older | .forgotten _ :: older => present key older

/-- Whether the party may have missed a notice. -/
def behind (key : κ) : List (Event κ) → Bool
  | [] => false
  | .posted :: older => !present key older || behind key older
  | .arrived other briefed :: older => !(other = key && briefed) && behind key older
  | .left _ :: older => behind key older
  | .ended other :: older | .forgotten other :: older =>
      if other = key then posted older else behind key older

/-- Whoever comes in is briefed or has missed nothing, and whoever is present forgets nothing. -/
def timely : List (Event κ) → Bool
  | [] => true
  | .arrived key briefed :: older => (briefed || !behind key older) && timely older
  | .forgotten key :: older => (!present key older || !posted older) && timely older
  | .posted :: older | .left _ :: older | .ended _ :: older => timely older

variable {key other : κ} {history older : List (Event κ)}

theorem posted_of_behind (hbehind : behind key history = true) : posted history = true := by
  induction history with
  | nil => cases hbehind
  | cons event older ih =>
      rw [posted, Bool.or_eq_true]
      cases event with
      | posted => exact Or.inl (by simp)
      | arrived other briefed =>
          rw [behind, Bool.and_eq_true] at hbehind
          exact Or.inr (ih hbehind.2)
      | left other => exact Or.inr (ih hbehind)
      | ended other | forgotten other =>
          rw [behind] at hbehind
          split at hbehind
          · exact Or.inr hbehind
          · exact Or.inr (ih hbehind)

/-- A party that is present has missed nothing. -/
theorem behind_of_timely (htimely : timely history = true) (hpresent : present key history = true) :
    behind key history = false := by
  induction history with
  | nil => cases hpresent
  | cons event older ih =>
      cases event with
      | posted => simp [behind, show present key older = true from hpresent, ih htimely hpresent]
      | arrived other briefed =>
          rw [timely, Bool.and_eq_true] at htimely
          rw [present, Bool.or_eq_true, decide_eq_true_eq] at hpresent
          rw [behind]
          by_cases heq : other = key
          · subst heq
            cases briefed with
            | true => simp
            | false => simpa using htimely.1
          · simp [ih htimely.2 (hpresent.resolve_left heq)]
      | left other =>
          rw [present, Bool.and_eq_true] at hpresent
          exact ih htimely hpresent.2
      | ended other =>
          rw [present, Bool.and_eq_true, decide_eq_true_eq] at hpresent
          rw [behind, if_neg hpresent.1]
          exact ih htimely hpresent.2
      | forgotten other =>
          rw [timely, Bool.and_eq_true] at htimely
          rw [behind]
          split
          · rename_i heq
            have hother : present other older = true := heq ▸ hpresent
            simpa [hother] using htimely.1
          · exact ih htimely.2 hpresent

/-- A notice is news to those who are away. -/
theorem behind_posted (hbehind : behind key (.posted :: older) = false) :
    present key older = true ∧ behind key older = false := by
  rw [behind, Bool.or_eq_false_iff] at hbehind
  exact ⟨by simpa using hbehind.1, hbehind.2⟩

/-! ### When some have forgotten -/

section Forgotten

variable {newer : List (Event κ)} (hnewer : ∀ event ∈ newer, ∃ other, event = .forgotten other)

include hnewer

theorem posted_append_forgotten : posted (newer ++ older) = posted older := by
  induction newer with
  | nil => rfl
  | cons event rest ih =>
      obtain ⟨other, rfl⟩ := hnewer event List.mem_cons_self
      rw [List.cons_append, posted, ih fun event hmem => hnewer event (List.mem_cons_of_mem _ hmem)]
      rfl

theorem present_append_forgotten : present key (newer ++ older) = present key older := by
  induction newer with
  | nil => rfl
  | cons event rest ih =>
      obtain ⟨other, rfl⟩ := hnewer event List.mem_cons_self
      exact ih fun event hmem => hnewer event (List.mem_cons_of_mem _ hmem)

theorem behind_append_forgotten :
    behind key (newer ++ older)
      = if .forgotten key ∈ newer then posted older else behind key older := by
  induction newer with
  | nil => rfl
  | cons event rest ih =>
      obtain ⟨other, rfl⟩ := hnewer event List.mem_cons_self
      have hrest : ∀ event ∈ rest, ∃ other, event = .forgotten other :=
        fun event hmem => hnewer event (List.mem_cons_of_mem _ hmem)
      rw [List.cons_append, behind, posted_append_forgotten hrest, ih hrest]
      by_cases hother : other = key
      · rw [if_pos hother, if_pos (by rw [hother]; exact List.mem_cons_self)]
      · have hmem : .forgotten key ∈ Event.forgotten other :: rest ↔ .forgotten key ∈ rest := by
          rw [List.mem_cons, Event.forgotten.injEq]
          exact or_iff_right fun heq => hother heq.symm
        rw [if_neg hother, if_congr hmem rfl rfl]

end Forgotten

end Notices
