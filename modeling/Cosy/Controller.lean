import Mathlib.Logic.Function.Basic
import Cosy.Lib.Refinement

/-!
# What a debugger of one thread is for

Left to itself a thread goes through places, one after another. A controller lets it go on until it
comes to a place that is marked, or takes it a step further, and otherwise changes the marks. Where
the thread is, and what it has been stopped for, is all there is to know about it; no traps, no
memory and no registers are mentioned.
-/

namespace Cosy

open Refinement

/-- A mark has a number, and may be off. -/
structure Mark where
  id : Int
  on : Bool
deriving DecidableEq

structure Controller (Place : Type) where
  /-- How many steps the thread has taken. -/
  position : Nat
  marks : Place → Option Mark
  /-- The number of the next mark. -/
  nextId : Int
  /-- The marks the thread has been stopped for, the last one first. -/
  hits : List (Int × Place)

/-- What may be asked of a controller. -/
inductive Directive (Place : Type) where
  | mark (place : Place)
  | remove (id : Int)
  | switch (id : Int) (on : Bool)
  /-- Go on to the next mark. -/
  | goOn
  /-- Take a step. -/
  | step
  /-- Have a look. -/
  | look
deriving DecidableEq

namespace Controller

variable {Place : Type}

/-- At the beginning nothing is marked. -/
def fresh (Place : Type) : Controller Place where
  position := 0
  marks _ := none
  nextId := 1
  hits := []

/-- Whether a place is marked by a mark that is on. -/
def armed (c : Controller Place) (place : Place) : Bool := (c.marks place).any Mark.on

/-- A place is marked once; the mark is on. -/
def mark [DecidableEq Place] (c : Controller Place) (place : Place) : Controller Place :=
  if (c.marks place).isSome then c
  else
    { c with
      marks := Function.update c.marks place (some ⟨c.nextId, true⟩)
      nextId := c.nextId + 1 }

def remove (c : Controller Place) (id : Int) : Controller Place :=
  { c with marks := fun place => (c.marks place).filter fun mark => mark.id ≠ id }

def switch (c : Controller Place) (id : Int) (on : Bool) : Controller Place :=
  { c with
    marks := fun place => (c.marks place).map fun mark =>
      if mark.id = id then { mark with on := on } else mark }

/-- The thread is stopped for a mark after `n` steps. -/
def stopFor (c : Controller Place) (path : Nat → Place) (n : Nat) (mark : Mark) :
    Controller Place :=
  { c with
    position := n
    hits := (mark.id, path n) :: c.hits }

/-- The first step the thread takes with the marks looked at: from a mark that is on it is let go
before. -/
def past (c : Controller Place) (path : Nat → Place) : Nat :=
  if c.armed (path c.position) then c.position + 1 else c.position

/-- A step. From a mark that is on, the thread is stopped for the mark at the next place, if there is
one that is on, and takes another step if not. -/
def stepped (c : Controller Place) (path : Nat → Place) : Controller Place :=
  match (c.marks (path (c.past path))).filter Mark.on with
  | some mark => c.stopFor path (c.past path) mark
  | none => { c with position := c.past path + 1 }

/-- What an order may make of a controller of a thread with this path. -/
def Allows [DecidableEq Place] (path : Nat → Place) :
    Directive Place → Controller Place → Controller Place → Prop
  | .mark place, c, c' => c' = c.mark place
  | .remove id, c, c' => c' = c.remove id
  | .switch id on, c, c' => c' = c.switch id on
  | .goOn, c, c' => ∃ n mark, c.position < n ∧
      (∀ m, c.position < m → m < n → c.armed (path m) = false) ∧
      c.marks (path n) = some mark ∧ mark.on = true ∧ c' = c.stopFor path n mark
  | .step, c, c' => c' = c.stepped path
  | .look, c, c' => c' = c

/-! ### Marks that are well formed -/

/-- The marks are on places that may be marked, and no two of them have the same number, nor one the
number of the next. -/
structure Formed (spots : Set Place) (c : Controller Place) : Prop where
  placed : ∀ place mark, c.marks place = some mark → place ∈ spots
  numbered : ∀ place mark, c.marks place = some mark → mark.id < c.nextId
  unique : ∀ place place' mark mark', c.marks place = some mark → c.marks place' = some mark' →
    mark.id = mark'.id → place = place'

variable {spots : Set Place} {c c' : Controller Place} {path : Nat → Place}

theorem Formed.fresh : (Controller.fresh Place).Formed spots where
  placed _ _ hmark := by cases hmark
  numbered _ _ hmark := by cases hmark
  unique _ _ _ _ hmark := by cases hmark

/-- It is enough that every mark there is has been there, with the same number. -/
theorem Formed.of_marks (hc : c.Formed spots) (hnextId : c'.nextId = c.nextId)
    (hmarks : ∀ place mark, c'.marks place = some mark →
      ∃ old, c.marks place = some old ∧ old.id = mark.id) : c'.Formed spots where
  placed place mark hmark := by
    obtain ⟨old, hold, -⟩ := hmarks place mark hmark
    exact hc.placed place old hold
  numbered place mark hmark := by
    obtain ⟨old, hold, hid⟩ := hmarks place mark hmark
    rw [hnextId, ← hid]
    exact hc.numbered place old hold
  unique place place' mark mark' hmark hmark' heq := by
    obtain ⟨old, hold, hid⟩ := hmarks place mark hmark
    obtain ⟨old', hold', hid'⟩ := hmarks place' mark' hmark'
    exact hc.unique place place' old old' hold hold' ((hid.trans heq).trans hid'.symm)

theorem Formed.of_eq (hc : c.Formed spots) (hnextId : c'.nextId = c.nextId)
    (hmarks : c'.marks = c.marks) : c'.Formed spots :=
  hc.of_marks hnextId fun _ mark hmark => ⟨mark, hmarks ▸ hmark, rfl⟩

theorem Formed.mark [DecidableEq Place] (hc : c.Formed spots) {place : Place}
    (hplace : place ∈ spots) : (c.mark place).Formed spots := by
  unfold Controller.mark
  split
  · exact hc
  · -- A mark is the new one, or it is an old one with a smaller number.
    have hcases : ∀ other mark,
        Function.update c.marks place (some ⟨c.nextId, true⟩) other = some mark →
          other = place ∧ mark.id = c.nextId ∨ c.marks other = some mark := by
      intro other mark hmark
      by_cases hother : other = place
      · subst hother
        rw [Function.update_self] at hmark
        obtain rfl := Option.some.inj hmark
        exact Or.inl ⟨rfl, rfl⟩
      · rw [Function.update_of_ne hother] at hmark
        exact Or.inr hmark
    refine ⟨fun other mark hmark => ?_, fun other mark hmark => ?_,
      fun other other' mark mark' hmark hmark' heq => ?_⟩
    · rcases hcases other mark hmark with ⟨rfl, -⟩ | hold
      · exact hplace
      · exact hc.placed other mark hold
    · rcases hcases other mark hmark with ⟨-, hid⟩ | hold
      · exact hid ▸ Int.lt_succ _
      · have hlt := hc.numbered other mark hold
        dsimp only
        omega
    · rcases hcases other mark hmark with ⟨rfl, hid⟩ | hold
      · rcases hcases other' mark' hmark' with ⟨rfl, -⟩ | hold'
        · rfl
        · have hlt := hc.numbered other' mark' hold'
          omega
      · rcases hcases other' mark' hmark' with ⟨rfl, hid'⟩ | hold'
        · have hlt := hc.numbered other mark hold
          omega
        · exact hc.unique other other' mark mark' hold hold' heq

theorem Formed.remove (hc : c.Formed spots) (id : Int) : (c.remove id).Formed spots :=
  hc.of_marks rfl fun _ mark hmark => ⟨mark, (Option.filter_eq_some_iff.mp hmark).1, rfl⟩

theorem Formed.switch (hc : c.Formed spots) (id : Int) (on : Bool) :
    (c.switch id on).Formed spots := by
  refine hc.of_marks rfl fun place mark hmark => ?_
  obtain ⟨old, hold, rfl⟩ := Option.map_eq_some_iff.mp hmark
  refine ⟨old, hold, ?_⟩
  split <;> rfl

theorem stepped_marks (c : Controller Place) (path : Nat → Place) :
    (c.stepped path).marks = c.marks ∧ (c.stepped path).nextId = c.nextId := by
  unfold stepped
  split <;> exact ⟨rfl, rfl⟩

section Allows

variable [DecidableEq Place] {order : Directive Place}

/-- What is asked for keeps the marks well formed, as long as no other place is to be marked. -/
theorem Allows.formed (hallowed : Allows path order c c')
    (hplaces : ∀ place, order = .mark place → place ∈ spots) (hc : c.Formed spots) :
    c'.Formed spots := by
  cases order with
  | mark place => exact hallowed ▸ hc.mark (hplaces place rfl)
  | remove id => exact hallowed ▸ hc.remove id
  | switch id on => exact hallowed ▸ hc.switch id on
  | goOn =>
      obtain ⟨n, mark, -, -, -, -, rfl⟩ := hallowed
      exact hc.of_eq rfl rfl
  | step => exact hallowed ▸ hc.of_eq (c.stepped_marks path).2 (c.stepped_marks path).1
  | look => exact hallowed ▸ hc

/-- The thread never goes back. -/
theorem Allows.position_le (hallowed : Allows path order c c') : c.position ≤ c'.position := by
  have hpast : c.position ≤ c.past path := by
    unfold past
    split <;> omega
  cases order with
  | mark place =>
      rw [hallowed, mark]
      split <;> exact Nat.le_refl _
  | remove id => exact hallowed ▸ Nat.le_refl _
  | switch id on => exact hallowed ▸ Nat.le_refl _
  | goOn =>
      obtain ⟨n, mark, hlater, -, -, -, rfl⟩ := hallowed
      exact Nat.le_of_lt hlater
  | step =>
      rw [hallowed, stepped]
      split
      · exact hpast
      · exact Nat.le_succ_of_le hpast
  | look => exact hallowed ▸ Nat.le_refl _

/-- There is one way to do what is asked for, at most. -/
theorem Allows.unique {c'' : Controller Place} (hallowed : Allows path order c c')
    (hallowed' : Allows path order c c'') : c' = c'' := by
  cases order with
  | goOn =>
      obtain ⟨n, mark, hlater, hclear, hmark, hon, rfl⟩ := hallowed
      obtain ⟨n', mark', hlater', hclear', hmark', hon', rfl⟩ := hallowed'
      have harmed : c.armed (path n) = true := by rw [armed, hmark, Option.any_some, hon]
      have harmed' : c.armed (path n') = true := by rw [armed, hmark', Option.any_some, hon']
      have hle : ¬ n' < n := by
        intro hlt
        rw [hclear n' hlater' hlt] at harmed'
        cases harmed'
      have hge : ¬ n < n' := by
        intro hlt
        rw [hclear' n hlater hlt] at harmed
        cases harmed
      obtain rfl : n = n' := by omega
      obtain rfl := Option.some.inj (hmark.symm.trans hmark')
      rfl
  | mark place => exact hallowed.trans hallowed'.symm
  | remove id => exact hallowed.trans hallowed'.symm
  | switch id on => exact hallowed.trans hallowed'.symm
  | step => exact hallowed.trans hallowed'.symm
  | look => exact hallowed.trans hallowed'.symm

end Allows

end Controller

end Cosy
