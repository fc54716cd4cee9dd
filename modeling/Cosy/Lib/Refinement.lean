import Mathlib.Tactic.Common

/-!
# Runs that follow a specification

A system takes its inputs one after the other, and may stop for good at any of them. A specification
says what an input may make of a state of its own. The two are compared by a relation between their
states: what holds of one input then holds of all of them together.
-/

namespace Refinement

variable {ι σ α : Type*}

/-- The state after these inputs, unless the system stops at one of them. -/
def feed (step : ι → σ → Option σ) : σ → List ι → Option σ
  | s, [] => some s
  | s, input :: rest => (step input s).bind fun t => feed step t rest

/-- What these inputs may make of a state of the specification. -/
inductive Obeys (allows : ι → α → α → Prop) : α → List ι → α → Prop
  | nil (a : α) : Obeys allows a [] a
  | cons {a b c : α} {input : ι} {rest : List ι} (hfirst : allows input a b)
      (hrest : Obeys allows b rest c) : Obeys allows a (input :: rest) c

section Obeys

variable {allows allows' : ι → α → α → Prop} {a b : α} {inputs : List ι}

theorem Obeys.single {input : ι} (hfirst : allows input a b) : Obeys allows a [input] b :=
  .cons hfirst (.nil b)

/-- What every input of a run preserves, the run preserves. -/
theorem Obeys.preserve {I : α → Prop} (hrun : Obeys allows a inputs b)
    (hstep : ∀ input ∈ inputs, ∀ a b, allows input a b → I a → I b) (ha : I a) : I b := by
  induction hrun with
  | nil => exact ha
  | cons hfirst _ ih =>
      apply ih
      · exact fun input hmem => hstep input (List.mem_cons_of_mem _ hmem)
      · exact hstep _ List.mem_cons_self _ _ hfirst ha

/-- Every input of a run may be allowed more. -/
theorem Obeys.mono (hrun : Obeys allows a inputs b)
    (hmore : ∀ input a b, allows input a b → allows' input a b) : Obeys allows' a inputs b := by
  induction hrun with
  | nil => exact .nil _
  | cons hfirst _ ih => exact .cons (hmore _ _ _ hfirst) ih

/-- Where every input allows one outcome at most, so do all of them together. -/
theorem Obeys.unique {c : α} (hdet : ∀ input a b c, allows input a b → allows input a c → b = c)
    (hrun : Obeys allows a inputs b) (hrun' : Obeys allows a inputs c) : b = c := by
  induction hrun with
  | nil =>
      cases hrun'
      rfl
  | cons hfirst _ ih =>
      cases hrun' with
      | cons hfirst' hrest' =>
          obtain rfl := hdet _ _ _ _ hfirst hfirst'
          exact ih hrest'

end Obeys

section Refinement

variable {step : ι → σ → Option σ} {allows : ι → α → α → Prop} {related : α → σ → Prop}
  {p : ι → Prop} {inputs : List ι} {a : α} {s : σ}

/-- If the system does with every input what the specification allows, it does so with all of
them. -/
theorem feed_sound
    (hstep : ∀ input a s t, p input → related a s → step input s = some t →
      ∃ b, allows input a b ∧ related b t)
    (hinputs : ∀ input ∈ inputs, p input) (hs : related a s) {t : σ}
    (hrun : feed step s inputs = some t) : ∃ b, Obeys allows a inputs b ∧ related b t := by
  induction inputs generalizing a s with
  | nil =>
      obtain rfl := Option.some.inj hrun
      exact ⟨a, .nil a, hs⟩
  | cons input rest ih =>
      obtain ⟨u, hfirst, hrest⟩ := Option.bind_eq_some_iff.mp hrun
      obtain ⟨b, hallowed, hu⟩ := hstep input a s u (hinputs input List.mem_cons_self) hs hfirst
      obtain ⟨c, hobeys, ht⟩ :=
        ih (fun input hmem => hinputs input (List.mem_cons_of_mem _ hmem)) hu hrest
      exact ⟨c, .cons hallowed hobeys, ht⟩

/-- If the system does not stop at an input that the specification allows, it comes to the end of a
run of it. -/
theorem feed_complete
    (hstep : ∀ input a b s, p input → related a s → allows input a b →
      ∃ t, step input s = some t ∧ related b t)
    (hinputs : ∀ input ∈ inputs, p input) {b : α} (hrun : Obeys allows a inputs b)
    (hs : related a s) : ∃ t, feed step s inputs = some t ∧ related b t := by
  induction hrun generalizing s with
  | nil => exact ⟨s, rfl, hs⟩
  | cons hfirst _ ih =>
      obtain ⟨u, hu, hrelated⟩ := hstep _ _ _ s (hinputs _ List.mem_cons_self) hs hfirst
      obtain ⟨t, ht, hend⟩ :=
        ih (fun input hmem => hinputs input (List.mem_cons_of_mem _ hmem)) hrelated
      refine ⟨t, ?_, hend⟩
      rw [feed, hu]
      exact ht

end Refinement

end Refinement
