import Mathlib.Order.Defs.Unbundled
import Mathlib.Logic.Relation
import Mathlib.Tactic.Common

/-!
# Programs that change a state and may throw

`EStateM ε σ` keeps the state when a program throws: whatever was done before the exception stays
done. Two judgements are used about such programs. `Within R m` says that `m` moves the state only
along the preorder `R`, however it ends; an invariant is the case `R = Keeps I`. `Triple P m Q E`
is the usual triple with one postcondition for a return and one for an exception.
-/

namespace Effect

variable {ε κ σ α β : Type}

/-- The state a run ends in, whether it returns or throws. -/
def endState (m : EStateM ε σ α) (s : σ) : σ :=
  match m s with
  | .ok _ t => t
  | .error _ t => t

/-- Run `m`; an exception that `select` recognises goes to `handler`, any other goes on. -/
def rescue (select : ε → Option κ) (m : EStateM ε σ α) (handler : κ → EStateM ε σ α) :
    EStateM ε σ α := fun s =>
  match m s with
  | .ok a t => .ok a t
  | .error e t =>
      match select e with
      | some k => handler k t
      | none => .error e t

/-- Run `m`; if it throws, change the state by `cleanup` before the exception goes on. -/
def onThrow (m : EStateM ε σ α) (cleanup : ε → σ → σ) : EStateM ε σ α := fun s =>
  match m s with
  | .ok a t => .ok a t
  | .error e t => .error e (cleanup e t)

theorem of_onThrow_ok {m : EStateM ε σ α} {cleanup : ε → σ → σ} {s t : σ} {a : α}
    (hrun : onThrow m cleanup s = .ok a t) : m s = .ok a t := by
  unfold onThrow at hrun
  cases hm : m s with
  | ok a t => rwa [hm] at hrun
  | error e t =>
      rw [hm] at hrun
      cases hrun

/-- `if (c) m` as a statement. -/
def doIf (c : Prop) [Decidable c] (m : EStateM ε σ PUnit) : EStateM ε σ PUnit :=
  if c then m else pure ⟨⟩

/-! ### Running the primitives -/

theorem bind_apply (m : EStateM ε σ α) (f : α → EStateM ε σ β) (s : σ) :
    (m >>= f) s = match m s with
      | .ok a t => f a t
      | .error e t => .error e t := rfl

theorem bind_ok {m : EStateM ε σ α} {f : α → EStateM ε σ β} {s t : σ} {a : α}
    (hm : m s = .ok a t) : (m >>= f) s = f a t := by
  rw [bind_apply, hm]

theorem bind_error {m : EStateM ε σ α} {f : α → EStateM ε σ β} {s t : σ} {e : ε}
    (hm : m s = .error e t) : (m >>= f) s = .error e t := by
  rw [bind_apply, hm]

theorem of_bind_ok {m : EStateM ε σ α} {f : α → EStateM ε σ β} {s u : σ} {b : β}
    (hrun : (m >>= f) s = .ok b u) : ∃ a t, m s = .ok a t ∧ f a t = .ok b u := by
  rw [bind_apply] at hrun
  cases hm : m s with
  | ok a t => exact ⟨a, t, rfl, by rwa [hm] at hrun⟩
  | error e t =>
      rw [hm] at hrun
      cases hrun

/-- Two programs that agree wherever the first part may end. -/
theorem bind_congr_of_ok {m : EStateM ε σ α} {f g : α → EStateM ε σ β} {s : σ}
    (hfg : ∀ a t, m s = .ok a t → f a t = g a t) : (m >>= f) s = (m >>= g) s := by
  rw [bind_apply, bind_apply]
  cases hm : m s with
  | ok a t => exact hfg a t hm
  | error e t => rfl

@[simp]
theorem get_bind_apply (f : σ → EStateM ε σ β) (s : σ) :
    ((get : EStateM ε σ σ) >>= f) s = f s s := rfl

@[simp]
theorem modify_bind_apply (change : σ → σ) (f : PUnit → EStateM ε σ β) (s : σ) :
    ((modify change : EStateM ε σ PUnit) >>= f) s = f ⟨⟩ (change s) := rfl

@[simp]
theorem pure_bind_apply (a : α) (f : α → EStateM ε σ β) (s : σ) :
    ((pure a : EStateM ε σ α) >>= f) s = f a s := rfl

@[simp]
theorem pure_apply (a : α) (s : σ) : (pure a : EStateM ε σ α) s = .ok a s := rfl

@[simp]
theorem get_apply (s : σ) : (get : EStateM ε σ σ) s = .ok s s := rfl

@[simp]
theorem modify_apply (change : σ → σ) (s : σ) :
    (modify change : EStateM ε σ PUnit) s = .ok ⟨⟩ (change s) := rfl

@[simp]
theorem throw_apply (e : ε) (s : σ) : (throw e : EStateM ε σ α) s = .error e s := rfl

theorem endState_of_ok {m : EStateM ε σ α} {s t : σ} {a : α} (hm : m s = .ok a t) :
    endState m s = t := by
  rw [endState, hm]

theorem endState_of_error {m : EStateM ε σ α} {s t : σ} {e : ε} (hm : m s = .error e t) :
    endState m s = t := by
  rw [endState, hm]

theorem endState_bind_ok {m : EStateM ε σ α} {f : α → EStateM ε σ β} {s t : σ} {a : α}
    (hm : m s = .ok a t) : endState (m >>= f) s = endState (f a) t := by
  rw [endState, endState, bind_ok hm]

theorem endState_bind_error {m : EStateM ε σ α} {f : α → EStateM ε σ β} {s t : σ} {e : ε}
    (hm : m s = .error e t) : endState (m >>= f) s = t := by
  rw [endState, bind_error hm]

/-! ### Staying within a relation -/

/-- From `s`, `m` ends in a state that `R` relates to `s`. -/
def WithinAt (R : σ → σ → Prop) (m : EStateM ε σ α) (s : σ) : Prop := R s (endState m s)

/-- `m` moves the state only along `R`. -/
def Within (R : σ → σ → Prop) (m : EStateM ε σ α) : Prop := ∀ s, WithinAt R m s

/-- The relation a program stays within when it keeps the invariant `I`. -/
def Keeps (I : σ → Prop) (s t : σ) : Prop := I s → I t

instance (I : σ → Prop) : IsPreorder σ (Keeps I) where
  refl _ := id
  trans _ _ _ hst htu hs := htu (hst hs)

section Within

variable {R : σ → σ → Prop} [IsPreorder σ R] {m : EStateM ε σ α} {f : α → EStateM ε σ β} {s : σ}

protected theorem WithinAt.pure (a : α) : WithinAt R (pure a : EStateM ε σ α) s := refl_of R s

protected theorem WithinAt.throw (e : ε) : WithinAt R (throw e : EStateM ε σ α) s := refl_of R s

protected theorem WithinAt.bind (hm : WithinAt R m s)
    (hf : ∀ a t, m s = .ok a t → WithinAt R (f a) t) : WithinAt R (m >>= f) s := by
  unfold WithinAt endState at hm ⊢
  rw [bind_apply]
  cases hrun : m s with
  | ok a t =>
      rw [hrun] at hm
      exact trans_of R hm (hf a t hrun)
  | error e t =>
      rw [hrun] at hm
      exact hm

omit [IsPreorder σ R] in
protected theorem WithinAt.get_bind {f : σ → EStateM ε σ β} (hf : WithinAt R (f s) s) :
    WithinAt R ((get : EStateM ε σ σ) >>= f) s := hf

omit [IsPreorder σ R] in
protected theorem WithinAt.modify {change : σ → σ} (hstep : R s (change s)) :
    WithinAt R (modify change : EStateM ε σ PUnit) s := hstep

protected theorem WithinAt.modify_bind {change : σ → σ} {f : PUnit → EStateM ε σ β}
    (hstep : R s (change s)) (hf : WithinAt R (f ⟨⟩) (change s)) :
    WithinAt R ((modify change : EStateM ε σ PUnit) >>= f) s :=
  trans_of R hstep hf

protected theorem WithinAt.rescue {select : ε → Option κ} {handler : κ → EStateM ε σ α}
    (hm : WithinAt R m s) (hhandler : ∀ k t, WithinAt R (handler k) t) :
    WithinAt R (rescue select m handler) s := by
  unfold WithinAt endState Effect.rescue at *
  cases hrun : m s with
  | ok a t => simpa [hrun] using hm
  | error e t =>
      simp only [hrun] at hm ⊢
      cases hselect : select e with
      | none => exact hm
      | some k => exact trans_of R hm (hhandler k t)

protected theorem WithinAt.onThrow {cleanup : ε → σ → σ} (hm : WithinAt R m s)
    (hcleanup : ∀ e t, m s = .error e t → R t (cleanup e t)) : WithinAt R (onThrow m cleanup) s := by
  unfold WithinAt endState Effect.onThrow at *
  cases hrun : m s with
  | ok a t => simpa [hrun] using hm
  | error e t =>
      simp only [hrun] at hm ⊢
      exact trans_of R hm (hcleanup e t hrun)

protected theorem WithinAt.doIf {c : Prop} [Decidable c] {m : EStateM ε σ PUnit} {s : σ}
    (hm : c → WithinAt R m s) : WithinAt R (doIf c m) s := by
  unfold doIf
  split
  · exact hm ‹c›
  · exact .pure _

protected theorem Within.pure (a : α) : Within R (pure a : EStateM ε σ α) := fun _ => WithinAt.pure a

protected theorem Within.throw (e : ε) : Within R (throw e : EStateM ε σ α) := fun _ => WithinAt.throw e

protected theorem Within.get : Within R (get : EStateM ε σ σ) := fun s => refl_of R s

omit [IsPreorder σ R] in
protected theorem Within.modify {change : σ → σ} (hstep : ∀ s, R s (change s)) :
    Within R (modify change : EStateM ε σ PUnit) := hstep

protected theorem Within.bind (hm : Within R m) (hf : ∀ a, Within R (f a)) : Within R (m >>= f) :=
  fun s => WithinAt.bind (hm s) fun a t _ => hf a t

omit [IsPreorder σ R] in
protected theorem Within.get_bind {f : σ → EStateM ε σ β} (hf : ∀ s, WithinAt R (f s) s) :
    Within R ((get : EStateM ε σ σ) >>= f) := hf

protected theorem Within.rescue {select : ε → Option κ} {handler : κ → EStateM ε σ α}
    (hm : Within R m) (hhandler : ∀ k, Within R (handler k)) :
    Within R (rescue select m handler) :=
  fun s => WithinAt.rescue (hm s) fun k t => hhandler k t

omit [IsPreorder σ R] in
protected theorem Within.ite {c : Prop} [Decidable c] {m' : EStateM ε σ α} (hthen : c → Within R m)
    (helse : ¬ c → Within R m') : Within R (if c then m else m') := by
  split
  · exact hthen ‹c›
  · exact helse ‹¬ c›

protected theorem Within.doIf {c : Prop} [Decidable c] {m : EStateM ε σ PUnit}
    (hm : c → Within R m) : Within R (doIf c m) := Within.ite hm fun _ => .pure _

protected theorem Within.forM {γ : Type} {f : γ → EStateM ε σ PUnit} (xs : List γ)
    (hf : ∀ x ∈ xs, Within R (f x)) : Within R (xs.forM f) := by
  induction xs with
  | nil => exact Within.pure _
  | cons x xs ih =>
      exact Within.bind (hf x List.mem_cons_self) fun _ =>
        ih fun y hy => hf y (List.mem_cons_of_mem _ hy)

end Within

theorem WithinAt.mono {R R' : σ → σ → Prop} {m : EStateM ε σ α} {s : σ} (hm : WithinAt R m s)
    (hle : ∀ s t, R s t → R' s t) : WithinAt R' m s := hle _ _ hm

theorem Within.mono {R R' : σ → σ → Prop} {m : EStateM ε σ α} (hm : Within R m)
    (hle : ∀ s t, R s t → R' s t) : Within R' m := fun s => hle _ _ (hm s)

theorem Within.of_ok {R : σ → σ → Prop} {m : EStateM ε σ α} (hm : Within R m) {s t : σ} {a : α}
    (hrun : m s = .ok a t) : R s t := by
  simpa only [WithinAt, endState, hrun] using hm s

theorem Within.of_error {R : σ → σ → Prop} {m : EStateM ε σ α} (hm : Within R m) {s t : σ} {e : ε}
    (hrun : m s = .error e t) : R s t := by
  simpa only [WithinAt, endState, hrun] using hm s

/-- What holds where the first part ends, and is kept by the second, holds in the end. -/
theorem endState_bind_of {I : σ → Prop} {m : EStateM ε σ α} {f : α → EStateM ε σ β} {s : σ}
    (hm : I (endState m s)) (hf : ∀ a, Within (Keeps I) (f a)) : I (endState (m >>= f) s) := by
  cases hrun : m s with
  | ok a t =>
      rw [endState_bind_ok hrun]
      exact hf a t (endState_of_ok hrun ▸ hm)
  | error e t =>
      rw [endState_bind_error hrun]
      exact endState_of_error hrun ▸ hm

theorem endState_rescue_of {I : σ → Prop} {select : ε → Option κ} {m : EStateM ε σ α}
    {handler : κ → EStateM ε σ α} {s : σ} (hm : I (endState m s))
    (hhandler : ∀ k, Within (Keeps I) (handler k)) : I (endState (rescue select m handler) s) := by
  unfold endState rescue at *
  cases hrun : m s with
  | ok a t => simpa [hrun] using hm
  | error e t =>
      simp only [hrun] at hm ⊢
      cases hselect : select e with
      | none => exact hm
      | some k => exact hhandler k t hm

/-! ### Triples -/

/-- Started in `P`, `m` returns in `Q` or throws in `E`. -/
def Triple (P : σ → Prop) (m : EStateM ε σ α) (Q : α → σ → Prop) (E : ε → σ → Prop) : Prop :=
  ∀ s, P s → match m s with
    | .ok a t => Q a t
    | .error e t => E e t

section Triple

variable {P P' : σ → Prop} {m : EStateM ε σ α} {Q Q' : α → σ → Prop} {E E' : ε → σ → Prop}
  {f : α → EStateM ε σ β} {S : β → σ → Prop}

theorem Triple.of_ok (hm : Triple P m Q E) {s t : σ} {a : α} (hs : P s) (hrun : m s = .ok a t) :
    Q a t := by
  have hpost := hm s hs
  rwa [hrun] at hpost

theorem Triple.of_error (hm : Triple P m Q E) {s t : σ} {e : ε} (hs : P s)
    (hrun : m s = .error e t) : E e t := by
  have hpost := hm s hs
  rwa [hrun] at hpost

/-- What never throws returns. -/
theorem Triple.exists_ok (hm : Triple P m Q fun _ _ => False) {s : σ} (hs : P s) :
    ∃ a t, m s = .ok a t ∧ Q a t := by
  have hpost := hm s hs
  cases hrun : m s with
  | ok a t =>
      rw [hrun] at hpost
      exact ⟨a, t, rfl, hpost⟩
  | error e t =>
      rw [hrun] at hpost
      exact hpost.elim

theorem Triple.withinAt {R : σ → σ → Prop} {s : σ}
    (hm : Triple (fun t => t = s) m (fun _ t => R s t) (fun _ t => R s t)) : WithinAt R m s := by
  unfold WithinAt endState
  cases hrun : m s with
  | ok a t => exact hm.of_ok rfl hrun
  | error e t => exact hm.of_error rfl hrun

protected theorem Triple.pure {a : α} (hpost : ∀ s, P s → Q a s) :
    Triple P (pure a : EStateM ε σ α) Q E := hpost

protected theorem Triple.throw {e : ε} (hpost : ∀ s, P s → E e s) :
    Triple P (throw e : EStateM ε σ α) Q E := hpost

protected theorem Triple.bind (hm : Triple P m Q E) (hf : ∀ a, Triple (Q a) (f a) S E) :
    Triple P (m >>= f) S E := by
  intro s hs
  have hrun := hm s hs
  rw [bind_apply]
  cases hout : m s with
  | ok a t =>
      rw [hout] at hrun
      exact hf a t hrun
  | error e t =>
      rw [hout] at hrun
      exact hrun

protected theorem Triple.get_bind {f : σ → EStateM ε σ β}
    (hf : ∀ s, Triple (fun t => t = s ∧ P t) (f s) S E) :
    Triple P ((get : EStateM ε σ σ) >>= f) S E :=
  fun s hs => hf s s ⟨rfl, hs⟩

protected theorem Triple.modify {change : σ → σ} {Q : PUnit → σ → Prop}
    (hpost : ∀ s, P s → Q ⟨⟩ (change s)) :
    Triple P (modify change : EStateM ε σ PUnit) Q E := hpost

protected theorem Triple.doIf {c : Prop} [Decidable c] {m : EStateM ε σ PUnit}
    {Q : PUnit → σ → Prop} (hthen : c → Triple P m Q E) (helse : ¬ c → ∀ s, P s → Q ⟨⟩ s) :
    Triple P (doIf c m) Q E := by
  unfold doIf
  split
  · exact hthen ‹c›
  · exact Triple.pure (helse ‹¬ c›)

protected theorem Triple.ite {c : Prop} [Decidable c] {m' : EStateM ε σ α} (hthen : Triple P m Q E)
    (helse : Triple P m' Q E) : Triple P (if c then m else m') Q E := by
  split
  · exact hthen
  · exact helse

protected theorem Triple.conseq (hm : Triple P m Q E) (hpre : ∀ s, P' s → P s)
    (hpost : ∀ a s, Q a s → Q' a s) (hexc : ∀ e s, E e s → E' e s) : Triple P' m Q' E' := by
  intro s hs
  have hrun := hm s (hpre s hs)
  cases hout : m s with
  | ok a t =>
      rw [hout] at hrun
      exact hpost a t hrun
  | error e t =>
      rw [hout] at hrun
      exact hexc e t hrun

protected theorem Triple.exists {ι : Sort*} {P : ι → σ → Prop} (hm : ∀ i, Triple (P i) m Q E) :
    Triple (fun s => ∃ i, P i s) m Q E := fun s ⟨i, hs⟩ => hm i s hs

protected theorem Triple.and (hm : Triple P m Q E) (hm' : Triple P' m Q' E') :
    Triple (fun s => P s ∧ P' s) m (fun a t => Q a t ∧ Q' a t) (fun e t => E e t ∧ E' e t) := by
  intro s hs
  have hrun := hm s hs.1
  have hrun' := hm' s hs.2
  cases hout : m s with
  | ok a t =>
      rw [hout] at hrun hrun'
      exact ⟨hrun, hrun'⟩
  | error e t =>
      rw [hout] at hrun hrun'
      exact ⟨hrun, hrun'⟩

protected theorem Triple.pre (hm : Triple P m Q E) (hpre : ∀ s, P' s → P s) : Triple P' m Q E :=
  hm.conseq hpre (fun _ _ hs => hs) fun _ _ hs => hs

protected theorem Triple.post (hm : Triple P m Q E) (hpost : ∀ a s, Q a s → Q' a s) :
    Triple P m Q' E := hm.conseq (fun _ hs => hs) hpost fun _ _ hs => hs

/-- What never throws keeps every promise about exceptions. -/
protected theorem Triple.never (hm : Triple P m Q fun _ _ => False) : Triple P m Q E :=
  hm.conseq (fun _ hs => hs) (fun _ _ hs => hs) fun _ _ hs => hs.elim

/-- What `m` cannot change along `R` may be carried across it. -/
protected theorem Triple.frame {R : σ → σ → Prop} {J : σ → Prop} (hm : Triple P m Q E) (hwithin : Within R m)
    (hkeep : ∀ s t, R s t → J s → J t) :
    Triple (fun s => P s ∧ J s) m (fun a t => Q a t ∧ J t) (fun e t => E e t ∧ J t) := by
  intro s hs
  have hrun := hm s hs.1
  cases hout : m s with
  | ok a t =>
      rw [hout] at hrun
      exact ⟨hrun, hkeep s t (hwithin.of_ok hout) hs.2⟩
  | error e t =>
      rw [hout] at hrun
      exact ⟨hrun, hkeep s t (hwithin.of_error hout) hs.2⟩

theorem Triple.of_within {R : σ → σ → Prop} (hwithin : Within R m)
    (hpost : ∀ s t, R s t → P s → ∀ a, Q a t) (hexc : ∀ s t, R s t → P s → ∀ e, E e t) :
    Triple P m Q E := by
  intro s hs
  cases hout : m s with
  | ok a t => exact hpost s t (hwithin.of_ok hout) hs a
  | error e t => exact hexc s t (hwithin.of_error hout) hs e

theorem Within.triple {R : σ → σ → Prop} (hwithin : Within R m) (s : σ) :
    Triple (fun t => t = s) m (fun _ t => R s t) (fun _ t => R s t) :=
  Triple.of_within hwithin (fun _ _ ht hs _ => hs ▸ ht) fun _ _ ht hs _ => hs ▸ ht

protected theorem Triple.rescue {select : ε → Option κ} {handler : κ → EStateM ε σ α} {F : ε → σ → Prop}
    (hm : Triple P m Q F) (hhandler : ∀ e k, select e = some k → Triple (F e) (handler k) Q E)
    (hrest : ∀ e s, select e = none → F e s → E e s) :
    Triple P (rescue select m handler) Q E := by
  intro s hs
  have hrun := hm s hs
  unfold Effect.rescue
  cases hout : m s with
  | ok a t =>
      rw [hout] at hrun
      exact hrun
  | error e t =>
      rw [hout] at hrun
      cases hselect : select e with
      | some k =>
          simp only [hselect]
          exact hhandler e k hselect t hrun
      | none =>
          simp only [hselect]
          exact hrest e t hselect hrun

protected theorem Triple.onThrow {cleanup : ε → σ → σ} {F : ε → σ → Prop} (hm : Triple P m Q F)
    (hcleanup : ∀ e s, F e s → E e (cleanup e s)) : Triple P (onThrow m cleanup) Q E := by
  intro s hs
  have hrun := hm s hs
  unfold Effect.onThrow
  cases hout : m s with
  | ok a t =>
      rw [hout] at hrun
      exact hrun
  | error e t =>
      rw [hout] at hrun
      exact hcleanup e t hrun

protected theorem Triple.forM {γ : Type} {I : σ → Prop} {f : γ → EStateM ε σ PUnit} (xs : List γ)
    (hf : ∀ x ∈ xs, Triple I (f x) (fun _ => I) E) : Triple I (xs.forM f) (fun _ => I) E := by
  induction xs with
  | nil => exact Triple.pure fun _ hs => hs
  | cons x xs ih =>
      exact Triple.bind (hf x List.mem_cons_self) fun _ =>
        ih fun y hy => hf y (List.mem_cons_of_mem _ hy)

theorem Triple.endState {I : σ → Prop} (hm : Triple P m (fun _ => I) (fun _ => I)) {s : σ}
    (hs : P s) : I (endState m s) := by
  have hrun := hm s hs
  unfold Effect.endState
  cases hout : m s with
  | ok a t => simpa [hout] using hrun
  | error e t => simpa [hout] using hrun

theorem Triple.of_endState {I : σ → Prop} (hm : ∀ s, P s → I (Effect.endState m s)) :
    Triple P m (fun _ => I) (fun _ => I) := by
  intro s hs
  have hend := hm s hs
  unfold Effect.endState at hend
  cases hout : m s with
  | ok a t => rwa [hout] at hend
  | error e t => rwa [hout] at hend

theorem triple_of_within {I : σ → Prop} (hm : Within (Keeps I) m) :
    Triple I m (fun _ => I) (fun _ => I) :=
  Triple.of_within hm (fun _ _ hst hs _ => hst hs) fun _ _ hst hs _ => hst hs

theorem within_of_triple {I : σ → Prop} (hm : Triple I m (fun _ => I) (fun _ => I)) :
    Within (Keeps I) m := fun _ hs => hm.endState hs

end Triple

/-! ### Finding out -/

/-- While `I` holds, `m` finds the value `a`, does not throw, and leaves `I` as it is. -/
def Finds (I : σ → Prop) (m : EStateM ε σ α) (a : α) : Prop := ∀ s, I s → ∃ t, m s = .ok a t ∧ I t

section Finds

variable {I : σ → Prop} {m : EStateM ε σ α} {f : α → EStateM ε σ β} {a : α} {b : β}

/-- There is only one thing to find. -/
theorem Finds.ok_iff (hm : Finds I m a) {a' : α} {s : σ} (hs : I s) :
    (∃ t, m s = .ok a' t) ↔ a = a' := by
  obtain ⟨t, hrun, -⟩ := hm s hs
  rw [hrun]
  constructor
  · rintro ⟨u, ⟨⟩⟩
    rfl
  · rintro rfl
    exact ⟨t, rfl⟩

protected theorem Finds.pure (a : α) : Finds I (pure a : EStateM ε σ α) a :=
  fun s hs => ⟨s, rfl, hs⟩

protected theorem Finds.bind (hm : Finds I m a) (hf : Finds I (f a) b) : Finds I (m >>= f) b := by
  intro s hs
  obtain ⟨t, hrun, ht⟩ := hm s hs
  rw [bind_ok hrun]
  exact hf t ht

protected theorem Finds.get_bind {f : σ → EStateM ε σ β} (hf : ∀ s, I s → Finds I (f s) b) :
    Finds I ((get : EStateM ε σ σ) >>= f) b := fun s hs => hf s hs s hs

protected theorem Finds.ite {c : Prop} [Decidable c] {m' : EStateM ε σ α} {a' : α}
    (hthen : c → Finds I m a) (helse : ¬ c → Finds I m' a') :
    Finds I (if c then m else m') (if c then a else a') := by
  by_cases hc : c
  · rw [if_pos hc, if_pos hc]
    exact hthen hc
  · rw [if_neg hc, if_neg hc]
    exact helse hc

end Finds

end Effect
