import Cosy.Edits
import Cosy.Machine

/-!
# The two tables of breakpoints

Whatever is edited, and wherever an exception comes, a number belongs to one record at most, in one
of the two tables, and once it is free it stays so.
-/

namespace Cosy

open ByteMemory Effect

variable {R D : Type} {arch : Architecture R D} {env : Environment R D} {maps : Set ModuleManager}
  {ids : Set Int}

/-- The number belongs to a record of one of the tables. -/
def Debugger.Live (d : Debugger) (id : Int) : Prop :=
  (∃ key r, d.breakpoints.find? key = some r ∧ r.id = id) ∨ ∃ p ∈ d.pendingBreakpoints, p.id = id

/-- The number was given out, and belongs to no record any more. -/
def Debugger.Gone (d : Debugger) (id : Int) : Prop := id < d.nextBreakpointId ∧ ¬ d.Live id

structure Debugger.Tabled (d : Debugger) : Prop where
  keyed : ∀ key r, d.breakpoints.find? key = some r → r.address = key ∧ r.pending = false
  waiting : ∀ p ∈ d.pendingBreakpoints, p.pending = true ∧ p.enabled = false
  bounds : ∀ id, d.Live id → 0 < id ∧ id < d.nextBreakpointId
  next : 0 < d.nextBreakpointId
  records : ∀ key key' r r', d.breakpoints.find? key = some r →
    d.breakpoints.find? key' = some r' → r.id = r'.id → key = key'
  pendings : (d.pendingBreakpoints.map Breakpoint.id).Nodup
  apart : ∀ key r, d.breakpoints.find? key = some r → ∀ p ∈ d.pendingBreakpoints, r.id ≠ p.id

/-! ### Edits -/

section Edits

variable {d d' : Debugger}

/-- A record of the changed table is a record of the old one, up to what may change. -/
theorem find?_withRecord_sameIdentity {key key' : Address} {change : Breakpoint → Breakpoint}
    (hchange : ∀ r : Breakpoint, r.SameIdentity (change r)) {r : Breakpoint}
    (hr : (d.withRecord key change).breakpoints.find? key' = some r) :
    ∃ r₀, d.breakpoints.find? key' = some r₀ ∧ r₀.SameIdentity r := by
  rw [Debugger.withRecord, SortedMap.find?_modify] at hr
  split at hr
  · rename_i heq
    obtain ⟨r₀, hr₀, rfl⟩ := Option.map_eq_some_iff.mp hr
    exact ⟨r₀, heq ▸ hr₀, hchange r₀⟩
  · exact ⟨r, hr, .refl r⟩

/-- If every record of `d'` comes from one of `d`, what holds of `d` holds of `d'`. -/
theorem Debugger.Tabled.of_fewer (hd : d.Tabled)
    (hrecords : ∀ key r, d'.breakpoints.find? key = some r →
      ∃ r₀, d.breakpoints.find? key = some r₀ ∧ r₀.SameIdentity r)
    (hpendings : d'.pendingBreakpoints.Sublist d.pendingBreakpoints)
    (hnext : d'.nextBreakpointId = d.nextBreakpointId) : d'.Tabled := by
  have hlive : ∀ id, d'.Live id → d.Live id := by
    rintro id (⟨key, r, hr, rfl⟩ | ⟨p, hp, rfl⟩)
    · obtain ⟨r₀, hr₀, hsame⟩ := hrecords key r hr
      exact Or.inl ⟨key, r₀, hr₀, hsame.id.symm⟩
    · exact Or.inr ⟨p, hpendings.subset hp, rfl⟩
  refine ⟨fun key r hr => ?_, fun p hp => hd.waiting p (hpendings.subset hp),
    fun id hid => hnext ▸ hd.bounds id (hlive id hid), hnext ▸ hd.next,
    fun key key' r r' hr hr' hid => ?_, hd.pendings.sublist (hpendings.map _), fun key r hr p hp => ?_⟩
  · obtain ⟨r₀, hr₀, hsame⟩ := hrecords key r hr
    exact ⟨hsame.address.trans (hd.keyed key r₀ hr₀).1, hsame.pending.trans (hd.keyed key r₀ hr₀).2⟩
  · obtain ⟨r₀, hr₀, hsame⟩ := hrecords key r hr
    obtain ⟨r₁, hr₁, hsame'⟩ := hrecords key' r' hr'
    exact hd.records key key' r₀ r₁ hr₀ hr₁ (hsame.id.symm.trans (hid.trans hsame'.id))
  · obtain ⟨r₀, hr₀, hsame⟩ := hrecords key r hr
    exact hsame.id ▸ hd.apart key r₀ hr₀ p (hpendings.subset hp)

theorem Debugger.Tabled.create (hd : d.Tabled) {r : Breakpoint}
    (hid : r.id = d.nextBreakpointId) (hpending : r.pending = false) :
    Debugger.Tabled
      { d with
        breakpoints := d.breakpoints.insert r.address r
        nextBreakpointId := d.nextBreakpointId + 1 } := by
  have hfind : ∀ key r', (d.breakpoints.insert r.address r).find? key = some r' →
      (key = r.address ∧ r' = r) ∨ d.breakpoints.find? key = some r' := by
    intro key r' hr'
    rw [SortedMap.find?_insert] at hr'
    split at hr'
    · exact Or.inl ⟨‹_›, (Option.some.inj hr').symm⟩
    · exact Or.inr hr'
  have hfresh : ∀ key r', d.breakpoints.find? key = some r' → r'.id ≠ r.id := by
    intro key r' hr' heq
    have hbound := (hd.bounds r'.id (Or.inl ⟨key, r', hr', rfl⟩)).2
    omega
  refine ⟨fun key r' hr' => ?_, hd.waiting, fun id hlive => ?_, ?_, fun key key' r₁ r₂ hr₁ hr₂ hids => ?_,
    hd.pendings, fun key r' hr' p hp => ?_⟩
  · rcases hfind key r' hr' with ⟨rfl, rfl⟩ | hold
    · exact ⟨rfl, hpending⟩
    · exact hd.keyed key r' hold
  · have hnext := hd.next
    have hold : id = d.nextBreakpointId ∨ d.Live id := by
      rcases hlive with ⟨key, r', hr', rfl⟩ | hlive
      · rcases hfind key r' hr' with ⟨-, rfl⟩ | hold
        · exact Or.inl hid
        · exact Or.inr (Or.inl ⟨key, r', hold, rfl⟩)
      · exact Or.inr (Or.inr hlive)
    rcases hold with rfl | hold
    · exact ⟨hnext, Int.lt_succ _⟩
    · have hbounds := hd.bounds id hold
      exact ⟨hbounds.1, hbounds.2.trans (Int.lt_succ _)⟩
  · have hnext := hd.next
    change 0 < d.nextBreakpointId + 1
    omega
  · rcases hfind key r₁ hr₁ with ⟨rfl, rfl⟩ | hold <;> rcases hfind key' r₂ hr₂ with ⟨rfl, rfl⟩ | hold'
    · rfl
    · exact absurd hids.symm (hfresh key' r₂ hold')
    · exact absurd hids (hfresh key r₁ hold)
    · exact hd.records key key' r₁ r₂ hold hold' hids
  · rcases hfind key r' hr' with ⟨-, rfl⟩ | hold
    · have hbound := (hd.bounds p.id (Or.inr ⟨p, hp, rfl⟩)).2
      omega
    · exact hd.apart key r' hold p hp

theorem Debugger.Tabled.defer (hd : d.Tabled) {p : Breakpoint} (hid : p.id = d.nextBreakpointId)
    (hpending : p.pending = true) (henabled : p.enabled = false) :
    Debugger.Tabled
      { d with
        nextBreakpointId := d.nextBreakpointId + 1
        pendingBreakpoints := d.pendingBreakpoints ++ [p] } := by
  have hmem : ∀ q ∈ d.pendingBreakpoints ++ [p], q ∈ d.pendingBreakpoints ∨ q = p := by
    intro q hq
    simpa using hq
  refine ⟨hd.keyed, fun q hq => ?_, fun id hlive => ?_, ?_, hd.records, ?_, fun key r hr q hq => ?_⟩
  · rcases hmem q hq with hold | rfl
    · exact hd.waiting q hold
    · exact ⟨hpending, henabled⟩
  · have hnext := hd.next
    have hold : id = d.nextBreakpointId ∨ d.Live id := by
      rcases hlive with hlive | ⟨q, hq, rfl⟩
      · exact Or.inr (Or.inl hlive)
      · rcases hmem q hq with hold | rfl
        · exact Or.inr (Or.inr ⟨q, hold, rfl⟩)
        · exact Or.inl hid
    rcases hold with rfl | hold
    · exact ⟨hnext, Int.lt_succ _⟩
    · have hbounds := hd.bounds id hold
      exact ⟨hbounds.1, hbounds.2.trans (Int.lt_succ _)⟩
  · have hnext := hd.next
    change 0 < d.nextBreakpointId + 1
    omega
  · change ((d.pendingBreakpoints ++ [p]).map Breakpoint.id).Nodup
    rw [List.map_append, List.nodup_append]
    refine ⟨hd.pendings, List.nodup_singleton _, fun id hmem id' hmem' => ?_⟩
    obtain ⟨q, hq, rfl⟩ := List.mem_map.mp hmem
    obtain rfl := List.mem_singleton.mp hmem'
    have hbound := (hd.bounds q.id (Or.inr ⟨q, hq, rfl⟩)).2
    omega
  · rcases hmem q hq with hold | rfl
    · exact hd.apart key r hr q hold
    · have hbound := (hd.bounds r.id (Or.inl ⟨key, r, hr, rfl⟩)).2
      omega

/-- The records left when one is erased. -/
theorem find?_erase_sameIdentity {key key' : Address} {r : Breakpoint}
    (hr : (d.breakpoints.erase key).find? key' = some r) :
    ∃ r₀, d.breakpoints.find? key' = some r₀ ∧ r₀.SameIdentity r := by
  rw [SortedMap.find?_erase] at hr
  split at hr
  · cases hr
  · exact ⟨r, hr, .refl r⟩

theorem Edit.tabled {maps : Set ModuleManager} {kind : EditKind} (hedit : Edit maps ids kind d d')
    (hd : d.Tabled) : d'.Tabled := by
  have hself : ∀ key r, d.breakpoints.find? key = some r →
      ∃ r₀, d.breakpoints.find? key = some r₀ ∧ r₀.SameIdentity r := fun _ r hr => ⟨r, hr, .refl r⟩
  cases hedit with
  | aside hbreakpoints hpending hnext =>
      exact hd.of_fewer (hbreakpoints ▸ hself) (hpending ▸ List.Sublist.refl _) hnext
  | refresh => exact hd.of_fewer hself (List.Sublist.refl _) rfl
  | patch _ key hchange =>
      exact hd.of_fewer (fun _ _ hr => find?_withRecord_sameIdentity hchange hr)
        (List.Sublist.refl _) rfl
  | create _ _ hid hpending => exact hd.create hid hpending
  | defer _ hid hpending henabled => exact hd.defer hid hpending henabled
  | expire | remove =>
      exact hd.of_fewer (fun _ _ hr => find?_erase_sameIdentity hr) (List.Sublist.refl _) rfl
  | dismiss => exact hd.of_fewer hself List.filter_sublist rfl
  | settle _ hpending =>
      refine hd.of_fewer hself ?_ rfl
      rw [hpending]
      exact (List.sublist_cons_self _ _).append_left _

/-- A number that is free is not given out again. -/
theorem Edit.gone {maps : Set ModuleManager} {kind : EditKind} (hedit : Edit maps ids kind d d')
    {id : Int} (hd : d.Gone id) : d'.Gone id := by
  obtain ⟨hnext, hfree⟩ := hd
  cases hedit with
  | aside hbreakpoints hpending hnext' =>
      refine ⟨hnext' ▸ hnext, fun hlive => hfree ?_⟩
      rwa [Debugger.Live, hbreakpoints, hpending] at hlive
  | refresh => exact ⟨hnext, hfree⟩
  | patch _ key hchange =>
      refine ⟨hnext, fun hlive => hfree ?_⟩
      rcases hlive with ⟨key', r, hr, rfl⟩ | hlive
      · obtain ⟨r₀, hr₀, hsame⟩ := find?_withRecord_sameIdentity hchange hr
        exact Or.inl ⟨key', r₀, hr₀, hsame.id.symm⟩
      · exact Or.inr hlive
  | create _ _ hid =>
      refine ⟨hnext.trans (Int.lt_succ _), fun hlive => hfree ?_⟩
      rcases hlive with ⟨key, r, hr, rfl⟩ | hlive
      · rw [SortedMap.find?_insert] at hr
        split at hr
        · obtain rfl := Option.some.inj hr
          omega
        · exact Or.inl ⟨key, r, hr, rfl⟩
      · exact Or.inr hlive
  | defer _ hid =>
      refine ⟨hnext.trans (Int.lt_succ _), fun hlive => hfree ?_⟩
      rcases hlive with hlive | ⟨q, hq, rfl⟩
      · exact Or.inl hlive
      · rcases List.mem_append.mp hq with hq | hq
        · exact Or.inr ⟨q, hq, rfl⟩
        · obtain rfl := List.mem_singleton.mp hq
          omega
  | expire | remove =>
      refine ⟨hnext, fun hlive => hfree ?_⟩
      rcases hlive with ⟨key', r, hr, rfl⟩ | hlive
      · obtain ⟨r₀, hr₀, hsame⟩ := find?_erase_sameIdentity hr
        exact Or.inl ⟨key', r₀, hr₀, hsame.id.symm⟩
      · exact Or.inr hlive
  | dismiss =>
      refine ⟨hnext, fun hlive => hfree (hlive.imp_right ?_)⟩
      exact fun ⟨q, hq, heq⟩ => ⟨q, List.mem_of_mem_filter hq, heq⟩
  | settle _ hpending =>
      refine ⟨hnext, fun hlive => hfree (hlive.imp_right ?_)⟩
      rintro ⟨q, hq, heq⟩
      refine ⟨q, ?_, heq⟩
      rw [hpending]
      exact ((List.sublist_cons_self _ _).append_left _).subset hq

end Edits

/-! ### Deleting -/

/-- From `d` to `d'` the record with this number goes away, if there is one, and no other does. -/
structure Debugger.RemovesOnly (id : Int) (d d' : Debugger) : Prop where
  removed : ¬ d'.Live id
  kept : ∀ key r, d.breakpoints.find? key = some r → r.id ≠ id →
    ∃ r', d'.breakpoints.find? key = some r' ∧ r.SameIdentity r'
  records : ∀ key r', d'.breakpoints.find? key = some r' →
    ∃ r, d.breakpoints.find? key = some r ∧ r.SameIdentity r'
  pendings : d'.pendingBreakpoints = d.pendingBreakpoints.filter fun p => p.id ≠ id

/-- `remove_breakpoint` on this number: it throws and changes nothing in the tables, or removes
exactly that record. -/
def Deletes (env : Environment R D) (id : Int) (s : State R D) : Prop :=
  match removeBreakpoint env id s with
  | .ok _ t => s.debugger.RemovesOnly id t.debugger
  | .error _ t => t.debugger = s.debugger

section Deleting

variable {d d' : Debugger} {s : State R D} {id : Int}

theorem keyOfId_eq_none {breakpoints : SortedMap Address Breakpoint}
    (hnone : keyOfId breakpoints id = none) {key : Address} {r : Breakpoint}
    (hr : breakpoints.find? key = some r) : r.id ≠ id := by
  have hnone' := List.find?_eq_none.mp (Option.map_eq_none_iff.mp hnone) _
    (SortedMap.mem_entries_iff.mpr hr)
  simpa using hnone'

theorem keyOfId_eq_some {breakpoints : SortedMap Address Breakpoint} {key : Address}
    (hkey : keyOfId breakpoints id = some key) :
    ∃ r, breakpoints.find? key = some r ∧ r.id = id := by
  obtain ⟨entry, hfound, rfl⟩ := Option.map_eq_some_iff.mp hkey
  exact ⟨entry.2, SortedMap.mem_entries_iff.mp (List.mem_of_find?_eq_some hfound),
    by simpa using List.find?_some hfound⟩

theorem not_live_filter (d : Debugger)
    (hrecords : ∀ key r, d.breakpoints.find? key = some r → r.id ≠ id) :
    ¬ Debugger.Live
      { d with pendingBreakpoints := d.pendingBreakpoints.filter fun p => p.id ≠ id } id := by
  rintro (⟨key, r, hr, hid⟩ | ⟨p, hp, hid⟩)
  · exact hrecords key r hr hid
  · have hne := List.of_mem_filter hp
    simp [hid] at hne

/-- The record is erased once its trap is lifted. -/
theorem Debugger.Tabled.removesOnly (hd : d.Tabled) {key : Address} {r : Breakpoint}
    (hr : d.breakpoints.find? key = some r) (hid : r.id = id)
    (hlifted : d' = d ∨ d' = d.withRecord key fun r => { r with enabled := false }) :
    d.RemovesOnly id { d' with breakpoints := d'.breakpoints.erase key } := by
  have hpendings : d'.pendingBreakpoints = d.pendingBreakpoints := by
    rcases hlifted with rfl | rfl <;> rfl
  have hfind : ∀ key', key' ≠ key →
      (d'.breakpoints.erase key).find? key' = d.breakpoints.find? key' := by
    intro key' hne
    rw [SortedMap.find?_erase, if_neg hne]
    rcases hlifted with rfl | rfl
    · rfl
    · exact SortedMap.find?_modify_of_ne _ _ hne
  have hback : ∀ key' r', (d'.breakpoints.erase key).find? key' = some r' →
      key' ≠ key ∧ d.breakpoints.find? key' = some r' := by
    intro key' r' hr'
    have hne : key' ≠ key := by
      rintro rfl
      rw [SortedMap.find?_erase, if_pos rfl] at hr'
      cases hr'
    exact ⟨hne, (hfind key' hne).symm.trans hr'⟩
  refine ⟨?_, fun key' r' hr' hne => ⟨r', ?_, .refl r'⟩, fun key' r' hr' =>
    ⟨r', (hback key' r' hr').2, .refl r'⟩, ?_⟩
  · rintro (⟨key', r', hr', hid'⟩ | ⟨p, hp, hid'⟩)
    · obtain ⟨hne, hr'⟩ := hback key' r' hr'
      exact hne (hd.records key' key r' r hr' hr (hid'.trans hid.symm))
    · exact hd.apart key r hr p (hpendings ▸ hp) (hid.trans hid'.symm)
  · refine (hfind key' ?_).trans hr'
    rintro rfl
    exact hne (Option.some.inj (hr'.symm.trans hr) ▸ hid)
  · change d'.pendingBreakpoints = _
    rw [hpendings, eq_comm, List.filter_eq_self]
    intro p hp
    have hne := hd.apart key r hr p hp
    rw [hid] at hne
    simpa using Ne.symm hne

theorem removeBreakpoint_deletes (env : Environment R D) (id : Int) (hs : s.debugger.Tabled) :
    Deletes env id s := by
  rw [Deletes, removeBreakpoint, get_bind_apply]
  cases hkey : keyOfId s.debugger.breakpoints id with
  | none =>
      have hrecords : ∀ key r, s.debugger.breakpoints.find? key = some r → r.id ≠ id :=
        fun _ _ hr => keyOfId_eq_none hkey hr
      exact ⟨not_live_filter _ hrecords, fun key r hr _ => ⟨r, hr, .refl r⟩,
        fun key r hr => ⟨r, hr, .refl r⟩, rfl⟩
  | some key =>
      obtain ⟨r, hr, hid⟩ := keyOfId_eq_some hkey
      have hlifted := disable_debugger env key (s.logged (.userDisabled key))
      dsimp only
      rw [bind_ok (note_apply _ s), dropBreakpoint, bind_apply]
      cases hrun : disable env key (s.logged (.userDisabled key)) with
      | ok a t =>
          have hrun' : disable env key { s with log := .userDisabled key :: s.log } = .ok a t := hrun
          rw [hrun']
          exact hs.removesOnly hr hid (hlifted.of_ok rfl hrun)
      | error halt t =>
          have hrun' : disable env key { s with log := .userDisabled key :: s.log } = .error halt t :=
            hrun
          rw [hrun']
          exact hlifted.of_error rfl hrun

end Deleting

/-! ### Sessions -/

section Sessions

variable {child : Tid} {target : Target R D} {s t : State R D}

theorem tabled_fresh (child : Tid) : (Debugger.fresh child).Tabled where
  keyed _ _ hr := by cases hr
  waiting _ hp := by cases hp
  bounds id hlive := by
    rcases hlive with ⟨_, _, hr, -⟩ | ⟨_, hp, -⟩
    · cases hr
    · cases hp
  next := Int.one_pos
  records _ _ _ _ hr := by cases hr
  pendings := List.nodup_nil
  apart _ _ hr := by cases hr

theorem Visited.edits (hs : Visited arch env (State.initial child target) s) :
    Edits env maps Set.univ editing (State.initial child target) s := by
  have henv := Environment.leavesText_empty env
  refine (hs.related (Q := Amends arch env maps Set.univ) ?_ ?_ ?_ wellFormed_empty).2
  · exact amends_of_does (does_openSession henv) (makes_openSession.mono consuming_subset_editing)
  · exact fun line => dispatchWithin_amends.dispatch line fun _ _ => trivial
  · exact amends_of_does (does_detach henv) (makes_detach.mono (by decide))

theorem Visited.tabled (hs : Visited arch env (State.initial child target) s) :
    s.debugger.Tabled :=
  hs.edits.preserve (fun _ _ _ _ hedit hd => hedit.tabled hd) (mapsOnly_univ _ s)
    (tabled_fresh child)

theorem Prompt.edits (hs : Prompt arch env (State.initial child target) s) :
    Edits env maps Set.univ editing (State.initial child target) s := by
  refine (hs.related (Q := Amends arch env maps Set.univ) ?_ ?_ wellFormed_empty).2
  · exact amends_of_does (does_openSession (Environment.leavesText_empty env))
      (makes_openSession.mono consuming_subset_editing)
  · exact fun line => dispatchWithin_amends.dispatch line fun _ _ => trivial

theorem Prompt.tabled (hs : Prompt arch env (State.initial child target) s) :
    s.debugger.Tabled :=
  hs.edits.preserve (fun _ _ _ _ hedit hd => hedit.tabled hd) (mapsOnly_univ _ s)
    (tabled_fresh child)

/-- What the commands after a prompt, or the detaching, do to the tables, when these numbers may be
deleted. -/
theorem LaterVisited.edits {p : Text → Prop}
    (hp : ∀ line, p line → ∀ id, deletedId line = some id → id ∈ ids)
    (hs : WellFormed arch s.debugger.breakpoints) (ht : LaterVisited arch env p s t) :
    Edits env maps ids editing s t := by
  have henv := Environment.leavesText_empty env
  refine (ht.related (Q := Amends arch env maps ids) (fun line hline => ?_) ?_ hs).2
  · exact dispatchWithin_amends.dispatch line (hp line hline)
  · exact amends_of_does (does_detach henv) (makes_detach.mono (by decide))

theorem LaterVisited.gone {p : Text → Prop} (hs : WellFormed arch s.debugger.breakpoints)
    (ht : LaterVisited arch env p s t) {id : Int} (hgone : s.debugger.Gone id) :
    t.debugger.Gone id := by
  have hedits : Edits env Set.univ Set.univ editing s t := ht.edits (fun _ _ _ _ => trivial) hs
  exact hedits.preserve (fun _ _ _ _ hedit hd => hedit.gone hd) (mapsOnly_univ s t) hgone

theorem tables_formed (arch : Architecture R D) (env : Environment R D) (child : Tid)
    (target : Target R D) :
    (∀ s, Visited arch env (State.initial child target) s → s.debugger.Tabled) ∧
      (∀ s t, Prompt arch env (State.initial child target) s →
        LaterVisited arch env (fun _ => True) s t →
          ∀ id, s.debugger.Gone id → t.debugger.Gone id) ∧
      (∀ s id, Visited arch env (State.initial child target) s → Deletes env id s) :=
  ⟨fun _ hs => hs.tabled, fun _ _ hs ht _ hgone => ht.gone hs.wellFormed hgone,
    fun _ id hs => removeBreakpoint_deletes env id hs.tabled⟩

/-- A breakpoint in each table. -/
theorem tables_formed_nops :
    ∃ s, Visited x86_64 (runningMachine 1) (State.initial 1 (nopTarget 1)) s ∧
      s.debugger.breakpoints.entries ≠ [] ∧ s.debugger.pendingBreakpoints ≠ [] ∧
      s.debugger.Tabled ∧ Deletes (runningMachine 1) 2 s := by
  obtain ⟨s, hs, hcheck⟩ := Prompt.exists_of_runBatch x86_64 (runningMachine 1)
    (State.initial 1 (nopTarget 1)) ["b *0x1003".toList]
    (p := fun s =>
      let t := endState (dispatch x86_64 (runningMachine 1) "b somewhere".toList) s
      decide (t.debugger.breakpoints.entries ≠ [] ∧ t.debugger.pendingBreakpoints ≠ []))
    (by decide +kernel)
  have htables := of_decide_eq_true hcheck
  obtain ⟨hformed, -, hdeletes⟩ :=
    tables_formed x86_64 (runningMachine 1) 1 (nopTarget 1)
  have hvisited : Visited x86_64 (runningMachine 1) _ _ := .command "b somewhere".toList hs
  exact ⟨_, hvisited, htables.1, htables.2, hformed _ hvisited, hdeletes _ 2 hvisited⟩

end Sessions

end Cosy
