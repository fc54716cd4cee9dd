import Cosy.Reports
import Cosy.Tables

/-!
# The numbers the user was given

A number printed by `break` is all the user has to work on a breakpoint with. A record in the table
keeps its number until the number is deleted, unless it is a temporary one; a pending record keeps
it only as long as its specification does not resolve.
-/

namespace Cosy

open ByteMemory Effect

variable {R D : Type} {arch : Architecture R D} {env : Environment R D} {ids : Set Int}
  {maps : Set ModuleManager}

/-! ### What `break` prints -/

/-- The specification of `break LOCATION`. -/
def breakSpecification (line : Text) : Option Text :=
  match words line with
  | [command, specification] =>
      if isAlias command ["break".toList, "b".toList] then some specification else none
  | _ => none

/-- `breakpoint ID at ADDRESS`. -/
def Entry.announces (id : Int) (address : Address) : Entry → Bool
  | .out (.breakpointAt id' address') => id' = id && address' = address
  | _ => false

/-- `breakpoint ID pending: SPECIFICATION`. -/
def Entry.announcesPending (id : Int) (specification : Text) : Entry → Bool
  | .out (.breakpointPending id' specification') => id' = id && specification' = specification
  | _ => false

def Entry.announcesAny : Entry → Bool
  | .out (.breakpointAt _ _) | .out (.breakpointPending _ _) => true
  | _ => false

theorem dispatch_break {line specification : Text}
    (hline : breakSpecification line = some specification) :
    dispatch arch env line = (do
      attempt (setBreakpoint arch env specification) fun exception => print (.error exception)
      pure true) := by
  unfold breakSpecification at hline
  split at hline
  · rename_i command argument hwords
    rw [Option.ite_none_right_eq_some] at hline
    obtain ⟨halias, hargument⟩ := hline
    obtain rfl := Option.some.inj hargument
    have hcommand : command = "break".toList ∨ command = "b".toList := by
      simpa [isAlias] using halias
    rw [dispatch, hwords]
    rcases hcommand with rfl | rfl <;> rfl
  · cases hline

/-- Of what was printed since `base`, anything `shown` is told of makes `J` true. -/
def Backed (base : List Entry) (shown : Entry → Bool) (J : Debugger → Prop) (s : State R D) : Prop :=
  ∃ newer, s.log = newer ++ base ∧ (newer.any shown = true → J s.debugger)

section Backed

variable {base : List Entry} {shown : Entry → Bool} {J : Debugger → Prop} {s t : State R D}

theorem Backed.start (s : State R D) : Backed s.log shown J s := ⟨[], rfl, by simp⟩

theorem Backed.append (hs : Backed base shown J s)
    (hlog : Appends (fun entry => shown entry = false) s t) (hkeep : J s.debugger → J t.debugger) :
    Backed base shown J t := by
  obtain ⟨newer, hnewer, hbacked⟩ := hs
  obtain ⟨newest, hnewest, hsilent⟩ := hlog
  refine ⟨newest ++ newer, by rw [hnewest, hnewer, List.append_assoc], fun hany => ?_⟩
  rw [List.any_append, Bool.or_eq_true] at hany
  rcases hany with hany | hany
  · obtain ⟨entry, hmem, hshown⟩ := List.any_eq_true.mp hany
    exact absurd hshown (by simp [hsilent entry hmem])
  · exact hkeep (hbacked hany)

theorem Backed.logged (hs : Backed base shown J s) {entry : Entry}
    (hentry : shown entry = true → J s.debugger) : Backed base shown J (s.logged entry) := by
  obtain ⟨newer, hnewer, hbacked⟩ := hs
  refine ⟨entry :: newer, by rw [State.logged, hnewer, List.cons_append], fun hany => ?_⟩
  rw [List.any_cons, Bool.or_eq_true] at hany
  exact hany.elim hentry hbacked

end Backed

/-- Creating a record prints nothing. -/
theorem Move.appends_creating {kind : Kind} {T : Set Address} {s t : State R D}
    (hmove : Move arch env T kind s t) (hkind : kind ∈ creating) :
    Appends (fun entry => entry.announcesAny = false) s t := by
  cases hmove with
  | enter => exact appends_enter (fun _ => rfl) s
  | arming | abandon | userEnabled | userDisabled => exact .cons rfl rfl
  | insert | erase | save | arm | armWild => exact .of_eq rfl
  | liftWild _ hkind' => rcases hkind' with rfl | rfl <;> exact absurd hkind (by decide)
  | _ => exact absurd hkind (by decide)

theorem createBreakpoint_record {address : Address} {specification : Text} {temporary : Bool}
    {id : Int} {s t : State R D}
    (hrun : createBreakpoint arch env address specification temporary s = .ok id t) :
    ∃ r, t.debugger.breakpoints.find? address = some r ∧ r.id = id := by
  rw [createBreakpoint, get_bind_apply] at hrun
  cases hfind : s.debugger.breakpoints.find? address with
  | some existing =>
      rw [hfind] at hrun
      injection hrun with hid hstate
      exact ⟨existing, hstate ▸ hfind, hid⟩
  | none =>
      rw [hfind] at hrun
      obtain ⟨_, u, hinsert, hrun⟩ := of_bind_ok hrun
      obtain ⟨_, v, henable, hrun⟩ := of_bind_ok hrun
      obtain ⟨_, w, hnote, hrun⟩ := of_bind_ok hrun
      injection hrun with hid hstate
      obtain rfl := hstate
      obtain rfl := hid
      have hpatches : Edits env Set.univ Set.univ [.patch] u w :=
        trans_of _ ((makes_enable (by simp) address).of_ok henable)
          ((makes_noteUserEnabled address).of_ok hnote)
      refine hpatches.preserve (I := fun d => ∃ r, d.breakpoints.find? address = some r ∧ r.id = _)
        (fun kind hkind d d' hedit hd => ?_) (mapsOnly_univ _ _) ?_
      · obtain ⟨r, hr, hid⟩ := hd
        cases hedit with
        | patch _ key hchange =>
            rw [Debugger.withRecord, SortedMap.find?_modify]
            split
            · rename_i heq
              rw [← heq, hr]
              exact ⟨_, rfl, (hchange r).id.trans hid⟩
            · exact ⟨r, hr, hid⟩
        | _ => exact absurd hkind (by simp)
      · injection hinsert with _ hstate
        subst hstate
        exact ⟨_, SortedMap.find?_insert_self _ _ _, rfl⟩

/-! ### What is announced is in the tables -/

/-- The edits of `break`. -/
def breaking : List EditKind := [.patch, .create false, .defer]

/-- What `break` may print and what is then true: `K` holds throughout, and `J` from the moment on
at which `shown` is told of an entry. -/
structure Announcing (shown : Entry → Bool) (K J : Debugger → Prop) : Prop where
  only : ∀ entry, entry.announcesAny = false → shown entry = false
  keeps : ∀ kind ∈ breaking, ∀ d d', Edit Set.univ ∅ kind d d' →
    (K d → K d') ∧ (J d → J d')
  at_address : ∀ d address r, K d → d.breakpoints.find? address = some r →
    shown (.out (.breakpointAt r.id address)) = true → J d
  pending : ∀ d p, p ∈ d.pendingBreakpoints → resolveSpecification d.modules p.specification = [] →
    shown (.out (.breakpointPending p.id p.specification)) = true → J d

section Announcing

variable {shown : Entry → Bool} {K J : Debugger → Prop} (hannouncing : Announcing shown K J)
  {base : List Entry}

include hannouncing

theorem announceBreakpoints_backed (specification : Text) (addresses : List Address) :
    Within (Keeps fun s : State R D => WellFormed arch s.debugger.breakpoints ∧ K s.debugger ∧
      Backed base shown J s) (announceBreakpoints arch env specification addresses) := by
  induction addresses with
  | nil => exact .pure _
  | cons address rest ih =>
      intro s
      refine WithinAt.bind ?_ fun id t hcreate => WithinAt.modify_bind ?_ (ih _)
      · rintro ⟨hformed, hK, hbacked⟩
        obtain ⟨hmoves, hformed'⟩ := does_createBreakpoint (Environment.leavesText_empty env) address
          specification false s hformed
        have hedits : Makes env Set.univ ∅ [.patch, .create false]
            (createBreakpoint arch env address specification false) :=
          makes_createBreakpoint (by simp) (by simp) address specification
        have hsilent := hmoves.relate fun kind hkind _ _ hmove => hmove.appends_creating hkind
        have hkeeps : ∀ I : Debugger → Prop,
            (∀ kind ∈ breaking, ∀ d d', Edit Set.univ ∅ kind d d' → I d → I d') →
              I s.debugger → I _ := fun I hI =>
          (hedits s).preserve (fun kind hkind => hI kind (List.mem_of_mem_take (i := 2) hkind))
            (mapsOnly_univ _ _)
        refine ⟨hformed', hkeeps K (fun kind hkind d d' hedit => ?_) hK, hbacked.append ?_ ?_⟩
        · exact (hannouncing.keeps kind hkind d d' hedit).1
        · exact hsilent.mono fun entry hentry => hannouncing.only entry hentry
        · exact hkeeps J fun kind hkind d d' hedit => (hannouncing.keeps kind hkind d d' hedit).2
      · rintro ⟨hformed, hK, hbacked⟩
        obtain ⟨r, hr, rfl⟩ := createBreakpoint_record hcreate
        exact ⟨hformed, hK, hbacked.logged (hannouncing.at_address _ address r hK hr)⟩

theorem setBreakpoint_backed (specification : Text) :
    Within (Keeps fun s : State R D => WellFormed arch s.debugger.breakpoints ∧ K s.debugger ∧
      Backed base shown J s) (setBreakpoint arch env specification) := by
  refine Within.get_bind fun s => ?_
  split
  · rename_i hunresolved
    rintro ⟨hformed, hK, hbacked⟩
    let p : Breakpoint := ⟨s.debugger.nextBreakpointId, 0, specification, [], false, false, true⟩
    have hedit : Edit Set.univ ∅ .defer s.debugger _ := .defer s.debugger (p := p) rfl rfl rfl
    obtain ⟨hkeepsK, hkeepsJ⟩ := hannouncing.keeps .defer (by decide) _ _ hedit
    refine ⟨hformed, hkeepsK hK, Backed.logged (s := s.withDebugger _) ?_ ?_⟩
    · exact hbacked.append (.of_eq rfl) hkeepsJ
    · exact hannouncing.pending _ p (List.mem_append_right _ (List.mem_singleton_self p)) hunresolved
  · exact announceBreakpoints_backed hannouncing _ _ s

theorem dispatch_backed {line specification : Text}
    (hline : breakSpecification line = some specification) {s t : State R D} {goes : Bool}
    (hs : WellFormed arch s.debugger.breakpoints) (hK : K s.debugger)
    (hrun : dispatch arch env line s = .ok goes t)
    (hshown : (s.entriesSince t).any shown = true) : J t.debugger := by
  have hwithin : Within (Keeps fun u : State R D => WellFormed arch u.debugger.breakpoints ∧
      K u.debugger ∧ Backed s.log shown J u) (dispatch arch env line) := by
    rw [dispatch_break hline]
    refine Within.bind (Within.rescue (setBreakpoint_backed hannouncing _) ?_) fun _ => .pure _
    rintro exception u ⟨hformed, hK, hbacked⟩
    refine ⟨hformed, hK, hbacked.logged fun herror => ?_⟩
    rw [hannouncing.only _ rfl] at herror
    cases herror
  obtain ⟨-, -, newer, hnewer, hbacked⟩ := hwithin.of_ok hrun ⟨hs, hK, .start s⟩
  rw [entriesSince_of_append hnewer] at hshown
  exact hbacked hshown

end Announcing

/-! ### A user's breakpoint -/

/-- The record at this address, if there is one, stays when it is hit. -/
def Debugger.NoTemporaryAt (d : Debugger) (address : Address) : Prop :=
  ∀ r, d.breakpoints.find? address = some r → r.temporary = false

/-- The number is that of the record at this address. -/
def Debugger.NumberAt (d : Debugger) (id : Int) (address : Address) : Prop :=
  ∃ r, d.breakpoints.find? address = some r ∧ r.id = id

instance (d : Debugger) (id : Int) (address : Address) : Decidable (d.NumberAt id address) :=
  decidable_of_iff ((d.breakpoints.find? address).any (fun r => r.id = id) = true) (by
    simp [Debugger.NumberAt, Option.any_eq_true])

/-- And the record is not a temporary one. -/
def Debugger.UserNumberAt (d : Debugger) (id : Int) (address : Address) : Prop :=
  ∃ r, d.breakpoints.find? address = some r ∧ r.id = id ∧ r.temporary = false

section Users

variable {d d' : Debugger} {kind : EditKind} {id : Int} {address : Address}

theorem Edit.noTemporaryAt (hedit : Edit maps ids kind d d') (hkind : kind ∈ breaking)
    (hd : d.NoTemporaryAt address) : d'.NoTemporaryAt address := by
  intro r hr
  cases hedit with
  | patch _ key hchange =>
      obtain ⟨r₀, hr₀, hsame⟩ := find?_withRecord_sameIdentity hchange hr
      exact hsame.temporary.trans (hd r₀ hr₀)
  | create _ _ _ _ =>
      rw [SortedMap.find?_insert] at hr
      split at hr
      · obtain rfl := Option.some.inj hr
        simpa [breaking] using hkind
      · exact hd r hr
  | defer => exact hd r hr
  | _ => exact absurd hkind (by decide)

/-- Nothing but deleting its number removes a record that is not temporary. -/
theorem Edit.userNumberAt (hedit : Edit maps ids kind d d') (hid : id ∉ ids)
    (hd : d.UserNumberAt id address) : d'.UserNumberAt id address := by
  obtain ⟨r, hr, hrid, htemporary⟩ := hd
  cases hedit with
  | aside hbreakpoints => exact ⟨r, hbreakpoints ▸ hr, hrid, htemporary⟩
  | patch _ key hchange =>
      rw [Debugger.UserNumberAt, Debugger.withRecord, SortedMap.find?_modify]
      split
      · rename_i heq
        rw [← heq, hr]
        exact ⟨_, rfl, (hchange r).id.trans hrid, (hchange r).temporary.trans htemporary⟩
      · exact ⟨r, hr, hrid, htemporary⟩
  | create _ hfresh =>
      refine ⟨r, ?_, hrid, htemporary⟩
      rw [SortedMap.find?_insert_of_ne, hr]
      rintro rfl
      rw [hfresh] at hr
      cases hr
  | expire _ hr' htemporary' =>
      refine ⟨r, ?_, hrid, htemporary⟩
      rw [SortedMap.find?_erase, if_neg, hr]
      rintro rfl
      obtain rfl := Option.some.inj (hr.symm.trans hr')
      rw [htemporary] at htemporary'
      cases htemporary'
  | remove _ hr' hid' =>
      refine ⟨r, ?_, hrid, htemporary⟩
      rw [SortedMap.find?_erase, if_neg, hr]
      rintro rfl
      obtain rfl := Option.some.inj (hr.symm.trans hr')
      exact hid (hrid ▸ hid')
  | refresh | defer | dismiss | settle => exact ⟨r, hr, hrid, htemporary⟩

theorem announcing_users (id : Int) (address : Address) :
    Announcing (Entry.announces id address) (fun d => d.NoTemporaryAt address)
      (fun d => d.UserNumberAt id address) where
  only entry hentry := by
    unfold Entry.announces
    split
    · cases hentry
    · rfl
  keeps kind hkind d d' hedit := ⟨hedit.noTemporaryAt hkind, hedit.userNumberAt (Set.notMem_empty id)⟩
  at_address d key r hd hr hshown := by
    simp only [Entry.announces, Bool.and_eq_true, decide_eq_true_eq] at hshown
    obtain ⟨rfl, rfl⟩ := hshown
    exact ⟨r, hr, rfl, hd r hr⟩
  pending d p _ _ hshown := by cases hshown

/-- A number `break` reported stays with its address until it is deleted. -/
theorem Prompt.user_breakpoint_stays {child : Tid} {target : Target R D} {s t : State R D}
    {line specification : Text} (hs : Prompt arch env (State.initial child target) s)
    (hline : breakSpecification line = some specification)
    (hrun : dispatch arch env line s = .ok true t)
    (hreported : (s.entriesSince t).any (Entry.announces id address) = true)
    (htemporary : s.debugger.NoTemporaryAt address) :
    t.debugger.NumberAt id address ∧
      ∀ u, LaterVisited arch env (fun line => deletedId line ≠ some id) t u →
        u.debugger.NumberAt id address := by
  have ht : t.debugger.UserNumberAt id address :=
    dispatch_backed (announcing_users id address) hline hs.wellFormed htemporary hrun hreported
  have hnumber : ∀ {d : Debugger}, d.UserNumberAt id address → d.NumberAt id address :=
    fun ⟨r, hr, hid, _⟩ => ⟨r, hr, hid⟩
  refine ⟨hnumber ht, fun u hu => hnumber ?_⟩
  have hformed : WellFormed arch t.debugger.breakpoints := (Prompt.command line hs hrun).wellFormed
  have hedits : Edits env Set.univ {n | n ≠ id} editing t u := by
    refine hu.edits (fun line hline n hn heq => hline ?_) hformed
    rw [hn, heq]
  exact hedits.preserve (fun _ _ _ _ hedit hd => hedit.userNumberAt (by simp) hd)
    (mapsOnly_univ t u) ht

theorem Prompt.user_breakpoint_stays_nops :
    ∃ s t, Prompt x86_64 (runningMachine 4) (State.initial 1 (nopTarget 1)) s ∧
      dispatch x86_64 (runningMachine 4) "b *0x1003".toList s = .ok true t ∧
      t.debugger.NumberAt 1 0x1003 ∧
      ∀ u, LaterVisited x86_64 (runningMachine 4) (fun line => deletedId line ≠ some 1) t u →
        u.debugger.NumberAt 1 0x1003 := by
  obtain ⟨s, t, u, hs, hrun, hu, hcheck⟩ := exists_of_runAround x86_64 (runningMachine 4)
    (p := fun line => deletedId line ≠ some 1) (State.initial 1 (nopTarget 1)) []
    "b *0x1003".toList [] "c".toList (by simp) (by decide)
    (q := fun (s, t, _) => (s.entriesSince t).any (Entry.announces 1 0x1003) &&
      (s.debugger.breakpoints.find? 0x1003).isNone) (by decide +kernel)
  rw [Bool.and_eq_true, Option.isNone_iff_eq_none] at hcheck
  have htemporary : s.debugger.NoTemporaryAt 0x1003 := by
    intro r hr
    rw [hcheck.2] at hr
    cases hr
  have hline : breakSpecification "b *0x1003".toList = some "*0x1003".toList := by decide
  exact ⟨s, t, hs, hrun, Prompt.user_breakpoint_stays hs hline hrun hcheck.1 htemporary⟩

/-- The process gets a signal before it returns, then goes on. -/
def interrupted : Environment UserRegs X86_64.DebugRegisters :=
  nopMachine fun tick =>
    if tick < 19 then [.stop 1 10 0 0 0] else [.run 1, .run 1]

/-- `break` where an interrupted `finish` has left its record, which the next hit removes. -/
theorem user_breakpoint_expires :
    ∃ s t u, Prompt x86_64 interrupted (State.initial 1 (nopTarget 1)) s ∧
      dispatch x86_64 interrupted "b *0x9090909090909090".toList s = .ok true t ∧
      (s.entriesSince t).any (Entry.announces 1 0x9090909090909090) = true ∧
      LaterVisited x86_64 interrupted (fun line => deletedId line ≠ some 1) t u ∧
      ¬ u.debugger.NumberAt 1 0x9090909090909090 := by
  obtain ⟨s, t, u, hs, hrun, hu, hcheck⟩ := exists_of_runAround x86_64 interrupted
    (p := fun line => deletedId line ≠ some 1) (State.initial 1 (nopTarget 1)) ["finish".toList]
    "b *0x9090909090909090".toList ["register write rip 0x909090909090908f".toList] "c".toList
    (by decide) (by decide)
    (q := fun (s, t, u) => (s.entriesSince t).any (Entry.announces 1 0x9090909090909090) &&
      !decide (u.debugger.NumberAt 1 0x9090909090909090)) (by decide +kernel)
  rw [Bool.and_eq_true, Bool.not_eq_true', decide_eq_false_iff_not] at hcheck
  exact ⟨s, t, u, hs, hrun, hcheck.1, hu, hcheck.2⟩

end Users

/-! ### A pending breakpoint -/

/-- The specifications that resolve to nothing in these modules. -/
def unresolvedIn (specification : Text) : Set ModuleManager :=
  {modules | resolveSpecification modules specification = []}

/-- The number is that of a record for this location. -/
def Debugger.Answers (d : Debugger) (id : Int) (specification : Text) : Prop :=
  (∃ p ∈ d.pendingBreakpoints, p.id = id ∧ p.specification = specification) ∨
    ∃ address r, d.breakpoints.find? address = some r ∧ r.id = id ∧ r.specification = specification

/-- The record is still pending, and has to be. -/
structure Debugger.Awaits (d : Debugger) (id : Int) (specification : Text) : Prop where
  pending : ∃ p ∈ d.pendingBreakpoints, p.id = id ∧ p.specification = specification
  unresolved : d.modules ∈ unresolvedIn specification

section Pending

variable {d d' : Debugger} {kind : EditKind} {id : Int} {specification : Text}

theorem Edit.awaits (hedit : Edit maps ids kind d d') (hid : id ∉ ids)
    (hmaps : kind = .refresh → maps ⊆ unresolvedIn specification)
    (hd : d.Awaits id specification) : d'.Awaits id specification := by
  obtain ⟨⟨p, hp, hpid, hpspec⟩, hunresolved⟩ := hd
  cases hedit with
  | aside _ hpending _ hmodules =>
      exact ⟨⟨p, hpending ▸ hp, hpid, hpspec⟩, hmodules ▸ hunresolved⟩
  | refresh _ hmodules => exact ⟨⟨p, hp, hpid, hpspec⟩, hmaps rfl hmodules⟩
  | patch | create | expire | remove => exact ⟨⟨p, hp, hpid, hpspec⟩, hunresolved⟩
  | defer => exact ⟨⟨p, List.mem_append_left _ hp, hpid, hpspec⟩, hunresolved⟩
  | dismiss _ hid' =>
      refine ⟨⟨p, List.mem_filter.mpr ⟨hp, ?_⟩, hpid, hpspec⟩, hunresolved⟩
      rw [decide_eq_true_eq, hpid]
      rintro rfl
      exact hid hid'
  | settle _ hpending hresolved =>
      refine ⟨⟨p, ?_, hpid, hpspec⟩, hunresolved⟩
      rw [hpending, List.mem_append, List.mem_cons] at hp
      rcases hp with hp | rfl | hp
      · exact List.mem_append_left _ hp
      · exact absurd (hpspec ▸ hunresolved) hresolved
      · exact List.mem_append_right _ hp

theorem announcing_pending (id : Int) (specification : Text) :
    Announcing (Entry.announcesPending id specification) (fun _ => True)
      (fun d => d.Awaits id specification) where
  only entry hentry := by
    unfold Entry.announcesPending
    split
    · cases hentry
    · rfl
  keeps kind hkind d d' hedit := by
    refine ⟨fun _ => trivial, hedit.awaits (Set.notMem_empty id) ?_⟩
    rintro rfl
    exact absurd hkind (by decide)
  at_address d key r _ _ hshown := by cases hshown
  pending d p hp hunresolved hshown := by
    simp only [Entry.announcesPending, Bool.and_eq_true, decide_eq_true_eq] at hshown
    obtain ⟨rfl, rfl⟩ := hshown
    exact ⟨⟨p, hp, rfl, rfl⟩, hunresolved⟩

/-- A number that has been given out is not given to a record of the other table. -/
theorem Edit.unnumbered (hedit : Edit maps ids kind d d')
    (hd : id < d.nextBreakpointId ∧ ∀ address, ¬ d.NumberAt id address) :
    id < d'.nextBreakpointId ∧ ∀ address, ¬ d'.NumberAt id address := by
  obtain ⟨hnext, hfree⟩ := hd
  cases hedit with
  | aside hbreakpoints _ hnext' =>
      refine ⟨hnext' ▸ hnext, fun address hd' => hfree address ?_⟩
      rwa [Debugger.NumberAt, hbreakpoints] at hd'
  | refresh | dismiss | settle => exact ⟨hnext, hfree⟩
  | patch _ key hchange =>
      refine ⟨hnext, fun address ⟨r, hr, hid⟩ => ?_⟩
      obtain ⟨r₀, hr₀, hsame⟩ := find?_withRecord_sameIdentity hchange hr
      exact hfree address ⟨r₀, hr₀, hsame.id.symm.trans hid⟩
  | create _ _ hid =>
      refine ⟨hnext.trans (Int.lt_succ _), fun address ⟨r, hr, hrid⟩ => ?_⟩
      rw [SortedMap.find?_insert] at hr
      split at hr
      · obtain rfl := Option.some.inj hr
        omega
      · exact hfree address ⟨r, hr, hrid⟩
  | defer => exact ⟨hnext.trans (Int.lt_succ _), hfree⟩
  | expire | remove =>
      refine ⟨hnext, fun address ⟨r, hr, hid⟩ => ?_⟩
      obtain ⟨r₀, hr₀, hsame⟩ := find?_erase_sameIdentity hr
      exact hfree address ⟨r₀, hr₀, hsame.id.symm.trans hid⟩

/-- The number of a pending breakpoint stays as long as the process maps nothing in which its
specification resolves. It is never the number of a record that is in force. -/
theorem Prompt.pending_number_stays {child : Tid} {target : Target R D} {s t : State R D}
    {line location : Text} (hs : Prompt arch env (State.initial child target) s)
    (hline : breakSpecification line = some location)
    (hrun : dispatch arch env line s = .ok true t)
    (hreported : (s.entriesSince t).any (Entry.announcesPending id specification) = true) :
    t.debugger.Answers id specification ∧
      ∀ u, LaterVisited arch env (fun line => deletedId line ≠ some id) t u →
        (MapsOnly env (unresolvedIn specification) t u → u.debugger.Answers id specification) ∧
          ∀ address, ¬ u.debugger.NumberAt id address := by
  have ht : t.debugger.Awaits id specification :=
    dispatch_backed (announcing_pending id specification) hline hs.wellFormed trivial hrun hreported
  have hprompt : Prompt arch env (State.initial child target) t := .command line hs hrun
  refine ⟨Or.inl ht.pending, fun u hu => ⟨fun hmaps => Or.inl (Debugger.Awaits.pending ?_), ?_⟩⟩
  · have hedits : Edits env (unresolvedIn specification) {n | n ≠ id} editing t u := by
      refine hu.edits (fun line hline n hn heq => hline ?_) hprompt.wellFormed
      rw [hn, heq]
    exact hedits.preserve
      (fun _ _ _ _ hedit hd => hedit.awaits (by simp) (fun _ => subset_rfl) hd) hmaps ht
  · have htabled := hprompt.tabled
    obtain ⟨p, hp, hpid, -⟩ := ht.pending
    have hedits : Edits env Set.univ Set.univ editing t u :=
      hu.edits (fun _ _ _ _ => trivial) hprompt.wellFormed
    refine (hedits.preserve (fun _ _ _ _ hedit hd => hedit.unnumbered hd) (mapsOnly_univ t u)
      ⟨(htabled.bounds id (Or.inr ⟨p, hp, hpid⟩)).2, fun address ⟨r, hr, hid⟩ => ?_⟩).2
    exact htabled.apart address r hr p hp (hid.trans hpid.symm)

/-- A machine that maps nothing at all keeps to what is mapped. -/
theorem Machine.mapsOnly (machine : Machine R D)
    (hschedule : ∀ tick, ∀ action ∈ machine.schedule tick, action.isMap = false) {s : State R D}
    (hs : s.target.MapsIn maps) (t : State R D) : MapsOnly (machine.environment arch) maps s t where
  start := hs
  keeps tick _ target htarget modules hmodules := by
    refine htarget modules ?_
    rw [← performAll_maps arch machine.program (hschedule tick) target]
    exact hmodules

instance (target : Target R D) : Decidable (target.MapsIn (unresolvedIn specification)) :=
  decidable_of_iff
    (∀ modules ∈ target.maps.toList, resolveSpecification modules specification = []) (by
      simp [Target.MapsIn, unresolvedIn])

/-- Nothing is ever mapped in which the second breakpoint would resolve. -/
theorem Prompt.pending_number_stays_nops :
    ∃ s t u, Prompt x86_64 (runningMachine 4) (State.initial 1 (nopTarget 1)) s ∧
      dispatch x86_64 (runningMachine 4) "b late".toList s = .ok true t ∧
      LaterVisited x86_64 (runningMachine 4) (fun line => deletedId line ≠ some 2) t u ∧
      u.debugger.Answers 2 "late".toList := by
  obtain ⟨s, t, u, hs, hrun, hu, hcheck⟩ := exists_of_runAround x86_64 (runningMachine 4)
    (p := fun line => deletedId line ≠ some 2) (State.initial 1 (nopTarget 1)) ["b *0x1003".toList]
    "b late".toList [] "c".toList (by simp) (by decide)
    (q := fun (s, t, _) => (s.entriesSince t).any (Entry.announcesPending 2 "late".toList) &&
      decide (t.target.MapsIn (unresolvedIn "late".toList))) (by decide +kernel)
  rw [Bool.and_eq_true, decide_eq_true_eq] at hcheck
  have hline : breakSpecification "b late".toList = some "late".toList := by decide
  obtain ⟨-, hstays⟩ := Prompt.pending_number_stays hs hline hrun hcheck.1
  refine ⟨s, t, u, hs, hrun, hu, (hstays u hu).1 ?_⟩
  refine Machine.mapsOnly ⟨nops, fun _ => List.replicate 4 (.run 1), fun _ => false⟩ ?_ hcheck.2 u
  intro _ action hmem
  rw [List.eq_of_mem_replicate hmem]
  rfl

/-- A library with the symbol `late`. -/
def lateLibrary : ModuleManager :=
  { ModuleManager.unloaded with
    resolveSymbol := fun name _ => if name = "late".toList then some 0x1003 else none }

/-- The process maps the library once it is let go, and gets a signal. -/
def loading : Environment UserRegs X86_64.DebugRegisters :=
  nopMachine fun tick => if tick < 6 then [] else [.map (some lateLibrary), .stop 1 10 0 0 0]

theorem Debugger.Answers.live {d : Debugger} (hd : d.Answers id specification) : d.Live id := by
  rcases hd with ⟨p, hp, hid, -⟩ | ⟨key, r, hr, hid, -⟩
  · exact Or.inr ⟨p, hp, hid⟩
  · exact Or.inl ⟨key, r, hr, hid⟩

instance (d : Debugger) (id : Int) : Decidable (d.Live id) :=
  decidable_of_iff ((∃ entry ∈ d.breakpoints.entries, entry.2.id = id) ∨
    ∃ p ∈ d.pendingBreakpoints, p.id = id) (by
      refine or_congr_left ⟨?_, ?_⟩
      · rintro ⟨entry, hmem, hid⟩
        exact ⟨entry.1, entry.2, SortedMap.mem_entries_iff.mp hmem, hid⟩
      · rintro ⟨key, r, hr, hid⟩
        exact ⟨(key, r), SortedMap.mem_entries_iff.mpr hr, hid⟩)

/-- A pending breakpoint resolves, and its number is no longer that of any record. -/
theorem pending_number_expires :
    ∃ s t u, Prompt x86_64 loading (State.initial 1 (nopTarget 1)) s ∧
      dispatch x86_64 loading "b late".toList s = .ok true t ∧
      (s.entriesSince t).any (Entry.announcesPending 1 "late".toList) = true ∧
      LaterVisited x86_64 loading (fun line => deletedId line ≠ some 1) t u ∧
      (t.debugger.breakpoints.find? 0x1003).isNone = true ∧
      (u.debugger.breakpoints.find? 0x1003).isSome = true ∧
      ¬ u.debugger.Answers 1 "late".toList := by
  obtain ⟨s, t, u, hs, hrun, hu, hcheck⟩ := exists_of_runAround x86_64 loading
    (p := fun line => deletedId line ≠ some 1) (State.initial 1 (nopTarget 1)) []
    "b late".toList [] "c".toList (by simp) (by decide)
    (q := fun (s, t, u) => (s.entriesSince t).any (Entry.announcesPending 1 "late".toList) &&
      (t.debugger.breakpoints.find? 0x1003).isNone &&
      (u.debugger.breakpoints.find? 0x1003).isSome && !decide (u.debugger.Live 1))
    (by decide +kernel)
  simp only [Bool.and_eq_true, Bool.not_eq_true', decide_eq_false_iff_not] at hcheck
  obtain ⟨⟨⟨hreported, hfree⟩, hresolved⟩, hdead⟩ := hcheck
  exact ⟨s, t, u, hs, hrun, hreported, hu, hfree, hresolved, fun hanswers => hdead hanswers.live⟩

end Pending

end Cosy
