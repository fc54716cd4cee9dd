import Cosy.Frames

/-!
# Edits of the breakpoint tables

Everything debugger code does to `breakpoints_` and `pending_breakpoints_` is a sequence of edits,
each of one of a few kinds. As with the moves, what a function does is said once, and an invariant
of the tables is proved once for each kind.
-/

namespace Cosy

open ByteMemory Effect

variable {R D α : Type} {arch : Architecture R D} {env : Environment R D} {maps : Set ModuleManager}
  {ids : Set Int}

/-- What nothing that works on a record changes. -/
structure Breakpoint.SameIdentity (r r' : Breakpoint) : Prop where
  id : r'.id = r.id
  address : r'.address = r.address
  temporary : r'.temporary = r.temporary
  pending : r'.pending = r.pending

theorem Breakpoint.SameIdentity.refl (r : Breakpoint) : r.SameIdentity r := ⟨rfl, rfl, rfl, rfl⟩

theorem Breakpoint.SameIdentity.trans {r r' r'' : Breakpoint} (hfirst : r.SameIdentity r')
    (hsecond : r'.SameIdentity r'') : r.SameIdentity r'' :=
  ⟨hsecond.id.trans hfirst.id, hsecond.address.trans hfirst.address,
    hsecond.temporary.trans hfirst.temporary, hsecond.pending.trans hfirst.pending⟩

inductive EditKind where
  | aside
  | refresh
  | patch
  | create (temporary : Bool)
  | defer
  | expire
  | remove
  | settle
deriving DecidableEq

/-- One change of the debugger's fields, where a refresh may find these modules and the user may
delete these numbers. -/
inductive Edit (maps : Set ModuleManager) (ids : Set Int) : EditKind → Debugger → Debugger → Prop
  /-- A change of anything but the tables and what they are resolved with. -/
  | aside {d d' : Debugger} (hbreakpoints : d'.breakpoints = d.breakpoints)
      (hpending : d'.pendingBreakpoints = d.pendingBreakpoints)
      (hnext : d'.nextBreakpointId = d.nextBreakpointId) (hmodules : d'.modules = d.modules) :
      Edit maps ids .aside d d'
  | refresh (d : Debugger) {modules : ModuleManager} (hmodules : modules ∈ maps) :
      Edit maps ids .refresh d { d with modules := modules }
  /-- The bytes or the flag of a record change. -/
  | patch (d : Debugger) (key : Address) {change : Breakpoint → Breakpoint}
      (hchange : ∀ r : Breakpoint, r.SameIdentity (change r)) : Edit maps ids .patch d (d.withRecord key change)
  | create (d : Debugger) {r : Breakpoint} (hfresh : d.breakpoints.find? r.address = none)
      (hid : r.id = d.nextBreakpointId) (hpending : r.pending = false) :
      Edit maps ids (.create r.temporary) d
        { d with
          breakpoints := d.breakpoints.insert r.address r
          nextBreakpointId := d.nextBreakpointId + 1 }
  | defer (d : Debugger) {p : Breakpoint} (hid : p.id = d.nextBreakpointId)
      (hpending : p.pending = true) (henabled : p.enabled = false) :
      Edit maps ids .defer d
        { d with
          nextBreakpointId := d.nextBreakpointId + 1
          pendingBreakpoints := d.pendingBreakpoints ++ [p] }
  /-- A temporary record goes away. -/
  | expire (d : Debugger) {key : Address} {r : Breakpoint}
      (hr : d.breakpoints.find? key = some r) (htemporary : r.temporary = true) :
      Edit maps ids .expire d { d with breakpoints := d.breakpoints.erase key }
  | remove (d : Debugger) {key : Address} {r : Breakpoint}
      (hr : d.breakpoints.find? key = some r) (hid : r.id ∈ ids) :
      Edit maps ids .remove d { d with breakpoints := d.breakpoints.erase key }
  | dismiss (d : Debugger) {id : Int} (hid : id ∈ ids) :
      Edit maps ids .remove d
        { d with pendingBreakpoints := d.pendingBreakpoints.filter fun p => p.id ≠ id }
  /-- A pending record is dropped because its specification has been resolved. -/
  | settle (d : Debugger) {kept rest : List Breakpoint} {p : Breakpoint}
      (hpending : d.pendingBreakpoints = kept ++ p :: rest)
      (hresolved : resolveSpecification d.modules p.specification ≠ []) :
      Edit maps ids .settle d { d with pendingBreakpoints := kept ++ rest }

/-- If memory maps can be read, they show one of these. -/
def Target.MapsIn (target : Target R D) (maps : Set ModuleManager) : Prop :=
  ∀ modules, target.maps = some modules → modules ∈ maps

/-- From `s` on until `t` the process maps nothing but these. -/
structure MapsOnly (env : Environment R D) (maps : Set ModuleManager) (s t : State R D) : Prop where
  start : s.target.MapsIn maps
  keeps : ∀ tick ∈ Set.Ico s.tick t.tick, ∀ target : Target R D,
    target.MapsIn maps → (env.interfere tick target).2.MapsIn maps

/-- Some number of edits, each of one of the kinds, if the process maps nothing but these modules
meanwhile. -/
def Edits (env : Environment R D) (maps : Set ModuleManager) (ids : Set Int) (kinds : List EditKind)
    (s t : State R D) : Prop :=
  s.tick ≤ t.tick ∧ (MapsOnly env maps s t → t.target.MapsIn maps ∧ Relation.ReflTransGen
    (fun d d' => ∃ kind ∈ kinds, Edit maps ids kind d d') s.debugger t.debugger)

instance (maps : Set ModuleManager) (ids : Set Int) (kinds : List EditKind) :
    IsPreorder (State R D) (Edits env maps ids kinds) where
  refl _ := ⟨le_rfl, fun hmaps => ⟨hmaps.start, .refl⟩⟩
  trans s t u hst htu := by
    refine ⟨hst.1.trans htu.1, fun hmaps => ?_⟩
    obtain ⟨hmapped, hfirst⟩ := hst.2 ⟨hmaps.start, fun tick htick =>
      hmaps.keeps tick ⟨htick.1, htick.2.trans_le htu.1⟩⟩
    obtain ⟨hmapped', hsecond⟩ := htu.2 ⟨hmapped, fun tick htick =>
      hmaps.keeps tick ⟨hst.1.trans htick.1, htick.2⟩⟩
    exact ⟨hmapped', hfirst.trans hsecond⟩

/-- A function makes only edits of these kinds, whatever becomes of it. -/
abbrev Makes (env : Environment R D) (maps : Set ModuleManager) (ids : Set Int) (kinds : List EditKind)
    (m : Dbg R D α) : Prop := Within (Edits env maps ids kinds) m

section Edits

variable {kinds kinds' : List EditKind} {s t : State R D}

theorem Edits.mono (hst : Edits env maps ids kinds s t) (hkinds : kinds ⊆ kinds') :
    Edits env maps ids kinds' s t :=
  ⟨hst.1, fun hmaps => ⟨(hst.2 hmaps).1, Relation.ReflTransGen.mono
    (fun _ _ ⟨kind, hkind, hedit⟩ => ⟨kind, hkinds hkind, hedit⟩) _ _ (hst.2 hmaps).2⟩⟩

theorem Makes.mono {m : Dbg R D α} (hm : Makes env maps ids kinds m) (hkinds : kinds ⊆ kinds') :
    Makes env maps ids kinds' m :=
  Within.mono hm fun _ _ hst => hst.mono hkinds

theorem Edits.preserve {I : Debugger → Prop}
    (hstep : ∀ kind ∈ kinds, ∀ d d', Edit maps ids kind d d' → I d → I d')
    (hst : Edits env maps ids kinds s t) (hmaps : MapsOnly env maps s t) (hs : I s.debugger) :
    I t.debugger := by
  refine Relation.ReflTransGen.head_induction_on (motive := fun d _ => I d → I t.debugger)
    (hst.2 hmaps).2 id ?_ hs
  rintro d d' ⟨kind, hkind, hedit⟩ - ih hd
  exact ih (hstep kind hkind d d' hedit hd)

theorem mapsOnly_univ (s t : State R D) : MapsOnly env Set.univ s t :=
  ⟨fun _ _ => trivial, fun _ _ _ _ _ _ => trivial⟩

theorem Edits.of_same (hdebugger : t.debugger = s.debugger) (htick : t.tick = s.tick)
    (htarget : t.target.maps = s.target.maps) : Edits env maps ids kinds s t :=
  ⟨htick.ge, fun hmaps =>
    ⟨fun modules hmodules => hmaps.start modules (htarget ▸ hmodules), hdebugger ▸ .refl⟩⟩

theorem Edits.of_enter (hdebugger : t.debugger = s.debugger) (htick : t.tick = s.tick + 1)
    (htarget : t.target.maps = (env.enter s).target.maps) : Edits env maps ids kinds s t := by
  refine ⟨htick ▸ Nat.le_succ _, fun hmaps => ⟨fun modules hmodules => ?_, hdebugger ▸ .refl⟩⟩
  rw [htarget, enter_target] at hmodules
  exact hmaps.keeps s.tick ⟨le_rfl, htick ▸ Nat.lt_succ_self _⟩ s.target hmaps.start modules hmodules

theorem edits_enter (s : State R D) : Edits env maps ids kinds s (env.enter s) :=
  .of_enter rfl rfl rfl

theorem Edits.of_edit {kind : EditKind} (hkind : kind ∈ kinds) (htick : t.tick = s.tick)
    (htarget : t.target.maps = s.target.maps) (hedit : Edit maps ids kind s.debugger t.debugger) :
    Edits env maps ids kinds s t :=
  ⟨htick.ge, fun hmaps => ⟨fun modules hmodules => hmaps.start modules (htarget ▸ hmodules),
    .single ⟨kind, hkind, hedit⟩⟩⟩

theorem tolerates_edits : Tolerates env (fun _ => True) (Edits env maps ids kinds) where
  request {_ operation tid request} hrequest s := by
    rcases ptrace_cases env operation tid request s with ⟨task, -, -, -, hrun⟩ | ⟨-, hrun⟩
    · rw [WithinAt, endState_of_ok hrun]
      exact .of_enter rfl rfl (hrequest task _)
    · rw [WithinAt, endState_of_error hrun]
      exact edits_enter s
  note _ _ := Within.modify fun _ => .of_same rfl rfl rfl

theorem makes_note (entry : Entry) : Makes (R := R) (D := D) env maps ids kinds (note entry) :=
  tolerates_edits.note entry trivial

theorem makes_print (message : Message) :
    Makes (R := R) (D := D) env maps ids kinds (print message) := makes_note _

theorem makes_modify {kind : EditKind} (hkind : kind ∈ kinds) {change : Debugger → Debugger}
    (hchange : ∀ d, Edit maps ids kind d (change d)) :
    Makes (R := R) (D := D) env maps ids kinds (modifyDebugger change) :=
  Within.modify fun s => .of_edit hkind rfl rfl (hchange s.debugger)

theorem makes_aside (hkind : EditKind.aside ∈ kinds) {change : Debugger → Debugger}
    (hchange : ∀ d, (change d).breakpoints = d.breakpoints ∧
      (change d).pendingBreakpoints = d.pendingBreakpoints ∧
      (change d).nextBreakpointId = d.nextBreakpointId ∧ (change d).modules = d.modules) :
    Makes (R := R) (D := D) env maps ids kinds (modifyDebugger change) :=
  makes_modify hkind fun d =>
    .aside (hchange d).1 (hchange d).2.1 (hchange d).2.2.1 (hchange d).2.2.2

/-- Only edits of one kind touch the pending records and the modules, as far as these go. -/
theorem Edit.samePending {maps : Set ModuleManager} {kind : EditKind} {d d' : Debugger}
    (hedit : Edit maps ids kind d d') (hkind : kind ∈ [.patch, .create false, .create true]) :
    d'.pendingBreakpoints = d.pendingBreakpoints ∧ d'.modules = d.modules := by
  cases hedit with
  | patch | create => exact ⟨rfl, rfl⟩
  | _ => exact absurd hkind (by decide)

end Edits

/-! ### Records -/

section Records

variable {kinds : List EditKind}

theorem makes_modifyBreakpoint (hkind : EditKind.patch ∈ kinds) (key : Address)
    {change : Breakpoint → Breakpoint} (hchange : ∀ r : Breakpoint, r.SameIdentity (change r)) :
    Makes (R := R) (D := D) env maps ids kinds (modifyBreakpoint key change) :=
  makes_modify hkind fun d => .patch d key hchange

theorem makes_insertTrap (hkind : EditKind.patch ∈ kinds) (key address : Address) :
    Makes env maps ids kinds (insertTrap arch env key address) := by
  refine Within.bind (tolerates_edits.peeks.readBytes _ _) fun saved => ?_
  refine Within.bind (makes_modifyBreakpoint hkind key fun _ => ⟨rfl, rfl, rfl, rfl⟩) fun _ => ?_
  refine Within.bind (tolerates_edits.writeBytes _ _) fun _ => ?_
  exact makes_modifyBreakpoint hkind key fun _ => ⟨rfl, rfl, rfl, rfl⟩

theorem makes_enable (hkind : EditKind.patch ∈ kinds) (key : Address) :
    Makes env maps ids kinds (enable arch env key) := by
  refine Within.get_bind fun s => ?_
  cases s.debugger.breakpoints.find? key with
  | none => exact .pure _
  | some r =>
      refine Within.ite (fun _ => .pure _) (fun _ => ?_) s
      refine Within.bind (makes_note _) fun _ t => ?_
      exact WithinAt.onThrow (makes_insertTrap hkind _ _ t) fun _ _ _ => .of_same rfl rfl rfl

theorem makes_disable (hkind : EditKind.patch ∈ kinds) (key : Address) :
    Makes env maps ids kinds (disable env key) := by
  refine Within.get_bind fun s => ?_
  cases s.debugger.breakpoints.find? key with
  | none => exact .pure _
  | some r =>
      refine Within.ite (fun _ => .pure _) (fun _ => ?_) s
      refine Within.bind (tolerates_edits.writeBytes _ _) fun _ => ?_
      refine Within.get_bind fun t => Within.bind (makes_note _) (fun _ => ?_) t
      refine Within.bind (makes_modifyBreakpoint hkind key fun _ => ⟨rfl, rfl, rfl, rfl⟩) fun _ => ?_
      exact makes_note _

theorem makes_noteUserEnabled (key : Address) :
    Makes (R := R) (D := D) env maps ids kinds (noteUserEnabled key) := by
  refine Within.get_bind fun s => ?_
  cases s.debugger.breakpoints.find? key with
  | none => exact .pure _
  | some r => exact Within.doIf (fun _ => makes_note _) s

theorem makes_createBreakpoint (hpatch : EditKind.patch ∈ kinds) {temporary : Bool}
    (hcreate : EditKind.create temporary ∈ kinds) (address : Address) (specification : Text) :
    Makes env maps ids kinds (createBreakpoint arch env address specification temporary) := by
  refine Within.get_bind fun s => ?_
  cases hfresh : s.debugger.breakpoints.find? address with
  | some existing => exact .pure _
  | none =>
      refine WithinAt.modify_bind (.of_edit hcreate rfl rfl ?_) ?_
      · exact Edit.create s.debugger (r := ⟨s.debugger.nextBreakpointId, address, specification, [],
          false, temporary, false⟩) hfresh rfl rfl
      · refine Within.bind (makes_enable hpatch address) (fun _ => ?_) _
        exact Within.bind (makes_noteUserEnabled address) fun _ => .pure _

theorem makes_createPendingBreakpoint (hkind : EditKind.defer ∈ kinds) (specification : Text) :
    Makes (R := R) (D := D) env maps ids kinds (createPendingBreakpoint specification) := by
  refine Within.get_bind fun s => WithinAt.bind (.modify (.of_edit hkind rfl rfl ?_)) fun _ _ _ => .pure _
  exact Edit.defer s.debugger (p := ⟨s.debugger.nextBreakpointId, 0, specification, [], false, false,
    true⟩) rfl rfl rfl

/-- Lifting a trap changes at most the flag of its record. -/
theorem disable_sameIdentity {key key' : Address} {s t : State R D} {r : Breakpoint}
    (hrun : disable env key s = .ok ⟨⟩ t) (hr : s.debugger.breakpoints.find? key' = some r) :
    ∃ r', t.debugger.breakpoints.find? key' = some r' ∧ r.SameIdentity r' := by
  rcases (disable_debugger env key s).of_ok rfl hrun with hdebugger | hdebugger
  · exact ⟨r, hdebugger ▸ hr, .refl r⟩
  · rw [hdebugger, Debugger.withRecord, SortedMap.find?_modify]
    split
    · rename_i heq
      subst heq
      rw [hr]
      exact ⟨_, rfl, ⟨rfl, rfl, rfl, rfl⟩⟩
    · exact ⟨r, hr, .refl r⟩

theorem makes_removeBreakpoint (hpatch : EditKind.patch ∈ kinds) (hremove : EditKind.remove ∈ kinds)
    {id : Int} (hid : id ∈ ids) : Makes env maps ids kinds (removeBreakpoint env id) := by
  refine Within.get_bind fun s => ?_
  cases hkey : keyOfId s.debugger.breakpoints id with
  | none => exact makes_modify hremove (fun d => .dismiss d hid) s
  | some key =>
      obtain ⟨entry, hfound, rfl⟩ := Option.map_eq_some_iff.mp hkey
      have hr : s.debugger.breakpoints.find? entry.1 = some entry.2 :=
        SortedMap.mem_entries_iff.mp (List.mem_of_find?_eq_some hfound)
      have hrid : entry.2.id = id := by simpa using List.find?_some hfound
      refine WithinAt.modify_bind (.of_same rfl rfl rfl) ?_
      refine WithinAt.bind (makes_disable hpatch entry.1 _) fun _ t hrun => ?_
      obtain ⟨r, hr', hsame⟩ := disable_sameIdentity hrun hr
      refine .modify (.of_edit hremove rfl rfl ?_)
      exact .remove _ hr' (hsame.id.trans hrid ▸ hid)

end Records

/-! ### Resolving specifications -/

section Resolving

variable {kinds : List EditKind}

theorem makes_refreshModules (hkind : EditKind.refresh ∈ kinds) :
    Makes env maps ids kinds (refreshModules env) := by
  intro s
  refine WithinAt.modify_bind (edits_enter s) (WithinAt.get_bind ?_)
  cases hmaps : (env.enter s).target.maps with
  | none => exact .throw _
  | some modules =>
      exact ⟨le_rfl, fun honly =>
        ⟨honly.start, .single ⟨.refresh, hkind, .refresh _ (honly.start modules hmaps)⟩⟩⟩

theorem makes_announceResolved (hpatch : EditKind.patch ∈ kinds)
    (hcreate : EditKind.create false ∈ kinds) (specification : Text) (addresses : List Address) :
    Makes env maps ids kinds (announceResolved arch env specification addresses) := by
  induction addresses with
  | nil => exact .pure _
  | cons address rest ih =>
      refine Within.bind (makes_createBreakpoint hpatch hcreate _ _) fun id => ?_
      exact Within.bind (makes_print _) fun _ => ih

/-- The list the loop goes through is the one in the debugger. -/
theorem edits_resolvePendingFrom (hpatch : EditKind.patch ∈ kinds)
    (hcreate : EditKind.create false ∈ kinds) (hsettle : EditKind.settle ∈ kinds)
    (pending : List Breakpoint) :
    ∀ (kept : List Breakpoint) (s : State R D), s.debugger.pendingBreakpoints = kept ++ pending →
      WithinAt (Edits env maps ids kinds) (resolvePendingFrom arch env kept pending) s := by
  induction pending with
  | nil => exact fun _ _ _ => .pure _
  | cons p rest ih =>
      intro kept s hpending
      refine WithinAt.get_bind ?_
      cases hresolved : resolveSpecification s.debugger.modules p.specification with
      | nil => exact ih (kept ++ [p]) s (by rw [hpending, List.append_assoc, List.singleton_append])
      | cons address addresses =>
          refine WithinAt.bind (makes_announceResolved hpatch hcreate _ _ s) fun _ t hrun => ?_
          -- Creating records leaves the pending ones and the modules as they are.
          have hcreated : Makes env Set.univ ids [.patch, .create false]
              (announceResolved arch env p.specification (address :: addresses)) :=
            makes_announceResolved (by simp) (by simp) _ _
          obtain ⟨hsame, hmodules⟩ := (hcreated.of_ok hrun).preserve
            (I := fun d => d.pendingBreakpoints = s.debugger.pendingBreakpoints ∧
              d.modules = s.debugger.modules)
            (fun kind hkind _ _ hedit hd =>
              have hnext := hedit.samePending (List.mem_of_mem_take (i := 2) hkind)
              ⟨hnext.1.trans hd.1, hnext.2.trans hd.2⟩) (mapsOnly_univ s t) ⟨rfl, rfl⟩
          refine WithinAt.modify_bind (.of_edit hsettle rfl rfl ?_) (ih kept _ rfl)
          refine .settle _ (hsame.trans hpending) ?_
          rw [hmodules, hresolved]
          exact List.cons_ne_nil _ _

theorem makes_resolvePendingBreakpoints (hpatch : EditKind.patch ∈ kinds)
    (hcreate : EditKind.create false ∈ kinds) (hsettle : EditKind.settle ∈ kinds) :
    Makes env maps ids kinds (resolvePendingBreakpoints arch env) :=
  Within.get_bind fun s => edits_resolvePendingFrom hpatch hcreate hsettle _ [] s rfl

theorem makes_announceBreakpoints (hpatch : EditKind.patch ∈ kinds)
    (hcreate : EditKind.create false ∈ kinds) (specification : Text) (addresses : List Address) :
    Makes env maps ids kinds (announceBreakpoints arch env specification addresses) := by
  induction addresses with
  | nil => exact .pure _
  | cons address rest ih =>
      refine Within.bind (makes_createBreakpoint hpatch hcreate _ _) fun id => ?_
      exact Within.bind (makes_print _) fun _ => ih

theorem makes_setBreakpoint (hpatch : EditKind.patch ∈ kinds)
    (hcreate : EditKind.create false ∈ kinds) (hdefer : EditKind.defer ∈ kinds)
    (specification : Text) : Makes env maps ids kinds (setBreakpoint arch env specification) := by
  refine Within.get_bind fun s => ?_
  split
  · exact Within.bind (makes_createPendingBreakpoint hdefer _) (fun _ => makes_print _) s
  · exact makes_announceBreakpoints hpatch hcreate _ _ s

theorem makes_enableById (hkind : EditKind.patch ∈ kinds) (id : Int) :
    Makes env maps ids kinds (enableById arch env id) :=
  Within.get_bind fun s => within_forEachWithId _ (fun entry _ _ =>
    Within.bind (makes_enable hkind entry.1) fun _ => makes_noteUserEnabled entry.1) s

theorem makes_disableById (hkind : EditKind.patch ∈ kinds) (id : Int) :
    Makes env maps ids kinds (disableById env id) :=
  Within.get_bind fun s => within_forEachWithId _ (fun entry _ _ =>
    Within.bind (makes_note _) fun _ => makes_disable hkind entry.1) s

end Resolving

/-! ### Watchpoints -/

section Watchpoints

variable {kinds : List EditKind}

theorem makes_configureWatchpoint (tid : Tid) (slot : Nat) (address : Address)
    (watchAccess : WatchAccess) (bytes : Nat) :
    Makes env maps ids kinds (configureWatchpoint arch env tid slot address watchAccess bytes) := by
  unfold configureWatchpoint
  split
  · exact .throw _
  · exact Within.bind (tolerates_edits.request fun _ _ => rfl) fun debug =>
      Within.forM _ fun _ _ => (tolerates_edits.request fun _ _ => rfl)

theorem makes_configureThreadWatchpoints (tid : Tid) :
    Makes env maps ids kinds (configureThreadWatchpoints arch env tid) :=
  Within.get_bind fun s => Within.forM _ (fun _ _ => makes_configureWatchpoint _ _ _ _ _) s

theorem makes_addWatchpoint (hkind : EditKind.aside ∈ kinds) (address : Address)
    (watchAccess : WatchAccess) (bytes : Nat) :
    Makes env maps ids kinds (addWatchpoint arch env address watchAccess bytes) := by
  refine Within.get_bind fun s => Within.ite (fun _ => makes_print _) (fun _ => ?_) s
  refine Within.rescue ?_ fun _ => makes_print _
  refine Within.bind (Within.forM _ fun _ _ => Within.ite (fun _ => ?_) fun _ => .pure _) fun _ => ?_
  · exact makes_configureWatchpoint _ _ _ _ _
  · exact Within.bind (makes_aside hkind fun _ => ⟨rfl, rfl, rfl, rfl⟩) fun _ => makes_print _

theorem makes_setWatchpoint (hkind : EditKind.aside ∈ kinds) (arguments : List Text) :
    Makes env maps ids kinds (setWatchpoint arch env arguments) := by
  refine Within.ite (fun _ => makes_print _) fun _ => ?_
  split
  · exact makes_print _
  split
  · exact makes_print _
  split
  · exact makes_print _
  · exact makes_addWatchpoint hkind _ _ _

end Watchpoints

/-! ### Reporting a stop -/

section Reporting

variable {kinds : List EditKind} (hpatch : EditKind.patch ∈ kinds) (hexpire : EditKind.expire ∈ kinds)

include hpatch hexpire

/-- Only a temporary record is dropped for having been hit. -/
theorem edits_announceRecord (tid : Tid) {key : Address} {r : Breakpoint} {s : State R D}
    (hr : s.debugger.breakpoints.find? key = some r) :
    WithinAt (Edits env maps ids kinds) (announceRecord env tid r key) s := by
  refine WithinAt.modify_bind (.of_same rfl rfl rfl) (WithinAt.modify_bind (.of_same rfl rfl rfl) ?_)
  unfold doIf
  split
  · rename_i htemporary
    refine WithinAt.bind (WithinAt.bind (makes_disable hpatch key _) fun _ t hrun => ?_)
      fun _ t _ => makes_print _ t
    obtain ⟨r', hr', hsame⟩ := disable_sameIdentity hrun hr
    exact .modify (.of_edit hexpire rfl rfl (.expire _ hr' (hsame.temporary.trans htemporary)))
  · exact .pure _

theorem makes_inspectBreakpoint (tid : Tid) (candidate : Address) :
    Makes env maps ids kinds (inspectBreakpoint arch env tid candidate) := by
  refine Within.get_bind fun s => ?_
  cases hr : s.debugger.breakpoints.find? candidate with
  | none => exact .pure _
  | some r =>
      refine WithinAt.bind (tolerates_edits.setPc trivial s) fun _ t hrun => ?_
      have hsame : Within (fun s t : State R D => t.debugger = s.debugger)
          (setPc arch env tid candidate) := (sameDebugger env).setPc trivial
      have hdebugger : t.debugger = s.debugger := hsame.of_ok hrun
      exact edits_announceRecord hpatch hexpire tid (hdebugger ▸ hr)

theorem makes_inspectTrap (tid : Tid) : Makes env maps ids kinds (inspectTrap arch env tid) := by
  refine Within.bind (tolerates_edits.peeks.pc tid) fun stoppedAt => ?_
  refine Within.bind (makes_inspectBreakpoint hpatch hexpire tid _) fun _ => ?_
  exact Within.get_bind fun t => tolerates_edits.inspectWatchpoints (fun _ _ => trivial) tid _ t

theorem makes_printStopped (tid : Tid) (signal : Nat) :
    Makes env maps ids kinds (printStopped arch env tid signal) := by
  have hlocation : Makes env maps ids kinds
      (attempt (printLocation arch env tid) fun _ => pure ⟨⟩) :=
    Within.rescue (tolerates_edits.printLocation (fun _ _ => trivial) (fun _ _ => trivial) tid)
      fun _ => .pure _
  unfold printStopped
  split
  · exact Within.bind (Within.rescue (makes_inspectTrap hpatch hexpire tid) fun _ => makes_print _)
      fun _ => hlocation
  · split
    · exact Within.bind (makes_print _) fun _ => hlocation
    · exact Within.bind (makes_print _) fun _ => hlocation

theorem makes_printStop (tid : Tid) : Makes env maps ids kinds (printStop arch env tid) := by
  refine Within.get_bind fun s => ?_
  cases s.debugger.stopSignal tid with
  | none => exact .pure _
  | some signal => exact makes_printStopped hpatch hexpire tid signal s

theorem makes_reportStop (tid : Tid) : Makes env maps ids kinds (reportStop arch env tid) := by
  refine Within.get_bind fun s => WithinAt.modify_bind (.of_same rfl rfl rfl) ?_
  refine WithinAt.bind (WithinAt.onThrow (makes_printStop hpatch hexpire tid _) ?_) ?_
  · exact fun _ _ _ => .of_same rfl rfl rfl
  · exact fun _ t _ => makes_note _ t

end Reporting

/-! ### Waiting and resuming -/

/-- What consuming an event may do to the tables. -/
def consuming : List EditKind := [.aside, .refresh, .patch, .create false, .expire, .settle]

section Consuming

theorem aside_mem_consuming : EditKind.aside ∈ consuming := by decide

theorem patch_mem_consuming : EditKind.patch ∈ consuming := by decide

theorem expire_mem_consuming : EditKind.expire ∈ consuming := by decide

theorem makes_waitForEvent {kinds : List EditKind} :
    Makes env maps ids kinds (waitForEvent env) := by
  intro s
  rcases waitForEvent_cases env s with ⟨tid, status, rest, -, hrun⟩ | ⟨-, halt, hrun⟩
  · rw [WithinAt, endState_of_ok hrun]
    exact .of_enter rfl rfl rfl
  · rw [WithinAt, endState_of_error hrun]
    exact edits_enter s

theorem makes_refreshTarget : Makes env maps ids consuming (refreshTarget arch env) :=
  Within.bind (makes_refreshModules (by decide)) fun _ =>
    makes_resolvePendingBreakpoints (by decide) (by decide) (by decide)

theorem makes_threads {change : Debugger → Debugger}
    (hchange : ∀ d, (change d).breakpoints = d.breakpoints ∧
      (change d).pendingBreakpoints = d.pendingBreakpoints ∧
      (change d).nextBreakpointId = d.nextBreakpointId ∧ (change d).modules = d.modules) :
    Makes (R := R) (D := D) env maps ids consuming (modifyDebugger change) :=
  makes_aside aside_mem_consuming hchange

theorem makes_handleStop (tid : Tid) (signal event : Nat) :
    Makes env maps ids consuming (handleStop arch env tid signal event) := by
  refine Within.bind (makes_threads fun _ => ⟨rfl, rfl, rfl, rfl⟩) fun _ => ?_
  refine Within.bind (Within.doIf fun _ => ?_) fun _ => ?_
  · exact Within.bind (tolerates_edits.request fun _ _ => rfl) fun _ => makes_threads fun _ => ⟨rfl, rfl, rfl, rfl⟩
  refine Within.bind (Within.doIf fun _ => makes_refreshTarget) fun _ => ?_
  refine Within.bind (Within.doIf fun _ => ?_) fun _ => makes_refreshTarget
  refine Within.rescue (Within.bind (tolerates_edits.request fun _ _ => rfl) fun _ => ?_) fun _ => .pure _
  exact makes_configureThreadWatchpoints tid

theorem makes_handleEvent (tid : Tid) (status : WaitStatus) (report : Bool) :
    Makes env maps ids consuming (handleEvent arch env tid status report) := by
  have hend : ∀ message, Makes env maps ids consuming (R := R) (D := D) (do
      handleEnd tid
      doIf report (print message)) := fun message =>
    Within.bind (makes_threads fun _ => ⟨rfl, rfl, rfl, rfl⟩) fun _ =>
      Within.doIf fun _ => makes_print _
  refine Within.bind (makes_threads fun _ => ⟨rfl, rfl, rfl, rfl⟩) fun _ => ?_
  cases status with
  | exited code => exact hend _
  | signaled signal => exact hend _
  | continued => exact .pure _
  | stopped signal event =>
      exact Within.bind (makes_handleStop tid signal event) fun _ => Within.doIf fun _ =>
        makes_reportStop patch_mem_consuming expire_mem_consuming tid

theorem makes_noteConsumed {kinds : List EditKind} (site : Site) (tid : Tid) (status : WaitStatus) :
    Makes (R := R) (D := D) env maps ids kinds (noteConsumed arch site tid status) :=
  Within.get_bind fun s => makes_note _ s

theorem makes_waitAndReport (report : Bool) :
    Makes env maps ids consuming (waitAndReport arch env report) :=
  Within.bind makes_waitForEvent fun event =>
    Within.bind (makes_noteConsumed _ event.1 event.2) fun _ => makes_handleEvent event.1 event.2 report

theorem makes_resume {kinds : List EditKind} (tid : Tid) (request : ResumeRequest) (signal : Nat) :
    Makes (R := R) (D := D) env maps ids kinds (resume env tid request signal) :=
  Within.bind (tolerates_edits.request fun _ _ => rfl) fun _ => makes_note _

theorem makes_resumeThread (tid : Tid) (request : ResumeRequest) :
    Makes (R := R) (D := D) env maps ids consuming (resumeThread env tid request) := by
  refine Within.get_bind fun s => ?_
  cases s.debugger.threads.find? tid with
  | none => exact .pure _
  | some state =>
      refine Within.ite (fun _ => ?_) (fun _ => .pure _) s
      exact Within.bind (makes_resume tid request 0) fun _ =>
        makes_threads fun _ => ⟨rfl, rfl, rfl, rfl⟩

theorem makes_stepThread (tid : Tid) :
    Makes (R := R) (D := D) env maps ids consuming (stepThread env tid) := by
  refine Within.bind (makes_resume _ _ _) fun _ => ?_
  refine Within.bind (Within.get_bind fun s => ?_) fun _ => makes_waitForEvent
  refine Within.ite (fun _ => ?_) (fun _ => .throw _) s
  exact makes_threads fun _ => ⟨rfl, rfl, rfl, rfl⟩

theorem makes_stepOffTrap (address : Address) :
    Makes (R := R) (D := D) env maps ids consuming (stepOffTrap env address) := by
  refine Within.bind (makes_disable patch_mem_consuming address) fun _ => ?_
  refine Within.get_bind fun s => WithinAt.modify_bind (.of_same rfl rfl rfl) ?_
  refine WithinAt.onThrow (makes_stepThread _ _) fun halt t _ => ?_
  cases halt with
  | thrown exception => exact .of_same rfl rfl rfl
  | blocked => exact refl_of _ t

theorem makes_reinsert (tid : Tid) (address : Address) :
    Makes env maps ids consuming (reinsert arch env tid address) :=
  Within.get_bind fun s => WithinAt.onThrow (makes_enable patch_mem_consuming address s)
    fun _ _ _ => .of_same rfl rfl rfl

theorem makes_handleStepEvent (address : Address) (tid : Tid) (status : WaitStatus) :
    Makes env maps ids consuming (handleStepEvent arch env address tid status) := by
  refine Within.bind (makes_threads fun _ => ⟨rfl, rfl, rfl, rfl⟩) fun _ => Within.doIf fun _ => ?_
  refine Within.get_bind fun s => Within.ite (fun _ => makes_reinsert tid address) (fun _ => ?_) s
  refine Within.bind (makes_reinsert tid address) fun _ => ?_
  exact Within.bind (makes_threads fun _ => ⟨rfl, rfl, rfl, rfl⟩) fun _ =>
    makes_printStop patch_mem_consuming expire_mem_consuming tid

theorem makes_stepOverBreakpoint : Makes env maps ids consuming (stepOverBreakpoint arch env) := by
  refine Within.get_bind fun s => Within.bind (tolerates_edits.peeks.pc _) (fun address => ?_) s
  refine Within.get_bind fun t => ?_
  cases t.debugger.breakpoints.find? address with
  | none => exact .pure _
  | some r =>
      refine Within.ite (fun _ => ?_) (fun _ => .pure _) t
      exact Within.bind (makes_stepOffTrap address) fun event =>
        Within.bind (makes_noteConsumed _ _ _) fun _ => makes_handleStepEvent address _ _

theorem makes_selectThread (tid : Tid) :
    Makes env maps ids consuming (selectThread arch env tid) := by
  refine Within.get_bind fun s => ?_
  cases s.debugger.threads.find? tid with
  | none => exact makes_print _ s
  | some state =>
      refine Within.ite (fun _ => ?_) (fun _ => makes_print _) s
      exact Within.bind (makes_threads fun _ => ⟨rfl, rfl, rfl, rfl⟩) fun _ =>
        makes_printStop patch_mem_consuming expire_mem_consuming tid

theorem executesWithin_edits : ExecutesWithin arch env (Edits env maps ids consuming) where
  print := makes_print
  stepOverBreakpoint := makes_stepOverBreakpoint
  resumeThread := makes_resumeThread
  waitAndReport := makes_waitAndReport

end Consuming

/-! ### Sessions -/

/-- What a session may do to the tables. -/
def editing : List EditKind := consuming ++ [.create true, .defer, .remove]

theorem consuming_subset_editing : consuming ⊆ editing := by decide

/-- The edits of a well-formed table, which stays well formed. -/
def Amends (arch : Architecture R D) (env : Environment R D) (maps : Set ModuleManager) (ids : Set Int)
    (s t : State R D) : Prop :=
  WellFormed arch s.debugger.breakpoints →
    WellFormed arch t.debugger.breakpoints ∧ Edits env maps ids editing s t

instance (maps : Set ModuleManager) (ids : Set Int) :
    IsPreorder (State R D) (Amends arch env maps ids) where
  refl s := fun hs => ⟨hs, refl_of _ s⟩
  trans _ _ _ hst htu := fun hs =>
    have ht := hst hs
    have hu := htu ht.1
    ⟨hu.1, trans_of _ ht.2 hu.2⟩

section Sessions

variable {kinds : List Kind}

theorem amends_of_does {m : Dbg R D α} (hm : Does arch env ∅ kinds m)
    (hedits : Makes env maps ids editing m) : Within (Amends arch env maps ids) m :=
  fun s hs => ⟨(hm s hs).2, hedits s⟩

/-- Looking at the target changes nothing of the debugger. -/
theorem amends_of_touching {m : Dbg R D α} (hm : Does arch env ∅ touching m) :
    Within (Amends arch env maps ids) m := by
  intro s hs
  obtain ⟨hmoves, ht⟩ := hm s hs
  refine ⟨ht, hmoves.relate fun kind hkind u v hmove => ?_⟩
  cases hmove with
  | enter => exact edits_enter u
  | say | regs => exact .of_same rfl rfl rfl
  | liftWild _ hkind' => rcases hkind' with rfl | rfl <;> exact absurd hkind (by decide)
  | _ => exact absurd hkind (by decide)

theorem dispatchWithin_amends : DispatchWithin arch env ∅ ids (Amends arch env maps ids) := by
  have henv := Environment.leavesText_empty env
  have hexecutes : ExecutesWithin arch env (Edits env maps ids consuming) := executesWithin_edits
  have hwithin : StepsWithin arch env ∅ (Runs arch env ∅ commanding) := stepsWithin_commanding henv
  have hsteps := hwithin.executes henv
  have hbook : Kind.book ∈ session := by decide
  exact
    { touching := amends_of_touching
      chooseFrame := fun _ => amends_of_does (does_book hbook fun _ => by simp)
        (makes_aside (by decide) fun _ => ⟨rfl, rfl, rfl, rfl⟩)
      setBreakpoint := fun _ => amends_of_does (does_setBreakpoint henv _)
        (makes_setBreakpoint (by decide) (by decide) (by decide) _)
      removeBreakpoint := fun id hid => amends_of_does (does_removeBreakpoint henv id)
        (makes_removeBreakpoint (by decide) (by decide) hid)
      enableById := fun _ => amends_of_does (does_enableById henv _) (makes_enableById (by decide) _)
      disableById := fun _ => amends_of_does (does_disableById henv _)
        (makes_disableById (by decide) _)
      setWatchpoint := fun _ => amends_of_does (does_setWatchpoint _)
        (makes_setWatchpoint (by decide) _)
      createTemporary := fun _ => amends_of_does (does_createBreakpoint henv _ _ _)
        (makes_createBreakpoint (by decide) (by decide) _ _)
      continueExecution := amends_of_does hsteps.continueExecution
        (Makes.mono hexecutes.continueExecution consuming_subset_editing)
      instructionStep := fun report => amends_of_does (hsteps.instructionStep report)
        (Makes.mono (hexecutes.instructionStep report) consuming_subset_editing)
      reportStop := fun tid => amends_of_does (does_reportStop henv tid)
        (makes_reportStop (by decide) (by decide) tid)
      selectThread := fun tid => amends_of_does (does_selectThread henv tid)
        ((makes_selectThread tid).mono consuming_subset_editing)
      writeUserWord := fun _ _ => amends_of_does (does_writeUserWord _ _)
        (Within.bind (tolerates_edits.pokeWord _ _) fun _ => makes_note _) }

theorem makes_openSession : Makes env maps ids consuming (openSession arch env) := by
  refine Within.bind (Within.get_bind fun s => Within.bind ?_ (fun status => ?_) s) fun _ => ?_
  · intro s
    rcases waitFor_cases env _ s with ⟨status, ready, hrun⟩ | ⟨halt, hrun⟩
    · rw [WithinAt, endState_of_ok hrun]
      exact .of_enter rfl rfl rfl
    · rw [WithinAt, endState_of_error hrun]
      exact edits_enter s
  · refine Within.ite (fun _ => ?_) fun _ => .throw _
    refine Within.bind (makes_threads fun _ => ⟨rfl, rfl, rfl, rfl⟩) fun _ => ?_
    exact Within.bind (tolerates_edits.request fun _ _ => rfl) fun _ => makes_refreshTarget
  · refine Within.get_bind fun s => Within.bind (makes_print _) (fun _ => ?_) s
    exact Within.get_bind fun t => makes_printStop patch_mem_consuming expire_mem_consuming _ t

theorem makes_disableAll (entries : List (Address × Breakpoint)) :
    Makes env maps ids [.patch] (disableAll env entries) := by
  induction entries with
  | nil => exact .pure _
  | cons entry rest ih =>
      exact Within.bind (Within.rescue (makes_disable (by decide) _) fun _ => .pure _) fun _ => ih

theorem makes_releaseThreads (entries : List (Tid × ThreadState)) :
    Makes env maps ids [] (releaseThreads env entries) := by
  induction entries with
  | nil => exact .pure _
  | cons entry rest ih =>
      refine Within.bind (Within.doIf fun _ => Within.rescue ?_ fun _ => .pure _) fun _ => ih
      exact Within.bind (tolerates_edits.request fun _ _ => rfl) fun _ => Within.get_bind fun u => makes_note _ u

theorem makes_detach : Makes env maps ids [.aside, .patch] (detach env) := by
  refine Within.get_bind fun s => Within.ite (fun _ => .pure _) (fun _ => ?_) s
  refine Within.bind ((makes_disableAll _).mono (by decide)) fun _ => ?_
  refine Within.get_bind fun t => Within.bind ((makes_releaseThreads _).mono (by decide)) (fun _ => ?_) t
  exact makes_aside (by decide) fun _ => ⟨rfl, rfl, rfl, rfl⟩

end Sessions

end Cosy
