import Cosy.Functions

/-!
# Managing breakpoints

Between two resumptions the debugger inserts and lifts traps, keeps its two tables of breakpoints,
looks for modules and reports stops. All of that consists of a few parts, and what these stay within
the rest does too. Threads are neither resumed nor waited for here, and the watchpoints are left
alone.
-/

namespace Cosy

open Effect

variable {R D : Type} {arch : Architecture R D} {env : Environment R D}
  {Q : State R D → State R D → Prop}

/-- That a breakpoint is no longer the user's, and where a report begins and ends. -/
def Entry.isMark : Entry → Bool
  | .userDisabled _ | .reporting _ _ _ _ | .reported _ => true
  | _ => false

/-- A change of the debugger that leaves breakpoints, threads and watchpoints alone. -/
structure Debugger.SameTables (d d' : Debugger) : Prop where
  breakpoints : d'.breakpoints = d.breakpoints
  threads : d'.threads = d.threads
  watchpoints : d'.watchpoints = d.watchpoints
  nextWatchpointId : d'.nextWatchpointId = d.nextWatchpointId
  alive : d'.alive = d.alive
  child : d'.child = d.child
  detached : d'.detached = d.detached

/-- The parts stay within `Q`. -/
structure ManagesWithin (arch : Architecture R D) (env : Environment R D)
    (Q : State R D → State R D → Prop) : Prop extends Touches arch env Q where
  enter : Within Q (modify env.enter : Dbg R D PUnit)
  mark : ∀ {entry : Entry}, entry.isMark = true → Within Q (Cosy.note entry)
  aside : ∀ {change : Debugger → Debugger}, (∀ d, Debugger.SameTables d (change d)) →
    Within Q (modifyDebugger (R := R) (D := D) change)
  enable : ∀ key, Within Q (enable arch env key)
  disable : ∀ key, Within Q (disable env key)
  insert : ∀ (r : Breakpoint) (s : State R D), s.debugger.breakpoints.find? r.address = none →
    r.enabled = false → r.pending = false → WithinAt Q (insertBreakpoint r) s
  drop : ∀ key, Within Q (dropBreakpoint env key)
  noteUserEnabled : ∀ key, Within Q (noteUserEnabled (R := R) (D := D) key)

/-- Nor is another thread or another frame selected. -/
structure Debugger.SameSelection (d d' : Debugger) : Prop extends Debugger.SameTables d d' where
  selectedTid : d'.selectedTid = d.selectedTid
  selectedFrame : d'.selectedFrame = d.selectedFrame

/-- The parts stay within `Q`, which may mind that another thread or another frame is selected. -/
structure TendsWithin (arch : Architecture R D) (env : Environment R D)
    (Q : State R D → State R D → Prop) : Prop extends Touches arch env Q where
  enter : Within Q (modify env.enter : Dbg R D PUnit)
  mark : ∀ {entry : Entry}, entry.isMark = true → Within Q (Cosy.note entry)
  aside : ∀ {change : Debugger → Debugger},
    (∀ d, Debugger.SameSelection d (change d)) →
      Within Q (modifyDebugger (R := R) (D := D) change)
  enable : ∀ key, Within Q (enable arch env key)
  disable : ∀ key, Within Q (disable env key)
  insert : ∀ (r : Breakpoint) (s : State R D), s.debugger.breakpoints.find? r.address = none →
    r.enabled = false → r.pending = false → WithinAt Q (insertBreakpoint r) s
  drop : ∀ key, Within Q (dropBreakpoint env key)
  noteUserEnabled : ∀ key, Within Q (noteUserEnabled (R := R) (D := D) key)

theorem ManagesWithin.tends (hmanages : ManagesWithin arch env Q) : TendsWithin arch env Q :=
  { hmanages with aside := fun hchange => hmanages.aside fun d => (hchange d).toSameTables }

namespace TendsWithin

variable [IsPreorder (State R D) Q] (htends : TendsWithin arch env Q)

include htends

theorem createBreakpoint (address : Address) (specification : Text) (temporary : Bool) :
    Within Q (createBreakpoint arch env address specification temporary) := by
  refine .get_bind fun s => ?_
  cases hfind : s.debugger.breakpoints.find? address with
  | some existing => exact .pure _
  | none =>
      refine WithinAt.bind (htends.insert _ s hfind rfl rfl) fun _ t _ => ?_
      refine Within.bind (htends.enable address) (fun _ => ?_) t
      exact (htends.noteUserEnabled address).bind fun _ => .pure _

theorem enableById (id : Int) : Within Q (enableById arch env id) :=
  .get_bind fun s => within_forEachWithId _
    (fun entry _ _ => (htends.enable entry.1).bind fun _ => htends.noteUserEnabled entry.1) s

theorem disableById (id : Int) : Within Q (disableById env id) :=
  .get_bind fun s => within_forEachWithId _
    (fun entry _ _ => (htends.mark rfl).bind fun _ => htends.disable entry.1) s

theorem removeBreakpoint (id : Int) : Within Q (removeBreakpoint env id) := by
  refine .get_bind fun s => ?_
  cases keyOfId s.debugger.breakpoints id with
  | none => exact htends.aside (fun _ => by exact ⟨by constructor <;> rfl, rfl, rfl⟩) s
  | some key => exact Within.bind (htends.mark rfl) (fun _ => htends.drop key) s

/-! ### Modules and pending breakpoints -/

theorem createPendingBreakpoint (specification : Text) :
    Within Q (createPendingBreakpoint (R := R) (D := D) specification) :=
  .get_bind fun s => Within.bind (htends.aside fun _ => by exact ⟨by constructor <;> rfl, rfl, rfl⟩)
    (fun _ => .pure _) s

theorem refreshModules : Within Q (refreshModules env) := by
  refine htends.enter.bind fun _ => .get_bind fun s => ?_
  cases s.target.maps with
  | none => exact .throw _
  | some modules => exact htends.aside (fun _ => by exact ⟨by constructor <;> rfl, rfl, rfl⟩) s

theorem announceResolved (specification : Text) (addresses : List Address) :
    Within Q (announceResolved arch env specification addresses) := by
  induction addresses with
  | nil => exact .pure _
  | cons address rest ih =>
      exact (htends.createBreakpoint address specification false).bind fun _ =>
        (htends.print _).bind fun _ => ih

theorem resolvePendingFrom (pending : List Breakpoint) :
    ∀ kept, Within Q (resolvePendingFrom arch env kept pending) := by
  induction pending with
  | nil => exact fun _ => .pure _
  | cons breakpoint rest ih =>
      intro kept
      refine .get_bind fun s => ?_
      cases resolveSpecification s.debugger.modules breakpoint.specification with
      | nil => exact ih _ s
      | cons address addresses =>
          refine Within.bind (htends.announceResolved _ _) (fun _ => ?_) s
          exact (htends.aside fun _ => by exact ⟨by constructor <;> rfl, rfl, rfl⟩).bind fun _ => ih _

theorem resolvePendingBreakpoints : Within Q (resolvePendingBreakpoints arch env) :=
  .get_bind fun s => htends.resolvePendingFrom _ _ s

theorem refreshTarget : Within Q (refreshTarget arch env) :=
  htends.refreshModules.bind fun _ => htends.resolvePendingBreakpoints

theorem announceBreakpoints (specification : Text) (addresses : List Address) :
    Within Q (announceBreakpoints arch env specification addresses) := by
  induction addresses with
  | nil => exact .pure _
  | cons address rest ih =>
      exact (htends.createBreakpoint address specification false).bind fun _ =>
        (htends.print _).bind fun _ => ih

theorem setBreakpoint (specification : Text) : Within Q (setBreakpoint arch env specification) := by
  refine .get_bind fun s => ?_
  cases resolveSpecification s.debugger.modules specification with
  | nil =>
      exact Within.bind (htends.createPendingBreakpoint specification)
        (fun _ => htends.print _) s
  | cons address addresses => exact htends.announceBreakpoints _ _ s

/-! ### Reporting a stop -/

theorem inspectTrap (tid : Tid) : Within Q (inspectTrap arch env tid) := by
  refine (htends.pc tid).bind fun stoppedAt => Within.bind (.get_bind fun s => ?_) fun _ =>
    .get_bind fun t => htends.inspectWatchpoints tid _ t
  cases s.debugger.breakpoints.find? (arch.candidate stoppedAt) with
  | none => exact .pure _
  | some r =>
      refine Within.bind (htends.setPc tid _) (fun _ => ?_) s
      refine (htends.print _).bind fun _ => (htends.note rfl).bind fun _ => ?_
      exact Within.doIf fun _ => (htends.drop _).bind fun _ => htends.print _

theorem printStop (tid : Tid) : Within Q (printStop arch env tid) := by
  have hlocation : Within Q (attempt (printLocation arch env tid) fun _ => pure ⟨⟩) :=
    Within.rescue (htends.printLocation tid) fun _ => .pure _
  refine .get_bind fun s => ?_
  cases s.debugger.stopSignal tid with
  | none => exact .pure _
  | some signal =>
      dsimp only [printStopped]
      split
      · exact Within.bind (Within.rescue (htends.inspectTrap tid) fun _ => htends.print _)
          (fun _ => hlocation) s
      · split
        · exact Within.bind (htends.print _) (fun _ => hlocation) s
        · exact Within.bind (htends.print _) (fun _ => hlocation) s

theorem reportStop (tid : Tid) : Within Q (reportStop arch env tid) := by
  refine .get_bind fun s => WithinAt.bind (htends.mark rfl s) fun _ t _ => ?_
  refine WithinAt.bind (WithinAt.onThrow (htends.printStop tid t) ?_) ?_
  · exact fun _ u _ => htends.mark (show (Entry.reported tid).isMark = true from rfl) u
  · exact fun _ u _ => htends.mark rfl u

end TendsWithin

theorem ManagesWithin.selectThread [IsPreorder (State R D) Q] (hmanages : ManagesWithin arch env Q)
    (tid : Tid) : Within Q (selectThread arch env tid) := by
  refine .get_bind fun s => ?_
  cases s.debugger.threads.find? tid with
  | none => exact hmanages.print _ s
  | some state =>
      refine Within.ite (fun _ => ?_) (fun _ => hmanages.print _) s
      exact (hmanages.aside fun _ => by constructor <;> rfl).bind fun _ =>
        hmanages.tends.printStop tid

end Cosy
