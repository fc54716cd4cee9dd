import Cosy.Arguments
import Cosy.Managing
import Cosy.Programming

/-!
# What execution leaves alone

The commands that resume the target change the tables of breakpoints, of threads and of modules,
whether there is a target, and which thread is selected. Any other part of the debugger is the same
after them, and after the beginning and the end of a session. A part is a function of the debugger
here, so this is proved once.
-/

namespace Cosy

open Effect

variable {R D α β : Type} {arch : Architecture R D} {env : Environment R D} {part : Debugger → β}

/-- What neither the stops of the target nor the breakpoints have to do with is the same. -/
structure Debugger.SameChoices (d d' : Debugger) : Prop where
  watchpoints : d'.watchpoints = d.watchpoints
  nextWatchpointId : d'.nextWatchpointId = d.nextWatchpointId
  selectedFrame : d'.selectedFrame = d.selectedFrame

/-- The part is not touched by a change of anything but the watchpoints and the selected frame. -/
def Unconcerned (part : Debugger → β) : Prop :=
  ∀ d d', Debugger.SameChoices d d' → part d' = part d

/-- The part is the same. -/
def Same (part : Debugger → β) (s t : State R D) : Prop := part t.debugger = part s.debugger

instance (part : Debugger → β) : IsPreorder (State R D) (Same part) where
  refl _ := rfl
  trans _ _ _ hst htu := htu.trans hst

theorem tolerates_same (env : Environment R D) (A : Entry → Prop) (part : Debugger → β) :
    Tolerates env A (Same part) := .of_sameDebugger fun _ _ hsame => congrArg part hsame

/-! ### Programming a thread -/

section Programming

variable {A : Entry → Prop} {Q : State R D → State R D → Prop} [IsPreorder (State R D) Q]
  (hQ : Tolerates env A Q)

include hQ

theorem Tolerates.configureWatchpoint (tid : Tid) (slot : Nat) (address : Address)
    (watchAccess : WatchAccess) (bytes : Nat) :
    Within Q (configureWatchpoint arch env tid slot address watchAccess bytes) := by
  unfold Cosy.configureWatchpoint
  split
  · exact .throw _
  · exact Within.bind (hQ.request fun _ _ => rfl) fun _ =>
      Within.forM _ fun _ _ => hQ.request fun _ _ => rfl

theorem Tolerates.prepareThread (tid : Tid) : Within Q (prepareThread arch env tid) := by
  refine Within.rescue (Within.bind (hQ.request fun _ _ => rfl) fun _ => ?_) fun _ => .pure _
  exact Within.get_bind fun s => Within.forM _ (fun _ _ => hQ.configureWatchpoint _ _ _ _ _) s

end Programming

theorem configureWatchpoint_sameDebugger (tid : Tid) (slot : Nat) (address : Address)
    (watchAccess : WatchAccess) (bytes : Nat) :
    Within SameDebugger (configureWatchpoint arch env tid slot address watchAccess bytes) :=
  (sameDebugger env).configureWatchpoint tid slot address watchAccess bytes

/-! ### Any part -/

section Unconcerned

variable (hpart : Unconcerned part)

include hpart

theorem Unconcerned.modify {change : Debugger → Debugger}
    (hchange : ∀ d, Debugger.SameChoices d (change d)) :
    Within (Same part) (modifyDebugger (R := R) (D := D) change) :=
  Within.modify fun _ => hpart _ _ (hchange _)

theorem Unconcerned.modifyThreads (change : SortedMap Tid ThreadState → SortedMap Tid ThreadState) :
    Within (Same part) (modifyThreads (R := R) (D := D) change) :=
  hpart.modify fun _ => ⟨rfl, rfl, rfl⟩

theorem Unconcerned.tends : TendsWithin arch env (Same part) :=
  have htolerates := tolerates_same env (fun _ => True) part
  have hmodify : ∀ key change, Within (Same part)
      (modifyBreakpoint (R := R) (D := D) key change) :=
    fun _ _ => hpart.modify fun _ => ⟨rfl, rfl, rfl⟩
  have herase : ∀ key, Within (Same part) (eraseBreakpoint (R := R) (D := D) key) :=
    fun _ => hpart.modify fun _ => ⟨rfl, rfl, rfl⟩
  { htolerates.peeks with
    note := fun _ => htolerates.note _ trivial
    setRegs := fun _ _ => htolerates.request fun _ _ => rfl
    enter := Within.modify fun _ => rfl
    mark := fun _ => htolerates.note _ trivial
    aside := fun hchange => hpart.modify fun d =>
      ⟨(hchange d).watchpoints, (hchange d).nextWatchpointId, (hchange d).selectedFrame⟩
    enable := fun key => htolerates.enable (fun _ _ => trivial) (hmodify key)
    disable := fun key => htolerates.disable (fun _ _ => trivial) (hmodify key)
    insert := fun _ _ _ _ _ => hpart _ _ ⟨rfl, rfl, rfl⟩
    drop := fun key => htolerates.dropBreakpoint (fun _ _ => trivial) (hmodify key) (herase key)
    noteUserEnabled := (tolerates_same env (fun entry => entry.isLine = false) part).noteUserEnabled }

/-! ### Executing -/

omit hpart in
theorem keeps_waitForEvent :
    Within (Same part) (waitForEvent env : Dbg R D (Tid × WaitStatus)) :=
  Within.mono same_waitForEvent fun _ _ hsame => congrArg part hsame

omit hpart in
theorem same_note (entry : Entry) : Within (Same part) (note (R := R) (D := D) entry) :=
  fun s => (rfl : part s.debugger = part s.debugger)

omit hpart in
theorem same_noteConsumed (site : Site) (tid : Tid) (status : WaitStatus) :
    Within (Same part) (noteConsumed (D := D) arch site tid status) :=
  Within.get_bind fun s => same_note _ s

omit hpart in
theorem same_resume (tid : Tid) (request : ResumeRequest) (signal : Nat) :
    Within (Same part) (resume env tid request signal : Dbg R D Unit) := by
  have htolerates := tolerates_same env (fun _ => True) part
  exact Within.bind (htolerates.request fun _ _ => rfl) fun _ => htolerates.note _ trivial

theorem Unconcerned.resumeThread (tid : Tid) (request : ResumeRequest) :
    Within (Same part) (resumeThread env tid request : Dbg R D Unit) := by
  refine Within.get_bind fun s => ?_
  cases s.debugger.threads.find? tid with
  | none => exact .pure _
  | some state =>
      refine Within.ite (fun _ => ?_) (fun _ => .pure _) s
      exact Within.bind (same_resume _ _ _) fun _ => hpart.modifyThreads _

theorem Unconcerned.stepOverBreakpoint : Within (Same part) (stepOverBreakpoint arch env) := by
  have htends : TendsWithin arch env (Same (R := R) (D := D) part) := hpart.tends
  have hstep : ∀ tid, Within (Same part) (stepThread env tid : Dbg R D (Tid × WaitStatus)) := by
    refine fun tid => Within.bind (same_resume _ _ _) fun _ =>
      Within.bind (Within.get_bind fun s => ?_) fun _ => keeps_waitForEvent
    exact Within.ite (fun _ => hpart.modifyThreads _) (fun _ => .throw _) s
  have hreinsert : ∀ tid address, Within (Same part) (reinsert arch env tid address) :=
    fun tid address => Within.get_bind fun s =>
      WithinAt.onThrow (htends.enable address s) fun _ _ _ => rfl
  refine Within.get_bind fun s => Within.bind (htends.pc _) (fun address => ?_) s
  refine Within.get_bind fun t => ?_
  cases t.debugger.breakpoints.find? address with
  | none => exact .pure _
  | some r =>
      refine Within.ite (fun _ => ?_) (fun _ => .pure _) t
      refine Within.bind (Within.bind (htends.disable address) fun _ => ?_) fun event => ?_
      · refine Within.get_bind fun u => Within.bind (same_note _) (fun _ v => ?_) u
        refine WithinAt.onThrow (hstep _ v) fun halt w _ => ?_
        cases halt <;> rfl
      refine Within.bind (same_noteConsumed _ _ _) fun _ => ?_
      refine Within.bind (hpart.modifyThreads _) fun _ => Within.doIf fun _ => ?_
      refine Within.get_bind fun u => Within.ite (fun _ => hreinsert _ _) (fun _ => ?_) u
      refine Within.bind (hreinsert _ _) fun _ => ?_
      exact Within.bind (hpart.modify fun _ => ⟨rfl, rfl, rfl⟩) fun _ => htends.printStop _

theorem Unconcerned.waitAndReport (report : Bool) :
    Within (Same part) (waitAndReport arch env report) := by
  have htends : TendsWithin arch env (Same (R := R) (D := D) part) := hpart.tends
  have htolerates := tolerates_same env (fun _ => True) part
  have hend : ∀ tid message, Within (Same part) (do
      handleEnd (R := R) (D := D) tid
      doIf report (print message)) := fun tid message =>
    Within.bind (hpart.modify fun _ => ⟨rfl, rfl, rfl⟩) fun _ => Within.doIf fun _ => htends.print _
  refine Within.bind keeps_waitForEvent fun event => ?_
  refine Within.bind (same_noteConsumed _ _ _) fun _ => ?_
  refine Within.bind (hpart.modify fun _ => ⟨rfl, rfl, rfl⟩) fun _ => ?_
  cases event.2 with
  | exited code => exact hend _ _
  | signaled signal => exact hend _ _
  | continued => exact .pure _
  | stopped signal kind =>
      refine Within.bind ?_ fun _ => Within.doIf fun _ => htends.reportStop _
      refine Within.bind (hpart.modifyThreads _) fun _ => ?_
      refine Within.bind (Within.doIf fun _ => ?_) fun _ => ?_
      · exact Within.bind (htolerates.request fun _ _ => rfl) fun _ => hpart.modifyThreads _
      refine Within.bind (Within.doIf fun _ => htends.refreshTarget) fun _ => ?_
      exact Within.bind (Within.doIf fun _ => htolerates.prepareThread _)
        fun _ => htends.refreshTarget

theorem Unconcerned.executes : ExecutesWithin arch env (Same (R := R) (D := D) part) where
  print _ := (tolerates_same env (fun _ => True) part).print trivial
  stepOverBreakpoint := hpart.stepOverBreakpoint
  resumeThread := hpart.resumeThread
  waitAndReport := hpart.waitAndReport

omit hpart in
theorem same_writeUserWord (address value : Address) :
    Within (Same part) (writeUserWord env address value : Dbg R D Unit) :=
  Within.bind ((tolerates_same env (fun _ => True) part).pokeWord address value) fun _ =>
    (tolerates_same env (fun _ => True) part).note _ trivial

theorem Unconcerned.serves :
    ServesBesides arch env Set.univ (Same (R := R) (D := D) part) :=
  have htends : TendsWithin arch env (Same (R := R) (D := D) part) := hpart.tends
  have hexecutes : ExecutesWithin arch env (Same (R := R) (D := D) part) := hpart.executes
  { htends with
    setBreakpoint := htends.setBreakpoint
    removeBreakpoint := fun id _ => htends.removeBreakpoint id
    enableById := htends.enableById
    disableById := htends.disableById
    createTemporary := fun address => htends.createBreakpoint address _ true
    continueExecution := hexecutes.continueExecution
    instructionStep := hexecutes.instructionStep
    reportStop := htends.reportStop
    writeUserWord := same_writeUserWord }

/-! ### The beginning and the end -/

theorem Unconcerned.openSession : Within (Same part) (openSession arch env) := by
  have htends : TendsWithin arch env (Same (R := R) (D := D) part) := hpart.tends
  have hwait : ∀ tid, Within (Same part) (waitFor env tid : Dbg R D WaitStatus) := by
    intro tid s
    rcases waitFor_cases env tid s with ⟨status, ready, hrun⟩ | ⟨halt, hrun⟩
    · rw [WithinAt, endState_of_ok hrun]
      rfl
    · rw [WithinAt, endState_of_error hrun]
      rfl
  refine Within.bind (Within.get_bind fun s => Within.bind (hwait _) (fun status => ?_) s) fun _ => ?_
  · refine Within.ite (fun _ => ?_) fun _ => .throw _
    refine Within.bind (hpart.modify fun _ => ⟨rfl, rfl, rfl⟩) fun _ => ?_
    refine Within.bind ((tolerates_same env (fun _ => True) part).request fun _ _ => rfl) fun _ => ?_
    exact Within.bind htends.refreshModules fun _ => htends.resolvePendingBreakpoints
  · exact Within.get_bind fun s => Within.bind (htends.print _)
      (fun _ => Within.get_bind fun t => htends.printStop _ t) s

theorem Unconcerned.detach : Within (Same part) (detach env : Dbg R D Unit) := by
  have hquiet := tolerates_same env (fun entry : Entry => entry.isLine = false) part
  have hdisable : ∀ entries, Within (Same part) (disableAll env entries : Dbg R D Unit) := by
    intro entries
    induction entries with
    | nil => exact .pure _
    | cons entry rest ih =>
        refine Within.bind (Within.rescue ?_ fun _ => .pure _) fun _ => ih
        exact hquiet.disable Entry.isLine_of_isPatch fun _ => hpart.modify fun _ => ⟨rfl, rfl, rfl⟩
  have hrelease : ∀ entries, Within (Same part) (releaseThreads env entries : Dbg R D Unit) := by
    intro entries
    induction entries with
    | nil => exact .pure _
    | cons entry rest ih =>
        refine Within.bind (Within.doIf fun _ => Within.rescue ?_ fun _ => .pure _) fun _ => ih
        refine Within.bind (hquiet.request fun _ _ => rfl) fun _ => Within.get_bind fun t => ?_
        exact hquiet.note (.released _ _ _) rfl t
  refine Within.get_bind fun s => Within.ite (fun _ => .pure _) (fun _ => ?_) s
  refine Within.bind (hdisable _) fun _ => Within.bind (hrelease _) fun _ => ?_
  exact hpart.modify fun _ => ⟨rfl, rfl, rfl⟩

end Unconcerned

end Cosy
