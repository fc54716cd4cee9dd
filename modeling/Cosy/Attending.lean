import Cosy.Edits
import Cosy.Keeping

/-!
# What execution consists of

`continue` and `stepi` lift a trap and put it back, resume threads, wait, keep the table of threads,
look for modules and report a stop. What each of these stays within, the two commands do. Only the
search for modules creates a breakpoint, and only for one that is pending.
-/

namespace Cosy

open Effect

variable {R D : Type} {arch : Architecture R D} {env : Environment R D}
  {Q : State R D → State R D → Prop}

/-- The debugger with other threads, perhaps another one selected. -/
structure Debugger.SameBesidesThreads (d d' : Debugger) : Prop where
  alive : d'.alive = d.alive
  breakpoints : d'.breakpoints = d.breakpoints
  pendingBreakpoints : d'.pendingBreakpoints = d.pendingBreakpoints
  nextBreakpointId : d'.nextBreakpointId = d.nextBreakpointId
  modules : d'.modules = d.modules
  watchpoints : d'.watchpoints = d.watchpoints
  nextWatchpointId : d'.nextWatchpointId = d.nextWatchpointId
  selectedFrame : d'.selectedFrame = d.selectedFrame

/-- A stop that `wait_and_report` has taken from `waitpid`. -/
def Entry.isAwaited : Entry → Bool
  | .consumed .waitAndReport _ (.stopped _ _) _ => true
  | _ => false

/-- The parts of a step over a breakpoint, and what a stop is shown by, stay within `Q`. -/
structure HandlesWithin (arch : Architecture R D) (env : Environment R D)
    (Q : State R D → State R D → Prop) : Prop extends Peeks env Q where
  note : ∀ entry : Entry, entry.isAwaited = false → Within Q (Cosy.note entry)
  resume : ∀ tid request, Within Q (resume env tid request 0)
  wait : Within Q (waitForEvent env)
  threads : ∀ {change : Debugger → Debugger}, (∀ d, Debugger.SameBesidesThreads d (change d)) →
    Within Q (modifyDebugger (R := R) (D := D) change)
  enable : ∀ key, Within Q (enable arch env key)
  disable : ∀ key, Within Q (disable env key)
  printStop : ∀ tid, Within Q (printStop arch env tid)

/-- The parts that execution consists of stay within `Q`. -/
structure AttendsWithin (arch : Architecture R D) (env : Environment R D)
    (Q : State R D → State R D → Prop) : Prop extends HandlesWithin arch env Q where
  await : ∀ {entry : Entry}, entry.isAwaited = true → Within Q (Cosy.note entry)
  handleEnd : ∀ tid, Within Q (handleEnd (R := R) (D := D) tid)
  prepareThread : ∀ tid, Within Q (prepareThread arch env tid)
  refreshTarget : Within Q (refreshTarget arch env)

namespace HandlesWithin

variable [IsPreorder (State R D) Q] (hhandles : HandlesWithin arch env Q)

include hhandles

omit [IsPreorder (State R D) Q] in
theorem modifyThreads (change : SortedMap Tid ThreadState → SortedMap Tid ThreadState) :
    Within Q (modifyThreads (R := R) (D := D) change) :=
  hhandles.threads fun _ => ⟨rfl, rfl, rfl, rfl, rfl, rfl, rfl, rfl⟩

theorem resumeThread (tid : Tid) (request : ResumeRequest) :
    Within Q (resumeThread env tid request : Dbg R D Unit) := by
  refine .get_bind fun s => ?_
  cases s.debugger.threads.find? tid with
  | none => exact .pure _
  | some state =>
      refine Within.ite (fun _ => ?_) (fun _ => .pure _) s
      exact (hhandles.resume tid request).bind fun _ => hhandles.modifyThreads _

theorem resumeStopped (entries : List (Tid × ThreadState)) :
    Within Q (resumeStopped env entries : Dbg R D Unit) := by
  induction entries with
  | nil => exact .pure _
  | cons entry rest ih => exact (hhandles.resumeThread entry.1 .cont).bind fun _ => ih

/-! ### A step over a breakpoint -/

theorem stepThread (tid : Tid) : Within Q (stepThread env tid : Dbg R D (Tid × WaitStatus)) := by
  refine (hhandles.resume tid .singlestep).bind fun _ => Within.bind ?_ fun _ => hhandles.wait
  exact .get_bind fun s =>
    Within.ite (fun _ => hhandles.modifyThreads _) (fun _ => .throw _) s

theorem stepOffTrap (address : Address) :
    Within Q (stepOffTrap env address : Dbg R D (Tid × WaitStatus)) := by
  refine (hhandles.disable address).bind fun _ => .get_bind fun s => ?_
  refine WithinAt.bind (hhandles.note _ rfl s) fun _ t _ => ?_
  refine WithinAt.onThrow (hhandles.stepThread _ t) fun halt u _ => ?_
  cases halt with
  | thrown exception => exact hhandles.note (.stepFailed s.debugger.selectedTid) rfl u
  | blocked => exact refl_of Q u

theorem reinsert (tid : Tid) (address : Address) : Within Q (reinsert arch env tid address) :=
  .get_bind fun s => WithinAt.onThrow (hhandles.enable address s) fun _ t _ =>
    hhandles.note (.reinsertFailed tid s.debugger.selectedTid) rfl t

theorem handleStepEvent (address : Address) (tid : Tid) (status : WaitStatus) :
    Within Q (handleStepEvent arch env address tid status) := by
  refine (hhandles.modifyThreads _).bind fun _ => Within.doIf fun _ => .get_bind fun s => ?_
  refine Within.ite (fun _ => hhandles.reinsert tid address) (fun _ => ?_) s
  refine (hhandles.reinsert tid address).bind fun _ => Within.bind ?_ fun _ => hhandles.printStop tid
  exact hhandles.threads fun _ => ⟨rfl, rfl, rfl, rfl, rfl, rfl, rfl, rfl⟩

theorem stepOverBreakpoint : Within Q (stepOverBreakpoint arch env) := by
  refine .get_bind fun s => Within.bind (hhandles.pc _) (fun address => ?_) s
  refine .get_bind fun t => ?_
  cases t.debugger.breakpoints.find? address with
  | none => exact .pure _
  | some r =>
      refine Within.ite (fun _ => ?_) (fun _ => .pure _) t
      refine (hhandles.stepOffTrap address).bind fun event => ?_
      refine Within.bind (.get_bind fun u => ?_) fun _ => hhandles.handleStepEvent address _ _
      exact hhandles.note _ rfl u

/-! ### A stop -/

theorem reportStop (tid : Tid) : Within Q (reportStop arch env tid) := by
  refine .get_bind fun s => WithinAt.bind (hhandles.note _ rfl s) fun _ t _ => ?_
  refine WithinAt.bind (WithinAt.onThrow (hhandles.printStop tid t) fun _ u _ => ?_) fun _ u _ => ?_
  · exact hhandles.note (.reported tid) rfl u
  · exact hhandles.note (.reported tid) rfl u

theorem announceEnd {tid : Tid} (hend : Within Q (handleEnd (R := R) (D := D) tid)) (report : Bool)
    (message : Message) :
    Within Q (do
      handleEnd (R := R) (D := D) tid
      doIf report (print message)) :=
  hend.bind fun _ => Within.doIf fun _ => hhandles.note _ rfl

end HandlesWithin

namespace AttendsWithin

variable [IsPreorder (State R D) Q] (hattends : AttendsWithin arch env Q)

include hattends

omit [IsPreorder (State R D) Q] in
theorem noteConsumed (tid : Tid) (status : WaitStatus) :
    Within Q (noteConsumed (D := D) arch .waitAndReport tid status) := by
  refine .get_bind fun s => ?_
  cases hawaited : Entry.isAwaited (.consumed .waitAndReport tid status (s.target.stoppedAt arch tid))
  · exact hattends.note _ hawaited s
  · exact hattends.await hawaited s

theorem handleStop (tid : Tid) (signal event : Nat) :
    Within Q (handleStop arch env tid signal event) := by
  refine (hattends.modifyThreads _).bind fun _ => ?_
  refine (Within.doIf fun _ => ?_).bind fun _ => ?_
  · exact hattends.peek.bind fun _ => hattends.modifyThreads _
  refine (Within.doIf fun _ => hattends.refreshTarget).bind fun _ => ?_
  exact (Within.doIf fun _ => hattends.prepareThread tid).bind fun _ => hattends.refreshTarget

theorem handleEvent (tid : Tid) (status : WaitStatus) (report : Bool) :
    Within Q (handleEvent arch env tid status report) := by
  refine Within.bind (hattends.threads fun _ => ⟨rfl, rfl, rfl, rfl, rfl, rfl, rfl, rfl⟩) fun _ => ?_
  cases status with
  | exited code => exact hattends.announceEnd (hattends.handleEnd tid) report _
  | signaled signal => exact hattends.announceEnd (hattends.handleEnd tid) report _
  | continued => exact .pure _
  | stopped signal event =>
      exact (hattends.handleStop tid signal event).bind fun _ =>
        Within.doIf fun _ => hattends.reportStop tid

theorem waitAndReport (report : Bool) : Within Q (waitAndReport arch env report) := by
  refine hattends.wait.bind fun event => ?_
  exact (hattends.noteConsumed _ _).bind fun _ => hattends.handleEvent event.1 event.2 report

theorem executes : ExecutesWithin arch env Q where
  print _ := hattends.note _ rfl
  stepOverBreakpoint := hattends.stepOverBreakpoint
  resumeThread := hattends.resumeThread
  waitAndReport := hattends.waitAndReport

end AttendsWithin

/-! ### No breakpoint is created -/

/-- There is no pending breakpoint, and this is the number of the next one. -/
def Debugger.NonePending (id : Int) (d : Debugger) : Prop :=
  d.pendingBreakpoints = [] ∧ d.nextBreakpointId = id

/-- The edits that neither create a breakpoint nor make one wait. -/
theorem Edit.nonePending {maps : Set ModuleManager} {ids : Set Int} {kind : EditKind}
    {d d' : Debugger} {id : Int} (hkind : kind ∈ [EditKind.aside, .refresh, .patch, .expire])
    (hedit : Edit maps ids kind d d') (hd : d.NonePending id) : d'.NonePending id := by
  cases hedit with
  | aside _ hpending hnext _ => exact ⟨hpending.trans hd.1, hnext.trans hd.2⟩
  | refresh | patch | expire => exact hd
  | _ => simp at hkind

theorem Makes.nonePending {α : Type} {m : Dbg R D α} {id : Int}
    (hm : Makes env Set.univ ∅ [.aside, .refresh, .patch, .expire] m) :
    Within (Keeps fun s : State R D => s.debugger.NonePending id) m := fun s hs =>
  (hm s).preserve (fun _ hkind _ _ hedit => hedit.nonePending hkind) (mapsOnly_univ _ _) hs

theorem note_nonePending {id : Int} (entry : Entry) :
    Within (Keeps fun s : State R D => s.debugger.NonePending id) (note entry) :=
  Within.modify fun _ hs => hs

theorem attendsWithin_nonePending (id : Int) :
    AttendsWithin arch env (Keeps fun s : State R D => s.debugger.NonePending id) where
  peek := Makes.nonePending tolerates_edits.peeks.peek
  note entry _ := note_nonePending entry
  await _ := note_nonePending _
  handleEnd _ := Within.modify fun _ hs => hs
  resume tid request := Makes.nonePending
    ((tolerates_edits.request fun _ _ => rfl).bind fun _ => makes_note _)
  wait := Makes.nonePending makes_waitForEvent
  threads hchange := by
    refine Within.modify fun s hs => ?_
    exact ⟨(hchange _).pendingBreakpoints.trans hs.1, (hchange _).nextBreakpointId.trans hs.2⟩
  enable key := Makes.nonePending (makes_enable (by simp) key)
  disable key := Makes.nonePending (makes_disable (by simp) key)
  printStop tid := Makes.nonePending (makes_printStop (by simp) (by simp) tid)
  prepareThread tid := Makes.nonePending (tolerates_edits.prepareThread tid)
  refreshTarget := by
    refine (Makes.nonePending (makes_refreshModules (by simp))).bind fun _ => .get_bind fun s hs => ?_
    have hnone : s.debugger.pendingBreakpoints = [] := hs.1
    rw [hnone]
    exact hs

end Cosy
