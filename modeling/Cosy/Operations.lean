import Cosy.Managing
import Cosy.Whole

/-!
# Operations on breakpoints

The operations insert and lift traps by `enable` and `disable`, put records into the table and take
them out, and do nothing else that concerns memory or the table. What these few things stay within,
every operation stays within.
-/

namespace Cosy

open ByteMemory Effect

variable {R D α : Type} {arch : Architecture R D} {env : Environment R D}

/-- The kinds of moves that change neither the memory nor the table of breakpoints. -/
def silent : List Kind :=
  [.enter, .say, .report, .stepping, .book, .threads, .regs, .task, .resume, .take, .release,
    .close, .user]

/-- The parts that the operations consist of stay within `Q`. -/
structure PatchesWithin (arch : Architecture R D) (env : Environment R D)
    (Q : State R D → State R D → Prop) : Prop where
  silent : ∀ {α : Type} {m : Dbg R D α}, Does arch env ∅ silent m → Within Q m
  enable : ∀ key, Within Q (enable arch env key)
  disable : ∀ key, Within Q (disable env key)
  insert : ∀ (r : Breakpoint) (s : State R D), s.debugger.breakpoints.find? r.address = none →
    r.enabled = false → r.pending = false → WithinAt Q (insertBreakpoint r) s
  drop : ∀ key, Within Q (dropBreakpoint env key)

namespace PatchesWithin

variable {Q : State R D → State R D → Prop} [IsPreorder (State R D) Q]
  (hpatches : PatchesWithin arch env Q)

include hpatches

omit [IsPreorder (State R D) Q] in
theorem manages : ManagesWithin arch env Q where
  peek := hpatches.silent (does_peek (by decide))
  note hentry := hpatches.silent ((does_shows (by decide) (by decide)).note hentry)
  setRegs tid regs := by
    have hset : Does arch env ∅ touching (setRegs arch env tid regs) := does_touches.setRegs tid regs
    exact hpatches.silent (hset.mono (by decide))
  enter := hpatches.silent (Within.modify fun s => runs_enter (by decide) s)
  mark {entry} hentry := by
    cases entry with
    | userDisabled key => exact hpatches.silent (does_note (by decide) fun s => .userDisabled s key)
    | reporting => exact hpatches.silent (does_note (by decide) fun s => .report s rfl)
    | reported => exact hpatches.silent (does_note (by decide) fun s => .report s rfl)
    | _ => cases hentry
  aside hchange := hpatches.silent (does_threads (by decide) fun d =>
    ⟨(hchange d).breakpoints, (hchange d).child, (hchange d).detached⟩)
  enable := hpatches.enable
  disable := hpatches.disable
  insert := hpatches.insert
  drop := hpatches.drop
  noteUserEnabled key := hpatches.silent (does_noteUserEnabled (by decide) key)

theorem reinsert (tid : Tid) (address : Address) : Within Q (reinsert arch env tid address) :=
  Within.get_bind fun s => WithinAt.onThrow (hpatches.enable address s) fun _ t _ =>
    have hnote : Does arch env ∅ Cosy.silent (note (.reinsertFailed tid s.debugger.selectedTid)) :=
      does_note (by decide) fun s => .stepping s rfl
    hpatches.silent hnote t

theorem handleStepEvent (address : Address) (tid : Tid) (status : WaitStatus) :
    Within Q (handleStepEvent arch env address tid status) := by
  have hthreads : ∀ {change : Debugger → Debugger},
      (∀ d, (change d).breakpoints = d.breakpoints ∧ (change d).child = d.child ∧
        (change d).detached = d.detached) → Within Q (modifyDebugger (R := R) (D := D) change) :=
    fun hchange => hpatches.silent (does_threads (by decide) hchange)
  refine Within.bind (hthreads fun _ => ⟨rfl, rfl, rfl⟩) fun _ => Within.doIf fun _ => ?_
  refine Within.get_bind fun s => Within.ite (fun _ => ?_) (fun _ => ?_) s
  · exact hpatches.reinsert tid address
  · refine Within.bind (hpatches.reinsert tid address) fun _ => ?_
    exact Within.bind (hthreads fun _ => ⟨rfl, rfl, rfl⟩) fun _ => hpatches.manages.tends.printStop tid

theorem stepOffTrap (address : Address) : Within Q (stepOffTrap env address) := by
  refine Within.bind (hpatches.disable address) fun _ => Within.get_bind fun s => ?_
  have hnote : ∀ {entry : Entry}, entry.isStepping = true →
      Within Q (note (R := R) (D := D) entry) := fun hentry =>
    hpatches.silent (does_note (by decide) fun s => .stepping s hentry)
  refine WithinAt.bind (hnote rfl s) fun _ t _ => ?_
  refine WithinAt.onThrow (hpatches.silent ((does_stepThread _).mono (by decide)) t) ?_
  intro halt u _
  cases halt with
  | thrown exception =>
      have hfailed : Within Q (note (R := R) (D := D) (.stepFailed s.debugger.selectedTid)) :=
        hnote rfl
      exact hfailed u
  | blocked => exact refl_of Q u

theorem stepOverBreakpoint : Within Q (stepOverBreakpoint arch env) := by
  refine Within.get_bind fun s => Within.bind ?_ (fun address => ?_) s
  · exact hpatches.silent (does_pc (by decide) _)
  refine Within.get_bind fun t => ?_
  cases t.debugger.breakpoints.find? address with
  | none => exact .pure _
  | some r =>
      refine Within.ite (fun _ => ?_) (fun _ => .pure _) t
      refine Within.bind (hpatches.stepOffTrap address) fun event => ?_
      refine Within.bind (Within.get_bind fun u => ?_) fun _ => hpatches.handleStepEvent _ _ _
      exact hpatches.silent (does_note (by decide) fun s => .stepping s rfl) u

theorem disableAll (entries : List (Address × Breakpoint)) : Within Q (disableAll env entries) := by
  induction entries with
  | nil => exact .pure _
  | cons entry rest ih =>
      exact Within.bind (Within.rescue (hpatches.disable entry.1) fun _ => .pure _) fun _ => ih

theorem detach : Within Q (detach env) := by
  refine Within.get_bind fun s => Within.ite (fun _ => .pure _) (fun _ => ?_) s
  refine Within.bind (hpatches.disableAll _) fun _ => ?_
  refine Within.bind (hpatches.silent (does_releaseThreads (by decide) (by decide) _)) fun _ => ?_
  exact hpatches.silent (Within.modify fun u => Runs.of_move (.close u) (by decide) rfl)

/-- What the parts stay within, every operation stays within. -/
theorem run (operation : PatchOperation) : Within Q (operation.run arch env) := by
  cases operation with
  | create address specification temporary =>
      exact Within.bind (hpatches.manages.tends.createBreakpoint address specification temporary) fun _ => .pure _
  | enable id => exact Within.bind (hpatches.manages.tends.enableById id) fun _ => .pure _
  | disable id => exact Within.bind (hpatches.manages.tends.disableById id) fun _ => .pure _
  | remove id => exact hpatches.manages.tends.removeBreakpoint id
  | stepOver => exact hpatches.stepOverBreakpoint
  | printStop tid => exact hpatches.manages.tends.printStop tid
  | detach => exact hpatches.detach

end PatchesWithin

end Cosy
