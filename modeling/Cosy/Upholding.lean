import Cosy.Responding
import Cosy.Sessions

/-!
# Commands that may not come back

A command that resumes the target may wait forever, so what holds at the prompt need not hold where it
ends; but what an exception leaves is given to the handler, and after that the prompt comes back. Which
is all the same for everything that holds at the prompt and is upheld by `continue` and `stepi`.
-/

namespace Cosy

open Effect

variable {R D α : Type} {arch : Architecture R D} {env : Environment R D} {T : Set Address}
  {I : State R D → Prop} {E : Halt → State R D → Prop}

/-- From `I` the program comes back with `I`, or it halts with `E`. -/
abbrev Upholds (I : State R D → Prop) (E : Halt → State R D → Prop) (m : Dbg R D α) : Prop :=
  Triple I m (fun _ => I) E

/-- What the commands do while no thread is resumed and none is waited for. -/
def answering : List Kind := session ++ [.report, .write]

/-- `I` is upheld by what neither resumes nor waits, and by the two commands that do. -/
structure UpheldWithin (arch : Architecture R D) (env : Environment R D) (T : Set Address)
    (I : State R D → Prop) (E : Halt → State R D → Prop) : Prop where
  thrown : ∀ exception s, E (.thrown exception) s → I s
  answer : ∀ {β : Type} {m : Dbg R D β}, Does arch env T answering m → NeverBlocks m → Upholds I E m
  select : ∀ tid, Upholds I E (modifyDebugger (R := R) (D := D) fun d =>
    { d with selectedTid := tid, selectedFrame := 0 })
  continueExecution : Upholds I E (continueExecution arch env)
  instructionStep : ∀ report, Upholds I E (instructionStep arch env report)

/-! ### What never waits -/

theorem neverBlocks_selectedLocation : NeverBlocks (selectedLocation arch env) :=
  .get_bind fun _ => (neverBlocks_pc _).bind fun _ => .get_bind fun _ => .pure _

theorem neverBlocks_reportStop (tid : Tid) : NeverBlocks (reportStop arch env tid) :=
  .get_bind fun _ => (NeverBlocks.note _).bind fun _ =>
    NeverBlocks.bind (.onThrow (neverBlocks_printStop tid)) fun _ => .note _

theorem neverBlocks_returnAddress (tid : Tid) : NeverBlocks (returnAddress arch env tid) :=
  NeverBlocks.bind (.ptrace _ _ _) fun _ => .ptrace _ _ _

/-! ### The commands -/

namespace UpheldWithin

variable (hupheld : UpheldWithin arch env T I E)

include hupheld

theorem print (message : Message) : Upholds I E (print (R := R) (D := D) message) :=
  hupheld.answer (does_print (by decide) message) (.print message)

theorem attempt {m : Dbg R D α} {handler : Exception → Dbg R D α} (hm : Upholds I E m)
    (hhandler : ∀ exception, Upholds I E (handler exception)) :
    Upholds I E (attempt m handler) := by
  refine Triple.rescue hm (fun halt exception hselect => ?_) fun _ _ _ hs => hs
  cases halt with
  | thrown thrown => exact (hhandler exception).pre fun s hs => hupheld.thrown thrown s hs
  | blocked => cases hselect

theorem selectThread (henv : env.LeavesText T) (tid : Tid) :
    Upholds I E (selectThread arch env tid) := by
  refine Triple.get_bind fun s => ?_
  have hprint := (hupheld.print (.line "unknown or running thread")).pre
    fun (t : State R D) (ht : t = s ∧ I t) => ht.2
  cases s.debugger.threads.find? tid with
  | none => exact hprint
  | some state =>
      refine Triple.ite (Triple.pre ?_ fun t ht => ht.2) hprint
      exact Triple.bind (hupheld.select tid) fun _ =>
        hupheld.answer ((does_printStop henv tid).mono (by decide)) (neverBlocks_printStop tid)

theorem answers (henv : env.LeavesText T) : Answers arch env (Upholds I E) := by
  have hsession : ∀ {β : Type} {m : Dbg R D β}, Does arch env T session m → NeverBlocks m →
      Upholds I E m := fun hm => hupheld.answer (hm.mono (by decide))
  have hlook : ∀ {β : Type} {m : Dbg R D β}, Does arch env T touching m → NeverBlocks m →
      Upholds I E m := fun hm => hupheld.answer (hm.mono (by decide))
  have hunknown : ∀ {m : Dbg R D Bool}, Does arch env T session m → Does arch env T session (do
      let found ← m
      reportUnknown found) := fun hm =>
    Within.bind hm fun _ => Within.ite (fun _ => .pure _) fun _ => does_print (by decide) _
  exact
  { print := hupheld.print
    setBreakpoint := fun specification =>
      hsession (does_setBreakpoint henv specification) (neverBlocks_setBreakpoint specification)
    removeBreakpoint := fun id =>
      hsession (does_removeBreakpoint henv id) (neverBlocks_removeBreakpoint id)
    enableById := fun id => hsession (hunknown ((does_enableById henv id).mono (by decide)))
      (neverBlocks_reportUnknown (neverBlocks_enableById id))
    disableById := fun id => hsession (hunknown ((does_disableById henv id).mono (by decide)))
      (neverBlocks_reportUnknown (neverBlocks_disableById id))
    setWatchpoint := fun arguments =>
      hsession (does_setWatchpoint arguments) (neverBlocks_setWatchpoint arguments)
    selectFrame := fun frame => by
      have hbacktrace : Does arch env T touching (printBacktrace arch env) := does_touches.printBacktrace
      refine hsession (Within.bind ?_ fun _ => hbacktrace.mono (by decide)) (neverBlocks_selectFrame frame)
      exact does_book (by decide) fun _ => by simp
    printLocals := fun wanted => hlook (does_touches.printLocals wanted) (neverBlocks_printLocals wanted)
    printMemory := fun arguments =>
      hlook (does_touches.printMemory arguments) (neverBlocks_printMemory arguments)
    writeMemory := fun arguments => by
      refine hupheld.answer ?_ (neverBlocks_writeMemory arguments)
      refine Within.ite (fun _ => does_print (by decide) _) fun _ => ?_
      split
      · exact (does_writeUserWord _ _).mono (by decide)
      · exact does_print (by decide) _
    registerCommand := fun arguments =>
      hlook (does_touches.registerCommand arguments) (neverBlocks_registerCommand arguments)
    selectThread := hupheld.selectThread henv
    infoCommand := fun topic => hlook (does_touches.infoCommand topic) (neverBlocks_infoCommand topic) }

theorem selectedLocation : Upholds I E (selectedLocation arch env) :=
  hupheld.answer (does_selectedLocation.mono (by decide)) neverBlocks_selectedLocation

theorem reportStop (henv : env.LeavesText T) (tid : Tid) : Upholds I E (reportStop arch env tid) :=
  hupheld.answer ((does_reportStop henv tid).mono (by decide)) (neverBlocks_reportStop tid)

theorem sourceStepFrom (henv : env.LeavesText T) (before : SourceLocation) (count : Nat) :
    Upholds I E (sourceStepFrom arch env before count) := by
  induction count with
  | zero => exact hupheld.print _
  | succ count ih =>
      refine Triple.bind (hupheld.instructionStep false) fun _ => Triple.get_bind fun s =>
        Triple.pre ?_ fun _ ht => ht.2
      refine Triple.ite (Triple.bind hupheld.selectedLocation fun after => ?_)
        (Triple.pure fun _ ht => ht)
      exact Triple.ite ih (Triple.get_bind fun t => (hupheld.reportStop henv _).pre fun _ ht => ht.2)

theorem sourceStep (henv : env.LeavesText T) : Upholds I E (sourceStep arch env) :=
  Triple.bind hupheld.selectedLocation fun before =>
    Triple.ite (hupheld.sourceStepFrom henv before _) (hupheld.instructionStep true)

theorem stepOut (henv : env.LeavesText T) : Upholds I E (stepOut arch env) := by
  refine hupheld.attempt (Triple.get_bind fun s => Triple.pre ?_ fun _ ht => ht.2)
    fun exception => hupheld.print _
  have hreturn : Does arch env T answering (returnAddress arch env s.debugger.selectedTid) :=
    (does_peeks (by decide)).returnAddress _
  refine Triple.bind (hupheld.answer hreturn (neverBlocks_returnAddress _)) fun target => ?_
  refine Triple.bind (hupheld.answer ((does_createBreakpoint henv target _ true).mono (by decide))
    (neverBlocks_createBreakpoint target _ true)) fun id => ?_
  exact Triple.bind (hupheld.print _) fun _ => hupheld.continueExecution

theorem dispatch (henv : env.LeavesText T) (line : Text) : Upholds I E (dispatch arch env line) := by
  unfold Cosy.dispatch
  cases words line with
  | nil => exact Triple.pure fun _ hs => hs
  | cons command rest =>
      refine Triple.ite (Triple.pure fun _ hs => hs) (Triple.bind ?_ fun _ => Triple.pure fun _ hs => hs)
      refine hupheld.attempt ?_ fun exception => hupheld.print _
      cases hresumes : resumes command with
      | false => exact (hupheld.answers henv).runCommand hresumes
      | true =>
          exact runCommand_of_resumes (p := Upholds I E) hresumes (hupheld.print _)
            (fun _ => hupheld.continueExecution) (fun _ => hupheld.instructionStep true)
            (fun _ => hupheld.sourceStep henv) (fun _ => hupheld.stepOut henv)

end UpheldWithin

end Cosy
