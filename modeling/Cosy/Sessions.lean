import Cosy.Functions

/-!
# Whole sessions

`dispatch`, the opening and the end of a session, and its runs: what every part of a session preserves
holds in every state a session visits.
-/

namespace Cosy

open ByteMemory Effect

variable {R D α : Type} {arch : Architecture R D} {env : Environment R D} {T : Set Address}
  {kinds : List Kind}

/-! ### Changing the target -/

theorem does_writeUserWord (address value : Address) :
    Does arch env T [.enter, .write] (writeUserWord env address value) := by
  intro s
  rcases ptrace_cases env "PTRACE_POKEDATA" s.debugger.selectedTid
      (fun _ target => (PUnit.unit, { target with memory := setWord target.memory address value }))
      s with ⟨task, -, -, -, hrun⟩ | ⟨-, hrun⟩
  · have hpoke : pokeWord env address value s
        = .ok ⟨⟩ ((env.enter s).withMemory (setWord (env.enter s).target.memory address value)) := hrun
    rw [WithinAt, writeUserWord, endState, bind_ok hpoke]
    exact trans_of (Runs arch env T [.enter, .write]) (runs_enter (by decide) s)
      (Runs.of_move (.write (env.enter s) address value) (by decide) rfl)
  · have hpoke : pokeWord env address value s
        = .error (.thrown (.system "PTRACE_POKEDATA")) (env.enter s) := hrun
    rw [WithinAt, writeUserWord, endState, bind_error hpoke]
    exact runs_enter (by decide) s

theorem does_selectThread (henv : env.LeavesText T) (tid : Tid) :
    Does arch env T running (selectThread arch env tid) := by
  refine Within.get_bind fun s => ?_
  cases s.debugger.threads.find? tid with
  | none => exact does_print (by decide) _ s
  | some state =>
      refine Within.ite (fun _ => ?_) (fun _ => does_print (by decide) _) s
      exact Within.bind (does_threads threads_mem_running fun _ => by simp) fun _ =>
        (does_printStop henv tid).mono (by decide)

/-! ### Dispatch -/

/-- The number a line asks to delete, which is narrowed to 32 bits: `delete 4294967297` deletes
breakpoint 1. -/
def deletedId (line : Text) : Option Int :=
  match words line with
  | [command, argument] =>
      if command = "delete".toList then (parseAddress argument).map toPid else none
  | _ => none

section Dispatch

variable {Q : State R D → State R D → Prop} {ids : Set Int}
  (hserves : ServesBesides arch env ids Q)

include hserves

theorem ServesBesides.writeMemory (arguments : List Text) :
    Within Q (writeMemory env arguments) := by
  refine Within.ite (fun _ => hserves.print _) fun _ => ?_
  split
  · exact hserves.writeUserWord _ _
  · exact hserves.print _

theorem ServesBesides.withNumber (arguments : List Text) (usage : String)
    {body : Address → Dbg R D Unit}
    (hbody : ∀ command argument value, arguments = [command, argument] →
      parseAddress argument = some value → Within Q (body value)) :
    Within Q (withNumber arguments usage body) := by
  unfold Cosy.withNumber
  split
  · split
    · rename_i value hvalue
      exact hbody _ _ value rfl hvalue
    · exact hserves.print _
  · exact hserves.print _

variable [IsPreorder (State R D) Q]

theorem ServesBesides.reportUnknown {change : Dbg R D Bool} (hchange : Within Q change) :
    Within Q (do
      let found ← change
      reportUnknown found) :=
  Within.bind hchange fun _ => Within.ite (fun _ => .pure _) fun _ => hserves.print _

/-- Whether a command selects a frame. -/
def selectsFrame (command : Text) : Bool :=
  isAlias command ["backtrace".toList, "bt".toList, "frame".toList, "thread".toList]

theorem ServesBesides.runCommand (command : Text) (arguments : List Text)
    (hids : ∀ argument value, command = "delete".toList → arguments.tail = [argument] →
      parseAddress argument = some value → toPid value ∈ ids)
    (hwatch : command = "watch".toList → Within Q (setWatchpoint arch env arguments))
    (hframe : selectsFrame command = true → (∀ frame, Within Q (selectFrame arch env frame)) ∧
      ∀ tid, Within Q (selectThread arch env tid)) :
    Within Q (runCommand arch env command arguments) := by
  refine Within.ite (fun _ => hserves.print _) fun _ => ?_
  refine Within.ite (fun _ => hserves.continueExecution) fun _ => ?_
  refine Within.ite (fun _ => hserves.instructionStep true) fun _ => ?_
  refine Within.ite (fun _ => hserves.sourceStep) fun _ => ?_
  refine Within.ite (fun _ => hserves.stepOut) fun _ => ?_
  refine Within.ite (fun _ => ?_) fun _ => ?_
  · split
    · exact hserves.setBreakpoint _
    · exact hserves.print _
  refine Within.ite (fun hdelete => hserves.withNumber _ _
    fun _ argument value harguments hvalue => ?_) fun _ => ?_
  · have hrest : arguments.tail = [argument] := by rw [harguments, List.tail_cons]
    exact hserves.removeBreakpoint _ (hids argument value hdelete hrest hvalue)
  refine Within.ite (fun _ => hserves.withNumber _ _ fun _ _ _ _ _ => ?_) fun _ => ?_
  · exact hserves.reportUnknown (hserves.enableById _)
  refine Within.ite (fun _ => hserves.withNumber _ _ fun _ _ _ _ _ => ?_) fun _ => ?_
  · exact hserves.reportUnknown (hserves.disableById _)
  refine Within.ite hwatch fun _ => ?_
  refine Within.ite (fun hback => (hframe ?_).1 0) fun _ => ?_
  · simp only [isAlias, List.contains_cons, List.contains_nil, Bool.or_eq_true] at hback
    simp only [selectsFrame, isAlias, List.contains_cons, Bool.or_eq_true]
    tauto
  refine Within.ite (fun hcommand => hserves.withNumber _ _ fun _ _ _ _ _ => ?_) fun _ => ?_
  · exact (hframe (by rw [hcommand]; rfl)).1 _
  refine Within.ite (fun _ => ?_) fun _ => ?_
  · split
    · exact hserves.printLocals _
    · exact hserves.print _
  refine Within.ite (fun _ => ?_) fun _ => ?_
  · exact hserves.printMemory _
  refine Within.ite (fun _ => hserves.writeMemory _) fun _ => ?_
  refine Within.ite (fun _ => hserves.registerCommand _) fun _ => ?_
  refine Within.ite (fun hcommand => hserves.withNumber _ _ fun _ _ _ _ _ => ?_) fun _ => ?_
  · exact (hframe (by rw [hcommand]; rfl)).2 _
  refine Within.ite (fun _ => ?_) fun _ => hserves.print _
  exact hserves.infoCommand _

theorem ServesBesides.dispatch (line : Text) (hline : ∀ id, deletedId line = some id → id ∈ ids)
    (hwatch : ∀ rest, words line = "watch".toList :: rest →
      Within Q (setWatchpoint arch env (words line)))
    (hframe : ∀ command rest, words line = command :: rest → selectsFrame command = true →
      (∀ frame, Within Q (selectFrame arch env frame)) ∧
        ∀ tid, Within Q (selectThread arch env tid)) :
    Within Q (dispatch arch env line) := by
  unfold Cosy.dispatch
  cases hwords : words line with
  | nil => exact .pure _
  | cons command rest =>
      refine Within.ite (fun _ => .pure _) fun _ => Within.bind ?_ fun _ => .pure _
      refine Within.rescue (hserves.runCommand _ _ ?_ (fun hcommand => ?_)
        (hframe command rest hwords)) fun _ => hserves.print _
      · intro argument value hdelete hrest hvalue
        have htail : rest = [argument] := hrest
        refine hline _ ?_
        simp only [deletedId, hwords, htail, if_pos hdelete, hvalue, Option.map_some]
      · rw [← hwords]
        exact hwatch rest (hcommand ▸ hwords)

omit hserves in
theorem ServesApart.dispatch (hserves : ServesApart arch env ids Q) (line : Text)
    (hline : ∀ id, deletedId line = some id → id ∈ ids)
    (hwatch : ∀ rest, words line = "watch".toList :: rest →
      Within Q (setWatchpoint arch env (words line))) : Within Q (dispatch arch env line) :=
  hserves.besides.dispatch line hline hwatch fun _ _ _ _ =>
    ⟨fun frame => Within.bind (hserves.chooseFrame frame) fun _ => hserves.printBacktrace,
      hserves.selectThread⟩

omit hserves in
theorem ServesWithin.dispatch (hserves : ServesWithin arch env ids Q) (line : Text)
    (hline : ∀ id, deletedId line = some id → id ∈ ids) : Within Q (dispatch arch env line) :=
  hserves.toServesApart.dispatch line hline fun _ _ => hserves.setWatchpoint _

end Dispatch

theorem DispatchWithin.dispatch {Q : State R D → State R D → Prop} [IsPreorder (State R D) Q]
    {ids : Set Int} (hdispatch : DispatchWithin arch env T ids Q) (line : Text)
    (hline : ∀ id, deletedId line = some id → id ∈ ids) : Within Q (dispatch arch env line) :=
  hdispatch.serves.dispatch line hline

theorem CommandsWithin.dispatch {Q : State R D → State R D → Prop} [IsPreorder (State R D) Q]
    (hcommands : CommandsWithin arch env T Q) (henv : env.LeavesText T) (line : Text) :
    Within Q (dispatch arch env line) :=
  (hcommands.dispatches henv).dispatch line fun _ _ => trivial

theorem StepsWithin.commands {Q : State R D → State R D → Prop} [IsPreorder (State R D) Q]
    (hsteps : StepsWithin arch env T Q) (henv : env.LeavesText T) :
    CommandsWithin arch env T Q where
  session hm := hsteps.running (hm.mono session_subset_running)
  continueExecution := (hsteps.executes henv).continueExecution
  instructionStep := (hsteps.executes henv).instructionStep
  reportStop := hsteps.reportStop
  selectThread tid := hsteps.running (does_selectThread henv tid)
  writeUserWord := hsteps.writeUserWord

/-- The moves a whole command consists of. -/
theorem stepsWithin_commanding (henv : env.LeavesText T) :
    StepsWithin arch env T (Runs arch env T commanding) where
  running hm := hm.mono (by decide)
  stepOverBreakpoint := (does_stepOverBreakpoint henv).mono stepping_subset_commanding
  reportStop tid := (does_reportStop henv tid).mono (by decide)
  writeUserWord address value := (does_writeUserWord address value).mono (by decide)

theorem does_dispatch (henv : env.LeavesText T) (line : Text) :
    Does arch env T commanding (dispatch arch env line) :=
  ((stepsWithin_commanding henv).commands henv).dispatch henv line

/-! ### The beginning and the end -/

theorem does_waitFor (henter : Kind.enter ∈ kinds) (htake : Kind.take ∈ kinds) (tid : Tid) :
    Does arch env T kinds (waitFor env tid) := by
  intro s
  rcases waitFor_cases env tid s with ⟨status, ready, hrun⟩ | ⟨halt, hrun⟩
  · rw [WithinAt, endState_of_ok hrun]
    exact trans_of (Runs arch env T kinds) (runs_enter henter s)
      (Runs.of_move (.take (env.enter s) ready) htake rfl)
  · rw [WithinAt, endState_of_error hrun]
    exact runs_enter henter s

theorem does_openSession (henv : env.LeavesText T) :
    Does arch env T running (openSession arch env) := by
  refine Within.bind (Within.get_bind fun s => ?_) fun _ => ?_
  · refine Within.bind (does_waitFor (by decide) (by decide) _) (fun status => ?_) s
    refine Within.ite (fun _ => ?_) fun _ => .throw _
    refine Within.bind (does_threads threads_mem_running fun _ => by simp) fun _ => ?_
    refine Within.bind ((does_setOptions _).mono session_subset_running) fun _ => ?_
    exact Within.bind (does_refreshModules.mono resolving_subset_running) fun _ =>
      (does_resolvePendingBreakpoints henv).mono resolving_subset_running
  · refine Within.get_bind fun s => Within.bind (does_print (by decide) _) (fun _ => ?_) s
    exact Within.get_bind fun t => ((does_printStop henv _).mono (by decide)) t

theorem does_disableAll (henv : env.LeavesText T) (entries : List (Address × Breakpoint)) :
    Does arch env T [.enter, .force] (disableAll env entries) := by
  induction entries with
  | nil => exact .pure _
  | cons entry rest ih =>
      exact Within.bind (does_attempt (does_disable henv entry.1) fun _ => .pure _) fun _ => ih

theorem does_releaseThread (henter : Kind.enter ∈ kinds) (hrelease : Kind.release ∈ kinds)
    (tid : Tid) : Does arch env T kinds (releaseThread env tid) := by
  refine does_attempt (fun s => ?_) fun _ => .pure _
  rcases ptrace_cases env "PTRACE_DETACH" tid
      (fun _ target => (PUnit.unit, { target with tasks := target.tasks.erase tid })) s with
    ⟨task, -, -, -, hrun⟩ | ⟨-, hrun⟩
  · rw [WithinAt, endState, bind_ok hrun]
    exact trans_of (Runs arch env T kinds) (runs_enter henter s)
      (Runs.of_move (.release (env.enter s) tid) hrelease rfl)
  · rw [WithinAt, endState, bind_error hrun]
    exact runs_enter henter s

theorem does_releaseThreads (henter : Kind.enter ∈ kinds) (hrelease : Kind.release ∈ kinds)
    (entries : List (Tid × ThreadState)) :
    Does arch env T kinds (releaseThreads env entries) := by
  induction entries with
  | nil => exact .pure _
  | cons entry rest ih =>
      refine Within.bind (Within.doIf fun _ => ?_) fun _ => ih
      exact does_releaseThread henter hrelease entry.1

theorem does_detach (henv : env.LeavesText T) : Does arch env T detaching (detach env) := by
  refine Within.get_bind fun s => Within.ite (fun _ => .pure _) (fun _ => ?_) s
  refine Within.bind ((does_disableAll henv _).mono (by decide)) fun _ => ?_
  refine Within.get_bind fun t =>
    Within.bind (does_releaseThreads (by decide) (by decide) _) (fun _ => ?_) t
  exact Within.modify fun u => Runs.of_move (.close u) (by decide) rfl

theorem waitFor_ready {status : WaitStatus} {s t : State R D} {tid : Tid}
    (hrun : waitFor env tid s = .ok status t) :
    t.debugger = s.debugger ∧ t.log = (env.enter s).log ∧
      t.target.tasks = (env.enter s).target.tasks ∧
      t.target.ready ⊆ (env.enter s).target.ready := by
  unfold waitFor at hrun
  dsimp only at hrun
  split at hrun
  · obtain ⟨-, rfl⟩ := EStateM.Result.ok.inj hrun
    exact ⟨rfl, rfl, rfl, List.eraseP_subset⟩
  · split at hrun <;> cases hrun

/-- The process that was launched is the first thread of the table. -/
def State.launched (s : State R D) (child : Tid) (signal : Nat) : State R D :=
  s.withDebugger
    { s.debugger with
      threads := s.debugger.threads.emplace child ⟨child, true, signal⟩
      selectedTid := child }

/-! ### Runs of a session -/

section Runs

variable {Q : State R D → State R D → Prop} [IsPreorder (State R D) Q] {start s : State R D}

/-- What the opening and every command relate, a run to a prompt relates. -/
theorem Prompt.related (hopen : Within Q (openSession arch env))
    (hdispatch : ∀ line, Within Q (dispatch arch env line)) (hs : Prompt arch env start s) :
    Q start s := by
  induction hs with
  | opened hrun => exact hopen.of_ok hrun
  | command line _ hrun ih => exact trans_of Q ih ((hdispatch line).of_ok hrun)

/-- What is related by everything that follows the wait for the process is related to the state in
which the process was entered in the table. -/
theorem openSession_related (hoptions : Within Q (setOptions env start.debugger.child))
    (hrefresh : Within Q (refreshModules env)) (hresolve : Within Q (resolvePendingBreakpoints arch env))
    (hprint : ∀ message, Within Q (print (R := R) (D := D) message))
    (hstop : ∀ tid, Within Q (printStop arch env tid))
    (hrun : openSession arch env start = .ok ⟨⟩ s) :
    ∃ status t, waitFor env start.debugger.child start = .ok status t ∧
      Q (t.launched start.debugger.child status.stopSignal) s := by
  obtain ⟨_, u, hlaunch, hrest⟩ := of_bind_ok hrun
  have hlast : Within Q (do
      let u ← get
      print (.banner arch.name u.debugger.child)
      printStop arch env u.debugger.selectedTid) :=
    Within.get_bind fun u => Within.bind (hprint _) (fun _ => .get_bind fun v => hstop _ v) u
  rw [launch, get_bind_apply] at hlaunch
  obtain ⟨status, t, hwait, hlaunch⟩ := of_bind_ok hlaunch
  refine ⟨status, t, hwait, ?_⟩
  split at hlaunch
  · have hmiddle : Within Q (do
        setOptions env start.debugger.child
        refreshModules env
        resolvePendingBreakpoints arch env) :=
      hoptions.bind fun _ => hrefresh.bind fun _ => hresolve
    exact trans_of Q (hmiddle.of_ok hlaunch) (hlast.of_ok hrest)
  · cases hlaunch

theorem Later.related {p : Text → Prop} {t : State R D}
    (hdispatch : ∀ line, p line → Within Q (dispatch arch env line)) (ht : Later arch env p s t) :
    Q s t := by
  induction ht with
  | refl => exact refl_of Q s
  | command line _ hline hrun ih => exact trans_of Q ih ((hdispatch line hline).of_ok hrun)

omit [IsPreorder (State R D) Q] in
theorem Later.prompt {p : Text → Prop} {t : State R D} (hs : Prompt arch env start s)
    (ht : Later arch env p s t) : Prompt arch env start t := by
  induction ht with
  | refl => exact hs
  | command line _ _ hrun ih => exact .command line ih hrun

theorem LaterVisited.related {p : Text → Prop} {t : State R D}
    (hdispatch : ∀ line, p line → Within Q (dispatch arch env line)) (hdetach : Within Q (detach env))
    (ht : LaterVisited arch env p s t) : Q s t := by
  cases ht with
  | command line ht hline => exact trans_of Q (ht.related hdispatch) (hdispatch line hline _)
  | quit ht => exact trans_of Q (ht.related hdispatch) (hdetach _)

theorem Visited.related (hopen : Within Q (openSession arch env))
    (hdispatch : ∀ line, Within Q (dispatch arch env line)) (hdetach : Within Q (detach env))
    (hs : Visited arch env start s) : Q start s := by
  cases hs with
  | opening => exact hopen start
  | aborted hrun => exact trans_of Q (hopen.of_error hrun) (hdetach _)
  | command line hs => exact trans_of Q (hs.related hopen hdispatch) (hdispatch line _)
  | quit hs => exact trans_of Q (hs.related hopen hdispatch) (hdetach _)

end Runs

end Cosy
