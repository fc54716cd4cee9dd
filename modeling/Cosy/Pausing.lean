import Cosy.Reports

/-!
# Threads that stay paused

`stepi`, `step` and `next` let one thread go at a time, the selected one, and which one that is
changes with every event. A thread that has no event to report is never selected by one, so if it is
recorded as stopped and another thread is selected, it stays so.
-/

namespace Cosy

open ByteMemory Effect

variable {R D α : Type} {arch : Architecture R D} {env : Environment R D} {tid : Tid}
  {base : List Entry}

/-- The thread is in a ptrace stop, and `waitpid` has nothing to say about it. -/
structure Target.Idle (target : Target R D) (tid : Tid) : Prop where
  stopped : ∃ task, target.tasks.find? tid = some task ∧ task.stopped = true
  silent : ∀ event ∈ target.ready, event.1 ≠ tid

/-- A thread that is stopped and not resumed produces no event. -/
def Environment.Quiet (env : Environment R D) : Prop :=
  ∀ tick target tid, target.Idle tid → (env.interfere tick target).2.Idle tid

/-- The thread is recorded as stopped. -/
def Debugger.RecordsStopped (d : Debugger) (tid : Tid) : Prop :=
  ∃ state, d.threads.find? tid = some state ∧ state.stopped = true

structure Paused (arch : Architecture R D) (tid : Tid) (base : List Entry) (s : State R D) :
    Prop where
  formed : WellFormed arch s.debugger.breakpoints
  recorded : s.debugger.RecordsStopped tid
  idle : s.target.Idle tid
  unselected : s.debugger.selectedTid ≠ tid
  unresumed : ∃ newer, s.log = newer ++ base ∧ newer.any (Entry.resumes tid) = false

/-! ### Moves -/

/-- The moves that may concern a thread. -/
def concerning : List Kind := [.threads, .resume, .take, .release]

theorem Target.Idle.setTask {target : Target R D} (hidle : target.Idle tid) {tid' : Tid}
    {task : Task R D} (htask : tid' = tid → task.stopped = true) :
    (target.setTask tid' task).Idle tid := by
  refine ⟨?_, hidle.silent⟩
  by_cases heq : tid = tid'
  · exact ⟨task, heq ▸ SortedMap.find?_insert_self _ _ _, htask heq.symm⟩
  · obtain ⟨old, hold, hstopped⟩ := hidle.stopped
    exact ⟨old, (SortedMap.find?_insert_of_ne _ _ heq).trans hold, hstopped⟩

section Paused

variable {s t : State R D}

theorem Paused.append (hs : Paused arch tid base s)
    (hformed : WellFormed arch t.debugger.breakpoints)
    (hthreads : t.debugger.threads = s.debugger.threads)
    (hselected : t.debugger.selectedTid = s.debugger.selectedTid) (hidle : t.target.Idle tid)
    (hlog : Appends (fun entry => entry.resumes tid = false) s t) : Paused arch tid base t := by
  obtain ⟨newer, hnewer, hcalm⟩ := hs.unresumed
  obtain ⟨newest, hnewest, hcalm'⟩ := hlog
  refine ⟨hformed, ?_, hidle, hselected ▸ hs.unselected, newest ++ newer, ?_, ?_⟩
  · rw [Debugger.RecordsStopped, hthreads]
    exact hs.recorded
  · rw [hnewest, hnewer, List.append_assoc]
  · rw [List.any_append, hcalm, Bool.or_false, List.any_eq_false]
    exact fun entry hmem => by simp [hcalm' entry hmem]

theorem Paused.change (hs : Paused arch tid base s) {d : Debugger}
    (hbreakpoints : d.breakpoints = s.debugger.breakpoints) (hrecorded : d.RecordsStopped tid)
    (hselected : d.selectedTid ≠ tid) : Paused arch tid base (s.withDebugger d) :=
  ⟨hbreakpoints ▸ hs.formed, hrecorded, hs.idle, hselected, hs.unresumed⟩

theorem Paused.logged (hs : Paused arch tid base s) {entry : Entry}
    (hentry : entry.resumes tid = false) : Paused arch tid base (s.logged entry) :=
  hs.append hs.formed rfl rfl hs.idle (.cons rfl hentry)

theorem Paused.enter (hquiet : env.Quiet) (hs : Paused arch tid base s) :
    Paused arch tid base (env.enter s) :=
  hs.append hs.formed rfl rfl (hquiet _ _ _ hs.idle) (appends_enter (fun _ => rfl) s)

theorem Move.paused (hquiet : env.Quiet) {kind : Kind} (hmove : Move arch env ∅ kind s t)
    (hkind : kind ∉ concerning) (hs : Paused arch tid base s) : Paused arch tid base t := by
  have hformed := hmove.wellFormed hs.formed
  obtain ⟨hthreads, hselected⟩ := hmove.sameThreads fun heq => hkind (heq ▸ by decide)
  refine hs.append hformed hthreads hselected ?_ ?_
  · cases hmove with
    | enter => exact hquiet _ _ _ hs.idle
    | regs _ _ _ hstopped => exact hs.idle.setTask fun _ => hstopped
    | task _ _ _ hstopped' => exact hs.idle.setTask fun _ => hstopped'
    | resume | take | release => exact absurd (by decide) hkind
    | _ => exact ⟨hs.idle.stopped, hs.idle.silent⟩
  · cases hmove with
    | enter => exact appends_enter (fun _ => rfl) s
    | say _ hentry | report _ hentry | stepping _ hentry =>
        refine .cons rfl ?_
        rename_i entry
        cases entry <;> first | rfl | cases hentry
    | arming | abandon | userEnabled | userDisabled | write => exact .cons rfl rfl
    | force | lift => exact ⟨[_, _], rfl, by simp [Entry.resumes]⟩
    | resume | release => exact absurd (by decide) hkind
    | _ => exact .of_eq rfl

theorem paused_of_does (hquiet : env.Quiet) (kinds : List Kind) {m : Dbg R D α}
    (hm : Does arch env ∅ kinds m) (hkinds : ∀ kind ∈ kinds, kind ∉ concerning) :
    Within (Keeps (Paused arch tid base)) m := by
  intro s hs
  obtain ⟨hmoves, -⟩ := hm s hs.formed
  exact hmoves.preserve (fun kind hkind _ _ hmove hu => hmove.paused hquiet (hkinds kind hkind) hu) hs

end Paused

/-! ### Functions -/

section Threads

variable {d : Debugger} {tid' : Tid}

theorem recordsStopped_insert {threads : SortedMap Tid ThreadState} {state : ThreadState}
    (hne : tid ≠ tid') (hrecorded : ∃ state, threads.find? tid = some state ∧ state.stopped = true) :
    ∃ state', (threads.insert tid' state).find? tid = some state' ∧ state'.stopped = true := by
  rwa [SortedMap.find?_insert_of_ne _ _ hne]

theorem recordsStopped_emplace {threads : SortedMap Tid ThreadState} {state : ThreadState}
    (hrecorded : ∃ state, threads.find? tid = some state ∧ state.stopped = true) :
    ∃ state', (threads.emplace tid' state).find? tid = some state' ∧ state'.stopped = true := by
  by_cases hcontains : threads.contains tid' = true
  · rwa [SortedMap.emplace, if_pos hcontains]
  · rw [SortedMap.emplace, if_neg hcontains]
    refine recordsStopped_insert ?_ hrecorded
    rintro rfl
    obtain ⟨old, hold, -⟩ := hrecorded
    exact hcontains (by rw [SortedMap.contains, hold]; rfl)

end Threads

section Functions

variable (hquiet : env.Quiet)

include hquiet

/-- An event is never one of the paused thread. -/
theorem waitForEvent_paused :
    Triple (Paused arch tid base) (waitForEvent env)
      (fun event s => event.1 ≠ tid ∧ Paused arch tid base s) (fun _ => Paused arch tid base) := by
  intro s hs
  have hentered := hs.enter hquiet
  rcases waitForEvent_cases env s with ⟨thread, status, rest, hready, hrun⟩ | ⟨-, halt, hrun⟩
  · rw [hrun]
    have hsilent := hentered.idle.silent
    rw [hready] at hsilent
    refine ⟨hsilent _ List.mem_cons_self, hentered.append hentered.formed rfl rfl ?_ (.of_eq rfl)⟩
    exact ⟨hentered.idle.stopped, fun event hmem => hsilent event (List.mem_cons_of_mem _ hmem)⟩
  · rw [hrun]
    exact hentered

theorem resume_paused {thread : Tid} (hne : thread ≠ tid) (request : ResumeRequest) (signal : Nat) :
    Within (Keeps (Paused arch tid base)) (resume env thread request signal) := by
  refine Within.bind (fun s hs => ?_) fun _ => Within.modify fun s hs => hs.logged ?_
  · have hentered := hs.enter hquiet
    rcases ptrace_cases env request.operation thread _ s with ⟨task, -, -, -, hrun⟩ | ⟨-, hrun⟩
    · rw [endState_of_ok hrun]
      refine hentered.append hentered.formed rfl rfl ?_ (.of_eq rfl)
      exact hentered.idle.setTask fun heq => absurd heq hne
    · rw [endState_of_error hrun]
      exact hentered
  · simpa [Entry.resumes] using hne

theorem resumeThread_paused {thread : Tid} (hne : thread ≠ tid) (request : ResumeRequest) :
    Within (Keeps (Paused arch tid base)) (resumeThread env thread request) := by
  refine Within.get_bind fun s => ?_
  cases s.debugger.threads.find? thread with
  | none => exact .pure _
  | some state =>
      refine Within.ite (fun _ => Within.bind (resume_paused hquiet hne request 0) fun _ => ?_)
        (fun _ => .pure _) s
      refine Within.modify fun t ht => ht.change rfl ?_ ht.unselected
      rw [Debugger.RecordsStopped, SortedMap.find?_modify_of_ne _ _ hne.symm]
      exact ht.recorded

theorem handleStop_paused {thread : Tid} (hne : thread ≠ tid) (signal event : Nat) :
    Within (Keeps (Paused arch tid base)) (handleStop arch env thread signal event) := by
  have hrefresh : Within (Keeps (Paused arch tid base)) (refreshTarget arch env) :=
    paused_of_does hquiet _ (does_refreshTarget (Environment.leavesText_empty env)) (by decide)
  refine Within.bind (Within.modify fun s hs => ?_) fun _ => ?_
  · exact hs.change rfl (recordsStopped_insert hne.symm hs.recorded) hs.unselected
  refine Within.bind (Within.doIf fun _ => ?_) fun _ => ?_
  · refine Within.bind (paused_of_does hquiet [.enter] (does_peek (by decide)) (by decide)) fun _ => ?_
    exact Within.modify fun s hs => hs.change rfl (recordsStopped_emplace hs.recorded) hs.unselected
  refine Within.bind (Within.doIf fun _ => hrefresh) fun _ => ?_
  refine Within.bind (Within.doIf fun _ => ?_) fun _ => hrefresh
  exact paused_of_does hquiet _ (does_prepareThread thread) (by decide)

theorem handleEvent_paused {thread : Tid} (hne : thread ≠ tid) (status : WaitStatus)
    (report : Bool) :
    Within (Keeps (Paused arch tid base)) (handleEvent arch env thread status report) := by
  have hend : ∀ message, Within (Keeps (Paused arch tid base)) (do
      handleEnd (R := R) (D := D) thread
      doIf report (print message)) := by
    intro message
    refine Within.bind (Within.modify fun s hs => hs.change rfl ?_ hs.unselected) fun _ => ?_
    · rw [Debugger.RecordsStopped, SortedMap.find?_erase, if_neg hne.symm]
      exact hs.recorded
    · exact Within.doIf fun _ => Within.modify fun s hs => hs.logged rfl
  refine Within.bind (Within.modify fun s hs => hs.change rfl hs.recorded hne) fun _ => ?_
  cases status with
  | exited code => exact hend _
  | signaled signal => exact hend _
  | continued => exact .pure _
  | stopped signal event =>
      refine Within.bind (handleStop_paused hquiet hne signal event) fun _ => Within.doIf fun _ => ?_
      exact paused_of_does hquiet _ (does_reportStop (Environment.leavesText_empty env) thread)
        (by decide)

theorem waitAndReport_paused (report : Bool) :
    Within (Keeps (Paused arch tid base)) (waitAndReport arch env report) := by
  refine within_of_triple (Triple.bind (waitForEvent_paused hquiet) fun event => ?_)
  rintro s ⟨hne, hs⟩
  refine triple_of_within (Within.bind ?_ fun _ => handleEvent_paused hquiet hne event.2 report) s hs
  exact Within.get_bind fun t => Within.modify (fun u hu => hu.logged rfl) t

theorem stepThread_paused {thread : Tid} (hne : thread ≠ tid) :
    Triple (Paused arch tid base) (stepThread env thread)
      (fun event s => event.1 ≠ tid ∧ Paused arch tid base s) (fun _ => Paused arch tid base) := by
  refine Triple.bind (triple_of_within (resume_paused hquiet hne .singlestep 0)) fun _ => ?_
  refine Triple.bind (triple_of_within (I := Paused arch tid base) ?_)
    fun _ => waitForEvent_paused hquiet
  refine Within.get_bind fun s => Within.ite (fun _ => ?_) (fun _ => .throw _) s
  refine Within.modify fun t ht => ht.change rfl ?_ ht.unselected
  rw [Debugger.RecordsStopped, SortedMap.find?_modify_of_ne _ _ hne.symm]
  exact ht.recorded

theorem stepOffTrap_paused (address : Address) :
    Triple (Paused arch tid base) (stepOffTrap env address)
      (fun event s => event.1 ≠ tid ∧ Paused arch tid base s) (fun _ => Paused arch tid base) := by
  refine Triple.bind (triple_of_within (I := Paused arch tid base) ?_) fun _ => ?_
  · exact paused_of_does hquiet _ (does_disable (Environment.leavesText_empty env) address)
      (by decide)
  refine Triple.get_bind fun s => ?_
  rintro t ⟨rfl, ht⟩
  refine Triple.bind (triple_of_within (I := Paused arch tid base) ?_) (fun _ => ?_) t ht
  · exact Within.modify fun u hu => hu.logged rfl
  refine Triple.onThrow (stepThread_paused hquiet ht.unselected) fun halt u hu => ?_
  cases halt with
  | thrown exception => exact hu.logged rfl
  | blocked => exact hu

theorem handleStepEvent_paused {thread : Tid} (hne : thread ≠ tid) (address : Address)
    (status : WaitStatus) :
    Within (Keeps (Paused arch tid base)) (handleStepEvent arch env address thread status) := by
  have henv := Environment.leavesText_empty env
  have hreinsert : Within (Keeps (Paused arch tid base)) (reinsert arch env thread address) :=
    paused_of_does hquiet _ (does_reinsert henv thread address) (by decide)
  refine Within.bind (Within.modify fun s hs => ?_) fun _ => Within.doIf fun _ => ?_
  · exact hs.change rfl (recordsStopped_insert hne.symm hs.recorded) hs.unselected
  refine Within.get_bind fun s => Within.ite (fun _ => hreinsert) (fun _ => ?_) s
  refine Within.bind hreinsert fun _ => Within.bind (Within.modify fun t ht => ?_) fun _ => ?_
  · exact ht.change rfl ht.recorded hne
  · exact paused_of_does hquiet _ (does_printStop henv thread) (by decide)

theorem stepOverBreakpoint_paused :
    Within (Keeps (Paused arch tid base)) (stepOverBreakpoint arch env) := by
  refine Within.get_bind fun s => Within.bind ?_ (fun address => ?_) s
  · exact paused_of_does hquiet [.enter] (does_pc (by decide) _) (by decide)
  refine Within.get_bind fun t => ?_
  cases t.debugger.breakpoints.find? address with
  | none => exact .pure _
  | some r =>
      refine Within.ite (fun _ => ?_) (fun _ => .pure _) t
      refine within_of_triple (Triple.bind (stepOffTrap_paused hquiet address) fun event => ?_)
      rintro u ⟨hne, hu⟩
      refine triple_of_within (Within.bind ?_ fun _ =>
        handleStepEvent_paused hquiet hne address event.2) u hu
      exact Within.get_bind fun v => Within.modify (fun w hw => hw.logged rfl) v

theorem instructionStep_paused (report : Bool) :
    Within (Keeps (Paused arch tid base)) (instructionStep arch env report) := by
  refine Within.get_bind fun s => Within.ite (fun _ => ?_) (fun _ => .pure _) s
  refine Within.bind (stepOverBreakpoint_paused hquiet) fun _ => Within.get_bind fun t ht => ?_
  refine Within.bind (resumeThread_paused hquiet ht.unselected .singlestep) (fun _ => ?_) t ht
  exact waitAndReport_paused hquiet report

theorem sourceStep_paused : Within (Keeps (Paused arch tid base)) (sourceStep arch env) := by
  refine within_sourceStep (fun _ => Within.modify fun s hs => hs.logged rfl) ?_
    (instructionStep_paused hquiet) fun thread => ?_
  · exact paused_of_does hquiet _ does_selectedLocation (by decide)
  · exact paused_of_does hquiet _ (does_reportStop (Environment.leavesText_empty env) thread)
      (by decide)

end Functions

/-! ### The commands -/

/-- `stepi`, `step` or `next`. -/
def isStep (line : Text) : Bool :=
  match words line with
  | command :: _ =>
      isAlias command ["stepi".toList, "si".toList, "step".toList, "s".toList, "next".toList,
        "n".toList]
  | [] => false

theorem dispatch_step (arch : Architecture R D) (env : Environment R D) {line : Text}
    (hline : isStep line = true) :
    ∃ step ∈ [instructionStep arch env true, sourceStep arch env],
      dispatch arch env line = (do
        attempt step fun exception => print (.error exception)
        pure true) := by
  unfold isStep at hline
  split at hline
  · rename_i command rest hwords
    have hcommand : command = "stepi".toList ∨ command = "si".toList ∨ command = "step".toList ∨
        command = "s".toList ∨ command = "next".toList ∨ command = "n".toList := by
      simpa [isAlias] using hline
    rw [dispatch, hwords]
    rcases hcommand with rfl | rfl | rfl | rfl | rfl | rfl
    · exact ⟨_, List.mem_cons_self, rfl⟩
    · exact ⟨_, List.mem_cons_self, rfl⟩
    all_goals exact ⟨_, List.mem_cons_of_mem _ List.mem_cons_self, rfl⟩
  · cases hline

/-- A thread recorded as stopped stays so while another one is stepped. -/
theorem dispatch_keeps_paused (hquiet : env.Quiet) {line : Text} (hline : isStep line = true)
    {s : State R D} (hformed : WellFormed arch s.debugger.breakpoints)
    (hrecorded : s.debugger.RecordsStopped tid) (hidle : s.target.Idle tid)
    (hother : tid ≠ s.debugger.selectedTid) :
    (s.entriesSince (endState (dispatch arch env line) s)).any (Entry.resumes tid) = false ∧
      (endState (dispatch arch env line) s).debugger.RecordsStopped tid := by
  have hs : Paused arch tid s.log s := ⟨hformed, hrecorded, hidle, hother.symm, [], rfl, rfl⟩
  have hkeeps : Within (Keeps (Paused arch tid s.log)) (dispatch arch env line) := by
    obtain ⟨step, hstep, hdispatch⟩ := dispatch_step arch env hline
    rw [hdispatch]
    refine Within.bind (Within.rescue ?_ fun _ => ?_) fun _ => .pure _
    · rcases List.mem_pair.mp hstep with rfl | rfl
      · exact instructionStep_paused hquiet true
      · exact sourceStep_paused hquiet
    · exact Within.modify fun t ht => ht.logged rfl
  obtain ⟨-, hrecorded', -, -, newer, hnewer, hcalm⟩ := hkeeps s hs
  exact ⟨entriesSince_of_append hnewer ▸ hcalm, hrecorded'⟩

theorem Machine.quiet (machine : Machine R D) : (machine.environment arch).Quiet := by
  rintro tick target tid ⟨⟨task, htask, hstopped⟩, hsilent⟩
  exact ⟨⟨task, performAll_stops _ target tid task htask hstopped, hstopped⟩,
    performAll_ready hstopped _ target htask hsilent⟩

/-- Two threads, of which the first is selected, both stopped. -/
def twoStopped : State UserRegs X86_64.DebugRegisters :=
  { State.initial 1
      { nopTarget 1 with
        tasks := ((nopTarget 1).tasks.insert 2 (stoppedTask 0x1000)), ready := [] } with
    debugger :=
      { Debugger.fresh 1 with
        selectedTid := 1
        threads := (SortedMap.empty.insert 1 ⟨1, true, sigtrap⟩).insert 2 ⟨2, true, sigtrap⟩ } }

theorem dispatch_keeps_paused_nops :
    (twoStopped.entriesSince (endState (dispatch x86_64 (runningMachine 1) "si".toList) twoStopped)).any
        (Entry.resumes 2) = false ∧
      (endState (dispatch x86_64 (runningMachine 1) "si".toList) twoStopped).debugger.RecordsStopped 2 :=
  dispatch_keeps_paused (Machine.quiet _) (by decide) wellFormed_empty ⟨⟨2, true, sigtrap⟩, by decide, rfl⟩
    ⟨⟨stoppedTask 0x1000, rfl, rfl⟩, by decide⟩ (by decide)

example :
    (endState (dispatch x86_64 (runningMachine 1) "si".toList) twoStopped).log.any
      (Entry.resumes 1) = true := by
  decide +kernel

end Cosy
