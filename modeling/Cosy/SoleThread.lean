import Cosy.Schedule
import Cosy.Whole

/-!
# A single thread

A process with one thread, which the debugger holds or lets take a single step. Nothing else goes on
in it, so the state of the session can be followed exactly: the thread, the memory, the debugger's
own fields and the instructions executed so far determine what happens next.
-/

namespace Cosy

open ByteMemory Effect

variable {R D α : Type} {arch : Architecture R D}

/-! ### What the machine does -/

/-- The memory maps once these actions are done. -/
def mapsAfter (maps : Option ModuleManager) : List (Action R D) → Option ModuleManager
  | [] => maps
  | .map changed :: rest => mapsAfter changed rest
  | _ :: rest => mapsAfter maps rest

/-- The thread runs, or the memory maps change to something that may be shown. -/
def Action.RunsOnly (action : Action R D) (tid : Tid) (shown : ModuleManager → Prop) : Prop :=
  action = .run tid ∨ ∃ modules, shown modules ∧ action = .map (some modules)

/-- The machine has the one thread to run, which receives no signal; the memory maps can always be
read. -/
structure Machine.RunsOnly (machine : Machine R D) (tid : Tid) (shown : ModuleManager → Prop) :
    Prop where
  only : ∀ tick, ∀ action ∈ machine.schedule tick, action.RunsOnly tid shown
  runs : ∀ tick, Action.run tid ∈ machine.schedule tick
  answers : ∀ tick, machine.fails tick = false

section Actions

variable {program : Program R} {tid : Tid} {shown : ModuleManager → Prop} {task : Task R D}
  {actions : List (Action R D)}

theorem mapsAfter_some (honly : ∀ action ∈ actions, action.RunsOnly tid shown)
    {maps : Option ModuleManager} (hmaps : ∃ modules, shown modules ∧ maps = some modules) :
    ∃ modules, shown modules ∧ mapsAfter maps actions = some modules := by
  induction actions generalizing maps with
  | nil => exact hmaps
  | cons action rest ih =>
      have hrest := fun action hmem => honly action (List.mem_cons_of_mem _ hmem)
      rcases honly action List.mem_cons_self with rfl | ⟨modules, hshown, rfl⟩
      · exact ih hrest hmaps
      · exact ih hrest ⟨modules, hshown, rfl⟩

theorem running_of_tasks {target : Target R D}
    (htasks : target.tasks = SortedMap.empty.insert tid task) :
    target.running tid = if task.stopped then none else some task := by
  rw [Target.running, htasks, SortedMap.find?_insert_self]
  cases hstopped : task.stopped <;> simp [Option.filter, hstopped]

variable (arch program) in
/-- While its only thread is stopped, nothing happens in the process. -/
theorem performAll_stopped
    (honly : ∀ action ∈ actions, action.RunsOnly tid shown)
    (hstopped : task.stopped = true) (target : Target R D)
    (htasks : target.tasks = SortedMap.empty.insert tid task) :
    performAll arch program target actions
      = ([], { target with maps := mapsAfter target.maps actions }) := by
  induction actions generalizing target with
  | nil => rfl
  | cons action rest ih =>
      have hrest := ih fun action hmem => honly action (List.mem_cons_of_mem _ hmem)
      have hperform : perform arch program target action
          = ([], { target with maps := mapsAfter target.maps [action] }) := by
        rcases honly action List.mem_cons_self with rfl | ⟨modules, -, rfl⟩
        · rw [perform, running_of_tasks htasks, if_pos hstopped]
          rfl
        · rfl
      rw [performAll, hperform]
      dsimp only
      rw [hrest { target with maps := mapsAfter target.maps [action] } htasks]
      rcases honly action List.mem_cons_self with rfl | ⟨modules, -, rfl⟩ <;> rfl

theorem runTask_setMaps (target : Target R D) (maps : Option ModuleManager) :
    runTask arch program { target with maps := maps } tid task
      = ((runTask arch program target tid task).1,
        { (runTask arch program target tid task).2 with maps := maps }) := by
  unfold runTask
  dsimp only
  split
  · rfl
  · split <;> rfl

variable (arch program) in
/-- A thread that takes a step is stopped by it. -/
theorem runTask_tasks (hstepping : task.stepping = true) (target : Target R D)
    (htasks : target.tasks = SortedMap.empty.insert tid task) :
    ∃ task', task'.stopped = true ∧
      (runTask arch program target tid task).2.tasks = SortedMap.empty.insert tid task' := by
  have hhalt : ∀ (target' : Target R D) (task' : Task R D) (status : WaitStatus),
      target'.tasks = target.tasks →
        ∃ halted : Task R D, halted.stopped = true ∧
          (target'.halt tid task' status).tasks = SortedMap.empty.insert tid halted := by
    intro target' task' status hsame
    refine ⟨{ task' with stopped := true, stepping := false }, rfl, ?_⟩
    rw [Target.halt, hsame, htasks]
    exact SortedMap.insert_insert_self _ _ _ _
  unfold runTask
  dsimp only
  split
  · exact hhalt _ _ _ rfl
  · exact hhalt _ _ _ rfl

variable (arch program) in
/-- Let go for a step, the only thread takes it. -/
theorem performAll_stepping
    (honly : ∀ action ∈ actions, action.RunsOnly tid shown)
    (hruns : Action.run tid ∈ actions) (hrunning : task.stopped = false)
    (hstepping : task.stepping = true) (target : Target R D)
    (htasks : target.tasks = SortedMap.empty.insert tid task) :
    performAll arch program target actions
      = ((runTask arch program target tid task).1,
        { (runTask arch program target tid task).2 with
          maps := mapsAfter target.maps actions }) := by
  induction actions generalizing target with
  | nil => cases hruns
  | cons action rest ih =>
      have honly' : ∀ action ∈ rest, action.RunsOnly tid shown :=
        fun action hmem => honly action (List.mem_cons_of_mem _ hmem)
      rcases honly action List.mem_cons_self with rfl | ⟨modules, -, rfl⟩
      · obtain ⟨task', hstopped, htasks'⟩ :=
          runTask_tasks arch program hstepping target htasks
        have hperform : perform arch program target (.run tid)
            = runTask arch program target tid task := by
          simp [perform, running_of_tasks htasks, hrunning]
        rw [performAll, hperform]
        dsimp only
        rw [performAll_stopped arch program honly' hstopped _ htasks', runTask_maps]
        rfl
      · have hmem : Action.run tid ∈ rest := by simpa using hruns
        rw [performAll, perform]
        dsimp only
        rw [ih honly' hmem { target with maps := some modules } htasks, runTask_setMaps]
        simp [mapsAfter]

end Actions

/-! ### The state of the session -/

/-- The instruction a thread has executed, and the thread. -/
def Entry.execution : Entry → Option (Tid × Address)
  | .target (.executed tid address) => some (tid, address)
  | _ => none

/-- The instructions executed so far, the newest first. -/
def State.executions (s : State R D) : List (Tid × Address) := s.log.filterMap Entry.execution

/-- The breakpoint whose hit is announced, and where. -/
def Entry.announcedHit : Entry → Option (Int × Address)
  | .out (.hitBreakpoint id address) => some (id, address)
  | _ => none

/-- The hits announced so far, the newest first. -/
def State.hits (s : State R D) : List (Int × Address) := s.log.filterMap Entry.announcedHit

theorem announcedHit_target (events : List TargetEvent) :
    (events.map Entry.target).filterMap Entry.announcedHit = [] := by
  simp [Entry.announcedHit]

/-- An entry that is neither of them. -/
def Entry.isAside (entry : Entry) : Bool :=
  entry.execution.isNone && entry.announcedHit.isNone

/-- The debugger with a change of its thread table. -/
def Debugger.withThreads (d : Debugger)
    (change : SortedMap Tid ThreadState → SortedMap Tid ThreadState) : Debugger :=
  { d with threads := change d.threads }

/-- The process has a single thread, whose events have all been consumed, and this is all there is to
know about the session. -/
structure Sole (machine : Machine R D) (tid : Tid) (shown : ModuleManager → Prop)
    (executed : List (Tid × Address)) (hits : List (Int × Address)) (task : Task R D)
    (d : Debugger) (m : Memory) (s : State R D) : Prop where
  tasks : s.target.tasks = SortedMap.empty.insert tid task
  ready : s.target.ready = []
  memory : s.target.memory = m
  debugger : s.debugger = d
  maps : ∃ modules, shown modules ∧
    mapsAfter s.target.maps (machine.schedule s.tick) = some modules
  executions : s.executions = executed
  hits : s.hits = hits

section Sole

variable {machine : Machine R D} {tid : Tid} {shown : ModuleManager → Prop}
  {executed : List (Tid × Address)} {hits : List (Int × Address)} {task : Task R D}
  {m : Memory} {d : Debugger} {s : State R D}

theorem Sole.noted (hs : Sole machine tid shown executed hits task d m s) (entry : Entry) :
    Sole machine tid shown (entry.execution.toList ++ executed) (entry.announcedHit.toList ++ hits)
      task d m (s.logged entry) := by
  refine ⟨hs.tasks, hs.ready, hs.memory, hs.debugger, hs.maps, ?_, ?_⟩
  · rw [← hs.executions, State.executions, State.logged, List.filterMap_cons]
    cases entry.execution <;> rfl
  · rw [← hs.hits, State.hits, State.logged, List.filterMap_cons]
    cases entry.announcedHit <;> rfl

theorem Sole.logged (hs : Sole machine tid shown executed hits task d m s) {entry : Entry}
    (hentry : entry.isAside = true) :
    Sole machine tid shown executed hits task d m (s.logged entry) := by
  rw [Entry.isAside, Bool.and_eq_true, Option.isNone_iff_eq_none, Option.isNone_iff_eq_none]
    at hentry
  have hnoted := hs.noted entry
  rw [hentry.1, hentry.2] at hnoted
  exact hnoted

theorem Sole.change (hs : Sole machine tid shown executed hits task d m s)
    (change : Debugger → Debugger) :
    Sole machine tid shown executed hits task (change d) m
      (s.withDebugger (change s.debugger)) :=
  ⟨hs.tasks, hs.ready, hs.memory, congrArg change hs.debugger, hs.maps, hs.executions, hs.hits⟩

theorem Sole.stopped (hs : Sole machine tid shown executed hits task d m s)
    (hstopped : task.stopped = true) : s.StoppedThread tid :=
  ⟨task, by rw [hs.tasks]; exact SortedMap.find?_insert_self _ _ _, hstopped⟩

theorem Sole.find? (hs : Sole machine tid shown executed hits task d m s) :
    s.target.tasks.find? tid = some task := by
  rw [hs.tasks]
  exact SortedMap.find?_insert_self _ _ _

theorem Sole.selected (hs : Sole machine tid shown executed hits task d m s)
    (hstopped : task.stopped = true) (hselected : d.selectedTid = tid) : s.SelectedStopped := by
  rw [State.SelectedStopped, hs.debugger, hselected]
  exact hs.stopped hstopped

variable (hmachine : machine.RunsOnly tid shown)

include hmachine

theorem Sole.maps_next (hs : Sole machine tid shown executed hits task d m s) :
    ∃ modules, shown modules ∧ mapsAfter (mapsAfter s.target.maps (machine.schedule s.tick))
      (machine.schedule (s.tick + 1)) = some modules :=
  mapsAfter_some (hmachine.only _) hs.maps

variable (arch) in
/-- A system call while the thread is stopped. -/
theorem Sole.enter_target (hs : Sole machine tid shown executed hits task d m s)
    (hstopped : task.stopped = true) :
    ((machine.environment arch).enter s).target
      = { s.target with maps := mapsAfter s.target.maps (machine.schedule s.tick) } :=
  congrArg Prod.snd (performAll_stopped arch machine.program (hmachine.only s.tick) hstopped s.target
    hs.tasks)

variable (arch) in
theorem Sole.enter (hs : Sole machine tid shown executed hits task d m s)
    (hstopped : task.stopped = true) :
    Sole machine tid shown executed hits task d m ((machine.environment arch).enter s) := by
  have hinterfere := performAll_stopped arch machine.program
    (hmachine.only s.tick) hstopped s.target hs.tasks
  have htarget := hs.enter_target arch hmachine hstopped
  have hlog : ((machine.environment arch).enter s).log = s.log := by
    rw [enter_log]
    exact congrArg (fun outcome => outcome.1.map Entry.target ++ s.log) hinterfere
  refine ⟨htarget ▸ hs.tasks, htarget ▸ hs.ready, htarget ▸ hs.memory, hs.debugger, ?_, ?_, ?_⟩
  · rw [htarget]
    exact hs.maps_next hmachine
  · rw [State.executions, hlog]
    exact hs.executions
  · rw [State.hits, hlog]
    exact hs.hits

variable (arch) in
theorem sole_held (hstopped : task.stopped = true) :
    Held (machine.environment arch) (Sole machine tid shown executed hits task d) where
  enter _ _ hs := hs.enter arch hmachine hstopped
  memory _ _ hs := hs.memory
  write _ _ _ hs := ⟨hs.tasks, hs.ready, rfl, hs.debugger, hs.maps, hs.executions, hs.hits⟩

/-! ### Requests -/

/-- A request to the stopped thread is answered. -/
theorem Sole.ptrace (hs : Sole machine tid shown executed hits task d m s)
    (hstopped : task.stopped = true) (operation : String)
    (request : Task R D → Target R D → α × Target R D) :
    Cosy.ptrace (machine.environment arch) operation tid request s
      = .ok (request task ((machine.environment arch).enter s).target).1
        { (machine.environment arch).enter s with
          target := (request task ((machine.environment arch).enter s).target).2 } :=
  (Machine.reliable hmachine.answers).ptrace hs.find? hstopped

/-- A request that only looks. -/
theorem sole_peek (hstopped : task.stopped = true) (operation : String)
    (look : Task R D → Target R D → α) :
    Triple (Sole machine tid shown executed hits task d m)
      (Cosy.ptrace (machine.environment arch) operation tid
        fun task target => (look task target, target))
      (fun _ => Sole machine tid shown executed hits task d m) (fun _ _ => False) := by
  intro s hs
  rw [hs.ptrace hmachine hstopped]
  exact hs.enter arch hmachine hstopped

theorem sole_pc (hstopped : task.stopped = true) :
    Triple (Sole machine tid shown executed hits task d m)
      (pc arch (machine.environment arch) tid)
      (fun value s => value = arch.pc task.regs ∧ Sole machine tid shown executed hits task d m s)
      (fun _ _ => False) := by
  intro s hs
  rw [(Machine.reliable hmachine.answers).pc hs.find? hstopped]
  exact ⟨rfl, hs.enter arch hmachine hstopped⟩

/-- A request that changes the thread. -/
theorem Sole.setTask (hs : Sole machine tid shown executed hits task d m s)
    (hstopped : task.stopped = true) (task' : Task R D) :
    Sole machine tid shown executed hits task' d m
      { (machine.environment arch).enter s with
        target := ((machine.environment arch).enter s).target.setTask tid task' } := by
  have hentered := hs.enter arch hmachine hstopped
  refine ⟨?_, hentered.ready, hentered.memory, hentered.debugger, hentered.maps,
    hentered.executions, hentered.hits⟩
  rw [Target.setTask, hentered.tasks]
  exact SortedMap.insert_insert_self _ _ _ _

theorem sole_setPc (hstopped : task.stopped = true) (value : Address) :
    Triple (Sole machine tid shown executed hits task d m)
      (setPc arch (machine.environment arch) tid value)
      (fun _ => Sole machine tid shown executed hits
        { task with regs := arch.setPc task.regs value } d m) (fun _ _ => False) := by
  intro s hs
  have hregs : getRegs arch (machine.environment arch) tid s
      = .ok task.regs ((machine.environment arch).enter s) := hs.ptrace hmachine hstopped _ _
  have hentered := hs.enter arch hmachine hstopped
  rw [setPc, bind_ok hregs, setRegs, bind_ok (hentered.ptrace hmachine hstopped _ _)]
  exact (hentered.setTask hmachine hstopped _).logged rfl

/-- The debugger looks at the memory maps. -/
theorem sole_refreshModules (hstopped : task.stopped = true) :
    Triple (Sole machine tid shown executed hits task d m)
      (refreshModules (machine.environment arch))
      (fun _ s => ∃ modules, shown modules ∧
        Sole machine tid shown executed hits task { d with modules := modules } m s)
      (fun _ _ => False) := by
  intro s hs
  obtain ⟨modules, hshown, hmaps⟩ := hs.maps
  have hfound : ((machine.environment arch).enter s).target.maps = some modules :=
    (congrArg Target.maps (hs.enter_target arch hmachine hstopped)).trans hmaps
  rw [refreshModules, modify_bind_apply, get_bind_apply, hfound]
  exact ⟨modules, hshown,
    (hs.enter arch hmachine hstopped).change fun d => { d with modules := modules }⟩

/-! ### Inserting and lifting a trap -/

variable {r : Breakpoint} {key : Address}

omit hmachine in
theorem sole_note {entry : Entry} (hentry : entry.isAside = true) :
    Triple (Sole machine tid shown executed hits task d m) (note entry)
      (fun _ => Sole machine tid shown executed hits task d m) (fun _ _ => False) :=
  Triple.modify fun _ hs => hs.logged hentry

omit hmachine in
theorem sole_noteConsumed (site : Site) (status : WaitStatus) :
    Triple (Sole machine tid shown executed hits task d m) (noteConsumed arch site tid status)
      (fun _ => Sole machine tid shown executed hits task d m) (fun _ _ => False) :=
  Triple.get_bind fun _ => (sole_note rfl).pre fun _ hs => hs.2

/-- Bytes are written wherever they are. -/
theorem sole_writeBytes (hstopped : task.stopped = true) (hselected : d.selectedTid = tid)
    {bytes : List Byte} (hlength : bytes.length = arch.breakpointSize) (address : Address) :
    Triple (Sole machine tid shown executed hits task d m)
      (writeBytes (machine.environment arch) address bytes)
      (fun _ => Sole machine tid shown executed hits task d (store m address bytes))
      (fun _ _ => False) := by
  have hreliable : (machine.environment arch).Reliable := Machine.reliable hmachine.answers
  have hsize : arch.breakpointSize ≤ 8 := Nat.le_of_dvd (by decide) arch.breakpointSize_dvd
  have hbytes : bytes ≠ [] := List.ne_nil_of_length_pos (hlength ▸ arch.breakpointSize_pos)
  refine ((sole_held arch hmachine hstopped).writeBytes hreliable hbytes (by omega) address).conseq
    (fun s hs => ⟨hs, ?_⟩) (fun _ _ hs => hs.1) fun _ _ hs => hs
  exact hreliable.answering (hs.selected hstopped hselected)

theorem sole_readBytes (hstopped : task.stopped = true) (hselected : d.selectedTid = tid)
    (address : Address) (n : Nat) :
    Triple (Sole machine tid shown executed hits task d m)
      (readBytes (machine.environment arch) address n)
      (fun bytes s => Sole machine tid shown executed hits task d m s ∧ bytes = bytesAt m address n)
      (fun _ _ => False) :=
  (((sole_held arch hmachine hstopped).readBytes address n).and
    ((Machine.reliable hmachine.answers).readBytes n address)).conseq
      (fun _ hs => ⟨hs, hs.selected hstopped hselected⟩) (fun _ _ hs => hs.1) fun _ _ hs => hs.2

theorem sole_insertTrap (hstopped : task.stopped = true) (hselected : d.selectedTid = tid) :
    Triple (Sole machine tid shown executed hits task d m)
      (insertTrap arch (machine.environment arch) key key)
      (fun _ => Sole machine tid shown executed hits task
        (d.withRecord key fun r => r.armedWith (bytesAt m key arch.breakpointSize))
        (store m key arch.breakpointInstruction)) (fun _ _ => False) := by
  rw [insertTrap]
  refine Triple.bind (sole_readBytes hmachine hstopped hselected key _) fun saved => ?_
  rintro s ⟨hs, rfl⟩
  -- The record has the bytes before the trap is written.
  have hsave : Triple (Sole machine tid shown executed hits task d m)
      (modifyBreakpoint (R := R) (D := D) key fun r =>
        { r with saved := bytesAt m key arch.breakpointSize })
      (fun _ => Sole machine tid shown executed hits task
        (d.withRecord key fun r => { r with saved := bytesAt m key arch.breakpointSize }) m)
      (fun _ _ => False) := Triple.modify fun t ht =>
    ht.change fun d => d.withRecord key fun r =>
      { r with saved := bytesAt m key arch.breakpointSize }
  refine Triple.bind hsave (fun _ => ?_) s hs
  refine Triple.bind (sole_writeBytes hmachine hstopped (by exact hselected)
    arch.length_breakpointInstruction key) fun _ => Triple.modify fun t ht => ?_
  have harmed := ht.change fun d => d.withRecord key fun r => { r with enabled := true }
  rw [Debugger.withRecord_withRecord] at harmed
  exact harmed

/-- `enable` on a record that is disabled. -/
theorem sole_enable (hstopped : task.stopped = true) (hselected : d.selectedTid = tid)
    (hr : d.breakpoints.find? key = some r) (haddress : r.address = key)
    (hpending : r.pending = false) (hdisabled : r.enabled = false) :
    Triple (Sole machine tid shown executed hits task d m)
      (enable arch (machine.environment arch) key)
      (fun _ => Sole machine tid shown executed hits task
        (d.withRecord key fun r => r.armedWith (bytesAt m key arch.breakpointSize))
        (store m key arch.breakpointInstruction)) (fun _ _ => False) := by
  intro s hs
  rw [enable, get_bind_apply, hs.debugger, hr]
  simp only [hpending, hdisabled, Bool.false_and, Bool.or_false, Bool.false_eq_true, if_false,
    haddress]
  refine Triple.bind (sole_note rfl) (fun _ => ?_) s hs
  exact Triple.onThrow (sole_insertTrap hmachine hstopped hselected) fun _ _ hfalse => hfalse

/-- `disable` on a record that is enabled. -/
theorem sole_disable (hstopped : task.stopped = true) (hselected : d.selectedTid = tid)
    (hr : d.breakpoints.find? key = some r) (haddress : r.address = key)
    (hpending : r.pending = false) (henabled : r.enabled = true)
    (hlength : r.saved.length = arch.breakpointSize) :
    Triple (Sole machine tid shown executed hits task d m)
      (disable (machine.environment arch) key)
      (fun _ => Sole machine tid shown executed hits task
        (d.withRecord key fun r => { r with enabled := false }) (store m key r.saved))
      (fun _ _ => False) := by
  intro s hs
  have hsaved : r.saved.isEmpty = false := by
    rw [List.isEmpty_eq_false_iff]
    exact List.ne_nil_of_length_pos (hlength ▸ arch.breakpointSize_pos)
  rw [disable, get_bind_apply, hs.debugger, hr]
  simp only [hpending, henabled, hsaved, Bool.not_true, Bool.or_false, Bool.false_eq_true, if_false,
    haddress]
  refine Triple.bind (sole_writeBytes hmachine hstopped hselected hlength key) (fun _ t ht => ?_) s hs
  exact ((ht.logged rfl).change fun d => d.withRecord key fun r =>
    { r with enabled := false }).logged rfl

omit hmachine in
/-- `disable` where there is no enabled record. -/
theorem sole_disable_none
    (hdisabled : ∀ r, d.breakpoints.find? key = some r → r.enabled = false) :
    Triple (Sole machine tid shown executed hits task d m)
      (disable (machine.environment arch) key)
      (fun _ => Sole machine tid shown executed hits task d m) (fun _ _ => False) := by
  intro s hs
  rw [disable, get_bind_apply, hs.debugger]
  cases hr : d.breakpoints.find? key with
  | none => exact hs
  | some r =>
      simp only [hdisabled r hr, Bool.not_false, Bool.or_true, Bool.true_or, if_true]
      exact hs

/-! ### A step -/

/-- Let go for a step, the thread takes it and stops. -/
theorem sole_waitForEvent (events : List TargetEvent) (hrunning : task.stopped = false)
    (hstepping : task.stepping = true) {task' : Task R D} {m' : Memory}
    (hstep : ∀ target : Target R D, target.tasks = SortedMap.empty.insert tid task →
      target.ready = [] → target.memory = m →
        (runTask arch machine.program target tid task).1 = events ∧
        (runTask arch machine.program target tid task).2.tasks
          = SortedMap.empty.insert tid task' ∧
        (runTask arch machine.program target tid task).2.ready = [(tid, .stopped sigtrap 0)] ∧
        (runTask arch machine.program target tid task).2.memory = m') :
    Triple (Sole machine tid shown executed hits task d m)
      (waitForEvent (machine.environment arch))
      (fun event s => event = (tid, .stopped sigtrap 0) ∧
        Sole machine tid shown ((events.map Entry.target).filterMap Entry.execution ++ executed) hits
          task' d m' s)
      (fun _ _ => False) := by
  intro s hs
  obtain ⟨hevents, htasks, hready, hmemory⟩ := hstep s.target hs.tasks hs.ready hs.memory
  have hinterfere := performAll_stepping arch machine.program
    (hmachine.only s.tick) (hmachine.runs s.tick) hrunning hstepping s.target hs.tasks
  have htarget : ((machine.environment arch).enter s).target
      = { (runTask arch machine.program s.target tid task).2 with
          maps := mapsAfter s.target.maps (machine.schedule s.tick) } :=
    congrArg Prod.snd hinterfere
  have hlog : ((machine.environment arch).enter s).log = events.map Entry.target ++ s.log := by
    rw [enter_log, ← hevents]
    exact congrArg (fun outcome => outcome.1.map Entry.target ++ s.log) hinterfere
  have hwait : waitForEvent (machine.environment arch) s
      = .ok (tid, .stopped sigtrap 0)
        { (machine.environment arch).enter s with
          target := { ((machine.environment arch).enter s).target with ready := [] } } := by
    rw [waitForEvent]
    simp only [htarget, hready]
  rw [hwait]
  refine ⟨rfl, ?_, rfl, ?_, hs.debugger, ?_, ?_, ?_⟩
  · exact htarget ▸ htasks
  · exact htarget ▸ hmemory
  · rw [htarget]
    exact hs.maps_next hmachine
  · rw [State.executions, hlog, List.filterMap_append]
    exact congrArg _ hs.executions
  · rw [State.hits, hlog, List.filterMap_append, announcedHit_target]
    exact hs.hits

/-- The thread after a step that has executed an instruction. -/
def Task.stepped (task : Task R D) (regs : R) : Task R D :=
  { task with regs := regs, siCode := 2, stopped := true, stepping := false }

/-- The thread after it has executed a trap. -/
def Task.trapped (task : Task R D) (regs : R) : Task R D :=
  { task with regs := regs, siCode := 0x80, stopped := true, stepping := false }

/-- The thread let go for a step. -/
def Task.letGo (task : Task R D) : Task R D := { task with stopped := false, stepping := true }

/-- The step executes an instruction of the program. -/
theorem sole_executed (htrap : arch.trapAt m (arch.pc task.regs) = false) {regs : R} {m' : Memory}
    (hstep : machine.program.step task.regs m = (regs, m')) :
    Triple (Sole machine tid shown executed hits task.letGo d m)
      (waitForEvent (machine.environment arch))
      (fun event s => event = (tid, .stopped sigtrap 0) ∧
        Sole machine tid shown ((tid, arch.pc task.regs) :: executed) hits (task.stepped regs) d m' s)
      (fun _ _ => False) := by
  refine sole_waitForEvent hmachine [.executed tid (arch.pc task.regs)] rfl rfl
    fun target htasks hready hmemory => ?_
  subst hmemory
  unfold runTask
  simp only [Task.letGo, htrap, Bool.false_eq_true, if_false, if_true, Target.halt, htasks, hready,
    hstep]
  exact ⟨trivial, SortedMap.insert_insert_self _ _ _ _, rfl, trivial⟩

/-- The step executes a trap. -/
theorem sole_trapped (htrap : arch.trapAt m (arch.pc task.regs) = true) :
    Triple (Sole machine tid shown executed hits task.letGo d m)
      (waitForEvent (machine.environment arch))
      (fun event s => event = (tid, .stopped sigtrap 0) ∧
        Sole machine tid shown executed hits
          (task.trapped (arch.setPc task.regs (arch.pcAfterTrap (arch.pc task.regs)))) d m s)
      (fun _ _ => False) := by
  refine sole_waitForEvent hmachine [.trapped tid (arch.pc task.regs)] rfl rfl
    fun target htasks hready hmemory => ?_
  subst hmemory
  unfold runTask
  simp only [Task.letGo, htrap, if_true, Target.halt, htasks, hready]
  exact ⟨trivial, SortedMap.insert_insert_self _ _ _ _, rfl, trivial⟩

/-- The thread let go by a request. -/
def Task.resumed (task : Task R D) (request : ResumeRequest) : Task R D :=
  { task with stopped := false, stepping := request = .singlestep }

theorem sole_resume (hstopped : task.stopped = true) (request : ResumeRequest) :
    Triple (Sole machine tid shown executed hits task d m)
      (resume (machine.environment arch) tid request 0)
      (fun _ => Sole machine tid shown executed hits (task.resumed request) d m)
      (fun _ _ => False) := by
  intro s hs
  rw [resume, bind_ok (hs.ptrace hmachine hstopped _ _)]
  exact (hs.setTask hmachine hstopped (task.resumed request)).logged rfl

/-! ### Stepping over a breakpoint -/

omit hmachine in
theorem sole_modifyThreads (change : SortedMap Tid ThreadState → SortedMap Tid ThreadState) :
    Triple (Sole machine tid shown executed hits task d m) (modifyThreads change)
      (fun _ => Sole machine tid shown executed hits task (d.withThreads change) m)
      (fun _ _ => False) :=
  Triple.modify fun _ hs => hs.change fun d => d.withThreads change

omit hmachine in
theorem sole_recordRunning (hcontains : d.threads.contains tid = true) :
    Triple (Sole machine tid shown executed hits task d m) (recordRunning tid)
      (fun _ => Sole machine tid shown executed hits task
        (d.withThreads fun threads =>
          threads.modify tid fun state => { state with stopped := false }) m)
      (fun _ _ => False) := by
  intro s hs
  rw [recordRunning, get_bind_apply, hs.debugger, if_pos hcontains]
  exact sole_modifyThreads _ s hs

/-- With its trap lifted, the instruction under it is executed. -/
theorem sole_stepOffTrap (hstopped : task.stopped = true) (hselected : d.selectedTid = tid)
    (hkey : arch.pc task.regs = key) (hr : d.breakpoints.find? key = some r)
    (haddress : r.address = key) (hpending : r.pending = false) (henabled : r.enabled = true)
    (hlength : r.saved.length = arch.breakpointSize) (hcontains : d.threads.contains tid = true)
    (htrap : arch.trapAt (store m key r.saved) key = false) {regs : R} {m' : Memory}
    (hstep : machine.program.step task.regs (store m key r.saved) = (regs, m')) :
    Triple (Sole machine tid shown executed hits task d m)
      (stepOffTrap (machine.environment arch) key)
      (fun event s => event = (tid, .stopped sigtrap 0) ∧
        Sole machine tid shown ((tid, key) :: executed) hits (task.stepped regs)
          ((d.withRecord key fun r => { r with enabled := false }).withThreads fun threads =>
            threads.modify tid fun state => { state with stopped := false }) m' s)
      (fun _ _ => False) := by
  subst hkey
  refine Triple.bind (sole_disable hmachine hstopped hselected hr haddress hpending henabled hlength)
    fun _ s hs => ?_
  have hs' : s.debugger.selectedTid = tid := by
    rw [hs.debugger]
    exact hselected
  rw [get_bind_apply, hs']
  refine Triple.bind (sole_note rfl) (fun _ => ?_) s hs
  refine Triple.onThrow (F := fun _ _ => False) ?_ fun _ _ hfalse => hfalse.elim
  refine Triple.bind (sole_resume hmachine hstopped .singlestep) fun _ => ?_
  refine Triple.bind (sole_recordRunning (by exact hcontains)) fun _ => ?_
  exact sole_executed hmachine htrap hstep

/-- Put back after the step, the record is as it was but for the bytes it keeps. -/
theorem sole_reinsert (hstopped : task.stopped = true) (hselected : d.selectedTid = tid)
    (hr : d.breakpoints.find? key = some r) (haddress : r.address = key)
    (hpending : r.pending = false) (hdisabled : r.enabled = false) :
    Triple (Sole machine tid shown executed hits task d m)
      (handleStepStop arch (machine.environment arch) key tid)
      (fun _ => Sole machine tid shown executed hits task
        (d.withRecord key fun r => r.armedWith (bytesAt m key arch.breakpointSize))
        (store m key arch.breakpointInstruction)) (fun _ _ => False) := by
  intro s hs
  rw [handleStepStop, get_bind_apply, hs.debugger, if_pos hselected.symm, reinsert, get_bind_apply]
  exact Triple.onThrow
    (sole_enable hmachine hstopped hselected hr haddress hpending hdisabled)
    (fun _ _ hfalse => hfalse) s hs

/-- The debugger after a step-over that the stop of the stepped thread has ended. -/
def Debugger.steppedOver (d : Debugger) (tid : Tid) (key : Address) (saved : List Byte) :
    Debugger :=
  (d.withRecord key fun r => r.armedWith saved).withThreads fun threads =>
    threads.insert tid ⟨tid, true, sigtrap⟩

omit hmachine in
theorem steppedOver_eq (d : Debugger) (tid : Tid) (key : Address) (saved : List Byte) :
    ((((d.withRecord key fun r => { r with enabled := false }).withThreads fun threads =>
      threads.modify tid fun state => { state with stopped := false }).withThreads fun threads =>
        threads.insert tid ⟨tid, true, sigtrap⟩).withRecord key fun r => r.armedWith saved)
      = d.steppedOver tid key saved := by
  have htable : (d.breakpoints.modify key fun r => { r with enabled := false }).modify key
      (fun r => r.armedWith saved) = d.breakpoints.modify key fun r => r.armedWith saved :=
    congrArg Debugger.breakpoints (d.withRecord_withRecord key _ _)
  simp only [Debugger.steppedOver, Debugger.withThreads, Debugger.withRecord, htable,
    SortedMap.insert_modify_self]

variable (executed) in
theorem sole_stepOverBreakpoint (hstopped : task.stopped = true) (hselected : d.selectedTid = tid)
    (hkey : arch.pc task.regs = key) (hr : d.breakpoints.find? key = some r)
    (haddress : r.address = key) (hpending : r.pending = false) (henabled : r.enabled = true)
    (hlength : r.saved.length = arch.breakpointSize) (hcontains : d.threads.contains tid = true)
    (htrap : arch.trapAt (store m key r.saved) key = false) {regs : R} {m' : Memory}
    (hstep : machine.program.step task.regs (store m key r.saved) = (regs, m')) :
    Triple (Sole machine tid shown executed hits task d m)
      (stepOverBreakpoint arch (machine.environment arch))
      (fun _ => Sole machine tid shown ((tid, key) :: executed) hits (task.stepped regs)
        (d.steppedOver tid key (bytesAt m' key arch.breakpointSize))
        (store m' key arch.breakpointInstruction)) (fun _ _ => False) := by
  intro s hs
  rw [stepOverBreakpoint, get_bind_apply, hs.debugger, hselected]
  refine Triple.bind (sole_pc hmachine hstopped) (fun value => ?_) s hs
  rintro t ⟨rfl, ht⟩
  rw [get_bind_apply, ht.debugger, hkey, hr]
  simp only [henabled, if_true]
  refine Triple.bind (sole_stepOffTrap hmachine hstopped hselected hkey hr haddress hpending henabled
    hlength hcontains htrap hstep) (fun event => ?_) t ht
  rintro u ⟨rfl, hu⟩
  refine Triple.bind (sole_noteConsumed .stepOver _) (fun _ v hv => ?_) u hu
  refine Triple.bind (sole_modifyThreads _) (fun _ => ?_) v hv
  have hdisabled : (d.breakpoints.modify key fun r => { r with enabled := false }).find? key
      = some { r with enabled := false } := by
    rw [SortedMap.find?_modify_self, hr]
    rfl
  rw [← steppedOver_eq]
  exact sole_reinsert hmachine rfl hselected hdisabled haddress hpending rfl

/-- Without an enabled record at the program counter there is nothing to step over. -/
theorem sole_stepOverBreakpoint_none (hstopped : task.stopped = true)
    (hselected : d.selectedTid = tid)
    (hnone : ∀ r, d.breakpoints.find? (arch.pc task.regs) = some r → r.enabled = false) :
    Triple (Sole machine tid shown executed hits task d m)
      (stepOverBreakpoint arch (machine.environment arch))
      (fun _ => Sole machine tid shown executed hits task d m) (fun _ _ => False) := by
  intro s hs
  rw [stepOverBreakpoint, get_bind_apply, hs.debugger, hselected]
  refine Triple.bind (sole_pc hmachine hstopped) (fun value => ?_) s hs
  rintro t ⟨rfl, ht⟩
  rw [get_bind_apply, ht.debugger]
  cases hr : d.breakpoints.find? (arch.pc task.regs) with
  | none => exact ht
  | some r =>
      simp only [hnone r hr, Bool.false_eq_true, if_false]
      exact ht

/-! ### The report -/

theorem sole_inspectWatchpoints (hstopped : task.stopped = true) (watchpoints : List Watchpoint) :
    Triple (Sole machine tid shown executed hits task d m)
      (inspectWatchpoints (machine.environment arch) tid watchpoints)
      (fun _ => Sole machine tid shown executed hits task d m) (fun _ _ => False) := by
  induction watchpoints with
  | nil => exact Triple.pure fun _ hs => hs
  | cons watchpoint rest ih =>
      have hcode : Triple (Sole machine tid shown executed hits task d m)
          (attempt
            (Cosy.ptrace (machine.environment arch) "PTRACE_GETSIGINFO" tid fun task target =>
              (some task.siCode, target))
            fun _ => pure none)
          (fun _ => Sole machine tid shown executed hits task d m) (fun _ _ => False) :=
        Triple.rescue (F := fun _ _ => False) (sole_peek hmachine hstopped _ _)
          (fun _ _ _ _ hfalse => hfalse.elim) fun _ _ _ hfalse => hfalse
      refine Triple.bind hcode fun code => ?_
      split
      · exact sole_note rfl
      · exact ih

theorem sole_printLocation (hstopped : task.stopped = true) :
    Triple (Sole machine tid shown executed hits task d m)
      (attempt (printLocation arch (machine.environment arch) tid) fun _ => pure ⟨⟩)
      (fun _ => Sole machine tid shown executed hits task d m) (fun _ _ => False) := by
  have hpc : Triple (Sole machine tid shown executed hits task d m)
      (pc arch (machine.environment arch) tid)
      (fun _ => Sole machine tid shown executed hits task d m) (fun _ _ => False) :=
    (sole_pc hmachine hstopped).post fun _ _ hs => hs.2
  refine Triple.rescue (F := fun _ _ => False) ?_ (fun _ _ _ _ hfalse => hfalse.elim)
    fun _ _ _ hfalse => hfalse
  refine Triple.get_bind fun s => ?_
  refine Triple.bind (hpc.pre fun _ hs => hs.2) fun _ => ?_
  refine Triple.bind hpc fun _ => ?_
  split
  · exact sole_note rfl
  · dsimp only
    split
    · exact Triple.bind hpc fun _ => sole_note rfl
    · exact Triple.pure fun _ hs => hs

omit hmachine in
/-- What is said of the thread alone is kept by what keeps all there is to know. -/
theorem settled_of_sole {Q : State R D → Prop} {m : Dbg R D α}
    (hQ : ∀ s, Q s → ∃ executed hits d memory,
      Sole machine tid shown executed hits task d memory s ∧
        ∀ t, Sole machine tid shown executed hits task d memory t → Q t)
    (hm : ∀ executed hits d memory, Triple (Sole machine tid shown executed hits task d memory) m
      (fun _ => Sole machine tid shown executed hits task d memory) (fun _ _ => False)) :
    Triple Q m (fun _ => Q) (fun _ _ => False) := by
  intro s hs
  obtain ⟨executed, hits, d, memory, hs, hback⟩ := hQ s hs
  exact (hm executed hits d memory).post (fun _ t ht => hback t ht) s hs

/-- `print_stop` of a stop by SIGTRAP leaves the session as looking for a breakpoint has left it. -/
theorem sole_reportStop (hstopped : task.stopped = true) (hsignal : d.stopSignal tid = some sigtrap)
    {task' : Task R D} (hstopped' : task'.stopped = true) {Q : State R D → Prop}
    (hQ : ∀ s, Q s → ∃ executed hits d memory,
      Sole machine tid shown executed hits task' d memory s ∧
        ∀ t, Sole machine tid shown executed hits task' d memory t → Q t)
    (hinspect : Triple (Sole machine tid shown executed hits task d m)
      (inspectBreakpoint arch (machine.environment arch) tid (arch.candidate (arch.pc task.regs)))
      (fun _ => Q) (fun _ _ => False)) :
    Triple (Sole machine tid shown executed hits task d m)
      (reportStop arch (machine.environment arch) tid) (fun _ => Q) (fun _ _ => False) := by
  have htrap : Triple (Sole machine tid shown executed hits task d m)
      (inspectTrap arch (machine.environment arch) tid) (fun _ => Q) (fun _ _ => False) := by
    refine Triple.bind (sole_pc hmachine hstopped) fun value => ?_
    rintro s ⟨rfl, hs⟩
    refine Triple.bind hinspect (fun _ => Triple.get_bind fun t => ?_) s hs
    exact (settled_of_sole hQ fun _ _ _ _ =>
      sole_inspectWatchpoints hmachine hstopped' t.debugger.watchpoints).pre fun _ ht => ht.2
  have hprint : Triple (Sole machine tid shown executed hits task d m)
      (printStop arch (machine.environment arch) tid) (fun _ => Q) (fun _ _ => False) := by
    intro s hs
    rw [printStop, get_bind_apply, hs.debugger, hsignal]
    dsimp only [printStopped]
    rw [if_pos rfl]
    refine Triple.bind (Triple.rescue (F := fun _ _ => False) htrap
      (fun _ _ _ _ hfalse => hfalse.elim) fun _ _ _ hfalse => hfalse) (fun _ => ?_) s hs
    exact settled_of_sole hQ fun _ _ _ _ => sole_printLocation hmachine hstopped'
  refine Triple.get_bind fun s => ?_
  refine Triple.bind ((sole_note rfl).pre fun _ hs => hs.2) fun _ => ?_
  refine Triple.bind (Triple.onThrow hprint fun _ _ hfalse => hfalse) fun _ => ?_
  exact settled_of_sole hQ fun _ _ _ _ => sole_note rfl

/-- The debugger once it has recorded a stop by SIGTRAP. -/
def Debugger.recording (d : Debugger) (tid : Tid) : Debugger :=
  { d with
    selectedTid := tid
    threads := d.threads.insert tid ⟨tid, true, sigtrap⟩ }

omit hmachine in
theorem Debugger.stopSignal_recording (d : Debugger) (modules : ModuleManager)
    (halive : d.alive = true) :
    ({ d.recording tid with modules := modules } : Debugger).stopSignal tid = some sigtrap := by
  have hfind : (d.recording tid).threads.find? tid = some ⟨tid, true, sigtrap⟩ :=
    SortedMap.find?_insert_self _ _ _
  have halive' : (d.recording tid).alive = true := halive
  rw [Debugger.stopSignal, hfind]
  simp [halive']

omit hmachine in
/-- `wait_and_report` from the stop on. -/
theorem sole_stopConsumed {P Q : State R D → Prop} {report : Bool}
    (hrefresh : Triple (Sole machine tid shown executed hits task (d.recording tid) m)
      (refreshTarget arch (machine.environment arch)) (fun _ => P) (fun _ _ => False))
    (hreport : Triple P (doIf (report = true) (reportStop arch (machine.environment arch) tid))
      (fun _ => Q) (fun _ _ => False)) :
    Triple (Sole machine tid shown executed hits task d m)
      (do
        noteConsumed arch .waitAndReport tid (.stopped sigtrap 0)
        handleEvent arch (machine.environment arch) tid (.stopped sigtrap 0) report)
      (fun _ => Q) (fun _ _ => False) := by
  refine Triple.bind (sole_noteConsumed .waitAndReport _) fun _ => ?_
  refine Triple.bind (Q := fun _ => Sole machine tid shown executed hits task
    { d with selectedTid := tid } m)
    (Triple.modify fun s hs => hs.change fun d => { d with selectedTid := tid }) fun _ => ?_
  refine Triple.bind (Q := fun _ => P) ?_ fun _ => hreport
  exact Triple.bind (sole_modifyThreads _) fun _ => hrefresh

end Sole

end Cosy
