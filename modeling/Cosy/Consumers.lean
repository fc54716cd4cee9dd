import Cosy.Rearming

/-!
# The two consumers of an event

`step_over_breakpoint` and `wait_and_report` decode the same statuses. What each of them makes of
one event, started in one state and with nothing else going on meanwhile, is compared by what is
left behind: the thread table, whether the target lives, what is configured in the thread, the
modules and the pending breakpoints.
-/

namespace Cosy

open ByteMemory Effect

variable {R D α : Type} {arch : Architecture R D} {env : Environment R D} {T : Set Address}

/-- Nothing happens outside the debugger, and every request to a stopped thread succeeds. -/
structure Environment.Calm (env : Environment R D) : Prop where
  still : ∀ tick target, env.interfere tick target = ([], target)
  answers : ∀ tick, env.fails tick = false

theorem Environment.Calm.reliable (hcalm : env.Calm) : env.Reliable where
  steady tick target tid task htask _ := by rw [hcalm.still]; exact htask
  answers := hcalm.answers

theorem Environment.Calm.enter_target (hcalm : env.Calm) (s : State R D) :
    (env.enter s).target = s.target := by
  rw [Cosy.enter_target, hcalm.still]

/-- What consuming an event leaves behind. -/
structure Aftermath (D : Type) where
  threads : SortedMap Tid ThreadState
  alive : Bool
  /-- Whether the options are set in the thread, and its debug registers. -/
  configured : Option (Bool × D)
  modules : ModuleManager
  pendingBreakpoints : List Breakpoint

def State.aftermath (s : State R D) (tid : Tid) : Aftermath D where
  threads := s.debugger.threads
  alive := s.debugger.alive
  configured := (s.target.tasks.find? tid).map fun task => (task.options, task.debug)
  modules := s.debugger.modules
  pendingBreakpoints := s.debugger.pendingBreakpoints

/-! ### What makes no difference -/

/-- The moves of reporting a stop, of creating breakpoints and of putting a trap back. -/
def incidental : List Kind := inspecting ++ creating ++ [.report, .stepping]

section Incidental

variable {tid : Tid} {s t : State R D}

/-- A thread is given other registers, this one or another. -/
theorem find?_setRegs {target : Target R D} {tid' : Tid} {task : Task R D} (regs : R)
    (htask : target.tasks.find? tid' = some task) (tid : Tid) :
    (target.setTask tid' { task with regs := regs }).tasks.find? tid
      = (target.tasks.find? tid).map fun task' =>
        if tid = tid' then { task' with regs := regs } else task' := by
  rw [Target.setTask, SortedMap.find?_insert]
  by_cases heq : tid = tid'
  · simp [heq, htask]
  · simp [heq]

theorem aftermath_setRegs {tid' : Tid} {task : Task R D} (regs : R)
    (htask : s.target.tasks.find? tid' = some task) :
    (s.withTarget (s.target.setTask tid' { task with regs := regs })).aftermath tid
      = s.aftermath tid := by
  simp only [State.aftermath, State.withTarget, find?_setRegs regs htask, Option.map_map,
    Aftermath.mk.injEq, true_and, and_true]
  congr 1
  funext old
  by_cases heq : tid = tid' <;> simp [heq]

theorem Move.aftermath (hcalm : env.Calm) {kind : Kind} (hkind : kind ∈ incidental)
    (hmove : Move arch env T kind s t) : t.aftermath tid = s.aftermath tid := by
  cases hmove with
  | enter =>
      rw [State.aftermath, hcalm.enter_target]
      rfl
  | regs _ regs htask => exact aftermath_setRegs regs htask
  | say | report | stepping | insert | erase | arming | save | arm | abandon | armWild | lift
  | liftWild | userEnabled | userDisabled => rfl
  | _ => exact absurd hkind (by decide)

/-- Functions that make only such moves leave everything behind as it was. -/
theorem aftermath_of_does (hcalm : env.Calm) {m : Dbg R D α} (hm : Does arch env ∅ incidental m)
    (a : Aftermath D) :
    Within (Keeps fun s : State R D =>
      WellFormed arch s.debugger.breakpoints ∧ s.aftermath tid = a) m := by
  rintro s ⟨hformed, ha⟩
  obtain ⟨hmoves, hformed'⟩ := hm s hformed
  exact ⟨hformed', hmoves.preserve (I := fun u => u.aftermath tid = a)
    (fun _ hkind _ _ hmove hu => (hmove.aftermath hcalm hkind).trans hu) ha⟩

end Incidental

/-! ### Inside a step-over -/

theorem handleStepEvent_aftermath (hcalm : env.Calm) {u : State R D} (address : Address) (tid : Tid)
    (status : WaitStatus) (hformed : WellFormed arch u.debugger.breakpoints) :
    (endState (handleStepEvent arch env address tid status) u).aftermath tid
      = { u.aftermath tid with
          threads := u.debugger.threads.insert tid
            ⟨tid, status.isStopped, status.stopSignal⟩ } := by
  let v := u.withDebugger { u.debugger with
    threads := u.debugger.threads.insert tid ⟨tid, status.isStopped, status.stopSignal⟩ }
  have hstop : Within (Keeps fun s : State R D =>
      WellFormed arch s.debugger.breakpoints ∧ s.aftermath tid = v.aftermath tid)
      (doIf status.isStopped (handleStepStop arch env address tid)) := by
    have hreinsert : Within (Keeps fun s : State R D =>
        WellFormed arch s.debugger.breakpoints ∧ s.aftermath tid = v.aftermath tid)
        (reinsert arch env tid address) :=
      aftermath_of_does hcalm (Within.get_bind fun s => WithinAt.onThrow
        ((does_enable (Environment.leavesText_empty env) address).mono (by decide) s)
        fun _ t _ => Runs.of_move (.stepping t rfl) (by decide) rfl) _
    refine Within.doIf fun _ => Within.get_bind fun s =>
      Within.ite (fun _ => hreinsert) (fun _ => ?_) s
    refine Within.bind hreinsert fun _ => Within.bind (Within.modify fun w hw => hw) fun _ => ?_
    exact aftermath_of_does hcalm
      ((does_printStop (Environment.leavesText_empty env) tid).mono (by decide)) _
  exact (hstop v ⟨hformed, rfl⟩).2

/-! ### Inside `wait_and_report` -/

/-- The state while `wait_and_report` deals with a stop of `tid`: the thread is selected and stopped.
The clone message, the maps and the watchpoints are what they were when the event came. -/
structure Attending (arch : Architecture R D) (tid : Tid) (message : Address)
    (maps : Option ModuleManager) (watchpoints : List Watchpoint) (a : Aftermath D)
    (s : State R D) : Prop where
  formed : WellFormed arch s.debugger.breakpoints
  selected : s.debugger.selectedTid = tid
  stopped : ∃ task, s.target.tasks.find? tid = some task ∧ task.stopped = true ∧
    task.eventMsg = message
  maps : s.target.maps = maps
  watchpoints : s.debugger.watchpoints = watchpoints
  aftermath : s.aftermath tid = a

section Attending

variable {tid : Tid} {message : Address} {maps : Option ModuleManager}
  {watchpoints : List Watchpoint} {a : Aftermath D} {s t : State R D}

theorem Attending.selectedStopped (hs : Attending arch tid message maps watchpoints a s) :
    s.SelectedStopped := by
  obtain ⟨task, htask, hstopped, -⟩ := hs.stopped
  exact ⟨task, hs.selected.symm ▸ htask, hstopped⟩

theorem Attending.enter (hcalm : env.Calm) (hs : Attending arch tid message maps watchpoints a s) :
    Attending arch tid message maps watchpoints a (env.enter s) := by
  have htarget := hcalm.enter_target s
  refine ⟨hs.formed, hs.selected, htarget ▸ hs.stopped, htarget ▸ hs.maps, hs.watchpoints, ?_⟩
  have hmove : Move arch env ∅ .enter s (env.enter s) := .enter s
  exact (hmove.aftermath hcalm (by decide)).trans hs.aftermath

theorem Attending.of_moves (hcalm : env.Calm) (hmoves : Moves arch env T incidental s t)
    (hs : Attending arch tid message maps watchpoints a s) :
    Attending arch tid message maps watchpoints a t := by
  refine hmoves.preserve (fun kind hkind u v hmove hu => ?_) hs
  have hformed := hmove.wellFormed hu.formed
  have haftermath := (hmove.aftermath hcalm hkind).trans hu.aftermath
  cases hmove with
  | enter => exact hu.enter hcalm
  | regs _ regs htask =>
      refine ⟨hformed, hu.selected, ?_, hu.maps, hu.watchpoints, haftermath⟩
      obtain ⟨old, hold, hstopped, hmessage⟩ := hu.stopped
      refine ⟨_, (find?_setRegs regs htask tid).trans (congrArg _ hold), ?_⟩
      split <;> exact ⟨hstopped, hmessage⟩
  | say | report | stepping | insert | erase | arming | save | arm | abandon | armWild | lift
  | liftWild | userEnabled | userDisabled =>
      exact ⟨hformed, hu.selected, hu.stopped, hu.maps, hu.watchpoints, haftermath⟩
  | _ => exact absurd hkind (by decide)

theorem Attending.of_does (hcalm : env.Calm) {m : Dbg R D α} (hm : Does arch env ∅ incidental m) :
    Within (Keeps (Attending arch tid message maps watchpoints a)) m :=
  fun s hs => hs.of_moves hcalm (hm s hs.formed).1

theorem Attending.book (hs : Attending arch tid message maps watchpoints a s) {d : Debugger}
    (hbreakpoints : d.breakpoints = s.debugger.breakpoints)
    (hselected : d.selectedTid = s.debugger.selectedTid)
    (hwatchpoints : d.watchpoints = s.debugger.watchpoints) :
    Attending arch tid message maps watchpoints
      { a with threads := d.threads, alive := d.alive, modules := d.modules
               pendingBreakpoints := d.pendingBreakpoints } (s.withDebugger d) :=
  ⟨hbreakpoints ▸ hs.formed, hselected.trans hs.selected, hs.stopped, hs.maps,
    hwatchpoints.trans hs.watchpoints, hs.aftermath ▸ rfl⟩

/-! ### Modules and pending breakpoints -/

theorem createBreakpoint_attending (hcalm : env.Calm) (address : Address) (specification : Text) :
    Triple (Attending arch tid message maps watchpoints a)
      (createBreakpoint arch env address specification false)
      (fun _ => Attending arch tid message maps watchpoints a) (fun _ _ => False) := by
  have hkeep : Within (Keeps (Attending arch tid message maps watchpoints a))
      (createBreakpoint arch env address specification false) := Attending.of_does hcalm
    ((does_createBreakpoint (Environment.leavesText_empty env) address specification false).mono
      (by decide))
  refine ((hcalm.reliable.createBreakpoint address specification false).frame hkeep
    fun _ _ hst => hst).conseq ?_ (fun _ _ hs => hs.2) fun _ _ hs => hs.1.elim
  exact fun s hs => ⟨hcalm.reliable.answering hs.selectedStopped, hs⟩

theorem announceResolved_attending (hcalm : env.Calm) (specification : Text)
    (addresses : List Address) :
    Triple (Attending arch tid message maps watchpoints a)
      (announceResolved arch env specification addresses)
      (fun _ => Attending arch tid message maps watchpoints a) (fun _ _ => False) := by
  induction addresses with
  | nil => exact Triple.pure fun _ hs => hs
  | cons address rest ih =>
      refine Triple.bind (createBreakpoint_attending hcalm address specification) fun id => ?_
      refine Triple.bind (Q := fun _ => Attending arch tid message maps watchpoints a) ?_
        fun _ => ih
      exact Triple.modify fun s hs =>
        ⟨hs.formed, hs.selected, hs.stopped, hs.maps, hs.watchpoints, hs.aftermath⟩

/-- The pending breakpoints that do not resolve in these modules. -/
def unresolved (modules : ModuleManager) (pending : List Breakpoint) : List Breakpoint :=
  pending.filter fun breakpoint => (resolveSpecification modules breakpoint.specification).isEmpty

theorem resolvePendingFrom_attending (hcalm : env.Calm) (rest : List Breakpoint) :
    ∀ (kept : List Breakpoint) (a : Aftermath D), a.pendingBreakpoints = kept ++ rest →
      Triple (Attending arch tid message maps watchpoints a) (resolvePendingFrom arch env kept rest)
        (fun _ => Attending arch tid message maps watchpoints
          { a with pendingBreakpoints := kept ++ unresolved a.modules rest })
        (fun _ _ => False) := by
  induction rest with
  | nil =>
      intro kept a ha
      refine Triple.pure fun s hs => ?_
      have hsame : { a with pendingBreakpoints := kept ++ unresolved a.modules [] } = a := by
        rw [unresolved, List.filter_nil, ← ha]
      rw [hsame]
      exact hs
  | cons breakpoint rest ih =>
      intro kept a ha
      refine Triple.get_bind fun s => ?_
      rintro t ⟨rfl, hs⟩
      have hmodules : t.debugger.modules = a.modules := congrArg Aftermath.modules hs.aftermath
      rw [hmodules]
      cases hresolved : resolveSpecification a.modules breakpoint.specification with
      | nil =>
          have hkeep : kept ++ [breakpoint] ++ unresolved a.modules rest
              = kept ++ unresolved a.modules (breakpoint :: rest) := by
            rw [unresolved, unresolved, List.filter_cons_of_pos (by simp [hresolved]),
              List.append_assoc, List.singleton_append]
          have hrest := ih (kept ++ [breakpoint]) a (by rw [ha]; simp)
          rw [hkeep] at hrest
          exact hrest t hs
      | cons address addresses =>
          have hdrop : unresolved a.modules (breakpoint :: rest) = unresolved a.modules rest := by
            rw [unresolved, unresolved, List.filter_cons_of_neg (by simp [hresolved])]
          rw [hdrop]
          refine Triple.bind (announceResolved_attending hcalm _ (address :: addresses))
            (fun _ => ?_) t hs
          refine Triple.bind (Q := fun _ => Attending arch tid message maps watchpoints
            { a with pendingBreakpoints := kept ++ rest }) (Triple.modify fun u hu => ?_)
            fun _ => ih kept { a with pendingBreakpoints := kept ++ rest } rfl
          refine ⟨hu.formed, hu.selected, hu.stopped, hu.maps, hu.watchpoints, ?_⟩
          rw [← hu.aftermath]
          rfl

theorem resolvePending_attending (hcalm : env.Calm) :
    Triple (Attending arch tid message maps watchpoints a) (resolvePendingBreakpoints arch env)
      (fun _ => Attending arch tid message maps watchpoints
        { a with pendingBreakpoints := unresolved a.modules a.pendingBreakpoints })
      (fun _ _ => False) := by
  refine Triple.get_bind fun s => ?_
  rintro t ⟨rfl, hs⟩
  have hpending : t.debugger.pendingBreakpoints = a.pendingBreakpoints :=
    congrArg Aftermath.pendingBreakpoints hs.aftermath
  rw [hpending]
  exact resolvePendingFrom_attending hcalm _ [] a rfl t hs

/-- What refreshing the modules and resolving the pending breakpoints leaves behind. -/
def Aftermath.refreshed (a : Aftermath D) (maps : Option ModuleManager) : Aftermath D :=
  match maps with
  | none => a
  | some modules =>
      { a with
        modules := modules
        pendingBreakpoints := unresolved modules a.pendingBreakpoints }

theorem refreshTarget_attending (hcalm : env.Calm) :
    Triple (Attending arch tid message maps watchpoints a) (refreshTarget arch env)
      (fun _ => Attending arch tid message maps watchpoints (a.refreshed maps))
      (fun _ s => maps = none ∧ Attending arch tid message maps watchpoints a s) := by
  have hrefresh : Triple (Attending arch tid message maps watchpoints a) (refreshModules env)
      (fun _ s => ∃ modules, maps = some modules ∧
        Attending arch tid message maps watchpoints { a with modules := modules } s)
      (fun _ s => maps = none ∧ Attending arch tid message maps watchpoints a s) := by
    refine Triple.bind (Q := fun _ => Attending arch tid message maps watchpoints a)
      (Triple.modify fun s hs => hs.enter hcalm) fun _ => Triple.get_bind fun s => ?_
    rintro t ⟨rfl, ht⟩
    cases hmaps : t.target.maps with
    | none => exact ⟨ht.maps.symm.trans hmaps, ht⟩
    | some modules =>
        refine ⟨modules, ht.maps.symm.trans hmaps, ht.formed, ht.selected, ht.stopped, ht.maps,
          ht.watchpoints, ?_⟩
        rw [← ht.aftermath]
        rfl
  refine Triple.bind hrefresh fun _ => ?_
  rintro s ⟨modules, rfl, hs⟩
  exact (resolvePending_attending hcalm).conseq (fun _ hs => hs) (fun _ _ hs => hs)
    (fun _ _ hfalse => hfalse.elim) s hs

/-! ### The thread -/

theorem Attending.ptrace (hcalm : env.Calm)
    (hs : Attending arch tid message maps watchpoints a s) (operation : String)
    (request : Task R D → Target R D → α × Target R D) :
    ∃ task, s.target.tasks.find? tid = some task ∧ task.stopped = true ∧ task.eventMsg = message ∧
      Cosy.ptrace env operation tid request s = .ok (request task (env.enter s).target).1
        { env.enter s with target := (request task (env.enter s).target).2 } := by
  obtain ⟨task, htask, hstopped, hmessage⟩ := hs.stopped
  exact ⟨task, htask, hstopped, hmessage, hcalm.reliable.ptrace htask hstopped⟩

/-- What the thread table is after a clone event with this message. -/
def withClone (threads : SortedMap Tid ThreadState) (message : Address) :
    SortedMap Tid ThreadState :=
  threads.emplace (toPid message) ⟨toPid message, false, 0⟩

theorem recordClone_attending (hcalm : env.Calm) :
    Triple (Attending arch tid message maps watchpoints a) (recordClone env tid)
      (fun _ => Attending arch tid message maps watchpoints
        { a with threads := withClone a.threads message })
      (fun _ _ => False) := by
  intro s hs
  obtain ⟨task, htask, hstopped, rfl, hrun⟩ := hs.ptrace hcalm "PTRACE_GETEVENTMSG"
    fun task target => (task.eventMsg, target)
  rw [recordClone, bind_ok hrun]
  have henter := hs.enter hcalm
  refine ⟨henter.formed, henter.selected, henter.stopped, henter.maps, henter.watchpoints, ?_⟩
  rw [← henter.aftermath]
  rfl

theorem setTask_attending (hcalm : env.Calm) (operation : String) (change : Task R D → Task R D)
    {options options' : Bool} {debug debug' : D} (ha : a.configured = some (options, debug))
    (hchange : ∀ task, task.options = options → task.debug = debug →
      (change task).options = options' ∧ (change task).debug = debug' ∧
        (change task).stopped = task.stopped ∧ (change task).eventMsg = task.eventMsg) :
    Triple (Attending arch tid message maps watchpoints a)
      (ptrace env operation tid fun task target => (PUnit.unit, target.setTask tid (change task)))
      (fun _ => Attending arch tid message maps watchpoints
        { a with configured := some (options', debug') })
      (fun _ _ => False) := by
  intro s hs
  obtain ⟨task, htask, hstopped, hmessage, hrun⟩ := hs.ptrace hcalm operation
    fun task target => (PUnit.unit, target.setTask tid (change task))
  have hconfigured : some (task.options, task.debug) = some (options, debug) := by
    rw [← ha, ← hs.aftermath, State.aftermath, htask]
    rfl
  obtain ⟨hoptions, hdebug⟩ := Prod.mk.inj (Option.some.inj hconfigured)
  obtain ⟨hoptions', hdebug', hstopped', hmessage'⟩ := hchange task hoptions hdebug
  have henter := hs.enter hcalm
  rw [hrun]
  refine ⟨henter.formed, henter.selected, ?_, henter.maps, henter.watchpoints, ?_⟩
  · exact ⟨_, SortedMap.find?_insert_self _ _ _, hstopped'.trans hstopped,
      hmessage'.trans hmessage⟩
  · rw [← henter.aftermath]
    simp only [State.aftermath, Target.setTask, SortedMap.find?_insert_self, Option.map_some,
      hoptions', hdebug']

/-- The debug registers after the writes of a plan. -/
def applyWrites (writes : List (String × (D → D))) (debug : D) : D :=
  writes.foldl (fun debug write => write.2 debug) debug

/-- The debug registers after `configure_thread_watchpoints`, which ends at the first watchpoint
that the architecture refuses. -/
def watchedDebug (arch : Architecture R D) : List Watchpoint → D → D
  | [], debug => debug
  | watchpoint :: rest, debug =>
      match arch.configureWatchpoint watchpoint.slot watchpoint.address watchpoint.access
          watchpoint.bytes with
      | .error _ => debug
      | .ok plan => watchedDebug arch rest (applyWrites (plan.writes debug) debug)

theorem writes_attending (hcalm : env.Calm) (options : Bool) (writes : List (String × (D → D))) :
    ∀ (debug : D) (a : Aftermath D), a.configured = some (options, debug) →
      Triple (Attending arch tid message maps watchpoints a)
        (writes.forM fun write => ptrace env write.1 tid fun task target =>
          (PUnit.unit, target.setTask tid { task with debug := write.2 task.debug }))
        (fun _ => Attending arch tid message maps watchpoints
          { a with configured := some (options, applyWrites writes debug) })
        (fun _ _ => False) := by
  induction writes with
  | nil =>
      intro debug a ha
      refine Triple.pure fun s hs => ?_
      rw [applyWrites, List.foldl_nil, ← ha]
      exact hs
  | cons write rest ih =>
      intro debug a ha
      refine Triple.bind (setTask_attending hcalm write.1
        (fun task => { task with debug := write.2 task.debug }) ha fun task hoptions hdebug =>
          ⟨hoptions, congrArg write.2 hdebug, rfl, rfl⟩) fun _ => ?_
      exact ih (write.2 debug) { a with configured := some (options, write.2 debug) } rfl

theorem configureWatchpoint_attending (hcalm : env.Calm) {options : Bool} {debug : D}
    (ha : a.configured = some (options, debug)) {slot : Nat} {address : Address}
    {watchAccess : WatchAccess} {bytes : Nat} {plan : WatchPlan D}
    (hplan : arch.configureWatchpoint slot address watchAccess bytes = .ok plan) :
    Triple (Attending arch tid message maps watchpoints a)
      (configureWatchpoint arch env tid slot address watchAccess bytes)
      (fun _ => Attending arch tid message maps watchpoints
        { a with configured := some (options, applyWrites (plan.writes debug) debug) })
      (fun _ _ => False) := by
  intro s hs
  obtain ⟨task, htask, -, -, hrun⟩ := hs.ptrace hcalm plan.readOperation
    fun task target => (task.debug, target)
  have hconfigured : some (task.options, task.debug) = some (options, debug) := by
    rw [← ha, ← hs.aftermath, State.aftermath, htask]
    rfl
  obtain ⟨-, rfl⟩ := Prod.mk.inj (Option.some.inj hconfigured)
  rw [configureWatchpoint, hplan]
  dsimp only
  rw [bind_ok hrun]
  exact writes_attending hcalm options (plan.writes task.debug) task.debug a ha _ (hs.enter hcalm)

/-- The watchpoints of a list one after another, up to one the architecture refuses. -/
theorem configureAll_attending (hcalm : env.Calm) (options : Bool) (records : List Watchpoint) :
    ∀ (debug : D) (a : Aftermath D), a.configured = some (options, debug) →
      Triple (Attending arch tid message maps watchpoints a)
        (records.forM fun watchpoint => configureWatchpoint arch env tid watchpoint.slot
          watchpoint.address watchpoint.access watchpoint.bytes)
        (fun _ => Attending arch tid message maps watchpoints
          { a with configured := some (options, watchedDebug arch records debug) })
        (fun e s => e.exception? ≠ none ∧ Attending arch tid message maps watchpoints
          { a with configured := some (options, watchedDebug arch records debug) } s) := by
  induction records with
  | nil =>
      intro debug a ha
      refine Triple.pure fun s hs => ?_
      rw [watchedDebug, ← ha]
      exact hs
  | cons watchpoint rest ih =>
      intro debug a ha
      cases hplan : arch.configureWatchpoint watchpoint.slot watchpoint.address watchpoint.access
          watchpoint.bytes with
      | error text =>
          intro s hs
          have hthrow : configureWatchpoint arch env tid watchpoint.slot watchpoint.address
              watchpoint.access watchpoint.bytes s = .error (.thrown (.runtime text)) s := by
            rw [configureWatchpoint, hplan]
            rfl
          have hstop : (watchpoint :: rest).forM (fun watchpoint => configureWatchpoint arch env tid
              watchpoint.slot watchpoint.address watchpoint.access watchpoint.bytes) s
                = .error (.thrown (.runtime text)) s := bind_error hthrow
          rw [hstop, watchedDebug, hplan, ← ha]
          exact ⟨by simp [Halt.exception?], hs⟩
      | ok plan =>
          rw [watchedDebug, hplan]
          refine Triple.bind ((configureWatchpoint_attending hcalm ha hplan).conseq
            (fun _ hs => hs) (fun _ _ hs => hs) fun _ _ hfalse => hfalse.elim) fun _ => ?_
          exact ih _ { a with configured := some (options, applyWrites (plan.writes debug) debug) } rfl

theorem prepareThread_attending (hcalm : env.Calm) {options : Bool} {debug : D}
    (ha : a.configured = some (options, debug)) :
    Triple (Attending arch tid message maps watchpoints a) (prepareThread arch env tid)
      (fun _ => Attending arch tid message maps watchpoints
        { a with configured := some (true, watchedDebug arch watchpoints debug) })
      (fun _ _ => False) := by
  have hoptions : Triple (Attending arch tid message maps watchpoints a) (setOptions env tid)
      (fun _ => Attending arch tid message maps watchpoints
        { a with configured := some (true, debug) }) (fun _ _ => False) :=
    setTask_attending hcalm _ (fun task => { task with options := true }) ha
      fun task _ hdebug => ⟨rfl, hdebug, rfl, rfl⟩
  refine Triple.rescue (F := fun e s => e.exception? ≠ none ∧
    Attending arch tid message maps watchpoints
      { a with configured := some (true, watchedDebug arch watchpoints debug) } s) ?_ ?_ ?_
  · refine Triple.bind (hoptions.conseq (fun _ hs => hs) (fun _ _ hs => hs)
      fun _ _ hfalse => hfalse.elim) fun _ => Triple.get_bind fun s => ?_
    rintro t ⟨rfl, ht⟩
    rw [ht.watchpoints]
    exact configureAll_attending hcalm true watchpoints debug
      { a with configured := some (true, debug) } rfl t ht
  · exact fun _ _ _ => Triple.pure fun _ hs => hs.2
  · exact fun _ _ hnone hs => hs.1 hnone

/-! ### A whole stop -/

@[simp]
theorem unresolved_unresolved (modules : ModuleManager) (pending : List Breakpoint) :
    unresolved modules (unresolved modules pending) = unresolved modules pending := by
  simp [unresolved, List.filter_filter]

@[simp]
theorem refreshed_refreshed (a : Aftermath D) (maps : Option ModuleManager) :
    (a.refreshed maps).refreshed maps = a.refreshed maps := by
  cases maps <;> simp [Aftermath.refreshed]

/-- What `wait_and_report` leaves behind after a stop, from what there was before it. -/
def Aftermath.afterStop (arch : Architecture R D) (a : Aftermath D) (tid : Tid) (signal event : Nat)
    (message : Address) (maps : Option ModuleManager) (watchpoints : List Watchpoint) :
    Aftermath D :=
  let threads := a.threads.insert tid ⟨tid, true, signal⟩
  let stopped : Aftermath D :=
    { a with
      threads := if event = ptraceEventClone then withClone threads message else threads
      configured :=
        if signal = sigstop then
          a.configured.map fun configured => (true, watchedDebug arch watchpoints configured.2)
        else a.configured }
  stopped.refreshed maps

theorem handleStop_attending (hcalm : env.Calm) {options : Bool} {debug : D}
    (ha : a.configured = some (options, debug)) {signal event : Nat}
    (hevent : event ≠ 0 → signal = sigtrap) :
    Triple (Attending arch tid message maps watchpoints a) (handleStop arch env tid signal event)
      (fun _ => Attending arch tid message maps watchpoints
        (a.afterStop arch tid signal event message maps watchpoints))
      (fun _ => Attending arch tid message maps watchpoints
        (a.afterStop arch tid signal event message maps watchpoints)) := by
  let threads := a.threads.insert tid ⟨tid, true, signal⟩
  let cloned : Aftermath D :=
    { a with threads := if event = ptraceEventClone then withClone threads message else threads }
  -- An exec is reported with `SIGTRAP`, so that the thread is not prepared as well.
  have hexec : event = ptraceEventExec → signal ≠ sigstop := by
    rintro rfl
    rw [hevent (by decide)]
    decide
  refine Triple.bind (Q := fun _ => Attending arch tid message maps watchpoints
    { a with threads := threads }) (Triple.modify fun s hs => ?_) fun _ => ?_
  · obtain ⟨hformed, hselected, hstopped, hmaps, hwatchpoints, rfl⟩ := hs
    exact ⟨hformed, hselected, hstopped, hmaps, hwatchpoints, rfl⟩
  refine Triple.bind (Q := fun _ => Attending arch tid message maps watchpoints cloned)
    (Triple.doIf (fun hclone => ?_) fun hclone s hs => ?_) fun _ => ?_
  · exact (recordClone_attending hcalm).conseq (fun _ hs => hs)
      (fun _ _ hs => by simpa [cloned, hclone] using hs) fun _ _ hfalse => hfalse.elim
  · simpa [cloned, hclone] using hs
  have hrefresh : ∀ b : Aftermath D, b.refreshed maps
      = a.afterStop arch tid signal event message maps watchpoints →
      Triple (Attending arch tid message maps watchpoints b) (refreshTarget arch env)
        (fun _ => Attending arch tid message maps watchpoints
          (a.afterStop arch tid signal event message maps watchpoints))
        (fun _ => Attending arch tid message maps watchpoints
          (a.afterStop arch tid signal event message maps watchpoints)) := by
    intro b hb
    refine (refreshTarget_attending hcalm).conseq (fun _ hs => hs) (fun _ _ hs => hb ▸ hs) ?_
    rintro _ s ⟨hmaps, hs⟩
    have hsame : b.refreshed maps = b := by
      rw [hmaps]
      rfl
    rw [← hb, hsame]
    exact hs
  by_cases hkind : event = ptraceEventExec
  · have hafter : cloned.refreshed maps
        = a.afterStop arch tid signal event message maps watchpoints := by
      simp [Aftermath.afterStop, hexec hkind, cloned, threads]
    refine Triple.bind (Q := fun _ => Attending arch tid message maps watchpoints
      (cloned.refreshed maps)) (Triple.doIf (fun _ => hafter.symm ▸ hrefresh cloned hafter)
        fun hnot => absurd hkind hnot) fun _ => ?_
    refine Triple.bind (Q := fun _ => Attending arch tid message maps watchpoints
      (cloned.refreshed maps)) (Triple.doIf (fun hstop => absurd hstop (hexec hkind))
        fun _ _ hs => hs) fun _ => ?_
    exact hrefresh _ (by rw [refreshed_refreshed, hafter])
  · refine Triple.bind (Q := fun _ => Attending arch tid message maps watchpoints cloned)
      (Triple.doIf (fun hexec => absurd hexec hkind) fun _ _ hs => hs) fun _ => ?_
    by_cases hsignal : signal = sigstop
    · refine Triple.bind (Q := fun _ => Attending arch tid message maps watchpoints
        { cloned with configured := some (true, watchedDebug arch watchpoints debug) })
        (Triple.doIf (fun _ => ?_) fun hnot => absurd hsignal hnot) fun _ => ?_
      · exact (prepareThread_attending hcalm (a := cloned) ha).conseq (fun _ hs => hs)
          (fun _ _ hs => hs) fun _ _ hfalse => hfalse.elim
      · exact hrefresh _ (by simp [Aftermath.afterStop, hsignal, cloned, threads, ha])
    · refine Triple.bind (Q := fun _ => Attending arch tid message maps watchpoints cloned)
        (Triple.doIf (fun hstop => absurd hstop hsignal) fun _ _ hs => hs) fun _ => ?_
      exact hrefresh _ (by simp [Aftermath.afterStop, hsignal, cloned, threads])

end Attending

theorem handleEvent_stopped_aftermath (hcalm : env.Calm) {u : State R D} {tid : Tid}
    {task : Task R D} {signal event : Nat} (hformed : WellFormed arch u.debugger.breakpoints)
    (htask : u.target.tasks.find? tid = some task) (hstopped : task.stopped = true)
    (hevent : event ≠ 0 → signal = sigtrap) (report : Bool) :
    (endState (handleEvent arch env tid (.stopped signal event) report) u).aftermath tid
      = (u.aftermath tid).afterStop arch tid signal event task.eventMsg u.target.maps
          u.debugger.watchpoints := by
  have hconfigured : (u.aftermath tid).configured = some (task.options, task.debug) := by
    rw [State.aftermath, htask]
    rfl
  have hstart : Attending arch tid task.eventMsg u.target.maps u.debugger.watchpoints
      (u.aftermath tid) (u.select tid) :=
    ⟨hformed, rfl, ⟨task, htask, hstopped, rfl⟩, rfl, rfl, rfl⟩
  have hhandled : Triple (Attending arch tid task.eventMsg u.target.maps u.debugger.watchpoints
      (u.aftermath tid))
      (do
        handleStop arch env tid signal event
        doIf report (reportStop arch env tid))
      (fun _ => Attending arch tid task.eventMsg u.target.maps u.debugger.watchpoints
        ((u.aftermath tid).afterStop arch tid signal event task.eventMsg u.target.maps
          u.debugger.watchpoints))
      (fun _ => Attending arch tid task.eventMsg u.target.maps u.debugger.watchpoints
        ((u.aftermath tid).afterStop arch tid signal event task.eventMsg u.target.maps
          u.debugger.watchpoints)) := by
    refine Triple.bind (handleStop_attending hcalm hconfigured hevent) fun _ => ?_
    refine triple_of_within (Within.doIf fun _ => Attending.of_does hcalm ?_)
    exact (does_reportStop (Environment.leavesText_empty env) tid).mono (by decide)
  exact (hhandled.endState hstart).aftermath

/-! ### Where they agree -/

/-- The two consumers leave the same behind after this event. -/
def ConsumersAgree (arch : Architecture R D) (env : Environment R D) (u : State R D)
    (address : Address) (tid : Tid) (status : WaitStatus) (report : Bool) : Prop :=
  (endState (handleStepEvent arch env address tid status) u).aftermath tid
    = (endState (handleEvent arch env tid status report) u).aftermath tid

/-- The event is a stop that asks for nothing beyond the entry of its thread: a new thread is known
already, a thread with its first stop is configured already, and the modules, refreshed, are those
known and let no pending breakpoint resolve. -/
def AsksNothing (arch : Architecture R D) (u : State R D) (tid : Tid) (task : Task R D)
    (signal event : Nat) : Prop :=
  (event = ptraceEventClone → toPid task.eventMsg ≠ tid →
      u.debugger.threads.contains (toPid task.eventMsg) = true) ∧
    (signal = sigstop → task.options = true ∧
      watchedDebug arch u.debugger.watchpoints task.debug = task.debug) ∧
    ∀ modules, u.target.maps = some modules → modules = u.debugger.modules ∧
      ∀ pending ∈ u.debugger.pendingBreakpoints,
        resolveSpecification modules pending.specification = []

theorem afterStop_eq_iff {u : State R D} {tid : Tid} {task : Task R D} {signal event : Nat}
    (htask : u.target.tasks.find? tid = some task) :
    { u.aftermath tid with threads := u.debugger.threads.insert tid ⟨tid, true, signal⟩ }
        = (u.aftermath tid).afterStop arch tid signal event task.eventMsg u.target.maps
          u.debugger.watchpoints ↔
      AsksNothing arch u tid task signal event := by
  have hconfigured : (u.aftermath tid).configured = some (task.options, task.debug) := by
    rw [State.aftermath, htask]
    rfl
  have hthreads : u.debugger.threads.insert tid ⟨tid, true, signal⟩
        = (if event = ptraceEventClone then
            withClone (u.debugger.threads.insert tid ⟨tid, true, signal⟩) task.eventMsg
          else u.debugger.threads.insert tid ⟨tid, true, signal⟩) ↔
      (event = ptraceEventClone → toPid task.eventMsg ≠ tid →
        u.debugger.threads.contains (toPid task.eventMsg) = true) := by
    by_cases hclone : event = ptraceEventClone
    · rw [if_pos hclone, eq_comm, withClone, SortedMap.emplace_eq_self_iff,
        SortedMap.contains_insert]
      by_cases heq : toPid task.eventMsg = tid <;> simp [hclone, heq]
    · simp [hclone]
  have hoptions : some (task.options, task.debug)
        = (if signal = sigstop then
            some (true, watchedDebug arch u.debugger.watchpoints task.debug)
          else some (task.options, task.debug)) ↔
      (signal = sigstop → task.options = true ∧
        watchedDebug arch u.debugger.watchpoints task.debug = task.debug) := by
    by_cases hstop : signal = sigstop
    · rw [if_pos hstop, Option.some_inj, Prod.mk.injEq, eq_comm (a := task.debug)]
      exact ⟨fun h _ => h, fun h => h hstop⟩
    · rw [if_neg hstop]
      exact ⟨fun _ h => absurd h hstop, fun _ => rfl⟩
  have hpending : ∀ modules, u.debugger.pendingBreakpoints
        = unresolved modules u.debugger.pendingBreakpoints ↔
      ∀ pending ∈ u.debugger.pendingBreakpoints,
        resolveSpecification modules pending.specification = [] := by
    intro modules
    rw [eq_comm, unresolved, List.filter_eq_self]
    simp
  rw [AsksNothing, ← hthreads, ← hoptions]
  unfold Aftermath.afterStop Aftermath.refreshed
  rw [hconfigured]
  cases hmaps : u.target.maps with
  | none => simp [State.aftermath, htask]
  | some modules =>
      simp only [State.aftermath, htask, Option.map_some, Aftermath.mk.injEq, true_and,
        Option.some.injEq, forall_eq', hpending]
      rw [eq_comm (a := u.debugger.modules)]

/-- What an event must be for it not to matter which of the two consumes it. -/
def Immaterial (arch : Architecture R D) (u : State R D) (tid : Tid) : WaitStatus → Prop
  | .exited _ | .signaled _ => False
  | .continued => u.debugger.threads.find? tid = some ⟨tid, false, 0⟩
  | .stopped signal event =>
      ∀ task, u.target.tasks.find? tid = some task → AsksNothing arch u tid task signal event

/-- One consumer enters a thread that has ended, the other removes it. -/
theorem not_consumersAgree_of_end (hcalm : env.Calm) {u : State R D} {address : Address} {tid : Tid}
    {status : WaitStatus} {report : Bool} (hformed : WellFormed arch u.debugger.breakpoints)
    (hend : (∃ code, status = .exited code) ∨ ∃ signal, status = .signaled signal) :
    ¬ ConsumersAgree arch env u address tid status report := by
  intro hagree
  rw [ConsumersAgree, handleStepEvent_aftermath hcalm address tid status hformed] at hagree
  have hthreads := congrArg (fun a : Aftermath D => a.threads.find? tid) hagree
  have herase : (endState (handleEvent arch env tid status report) u).debugger.threads
      = u.debugger.threads.erase tid := by
    rcases hend with ⟨code, rfl⟩ | ⟨signal, rfl⟩ <;> cases report <;> rfl
  simp only [State.aftermath, herase, SortedMap.find?_insert_self, SortedMap.find?_erase,
    if_true] at hthreads
  cases hthreads

theorem handleEvent_continued (u : State R D) (tid : Tid) (report : Bool) :
    (endState (handleEvent arch env tid .continued report) u).aftermath tid = u.aftermath tid := rfl

theorem consumers_agree_iff (hcalm : env.Calm) {u : State R D} {address : Address} {tid : Tid}
    {status : WaitStatus} {report : Bool} (hformed : WellFormed arch u.debugger.breakpoints)
    (hstopped : status.isStopped = true → u.StoppedThread tid)
    (hevent : ∀ signal event, status = .stopped signal event → event ≠ 0 → signal = sigtrap) :
    ConsumersAgree arch env u address tid status report ↔ Immaterial arch u tid status := by
  cases status with
  | exited code =>
      exact iff_of_false (not_consumersAgree_of_end hcalm hformed (.inl ⟨code, rfl⟩)) id
  | signaled signal =>
      exact iff_of_false (not_consumersAgree_of_end hcalm hformed (.inr ⟨signal, rfl⟩)) id
  | continued =>
      rw [ConsumersAgree, handleStepEvent_aftermath hcalm address tid _ hformed,
        handleEvent_continued]
      constructor
      · intro hagree
        have hthreads := congrArg (fun a : Aftermath D => a.threads.find? tid) hagree
        exact hthreads.symm.trans (SortedMap.find?_insert_self _ _ _)
      · intro hfind
        have hsame : u.debugger.threads.insert tid
            ⟨tid, WaitStatus.continued.isStopped, WaitStatus.continued.stopSignal⟩
              = u.debugger.threads := SortedMap.insert_find?_self hfind
        rw [hsame]
        rfl
  | stopped signal event =>
      obtain ⟨task, htask, hstop⟩ := hstopped rfl
      rw [ConsumersAgree, handleStepEvent_aftermath hcalm address tid _ hformed,
        handleEvent_stopped_aftermath hcalm hformed htask hstop (hevent signal event rfl) report,
        WaitStatus.isStopped, WaitStatus.stopSignal, afterStop_eq_iff htask, Immaterial, htask]
      simp

/-! ### A thread that ends during a step-over -/

theorem nopMachine_calm : (nopMachine fun _ => []).Calm where
  still _ _ := rfl
  answers _ := rfl

/-- A plain stop by a signal, with the modules as they were. -/
theorem consumers_agree_nops :
    let u : State UserRegs X86_64.DebugRegisters := State.initial 1 (nopTarget 1)
    ConsumersAgree x86_64 (nopMachine fun _ => []) u 0x1000 1 (.stopped sigtrap 0) true := by
  intro u
  refine (consumers_agree_iff nopMachine_calm wellFormed_empty
    (fun _ => ⟨stoppedTask 0x1000, rfl, rfl⟩) (by simp)).mpr ?_
  rintro task ⟨⟩
  refine ⟨fun hclone => absurd hclone (by decide), fun hstop => absurd hstop (by decide), ?_⟩
  rintro modules ⟨⟩
  exact ⟨rfl, fun pending hmem => by cases hmem⟩

/-- The only thread is killed before it executes the instruction it is stepped over. -/
def killMachine : Environment UserRegs X86_64.DebugRegisters :=
  nopMachine fun now => if now = 13 then [.kill 1 9] else []

def Entry.isStepKill : Entry → Bool
  | .consumed .stepOver _ (.signaled _) _ => true
  | _ => false

/-- The end of the leader is consumed by a step-over: the thread is still in the table, and the
target passes for alive. -/
theorem kill_missed_by_step_over :
    (∃ s, Prompt x86_64 killMachine (State.initial 1 (nopTarget 1)) s ∧
      s.log.any Entry.isStepKill = true ∧ s.target.tasks.contains 1 = false ∧
      s.debugger.alive = true ∧ s.debugger.threads.find? 1 = some ⟨1, false, 0⟩) ∧
    ¬ ConsumersAgree x86_64 (nopMachine fun _ => []) (State.initial 1 (nopTarget 1)) 0x1000 1
      (.signaled 9) true := by
  refine ⟨?_, not_consumersAgree_of_end nopMachine_calm wellFormed_empty (.inr ⟨9, rfl⟩)⟩
  obtain ⟨s, hs, hcheck⟩ := Prompt.exists_of_runBatch x86_64 killMachine
    (State.initial 1 (nopTarget 1)) ["b *0x1000".toList, "c".toList]
    (p := fun s => s.log.any Entry.isStepKill && !s.target.tasks.contains 1 &&
      s.debugger.alive && decide (s.debugger.threads.find? 1 = some ⟨1, false, 0⟩))
    (by decide +kernel)
  simp only [Bool.and_eq_true, decide_eq_true_eq, Bool.not_eq_true'] at hcheck
  exact ⟨s, hs, hcheck.1.1.1, hcheck.1.1.2, hcheck.1.2, hcheck.2⟩

end Cosy
