import Cosy.Notified

/-!
# Which watchpoints a stopped thread knows

Whatever the debugger does, a thread that is not behind watches for every record. A session that
never records a stop of a thread that is behind, unless it briefs the thread, thus has every record
armed in every thread that is recorded as stopped. One that does has not: the thread passes for
armed, and the program's writes go unnoticed.
-/

namespace Cosy

open Effect Notices

variable {R D α : Type} {arch : Architecture R D} {env : Environment R D} {s t : State R D}
  {tid child : Tid} {late : Set Tid} {view : DebugView arch}

/-! ### Requests to one thread -/

/-- Requests change nothing in the debugger, and bring nobody up to date. -/
structure Requests (child key : Tid) (s t : State R D) : Prop where
  debugger : t.debugger = s.debugger
  behind : behind key (t.notices child) = false → behind key (s.notices child) = false

instance (child key : Tid) : IsPreorder (State R D) (Requests child key) where
  refl _ := ⟨rfl, id⟩
  trans _ _ _ hst htu := ⟨htu.debugger.trans hst.debugger, fun hu => hst.behind (htu.behind hu)⟩

theorem requests_ptrace (child key : Tid) (operation : String) (tid : Tid)
    (request : Task R D → Target R D → α × Target R D) :
    Within (Requests child key) (ptrace env operation tid request) := by
  intro s
  rcases ptrace_cases env operation tid request s with ⟨task, -, -, -, hrun⟩ | ⟨-, hrun⟩
  · rw [WithinAt, endState_of_ok hrun]
    exact ⟨rfl, fun hbehind => behind_of_enter env hbehind⟩
  · rw [WithinAt, endState_of_error hrun]
    exact ⟨rfl, fun hbehind => behind_of_enter env hbehind⟩

theorem requests_configureWatchpoint (child key tid : Tid) (slot : Nat) (address : Address)
    (watchAccess : WatchAccess) (bytes : Nat) :
    Within (Requests child key)
      (configureWatchpoint arch env tid slot address watchAccess bytes) := by
  unfold configureWatchpoint
  cases arch.configureWatchpoint slot address watchAccess bytes with
  | error text => exact .throw _
  | ok plan =>
      exact (requests_ptrace child key _ tid _).bind fun _ =>
        .forM _ fun _ _ => requests_ptrace child key _ tid _

theorem covered_setTask (hkeeps : env.KeepsDebug) {operation : String}
    {change : Task R D → Task R D}
    (hchange : tid ∈ late ∨ ∀ task, (change task).debug = task.debug) :
    Within (Keeps (Covered view child late)) (ptrace env operation tid fun task target =>
      (PUnit.unit, target.setTask tid (change task))) := by
  intro s hs
  have henter := hs.enter hkeeps
  rcases ptrace_cases env operation tid
      (fun task target => (PUnit.unit, target.setTask tid (change task))) s with
    ⟨task, htask, -, -, hrun⟩ | ⟨-, hrun⟩
  · rw [endState_of_ok hrun]
    exact henter.of_same henter.formed rfl (fun _ => Iff.rfl) rfl
      (.setTask htask (hchange.imp_right fun hsame => hsame task))
  · rw [endState_of_error hrun]
    exact henter

theorem covered_writes (hkeeps : env.KeepsDebug) (htid : tid ∈ late)
    (writes : List (String × (D → D))) :
    Within (Keeps (Covered view child late)) (writes.forM fun write =>
      ptrace env write.1 tid fun task target =>
        (PUnit.unit, target.setTask tid { task with debug := write.2 task.debug })) :=
  Within.forM writes fun _ _ => covered_setTask hkeeps (Or.inl htid)

/-! ### Programming a thread -/

section Programming

variable (hreliable : env.Reliable) (hkeeps : env.KeepsDebug)

include hreliable hkeeps

/-- A slot is programmed the way every record that has it says. -/
theorem covered_configureWatchpoint {slot : Nat} {address : Address} {watchAccess : WatchAccess}
    {bytes : Nat} (hagree : ∀ watchpoint ∈ s.debugger.watchpoints, watchpoint.slot = slot →
      view.requested watchpoint.address watchpoint.access watchpoint.bytes
        = view.requested address watchAccess bytes) :
    WithinAt (Keeps (Covered view child late))
      (configureWatchpoint arch env tid slot address watchAccess bytes) s := by
  intro hs
  cases hplan : arch.configureWatchpoint slot address watchAccess bytes with
  | error text =>
      rw [configureWatchpoint, hplan]
      exact hs
  | ok plan =>
      have hu := hs.enter hkeeps
      rw [configureWatchpoint, hplan]
      dsimp only
      rcases ptrace_cases env plan.readOperation tid (fun task target => (task.debug, target)) s with
        ⟨task, htask, hstopped, -, hread⟩ | ⟨-, hread⟩
      · rw [endState_bind_ok hread]
        obtain ⟨t, hwrite, ht⟩ := hreliable.writeDebug (s := env.enter s) (plan.writes task.debug)
          htask hstopped
        have hlate : Covered view child (insert tid late) t :=
          (covered_writes hkeeps (Set.mem_insert tid late) (plan.writes task.debug)).of_ok hwrite
            (hu.mono (Set.subset_insert tid late))
        have hrequests : Requests child tid (env.enter s) t :=
          Within.of_ok (Within.forM _ fun _ _ => requests_ptrace child tid _ tid _) hwrite
        rw [endState_of_ok hwrite]
        refine hlate.settle fun htid haccepted hbehind watchpoint hmem => Or.inr ⟨_, ht, ?_⟩
        rw [hrequests.debugger] at haccepted hmem
        rw [DebugView.Watches, view.configured hplan]
        split
        · rename_i hslot
          exact (hagree watchpoint hmem hslot).symm
        · rcases hu.knows haccepted tid htid (hrequests.behind hbehind) watchpoint hmem with
            hending | ⟨task', htask', hwatches⟩
          · cases (hu.ends tid hending).symm.trans htask
          · obtain rfl := Option.some.inj (htask'.symm.trans htask)
            exact hwatches
      · rw [endState_bind_error hread]
        exact hu

theorem covered_configureAll (records : List Watchpoint)
    (hrecords : ∀ watchpoint ∈ records, watchpoint ∈ s.debugger.watchpoints) :
    WithinAt (Keeps (Covered view child late))
      (records.forM fun watchpoint => configureWatchpoint arch env tid watchpoint.slot
        watchpoint.address watchpoint.access watchpoint.bytes) s := by
  induction records generalizing s with
  | nil => exact id
  | cons first rest ih =>
      intro hs
      refine WithinAt.bind (covered_configureWatchpoint hreliable hkeeps ?_) (fun _ t hrun => ?_) hs
      · intro watchpoint hmem hslot
        rw [List.inj_on_of_nodup_map hs.slots hmem (hrecords first List.mem_cons_self) hslot]
      · have hdebugger := ((requests_configureWatchpoint child tid tid _ _ _ _).of_ok hrun).debugger
        refine ih fun watchpoint hmem => ?_
        rw [hdebugger]
        exact hrecords watchpoint (List.mem_cons_of_mem _ hmem)

theorem covered_prepareThread (tid : Tid) :
    Within (Keeps (Covered view child late)) (prepareThread arch env tid) := by
  refine Within.rescue ?_ fun _ => .pure _
  refine Within.bind (covered_setTask hkeeps (Or.inr fun _ => rfl)) fun _ => Within.get_bind fun s => ?_
  exact covered_configureAll hreliable hkeeps _ fun _ => id

/-- A thread that is briefed is not late any more. -/
theorem prepareThread_briefs (hs : Covered view child (insert tid late) s)
    (hstopped : s.StoppedThread tid) :
    Covered view child late (endState (prepareThread arch env tid) s) := by
  obtain ⟨task, htask, hflag⟩ := hstopped
  have hlate := covered_prepareThread hreliable hkeeps tid s hs
  have hdebugger : (endState (prepareThread arch env tid) s).debugger = s.debugger := by
    have hrequests : Within (Requests child tid) (prepareThread arch env tid) := by
      refine Within.rescue ?_ fun _ => .pure _
      refine (requests_ptrace child tid _ tid _).bind fun _ => Within.get_bind fun s => ?_
      exact Within.forM _ (fun _ _ => requests_configureWatchpoint child tid tid _ _ _ _) s
    exact (hrequests s).debugger
  refine hlate.settle fun _ haccepted _ watchpoint hmem => ?_
  rw [hdebugger] at haccepted hmem
  obtain ⟨t, task', hrun, ht, hdebug⟩ := hreliable.prepareThread haccepted htask hflag
  rw [endState_of_ok hrun]
  refine Or.inr ⟨task', ht, ?_⟩
  rw [hdebug]
  exact watches_watchedDebug view hs.slots haccepted _ watchpoint hmem

end Programming

/-! ### The watch command -/

/-- What `set_watchpoint` does about one thread of the table. -/
def armIfStopped (arch : Architecture R D) (env : Environment R D) (slot : Nat) (address : Address)
    (watchAccess : WatchAccess) (bytes : Nat) (entry : Tid × ThreadState) : Dbg R D Unit :=
  if entry.2.stopped then configureWatchpoint arch env entry.1 slot address watchAccess bytes
  else pure ⟨⟩

section Watch

variable {slot : Nat} {address : Address} {watchAccess : WatchAccess} {bytes : Nat}

theorem requests_armIfStopped (child key : Tid) (entry : Tid × ThreadState) :
    Within (Requests child key) (armIfStopped arch env slot address watchAccess bytes entry) :=
  Within.ite (fun _ => requests_configureWatchpoint child key entry.1 _ _ _ _) fun _ => .pure _

variable (hreliable : env.Reliable) (hkeeps : env.KeepsDebug)

include hreliable

/-- The stopped threads of the table are armed, if none of the requests fails. -/
theorem armed_of_armAll (view : DebugView arch) {state : ThreadState}
    (hstopped : state.stopped = true) {entries : List (Tid × ThreadState)}
    (hmem : (tid, state) ∈ entries)
    (hrun : (entries.forM (armIfStopped arch env slot address watchAccess bytes)) s = .ok ⟨⟩ t) :
    view.Armed slot address watchAccess bytes tid t := by
  induction entries generalizing s with
  | nil => cases hmem
  | cons entry rest ih =>
      obtain ⟨_, u, hfirst, hrest⟩ := of_bind_ok hrun
      rcases List.mem_cons.mp hmem with rfl | hlater
      · rw [armIfStopped, if_pos hstopped] at hfirst
        have harmed := armed_of_configured view hreliable hfirst
        have hothers : Within (Keeps (view.Armed slot address watchAccess bytes tid))
            (rest.forM (armIfStopped arch env slot address watchAccess bytes)) :=
          Within.forM rest fun entry _ => Within.ite
            (fun _ => armed_configureWatchpoint view hreliable entry.1) fun _ => .pure _
        exact hothers.of_ok hrest harmed
      · exact ih hlater hrest

include hkeeps

/-- Programming a free slot leaves what is known of the records. -/
theorem covered_armAll (hfree : slot ∉ s.debugger.watchpoints.map Watchpoint.slot)
    (entries : List (Tid × ThreadState)) :
    WithinAt (Keeps (Covered view child late))
      (entries.forM (armIfStopped arch env slot address watchAccess bytes)) s := by
  induction entries generalizing s with
  | nil => exact id
  | cons entry rest ih =>
      refine WithinAt.bind ?_ fun _ t hrun => ih ?_
      · unfold armIfStopped
        split
        · refine covered_configureWatchpoint hreliable hkeeps fun watchpoint hmem hslot => ?_
          exact absurd (List.mem_map.mpr ⟨watchpoint, hmem, hslot⟩) hfree
        · exact .pure _
      · rw [((requests_armIfStopped child child entry).of_ok hrun).debugger]
        exact hfree

/-- The new record is known to every thread that is recorded as stopped, and the others have missed
it. -/
theorem covered_addWatchpoint (address : Address) (watchAccess : WatchAccess) (bytes : Nat) :
    Within (Keeps (Covered view child ∅)) (addWatchpoint arch env address watchAccess bytes) := by
  have hprint : ∀ message, Within (Keeps (Covered view child ∅))
      (print (R := R) (D := D) message) := fun message => (covered_manages hkeeps).print message
  refine Within.get_bind fun s => ?_
  have hfree := freeSlot_notMem (s.debugger.watchpoints.map Watchpoint.slot)
  dsimp only
  generalize freeSlot (s.debugger.watchpoints.map Watchpoint.slot) = slot at hfree ⊢
  split
  · exact hprint _ s
  refine WithinAt.rescue (fun hs => ?_) fun _ t => hprint _ t
  change Covered view child ∅ (endState (s.debugger.threads.entries.forM
    (armIfStopped arch env slot address watchAccess bytes) >>= fun _ => _) s)
  have hloop : WithinAt (Keeps (Covered view child ∅)) (s.debugger.threads.entries.forM
      (armIfStopped arch env slot address watchAccess bytes)) s :=
    covered_armAll hreliable hkeeps hfree _
  have hrequests : Within (Requests child child) (s.debugger.threads.entries.forM
      (armIfStopped arch env slot address watchAccess bytes)) :=
    Within.forM _ fun _ _ => requests_armIfStopped child child _
  cases hrun : s.debugger.threads.entries.forM
      (armIfStopped arch env slot address watchAccess bytes) s with
  | error halt t =>
      rw [WithinAt, endState_of_error hrun] at hloop
      rw [endState_bind_error hrun]
      exact hloop hs
  | ok _ t =>
      rw [WithinAt, endState_of_ok hrun] at hloop
      have hdebugger := (hrequests.of_ok hrun).debugger
      rw [endState_bind_ok hrun]
      refine (hloop hs).posted (hloop hs).formed ?_ rfl rfl rfl (fun _ => rfl) rfl
        fun tid hrecorded => ?_
      · rw [hdebugger]
        exact hfree
      · rw [hdebugger, recordOf_eq_true_iff] at hrecorded
        obtain ⟨state, hmem, hstopped⟩ := hrecorded
        obtain ⟨task, htask, -, hcontent⟩ := armed_of_armAll hreliable view hstopped hmem hrun
        exact Or.inr ⟨task, htask, hcontent⟩

end Watch

/-! ### Resuming -/

theorem recordOf_modify_iff (d : Debugger) {change : ThreadState → ThreadState}
    (hchange : ∀ state, (change state).stopped = false) (tid other : Tid) :
    Debugger.recordOf { d with threads := d.threads.modify tid change } other = some true ↔
      tid ≠ other ∧ d.recordOf other = some true := by
  rw [recordOf_resumed d hchange]
  by_cases heq : tid = other
  · simp [Census.entryFrom, Census.News.key, Census.News.change, heq]
  · simp [Census.entryFrom, Census.News.key, heq]

theorem covered_resume (hkeeps : env.KeepsDebug) (tid : Tid) (request : ResumeRequest)
    {m : Dbg R D Unit} (hm : ∀ s : State R D, (endState m s).log = s.log ∧
      (endState m s).target = s.target ∧
      (endState m s).debugger.breakpoints = s.debugger.breakpoints ∧
      (endState m s).debugger.watchpoints = s.debugger.watchpoints ∧
      ∀ other, (endState m s).debugger.recordOf other = some true ↔
        tid ≠ other ∧ s.debugger.recordOf other = some true) :
    Within (Keeps (Covered view child late)) (resume env tid request 0 >>= fun _ => m) := by
  intro s hs
  have henter := hs.enter hkeeps
  rcases ptrace_cases env request.operation tid (fun task target =>
      (PUnit.unit, target.setTask tid
        { task with stopped := false, stepping := request = .singlestep })) s with
    ⟨task, htask, -, -, hrun⟩ | ⟨-, hrun⟩
  · have hresume : resume env tid request 0 s = .ok ⟨⟩ _ := bind_ok hrun
    rw [endState_bind_ok hresume]
    obtain ⟨hlog, htarget, hbreakpoints, hwatchpoints, htable⟩ := hm _
    refine henter.left ?_ hwatchpoints hlog rfl htable ?_
    · rw [hbreakpoints]
      exact henter.formed
    · rw [htarget]
      exact .setTask htask (Or.inr rfl)
  · have hresume : resume env tid request 0 s = .error _ _ := bind_error hrun
    rw [endState_bind_error hresume]
    exact henter

theorem covered_resumeThread (hkeeps : env.KeepsDebug) (tid : Tid) (request : ResumeRequest) :
    Within (Keeps (Covered view child late)) (resumeThread env tid request) := by
  refine Within.get_bind fun s => ?_
  cases s.debugger.threads.find? tid with
  | none => exact .pure _
  | some state =>
      refine Within.ite (fun _ => ?_) (fun _ => .pure _) s
      refine covered_resume hkeeps tid request fun t => ⟨rfl, rfl, rfl, rfl, fun other => ?_⟩
      exact recordOf_modify_iff t.debugger (fun _ => rfl) tid other

/-! ### Taking an event -/

/-- An event was just taken off the list, and nothing else has been done about it. -/
def Taken (I : State R D → Prop) (event : Tid × WaitStatus) (t : State R D) : Prop :=
  ∃ u rest, I u ∧ u.target.ready = event :: rest ∧
    t = u.withTarget { u.target with ready := rest }

theorem waitForEvent_takes (hkeeps : env.KeepsDebug) :
    Triple (Covered view child late) (waitForEvent env)
      (fun event => Taken (Covered view child late) event) (fun _ => Covered view child late) := by
  intro s hs
  rcases waitForEvent_cases env s with ⟨tid, status, rest, hready, hrun⟩ | ⟨-, halt, hrun⟩
  · rw [hrun]
    exact ⟨env.enter s, rest, hs.enter hkeeps, hready, rfl⟩
  · rw [hrun]
    exact hs.enter hkeeps

theorem stepThread_takes (hkeeps : env.KeepsDebug) (tid : Tid) :
    Triple (Covered view child late) (stepThread env tid)
      (fun event => Taken (Covered view child late) event) (fun _ => Covered view child late) := by
  have hstep : stepThread env tid
      = ((resume env tid .singlestep 0 >>= fun _ => recordRunning tid) >>= fun _ =>
          waitForEvent env) := by
    rw [stepThread, bind_assoc]
  rw [hstep]
  refine Triple.bind (triple_of_within (covered_resume hkeeps tid .singlestep fun t => ?_))
    fun _ => waitForEvent_takes hkeeps
  by_cases hknown : t.debugger.threads.contains tid = true
  · have hrun : endState (recordRunning tid) t = _ :=
      endState_of_ok (by rw [recordRunning, get_bind_apply, if_pos hknown]; rfl)
    rw [hrun]
    exact ⟨rfl, rfl, rfl, rfl, recordOf_modify_iff t.debugger (fun _ => rfl) tid⟩
  · have hrun : endState (recordRunning tid) t = t :=
      endState_of_error (by rw [recordRunning, get_bind_apply, if_neg hknown]; rfl)
    rw [hrun]
    refine ⟨rfl, rfl, rfl, rfl, fun other => ⟨fun hrecorded => ⟨?_, hrecorded⟩, fun h => h.2⟩⟩
    -- A thread that is not in the table is not recorded as stopped either.
    rintro rfl
    refine hknown (SortedMap.contains_eq_true_iff.mpr ?_)
    obtain ⟨state, hfind, -⟩ := Option.map_eq_some_iff.mp hrecorded
    exact ⟨state, hfind⟩

theorem stepOffTrap_takes (hkeeps : env.KeepsDebug) (address : Address) :
    Triple (Covered view child late) (stepOffTrap env address)
      (fun event => Taken (Covered view child late) event) (fun _ => Covered view child late) := by
  refine Triple.bind (triple_of_within ((covered_manages hkeeps).disable address)) fun _ => ?_
  refine Triple.get_bind fun s => ?_
  refine Triple.bind (Q := fun _ => Covered view child late)
    (Triple.modify fun t ht => ht.2.logged rfl) fun _ => ?_
  refine Triple.onThrow (stepThread_takes hkeeps _) fun halt t ht => ?_
  cases halt with
  | thrown exception => exact ht.logged rfl
  | blocked => exact ht

/-! ### Consuming an event -/

section Tables

variable {d d' : Debugger}

theorem recordOf_insert_stopped {state : ThreadState} (hstopped : state.stopped = true)
    (hthreads : d'.threads = d.threads.insert tid state) (other : Tid) :
    d'.recordOf other = some true ↔ tid = other ∨ d.recordOf other = some true := by
  rw [Debugger.recordOf, hthreads, SortedMap.find?_insert]
  by_cases heq : tid = other
  · simp [heq, hstopped]
  · rw [if_neg (Ne.symm heq)]
    exact (or_iff_right heq).symm

theorem recordOf_insert_running {state : ThreadState} (hrunning : state.stopped = false)
    (hthreads : d'.threads = d.threads.insert tid state) (other : Tid) :
    d'.recordOf other = some true ↔ tid ≠ other ∧ d.recordOf other = some true := by
  rw [Debugger.recordOf, hthreads, SortedMap.find?_insert]
  by_cases heq : tid = other
  · simp [heq, hrunning]
  · rw [if_neg (Ne.symm heq)]
    exact (and_iff_right heq).symm

theorem recordOf_erase_iff (hthreads : d'.threads = d.threads.erase tid) (other : Tid) :
    d'.recordOf other = some true ↔ tid ≠ other ∧ d.recordOf other = some true := by
  rw [Debugger.recordOf, hthreads, SortedMap.find?_erase]
  by_cases heq : tid = other
  · simp [heq]
  · rw [if_neg (Ne.symm heq)]
    exact (and_iff_right heq).symm

theorem recordOf_emplace_iff (hthreads : d'.threads = d.threads.emplace tid ⟨tid, false, 0⟩)
    (other : Tid) : d'.recordOf other = some true ↔ d.recordOf other = some true := by
  rw [recordOf_emplace hthreads]
  by_cases heq : tid = other
  · cases hrecord : d.recordOf other <;>
      simp [Census.entryFrom, Census.News.key, Census.News.change, heq]
  · simp [Census.entryFrom, Census.News.key, heq]

end Tables

/-- The state after an event was taken off the list and logged. -/
def State.afterTaking (arch : Architecture R D) (u : State R D) (rest : List (Tid × WaitStatus))
    (site : Site) (tid : Tid) (status : WaitStatus) : State R D :=
  (u.withTarget { u.target with ready := rest }).logged
    (.consumed site tid status (u.target.stoppedAt arch tid))

section Consuming

variable {u : State R D} {rest : List (Tid × WaitStatus)} {status : WaitStatus} {site : Site}
  {d : Debugger} (hu : Covered view child late u) (hready : u.target.ready = (tid, status) :: rest)
  (hbreakpoints : d.breakpoints = u.debugger.breakpoints)
  (hwatchpoints : d.watchpoints = u.debugger.watchpoints)

include hu hready hbreakpoints hwatchpoints

theorem covered_end (hend : status.isEnd = true) (htable : ∀ other, d.recordOf other = some true ↔
      tid ≠ other ∧ u.debugger.recordOf other = some true) :
    Covered view child late ((u.afterTaking arch rest site tid status).withDebugger d) := by
  have hsubset : rest ⊆ u.target.ready := by
    rw [hready]
    exact List.subset_cons_self _ _
  refine hu.ended (show WellFormed arch d.breakpoints from hbreakpoints ▸ hu.formed) hwatchpoints
    rfl ?_ htable rfl hsubset fun other hother hending => ?_
  · cases status with
    | exited | signaled => rfl
    | _ => cases hend
  · obtain ⟨status', hmem, hend'⟩ := hending
    rw [hready, List.mem_cons] at hmem
    refine ⟨status', hmem.resolve_left ?_, hend'⟩
    rintro ⟨⟩
    exact hother rfl

theorem covered_stop {signal event : Nat} (hstatus : status = .stopped signal event)
    (htable : ∀ other, d.recordOf other = some true ↔
      tid = other ∨ u.debugger.recordOf other = some true)
    (hlate : briefs site signal event (u.target.stoppedAt arch tid) = true → tid ∈ late) :
    Covered view child late ((u.afterTaking arch rest site tid status).withDebugger d) := by
  subst hstatus
  exact hu.arrived (show WellFormed arch d.breakpoints from hbreakpoints ▸ hu.formed) hwatchpoints
    rfl rfl htable hlate (.take hready rfl)

end Consuming

/-- The rest of `step_over_breakpoint` never briefs a thread. -/
theorem covered_stepEvent (hkeeps : env.KeepsDebug) (address : Address) (tid : Tid)
    (status : WaitStatus) :
    Triple (Taken (Covered view child late) (tid, status)) (do
        noteConsumed arch .stepOver tid status
        handleStepEvent arch env address tid status)
      (fun _ => Covered view child late) (fun _ => Covered view child late) := by
  have hmanages : ManagesWithin arch env (Keeps (Covered view child late)) := covered_manages hkeeps
  have hreinsert : Within (Keeps (Covered view child late)) (reinsert arch env tid address) :=
    Within.get_bind fun s => WithinAt.onThrow (hmanages.enable address s)
      fun _ _ _ ht => ht.logged rfl
  have hstop : Within (Keeps (Covered view child late)) (handleStepStop arch env address tid) := by
    refine Within.get_bind fun s => Within.ite (fun _ => hreinsert) (fun _ => ?_) s
    refine hreinsert.bind fun _ => Within.bind ?_ fun _ => hmanages.tends.printStop tid
    exact covered_modify (fun _ => rfl) (fun _ => rfl) fun _ _ => Iff.rfl
  rintro t ⟨u, rest, hu, hready, rfl⟩
  let v := (u.afterTaking arch rest .stepOver tid status).withDebugger
    { u.debugger with
      threads := u.debugger.threads.insert tid ⟨tid, status.isStopped, status.stopSignal⟩ }
  have hv : Covered view child late v := by
    cases status with
    | exited code => exact covered_end hu hready rfl rfl rfl (recordOf_insert_running rfl rfl)
    | signaled signal => exact covered_end hu hready rfl rfl rfl (recordOf_insert_running rfl rfl)
    | continued =>
        exact hu.left hu.formed rfl rfl rfl (recordOf_insert_running rfl rfl) (.take hready rfl)
    | stopped signal event =>
        refine covered_stop hu hready rfl rfl rfl (recordOf_insert_stopped rfl rfl) fun hbriefs => ?_
        cases hbriefs
  exact triple_of_within (Within.doIf fun _ => hstop) v hv

theorem covered_stepOverBreakpoint (hkeeps : env.KeepsDebug) :
    Within (Keeps (Covered view child late)) (stepOverBreakpoint arch env) := by
  refine Within.get_bind fun s => Within.bind ?_ (fun address => ?_) s
  · exact (covered_manages hkeeps).pc _
  refine Within.get_bind fun t => ?_
  cases t.debugger.breakpoints.find? address with
  | none => exact .pure _
  | some r =>
      refine Within.ite (fun _ => ?_) (fun _ => .pure _) t
      exact within_of_triple (Triple.bind (stepOffTrap_takes hkeeps address) fun event =>
        covered_stepEvent hkeeps address event.1 event.2)

/-! ### Inside `wait_and_report` -/

theorem covered_recordClone (hkeeps : env.KeepsDebug) (tid : Tid) :
    Within (Keeps (Covered view child late)) (recordClone env tid) := by
  have hmanages : ManagesWithin arch env (Keeps (Covered view child late)) := covered_manages hkeeps
  refine Within.bind hmanages.peek fun newTid => ?_
  exact covered_modify (fun _ => rfl) (fun _ => rfl) fun _ other => recordOf_emplace_iff rfl other

section Waiting

variable (hreliable : env.Reliable) (hkeeps : env.KeepsDebug)

include hreliable hkeeps

theorem recordClone_stopped (tid : Tid) :
    Triple (fun s => Covered view child late s ∧ s.StoppedThread tid) (recordClone env tid)
      (fun _ s => Covered view child late s ∧ s.StoppedThread tid) (fun _ _ => False) := by
  rintro s ⟨hs, task, htask, hstopped⟩
  have hmessage : ptrace env "PTRACE_GETEVENTMSG" tid (fun task target => (task.eventMsg, target)) s
      = .ok task.eventMsg (env.enter s) := hreliable.ptrace htask hstopped
  have hcloned := covered_recordClone hkeeps tid s hs
  have hrun : recordClone env tid s = .ok ⟨⟩ _ := bind_ok hmessage
  rw [endState_of_ok hrun] at hcloned
  rw [hrun]
  exact ⟨hcloned, hreliable.enter ⟨task, htask, hstopped⟩⟩

theorem covered_attendToStop (tid : Tid) (signal event : Nat) :
    Within (Keeps (Covered view child late)) (attendToStop arch env tid signal event) := by
  have hrefresh : Within (Keeps (Covered view child late)) (refreshTarget arch env) :=
    (covered_manages hkeeps).tends.refreshTarget
  refine Within.bind (Within.doIf fun _ => covered_recordClone hkeeps tid) fun _ => ?_
  refine Within.bind (Within.doIf fun _ => hrefresh) fun _ => ?_
  exact Within.bind (Within.doIf fun _ => covered_prepareThread hreliable hkeeps tid) fun _ => hrefresh

/-- A stop by SIGSTOP briefs the thread. -/
theorem attendToStop_briefs (tid : Tid) {event : Nat} (hevent : event ≠ ptraceEventExec) :
    Triple (fun s => Covered view child (insert tid late) s ∧ s.StoppedThread tid)
      (attendToStop arch env tid sigstop event) (fun _ => Covered view child late)
      (fun _ => Covered view child late) := by
  refine Triple.bind (Q := fun _ s => Covered view child (insert tid late) s ∧ s.StoppedThread tid)
    ?_ fun _ => ?_
  · refine Triple.doIf (fun _ => ?_) fun _ _ hs => hs
    exact (recordClone_stopped hreliable hkeeps tid).conseq (fun _ hs => hs) (fun _ _ hs => hs)
      fun _ _ hfalse => hfalse.elim
  rw [doIf, if_neg hevent, doIf, if_pos rfl]
  refine Triple.bind (Q := fun _ s => Covered view child (insert tid late) s ∧ s.StoppedThread tid)
    (Triple.pure fun _ hs => hs) fun _ => ?_
  refine Triple.bind (Triple.of_endState fun s hs => ?_) fun _ =>
    triple_of_within (covered_manages hkeeps).tends.refreshTarget
  exact prepareThread_briefs hreliable hkeeps hs.1 hs.2

theorem covered_waitEvent (tid : Tid) (status : WaitStatus) (report : Bool) :
    Triple (Taken (Covered view child late) (tid, status)) (do
        noteConsumed arch .waitAndReport tid status
        handleEvent arch env tid status report)
      (fun _ => Covered view child late) (fun _ => Covered view child late) := by
  have hmanages : ManagesWithin arch env (Keeps (Covered view child late)) := covered_manages hkeeps
  have hshow : ∀ message, Within (Keeps (Covered view child late))
      (doIf (report = true) (print (R := R) (D := D) message)) := fun message =>
    Within.doIf fun _ => hmanages.print message
  have hreport : Within (Keeps (Covered view child late))
      (doIf (report = true) (reportStop arch env tid)) :=
    Within.doIf fun _ => hmanages.tends.reportStop tid
  rintro t ⟨u, rest, hu, hready, rfl⟩
  cases status with
  | exited code =>
      let v := (u.afterTaking arch rest .waitAndReport tid (.exited code)).withDebugger
        { u.debugger with
          selectedTid := tid
          threads := u.debugger.threads.erase tid
          alive := if tid = u.debugger.child then false else u.debugger.alive }
      have hv : Covered view child late v := covered_end hu hready rfl rfl rfl (recordOf_erase_iff rfl)
      exact triple_of_within (hshow _) v hv
  | signaled signal =>
      let v := (u.afterTaking arch rest .waitAndReport tid (.signaled signal)).withDebugger
        { u.debugger with
          selectedTid := tid
          threads := u.debugger.threads.erase tid
          alive := if tid = u.debugger.child then false else u.debugger.alive }
      have hv : Covered view child late v := covered_end hu hready rfl rfl rfl (recordOf_erase_iff rfl)
      exact triple_of_within (hshow _) v hv
  | continued =>
      exact hu.of_same hu.formed rfl (fun _ => Iff.rfl) (notices_cons_none rfl rfl)
        (.take hready rfl)
  | stopped signal event =>
      let v := (u.afterTaking arch rest .waitAndReport tid (.stopped signal event)).withDebugger
        { u.debugger with
          selectedTid := tid
          threads := u.debugger.threads.insert tid ⟨tid, true, signal⟩ }
      by_cases hbriefs : briefs .waitAndReport signal event (u.target.stoppedAt arch tid) = true
      · have hv : Covered view child (insert tid late) v :=
          covered_stop (hu.mono (Set.subset_insert tid late)) hready rfl rfl rfl
            (recordOf_insert_stopped rfl rfl) fun _ => Set.mem_insert tid late
        simp only [briefs, Bool.and_eq_true, decide_eq_true_eq, Option.isSome_iff_exists] at hbriefs
        obtain ⟨⟨⟨-, rfl⟩, hevent⟩, current, hcurrent⟩ := hbriefs
        obtain ⟨task, htask, hstopped, -⟩ := find?_of_stoppedAt hcurrent
        exact Triple.bind (attendToStop_briefs hreliable hkeeps tid hevent)
          (fun _ => triple_of_within hreport) v ⟨hv, task, htask, hstopped⟩
      · have hv : Covered view child late v :=
          covered_stop hu hready rfl rfl rfl (recordOf_insert_stopped rfl rfl)
            fun h => absurd h hbriefs
        exact triple_of_within (Within.bind (covered_attendToStop hreliable hkeeps tid signal event)
          fun _ => hreport) v hv

theorem covered_executes : ExecutesWithin arch env (Keeps (Covered view child late)) where
  print := (covered_manages hkeeps).print
  stepOverBreakpoint := covered_stepOverBreakpoint hkeeps
  resumeThread := covered_resumeThread hkeeps
  waitAndReport report := within_of_triple (Triple.bind (waitForEvent_takes hkeeps) fun event =>
    covered_waitEvent hreliable hkeeps event.1 event.2 report)

theorem covered_serves :
    ServesWithin arch env Set.univ (Keeps (Covered view child ∅)) :=
  have hmanages : ManagesWithin arch env (Keeps (Covered view child ∅)) := covered_manages hkeeps
  have hexecutes : ExecutesWithin arch env (Keeps (Covered view child ∅)) :=
    covered_executes hreliable hkeeps
  { hmanages with
    chooseFrame := fun _ => hmanages.aside fun _ => by constructor <;> rfl
    setBreakpoint := hmanages.tends.setBreakpoint
    removeBreakpoint := fun id _ => hmanages.tends.removeBreakpoint id
    enableById := hmanages.tends.enableById
    disableById := hmanages.tends.disableById
    setWatchpoint := hmanages.setWatchpoint (covered_addWatchpoint hreliable hkeeps)
    createTemporary := fun address => hmanages.tends.createBreakpoint address _ true
    continueExecution := hexecutes.continueExecution
    instructionStep := hexecutes.instructionStep
    reportStop := hmanages.tends.reportStop
    selectThread := hmanages.selectThread
    writeUserWord := fun address value =>
      covered_of_does hkeeps [.enter, .write] (does_writeUserWord address value) (by decide) }

end Waiting

/-! ### The beginning -/

/-- The process that was launched is the first thread; there are no records yet. -/
theorem covered_launched (hkeeps : env.KeepsDebug) {target : Target R D} (hends : target.EndsGone)
    {status : WaitStatus} (hwait : waitFor env child (State.initial child target) = .ok status s)
    (signal : Nat) : Covered view child late (s.launched child signal) := by
  obtain ⟨hdebugger, hlog, htasks, hready⟩ := waitFor_ready hwait
  obtain ⟨newer, hnotices, hforgotten, -⟩ := notices_enter env child (State.initial child target)
  rw [State.launched, hdebugger]
  refine ⟨wellFormed_empty, List.nodup_nil, fun _ => rfl, ?_, fun tid => ?_,
    fun _ _ _ _ watchpoint hmem => absurd hmem List.not_mem_nil⟩
  · rintro tid ⟨status', hmem, hend⟩
    change s.target.tasks.find? tid = none
    rw [htasks]
    exact hkeeps.gone _ _ hends tid ⟨status', hready hmem, hend⟩
  · have hpresent : present tid (s.notices child) = decide (child = tid) := by
      rw [notices_of_log hlog, hnotices, present_append_forgotten hforgotten]
      exact Bool.or_false _
    change _ ↔ present tid (s.notices child) = true
    rw [hpresent, decide_eq_true_eq]
    have hfirst : (⟨child, true, signal⟩ : ThreadState).stopped = true := rfl
    refine (recordOf_insert_stopped (d := Debugger.fresh child) hfirst rfl tid).trans
      (or_iff_left fun hrecorded => ?_)
    cases hrecorded

theorem covered_opened (hkeeps : env.KeepsDebug) {target : Target R D} (hends : target.EndsGone)
    (hrun : openSession arch env (State.initial child target) = .ok ⟨⟩ s) :
    Covered view child ∅ s := by
  have hmanages : ManagesWithin arch env (Keeps (Covered view child ∅)) := covered_manages hkeeps
  obtain ⟨status, t, hwait, hrelated⟩ := openSession_related
    (covered_setTask hkeeps (Or.inr fun _ => rfl)) hmanages.tends.refreshModules
    hmanages.tends.resolvePendingBreakpoints hmanages.print hmanages.tends.printStop hrun
  exact hrelated (covered_launched hkeeps hends hwait status.stopSignal)

/-! ### Whole sessions -/

theorem Prompt.covered (view : DebugView arch) (hreliable : env.Reliable) (hkeeps : env.KeepsDebug)
    {target : Target R D} (hends : target.EndsGone)
    (hs : Prompt arch env (State.initial child target) s) : Covered view child ∅ s := by
  induction hs with
  | opened hrun => exact covered_opened hkeeps hends hrun
  | command line _ hrun ih =>
      exact ((covered_serves hreliable hkeeps).dispatch line fun _ _ => trivial).of_ok hrun ih

/-- Every thread that is recorded as stopped watches for every record. -/
def DebugView.Covers (view : DebugView arch) (s : State R D) : Prop :=
  ∀ tid, s.debugger.recordOf tid = some true → ∀ watchpoint ∈ s.debugger.watchpoints,
    ∀ task, s.target.tasks.find? tid = some task → view.Watches task.debug watchpoint

/-- Every record is armed in every thread recorded as stopped, if the records are ones the
architecture accepts, and whenever the stop of a thread was recorded that had missed one of them, it
was a stop by SIGSTOP that `wait_and_report` consumed. -/
theorem Prompt.covers (view : DebugView arch) (hreliable : env.Reliable) (hkeeps : env.KeepsDebug)
    {target : Target R D} (hends : target.EndsGone)
    (hs : Prompt arch env (State.initial child target) s)
    (haccepted : ∀ watchpoint ∈ s.debugger.watchpoints, arch.Accepts watchpoint)
    (htimely : timely (s.notices child) = true) : view.Covers s := by
  intro tid hrecorded watchpoint hmem task htask
  have hcovered := hs.covered view hreliable hkeeps hends
  have hpresent : present tid (s.notices child) = true := (hcovered.table tid).mp hrecorded
  have hbehind : behind tid (s.notices child) = false := behind_of_timely htimely hpresent
  rcases hcovered.knows haccepted tid (Set.notMem_empty tid) hbehind watchpoint hmem with
    hending | ⟨task', htask', hwatches⟩
  · cases (hcovered.ends tid hending).symm.trans htask
  · obtain rfl := Option.some.inj (htask'.symm.trans htask)
    exact hwatches

theorem Environment.Calm.keepsDebug (hcalm : env.Calm) : env.KeepsDebug where
  kept tick target tid task htask _ := by
    rw [hcalm.still]
    exact Or.inl ⟨task, htask, rfl⟩
  pending tick target tid hending := by rwa [hcalm.still]
  gone tick target hgone := by rwa [hcalm.still]

/-- That program with a second thread, which has just been created. -/
def twoThreads : Target UserRegs X86_64.DebugRegisters :=
  { nopTarget 1 with
    tasks := (nopTarget 1).tasks.insert 2 (stoppedTask 0x1000)
    ready := [(1, .stopped sigtrap 0), (2, .stopped sigstop 0)] }

theorem endsGone_twoThreads : twoThreads.EndsGone := by
  rintro tid ⟨status, hmem, hend⟩
  simp only [twoThreads, List.mem_cons, Prod.mk.injEq, List.not_mem_nil, or_false] at hmem
  rcases hmem with ⟨-, rfl⟩ | ⟨-, rfl⟩ <;> cases hend

/-- The second thread is given the watchpoint when its first stop is consumed. -/
theorem Prompt.covers_twoThreads :
    ∃ s, Prompt x86_64 (nopMachine fun _ => []) (State.initial 1 twoThreads) s ∧
      s.debugger.watchpoints = [⟨1, 0, 0x2000, .write, 8⟩] ∧
      s.debugger.recordOf 1 = some false ∧ s.debugger.recordOf 2 = some true ∧
      x86_64View.Covers s := by
  obtain ⟨s, hs, hcheck⟩ := Prompt.exists_of_runBatch x86_64 (nopMachine fun _ => [])
    (State.initial 1 twoThreads) ["watch 0x2000".toList, "c".toList]
    (p := fun s => decide (s.debugger.watchpoints = [⟨1, 0, 0x2000, .write, 8⟩]) &&
      decide (s.debugger.recordOf 1 = some false) && decide (s.debugger.recordOf 2 = some true) &&
      timely (s.notices 1)) (by decide +kernel)
  simp only [Bool.and_eq_true, decide_eq_true_eq] at hcheck
  obtain ⟨⟨⟨hwatchpoints, hfirst⟩, hsecond⟩, htimely⟩ := hcheck
  refine ⟨s, hs, hwatchpoints, hfirst, hsecond, Prompt.covers x86_64View nopMachine_calm.reliable
    nopMachine_calm.keepsDebug endsGone_twoThreads hs (fun watchpoint hmem => ?_) htimely⟩
  rw [hwatchpoints, List.mem_singleton] at hmem
  rw [hmem]
  exact ⟨_, rfl⟩

/-- A thread is created, and the first one runs on while `watch` is given. -/
def unbriefed : Environment UserRegs X86_64.DebugRegisters := nopMachine fun tick =>
  if tick = 8 then [.clone 1 2 fun _ => 0] else if tick = 25 then [.stop 1 sigtrap 0 0 0] else []

/-- The first thread is then recorded as stopped, and knows nothing of the watchpoint. -/
theorem stopped_unbriefed :
    ∃ s task, Prompt x86_64 unbriefed (State.initial 1 (nopTarget 1)) s ∧
      s.debugger.watchpoints = [⟨1, 0, 0x2000, .write, 8⟩] ∧
      s.debugger.recordOf 1 = some true ∧ s.target.tasks.find? 1 = some task ∧
      task.stopped = true ∧ (x86_64View.content task.debug 0).enabled = false ∧
      ¬ x86_64View.Covers s := by
  obtain ⟨s, hs, hcheck⟩ := Prompt.exists_of_runBatch x86_64 unbriefed
    (State.initial 1 (nopTarget 1))
    ["c".toList, "c".toList, "watch 0x2000".toList, "c".toList]
    (p := fun s => decide (s.debugger.watchpoints = [⟨1, 0, 0x2000, .write, 8⟩]) &&
      decide (s.debugger.recordOf 1 = some true) &&
      (s.target.tasks.find? 1).any fun task => task.stopped &&
        !(X86_64.slotContent task.debug 0).enabled) (by decide +kernel)
  simp only [Bool.and_eq_true, decide_eq_true_eq, Option.any_eq_true, Bool.not_eq_true'] at hcheck
  obtain ⟨⟨hwatchpoints, hrecorded⟩, task, htask, hstopped, hdisabled⟩ := hcheck
  refine ⟨s, task, hs, hwatchpoints, hrecorded, htask, hstopped, hdisabled, fun hcovers => ?_⟩
  have hwatches := hcovers 1 hrecorded ⟨1, 0, 0x2000, .write, 8⟩
    (by rw [hwatchpoints]; exact List.mem_singleton_self _) task htask
  have henabled : (x86_64View.content task.debug 0).enabled = true :=
    (congrArg SlotContent.enabled hwatches).trans (x86_64View.requested_enabled _ _ _)
  exact absurd (hdisabled.symm.trans henabled) Bool.false_ne_true

end Cosy
