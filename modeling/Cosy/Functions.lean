import Cosy.Looking
import Cosy.Traps

/-!
# What each function does

For every function of the debugger, the kinds of moves it makes. The lists grow from the functions
that only look at the target to whole commands.
-/

namespace Cosy

open ByteMemory Effect

variable {R D α : Type} {arch : Architecture R D} {env : Environment R D} {T : Set Address}
  {kinds : List Kind}

/-- Looking at the target, and printing. -/
def reading : List Kind := [.enter, .say]

/-- Changing the registers of a thread as well. -/
def touching : List Kind := [.enter, .say, .regs]

/-- Reporting a stop, which may remove a breakpoint. -/
def inspecting : List Kind := touching ++ [.table, .lift]

/-- Creating breakpoints. -/
def creating : List Kind := [.enter, .table, .arm, .user]

/-- Looking for modules, which may create breakpoints. -/
def resolving : List Kind := creating ++ [.say, .book]

/-- Working on breakpoints and watchpoints, while no thread is resumed and none is waited for. -/
def session : List Kind := inspecting ++ creating ++ [.task, .book]

/-- Consuming an event, up to reporting it. -/
def waiting : List Kind := session ++ [.threads, .take]

/-- Resuming threads and waiting for them, without stepping over breakpoints or reporting. -/
def running : List Kind := session ++ [.threads, .resume, .take]

/-- Stepping over breakpoints as well. -/
def stepping : List Kind := running ++ [.stepping, .force]

/-- A whole command. -/
def commanding : List Kind := stepping ++ [.report, .write]

/-- Ending the session. -/
def detaching : List Kind := [.enter, .force, .release, .close]

theorem touching_subset_inspecting : touching ⊆ inspecting := by decide

theorem inspecting_subset_session : inspecting ⊆ session := by decide

theorem creating_subset_session : creating ⊆ session := by decide

theorem creating_subset_resolving : creating ⊆ resolving := by decide

theorem resolving_subset_session : resolving ⊆ session := by decide

theorem resolving_subset_running : resolving ⊆ running := by decide

theorem book_mem_resolving : Kind.book ∈ resolving := by decide

theorem book_mem_session : Kind.book ∈ session := by decide

theorem session_subset_waiting : session ⊆ waiting := by decide

theorem session_subset_running : session ⊆ running := by decide

theorem waiting_subset_running : waiting ⊆ running := by decide

theorem stepping_subset_commanding : stepping ⊆ commanding := by decide

/-! ### Requests and output -/

theorem does_note {kind : Kind} (hkind : kind ∈ kinds) {entry : Entry}
    (hmove : ∀ s, Move arch env T kind s (s.logged entry)) :
    Does arch env T kinds (note entry) :=
  Within.modify fun s => Runs.of_move (hmove s) hkind rfl

theorem does_print (hkind : Kind.say ∈ kinds) (message : Message) :
    Does arch env T kinds (print message) := does_note hkind fun s => .say s rfl

theorem does_book (hkind : Kind.book ∈ kinds) {change : Debugger → Debugger}
    (hchange : ∀ d, (change d).breakpoints = d.breakpoints ∧ (change d).threads = d.threads ∧
      (change d).selectedTid = d.selectedTid ∧ (change d).alive = d.alive ∧
      (change d).child = d.child ∧ (change d).detached = d.detached) :
    Does arch env T kinds (modifyDebugger change) := by
  refine Within.modify fun s => ?_
  obtain ⟨hbreakpoints, hthreads, hselected, halive, hchild, hdetached⟩ := hchange s.debugger
  exact Runs.of_move (.book s hbreakpoints hthreads hselected halive ⟨hchild, hdetached⟩) hkind
    hbreakpoints

theorem does_threads (hkind : Kind.threads ∈ kinds) {change : Debugger → Debugger}
    (hchange : ∀ d, (change d).breakpoints = d.breakpoints ∧ (change d).child = d.child ∧
      (change d).detached = d.detached) :
    Does arch env T kinds (modifyDebugger change) :=
  Within.modify fun s => Runs.of_move
    (.threads s (hchange _).1 ⟨(hchange _).2.1, (hchange _).2.2⟩) hkind (hchange _).1

/-- A request that changes the thread it is made to, which stays stopped. -/
theorem does_setTask (henter : Kind.enter ∈ kinds) (htask : Kind.task ∈ kinds) {operation : String}
    {tid : Tid} {change : Task R D → Task R D} (hchange : ∀ task, (change task).stopped = task.stopped) :
    Does arch env T kinds (ptrace env operation tid fun task target =>
      (PUnit.unit, target.setTask tid (change task))) :=
  does_ptrace henter fun s task hfind hstopped =>
    .single (.task s hfind hstopped ((hchange task).trans hstopped)) htask

theorem does_attempt {body : Dbg R D α} {handler : Exception → Dbg R D α}
    (hbody : Does arch env T kinds body) (hhandler : ∀ e, Does arch env T kinds (handler e)) :
    Does arch env T kinds (attempt body handler) := hbody.rescue hhandler

theorem does_peeks (henter : Kind.enter ∈ kinds) : Peeks env (Runs arch env T kinds) where
  peek := does_peek henter

theorem does_shows (henter : Kind.enter ∈ kinds) (hsay : Kind.say ∈ kinds) :
    Shows env (Runs arch env T kinds) where
  peek := does_peek henter
  note {entry} hentry := does_note hsay fun s => .say s (by cases entry <;> first | rfl | cases hentry)

theorem does_touches : Touches arch env (Runs arch env T touching) where
  peek := does_peek (by decide)
  note := (does_shows (by decide) (by decide)).note
  setRegs _ regs := does_ptrace (by decide) fun s _ hfind hstopped =>
    .single (.regs s regs hfind hstopped) (by decide)

theorem does_pc (henter : Kind.enter ∈ kinds) (tid : Tid) :
    Does arch env T kinds (pc arch env tid) := (does_peeks henter).pc tid

theorem does_setPc (tid : Tid) (value : Address) :
    Does arch env T touching (setPc arch env tid value) := does_touches.setPc tid value

theorem does_setOptions (tid : Tid) : Does arch env T session (setOptions env tid) :=
  does_setTask (by decide) (by decide) fun _ => rfl

/-- Nothing that only touches a thread changes the debugger. -/
theorem Moves.debugger {s t : State R D} (hmoves : Moves arch env T touching s t) :
    t.debugger = s.debugger := by
  refine Moves.preserve (I := fun u => u.debugger = s.debugger) ?_ hmoves rfl
  intro kind hkind u v hmove hu
  cases hmove with
  | enter | say | regs => exact hu
  | liftWild _ hlift => rcases hlift with rfl | rfl <;> exact absurd hkind (by decide)
  | _ => exact absurd hkind (by decide)

/-! ### Breakpoints -/

theorem does_noteUserEnabled (huser : Kind.user ∈ kinds) (key : Address) :
    Does arch env T kinds (noteUserEnabled key) := by
  refine Within.get_bind fun s => ?_
  cases hrecord : s.debugger.breakpoints.find? key with
  | none => exact .pure _
  | some r =>
      refine WithinAt.doIf fun hflags => ?_
      rw [Bool.and_eq_true, Bool.not_eq_true'] at hflags
      exact Runs.of_move (.userEnabled s hrecord hflags.1 hflags.2) huser rfl

theorem does_createBreakpoint (henv : env.LeavesText T) (address : Address) (specification : Text)
    (temporary : Bool) :
    Does arch env T creating (createBreakpoint arch env address specification temporary) := by
  refine Within.get_bind fun s => ?_
  cases hfind : s.debugger.breakpoints.find? address with
  | some existing => exact .pure _
  | none =>
      refine WithinAt.modify_bind (fun hformed =>
        ⟨.single (.insert s hfind rfl rfl) (by decide), hformed.insert rfl rfl⟩) ?_
      · refine Within.bind ((does_enable henv address).mono (by decide)) (fun _ => ?_) _
        exact Within.bind (does_noteUserEnabled (by decide) address) fun _ => .pure _

theorem does_createPendingBreakpoint (specification : Text) :
    Does arch env T session (createPendingBreakpoint specification) :=
  Within.get_bind fun s =>
    Within.bind (does_book book_mem_session fun _ => by simp) (fun _ => .pure _) s

theorem does_lift (henv : env.LeavesText T) {s : State R D} {key : Address}
    (hmay : ∀ r, s.debugger.breakpoints.find? key = some r →
      userEnabled key s.log = false ∨ r.temporary = true) :
    WithinAt (Runs arch env T inspecting) (disable env key) s := by
  refine withinAt_of_wellFormed fun hformed => ?_
  have hspec := disable_spec henv .lift key hformed fun r hr => Or.inr ⟨rfl, hmay r hr⟩
  refine (hspec.conseq (fun _ h => h) ?_ ?_).withinAt
  · exact fun _ t ht hs => ⟨(ht.1 hs).1.mono (by decide), (ht.1 hs).2⟩
  · exact fun _ t ht hs => ⟨(ht.1 hs).1.mono (by decide), (ht.1 hs).2⟩

/-- When a record is erased, its trap is gone. -/
theorem withinAt_dropBreakpoint {Q : State R D → State R D → Prop} [IsPreorder (State R D) Q]
    {s : State R D} {key : Address} (hformed : WellFormed arch s.debugger.breakpoints)
    (hdisable : WithinAt Q (disable env key) s)
    (herase : ∀ t : State R D, (∀ r, t.debugger.breakpoints.find? key = some r →
      r.enabled = false) → WithinAt Q (eraseBreakpoint key) t) :
    WithinAt Q (dropBreakpoint env key) s := by
  refine WithinAt.bind hdisable fun _ t hrun => herase t ?_
  have hspec := disable_spec (Environment.leavesText_empty env) .force key hformed
    fun _ _ => Or.inl rfl
  exact (hspec.of_ok rfl hrun).2

theorem does_dropBreakpoint (henv : env.LeavesText T) {s : State R D} {key : Address}
    (hmay : ∀ r, s.debugger.breakpoints.find? key = some r →
      userEnabled key s.log = false ∨ r.temporary = true) :
    WithinAt (Runs arch env T inspecting) (dropBreakpoint env key) s := by
  refine withinAt_of_wellFormed fun hformed => ?_
  refine withinAt_dropBreakpoint hformed (does_lift henv hmay) fun t hdisabled hformedt => ?_
  exact ⟨.single (.erase t hdisabled) (by decide), hformedt.erase key⟩

theorem does_removeBreakpoint (henv : env.LeavesText T) (id : Int) :
    Does arch env T session (removeBreakpoint env id) := by
  refine Within.get_bind fun s => ?_
  cases keyOfId s.debugger.breakpoints id with
  | none => exact does_book book_mem_session (fun _ => by simp) s
  | some key =>
      refine WithinAt.modify_bind (Runs.of_move (.userDisabled s key) (by decide) rfl) ?_
      exact (does_dropBreakpoint henv fun _ _ => Or.inl (by simp [userEnabled])).mono
        fun _ _ hruns => hruns.mono inspecting_subset_session

theorem does_refreshModules : Does arch env T resolving (refreshModules env) := by
  refine Within.bind (Within.modify fun s => runs_enter (by decide) s) fun _ => ?_
  refine Within.get_bind fun s => ?_
  cases s.target.maps with
  | none => exact .throw _
  | some modules => exact does_book book_mem_resolving (fun _ => by simp) s

theorem does_announceResolved (henv : env.LeavesText T) (specification : Text)
    (addresses : List Address) :
    Does arch env T resolving (announceResolved arch env specification addresses) := by
  induction addresses with
  | nil => exact .pure _
  | cons address rest ih =>
      exact ((does_createBreakpoint henv address specification false).mono
        creating_subset_resolving).bind fun _ =>
        (does_print (by decide) _).bind fun _ => ih

theorem does_resolvePendingFrom (henv : env.LeavesText T) (pending : List Breakpoint) :
    ∀ kept, Does arch env T resolving (resolvePendingFrom arch env kept pending) := by
  induction pending with
  | nil => exact fun _ => .pure _
  | cons breakpoint rest ih =>
      intro kept
      refine Within.get_bind fun s => ?_
      cases resolveSpecification s.debugger.modules breakpoint.specification with
      | nil => exact ih _ s
      | cons address addresses =>
          refine Within.bind (does_announceResolved henv _ _) (fun _ => ?_) s
          exact Within.bind (does_book book_mem_resolving fun _ => by simp) fun _ => ih _

theorem does_resolvePendingBreakpoints (henv : env.LeavesText T) :
    Does arch env T resolving (resolvePendingBreakpoints arch env) :=
  Within.get_bind fun s => does_resolvePendingFrom henv _ _ s

theorem does_announceBreakpoints (henv : env.LeavesText T) (specification : Text)
    (addresses : List Address) :
    Does arch env T session (announceBreakpoints arch env specification addresses) := by
  induction addresses with
  | nil => exact .pure _
  | cons address rest ih =>
      exact ((does_createBreakpoint henv address specification false).mono
        creating_subset_session).bind fun _ =>
        (does_print (by decide) _).bind fun _ => ih

theorem does_setBreakpoint (henv : env.LeavesText T) (specification : Text) :
    Does arch env T session (setBreakpoint arch env specification) := by
  refine Within.get_bind fun s => ?_
  cases resolveSpecification s.debugger.modules specification with
  | nil =>
      exact (does_createPendingBreakpoint specification).bind
        (fun _ => does_print (by decide) _) s
  | cons address addresses => exact does_announceBreakpoints henv _ _ s

theorem within_forEachWithId {Q : State R D → State R D → Prop} [IsPreorder (State R D) Q] {id : Int}
    {change : Address → Dbg R D Unit} (entries : List (Address × Breakpoint))
    (hchange : ∀ entry ∈ entries, entry.2.id = id → Within Q (change entry.1)) :
    Within Q (forEachWithId id change entries) := by
  induction entries with
  | nil => exact .pure _
  | cons entry rest ih =>
      obtain ⟨key, breakpoint⟩ := entry
      have hrest := ih fun entry hmem => hchange entry (List.mem_cons_of_mem _ hmem)
      rw [forEachWithId]
      refine Within.ite (fun hid => ?_) fun _ => hrest
      exact (hchange _ List.mem_cons_self hid).bind fun _ => hrest.bind fun _ => .pure _

theorem does_enableById (henv : env.LeavesText T) (id : Int) :
    Does arch env T session (enableById arch env id) :=
  Within.get_bind fun s => within_forEachWithId _
    (fun entry _ _ => ((does_enable henv entry.1).mono (by decide)).bind fun _ =>
      does_noteUserEnabled (by decide) entry.1) s

theorem does_disableById (henv : env.LeavesText T) (id : Int) :
    Does arch env T session (disableById env id) := by
  refine Within.get_bind fun s => within_forEachWithId _ (fun entry _ _ t => ?_) s
  refine WithinAt.modify_bind (Runs.of_move (.userDisabled t entry.1) (by decide) rfl) ?_
  exact (does_lift henv fun _ _ => Or.inl (by simp [userEnabled])).mono
    fun _ _ hruns => hruns.mono inspecting_subset_session

/-! ### Watchpoints -/

theorem does_configureWatchpoint (tid : Tid) (slot : Nat) (address : Address)
    (watchAccess : WatchAccess) (bytes : Nat) :
    Does arch env T session (configureWatchpoint arch env tid slot address watchAccess bytes) := by
  unfold configureWatchpoint
  cases arch.configureWatchpoint slot address watchAccess bytes with
  | error text => exact .throw _
  | ok plan =>
      exact (does_peek (by decide)).bind fun _ => .forM _ fun write _ =>
        does_setTask (by decide) (by decide) fun _ => rfl

theorem does_configureThreadWatchpoints (tid : Tid) :
    Does arch env T session (configureThreadWatchpoints arch env tid) :=
  Within.get_bind fun s => Within.forM _ (fun _ _ => does_configureWatchpoint tid _ _ _ _) s

theorem does_addWatchpoint (address : Address) (watchAccess : WatchAccess) (bytes : Nat) :
    Does arch env T session (addWatchpoint arch env address watchAccess bytes) := by
  refine Within.get_bind fun s => ?_
  refine Within.ite (fun _ => does_print (by decide) _) (fun _ => ?_) s
  refine does_attempt ?_ fun _ => does_print (by decide) _
  refine Within.bind (.forM _ fun entry _ => ?_) fun _ => ?_
  · exact Within.ite (fun _ => does_configureWatchpoint _ _ _ _ _) fun _ => .pure _
  · exact Within.bind (does_book book_mem_session fun _ => by simp) fun _ =>
      does_print (by decide) _

theorem does_setWatchpoint (arguments : List Text) :
    Does arch env T session (setWatchpoint arch env arguments) :=
  (does_shows (by decide) (by decide)).setWatchpoint does_addWatchpoint arguments

/-! ### Reporting a stop -/

theorem does_inspectWatchpoints (tid : Tid) (watchpoints : List Watchpoint) :
    Does arch env T reading (inspectWatchpoints env tid watchpoints) :=
  (does_shows (by decide) (by decide)).inspectWatchpoints tid watchpoints

theorem does_announceHit (henv : env.LeavesText T) (tid : Tid) {breakpoint : Breakpoint}
    {candidate : Address} {s : State R D}
    (hfind : s.debugger.breakpoints.find? candidate = some breakpoint) :
    WithinAt (Runs arch env T inspecting) (announceHit arch env tid breakpoint candidate) s := by
  refine withinAt_of_wellFormed fun hformed => ?_
  refine WithinAt.bind (((does_setPc tid candidate).mono touching_subset_inspecting) s) fun _ t hrun => ?_
  have hdebugger := ((does_setPc (T := T) tid candidate).of_ok hrun hformed).1.debugger
  refine WithinAt.modify_bind (Runs.of_move (.say t rfl) (by decide) rfl) ?_
  refine WithinAt.modify_bind (Runs.of_move (.say _ rfl) (by decide) rfl) ?_
  unfold doIf
  split
  · rename_i htemporary
    refine WithinAt.bind (does_dropBreakpoint henv fun r hr => Or.inr ?_) fun _ u _ =>
      does_print (by decide) _ u
    obtain rfl := Option.some.inj ((hdebugger ▸ hfind).symm.trans hr)
    exact htemporary
  · exact .pure _

theorem does_inspectTrap (henv : env.LeavesText T) (tid : Tid) :
    Does arch env T inspecting (inspectTrap arch env tid) := by
  refine Within.bind (does_pc (by decide) tid) fun stoppedAt => ?_
  refine Within.bind (Within.get_bind fun s => ?_) fun _ =>
    Within.get_bind fun t => (does_inspectWatchpoints tid _).mono (by decide) t
  cases hfind : s.debugger.breakpoints.find? (arch.candidate stoppedAt) with
  | none => exact .pure _
  | some breakpoint => exact does_announceHit henv tid hfind

theorem does_printLocation (tid : Tid) : Does arch env T reading (printLocation arch env tid) :=
  (does_shows (by decide) (by decide)).printLocation tid

theorem does_printStopped (henv : env.LeavesText T) (tid : Tid) (signal : Nat) :
    Does arch env T inspecting (printStopped arch env tid signal) := by
  have hlocation : Does arch env T inspecting
      (attempt (printLocation arch env tid) fun _ => pure ⟨⟩) :=
    does_attempt ((does_printLocation tid).mono (by decide)) fun _ => .pure _
  unfold printStopped
  split
  · exact Within.bind (does_attempt (does_inspectTrap henv tid) fun _ => does_print (by decide) _)
      fun _ => hlocation
  · split
    · exact Within.bind (does_print (by decide) _) fun _ => hlocation
    · exact Within.bind (does_print (by decide) _) fun _ => hlocation

theorem does_printStop (henv : env.LeavesText T) (tid : Tid) :
    Does arch env T inspecting (printStop arch env tid) := by
  refine Within.get_bind fun s => ?_
  cases s.debugger.stopSignal tid with
  | none => exact .pure _
  | some signal => exact does_printStopped henv tid signal s

theorem does_reportStop (henv : env.LeavesText T) (tid : Tid) :
    Does arch env T (inspecting ++ [.report]) (reportStop arch env tid) := by
  refine Within.get_bind fun s => WithinAt.modify_bind (Runs.of_move (.report s rfl) (by decide) rfl) ?_
  refine WithinAt.bind (WithinAt.onThrow ((does_printStop henv tid).mono (by decide) _) ?_) ?_
  · exact fun _ t _ => Runs.of_move (.report t rfl) (by decide) rfl
  · exact fun _ t _ => does_note (by decide) (fun s => .report s rfl) t

/-! ### Waiting -/

theorem does_waitForEvent (henter : Kind.enter ∈ kinds) (htake : Kind.take ∈ kinds) :
    Does arch env T kinds (waitForEvent env) := by
  intro s
  rcases waitForEvent_cases env s with ⟨tid, status, rest, -, hrun⟩ | ⟨-, halt, hrun⟩
  · rw [WithinAt, endState_of_ok hrun]
    exact trans_of (Runs arch env T kinds) (runs_enter henter s)
      (Runs.of_move (.take (env.enter s) rest) htake rfl)
  · rw [WithinAt, endState_of_error hrun]
    exact runs_enter henter s

theorem does_noteConsumed (hkind : Kind.say ∈ kinds) (tid : Tid) (status : WaitStatus) :
    Does arch env T kinds (noteConsumed arch .waitAndReport tid status) :=
  Within.get_bind fun s => Runs.of_move (.say s rfl) hkind rfl

theorem threads_mem_waiting : Kind.threads ∈ waiting := by decide

theorem threads_mem_running : Kind.threads ∈ running := by decide

theorem does_refreshTarget (henv : env.LeavesText T) :
    Does arch env T resolving (refreshTarget arch env) :=
  Within.bind does_refreshModules fun _ => does_resolvePendingBreakpoints henv

theorem does_prepareThread (tid : Tid) : Does arch env T session (prepareThread arch env tid) :=
  does_attempt (Within.bind (does_setOptions tid) fun _ => does_configureThreadWatchpoints tid)
    fun _ => .pure _

theorem does_recordClone (tid : Tid) : Does arch env T waiting (recordClone env tid) :=
  Within.bind (does_peek (by decide)) fun _ => does_threads threads_mem_waiting fun _ => by simp

theorem does_handleStop (henv : env.LeavesText T) (tid : Tid) (signal event : Nat) :
    Does arch env T waiting (handleStop arch env tid signal event) := by
  have hrefresh : Does arch env T waiting (refreshTarget arch env) :=
    (does_refreshTarget henv).mono (by decide)
  refine Within.bind (does_threads threads_mem_waiting fun _ => by simp) fun _ => ?_
  refine Within.bind (Within.doIf fun _ => does_recordClone tid) fun _ => ?_
  refine Within.bind (Within.doIf fun _ => hrefresh) fun _ => ?_
  refine Within.bind (Within.doIf fun _ => ?_) fun _ => hrefresh
  exact (does_prepareThread tid).mono session_subset_waiting

theorem does_handleEnd (tid : Tid) : Does arch env T waiting (handleEnd tid) :=
  does_threads threads_mem_waiting fun _ => by simp

/-! ### Resuming -/

theorem does_resume (henter : Kind.enter ∈ kinds) (hresume : Kind.resume ∈ kinds) (tid : Tid)
    (request : ResumeRequest) : Does arch env T kinds (resume env tid request 0) := by
  intro s
  rcases ptrace_cases env request.operation tid (fun task target =>
      (PUnit.unit, target.setTask tid
        { task with stopped := false, stepping := request = .singlestep })) s with
    ⟨task, htask, hstopped, -, hrun⟩ | ⟨-, hrun⟩
  · rw [WithinAt, resume, endState, bind_ok hrun]
    exact trans_of (Runs arch env T kinds) (runs_enter henter s)
      (Runs.of_move (.resume (env.enter s) request htask hstopped) hresume rfl)
  · rw [WithinAt, resume, endState, bind_error hrun]
    exact runs_enter henter s

theorem does_resumeThread (tid : Tid) (request : ResumeRequest) :
    Does arch env T running (resumeThread env tid request) := by
  refine Within.get_bind fun s => ?_
  cases s.debugger.threads.find? tid with
  | none => exact .pure _
  | some state =>
      refine Within.ite (fun _ => ?_) (fun _ => .pure _) s
      exact Within.bind (does_resume (by decide) (by decide) tid request) fun _ =>
        does_threads threads_mem_running fun _ => by simp

/-! ### Stepping over a breakpoint -/

theorem does_stepThread (tid : Tid) :
    Does arch env T [.enter, .resume, .threads, .take] (stepThread env tid) := by
  refine Within.bind (does_resume (by decide) (by decide) tid .singlestep) fun _ => ?_
  refine Within.bind (Within.get_bind fun s => ?_) fun _ =>
    does_waitForEvent (by decide) (by decide)
  refine Within.ite (fun _ => ?_) (fun _ => .throw _) s
  exact does_threads (by decide) fun _ => by simp

theorem does_stepOffTrap (henv : env.LeavesText T) (address : Address) :
    Does arch env T stepping (stepOffTrap env address) := by
  refine Within.bind ((does_disable henv address).mono (by decide)) fun _ => ?_
  refine Within.get_bind fun s =>
    WithinAt.modify_bind (Runs.of_move (.stepping s rfl) (by decide) rfl) ?_
  refine WithinAt.onThrow (((does_stepThread _).mono (by decide)) _) fun halt t _ => ?_
  cases halt with
  | thrown exception => exact Runs.of_move (.stepping t rfl) (by decide) rfl
  | blocked => exact refl_of _ t

theorem does_reinsert (henv : env.LeavesText T) (tid : Tid) (address : Address) :
    Does arch env T [.enter, .arm, .stepping] (reinsert arch env tid address) :=
  Within.get_bind fun s => WithinAt.onThrow ((does_enable henv address).mono (by decide) s)
    fun _ t _ => Runs.of_move (.stepping t rfl) (by decide) rfl

theorem does_handleStepStop (henv : env.LeavesText T) (address : Address) (tid : Tid) :
    Does arch env T stepping (handleStepStop arch env address tid) := by
  have hreinsert : Does arch env T stepping (reinsert arch env tid address) :=
    (does_reinsert henv tid address).mono (by decide)
  refine Within.get_bind fun s => Within.ite (fun _ => hreinsert) (fun _ => ?_) s
  refine Within.bind hreinsert fun _ => ?_
  exact Within.bind (does_threads (by decide) fun _ => by simp) fun _ =>
    (does_printStop henv tid).mono (by decide)

theorem does_handleStepEvent (henv : env.LeavesText T) (address : Address) (tid : Tid)
    (status : WaitStatus) :
    Does arch env T stepping (handleStepEvent arch env address tid status) :=
  Within.bind (does_threads (by decide) fun _ => by simp) fun _ =>
    Within.doIf fun _ => does_handleStepStop henv address tid

theorem does_stepOverBreakpoint (henv : env.LeavesText T) :
    Does arch env T stepping (stepOverBreakpoint arch env) := by
  refine Within.get_bind fun s => Within.bind (does_pc (by decide) _) (fun address => ?_) s
  refine Within.get_bind fun t => ?_
  cases t.debugger.breakpoints.find? address with
  | none => exact .pure _
  | some breakpoint =>
      refine Within.ite (fun _ => ?_) (fun _ => .pure _) t
      refine Within.bind (does_stepOffTrap henv address) fun event => ?_
      refine Within.bind (Within.get_bind fun u => ?_) fun _ => does_handleStepEvent henv address _ _
      exact Runs.of_move (.stepping u rfl) (by decide) rfl

/-! ### Composing commands -/

section Commands

variable {Q : State R D → State R D → Prop} [IsPreorder (State R D) Q]

/-- What `continue` and `stepi` call stays within `Q`. -/
structure ExecutesWithin (arch : Architecture R D) (env : Environment R D)
    (Q : State R D → State R D → Prop) : Prop where
  print : ∀ message, Within Q (print (R := R) (D := D) message)
  stepOverBreakpoint : Within Q (stepOverBreakpoint arch env)
  resumeThread : ∀ tid request, Within Q (resumeThread env tid request)
  waitAndReport : ∀ report, Within Q (waitAndReport arch env report)

section Executes

variable (hexecutes : ExecutesWithin arch env Q)

include hexecutes

theorem ExecutesWithin.resumeStopped (entries : List (Tid × ThreadState)) :
    Within Q (resumeStopped env entries) := by
  induction entries with
  | nil => exact .pure _
  | cons entry rest ih => exact Within.bind (hexecutes.resumeThread entry.1 .cont) fun _ => ih

theorem ExecutesWithin.continueExecution : Within Q (continueExecution arch env) := by
  refine Within.get_bind fun s => Within.ite (fun _ => ?_) (fun _ => hexecutes.print _) s
  refine Within.bind hexecutes.stepOverBreakpoint fun _ => Within.get_bind fun t => ?_
  exact Within.bind (hexecutes.resumeStopped _) (fun _ => hexecutes.waitAndReport true) t

theorem ExecutesWithin.instructionStep (report : Bool) :
    Within Q (instructionStep arch env report) := by
  refine Within.get_bind fun s => Within.ite (fun _ => ?_) (fun _ => .pure _) s
  refine Within.bind hexecutes.stepOverBreakpoint fun _ => Within.get_bind fun t => ?_
  exact Within.bind (hexecutes.resumeThread _ _) (fun _ => hexecutes.waitAndReport report) t

end Executes

/-- The parts that the execution commands consist of stay within `Q`. -/
structure StepsWithin (arch : Architecture R D) (env : Environment R D) (T : Set Address)
    (Q : State R D → State R D → Prop) : Prop where
  running : ∀ {α : Type} {m : Dbg R D α}, Does arch env T running m → Within Q m
  stepOverBreakpoint : Within Q (stepOverBreakpoint arch env)
  reportStop : ∀ tid, Within Q (reportStop arch env tid)
  writeUserWord : ∀ address value, Within Q (writeUserWord env address value)

/-- The parts that `dispatch` consists of stay within `Q`. -/
structure CommandsWithin (arch : Architecture R D) (env : Environment R D) (T : Set Address)
    (Q : State R D → State R D → Prop) : Prop where
  session : ∀ {α : Type} {m : Dbg R D α}, Does arch env T session m → Within Q m
  continueExecution : Within Q (continueExecution arch env)
  instructionStep : ∀ report, Within Q (instructionStep arch env report)
  reportStop : ∀ tid, Within Q (reportStop arch env tid)
  selectThread : ∀ tid, Within Q (selectThread arch env tid)
  writeUserWord : ∀ address value, Within Q (writeUserWord env address value)

section Steps

variable (hsteps : StepsWithin arch env T Q) (henv : env.LeavesText T)

include hsteps henv

theorem StepsWithin.handleEvent (tid : Tid) (status : WaitStatus) (report : Bool) :
    Within Q (handleEvent arch env tid status report) := by
  have hend : ∀ message, Within Q (do
      handleEnd tid
      doIf report (print message)) := fun message =>
    Within.bind (hsteps.running ((does_handleEnd tid).mono waiting_subset_running)) fun _ =>
      Within.doIf fun _ => hsteps.running (does_print (by decide) _)
  refine Within.bind (hsteps.running (does_threads threads_mem_running fun _ => by simp)) fun _ => ?_
  cases status with
  | exited code => exact hend _
  | signaled signal => exact hend _
  | continued => exact .pure _
  | stopped signal event =>
      exact Within.bind
        (hsteps.running ((does_handleStop henv tid signal event).mono waiting_subset_running))
        fun _ => Within.doIf fun _ => hsteps.reportStop tid

theorem StepsWithin.waitAndReport (report : Bool) : Within Q (waitAndReport arch env report) :=
  Within.bind (hsteps.running (does_waitForEvent (by decide) (by decide))) fun event =>
    Within.bind (hsteps.running (does_noteConsumed (by decide) event.1 event.2)) fun _ =>
      hsteps.handleEvent henv event.1 event.2 report

theorem StepsWithin.executes : ExecutesWithin arch env Q where
  print _ := hsteps.running (does_print (by decide) _)
  stepOverBreakpoint := hsteps.stepOverBreakpoint
  resumeThread tid request := hsteps.running (does_resumeThread tid request)
  waitAndReport := hsteps.waitAndReport henv

end Steps

theorem does_selectedLocation : Does arch env T reading (selectedLocation arch env) :=
  (does_peeks (by decide)).selectedLocation

theorem within_sourceStep (hprint : ∀ message, Within Q (print (R := R) (D := D) message))
    (hlocation : Within Q (selectedLocation arch env))
    (hstep : ∀ report, Within Q (instructionStep arch env report))
    (hreport : ∀ tid, Within Q (reportStop arch env tid)) : Within Q (sourceStep arch env) := by
  have hloop : ∀ before count, Within Q (sourceStepFrom arch env before count) := by
    intro before count
    induction count with
    | zero => exact hprint _
    | succ count ih =>
        refine Within.bind (hstep false) fun _ => ?_
        refine Within.get_bind fun s => Within.ite (fun _ => ?_) (fun _ => .pure _) s
        refine Within.bind hlocation fun after => ?_
        exact Within.ite (fun _ => ih) fun _ => Within.get_bind fun t => hreport _ t
  exact Within.bind hlocation fun before =>
    Within.ite (fun _ => hloop before sourceStepLimit) fun _ => hstep true

/-- The parts that `dispatch` consists of stay within `Q`, where `delete` is given one of these
numbers. -/
structure DispatchWithin (arch : Architecture R D) (env : Environment R D) (T : Set Address)
    (ids : Set Int) (Q : State R D → State R D → Prop) : Prop where
  touching : ∀ {α : Type} {m : Dbg R D α}, Does arch env T touching m → Within Q m
  chooseFrame : ∀ frame, Within Q
    (modifyDebugger (R := R) (D := D) fun d => { d with selectedFrame := frame })
  setBreakpoint : ∀ specification, Within Q (setBreakpoint arch env specification)
  removeBreakpoint : ∀ id ∈ ids, Within Q (removeBreakpoint env id)
  enableById : ∀ id, Within Q (enableById arch env id)
  disableById : ∀ id, Within Q (disableById env id)
  setWatchpoint : ∀ arguments, Within Q (setWatchpoint arch env arguments)
  createTemporary : ∀ address,
    Within Q (createBreakpoint arch env address "<finish>".toList true)
  continueExecution : Within Q (continueExecution arch env)
  instructionStep : ∀ report, Within Q (instructionStep arch env report)
  reportStop : ∀ tid, Within Q (reportStop arch env tid)
  selectThread : ∀ tid, Within Q (selectThread arch env tid)
  writeUserWord : ∀ address value, Within Q (writeUserWord env address value)

/-- The same of all parts but `watch`, said of those that only look by what they consist of. -/
structure ServesApart (arch : Architecture R D) (env : Environment R D) (ids : Set Int)
    (Q : State R D → State R D → Prop) : Prop extends Touches arch env Q where
  chooseFrame : ∀ frame, Within Q
    (modifyDebugger (R := R) (D := D) fun d => { d with selectedFrame := frame })
  setBreakpoint : ∀ specification, Within Q (setBreakpoint arch env specification)
  removeBreakpoint : ∀ id ∈ ids, Within Q (removeBreakpoint env id)
  enableById : ∀ id, Within Q (enableById arch env id)
  disableById : ∀ id, Within Q (disableById env id)
  createTemporary : ∀ address,
    Within Q (createBreakpoint arch env address "<finish>".toList true)
  continueExecution : Within Q (continueExecution arch env)
  instructionStep : ∀ report, Within Q (instructionStep arch env report)
  reportStop : ∀ tid, Within Q (reportStop arch env tid)
  selectThread : ∀ tid, Within Q (selectThread arch env tid)
  writeUserWord : ∀ address value, Within Q (writeUserWord env address value)

structure ServesWithin (arch : Architecture R D) (env : Environment R D) (ids : Set Int)
    (Q : State R D → State R D → Prop) : Prop extends ServesApart arch env ids Q where
  setWatchpoint : ∀ arguments, Within Q (setWatchpoint arch env arguments)

omit [IsPreorder (State R D) Q] in
theorem DispatchWithin.serves {ids : Set Int} (hdispatch : DispatchWithin arch env T ids Q) :
    ServesWithin arch env ids Q :=
  { hdispatch with
    peek := hdispatch.touching does_touches.peek
    note := fun hentry => hdispatch.touching (does_touches.note hentry)
    setRegs := fun tid regs => hdispatch.touching (does_touches.setRegs tid regs) }

/-- The same of all parts but `watch` and those that select a frame. -/
structure ServesBesides (arch : Architecture R D) (env : Environment R D) (ids : Set Int)
    (Q : State R D → State R D → Prop) : Prop extends Touches arch env Q where
  setBreakpoint : ∀ specification, Within Q (setBreakpoint arch env specification)
  removeBreakpoint : ∀ id ∈ ids, Within Q (removeBreakpoint env id)
  enableById : ∀ id, Within Q (enableById arch env id)
  disableById : ∀ id, Within Q (disableById env id)
  createTemporary : ∀ address,
    Within Q (createBreakpoint arch env address "<finish>".toList true)
  continueExecution : Within Q (continueExecution arch env)
  instructionStep : ∀ report, Within Q (instructionStep arch env report)
  reportStop : ∀ tid, Within Q (reportStop arch env tid)
  writeUserWord : ∀ address value, Within Q (writeUserWord env address value)

omit [IsPreorder (State R D) Q] in
theorem ServesApart.besides {ids : Set Int} (hserves : ServesApart arch env ids Q) :
    ServesBesides arch env ids Q := { hserves with }

section SourceSteps

variable {ids : Set Int} (hserves : ServesBesides arch env ids Q)

include hserves

theorem ServesBesides.sourceStep : Within Q (sourceStep arch env) :=
  within_sourceStep hserves.print hserves.selectedLocation hserves.instructionStep
    hserves.reportStop

theorem ServesBesides.stepOut : Within Q (stepOut arch env) := by
  refine Within.rescue (Within.get_bind fun s => ?_) fun _ => hserves.print _
  refine Within.bind (hserves.returnAddress _) (fun target => ?_) s
  refine Within.bind (hserves.createTemporary target) fun id => ?_
  exact Within.bind (hserves.print _) fun _ => hserves.continueExecution

end SourceSteps

omit [IsPreorder (State R D) Q] in
theorem CommandsWithin.dispatches (hcommands : CommandsWithin arch env T Q)
    (henv : env.LeavesText T) : DispatchWithin arch env T Set.univ Q where
  touching hm := hcommands.session (hm.mono (by decide))
  chooseFrame _ := hcommands.session (does_book book_mem_session fun _ => by simp)
  setBreakpoint _ := hcommands.session (does_setBreakpoint henv _)
  removeBreakpoint id _ := hcommands.session (does_removeBreakpoint henv id)
  enableById _ := hcommands.session ((does_enableById henv _).mono (by decide))
  disableById _ := hcommands.session ((does_disableById henv _).mono (by decide))
  setWatchpoint _ := hcommands.session (does_setWatchpoint _)
  createTemporary _ :=
    hcommands.session ((does_createBreakpoint henv _ _ _).mono creating_subset_session)
  continueExecution := hcommands.continueExecution
  instructionStep := hcommands.instructionStep
  reportStop := hcommands.reportStop
  selectThread := hcommands.selectThread
  writeUserWord := hcommands.writeUserWord

end Commands

end Cosy
