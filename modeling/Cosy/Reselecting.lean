import Cosy.Announcements
import Cosy.SingleStep
import Cosy.Tables

/-!
# Selecting a thread again

`thread TID` shows the stop of the thread it selects, by the function that reported the stop when it
came. That function does more than report. It sets the thread back to the breakpoint that stopped it
and removes a temporary one, and it does so again, for a thread that has been set back already and
for one that was never stopped by the breakpoint it finds.
-/

namespace Cosy

open ByteMemory Effect

variable {R D : Type} {arch : Architecture R D} {env : Environment R D} {s t : State R D} {tid : Tid}

/-! ### A target left to itself -/

/-- The target after `n` system calls from `tick` on that do nothing to it. -/
def Environment.drift (env : Environment R D) (tick : Nat) : Nat → Target R D → Target R D
  | 0, target => target
  | n + 1, target => env.drift (tick + 1) n (env.interfere tick target).2

theorem drift_add (env : Environment R D) (n : Nat) :
    ∀ (m tick : Nat) (target : Target R D),
      env.drift tick (m + n) target = env.drift (tick + m) n (env.drift tick m target) := by
  intro m
  induction m with
  | zero => intro tick target; rw [Nat.zero_add]; rfl
  | succ m ih =>
      intro tick target
      calc env.drift tick (m + 1 + n) target
          = env.drift tick (m + n + 1) target := by rw [Nat.add_right_comm]
        _ = env.drift (tick + 1 + m) n (env.drift (tick + 1) m (env.interfere tick target).2) :=
          ih (tick + 1) _
        _ = env.drift (tick + (m + 1)) n (env.drift tick (m + 1) target) := by
          rw [Nat.add_assoc, Nat.add_comm 1 m]
          rfl

theorem stoppedAt_drift (hsteady : env.Steady) {current : Address} (n : Nat) :
    ∀ (tick : Nat) (target : Target R D), target.stoppedAt arch tid = some current →
      (env.drift tick n target).stoppedAt arch tid = some current := by
  induction n with
  | zero => exact fun _ _ hstopped => hstopped
  | succ n ih =>
      exact fun tick target hstopped =>
        ih (tick + 1) _ (stoppedAt_of_stopsKept (hsteady tick target) hstopped)

/-- The debugger is as it was, and the target as it has become by itself. -/
structure Drifted (env : Environment R D) (s t : State R D) : Prop where
  debugger : t.debugger = s.debugger
  target : ∃ n, t.tick = s.tick + n ∧ t.target = env.drift s.tick n s.target

instance (env : Environment R D) : IsPreorder (State R D) (Drifted env) where
  refl _ := ⟨rfl, 0, rfl, rfl⟩
  trans s t u hst htu := by
    obtain ⟨m, htick, htarget⟩ := hst.target
    obtain ⟨n, htick', htarget'⟩ := htu.target
    refine ⟨htu.debugger.trans hst.debugger, m + n, ?_, ?_⟩
    · rw [htick', htick, Nat.add_assoc]
    · rw [htarget', htick, htarget, drift_add]

theorem drifted_enter (env : Environment R D) (s : State R D) : Drifted env s (env.enter s) :=
  ⟨rfl, 1, rfl, rfl⟩

theorem shows_drifted (env : Environment R D) : Shows env (Drifted env) where
  peek {α operation tid look} s := by
    rcases ptrace_cases env operation tid (fun task target => (look task target, target)) s with
      ⟨task, -, -, -, hrun⟩ | ⟨-, hrun⟩
    · rw [WithinAt, endState_of_ok hrun]
      exact drifted_enter env s
    · rw [WithinAt, endState_of_error hrun]
      exact drifted_enter env s
  note _ := Within.modify fun _ => ⟨rfl, 0, rfl, rfl⟩

/-! ### Looking for the breakpoint -/

/-- The program counter is that of a thread that is stopped, or cannot be read. -/
theorem pc_cases (arch : Architecture R D) (env : Environment R D) (tid : Tid) (s : State R D) :
    (∃ current, (env.enter s).target.stoppedAt arch tid = some current ∧
      pc arch env tid s = .ok current (env.enter s)) ∨
    ∃ halt, pc arch env tid s = .error halt (env.enter s) := by
  rcases ptrace_cases env arch.getRegsOperation tid (fun task target => (task.regs, target)) s with
    ⟨task, htask, hstopped, -, hrun⟩ | ⟨-, hrun⟩
  · exact Or.inl ⟨_, stoppedAt_of_find? htask hstopped, bind_ok (f := fun regs => pure (arch.pc regs)) hrun⟩
  · exact Or.inr ⟨_, bind_error (f := fun regs => pure (arch.pc regs)) hrun⟩

theorem setTask_self {target : Target R D} {task : Task R D}
    (htask : target.tasks.find? tid = some task) : target.setTask tid task = target := by
  have htasks : target.tasks.insert tid task = target.tasks := by
    refine SortedMap.ext_find? fun other => ?_
    rw [SortedMap.find?_insert]
    split
    · rename_i heq
      rw [heq, htask]
    · rfl
  rw [Target.setTask, htasks]

/-- A thread that is set to where it stands stays as it is. -/
theorem setPc_drifted (hpc : arch.LawfulPc) (hsteady : env.Steady) {current : Address}
    (hstopped : s.target.stoppedAt arch tid = some current) :
    WithinAt (Drifted env) (setPc arch env tid current) s := by
  obtain ⟨task, htask, hflag, rfl⟩ := find?_of_stoppedAt hstopped
  have hentered := hsteady s.tick s.target tid task htask hflag
  refine WithinAt.bind ((shows_drifted env).peek s) fun regs u hregs => ?_
  rcases ptrace_cases env arch.getRegsOperation tid (fun task target => (task.regs, target)) s with
    ⟨task', htask', -, -, hok⟩ | ⟨-, herror⟩
  · obtain rfl := Option.some.inj (hentered.symm.trans htask')
    obtain ⟨rfl, rfl⟩ := EStateM.Result.ok.inj (hok.symm.trans hregs)
    refine WithinAt.bind ?_ fun _ v _ => (shows_drifted env).note rfl v
    rw [hpc.setPc_pc, WithinAt]
    have hagain := hsteady (s.tick + 1) _ tid task hentered hflag
    rcases ptrace_cases env arch.setRegsOperation tid (fun task' target =>
        (PUnit.unit, target.setTask tid { task' with regs := task.regs })) (env.enter s) with
      ⟨task', htask', -, -, hok⟩ | ⟨-, herror⟩
    · obtain rfl := Option.some.inj (hagain.symm.trans htask')
      rw [setRegs, endState_of_ok hok]
      dsimp only
      rw [setTask_self htask']
      exact drifted_enter env _
    · rw [setRegs, endState_of_error herror]
      exact drifted_enter env _
  · cases herror.symm.trans hregs

/-- A record at this address concerns a thread that stands there, and stays when it is hit. -/
def Debugger.Harmless (arch : Architecture R D) (d : Debugger) (current : Address) : Prop :=
  ∀ r, d.breakpoints.find? (arch.candidate current) = some r →
    arch.candidate current = current ∧ r.temporary = false

theorem inspectBreakpoint_drifted (hpc : arch.LawfulPc) (hsteady : env.Steady) {current : Address}
    (hstopped : s.target.stoppedAt arch tid = some current)
    (hharmless : s.debugger.Harmless arch current) :
    WithinAt (Drifted env) (inspectBreakpoint arch env tid (arch.candidate current)) s := by
  refine WithinAt.get_bind ?_
  cases hr : s.debugger.breakpoints.find? (arch.candidate current) with
  | none => exact .pure _
  | some r =>
      obtain ⟨hcandidate, htemporary⟩ := hharmless r hr
      refine WithinAt.bind (hcandidate.symm ▸ setPc_drifted hpc hsteady hstopped) fun _ t _ => ?_
      refine WithinAt.bind ((shows_drifted env).print _ t) fun _ u _ => ?_
      refine WithinAt.bind ((shows_drifted env).note rfl u) fun _ v _ => ?_
      exact WithinAt.doIf fun htrue => absurd (htemporary.symm.trans htrue) Bool.false_ne_true

theorem inspectTrap_drifted (hpc : arch.LawfulPc) (hsteady : env.Steady)
    (hharmless : ∀ current, (env.enter s).target.stoppedAt arch tid = some current →
      s.debugger.Harmless arch current) :
    WithinAt (Drifted env) (inspectTrap arch env tid) s := by
  rcases pc_cases arch env tid s with ⟨current, hstopped, hrun⟩ | ⟨halt, hrun⟩
  · rw [inspectTrap, WithinAt, endState_bind_ok hrun]
    refine trans_of (Drifted env) (drifted_enter env s) ?_
    refine WithinAt.bind ?_ fun _ t _ =>
      .get_bind ((shows_drifted env).inspectWatchpoints tid _ t)
    exact inspectBreakpoint_drifted hpc hsteady hstopped (hharmless current hstopped)
  · rw [inspectTrap, WithinAt, endState_bind_error hrun]
    exact drifted_enter env s

theorem printStop_drifted (hpc : arch.LawfulPc) (hsteady : env.Steady)
    (hharmless : s.debugger.stopSignal tid = some sigtrap → ∀ current,
      (env.enter s).target.stoppedAt arch tid = some current → s.debugger.Harmless arch current) :
    WithinAt (Drifted env) (printStop arch env tid) s := by
  have hshows := shows_drifted env
  refine WithinAt.get_bind ?_
  cases hsignal : s.debugger.stopSignal tid with
  | none => exact .pure _
  | some signal =>
      have hlocation : Within (Drifted env) (attempt (printLocation arch env tid) fun _ => pure ⟨⟩) :=
        Within.rescue (hshows.printLocation tid) fun _ => .pure _
      dsimp only [printStopped]
      by_cases htrap : signal = sigtrap
      · rw [if_pos htrap]
        refine WithinAt.bind (WithinAt.rescue ?_ fun _ t => hshows.print _ t) fun _ t _ => hlocation t
        exact inspectTrap_drifted hpc hsteady (hharmless (htrap ▸ hsignal))
      · rw [if_neg htrap]
        split
        · exact WithinAt.bind (hshows.print _ s) fun _ t _ => hlocation t
        · exact WithinAt.bind (hshows.print _ s) fun _ t _ => hlocation t

/-! ### The breakpoint is found -/

/-- The record is gone, or the thread no longer stands where it stood but at the record's address. -/
def Disturbed (arch : Architecture R D) (tid : Tid) (current key : Address) (s t : State R D) : Prop :=
  t.debugger.breakpoints.find? key = none ∨
    key ≠ current ∧ s.tick < t.tick ∧ t.target.stoppedAt arch tid = some key

theorem shows_disturbed (arch : Architecture R D) (hsteady : env.Steady) (tid : Tid)
    (current key : Address) (s : State R D) : Shows env (Keeps (Disturbed arch tid current key s)) where
  peek {α operation tid' look} t := by
    have henter : Disturbed arch tid current key s t →
        Disturbed arch tid current key s (env.enter t) := by
      refine Or.imp_right fun ⟨hne, htick, hstopped⟩ => ⟨hne, Nat.lt_succ_of_lt htick, ?_⟩
      exact stoppedAt_of_stopsKept (hsteady _ _) hstopped
    rcases ptrace_cases env operation tid' (fun task target => (look task target, target)) t with
      ⟨task, -, -, -, hrun⟩ | ⟨-, hrun⟩
    · rw [WithinAt, endState_of_ok hrun]
      exact henter
    · rw [WithinAt, endState_of_error hrun]
      exact henter
  note _ := Within.modify fun _ ht => ht

theorem Drifted.not_disturbed (hsteady : env.Steady) {current key : Address} {r : Breakpoint}
    (hst : Drifted env s t) (hstopped : (env.enter s).target.stoppedAt arch tid = some current)
    (hr : s.debugger.breakpoints.find? key = some r) : ¬ Disturbed arch tid current key s t := by
  rintro (hgone | ⟨hne, htick, hset⟩)
  · rw [hst.debugger, hr] at hgone
    cases hgone
  · obtain ⟨n, hn, htarget⟩ := hst.target
    obtain ⟨m, rfl⟩ : ∃ m, n = m + 1 := ⟨n - 1, by omega⟩
    have hstays := stoppedAt_drift hsteady m (s.tick + 1) (env.enter s).target hstopped
    rw [htarget] at hset
    exact hne (Option.some.inj (hset.symm.trans hstays))

theorem setPc_stoppedAt (hreliable : env.Reliable) (value : Address) {current : Address}
    (hstopped : s.target.stoppedAt arch tid = some current) :
    ∃ t, setPc arch env tid value s = .ok ⟨⟩ t ∧ t.debugger = s.debugger ∧ s.tick < t.tick ∧
      t.target.stoppedAt arch tid = some value := by
  obtain ⟨task, htask, hflag, -⟩ := find?_of_stoppedAt hstopped
  have hregs : getRegs arch env tid s = .ok task.regs (env.enter s) :=
    hreliable.ptrace htask hflag
  have hset : setRegs arch env tid (arch.setPc task.regs value) (env.enter s) = .ok ⟨⟩ _ :=
    hreliable.ptrace (hreliable.steady _ _ _ _ htask hflag) hflag
  rw [setPc, bind_ok hregs, bind_ok hset]
  refine ⟨_, rfl, rfl, Nat.lt_add_of_pos_right (Nat.zero_lt_succ 1), ?_⟩
  refine (stoppedAt_of_find? (SortedMap.find?_insert_self _ _ _) ?_).trans
    (congrArg some (arch.pc_setPc task.regs value))
  exact hflag

/-- With a harmful record where it looks, `print_stop` does harm, if its requests are answered. -/
theorem inspectBreakpoint_disturbed (hreliable : env.Reliable) {current : Address} {r : Breakpoint}
    (hselected : s.debugger.selectedTid = tid)
    (hstopped : s.target.stoppedAt arch tid = some current)
    (hr : s.debugger.breakpoints.find? (arch.candidate current) = some r)
    (hharm : ¬ (arch.candidate current = current ∧ r.temporary = false)) :
    ∃ t, inspectBreakpoint arch env tid (arch.candidate current) s = .ok ⟨⟩ t ∧
      Disturbed arch tid current (arch.candidate current) s t := by
  obtain ⟨u, hset, hdebugger, htick, hmoved⟩ :=
    setPc_stoppedAt hreliable (arch.candidate current) hstopped
  rw [inspectBreakpoint, get_bind_apply, hr]
  dsimp only
  rw [announceHit, bind_ok hset, announceRecord, bind_ok (print_apply _ _), bind_ok (note_apply _ _)]
  dsimp only [doIf]
  by_cases htemporary : r.temporary = true
  · rw [if_pos htemporary]
    -- The trap is lifted through the thread that is shown, which is stopped.
    obtain ⟨task, htask, hflag, -⟩ := find?_of_stoppedAt hmoved
    let v := (u.logged (.out (.hitBreakpoint r.id (arch.candidate current)))).logged
      (.hit tid r.id (arch.candidate current) r.enabled)
    have hv : v.SelectedStopped := by
      have hsame : v.debugger.selectedTid = tid := (congrArg Debugger.selectedTid hdebugger).trans hselected
      exact ⟨task, hsame.symm ▸ htask, hflag⟩
    obtain ⟨_, w, hdisable, -⟩ := (hreliable.disable (arch.candidate current)).exists_ok hv
    have hdrop : dropBreakpoint env (arch.candidate current) v = .ok ⟨⟩ _ := bind_ok hdisable
    refine ⟨_, bind_ok hdrop, Or.inl ?_⟩
    exact (SortedMap.find?_erase _ _ _).trans (if_pos rfl)
  · rw [if_neg htemporary]
    refine ⟨_, rfl, Or.inr ⟨fun hsame => hharm ⟨hsame, by simpa using htemporary⟩, htick, hmoved⟩⟩

theorem inspectTrap_disturbed (hreliable : env.Reliable) {current : Address} {r : Breakpoint}
    (hselected : s.debugger.selectedTid = tid)
    (hstopped : (env.enter s).target.stoppedAt arch tid = some current)
    (hr : s.debugger.breakpoints.find? (arch.candidate current) = some r)
    (hharm : ¬ (arch.candidate current = current ∧ r.temporary = false)) :
    Disturbed arch tid current (arch.candidate current) s
      (endState (inspectTrap arch env tid) s) := by
  obtain ⟨task, htask, hflag, rfl⟩ := find?_of_stoppedAt hstopped
  have hrun : pc arch env tid s = .ok (arch.pc task.regs) (env.enter s) := by
    rcases ptrace_cases env arch.getRegsOperation tid (fun task target => (task.regs, target)) s with
      ⟨task', htask', -, -, hok⟩ | ⟨hfails, -⟩
    · obtain rfl := Option.some.inj (htask.symm.trans htask')
      exact bind_ok (f := fun regs => pure (arch.pc regs)) hok
    · exact absurd ((hreliable.answers _).symm.trans (hfails task htask hflag)) Bool.false_ne_true
  obtain ⟨t, hinspect, hdisturbed⟩ :=
    inspectBreakpoint_disturbed (s := env.enter s) hreliable hselected hstopped hr hharm
  rw [inspectTrap, endState_bind_ok hrun, endState_bind_ok hinspect]
  refine (shows_disturbed arch hreliable.steady tid _ _ s).inspectWatchpoints tid
    t.debugger.watchpoints t ?_
  refine hdisturbed.imp_right ?_
  rintro ⟨hne, htick, hset⟩
  exact ⟨hne, Nat.lt_of_succ_lt htick, hset⟩

theorem printStop_trap (hsignal : s.debugger.stopSignal tid = some sigtrap) {I : State R D → Prop}
    (hI : ∀ {entry : Entry}, entry.isShown = true → Within (Keeps I) (note (R := R) (D := D) entry))
    (hinspect : I (endState (inspectTrap arch env tid) s))
    (hlocation : Within (Keeps I) (printLocation arch env tid)) :
    I (endState (printStop arch env tid) s) := by
  have hrun : endState (printStop arch env tid) s
      = endState (printStopped arch env tid sigtrap) s := by
    rw [endState, endState, printStop, get_bind_apply, hsignal]
  rw [hrun, printStopped, if_pos rfl]
  refine endState_bind_of (endState_rescue_of hinspect fun _ => hI rfl) fun _ => ?_
  exact Within.rescue hlocation fun _ => .pure _

theorem printStop_disturbed (hreliable : env.Reliable) {current : Address} {r : Breakpoint}
    (hselected : s.debugger.selectedTid = tid) (hsignal : s.debugger.stopSignal tid = some sigtrap)
    (hstopped : (env.enter s).target.stoppedAt arch tid = some current)
    (hr : s.debugger.breakpoints.find? (arch.candidate current) = some r)
    (hharm : ¬ (arch.candidate current = current ∧ r.temporary = false)) :
    Disturbed arch tid current (arch.candidate current) s
      (endState (printStop arch env tid) s) := by
  have hshows := shows_disturbed arch hreliable.steady tid current (arch.candidate current) s
  exact printStop_trap hsignal hshows.note
    (inspectTrap_disturbed hreliable hselected hstopped hr hharm) (hshows.printLocation tid)

/-- Time passes while a trap is shown. -/
theorem tick_lt_printStop (hsignal : s.debugger.stopSignal tid = some sigtrap) :
    s.tick < (endState (printStop arch env tid) s).tick := by
  have hkeeps : ∀ {β : Type} {m : Dbg R D β}, Makes env Set.univ ∅ [.patch, .expire] m →
      Within (Keeps fun t : State R D => s.tick < t.tick) m := fun hm =>
    Within.mono hm fun _ _ hedits hlt => hlt.trans_le hedits.1
  refine printStop_trap (I := fun t => s.tick < t.tick) hsignal (fun _ => Within.modify fun _ ht => ht) ?_
    (hkeeps (tolerates_edits.printLocation (fun _ _ => trivial) (fun _ _ => trivial) tid))
  refine endState_bind_of (I := fun t : State R D => s.tick < t.tick) ?_ fun stoppedAt => hkeeps ?_
  · rcases pc_cases arch env tid s with ⟨current, -, hrun⟩ | ⟨halt, hrun⟩
    · rw [endState_of_ok hrun]
      exact Nat.lt_succ_self _
    · rw [endState_of_error hrun]
      exact Nat.lt_succ_self _
  · refine Within.bind (makes_inspectBreakpoint (by simp) (by simp) tid _) fun _ => ?_
    exact Within.get_bind fun t => tolerates_edits.inspectWatchpoints (fun _ _ => trivial) tid _ t

/-! ### The command -/

/-- The thread of `thread TID`. -/
def threadArgument (line : Text) : Option Tid :=
  match words line with
  | [command, argument] =>
      if command = "thread".toList then (parseAddress argument).map toPid else none
  | _ => none

theorem dispatch_thread {line : Text} (hline : threadArgument line = some tid) :
    dispatch arch env line = (do
      attempt (selectThread arch env tid) fun exception => print (.error exception)
      pure true) := by
  unfold threadArgument at hline
  split at hline
  · rename_i command argument hwords
    rw [Option.ite_none_right_eq_some] at hline
    obtain ⟨rfl, hargument⟩ := hline
    obtain ⟨value, hvalue, rfl⟩ := Option.map_eq_some_iff.mp hargument
    have hrun : runCommand arch env "thread".toList ["thread".toList, argument]
        = selectThread arch env (toPid value) := by
      change withNumber ["thread".toList, argument] "usage: thread TID"
        (fun value => selectThread arch env (toPid value)) = _
      rw [withNumber, hvalue]
    rw [dispatch, hwords]
    dsimp only
    rw [if_neg (by decide), hrun]
  · cases hline

/-- The state after a line of input. -/
def afterLine (arch : Architecture R D) (env : Environment R D) (line : Text) (s : State R D) :
    State R D := endState (dispatch arch env line) s

/-- All that is to change when a thread is selected. -/
def State.reselect (s : State R D) (tid : Tid) : State R D :=
  { s with debugger := { s.debugger with selectedTid := tid, selectedFrame := 0 } }

/-- The thread was not stopped by a trap, or else, wherever it stands while the target is left to
itself, there is no record where the trap would be, or a lasting one at the very place. -/
def Settled (arch : Architecture R D) (env : Environment R D) (tid : Tid) (s : State R D) : Prop :=
  s.debugger.stopSignal tid = some sigtrap → ∀ n current,
    (env.drift s.tick (n + 1) s.target).stoppedAt arch tid = some current →
      s.debugger.Harmless arch current

/-- The thread stands somewhere, and by itself it stays there. -/
theorem settled_of_stoppedAt (hsteady : env.Steady) {current : Address}
    (hstopped : s.target.stoppedAt arch tid = some current)
    (hharmless : s.debugger.Harmless arch current) : Settled arch env tid s := by
  intro _ n current' hstopped'
  have hstays := stoppedAt_drift hsteady (n + 1) s.tick s.target hstopped
  exact Option.some.inj (hstays.symm.trans hstopped') ▸ hharmless

theorem selectThread_of_recorded (hrecorded : s.debugger.recordOf tid = some true) :
    selectThread arch env tid s = printStop arch env tid (s.reselect tid) := by
  obtain ⟨state, hstate, hstopped⟩ := Option.map_eq_some_iff.mp hrecorded
  rw [selectThread, get_bind_apply, hstate]
  dsimp only
  rw [if_pos hstopped]
  rfl

section Command

variable {line : Text} (hline : threadArgument line = some tid)

include hline

/-- The command is the showing of the stop, up to what is printed about an exception. -/
theorem afterLine_of_printStop (hrecorded : s.debugger.recordOf tid = some true)
    {I : State R D → Prop} (hI : ∀ message, Within (Keeps I) (print (R := R) (D := D) message))
    (hstop : I (endState (printStop arch env tid) (s.reselect tid))) :
    I (afterLine arch env line s) := by
  rw [afterLine, dispatch_thread hline]
  refine endState_bind_of (endState_rescue_of ?_ fun _ => hI _) fun _ => .pure _
  rwa [endState, selectThread_of_recorded hrecorded]

theorem afterLine_drifted (hpc : arch.LawfulPc) (hsteady : env.Steady)
    (hrecorded : s.debugger.recordOf tid = some true) (hsettled : Settled arch env tid s) :
    Drifted env (s.reselect tid) (afterLine arch env line s) := by
  refine afterLine_of_printStop hline hrecorded (I := Drifted env (s.reselect tid))
    (fun message => Within.mono ((shows_drifted env).print message)
      fun _ _ htu hst => trans_of (Drifted env) hst htu) ?_
  exact printStop_drifted (s := s.reselect tid) hpc hsteady fun hsignal => hsettled hsignal 0

theorem tick_lt_afterLine (hrecorded : s.debugger.recordOf tid = some true)
    (hsignal : s.debugger.stopSignal tid = some sigtrap) :
    s.tick < (afterLine arch env line s).tick :=
  afterLine_of_printStop hline hrecorded (I := fun u => s.tick < u.tick)
    (fun _ => Within.modify fun _ hu => hu) (tick_lt_printStop (s := s.reselect tid) hsignal)

end Command

theorem Drifted.reselected (hst : Drifted env (s.reselect tid) t) : t.reselect tid = t := by
  have hdebugger := hst.debugger
  cases t with
  | mk d target tick log =>
      dsimp only at hdebugger
      subst hdebugger
      rfl

theorem Drifted.settled (hst : Drifted env (s.reselect tid) t) (hs : Settled arch env tid s) :
    Settled arch env tid t := by
  obtain ⟨hdebugger, m, htick, htarget⟩ := hst
  intro hsignal n current hstopped r hr
  rw [hdebugger] at hsignal hr
  refine hs hsignal (m + n) current ?_ r hr
  rw [htick, htarget] at hstopped
  rw [Nat.add_assoc, drift_add]
  exact hstopped

/-- From the earlier of two states on the way to the later one. -/
theorem Drifted.of_le {u : State R D} (hst : Drifted env s t) (hsu : Drifted env s u)
    (hle : t.tick ≤ u.tick) : Drifted env t u := by
  obtain ⟨hdebugger, m, htick, htarget⟩ := hst
  obtain ⟨hdebugger', n, htick', htarget'⟩ := hsu
  obtain ⟨k, rfl⟩ : ∃ k, n = m + k := ⟨n - m, by omega⟩
  refine ⟨hdebugger'.trans hdebugger.symm, k, by omega, ?_⟩
  rw [htarget', htarget, htick, drift_add]

section Repeated

variable {line : Text}

/-- A settled thread can be selected again and again. -/
theorem iterate_drifted (hpc : arch.LawfulPc) (hsteady : env.Steady)
    (hline : threadArgument line = some tid) (hrecorded : s.debugger.recordOf tid = some true)
    (hsettled : Settled arch env tid s) (k : Nat) :
    Drifted env (s.reselect tid) ((afterLine arch env line)^[k + 1] s) := by
  induction k with
  | zero => exact afterLine_drifted hline hpc hsteady hrecorded hsettled
  | succ k ih =>
      rw [Function.iterate_succ_apply']
      refine trans_of (Drifted env) ih ?_
      have hagain := afterLine_drifted hline hpc hsteady
        ((congrArg (fun d => Debugger.recordOf d tid) ih.debugger).trans hrecorded)
        (ih.settled hsettled)
      rwa [ih.reselected] at hagain

/-- Each time takes at least one system call. -/
theorem iterate_tick (hline : threadArgument line = some tid)
    (hrecorded : s.debugger.recordOf tid = some true)
    (hsignal : s.debugger.stopSignal tid = some sigtrap)
    (hdrifted : ∀ k, Drifted env (s.reselect tid) ((afterLine arch env line)^[k + 1] s)) (n : Nat) :
    Drifted env (s.reselect tid) (((afterLine arch env line)^[n] s).reselect tid) ∧
      s.tick + n ≤ ((afterLine arch env line)^[n] s).tick := by
  have hreselected : ∀ n, Drifted env (s.reselect tid)
      (((afterLine arch env line)^[n] s).reselect tid) := by
    intro n
    cases n with
    | zero => exact refl_of (Drifted env) _
    | succ k => exact (hdrifted k).reselected.symm ▸ hdrifted k
  refine ⟨hreselected n, ?_⟩
  induction n with
  | zero => exact le_rfl
  | succ n ih =>
      rw [Function.iterate_succ_apply']
      have hsame := (hreselected n).debugger
      have hlt : State.tick _ < (afterLine arch env line ((afterLine arch env line)^[n] s)).tick :=
        tick_lt_afterLine hline
          ((congrArg (fun d => Debugger.recordOf d tid) hsame).trans hrecorded)
          ((congrArg (fun d => Debugger.stopSignal d tid) hsame).trans hsignal)
      omega

/-- A thread that can be selected again and again without harm is settled. -/
theorem settled_of_iterate (hreliable : env.Reliable) (hline : threadArgument line = some tid)
    (hrecorded : s.debugger.recordOf tid = some true)
    (hdrifted : ∀ k, Drifted env (s.reselect tid) ((afterLine arch env line)^[k + 1] s)) :
    Settled arch env tid s := by
  intro hsignal n current hstopped r hr
  by_contra hharm
  -- The state before the command has been given once more than there are calls to wait for.
  let u := (afterLine arch env line)^[n] s
  obtain ⟨hsu, hlater⟩ := iterate_tick hline hrecorded hsignal hdrifted n
  obtain ⟨m, htick, htarget⟩ := hsu.target
  have hentered : (env.enter (u.reselect tid)).target.stoppedAt arch tid = some current := by
    have hmore : env.drift s.tick (m + 1) s.target
        = env.drift (s.tick + (n + 1)) (m - n) (env.drift s.tick (n + 1) s.target) := by
      rw [← drift_add]
      have hle : s.tick + n ≤ s.tick + m := hlater.trans_eq htick
      congr 1
      omega
    have hnow : (env.enter (u.reselect tid)).target = env.drift s.tick (m + 1) s.target := by
      rw [drift_add, enter_target, htick, htarget]
      rfl
    rw [hnow, hmore]
    exact stoppedAt_drift hreliable.steady _ _ _ hstopped
  have hsame := hsu.debugger
  have hr' : (u.reselect tid).debugger.breakpoints.find? (arch.candidate current) = some r :=
    (congrArg (fun d => SortedMap.find? (Debugger.breakpoints d) _) hsame).trans hr
  have hrecorded' : u.debugger.recordOf tid = some true :=
    (congrArg (fun d => Debugger.recordOf d tid) hsame).trans hrecorded
  have hsignal' : u.debugger.stopSignal tid = some sigtrap :=
    (congrArg (fun d => Debugger.stopSignal d tid) hsame).trans hsignal
  have hnext : Drifted env (s.reselect tid) (afterLine arch env line u) := by
    have hiterated := hdrifted n
    rwa [Function.iterate_succ_apply'] at hiterated
  refine Drifted.not_disturbed hreliable.steady
    (hsu.of_le hnext (tick_lt_afterLine hline hrecorded' hsignal').le) hentered hr' ?_
  exact afterLine_of_printStop hline hrecorded'
    (shows_disturbed arch hreliable.steady tid current _ (u.reselect tid)).print
    (printStop_disturbed hreliable rfl hsignal' hentered hr' hharm)

end Repeated

/-- Selecting a thread, however often, leaves everything but the selection to itself exactly if the
thread is settled. -/
theorem thread_undisturbed_iff (hpc : arch.LawfulPc) (hsteady : env.Steady) {line : Text}
    (hline : threadArgument line = some tid) (hrecorded : s.debugger.recordOf tid = some true) :
    (Settled arch env tid s →
      ∀ k, Drifted env (s.reselect tid) ((afterLine arch env line)^[k + 1] s)) ∧
    ((∀ tick, env.fails tick = false) →
      (∀ k, Drifted env (s.reselect tid) ((afterLine arch env line)^[k + 1] s)) →
        Settled arch env tid s) :=
  ⟨iterate_drifted hpc hsteady hline hrecorded,
    fun hanswers => settled_of_iterate ⟨hsteady, hanswers⟩ hline hrecorded⟩

/-- The program of `nops` at rest. -/
def resting : Environment UserRegs X86_64.DebugRegisters := nopMachine fun _ => []

theorem resting_reliable : resting.Reliable := Machine.reliable fun _ => rfl

/-- The thread has been continued to a breakpoint, and stands at it. -/
theorem thread_undisturbed_nops :
    ∃ s, Prompt x86_64 (runningMachine 4) (State.initial 1 (nopTarget 1)) s ∧
      (s.debugger.breakpoints.find? 0x1003).isSome = true ∧
      s.target.stoppedAt x86_64 1 = some 0x1003 ∧
      ∀ k, Drifted (runningMachine 4) (s.reselect 1)
        ((afterLine x86_64 (runningMachine 4) "thread 1".toList)^[k + 1] s) := by
  obtain ⟨s, hs, hcheck⟩ := Prompt.exists_of_runBatch x86_64 (runningMachine 4)
    (State.initial 1 (nopTarget 1)) ["break *0x1003".toList, "continue".toList]
    (p := fun s => decide (s.debugger.recordOf 1 = some true) &&
      decide (s.target.stoppedAt x86_64 1 = some 0x1003) &&
      (s.debugger.breakpoints.find? 0x1002).isNone &&
      (s.debugger.breakpoints.find? 0x1003).isSome) (by decide +kernel)
  simp only [Bool.and_eq_true, decide_eq_true_eq, Option.isNone_iff_eq_none] at hcheck
  obtain ⟨⟨⟨hrecorded, hstopped⟩, hnone⟩, hsome⟩ := hcheck
  have hsteady : (runningMachine 4).Steady := (Machine.reliable fun _ => rfl).steady
  refine ⟨s, hs, hsome, hstopped, (thread_undisturbed_iff x86_64_lawfulPc hsteady (by decide)
    hrecorded).1 (settled_of_stoppedAt hsteady hstopped fun r hr => ?_)⟩
  have hcandidate : x86_64.candidate 0x1003 = 0x1002 := by decide
  rw [hcandidate, hnone] at hr
  cases hr

/-- A breakpoint that the thread has never reached is taken for the one that stopped it. -/
theorem thread_set_back :
    ∃ s, Prompt x86_64 resting (State.initial 1 (nopTarget 1)) s ∧
      s.debugger.recordOf 1 = some true ∧ s.target.stoppedAt x86_64 1 = some 0x1000 ∧
      ¬ Drifted resting (s.reselect 1) (afterLine x86_64 resting "thread 1".toList s) := by
  obtain ⟨s, hs, hcheck⟩ := Prompt.exists_of_runBatch x86_64 resting
    (State.initial 1 (nopTarget 1)) ["break *0xfff".toList]
    (p := fun s => decide (s.debugger.recordOf 1 = some true) &&
      decide (s.target.stoppedAt x86_64 1 = some 0x1000) &&
      decide ((afterLine x86_64 resting "thread 1".toList s).target.stoppedAt x86_64 1
        = some 0xfff)) (by decide +kernel)
  simp only [Bool.and_eq_true, decide_eq_true_eq] at hcheck
  obtain ⟨⟨hrecorded, hstopped⟩, hback⟩ := hcheck
  refine ⟨s, hs, hrecorded, hstopped, fun hdrifted => ?_⟩
  obtain ⟨n, -, htarget⟩ := hdrifted.target
  have hstays := stoppedAt_drift resting_reliable.steady n s.tick s.target hstopped
  rw [htarget] at hback
  exact absurd (Option.some.inj (hstays.symm.trans hback)) (by decide)

end Cosy
