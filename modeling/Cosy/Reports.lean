import Cosy.Lib.Bracketed
import Cosy.Detach
import Cosy.Frames

/-!
# Reporting a stop

`print_stop` decides by the program counter alone whether a `SIGTRAP` is a breakpoint's. What it
does about the record it finds one trap's length back, and what it leaves undone when it is not
called, is read off the log, where every report is a block of its own.
-/

namespace Cosy

open ByteMemory Effect

variable {R D α : Type} {arch : Architecture R D} {env : Environment R D} {T : Set Address}
  {kinds : List Kind}

/-! ### Entries -/

def Entry.opensReport : Entry → Bool
  | .reporting _ _ _ _ => true
  | _ => false

def Entry.closesReport : Entry → Bool
  | .reported _ => true
  | _ => false

def Entry.isResumed : Entry → Bool
  | .resumed _ _ _ => true
  | _ => false

def Entry.resumes (tid : Tid) : Entry → Bool
  | .resumed thread _ _ => thread = tid
  | _ => false

/-- What `print_stop` does about the record of a breakpoint. -/
def Entry.isAct : Entry → Bool
  | .setPc _ _ | .hit _ _ _ _ | .out (.hitBreakpoint _ _) | .out (.temporaryRemoved _)
  | .restored _ _ _ | .disarmed _ => true
  | _ => false

/-- Where it does that, as far as the entry tells. -/
def Entry.actsOn (address : Address) : Entry → Bool
  | .setPc _ value => value = address
  | .hit _ _ key _ | .out (.hitBreakpoint _ key) | .restored key _ _ | .disarmed key =>
      key = address
  | _ => true

theorem not_opensReport_of_closesReport (entry : Entry) (hcloses : entry.closesReport = true) :
    entry.opensReport = false := by
  cases entry <;> first | rfl | cases hcloses

/-! ### What is appended to the log -/

/-- The entries of the log that are not yet in the log of `s`. -/
def State.entriesSince (s t : State R D) : List Entry := t.log.take (t.log.length - s.log.length)

theorem entriesSince_of_append {s t : State R D} {newer : List Entry}
    (hlog : t.log = newer ++ s.log) : s.entriesSince t = newer := by
  have hlength : t.log.length - s.log.length = newer.length := by
    rw [hlog, List.length_append, Nat.add_sub_cancel]
  rw [State.entriesSince, hlength, hlog, List.take_left']
  rfl

/-- Only entries of which `A` holds are appended to the log. -/
def Appends (A : Entry → Prop) (s t : State R D) : Prop :=
  ∃ newer, t.log = newer ++ s.log ∧ ∀ entry ∈ newer, A entry

instance (A : Entry → Prop) : IsPreorder (State R D) (Appends A) where
  refl _ := ⟨[], rfl, by simp⟩
  trans := by
    rintro s t u ⟨newer, hnewer, hfirst⟩ ⟨newest, hnewest, hsecond⟩
    refine ⟨newest ++ newer, by rw [hnewest, hnewer, List.append_assoc], fun entry hmem => ?_⟩
    exact (List.mem_append.mp hmem).elim (hsecond entry) (hfirst entry)

section Appends

variable {A B : Entry → Prop} {s t : State R D}

theorem Appends.mono (hst : Appends A s t) (himp : ∀ entry, A entry → B entry) : Appends B s t := by
  obtain ⟨newer, hnewer, hall⟩ := hst
  exact ⟨newer, hnewer, fun entry hmem => himp entry (hall entry hmem)⟩

/-- What was appended is determined. -/
theorem Appends.all {newer : List Entry} (hst : Appends A s t) (hnewer : t.log = newer ++ s.log) :
    ∀ entry ∈ newer, A entry := by
  obtain ⟨newer', hnewer', hall⟩ := hst
  rwa [List.append_cancel_right (hnewer.symm.trans hnewer')]

theorem Appends.of_eq (hlog : t.log = s.log) : Appends A s t := ⟨[], hlog, by simp⟩

theorem Appends.cons {entry : Entry} (hlog : t.log = entry :: s.log) (hentry : A entry) :
    Appends A s t := ⟨[entry], hlog, by simpa using hentry⟩

theorem appends_note {entry : Entry} (hentry : A entry) :
    Within (Appends A) (note (R := R) (D := D) entry) := Within.modify fun _ => .cons rfl hentry

theorem appends_modifyDebugger (change : Debugger → Debugger) :
    Within (Appends A) (modifyDebugger (R := R) (D := D) change) :=
  Within.modify fun _ => .of_eq rfl

theorem appends_enter (htarget : ∀ event, A (.target event)) (s : State R D) :
    Appends A s (env.enter s) :=
  ⟨_, rfl, fun entry hmem => by
    obtain ⟨event, -, rfl⟩ := List.mem_map.mp hmem
    exact htarget event⟩

theorem tolerates_appends (env : Environment R D) (htarget : ∀ event, A (.target event)) :
    Tolerates env A (Appends A) where
  request {_ operation tid request} _ s := by
    rcases ptrace_cases env operation tid request s with ⟨task, -, -, -, hrun⟩ | ⟨-, hrun⟩
    · rw [WithinAt, endState_of_ok hrun]
      exact appends_enter htarget s
    · rw [WithinAt, endState_of_error hrun]
      exact appends_enter htarget s
  note _ hentry := appends_note hentry

/-- Only a report opens or closes a block. -/
theorem Move.appends {kind : Kind} (hmove : Move arch env T kind s t) (hkind : kind ≠ .report) :
    Appends (fun entry => entry.opensReport = false ∧ entry.closesReport = false) s t := by
  cases hmove with
  | enter => exact appends_enter (fun _ => ⟨rfl, rfl⟩) s
  | say _ hentry =>
      refine .cons rfl ?_
      rename_i entry
      cases entry <;> first | exact ⟨rfl, rfl⟩ | cases hentry
  | stepping _ hentry =>
      refine .cons rfl ?_
      rename_i entry
      cases entry <;> first | exact ⟨rfl, rfl⟩ | cases hentry
  | report => exact absurd rfl hkind
  | arming | abandon | userEnabled | userDisabled | write | resume | release =>
      exact .cons rfl ⟨rfl, rfl⟩
  | force | lift => exact ⟨[_, _], rfl, by simp [Entry.opensReport, Entry.closesReport]⟩
  | book | threads | close | regs | task | take | insert | erase | save | arm | armWild
  | liftWild => exact .of_eq rfl

/-- No thread is resumed while a stop is reported. -/
theorem Move.appends_inspecting {kind : Kind} (hmove : Move arch env T kind s t)
    (hkind : kind ∈ inspecting) : Appends (fun entry => entry.isResumed = false) s t := by
  cases hmove with
  | enter => exact appends_enter (fun _ => rfl) s
  | say _ hentry =>
      refine .cons rfl ?_
      rename_i entry
      cases entry <;> first | rfl | cases hentry
  | lift => exact ⟨[_, _], rfl, by simp [Entry.isResumed]⟩
  | regs | insert | erase | liftWild => exact .of_eq rfl
  | _ => exact absurd hkind (by decide)

end Appends

/-! ### Reports as blocks -/

/-- Every report is a block of which `P` holds. -/
abbrev ReportsAre (P : Entry → List Entry → Prop) : List Entry → Prop :=
  Bracketed Entry.opensReport Entry.closesReport P

/-- The entry a report of the stop of `tid` begins with. -/
def State.reportOf (arch : Architecture R D) (s : State R D) (tid : Tid) : Entry :=
  .reporting tid (s.debugger.stopSignal tid) s.debugger.breakpoints (s.target.stoppedAt arch tid)

section Blocks

variable {P : Entry → List Entry → Prop}

theorem endState_reportStop (tid : Tid) (s : State R D) :
    (endState (reportStop arch env tid) s).log
      = .reported tid :: (endState (printStop arch env tid) (s.logged (s.reportOf arch tid))).log := by
  have hreport : reportStop arch env tid s
      = (onThrow (printStop arch env tid) (fun _ s => { s with log := .reported tid :: s.log })
          >>= fun _ => note (.reported tid)) (s.logged (s.reportOf arch tid)) := rfl
  unfold endState
  rw [hreport, bind_apply, onThrow]
  cases printStop arch env tid (s.logged (s.reportOf arch tid)) with
  | ok a t => rfl
  | error halt t => rfl

theorem Does.reportsAre {m : Dbg R D α} (hm : Does arch env ∅ kinds m) (hkinds : .report ∉ kinds) :
    Within (Keeps fun s : State R D =>
      WellFormed arch s.debugger.breakpoints ∧ ReportsAre P s.log) m := by
  rintro s ⟨hformed, hlog⟩
  obtain ⟨hmoves, hformed'⟩ := hm s hformed
  refine ⟨hformed', hmoves.preserve (I := fun u => ReportsAre P u.log) ?_ hlog⟩
  intro kind hkind u v hmove hu
  obtain ⟨newer, hnewer, hinside⟩ := hmove.appends fun hreport => hkinds (hreport ▸ hkind)
  rw [hnewer]
  exact hu.append hinside

variable (hP : ∀ (tid : Tid) (s : State R D) (block : List Entry),
  (endState (printStop arch env tid) s).log = block ++ s.log →
  WellFormed arch s.debugger.breakpoints → P (s.reportOf arch tid) block)

include hP

theorem reportStop_reportsAre (tid : Tid) :
    Within (Keeps fun s : State R D =>
      WellFormed arch s.debugger.breakpoints ∧ ReportsAre P s.log) (reportStop arch env tid) := by
  rintro s ⟨hformed, hlog⟩
  refine ⟨(does_reportStop (Environment.leavesText_empty env) tid s hformed).2, ?_⟩
  rw [endState_reportStop]
  obtain ⟨hmoves, -⟩ := does_printStop (Environment.leavesText_empty env) tid
    (s.logged (s.reportOf arch tid)) hformed
  have happends := hmoves.relate (Q := Appends fun entry =>
    entry.opensReport = false ∧ entry.closesReport = false) fun kind hkind u v hmove =>
      hmove.appends fun hreport => by
        subst hreport
        exact absurd hkind (by decide)
  obtain ⟨block, hblock, hinside⟩ := happends
  have hreport := hP tid (s.logged (s.reportOf arch tid)) block hblock hformed
  rw [hblock]
  exact .block rfl rfl hinside hreport hlog

theorem Visited.reportsAre {child : Tid} {target : Target R D} {s : State R D}
    (hs : Visited arch env (State.initial child target) s) : ReportsAre P s.log := by
  have henv := Environment.leavesText_empty env
  have hsteps : StepsWithin arch env ∅ (Keeps fun s : State R D =>
      WellFormed arch s.debugger.breakpoints ∧ ReportsAre P s.log) :=
    { running := fun hm => hm.reportsAre (by decide)
      stepOverBreakpoint := (does_stepOverBreakpoint henv).reportsAre (by decide)
      reportStop := reportStop_reportsAre hP
      writeUserWord := fun address value => (does_writeUserWord address value).reportsAre (by decide) }
  refine (hs.related (Q := Keeps fun s : State R D =>
    WellFormed arch s.debugger.breakpoints ∧ ReportsAre P s.log) ?_ ?_ ?_ ⟨wellFormed_empty, .nil⟩).2
  · exact (does_openSession henv).reportsAre (by decide)
  · exact (hsteps.commands henv).dispatch henv
  · exact (does_detach henv).reportsAre (by decide)

end Blocks

/-! ### What print_stop writes -/

section PrintStop

/-- A thread that is stopped stays as it is. -/
abbrev Environment.Steady (env : Environment R D) : Prop :=
  ∀ tick target, StopsKept target (env.interfere tick target).2

variable {tid : Tid} {s t : State R D}

/-- The program counter that is read is the one the thread stopped at. -/
theorem pc_of_stoppedAt (hsteady : env.Steady) {current found : Address}
    (hstopped : s.target.stoppedAt arch tid = some current)
    (hrun : pc arch env tid s = .ok found t) : found = current := by
  obtain ⟨task, htask, hflag, rfl⟩ := find?_of_stoppedAt hstopped
  obtain ⟨regs, u, hregs, hpure⟩ := of_bind_ok hrun
  rcases ptrace_cases env arch.getRegsOperation tid (fun task target => (task.regs, target)) s with
    ⟨task', htask', -, -, hok⟩ | ⟨-, herror⟩
  · obtain rfl := Option.some.inj ((hsteady _ _ tid task htask hflag).symm.trans htask')
    obtain ⟨rfl, rfl⟩ := EStateM.Result.ok.inj (hok.symm.trans hregs)
    exact (EStateM.Result.ok.inj hpure).1.symm
  · exact absurd (herror.symm.trans hregs) (by simp)

theorem announceRecord_appends {A : Entry → Prop} {candidate : Address}
    (htarget : ∀ event, A (.target event))
    (hact : ∀ entry, entry.isAct = true → entry.actsOn candidate = true → A entry) (tid : Tid)
    (r : Breakpoint) : Within (Appends A) (announceRecord env tid r candidate) := by
  have hQ := tolerates_appends env htarget
  have hacts : ∀ entry : Entry, entry.isAct = true ∧ entry.actsOn candidate = true → A entry :=
    fun entry h => hact entry h.1 h.2
  have hdisable : Within (Appends A) (disable env candidate) := by
    refine Within.get_bind fun u => ?_
    cases u.debugger.breakpoints.find? candidate with
    | none => exact .pure _
    | some r =>
        refine Within.ite (fun _ => .pure _) (fun _ => ?_) u
        refine Within.bind (hQ.writeBytes _ _) fun _ => Within.get_bind fun v => ?_
        refine Within.bind (hQ.note _ (hacts _ (by simp [Entry.isAct, Entry.actsOn]))) (fun _ => ?_) v
        exact Within.bind (appends_modifyDebugger _) fun _ =>
          hQ.note _ (hacts _ (by simp [Entry.isAct, Entry.actsOn]))
  refine Within.bind (hQ.print (hacts _ (by simp [Entry.isAct, Entry.actsOn]))) fun _ => ?_
  refine Within.bind (hQ.note _ (hacts _ (by simp [Entry.isAct, Entry.actsOn]))) fun _ => ?_
  refine Within.doIf fun _ => Within.bind (Within.bind hdisable fun _ => ?_) fun _ => ?_
  · exact appends_modifyDebugger _
  · exact hQ.print (hacts _ (by simp [Entry.isAct, Entry.actsOn]))

/-- All `print_stop` does about a record is at the record's address. -/
theorem announceHit_acts (tid : Tid) (r : Breakpoint) (candidate : Address) :
    Within (Appends fun entry => entry.isAct = true → entry.actsOn candidate = true)
      (announceHit arch env tid r candidate) := by
  let A : Entry → Prop := fun entry => entry.isAct = true → entry.actsOn candidate = true
  have htarget : ∀ event, A (.target event) := fun _ hact => by cases hact
  have hQ : Tolerates env A (Appends A) := tolerates_appends env htarget
  exact Within.bind (hQ.setPc fun _ => by simp [Entry.actsOn]) fun _ =>
    announceRecord_appends htarget (fun _ _ hactsOn _ => hactsOn) tid r

/-- A report acts on the record one trap's length behind the thread, and for `SIGTRAP` only. -/
def ActsOnRecord (arch : Architecture R D) : Entry → List Entry → Prop
  | .reporting _ signal breakpoints stoppedAt, block =>
      ∀ entry ∈ block, entry.isAct = true → signal = some sigtrap ∧
        ∀ current, stoppedAt = some current →
          breakpoints.contains (arch.candidate current) = true ∧
            entry.actsOn (arch.candidate current) = true
  | _, _ => True

theorem printStop_acts (hsteady : env.Steady) (tid : Tid) (s : State R D) (block : List Entry)
    (hblock : (endState (printStop arch env tid) s).log = block ++ s.log) :
    ActsOnRecord arch (s.reportOf arch tid) block := by
  let A : Entry → Prop := fun entry => entry.isAct = true →
    s.debugger.stopSignal tid = some sigtrap ∧
      ∀ current, s.target.stoppedAt arch tid = some current →
        s.debugger.breakpoints.contains (arch.candidate current) = true ∧
          entry.actsOn (arch.candidate current) = true
  have hQ : Tolerates env A (Appends A) := tolerates_appends env fun _ hact => by cases hact
  have hprint : ∀ message, Entry.isAct (.out message) = false →
      Within (Appends A) (print (R := R) (D := D) message) := fun message hmessage =>
    hQ.print fun hact => by rw [hmessage] at hact; cases hact
  suffices hwithin : WithinAt (Appends A) (printStop arch env tid) s from hwithin.all hblock
  refine WithinAt.get_bind ?_
  cases hsignal : s.debugger.stopSignal tid with
  | none => exact .pure _
  | some signal =>
      have hlocation : Within (Appends A) (attempt (printLocation arch env tid) fun _ => pure ⟨⟩) :=
        Within.rescue (hQ.printLocation (fun _ _ hact => by cases hact)
          (fun _ _ hact => by cases hact) tid) fun _ => .pure _
      dsimp only [printStopped]
      split
      · rename_i htrap
        refine WithinAt.bind (WithinAt.rescue ?_ fun _ => hprint _ rfl) fun _ t _ => hlocation t
        refine WithinAt.bind (hQ.peeks.pc tid s) fun found t hrun => ?_
        have hdebugger : t.debugger = s.debugger := ((sameDebugger env).peeks.pc tid).of_ok hrun
        refine WithinAt.bind (WithinAt.get_bind ?_) fun _ u _ => ?_
        · rw [hdebugger]
          cases hr : s.debugger.breakpoints.find? (arch.candidate found) with
          | none => exact .pure _
          | some r =>
              refine WithinAt.mono (announceHit_acts tid r (arch.candidate found) t) ?_
              refine fun _ _ hst => hst.mono fun entry hacts hact => ⟨htrap ▸ hsignal, ?_⟩
              intro current hstopped
              obtain rfl := pc_of_stoppedAt hsteady hstopped hrun
              exact ⟨SortedMap.contains_eq_true_iff.mpr ⟨r, hr⟩, hacts hact⟩
        · exact Within.get_bind (fun v => hQ.inspectWatchpoints (fun _ _ hact => by cases hact)
            tid _ v) u
      · split
        · exact WithinAt.bind (hprint _ rfl s) fun _ t _ => hlocation t
        · exact WithinAt.bind (hprint _ rfl s) fun _ t _ => hlocation t

/-- A report of a `SIGTRAP` sets the program counter back if there is a record, and resumes
nothing. -/
def Rewinds (arch : Architecture R D) : Entry → List Entry → Prop
  | .reporting tid signal breakpoints stoppedAt, block =>
      (∀ entry ∈ block, entry.isResumed = false) ∧
        (signal = some sigtrap → ∀ current, stoppedAt = some current →
          breakpoints.contains (arch.candidate current) = true →
            Entry.setPc tid (arch.candidate current) ∈ block)
  | _, _ => True

/-- The entry has been appended to the log. -/
def Wrote (entry : Entry) (s t : State R D) : Prop :=
  ∃ newer, t.log = newer ++ s.log ∧ entry ∈ newer

theorem Wrote.of_appends {entry : Entry} {u : State R D} (hst : Wrote entry s t)
    (htu : Appends (fun _ => True) t u) : Wrote entry s u := by
  obtain ⟨newer, hnewer, hmem⟩ := hst
  obtain ⟨newest, hnewest, -⟩ := htu
  exact ⟨newest ++ newer, by rw [hnewest, hnewer, List.append_assoc], List.mem_append_right _ hmem⟩

theorem setPc_wrote (arch : Architecture R D) (hreliable : env.Reliable) {task : Task R D} (value : Address)
    (htask : s.target.tasks.find? tid = some task) (hflag : task.stopped = true) :
    ∃ t, setPc arch env tid value s = .ok ⟨⟩ t ∧ Wrote (.setPc tid value) s t := by
  have hregs : getRegs arch env tid s = .ok task.regs (env.enter s) :=
    hreliable.ptrace htask hflag
  have hset : setRegs arch env tid (arch.setPc task.regs value) (env.enter s) = .ok ⟨⟩ _ :=
    hreliable.ptrace (hreliable.steady _ _ _ _ htask hflag) hflag
  have hQ : Tolerates env (fun _ => True) (Appends fun _ => True) :=
    tolerates_appends env fun _ => trivial
  obtain ⟨newer, hnewer, -⟩ := trans_of (Appends fun _ => True) ((hQ.request fun _ _ => rfl).of_ok hregs)
    ((hQ.request fun _ _ => rfl).of_ok hset)
  refine ⟨_, by rw [setPc, bind_ok hregs, bind_ok hset]; rfl, .setPc tid value :: newer, ?_,
    List.mem_cons_self⟩
  exact congrArg (List.cons _) hnewer

theorem printStop_rewinds (hreliable : env.Reliable) (tid : Tid) (s : State R D)
    (block : List Entry) (hblock : (endState (printStop arch env tid) s).log = block ++ s.log)
    (hformed : WellFormed arch s.debugger.breakpoints) :
    Rewinds arch (s.reportOf arch tid) block := by
  have hmoves := (does_printStop (Environment.leavesText_empty env) tid s hformed).1
  have hresumes := hmoves.relate (Q := Appends fun entry => entry.isResumed = false)
    fun kind hkind u v hmove => hmove.appends_inspecting hkind
  refine ⟨hresumes.all hblock, fun hsignal current hstopped hcontains => ?_⟩
  obtain ⟨r, hr⟩ := SortedMap.contains_eq_true_iff.mp hcontains
  obtain ⟨task, htask, hflag, rfl⟩ := find?_of_stoppedAt hstopped
  let entry := Entry.setPc tid (arch.candidate (arch.pc task.regs))
  suffices hwrote : Wrote entry s (endState (printStop arch env tid) s) by
    obtain ⟨newer, hnewer, hmem⟩ := hwrote
    rwa [List.append_cancel_right (hblock.symm.trans hnewer)]
  have hkeeps : ∀ {α : Type} {m : Dbg R D α}, Within (Appends fun _ => True) m →
      Triple (Wrote entry s) m (fun _ => Wrote entry s) (fun _ => Wrote entry s) := fun hm =>
    triple_of_within (hm.mono fun _ _ htu ht => ht.of_appends htu)
  have hQ : Tolerates env (fun _ => True) (Appends (R := R) (D := D) fun _ => True) :=
    tolerates_appends env fun _ => trivial
  -- From the moment the program counter is set, whatever happens only adds to the log.
  have hinspect : Triple (fun t => t = s) (inspectTrap arch env tid) (fun _ => Wrote entry s)
      (fun _ => Wrote entry s) := by
    rintro t rfl
    have hpc : pc arch env tid t = .ok (arch.pc task.regs) (env.enter t) := hreliable.pc htask hflag
    have htask' := hreliable.steady t.tick _ _ _ htask hflag
    obtain ⟨u, hset, newer, hnewer, hmem⟩ := setPc_wrote arch (s := env.enter t) hreliable
      (arch.candidate (arch.pc task.regs)) htask' hflag
    have hwrote : Wrote entry t u :=
      ⟨newer ++ _, by rw [hnewer, enter_log, List.append_assoc], List.mem_append_left _ hmem⟩
    have hfound : inspectBreakpoint arch env tid (arch.candidate (arch.pc task.regs)) (env.enter t)
        = announceRecord env tid r (arch.candidate (arch.pc task.regs)) u := by
      rw [inspectBreakpoint, get_bind_apply, enter_debugger, hr]
      exact bind_ok hset
    have hrest : Triple (Wrote entry t) (do
        announceRecord env tid r (arch.candidate (arch.pc task.regs))
        let v ← get
        inspectWatchpoints env tid v.debugger.watchpoints)
        (fun _ => Wrote entry t) (fun _ => Wrote entry t) :=
      hkeeps (Within.bind (announceRecord_appends (fun _ => trivial) (fun _ _ _ => trivial) tid r)
        fun _ => Within.get_bind fun v => hQ.inspectWatchpoints (fun _ _ => trivial) tid _ v)
    have hrun := hrest u hwrote
    rw [inspectTrap, bind_ok hpc]
    rw [bind_apply] at hrun ⊢
    rw [hfound]
    exact hrun
  have hstop : printStop arch env tid s = printStopped arch env tid sigtrap s := by
    rw [printStop, get_bind_apply, hsignal]
  have hreport : Triple (fun t => t = s) (printStopped arch env tid sigtrap)
      (fun _ => Wrote entry s) (fun _ => Wrote entry s) := by
    unfold printStopped
    rw [if_pos rfl]
    refine Triple.bind (Triple.rescue hinspect (fun _ _ _ => hkeeps (hQ.print trivial))
      fun _ _ _ ht => ht) fun _ => hkeeps ?_
    exact Within.rescue (hQ.printLocation (fun _ _ => trivial) (fun _ _ => trivial) tid)
      fun _ => .pure _
  rw [endState, hstop]
  exact hreport.endState rfl

end PrintStop

end Cosy
