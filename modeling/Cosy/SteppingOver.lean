import Cosy.Activations
import Cosy.SourceStep

/-!
# Stepping over calls

`next` is a source step: it lets the thread make single steps until the line is another one, and a
line of a function that is called is another one. What it looks at, and where the thread is when it
does, is followed from instruction to instruction here; then the activations are compared.
-/

namespace Cosy

open ByteMemory Effect

variable {R D : Type} {arch : Architecture R D} {machine : Machine R D} {program : Program R}
  {tid : Tid} {regs : R} {memory : Memory} {breakpoints : SortedMap Address Breakpoint}
  {text : Set Address} {fetched : Nat → Set Address} {shown : ModuleManager → Prop}
  {executed : List (Tid × Address)} {hits : List (Int × Address)} {task : Task R D} {d : Debugger}
  {m : Memory} {n : Nat}

/-! ### One iteration -/

/-- How many instructions have been executed after an iteration that begins after `n` of them. A
breakpoint that the thread is at is stepped over first; if there is another one at the next
instruction, the step executes its trap. -/
def Program.landing (program : Program R) (arch : Architecture R D) (regs : R) (memory : Memory)
    (breakpoints : SortedMap Address Breakpoint) (n : Nat) : Nat :=
  if program.meets arch regs memory breakpoints (program.past arch regs memory breakpoints n) then
    program.past arch regs memory breakpoints n
  else program.past arch regs memory breakpoints n + 1

/-- Whether the step executes a trap. -/
def Program.trapped (program : Program R) (arch : Architecture R D) (regs : R) (memory : Memory)
    (breakpoints : SortedMap Address Breakpoint) (n : Nat) : Bool :=
  program.meets arch regs memory breakpoints (program.past arch regs memory breakpoints n)

/-- The registers after the iteration. -/
def Program.landed (program : Program R) (arch : Architecture R D) (regs : R) (memory : Memory)
    (breakpoints : SortedMap Address Breakpoint) (n : Nat) : R :=
  let there := (program.after regs memory (program.landing arch regs memory breakpoints n)).1
  if program.trapped arch regs memory breakpoints n then
    arch.setPc there (arch.pcAfterTrap (arch.pc there))
  else there

theorem Program.landing_of_trapped (htrapped : program.trapped arch regs memory breakpoints n = true) :
    program.landing arch regs memory breakpoints n
      = program.past arch regs memory breakpoints n := if_pos htrapped

theorem Program.landing_of_not_trapped
    (htrapped : program.trapped arch regs memory breakpoints n = false) :
    program.landing arch regs memory breakpoints n
      = program.past arch regs memory breakpoints n + 1 := by
  unfold Program.trapped at htrapped
  rw [Program.landing, htrapped, if_neg Bool.false_ne_true]

theorem Program.landed_of_not_trapped
    (htrapped : program.trapped arch regs memory breakpoints n = false) :
    program.landed arch regs memory breakpoints n
      = (program.after regs memory (program.landing arch regs memory breakpoints n)).1 := by
  rw [Program.landed, htrapped]
  rfl

theorem Program.meets_empty : program.meets arch regs memory SortedMap.empty n = false := rfl

theorem Debugger.Standing.recordsStopped (hd : d.Standing tid breakpoints) :
    d.RecordsStopped tid := by
  obtain ⟨signal, hthreads⟩ := hd.threads
  exact ⟨_, by rw [hthreads, SortedMap.find?_insert_self], rfl⟩

/-- The stop of a step that is not reported is recorded only. -/
theorem sole_stopRecorded (hmachine : machine.RunsOnly tid shown) (hstopped : task.stopped = true)
    (hd : d.Standing tid breakpoints) :
    Triple (Sole machine tid shown executed hits task (d.resuming tid) m)
      (do
        noteConsumed arch .waitAndReport tid (.stopped sigtrap 0)
        handleEvent arch (machine.environment arch) tid (.stopped sigtrap 0) false)
      (fun _ s => ∃ modules, shown modules ∧
        Sole machine tid shown executed hits task ((d.resuming tid).atStop tid modules) m s)
      (fun _ _ => False) :=
  sole_stopConsumed (sole_refreshNothing hmachine hstopped hd)
    (Triple.doIf (fun hfalse => absurd hfalse Bool.false_ne_true) fun _ _ hs => hs)

variable (executed hits) in
/-- An iteration of the loop, up to where it looks at the line. -/
theorem RestsAt.instructionStep
    (hp : machine.program.Ordinary arch regs memory breakpoints text fetched)
    (hapart : ∀ key, ApartFrom arch breakpoints key) (hformed : WellFormed arch breakpoints)
    (hmachine : machine.RunsOnly tid shown)
    (hrests : RestsAt arch tid breakpoints (machine.program.after regs memory n) task d m) :
    ∃ executed' task' d' m',
      executed'.length + n
        = executed.length + machine.program.landing arch regs memory breakpoints n ∧
      RestsAt arch tid breakpoints (machine.program.landed arch regs memory breakpoints n,
        (machine.program.after regs memory
          (machine.program.landing arch regs memory breakpoints n)).2) task' d' m' ∧
      Triple (Sole machine tid shown executed hits task d m)
        (instructionStep arch (machine.environment arch) false)
        (fun _ s => ∃ modules, shown modules ∧
          Sole machine tid shown executed' hits task' ((d'.resuming tid).atStop tid modules) m' s)
        (fun _ _ => False) := by
  obtain ⟨executed₁, task₁, d₁, m₁, hlength, ⟨hregs, hstopped, hover, hd⟩, -, hstepOver⟩ :=
    hrests.stepOver executed hits hp hapart hformed hmachine
  have htrap := hp.trapAt hapart hover
  rw [← hregs] at htrap
  -- What the single step does, where it does it.
  obtain ⟨executed', task', m', hlength', hrests', hwait⟩ :
      ∃ executed' task' m',
        executed'.length + n
          = executed.length + machine.program.landing arch regs memory breakpoints n ∧
        RestsAt arch tid breakpoints (machine.program.landed arch regs memory breakpoints n,
          (machine.program.after regs memory
            (machine.program.landing arch regs memory breakpoints n)).2) task' d₁ m' ∧
        Triple (Sole machine tid shown executed₁ hits task₁.letGo (d₁.resuming tid) m₁)
          (waitForEvent (machine.environment arch))
          (fun event s => event = (tid, .stopped sigtrap 0) ∧
            Sole machine tid shown executed' hits task' (d₁.resuming tid) m' s)
          (fun _ _ => False) := by
    cases htrapped : machine.program.trapped arch regs memory breakpoints n with
    | true =>
        have hlanding := Program.landing_of_trapped htrapped
        refine ⟨executed₁, _, m₁, by rw [hlanding, hlength], ⟨?_, rfl, ?_, hd⟩,
          sole_trapped hmachine (htrap.trans htrapped)⟩
        · rw [Program.landed, htrapped, if_pos rfl, hlanding, ← hregs]
          rfl
        · rw [hlanding]
          exact hover
    | false =>
        have hlanding := Program.landing_of_not_trapped htrapped
        obtain ⟨m', hstep, hover'⟩ := hp.stepFree htrapped hover
        rw [← hregs] at hstep
        refine ⟨(tid, arch.pc task₁.regs) :: executed₁, _, m', ?_, ⟨?_, rfl, ?_, hd⟩,
          sole_executed hmachine (htrap.trans htrapped) hstep⟩
        · rw [hlanding, List.length_cons]
          omega
        · rw [Program.landed_of_not_trapped htrapped, hlanding]
          rfl
        · rw [hlanding]
          exact hover'
  refine ⟨executed', task', d₁, m', hlength', hrests', fun s hs => ?_⟩
  have halive : s.debugger.alive = true := by rw [hs.debugger, hrests.standing.alive]
  rw [Cosy.instructionStep, get_bind_apply, if_pos halive]
  exact Triple.bind hstepOver (fun _ => sole_stepAndReport hmachine hstopped hd.selected
    hd.recordsStopped hwait (sole_stopRecorded hmachine hrests'.stopped hd)) s hs

/-! ### The lines -/

/-- The lines of the addresses, as these modules tell them. -/
def ShowsLines (lines : Address → SourceLocation) (modules : ModuleManager) : Prop :=
  ∀ address, modules.location address = lines address

section Lines

variable {lines : Address → SourceLocation} {before : SourceLocation}

theorem sole_selectedLocation (hmachine : machine.RunsOnly tid shown)
    (hstopped : task.stopped = true) (hselected : d.selectedTid = tid)
    (hmodules : ShowsLines lines d.modules) :
    Triple (Sole machine tid shown executed hits task d m)
      (selectedLocation arch (machine.environment arch))
      (fun location s => location = lines (arch.pc task.regs) ∧
        Sole machine tid shown executed hits task d m s) (fun _ _ => False) := by
  intro s hs
  rw [selectedLocation, get_bind_apply, hs.debugger, hselected]
  refine Triple.bind (sole_pc hmachine hstopped) (fun value => ?_) s hs
  rintro t ⟨rfl, ht⟩
  rw [get_bind_apply, ht.debugger, hmodules]
  exact ⟨rfl, ht⟩

/-- Where the thread is once `print_stop` has looked for a breakpoint. -/
def Architecture.setBack (arch : Architecture R D) (breakpoints : SortedMap Address Breakpoint)
    (regs : R) : R :=
  if breakpoints.contains (arch.candidate (arch.pc regs)) then
    arch.setPc regs (arch.candidate (arch.pc regs))
  else regs

/-- The stop of the thread has been reported, which may have set it back. -/
theorem sole_reported (hmachine : machine.RunsOnly tid shown) (hstopped : task.stopped = true)
    (hselected : d.selectedTid = tid) (hsignal : d.stopSignal tid = some sigtrap)
    (hformed : WellFormed arch d.breakpoints) :
    Triple (Sole machine tid shown executed hits task d m)
      (reportStop arch (machine.environment arch) tid)
      (fun _ s => s.executions = executed ∧ ∃ task', s.target.tasks.find? tid = some task' ∧
        task'.stopped = true ∧ task'.regs = arch.setBack d.breakpoints task.regs)
      (fun _ _ => False) := by
  cases hr : d.breakpoints.find? (arch.candidate (arch.pc task.regs)) with
  | none =>
      have hinspect : Triple (Sole machine tid shown executed hits task d m)
          (inspectBreakpoint arch (machine.environment arch) tid
            (arch.candidate (arch.pc task.regs)))
          (fun _ => Sole machine tid shown executed hits task d m) (fun _ _ => False) := by
        intro s hs
        rw [inspectBreakpoint, get_bind_apply, hs.debugger, hr]
        exact hs
      refine (sole_reportStop hmachine hstopped hsignal hstopped
        (fun s hs => ⟨_, _, _, _, hs, fun _ ht => ht⟩) hinspect).post fun _ s hs => ?_
      have hmissed : arch.setBack d.breakpoints task.regs = task.regs := by
        rw [Architecture.setBack, SortedMap.contains_eq_false_iff.mpr hr, if_neg Bool.false_ne_true]
      exact ⟨hs.executions, task, hs.find?, hstopped, hmissed.symm⟩
  | some r =>
      refine (sole_reportStop hmachine hstopped hsignal (by exact hstopped)
        (fun s hs => ⟨_, _, _, _, hs, fun _ ht => ht⟩)
        (sole_announceHit hmachine hstopped hselected hformed hr)).post fun _ s hs => ?_
      have hfound : arch.setBack d.breakpoints task.regs
          = arch.setPc task.regs (arch.candidate (arch.pc task.regs)) := by
        rw [Architecture.setBack, if_pos (SortedMap.contains_eq_true_iff.mpr ⟨r, hr⟩)]
      exact ⟨hs.executions, _, hs.find?, hstopped, hfound.symm⟩

/-- After the report nothing else has been said. -/
theorem reportStop_head {s t : State R D} {env : Environment R D}
    (hrun : reportStop arch env tid s = .ok ⟨⟩ t) : t.log.head? = some (.reported tid) := by
  rw [reportStop, get_bind_apply] at hrun
  obtain ⟨_, _, -, hrun⟩ := of_bind_ok hrun
  obtain ⟨_, _, -, hrun⟩ := of_bind_ok hrun
  obtain ⟨-, rfl⟩ := EStateM.Result.ok.inj hrun
  rfl

/-! ### The loop -/

/-- How many instructions have been executed when the loop begins its `k`-th iteration. -/
def Program.looks (program : Program R) (arch : Architecture R D) (regs : R) (memory : Memory)
    (breakpoints : SortedMap Address Breakpoint) : Nat → Nat
  | 0 => 0
  | k + 1 => program.landing arch regs memory breakpoints
      (program.looks arch regs memory breakpoints k)

/-- Whether it finds the thread on the line at the end of this iteration. -/
def Program.staysAt (program : Program R) (arch : Architecture R D) (regs : R) (memory : Memory)
    (breakpoints : SortedMap Address Breakpoint) (lines : Address → SourceLocation)
    (before : SourceLocation) (k : Nat) : Bool :=
  (lines (arch.pc (program.landed arch regs memory breakpoints
    (program.looks arch regs memory breakpoints k)))).staysOn before

/-- The loop ends with this iteration, because the line is another one. -/
def Program.LeavesAt (program : Program R) (arch : Architecture R D) (regs : R) (memory : Memory)
    (breakpoints : SortedMap Address Breakpoint) (lines : Address → SourceLocation)
    (before : SourceLocation) (k : Nat) : Prop :=
  (∀ j < k, program.staysAt arch regs memory breakpoints lines before j = true) ∧
    program.staysAt arch regs memory breakpoints lines before k = false

theorem Program.LeavesAt.unique {k k' : Nat}
    (hk : program.LeavesAt arch regs memory breakpoints lines before k)
    (hk' : program.LeavesAt arch regs memory breakpoints lines before k') : k = k' := by
  rcases lt_trichotomy k k' with hlt | heq | hlt
  · cases hk.2.symm.trans (hk'.1 k hlt)
  · exact heq
  · cases hk'.2.symm.trans (hk.1 k' hlt)

/-- The line has been left with iteration `k`, and the stop has been reported. -/
structure ReportsLeft (arch : Architecture R D) (program : Program R) (regs : R) (memory : Memory)
    (breakpoints : SortedMap Address Breakpoint) (tid : Tid) (base k : Nat) (s : State R D) :
    Prop where
  executed : s.executions.length = base + program.looks arch regs memory breakpoints (k + 1)
  thread : ∃ task, s.target.tasks.find? tid = some task ∧ task.stopped = true ∧
    task.regs = arch.setBack breakpoints (program.landed arch regs memory breakpoints
      (program.looks arch regs memory breakpoints k))
  reported : s.log.head? = some (.reported tid)

variable (hp : machine.program.Ordinary arch regs memory breakpoints text fetched)
  (hapart : ∀ key, ApartFrom arch breakpoints key) (hformed : WellFormed arch breakpoints)
  (hmachine : machine.RunsOnly tid (ShowsLines lines))
  (hunhit : ∀ k,
    (∀ j ≤ k, machine.program.staysAt arch regs memory breakpoints lines before j = true) →
    machine.program.trapped arch regs memory breakpoints
      (machine.program.looks arch regs memory breakpoints k) = false)

include hp hapart hformed hmachine hunhit

/-- From its `k`-th iteration on, the loop goes to the first one that leaves the line, or makes as
many as it may. -/
theorem RestsAt.sourceStepFrom {base : Nat} (count : Nat) :
    ∀ (k : Nat) (executed : List (Tid × Address)) (task : Task R D) (d : Debugger) (m : Memory),
      RestsAt arch tid breakpoints (machine.program.after regs memory
        (machine.program.looks arch regs memory breakpoints k)) task d m →
      ShowsLines lines d.modules →
      executed.length = base + machine.program.looks arch regs memory breakpoints k →
      (∀ j < k, machine.program.staysAt arch regs memory breakpoints lines before j = true) →
      Triple (Sole machine tid (ShowsLines lines) executed hits task d m)
        (sourceStepFrom arch (machine.environment arch) before count)
        (fun _ s =>
          (∃ j < k + count,
            machine.program.LeavesAt arch regs memory breakpoints lines before j ∧
              ReportsLeft arch machine.program regs memory breakpoints tid base j s) ∨
          (∀ j < k + count,
            machine.program.staysAt arch regs memory breakpoints lines before j = true) ∧
              s.log.head? ≠ some (.reported tid))
        (fun _ _ => False) := by
  induction count with
  | zero =>
      intro k executed task d m hrests hmodules hlength hstays
      exact Triple.modify fun s hs => Or.inr ⟨hstays, by simp⟩
  | succ count ih =>
      intro k executed task d m hrests hmodules hlength hstays
      obtain ⟨executed', task', d', m', hlength', hrests', hstep⟩ :=
        hrests.instructionStep executed hits hp hapart hformed hmachine
      refine Triple.bind hstep fun _ => Triple.exists fun modules => ?_
      rintro s ⟨hshown, hs⟩
      have hstanding := hrests'.standing.atStop modules
      have halive : s.debugger.alive = true := by rw [hs.debugger, hstanding.alive]
      rw [get_bind_apply, if_pos halive]
      refine Triple.bind (sole_selectedLocation hmachine hrests'.stopped hstanding.selected hshown)
        (fun after => ?_) s hs
      rintro t ⟨rfl, ht⟩
      have hfound : ((lines (arch.pc task'.regs)).valid
            && (lines (arch.pc task'.regs)).sameLine before)
          = machine.program.staysAt arch regs memory breakpoints lines before k := by
        rw [hrests'.registers]
        rfl
      rw [hfound]
      have hexecuted : executed'.length
          = base + machine.program.looks arch regs memory breakpoints (k + 1) := by
        rw [Program.looks]
        omega
      cases hline : machine.program.staysAt arch regs memory breakpoints lines before k with
      | true =>
          -- No trap has been executed, so the next iteration begins where this one ends.
          have hstays' : ∀ j < k + 1,
              machine.program.staysAt arch regs memory breakpoints lines before j = true := by
            intro j hj
            rcases Nat.lt_succ_iff_lt_or_eq.mp hj with hlt | rfl
            · exact hstays j hlt
            · exact hline
          have hfree := hunhit k fun j hj => hstays' j (Nat.lt_succ_of_le hj)
          rw [if_pos rfl]
          have hnext : RestsAt arch tid breakpoints (machine.program.after regs memory
              (machine.program.looks arch regs memory breakpoints (k + 1))) task'
              ((d'.resuming tid).atStop tid modules) m' := by
            refine ⟨?_, hrests'.stopped, hrests'.overlaid, hstanding⟩
            rw [hrests'.registers]
            exact Program.landed_of_not_trapped hfree
          have hcount : k + 1 + count = k + (count + 1) := by omega
          rw [← hcount]
          exact ih (k + 1) executed' task' _ m' hnext hshown hexecuted hstays' t ht
      | false =>
          obtain ⟨⟨⟩, u, hrun, hexecuted', hthread⟩ := (sole_reported hmachine hrests'.stopped
            hstanding.selected ((d'.resuming tid).stopSignal_recording modules
              hrests'.standing.alive) (hstanding.breakpoints ▸ hformed)).exists_ok ht
          rw [if_neg Bool.false_ne_true, get_bind_apply, ht.debugger, hstanding.selected, hrun]
          rw [hstanding.breakpoints, hrests'.registers] at hthread
          refine Or.inl ⟨k, by omega, ⟨hstays, hline⟩, ?_, hthread, reportStop_head hrun⟩
          rw [hexecuted', hexecuted]

end Lines

/-! ### The command -/

/-- After `n` instructions the calls of the line are over: the program is in the activation it was in,
at another location, or it has returned to the caller. -/
def Program.SteppedOver (program : Program R) (arch : Architecture R D) (flow : R → Memory → Flow)
    (regs : R) (memory : Memory) (lines : Address → SourceLocation) (n : Nat) : Prop :=
  program.InCaller flow regs memory 0 n ∧
      (lines (arch.pc (program.after regs memory n).1)).staysOn (lines (arch.pc regs)) = false ∨
    program.InCaller flow regs memory 1 n

/-- `print_stop` leaves the thread at the instruction it has come to: it has executed the trap there,
or there is no record where the breakpoint is looked for that has stopped it, or it is looked for at
that instruction. -/
def Program.StaysPut (program : Program R) (arch : Architecture R D) (regs : R) (memory : Memory)
    (breakpoints : SortedMap Address Breakpoint) (n : Nat) : Prop :=
  let there := arch.pc (program.after regs memory (program.landing arch regs memory breakpoints n)).1
  program.trapped arch regs memory breakpoints n = true ∨ arch.candidate there = there ∨
    breakpoints.contains (arch.candidate there) = false

theorem setBack_landed_iff (hpc : arch.LawfulPc) :
    arch.setBack breakpoints (program.landed arch regs memory breakpoints n)
        = (program.after regs memory (program.landing arch regs memory breakpoints n)).1 ↔
      program.StaysPut arch regs memory breakpoints n := by
  unfold Program.StaysPut
  dsimp only
  cases htrapped : program.trapped arch regs memory breakpoints n with
  | true =>
      refine iff_of_true ?_ (Or.inl rfl)
      have hlanding := Program.landing_of_trapped htrapped
      obtain ⟨r, hr, -⟩ := Program.meets_iff.mp htrapped
      have hrecord := SortedMap.contains_eq_true_iff.mpr ⟨r, hr⟩
      rw [← hlanding] at hrecord
      simp only [Program.landed, htrapped, if_true, Architecture.setBack, arch.pc_setPc,
        Architecture.candidate_pcAfterTrap, hrecord]
      rw [hpc.setPc_setPc, hpc.setPc_pc]
  | false =>
      rw [Program.landed_of_not_trapped htrapped, Architecture.setBack]
      cases hrecord : breakpoints.contains (arch.candidate (arch.pc
          (program.after regs memory (program.landing arch regs memory breakpoints n)).1)) with
      | false => exact iff_of_true rfl (Or.inr (Or.inr rfl))
      | true =>
          rw [if_pos rfl]
          constructor
          · intro hback
            refine Or.inr (Or.inl ?_)
            have hpcs := congrArg arch.pc hback
            rwa [arch.pc_setPc] at hpcs
          · rintro (hfalse | hsame | hfalse)
            · cases hfalse
            · rw [hsame, hpc.setPc_pc]
            · cases hfalse

/-- A state that stands there shows these lines. -/
theorem StandsAt.sole_lines {s : State R D} {current : R × Memory} {lines : Address → SourceLocation}
    (hs : StandsAt arch machine tid breakpoints current s)
    (hmachine : machine.RunsOnly tid (ShowsLines lines))
    (hmaps : ∃ modules, ShowsLines lines modules ∧ s.target.maps = some modules) :
    ∃ task, RestsAt arch tid breakpoints current task s.debugger s.target.memory ∧
      Sole machine tid (ShowsLines lines) s.executions s.hits task s.debugger s.target.memory s := by
  obtain ⟨task, hrests, hsole⟩ := hs.sole
  exact ⟨task, hrests, hsole.tasks, hsole.ready, rfl, rfl, mapsAfter_some (hmachine.only _) hmaps, rfl,
    rfl⟩

/-- As long as no trap is executed on the line, `next` has stepped over its calls exactly if this is
so at the first instruction it looks at that is on another line, or on none, and the report of the
stop does not move the thread. -/
theorem sourceStep_stepsOver_iff {flow : R → Memory → Flow} {lines : Address → SourceLocation}
    {s : State R D} (hpc : arch.LawfulPc)
    (hs : StandsAt arch machine tid s.debugger.breakpoints (regs, memory) s)
    (hformed : WellFormed arch s.debugger.breakpoints)
    (hapart : ∀ key, ApartFrom arch s.debugger.breakpoints key)
    (hp : machine.program.Ordinary arch regs memory s.debugger.breakpoints text fetched)
    (hmachine : machine.RunsOnly tid (ShowsLines lines))
    (hmaps : ∃ modules, ShowsLines lines modules ∧ s.target.maps = some modules)
    (hmodules : ShowsLines lines s.debugger.modules) (hvalid : (lines (arch.pc regs)).valid = true)
    (hunhit : ∀ k, (∀ j ≤ k, machine.program.staysAt arch regs memory s.debugger.breakpoints lines
        (lines (arch.pc regs)) j = true) →
      machine.program.trapped arch regs memory s.debugger.breakpoints
        (machine.program.looks arch regs memory s.debugger.breakpoints k) = false) :
    (∃ t n, sourceStep arch (machine.environment arch) s = .ok ⟨⟩ t ∧
        StopsAt machine.program regs memory tid n s t ∧ t.log.head? = some (.reported tid) ∧
        machine.program.SteppedOver arch flow regs memory lines n) ↔
      ∃ k < sourceStepLimit,
        machine.program.LeavesAt arch regs memory s.debugger.breakpoints lines
          (lines (arch.pc regs)) k ∧
        machine.program.SteppedOver arch flow regs memory lines
          (machine.program.looks arch regs memory s.debugger.breakpoints (k + 1)) ∧
        machine.program.StaysPut arch regs memory s.debugger.breakpoints
          (machine.program.looks arch regs memory s.debugger.breakpoints k) := by
  obtain ⟨task, hrests, hsole⟩ := hs.sole_lines hmachine hmaps
  -- The line is read, and the loop begins.
  have hspec : Triple (Sole machine tid (ShowsLines lines) s.executions s.hits task s.debugger
        s.target.memory)
      (sourceStep arch (machine.environment arch))
      (fun _ t =>
        (∃ k < 0 + sourceStepLimit,
          machine.program.LeavesAt arch regs memory s.debugger.breakpoints lines
              (lines (arch.pc regs)) k ∧
            ReportsLeft arch machine.program regs memory s.debugger.breakpoints tid
              s.executions.length k t) ∨
        (∀ k < 0 + sourceStepLimit, machine.program.staysAt arch regs memory s.debugger.breakpoints
          lines (lines (arch.pc regs)) k = true) ∧ t.log.head? ≠ some (.reported tid))
      (fun _ _ => False) := by
    refine Triple.bind (sole_selectedLocation hmachine hrests.stopped hrests.standing.selected
      hmodules) fun before => ?_
    rintro t ⟨rfl, ht⟩
    rw [hrests.registers, if_pos hvalid]
    exact RestsAt.sourceStepFrom hp hapart hformed hmachine hunhit sourceStepLimit 0 s.executions task
      s.debugger s.target.memory hrests hmodules rfl (fun j hj => absurd hj (Nat.not_lt_zero j)) t ht
  rw [Nat.zero_add] at hspec
  obtain ⟨⟨⟩, t, hrun, hend⟩ := hspec.exists_ok hsole
  constructor
  · rintro ⟨t', n, hrun', hstops, hreported, hover⟩
    obtain rfl : t = t' := by simpa using hrun.symm.trans hrun'
    rcases hend with ⟨k, hk, hleaves, hleft⟩ | ⟨-, hsilent⟩
    · have hn : n = machine.program.looks arch regs memory s.debugger.breakpoints (k + 1) := by
        have hcount := hstops.executed.symm.trans hleft.executed
        omega
      subst hn
      refine ⟨k, hk, hleaves, hover, (setBack_landed_iff hpc).mp ?_⟩
      obtain ⟨task₁, hfind₁, -, hregs₁⟩ := hstops.thread
      obtain ⟨task₂, hfind₂, -, hregs₂⟩ := hleft.thread
      obtain rfl := Option.some.inj (hfind₁.symm.trans hfind₂)
      exact hregs₂.symm.trans hregs₁
    · exact absurd hreported hsilent
  · rintro ⟨k, hk, hleaves, hover, hput⟩
    rcases hend with ⟨k', -, hleaves', hleft⟩ | ⟨hstays, -⟩
    · obtain rfl := hleaves.unique hleaves'
      obtain ⟨task', hfind, hstopped, hregs⟩ := hleft.thread
      refine ⟨t, _, hrun, ⟨hleft.executed, task', hfind, hstopped, ?_⟩, hleft.reported, hover⟩
      rw [hregs, (setBack_landed_iff hpc).mpr hput]
      rfl
    · cases hleaves.2.symm.trans (hstays k hk)

/-! ### A line with a call -/

/-- The call is on line 20, and what follows it on line 21. -/
def callingLines (callee : Int) : ModuleManager :=
  { ModuleManager.unloaded with
    location := fun address => ⟨"calls.c".toList,
      if address.toNat < 0x2009 then 20 else if address.toNat < 0x3000 then 21 else callee, 0, []⟩ }

/-- The registers and the memory at the call. -/
def callRegs : UserRegs := (callingCode.program.after callingRegs nopText 3).1

def callMemory : Memory := (callingCode.program.after callingRegs nopText 3).2

/-- The thread is stopped there, and the function it calls is on the same line. -/
def atCall : State UserRegs X86_64.DebugRegisters where
  debugger := { Debugger.fresh 1 with
    selectedTid := 1
    threads := SortedMap.empty.insert 1 ⟨1, true, sigtrap⟩
    modules := callingLines 20 }
  target := { nopTarget 1 with
    memory := callMemory
    tasks := SortedMap.empty.insert 1 { stoppedTask 0x1000 with regs := callRegs }
    ready := []
    maps := some (callingLines 20) }
  tick := 0
  log := []

theorem ordinary_call :
    callingCode.program.Ordinary x86_64 callRegs callMemory SortedMap.empty ∅
      (fun n => {(callingCode.program.after callRegs callMemory n).1.rip}) := by
  have hfixed : callingCode.program.after callRegs callMemory 9
      = callingCode.program.after callRegs callMemory 8 := Prod.ext (by decide +kernel) rfl
  have hquiet : ∀ n < 9, x86_64.trapAt (callingCode.program.after callRegs callMemory n).2
      (callingCode.program.after callRegs callMemory n).1.rip = false := by decide +kernel
  refine FrameCode.ordinary (fun _ x hx => absurd hx (Set.notMem_empty x)) (fun n => ?_)
    fun key r hr => by cases hr
  exact Program.after_forall (p := fun current => x86_64.trapAt current.2 current.1.rip = false)
    hfixed hquiet n

/-- The call is stepped over: every instruction of the function is on the line. -/
theorem sourceStep_stepsOver_call :
    ∃ t n, sourceStep x86_64 (calling.environment x86_64) atCall = .ok ⟨⟩ t ∧
      StopsAt callingCode.program callRegs callMemory 1 n atCall t ∧
      t.log.head? = some (.reported 1) ∧
      callingCode.program.SteppedOver x86_64 callingCode.flow callRegs callMemory
        (callingLines 20).location n := by
  have hstands : StandsAt x86_64 calling 1 atCall.debugger.breakpoints (callRegs, callMemory)
      atCall := {
    thread := ⟨_, rfl, rfl, rfl⟩
    consumed := rfl
    maps := rfl
    overlaid := overlaid_empty _ _
    debugger := ⟨rfl, rfl, ⟨sigtrap, rfl⟩, rfl, rfl⟩ }
  have hleaves : callingCode.program.LeavesAt x86_64 callRegs callMemory SortedMap.empty
      (callingLines 20).location ((callingLines 20).location (x86_64.pc callRegs)) 5 :=
    ⟨by decide +kernel, by decide +kernel⟩
  have hlooks : callingCode.program.looks x86_64 callRegs callMemory SortedMap.empty 6 = 6 := by
    decide +kernel
  have hover : callingCode.program.SteppedOver x86_64 callingCode.flow callRegs callMemory
      (callingLines 20).location 6 := Or.inl ⟨by decide +kernel, by decide +kernel⟩
  have hvalid : ((callingLines 20).location (x86_64.pc callRegs)).valid = true := by decide +kernel
  refine (sourceStep_stepsOver_iff x86_64_lawfulPc hstands wellFormed_empty
    (fun _ _ _ _ _ hne => apart_one hne.symm) ordinary_call (calling_runsOnly _)
    ⟨callingLines 20, fun _ => rfl, rfl⟩ (fun _ => rfl) hvalid fun _ _ => Program.meets_empty).mpr ?_
  refine ⟨5, by decide, hleaves, ?_, Or.inr (Or.inr SortedMap.contains_empty)⟩
  exact hlooks.symm ▸ hover

/-- With the function on a line of its own, `next` stops at its first instruction, though it would
return to the line below the call. -/
theorem next_stops_in_callee :
    ∃ s, Prompt x86_64 (calling.environment x86_64)
        (State.initial 1 { callingTarget with maps := some (callingLines 30) }) s ∧
      StandsAt x86_64 calling 1 s.debugger.breakpoints (s.onlyRegs, s.originalMemory) s ∧
      s.debugger.breakpoints = SortedMap.empty ∧ callingCode.FollowsConvention ∧
      calling.RunsOnly 1 (fun _ => True) ∧
      (s.debugger.modules.location (x86_64.pc s.onlyRegs)).valid = true ∧
      callingCode.program.SteppedOver x86_64 callingCode.flow s.onlyRegs s.originalMemory
        s.debugger.modules.location 6 ∧
      ¬ ∃ t n, sourceStep x86_64 (calling.environment x86_64) s = .ok ⟨⟩ t ∧
        StopsAt callingCode.program s.onlyRegs s.originalMemory 1 n s t ∧
        t.log.head? = some (.reported 1) ∧
        callingCode.program.SteppedOver x86_64 callingCode.flow s.onlyRegs s.originalMemory
          s.debugger.modules.location n := by
  obtain ⟨s, hs, hcheck⟩ := Prompt.exists_of_runBatch x86_64 (calling.environment x86_64)
    (State.initial 1 { callingTarget with maps := some (callingLines 30) })
    ["b *0x2004".toList, "continue".toList, "delete 1".toList]
    (p := fun s => standsStopped calling s && s.debugger.breakpoints.entries.isEmpty &&
      (s.debugger.modules.location (x86_64.pc s.onlyRegs)).valid &&
      decide (callingCode.program.InCaller callingCode.flow s.onlyRegs s.originalMemory 0 6) &&
      !(s.debugger.modules.location (x86_64.pc (callingCode.program.after s.onlyRegs
        s.originalMemory 6).1)).staysOn (s.debugger.modules.location (x86_64.pc s.onlyRegs)) &&
      decide (callingCode.program.depth callingCode.flow s.onlyRegs s.originalMemory 1 = 1) &&
      decide ((endState (sourceStep x86_64 (calling.environment x86_64)) s).executions.length
        = s.executions.length + 1)) (by decide +kernel)
  simp only [Bool.and_eq_true, decide_eq_true_eq, Bool.not_eq_true'] at hcheck
  obtain ⟨⟨⟨⟨⟨⟨hstands, hnone⟩, hvalid⟩, hcaller⟩, hother⟩, hdeeper⟩, hone⟩ := hcheck
  refine ⟨s, hs, standsAt_of_standsStopped hstands, SortedMap.ext (List.isEmpty_iff.mp hnone),
    FrameCode.followsConvention_of_conventional (by decide), calling_runsOnly _, hvalid,
    Or.inl ⟨hcaller, hother⟩, ?_⟩
  rintro ⟨t, n, hrun, hstops, -, hover⟩
  rw [endState_of_ok hrun] at hone
  have hexecuted := hstops.executed
  obtain rfl : n = 1 := by omega
  rcases hover with ⟨hwithin, -⟩ | hreturned
  · cases hdeeper.symm.trans hwithin.1
  · cases hdeeper.symm.trans hreturned.1

end Cosy
