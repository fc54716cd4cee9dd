import Mathlib.Data.Nat.Count
import Cosy.SingleStep

/-!
# Continuing

Breakpoint by breakpoint, `continue` follows the program. Left to itself the program would go
through certain registers and memories; the one that is debugged stops at those of them that are at
an enabled breakpoint, in their order, and nothing but the traps tells the two apart.
-/

namespace Cosy

open ByteMemory Effect

variable {R D : Type} {arch : Architecture R D}

/-! ### The program left to itself -/

/-- The registers and the memory after so many instructions. -/
def Program.after (program : Program R) (regs : R) (memory : Memory) : Nat → R × Memory
  | 0 => (regs, memory)
  | n + 1 => program.step (program.after regs memory n).1 (program.after regs memory n).2

/-- A memory that has the same data after so many instructions, and the same bytes of the next
one. -/
def Program.SameTo (program : Program R) (regs : R) (memory : Memory) (text : Set Address)
    (fetched : Nat → Set Address) (n : Nat) (memory' : Memory) : Prop :=
  ∀ x, x ∉ text ∨ x ∈ fetched n → memory' x = (program.after regs memory n).2 x

/-- A program that neither reads nor writes its own text, but for the bytes of the instruction it
executes, and that never meets a trap of its own. The breakpoints are where instructions begin. -/
structure Program.Ordinary (program : Program R) (arch : Architecture R D) (regs : R)
    (memory : Memory) (breakpoints : SortedMap Address Breakpoint) (text : Set Address)
    (fetched : Nat → Set Address) : Prop where
  reads : ∀ n memory', program.SameTo regs memory text fetched n memory' →
    (program.step (program.after regs memory n).1 memory').1
        = (program.after regs memory (n + 1)).1 ∧
      ∀ x, x ∉ text → (program.step (program.after regs memory n).1 memory').2 x
        = (program.after regs memory (n + 1)).2 x
  writes : ∀ n memory', program.SameTo regs memory text fetched n memory' →
    ∀ x ∈ text, (program.step (program.after regs memory n).1 memory').2 x = memory' x
  quiet : ∀ n, arch.trapAt (program.after regs memory n).2
    (arch.pc (program.after regs memory n).1) = false
  inText : ∀ key r, breakpoints.find? key = some r → ∀ x, (x - key).toNat < arch.breakpointSize →
    x ∈ text
  starts : ∀ key r, breakpoints.find? key = some r → ∀ n x, (x - key).toNat < arch.breakpointSize →
    x ∈ fetched n → key = arch.pc (program.after regs memory n).1

section Ordinary

variable {program : Program R} {regs : R} {memory : Memory}
  {breakpoints : SortedMap Address Breakpoint} {text : Set Address} {fetched : Nat → Set Address}

theorem Program.Ordinary.keeps
    (hp : program.Ordinary arch regs memory breakpoints text fetched) (n : Nat) {x : Address}
    (hx : x ∈ text) : (program.after regs memory (n + 1)).2 x = (program.after regs memory n).2 x :=
  hp.writes n _ (fun _ _ => rfl) x hx

theorem Program.Ordinary.mem_text
    (hp : program.Ordinary arch regs memory breakpoints text fetched) {key : Address}
    {r : Breakpoint} (hr : breakpoints.find? key = some r) {i : Nat}
    (hi : i < arch.breakpointSize) : key + BitVec.ofNat 64 i ∈ text := by
  refine hp.inText key r hr _ ?_
  rwa [add_sub_toNat key (hi.trans (breakpointSize_lt arch))]

/-- What the trap of a breakpoint hides stays as it is. -/
theorem Program.Ordinary.bytesAt_after
    (hp : program.Ordinary arch regs memory breakpoints text fetched) {key : Address}
    {r : Breakpoint} (hr : breakpoints.find? key = some r) (n : Nat) :
    bytesAt (program.after regs memory (n + 1)).2 key arch.breakpointSize
      = bytesAt (program.after regs memory n).2 key arch.breakpointSize :=
  bytesAt_congr fun _ hi => hp.keeps n (hp.mem_text hr hi)

/-- With traps put in elsewhere, an instruction does what it would have done. -/
theorem Program.Ordinary.step
    (hp : program.Ordinary arch regs memory breakpoints text fetched) {n : Nat}
    {lifted : SortedMap Address Breakpoint}
    (hlifted : ∀ key r, lifted.find? key = some r → r.enabled = true →
      breakpoints.find? key = some r ∧ key ≠ arch.pc (program.after regs memory n).1)
    {memory' : Memory}
    (hover : Overlaid arch lifted (program.after regs memory n).2 memory') :
    ∃ memory'', program.step (program.after regs memory n).1 memory'
        = ((program.after regs memory (n + 1)).1, memory'') ∧
      Overlaid arch lifted (program.after regs memory (n + 1)).2 memory'' := by
  have hsame : program.SameTo regs memory text fetched n memory' := by
    intro x hx
    refine hover.rest x fun key r hr henabled hin => ?_
    obtain ⟨hr, hne⟩ := hlifted key r hr henabled
    rcases hx with hout | hfetched
    · exact hout (hp.inText key r hr x hin)
    · exact hne (hp.starts key r hr n x hin hfetched)
  refine ⟨(program.step (program.after regs memory n).1 memory').2,
    Prod.ext (hp.reads n _ hsame).1 rfl, fun key r hr henabled => ?_, fun key r hr henabled => ?_,
    fun x hx => ?_⟩
  · rw [hover.saved key r hr henabled, hp.bytesAt_after (hlifted key r hr henabled).1]
  · rw [← hover.trap key r hr henabled]
    exact bytesAt_congr fun _ hi =>
      hp.writes n _ hsame _ (hp.mem_text (hlifted key r hr henabled).1 hi)
  · by_cases hin : x ∈ text
    · calc (program.step (program.after regs memory n).1 memory').2 x
          = memory' x := hp.writes n _ hsame x hin
        _ = (program.after regs memory n).2 x := hover.rest x hx
        _ = (program.after regs memory (n + 1)).2 x := (hp.keeps n hin).symm
    · exact (hp.reads n _ hsame).2 x hin

/-- Whether the program is at an enabled breakpoint after so many instructions. -/
def Program.meets (program : Program R) (arch : Architecture R D) (regs : R) (memory : Memory)
    (breakpoints : SortedMap Address Breakpoint) (n : Nat) : Bool :=
  (breakpoints.find? (arch.pc (program.after regs memory n).1)).any Breakpoint.enabled

theorem Program.meets_iff {n : Nat} :
    program.meets arch regs memory breakpoints n = true ↔
      ∃ r, breakpoints.find? (arch.pc (program.after regs memory n).1) = some r ∧
        r.enabled = true := Option.any_eq_true _ _

/-- The trap of a breakpoint is executed where the program is at an enabled one. -/
theorem Program.Ordinary.trapAt
    (hp : program.Ordinary arch regs memory breakpoints text fetched)
    (hapart : ∀ key, ApartFrom arch breakpoints key) {n : Nat} {memory' : Memory}
    (hover : Overlaid arch breakpoints (program.after regs memory n).2 memory') :
    arch.trapAt memory' (arch.pc (program.after regs memory n).1)
      = program.meets arch regs memory breakpoints n := by
  cases hmeets : program.meets arch regs memory breakpoints n with
  | true =>
      obtain ⟨r, hr, henabled⟩ := Program.meets_iff.mp hmeets
      exact decide_eq_true (hover.trap _ r hr henabled)
  | false =>
      have hbytes := hover.bytesAt_eq (hapart _) fun r hr =>
        Bool.eq_false_iff.mpr fun henabled => by
          rw [Program.meets_iff.mpr ⟨r, hr, henabled⟩] at hmeets
          cases hmeets
      have hquiet := hp.quiet n
      unfold Architecture.trapAt at hquiet ⊢
      rwa [hbytes]

/-- Elsewhere an instruction of the program is. -/
theorem Program.Ordinary.stepFree
    (hp : program.Ordinary arch regs memory breakpoints text fetched) {n : Nat}
    (hmeets : program.meets arch regs memory breakpoints n = false) {memory' : Memory}
    (hover : Overlaid arch breakpoints (program.after regs memory n).2 memory') :
    ∃ memory'', program.step (program.after regs memory n).1 memory'
        = ((program.after regs memory (n + 1)).1, memory'') ∧
      Overlaid arch breakpoints (program.after regs memory (n + 1)).2 memory'' := by
  refine hp.step (fun key r hr henabled => ⟨hr, ?_⟩) hover
  rintro rfl
  rw [Program.meets_iff.mpr ⟨r, hr, henabled⟩] at hmeets
  cases hmeets

/-! ### While the thread runs -/

variable {tid : Tid} {task : Task R D} {target : Target R D} {n : Nat}

/-- The thread runs, `n` instructions into the program, and the traps are over the memory. -/
structure RunsAt (arch : Architecture R D) (program : Program R) (regs : R) (memory : Memory)
    (breakpoints : SortedMap Address Breakpoint) (tid : Tid) (n : Nat) (task : Task R D)
    (target : Target R D) : Prop where
  tasks : target.tasks = SortedMap.empty.insert tid task
  registers : task.regs = (program.after regs memory n).1
  running : task.stopped = false
  cont : task.stepping = false
  overlaid : Overlaid arch breakpoints (program.after regs memory n).2 target.memory

theorem RunsAt.trapAt (hp : program.Ordinary arch regs memory breakpoints text fetched)
    (hapart : ∀ key, ApartFrom arch breakpoints key)
    (ht : RunsAt arch program regs memory breakpoints tid n task target) :
    arch.trapAt target.memory (arch.pc task.regs)
      = program.meets arch regs memory breakpoints n := by
  rw [ht.registers]
  exact hp.trapAt hapart ht.overlaid

/-- Where there is no breakpoint the thread executes an instruction of the program. -/
theorem RunsAt.executes (hp : program.Ordinary arch regs memory breakpoints text fetched)
    (hapart : ∀ key, ApartFrom arch breakpoints key)
    (ht : RunsAt arch program regs memory breakpoints tid n task target)
    (hmeets : program.meets arch regs memory breakpoints n = false) :
    ∃ task', (runTask arch program target tid task).1 = [.executed tid (arch.pc task.regs)] ∧
      RunsAt arch program regs memory breakpoints tid (n + 1) task'
        (runTask arch program target tid task).2 ∧
      (runTask arch program target tid task).2.ready = target.ready := by
  obtain ⟨memory', hstep, hover⟩ := hp.stepFree hmeets ht.overlaid
  have htrap := ht.trapAt hp hapart
  rw [hmeets] at htrap
  have hrun : runTask arch program target tid task =
      ([.executed tid (arch.pc task.regs)],
      { target with
        memory := memory'
        image := imageAfter target.memory memory' target.image
        tasks := target.tasks.insert tid
          { task with regs := (program.after regs memory (n + 1)).1 } }) := by
    rw [← ht.registers] at hstep
    unfold runTask
    simp only [htrap, Bool.false_eq_true, if_false, hstep, ht.cont, Target.setTask]
  rw [hrun]
  refine ⟨{ task with regs := (program.after regs memory (n + 1)).1 }, rfl,
    ⟨?_, rfl, ht.running, ht.cont, hover⟩, rfl⟩
  rw [ht.tasks]
  exact SortedMap.insert_insert_self _ _ _ _

/-- At a breakpoint it executes the trap. -/
theorem RunsAt.traps (hp : program.Ordinary arch regs memory breakpoints text fetched)
    (hapart : ∀ key, ApartFrom arch breakpoints key)
    (ht : RunsAt arch program regs memory breakpoints tid n task target)
    (hmeets : program.meets arch regs memory breakpoints n = true) :
    runTask arch program target tid task
      = ([.trapped tid (arch.pc task.regs)],
        target.halt tid (task.trapped (arch.setPc task.regs (arch.pcAfterTrap (arch.pc task.regs))))
          (.stopped sigtrap 0)) := by
  have htrap := ht.trapAt hp hapart
  rw [hmeets] at htrap
  unfold runTask
  simp only [htrap, if_true]
  rfl

/-- The thread has come to an enabled breakpoint, `n` instructions into the program, and has
executed its trap. -/
structure TrapsAt (arch : Architecture R D) (program : Program R) (regs : R) (memory : Memory)
    (breakpoints : SortedMap Address Breakpoint) (n : Nat) (task : Task R D) (memory' : Memory) :
    Prop where
  meets : program.meets arch regs memory breakpoints n = true
  registers : task.regs = arch.setPc (program.after regs memory n).1
    (arch.pcAfterTrap (arch.pc (program.after regs memory n).1))
  stopped : task.stopped = true
  overlaid : Overlaid arch breakpoints (program.after regs memory n).2 memory'

def Action.isRun : Action R D → Bool
  | .run _ => true
  | _ => false

/-- How many instructions the thread may execute before a system call. -/
def Machine.instructions (machine : Machine R D) (tick : Nat) : Nat :=
  (machine.schedule tick).countP Action.isRun

/-- No breakpoint from the `n`-th instruction on, as far as the `n'`-th. -/
def Program.Clear (program : Program R) (arch : Architecture R D) (regs : R) (memory : Memory)
    (breakpoints : SortedMap Address Breakpoint) (n n' : Nat) : Prop :=
  ∀ m, n ≤ m → m < n' → program.meets arch regs memory breakpoints m = false

theorem Program.Clear.cons {n' : Nat}
    (hmeets : program.meets arch regs memory breakpoints n = false)
    (hclear : program.Clear arch regs memory breakpoints (n + 1) n') :
    program.Clear arch regs memory breakpoints n n' := by
  intro m hle hlt
  rcases Nat.eq_or_lt_of_le hle with rfl | hlater
  · exact hmeets
  · exact hclear m hlater hlt

/-- The instructions executed, as these events say. -/
def executedIn (events : List TargetEvent) : List (Tid × Address) :=
  (events.map Entry.target).filterMap Entry.execution

theorem executedIn_append (later events : List TargetEvent) :
    executedIn (later ++ events) = executedIn later ++ executedIn events := by
  rw [executedIn, List.map_append, List.filterMap_append]
  rfl

/-- Let run, the thread stops at the first breakpoint it comes to, or runs on. -/
theorem performAll_running (hp : program.Ordinary arch regs memory breakpoints text fetched)
    (hapart : ∀ key, ApartFrom arch breakpoints key) {shown : ModuleManager → Prop}
    {actions : List (Action R D)} (honly : ∀ action ∈ actions, action.RunsOnly tid shown)
    (ht : RunsAt arch program regs memory breakpoints tid n task target) :
    ∃ n' task', n ≤ n' ∧ program.Clear arch regs memory breakpoints n n' ∧
      (executedIn (performAll arch program target actions).1).length + n = n' ∧
      (performAll arch program target actions).2.tasks = SortedMap.empty.insert tid task' ∧
      (n' = n + actions.countP Action.isRun ∧
          (performAll arch program target actions).2.ready = target.ready ∨
        (performAll arch program target actions).2.ready
            = target.ready ++ [(tid, .stopped sigtrap 0)] ∧
          TrapsAt arch program regs memory breakpoints n' task'
            (performAll arch program target actions).2.memory) := by
  induction actions generalizing n task target with
  | nil =>
      exact ⟨n, task, le_rfl, fun m hle hlt => absurd hlt (Nat.not_lt.mpr hle), Nat.zero_add n,
        ht.tasks, Or.inl ⟨rfl, rfl⟩⟩
  | cons action rest ih =>
      have hrest : ∀ action ∈ rest, action.RunsOnly tid shown :=
        fun action hmem => honly action (List.mem_cons_of_mem _ hmem)
      have hnext : performAll arch program target (action :: rest)
          = ((performAll arch program (perform arch program target action).2 rest).1
              ++ (perform arch program target action).1,
            (performAll arch program (perform arch program target action).2 rest).2) := rfl
      rw [hnext]
      dsimp only
      rw [executedIn_append, List.length_append]
      rcases honly action List.mem_cons_self with rfl | ⟨modules, -, rfl⟩
      · have hperform : perform arch program target (.run tid)
            = runTask arch program target tid task := by
          simp [perform, running_of_tasks ht.tasks, ht.running]
        rw [hperform]
        have hcount : (Action.run tid :: rest).countP Action.isRun
            = rest.countP (Action.isRun (R := R) (D := D)) + 1 := List.countP_cons_of_pos rfl
        cases hmeets : program.meets arch regs memory breakpoints n with
        | false =>
            obtain ⟨task', hevents, ht', hready⟩ := ht.executes hp hapart hmeets
            obtain ⟨n', last, hle, hclear, hlength, htasks, hend⟩ := ih hrest ht'
            rw [hready] at hend
            refine ⟨n', last, (Nat.le_succ n).trans hle, hclear.cons hmeets, ?_, htasks,
              hend.imp_left fun hfar => ⟨?_, hfar.2⟩⟩
            · have hone : (executedIn [.executed tid (arch.pc task.regs)]).length = 1 := rfl
              rw [hevents, hone]
              omega
            · rw [hfar.1, hcount]
              omega
        | true =>
            rw [ht.traps hp hapart hmeets]
            have htasks : (target.halt tid (task.trapped (arch.setPc task.regs
                (arch.pcAfterTrap (arch.pc task.regs)))) (.stopped sigtrap 0)).tasks
                = SortedMap.empty.insert tid (task.trapped (arch.setPc task.regs
                  (arch.pcAfterTrap (arch.pc task.regs)))) := by
              rw [Target.halt, ht.tasks]
              exact SortedMap.insert_insert_self _ _ _ _
            rw [performAll_stopped arch program hrest rfl _ htasks]
            refine ⟨n, _, le_rfl, fun m hle hlt => absurd hlt (Nat.not_lt.mpr hle), Nat.zero_add n,
              htasks, Or.inr ⟨rfl, hmeets, ?_, rfl, ht.overlaid⟩⟩
            rw [ht.registers]
            rfl
      · exact ih hrest ⟨ht.tasks, ht.registers, ht.running, ht.cont, ht.overlaid⟩

theorem performAll_mapsAfter (arch : Architecture R D) (program : Program R)
    (actions : List (Action R D)) (target : Target R D) :
    (performAll arch program target actions).2.maps = mapsAfter target.maps actions := by
  induction actions generalizing target with
  | nil => rfl
  | cons action rest ih =>
      have hnext : (performAll arch program target (action :: rest)).2
          = (performAll arch program (perform arch program target action).2 rest).2 := rfl
      rw [hnext, ih]
      cases action with
      | map changed => rfl
      | _ =>
          rw [perform_maps arch program target rfl]
          rfl

variable {machine : Machine R D} {shown : ModuleManager → Prop} {executed : List (Tid × Address)}
  {hits : List (Int × Address)} {d : Debugger} {m : Memory}

/-- The wait ends with the first breakpoint, or it does not end. -/
theorem sole_waits (hp : machine.program.Ordinary arch regs memory breakpoints text fetched)
    (hapart : ∀ key, ApartFrom arch breakpoints key) (hmachine : machine.RunsOnly tid shown)
    (hregisters : task.regs = (machine.program.after regs memory n).1)
    (hrunning : task.stopped = false) (hcont : task.stepping = false)
    (hover : Overlaid arch breakpoints (machine.program.after regs memory n).2 m) :
    Triple (Sole machine tid shown executed hits task d m)
      (waitForEvent (machine.environment arch))
      (fun event s => event = (tid, .stopped sigtrap 0) ∧ ∃ n' task' executed' m', n ≤ n' ∧
        machine.program.Clear arch regs memory breakpoints n n' ∧
        executed'.length + n = executed.length + n' ∧
        TrapsAt arch machine.program regs memory breakpoints n' task' m' ∧
        Sole machine tid shown executed' hits task' d m' s)
      (fun halt _ => halt = .blocked ∧ ∃ tick, machine.program.Clear arch regs memory breakpoints n
        (n + machine.instructions tick)) := by
  intro s hs
  have ht : RunsAt arch machine.program regs memory breakpoints tid n task s.target :=
    ⟨hs.tasks, hregisters, hrunning, hcont, hs.memory ▸ hover⟩
  have hmaps := performAll_mapsAfter arch machine.program (machine.schedule s.tick) s.target
  obtain ⟨n', task', hle, hclear, hlength, htasks, hend⟩ :=
    performAll_running hp hapart (hmachine.only s.tick) ht
  rw [hs.ready] at hend
  have htarget : ((machine.environment arch).enter s).target
      = (performAll arch machine.program s.target (machine.schedule s.tick)).2 := rfl
  rcases hend with ⟨hfar, hready⟩ | ⟨hready, htraps⟩
  · have hwait : waitForEvent (machine.environment arch) s
        = .error .blocked ((machine.environment arch).enter s) := by
      rw [waitForEvent]
      simp only [htarget, hready, htasks]
      rfl
    rw [hwait]
    exact ⟨rfl, s.tick, hfar ▸ hclear⟩
  · have hwait : waitForEvent (machine.environment arch) s
        = .ok (tid, .stopped sigtrap 0)
          { (machine.environment arch).enter s with
            target := { ((machine.environment arch).enter s).target with ready := [] } } := by
      rw [waitForEvent]
      simp only [htarget, hready, List.nil_append]
    rw [hwait]
    have hlog : ((machine.environment arch).enter s).log
        = ((machine.environment arch).interfere s.tick s.target).1.map Entry.target ++ s.log :=
      enter_log _ _
    refine ⟨rfl, n', task', executedIn (performAll arch machine.program s.target
      (machine.schedule s.tick)).1 ++ executed, _, hle, hclear, ?_, htraps, htarget ▸ htasks, rfl, rfl,
      hs.debugger, ?_, ?_, ?_⟩
    · rw [List.length_append]
      omega
    · rw [htarget, hmaps]
      exact hs.maps_next hmachine
    · rw [State.executions, hlog, List.filterMap_append]
      exact congrArg _ hs.executions
    · rw [State.hits, hlog, List.filterMap_append, announcedHit_target]
      exact hs.hits

/-! ### The report -/

/-- The debugger once a breakpoint has been announced, which takes a temporary one out of the table. -/
def Debugger.announced (d : Debugger) (key : Address) (r : Breakpoint) : Debugger :=
  if r.temporary then { d with breakpoints := d.breakpoints.erase key } else d

/-- The memory then. -/
def announcedMemory (m : Memory) (key : Address) (r : Breakpoint) : Memory :=
  if r.temporary && r.enabled then store m key r.saved else m

/-- A record is taken out of the table, and its trap out of memory. -/
theorem sole_dropBreakpoint (hmachine : machine.RunsOnly tid shown) (hstopped : task.stopped = true)
    (hselected : d.selectedTid = tid) (hformed : WellFormed arch d.breakpoints) {key : Address}
    {r : Breakpoint} (hr : d.breakpoints.find? key = some r) :
    Triple (Sole machine tid shown executed hits task d m)
      (dropBreakpoint (machine.environment arch) key)
      (fun _ => Sole machine tid shown executed hits task
        { d with breakpoints := d.breakpoints.erase key }
        (if r.enabled then store m key r.saved else m)) (fun _ _ => False) := by
  obtain ⟨haddress, hpending, hlength⟩ := hformed key r hr
  cases henabled : r.enabled with
  | true =>
      refine Triple.bind (sole_disable hmachine hstopped hselected hr haddress hpending henabled
        (hlength henabled)) fun _ => Triple.modify fun s hs => ?_
      have herased := hs.change fun d => { d with breakpoints := d.breakpoints.erase key }
      dsimp only [Debugger.withRecord] at herased
      rw [SortedMap.erase_modify_self] at herased
      exact herased
  | false =>
      have hdisabled : ∀ r', d.breakpoints.find? key = some r' → r'.enabled = false := by
        intro r' hr'
        obtain rfl := Option.some.inj (hr.symm.trans hr')
        exact henabled
      exact Triple.bind (sole_disable_none hdisabled) fun _ => Triple.modify fun s hs =>
        hs.change fun d => { d with breakpoints := d.breakpoints.erase key }

/-- `print_stop` announces the breakpoint, and sets the thread back to it. -/
theorem sole_announceHit (hmachine : machine.RunsOnly tid shown) (hstopped : task.stopped = true)
    (hselected : d.selectedTid = tid) (hformed : WellFormed arch d.breakpoints) {key : Address}
    {r : Breakpoint} (hr : d.breakpoints.find? key = some r) :
    Triple (Sole machine tid shown executed hits task d m)
      (inspectBreakpoint arch (machine.environment arch) tid key)
      (fun _ => Sole machine tid shown executed ((r.id, key) :: hits)
        { task with regs := arch.setPc task.regs key } (d.announced key r)
        (announcedMemory m key r)) (fun _ _ => False) := by
  intro s hs
  rw [inspectBreakpoint, get_bind_apply, hs.debugger, hr]
  refine Triple.bind (sole_setPc hmachine hstopped key) (fun _ => ?_) s hs
  have hprint : Triple (Sole machine tid shown executed hits
        { task with regs := arch.setPc task.regs key } d m)
      (print (.hitBreakpoint r.id key))
      (fun _ => Sole machine tid shown executed ((r.id, key) :: hits)
        { task with regs := arch.setPc task.regs key } d m) (fun _ _ => False) :=
    Triple.modify fun _ ht => ht.noted (.out (.hitBreakpoint r.id key))
  refine Triple.bind hprint fun _ => Triple.bind (sole_note rfl) fun _ => ?_
  cases htemporary : r.temporary with
  | true =>
      refine Triple.bind
        (sole_dropBreakpoint hmachine (by exact hstopped) hselected hformed hr) fun _ => ?_
      rw [Debugger.announced, announcedMemory, htemporary, Bool.true_and]
      exact sole_note rfl
  | false =>
      rw [Debugger.announced, announcedMemory, htemporary, Bool.false_and]
      exact Triple.pure fun _ ht => ht

/-! ### The command -/

/-- The debugger when the one thread is stopped, with this table of breakpoints and no pending
one. -/
structure Debugger.Standing (d : Debugger) (tid : Tid)
    (breakpoints : SortedMap Address Breakpoint) : Prop where
  alive : d.alive = true
  selected : d.selectedTid = tid
  threads : ∃ signal, d.threads = SortedMap.empty.insert tid ⟨tid, true, signal⟩
  breakpoints : d.breakpoints = breakpoints
  pending : d.pendingBreakpoints = []

/-- The one thread of the process is stopped with these registers, its events have been consumed,
and the memory is this one but for the traps of the enabled breakpoints. -/
structure StandsAt (arch : Architecture R D) (machine : Machine R D) (tid : Tid)
    (breakpoints : SortedMap Address Breakpoint) (current : R × Memory) (s : State R D) : Prop where
  thread : ∃ task, s.target.tasks = SortedMap.empty.insert tid task ∧ task.regs = current.1 ∧
    task.stopped = true
  consumed : s.target.ready = []
  maps : (mapsAfter s.target.maps (machine.schedule s.tick)).isSome = true
  overlaid : Overlaid arch breakpoints current.2 s.target.memory
  debugger : s.debugger.Standing tid breakpoints

/-- The thread, the debugger and the memory of such a state. -/
structure RestsAt (arch : Architecture R D) (tid : Tid)
    (breakpoints : SortedMap Address Breakpoint) (current : R × Memory) (task : Task R D)
    (d : Debugger) (m : Memory) : Prop where
  registers : task.regs = current.1
  stopped : task.stopped = true
  overlaid : Overlaid arch breakpoints current.2 m
  standing : d.Standing tid breakpoints

theorem Sole.standsAt {s : State R D} {current : R × Memory}
    (hs : Sole machine tid shown executed hits task d m s)
    (hrests : RestsAt arch tid breakpoints current task d m) :
    StandsAt arch machine tid breakpoints current s := by
  obtain ⟨modules, -, hmaps⟩ := hs.maps
  exact ⟨⟨task, hs.tasks, hrests.registers, hrests.stopped⟩, hs.ready, hmaps ▸ rfl,
    hs.memory ▸ hrests.overlaid, hs.debugger ▸ hrests.standing⟩

theorem StandsAt.sole {s : State R D} {current : R × Memory}
    (hs : StandsAt arch machine tid breakpoints current s) :
    ∃ task, RestsAt arch tid breakpoints current task s.debugger s.target.memory ∧
      Sole machine tid (fun _ => True) s.executions s.hits task s.debugger s.target.memory s := by
  obtain ⟨task, htasks, hregs, hstopped⟩ := hs.thread
  obtain ⟨modules, hmaps⟩ := Option.isSome_iff_exists.mp hs.maps
  exact ⟨task, ⟨hregs, hstopped, hs.overlaid, hs.debugger⟩, htasks, hs.consumed, rfl, rfl,
    ⟨modules, trivial, hmaps⟩, rfl, rfl⟩

theorem Debugger.Standing.hasEnabled (hd : d.Standing tid breakpoints) (n : Nat) :
    d.hasEnabled (arch.pc (program.after regs memory n).1)
      = program.meets arch regs memory breakpoints n := by
  rw [Bool.eq_iff_iff, hasEnabled_iff, Program.meets_iff, hd.breakpoints]

theorem Debugger.Standing.contains (hd : d.Standing tid breakpoints) :
    d.threads.contains tid = true := by
  obtain ⟨signal, hthreads⟩ := hd.threads
  rw [hthreads, SortedMap.contains_insert]
  simp

/-- A step-over leaves the table as it was. -/
theorem Debugger.Standing.steppedOver (hd : d.Standing tid breakpoints) {key : Address}
    {r : Breakpoint} (hr : breakpoints.find? key = some r) (henabled : r.enabled = true) :
    (d.steppedOver tid key r.saved).Standing tid breakpoints where
  alive := hd.alive
  selected := hd.selected
  threads := by
    obtain ⟨signal, hthreads⟩ := hd.threads
    refine ⟨sigtrap, ?_⟩
    rw [Debugger.steppedOver, Debugger.withThreads, Debugger.withRecord, hthreads,
      SortedMap.insert_insert_self]
  breakpoints := by
    have hsame : r.armedWith r.saved = r := by
      rw [Breakpoint.armedWith, ← henabled]
    calc d.breakpoints.modify key (fun r' => r'.armedWith r.saved)
        = breakpoints.insert key (r.armedWith r.saved) := by
          rw [hd.breakpoints, SortedMap.modify_of_find? _ hr]
      _ = breakpoints := by rw [hsame, SortedMap.insert_find?_self hr]
  pending := hd.pending

/-- The first instruction that is executed otherwise than over a breakpoint. -/
def Program.past (program : Program R) (arch : Architecture R D) (regs : R) (memory : Memory)
    (breakpoints : SortedMap Address Breakpoint) (n : Nat) : Nat :=
  if program.meets arch regs memory breakpoints n then n + 1 else n

variable (executed hits) in
/-- The breakpoint the program is at, if it is enabled, is stepped over. -/
theorem RestsAt.stepOver
    (hp : machine.program.Ordinary arch regs memory breakpoints text fetched)
    (hapart : ∀ key, ApartFrom arch breakpoints key) (hformed : WellFormed arch breakpoints)
    (hmachine : machine.RunsOnly tid shown)
    (hrests : RestsAt arch tid breakpoints (machine.program.after regs memory n) task d m) :
    ∃ executed' task' d' m',
      executed'.length + n
        = executed.length + machine.program.past arch regs memory breakpoints n ∧
      RestsAt arch tid breakpoints (machine.program.after regs memory
        (machine.program.past arch regs memory breakpoints n)) task' d' m' ∧
      d'.modules = d.modules ∧
      Triple (Sole machine tid shown executed hits task d m)
        (stepOverBreakpoint arch (machine.environment arch))
        (fun _ => Sole machine tid shown executed' hits task' d' m') (fun _ _ => False) := by
  obtain ⟨hregs, hstopped, hover, hd⟩ := hrests
  cases hmeets : machine.program.meets arch regs memory breakpoints n with
  | false =>
      have hpast : machine.program.past arch regs memory breakpoints n = n := by
        rw [Program.past, hmeets, if_neg Bool.false_ne_true]
      have hnone : ∀ r, d.breakpoints.find? (arch.pc task.regs) = some r → r.enabled = false := by
        intro r hr
        refine Bool.eq_false_iff.mpr fun henabled => ?_
        rw [hd.breakpoints, hregs] at hr
        rw [Program.meets_iff.mpr ⟨r, hr, henabled⟩] at hmeets
        cases hmeets
      rw [hpast]
      exact ⟨executed, task, d, m, rfl, ⟨hregs, hstopped, hover, hd⟩, rfl,
        sole_stepOverBreakpoint_none hmachine hstopped hd.selected hnone⟩
  | true =>
      have hpast : machine.program.past arch regs memory breakpoints n = n + 1 := by
        rw [Program.past, hmeets, if_pos rfl]
      obtain ⟨r, hr, henabled⟩ := Program.meets_iff.mp hmeets
      have hcurrent := hp.quiet n
      have htable : d.hasEnabled (arch.pc task.regs) = true := by
        rw [hregs, hd.hasEnabled, hmeets]
      have hlifted : ∀ key r', (d.liftedAt (arch.pc task.regs)).find? key = some r' →
          r'.enabled = true → breakpoints.find? key = some r' ∧
            key ≠ arch.pc (machine.program.after regs memory n).1 := by
        intro key r' hr' henabled'
        rw [Debugger.liftedAt, hd.breakpoints, hregs, SortedMap.find?_modify] at hr'
        by_cases heq : key = arch.pc (machine.program.after regs memory n).1
        · rw [if_pos heq, hr] at hr'
          obtain rfl := Option.some.inj hr'
          cases henabled'
        · rw [if_neg heq] at hr'
          exact ⟨hr', heq⟩
      have hblind := fun memory'
        (hlift : Overlaid arch (d.liftedAt (arch.pc task.regs))
          (machine.program.after regs memory n).2 memory') => hp.step hlifted hlift
      rw [← hregs] at hcurrent hblind
      obtain ⟨saved, m', -, hover', hstep⟩ := sole_overBreakpoint executed hits hmachine hstopped
        hd.selected hd.contains (hd.breakpoints ▸ hformed) (hd.breakpoints ▸ hover)
        (hd.breakpoints ▸ hapart _) htable hcurrent hblind
      -- The bytes saved are those the record has already.
      have hsaved : saved = r.saved := by
        have hfind : (d.steppedOver tid (arch.pc task.regs) saved).breakpoints.find?
            (arch.pc (machine.program.after regs memory n).1) = some (r.armedWith saved) := by
          rw [Debugger.steppedOver, hregs]
          change (d.breakpoints.modify _ _).find? _ = _
          rw [SortedMap.find?_modify_self, hd.breakpoints, hr]
          rfl
        calc saved = bytesAt (machine.program.after regs memory (n + 1)).2
              (arch.pc (machine.program.after regs memory n).1) arch.breakpointSize :=
              hover'.saved _ _ hfind rfl
          _ = bytesAt (machine.program.after regs memory n).2
              (arch.pc (machine.program.after regs memory n).1) arch.breakpointSize :=
              hp.bytesAt_after hr n
          _ = r.saved := (hover.saved _ r hr henabled).symm
      have hd' := hd.steppedOver hr henabled
      rw [← hsaved, ← hregs] at hd'
      rw [hpast]
      refine ⟨_, _, _, m', ?_, ⟨rfl, rfl, hd'.breakpoints ▸ hover', hd'⟩, rfl, hstep⟩
      rw [List.length_cons]
      omega

/-- Its one thread is resumed. -/
theorem sole_resumeStopped (hmachine : machine.RunsOnly tid shown) (hstopped : task.stopped = true)
    (hd : d.Standing tid breakpoints) :
    Triple (Sole machine tid shown executed hits task d m)
      (resumeStopped (machine.environment arch) d.threads.entries)
      (fun _ => Sole machine tid shown executed hits (task.resumed .cont) (d.resuming tid) m)
      (fun _ _ => False) := by
  obtain ⟨signal, hthreads⟩ := hd.threads
  have hentries : d.threads.entries = [(tid, ⟨tid, true, signal⟩)] := by
    rw [hthreads]
    rfl
  rw [hentries, resumeStopped]
  have hresume : Triple (Sole machine tid shown executed hits task d m)
      (resumeThread (machine.environment arch) tid .cont)
      (fun _ => Sole machine tid shown executed hits (task.resumed .cont) (d.resuming tid) m)
      (fun _ _ => False) := by
    intro t ht
    rw [resumeThread, get_bind_apply, ht.debugger, hthreads, SortedMap.find?_insert_self]
    exact Triple.bind (sole_resume hmachine hstopped .cont) (fun _ => sole_modifyThreads _) t ht
  refine Triple.bind hresume fun _ => ?_
  rw [resumeStopped]
  exact Triple.pure fun _ ht => ht

/-- With the stop recorded and nothing pending, the debugger stands again. -/
theorem Debugger.Standing.atStop (hd : d.Standing tid breakpoints) (modules : ModuleManager) :
    ((d.resuming tid).atStop tid modules).Standing tid breakpoints where
  alive := hd.alive
  selected := rfl
  threads := by
    obtain ⟨signal, hthreads⟩ := hd.threads
    refine ⟨sigtrap, ?_⟩
    change (d.threads.modify tid _).insert tid _ = _
    rw [hthreads, SortedMap.insert_modify_self, SortedMap.insert_insert_self]
  breakpoints := hd.breakpoints
  pending := hd.pending

/-- Only the modules are looked at again. -/
theorem sole_refreshNothing (hmachine : machine.RunsOnly tid shown) (hstopped : task.stopped = true)
    (hd : d.Standing tid breakpoints) :
    Triple (Sole machine tid shown executed hits task ((d.resuming tid).recording tid) m)
      (refreshTarget arch (machine.environment arch))
      (fun _ s => ∃ modules, shown modules ∧
        Sole machine tid shown executed hits task ((d.resuming tid).atStop tid modules) m s)
      (fun _ _ => False) := by
  refine Triple.bind (sole_refreshModules hmachine hstopped) fun _ => ?_
  rintro s ⟨modules, hshown, hs⟩
  rw [resolvePendingBreakpoints, get_bind_apply, hs.debugger]
  have hpending : ((d.resuming tid).recording tid).pendingBreakpoints = [] := hd.pending
  rw [hpending]
  exact ⟨modules, hshown, hs⟩

/-- The thread has been set back to the breakpoint whose trap it has executed, and the hit has been
announced. -/
structure HitAt (arch : Architecture R D) (machine : Machine R D) (tid : Tid)
    (breakpoints : SortedMap Address Breakpoint) (current : R × Memory) (hits : List (Int × Address))
    (r : Breakpoint) (s : State R D) : Prop where
  thread : ∃ task, s.target.tasks.find? tid = some task ∧ task.stopped = true ∧
    task.regs = current.1
  hits : s.hits = (r.id, arch.pc current.1) :: hits
  stands : r.temporary = false → StandsAt arch machine tid breakpoints current s

/-- The stop at a breakpoint is reported. -/
theorem sole_hitReported (hpc : arch.LawfulPc) (hmachine : machine.RunsOnly tid shown)
    (hformed : WellFormed arch breakpoints)
    (htraps : TrapsAt arch machine.program regs memory breakpoints n task m)
    (hsignal : d.stopSignal tid = some sigtrap) (hd : d.Standing tid breakpoints) {r : Breakpoint}
    (hr : breakpoints.find? (arch.pc (machine.program.after regs memory n).1) = some r) :
    Triple (Sole machine tid shown executed hits task d m)
      (reportStop arch (machine.environment arch) tid)
      (fun _ s => s.executions = executed ∧
        HitAt arch machine tid breakpoints (machine.program.after regs memory n) hits r s)
      (fun _ _ => False) := by
  have hcandidate : arch.candidate (arch.pc task.regs)
      = arch.pc (machine.program.after regs memory n).1 := by
    rw [htraps.registers, arch.pc_setPc, arch.candidate_pcAfterTrap]
  have hback : arch.setPc task.regs (arch.pc (machine.program.after regs memory n).1)
      = (machine.program.after regs memory n).1 := by
    rw [htraps.registers, hpc.setPc_setPc, hpc.setPc_pc]
  have hinspect : Triple (Sole machine tid shown executed hits task d m)
      (inspectBreakpoint arch (machine.environment arch) tid (arch.candidate (arch.pc task.regs)))
      (fun _ => Sole machine tid shown executed
        ((r.id, arch.pc (machine.program.after regs memory n).1) :: hits)
        { task with regs := (machine.program.after regs memory n).1 }
        (d.announced (arch.pc (machine.program.after regs memory n).1) r)
        (announcedMemory m (arch.pc (machine.program.after regs memory n).1) r))
      (fun _ _ => False) := by
    rw [hcandidate]
    refine (sole_announceHit hmachine htraps.stopped hd.selected (hd.breakpoints ▸ hformed)
      (hd.breakpoints ▸ hr)).post fun _ s hs => ?_
    rw [hback] at hs
    exact hs
  refine (sole_reportStop hmachine htraps.stopped hsignal (by exact htraps.stopped)
    (fun s hs => ⟨_, _, _, _, hs, fun _ ht => ht⟩) hinspect).post fun _ _ hs => ?_
  refine ⟨hs.executions, ⟨_, hs.find?, htraps.stopped, rfl⟩, hs.hits, fun hpermanent => ?_⟩
  rw [Debugger.announced, announcedMemory, hpermanent] at hs
  exact hs.standsAt ⟨rfl, htraps.stopped, htraps.overlaid, hd⟩

section Command

variable (hpc : arch.LawfulPc)
  (hp : machine.program.Ordinary arch regs memory breakpoints text fetched)
  (hapart : ∀ key, ApartFrom arch breakpoints key) (hformed : WellFormed arch breakpoints)
  (hmachine : machine.RunsOnly tid fun _ => True)

include hpc hp hapart hformed hmachine

variable (executed hits) in
/-- Resumed, the thread comes to the first breakpoint, which is announced, or the wait does not
end. -/
theorem RestsAt.resumed
    (hrests : RestsAt arch tid breakpoints (machine.program.after regs memory n) task d m) :
    Triple (Sole machine tid (fun _ => True) executed hits task d m)
      (do
        let s ← get
        resumeStopped (machine.environment arch) s.debugger.threads.entries
        waitAndReport arch (machine.environment arch) true)
      (fun _ s => ∃ n' r, n ≤ n' ∧ machine.program.Clear arch regs memory breakpoints n n' ∧
        machine.program.meets arch regs memory breakpoints n' = true ∧
        breakpoints.find? (arch.pc (machine.program.after regs memory n').1) = some r ∧
        s.executions.length + n = executed.length + n' ∧
        HitAt arch machine tid breakpoints (machine.program.after regs memory n') hits r s)
      (fun halt _ => halt = .blocked ∧ ∃ tick, machine.program.Clear arch regs memory breakpoints n
        (n + machine.instructions tick)) := by
  obtain ⟨hregs, hstopped, hover, hd⟩ := hrests
  intro s hs
  rw [get_bind_apply, hs.debugger]
  refine Triple.bind (sole_resumeStopped hmachine hstopped hd).never (fun _ => ?_) s hs
  refine Triple.bind (sole_waits hp hapart hmachine hregs rfl rfl hover) fun event => ?_
  rintro t ⟨rfl, n', task', executed', m', hle, hclear, hlength, htraps, ht⟩
  obtain ⟨r, hr, -⟩ := Program.meets_iff.mp htraps.meets
  refine ((sole_stopConsumed (sole_refreshNothing hmachine htraps.stopped hd)
    (Triple.exists fun modules u hu => sole_hitReported hpc hmachine hformed htraps
      ((d.resuming tid).stopSignal_recording modules hd.alive) (hd.atStop modules) hr u hu.2)).post
    fun _ u hu => ?_).never t ht
  refine ⟨n', r, hle, hclear, htraps.meets, hr, ?_, hu.2⟩
  rw [hu.1, hlength]

variable (executed hits) in
/-- `continue` stops at the next breakpoint. -/
theorem RestsAt.continueExecution
    (hrests : RestsAt arch tid breakpoints (machine.program.after regs memory n) task d m) :
    Triple (Sole machine tid (fun _ => True) executed hits task d m)
      (continueExecution arch (machine.environment arch))
      (fun _ s => ∃ n' r, n < n' ∧ machine.program.Clear arch regs memory breakpoints (n + 1) n' ∧
        machine.program.meets arch regs memory breakpoints n' = true ∧
        breakpoints.find? (arch.pc (machine.program.after regs memory n').1) = some r ∧
        s.executions.length + n = executed.length + n' ∧
        HitAt arch machine tid breakpoints (machine.program.after regs memory n') hits r s)
      (fun halt _ => halt = .blocked ∧ ∃ tick, machine.program.Clear arch regs memory breakpoints
        (n + 1) (machine.instructions tick)) := by
  intro s hs
  have halive : s.debugger.alive = true := by rw [hs.debugger, hrests.standing.alive]
  rw [Cosy.continueExecution, get_bind_apply, if_pos halive]
  obtain ⟨executed', task', d', m', hlength, hrests', -, hover⟩ :=
    hrests.stepOver executed hits hp hapart hformed hmachine
  -- Where nothing was stepped over, the program is not at a breakpoint.
  have hpast : machine.program.past arch regs memory breakpoints n ≤ n + 1 ∧
      ∀ n', machine.program.past arch regs memory breakpoints n ≤ n' →
        machine.program.meets arch regs memory breakpoints n' = true → n < n' := by
    rw [Program.past]
    cases hmeets : machine.program.meets arch regs memory breakpoints n with
    | true => exact ⟨le_rfl, fun _ hle _ => hle⟩
    | false =>
        refine ⟨n.le_succ, fun n' hle hlast => Nat.lt_of_le_of_ne hle ?_⟩
        rintro rfl
        rw [hmeets] at hlast
        cases hlast
  refine Triple.bind hover.never (fun _ => ?_) s hs
  refine (hrests'.resumed executed' hits hpc hp hapart hformed hmachine).conseq (fun _ hu => hu) ?_ ?_
  · rintro _ u ⟨n', r, hle, hclear, hmeets, hr, hcount, hu⟩
    refine ⟨n', r, hpast.2 n' hle hmeets, fun m hm => hclear m (hpast.1.trans hm), hmeets, hr, ?_,
      hu⟩
    omega
  · rintro halt u ⟨hblocked, tick, hclear⟩
    exact ⟨hblocked, tick, fun m hm hlt => hclear m (hpast.1.trans hm) (by omega)⟩

end Command

/-! ### From breakpoint to breakpoint -/

/-- The command given so many times. -/
def continues (arch : Architecture R D) (env : Environment R D) : Nat → Dbg R D Unit
  | 0 => pure ⟨⟩
  | k + 1 => do
    continues arch env k
    continueExecution arch env

/-- Whether the program has come to an enabled breakpoint after so many instructions, one at
least. -/
def Program.isHit (program : Program R) (arch : Architecture R D) (regs : R) (memory : Memory)
    (breakpoints : SortedMap Address Breakpoint) (n : Nat) : Bool :=
  decide (0 < n) && program.meets arch regs memory breakpoints n

/-- How often it has done so before the `n`-th instruction. -/
def Program.hitsBefore (program : Program R) (arch : Architecture R D) (regs : R) (memory : Memory)
    (breakpoints : SortedMap Address Breakpoint) (n : Nat) : Nat :=
  Nat.count (fun m => program.isHit arch regs memory breakpoints m = true) n

/-- After `n` instructions it has done so again, the `k`-th time if the first one is `0`. -/
def Program.ComesTo (program : Program R) (arch : Architecture R D) (regs : R) (memory : Memory)
    (breakpoints : SortedMap Address Breakpoint) (k n : Nat) : Prop :=
  program.isHit arch regs memory breakpoints n = true ∧
    program.hitsBefore arch regs memory breakpoints n = k

theorem Program.isHit_of_meets (hpos : 0 < n)
    (hmeets : program.meets arch regs memory breakpoints n = true) :
    program.isHit arch regs memory breakpoints n = true := by
  rw [Program.isHit, hmeets, decide_eq_true hpos]
  rfl

theorem Program.meets_of_isHit (hhit : program.isHit arch regs memory breakpoints n = true) :
    program.meets arch regs memory breakpoints n = true :=
  (Bool.and_eq_true_iff.mp hhit).2

theorem Program.hitsBefore_succ_of_isHit
    (hhit : program.isHit arch regs memory breakpoints n = true) :
    program.hitsBefore arch regs memory breakpoints (n + 1)
      = program.hitsBefore arch regs memory breakpoints n + 1 :=
  Nat.count_succ_eq_succ_count hhit

theorem Program.hitsBefore_mono {n' : Nat} (hle : n ≤ n') :
    program.hitsBefore arch regs memory breakpoints n
      ≤ program.hitsBefore arch regs memory breakpoints n' :=
  Nat.count_monotone _ hle

/-- Where there is no breakpoint on the way, none is counted. -/
theorem Program.Clear.hitsBefore {n' : Nat} (hle : n ≤ n')
    (hclear : program.Clear arch regs memory breakpoints n n') :
    program.hitsBefore arch regs memory breakpoints n'
      = program.hitsBefore arch regs memory breakpoints n := by
  induction n', hle using Nat.le_induction with
  | base => rfl
  | succ m hle ih =>
      have hmiss : ¬ program.isHit arch regs memory breakpoints m = true := by
        intro hhit
        have hmeets := Program.meets_of_isHit hhit
        rw [hclear m hle m.lt_succ_self] at hmeets
        cases hmeets
      calc program.hitsBefore arch regs memory breakpoints (m + 1)
          = program.hitsBefore arch regs memory breakpoints m := Nat.count_succ_eq_count hmiss
        _ = program.hitsBefore arch regs memory breakpoints n :=
            ih fun m' hle' hlt => hclear m' hle' (hlt.trans m.lt_succ_self)

section Commands

variable (hpc : arch.LawfulPc)
  (hp : machine.program.Ordinary arch regs memory breakpoints text fetched)
  (hapart : ∀ key, ApartFrom arch breakpoints key) (hformed : WellFormed arch breakpoints)
  (hpermanent : ∀ key r, breakpoints.find? key = some r → r.temporary = false)
  (hmachine : machine.RunsOnly tid fun _ => True)

include hpc hp hapart hformed hpermanent hmachine

variable (hits) in
/-- One more `continue`, where the program has come to `k` breakpoints so far. -/
theorem standsAt_continue {k : Nat}
    (hcount : machine.program.hitsBefore arch regs memory breakpoints (n + 1) = k) :
    Triple (fun s => StandsAt arch machine tid breakpoints (machine.program.after regs memory n) s ∧
        s.hits = hits)
      (continueExecution arch (machine.environment arch))
      (fun _ s => ∃ n' r, machine.program.isHit arch regs memory breakpoints n' = true ∧
        machine.program.hitsBefore arch regs memory breakpoints n' = k ∧
        breakpoints.find? (arch.pc (machine.program.after regs memory n').1) = some r ∧
        StandsAt arch machine tid breakpoints (machine.program.after regs memory n') s ∧
          s.hits = (r.id, arch.pc (machine.program.after regs memory n').1) :: hits)
      (fun halt _ => halt = .blocked ∧ ∃ tick, ∀ n',
        machine.program.isHit arch regs memory breakpoints n' = true →
          n' < machine.instructions tick →
            machine.program.hitsBefore arch regs memory breakpoints n' < k) := by
  rintro s ⟨hs, rfl⟩
  obtain ⟨task, hrests, hsole⟩ := hs.sole
  refine (hrests.continueExecution s.executions s.hits hpc hp hapart hformed hmachine).conseq
    (fun _ ht => ht) ?_ ?_ s hsole
  · rintro _ t ⟨n', r, hlt, hclear, hmeets, hr, -, ht⟩
    refine ⟨n', r, Program.isHit_of_meets (Nat.zero_lt_of_lt hlt) hmeets, ?_, hr,
      ht.stands (hpermanent _ r hr), ht.hits⟩
    rw [hclear.hitsBefore hlt, hcount]
  · rintro halt t ⟨hblocked, tick, hclear⟩
    refine ⟨hblocked, tick, fun n' hhit hlt => ?_⟩
    -- What the wait did not come to had been passed before.
    have hpassed : n' < n + 1 := by
      by_contra hle
      have hmeets := Program.meets_of_isHit hhit
      rw [hclear n' (Nat.not_lt.mp hle) hlt] at hmeets
      cases hmeets
    calc machine.program.hitsBefore arch regs memory breakpoints n'
        < machine.program.hitsBefore arch regs memory breakpoints (n' + 1) := by
          rw [Program.hitsBefore_succ_of_isHit hhit]
          exact Nat.lt_succ_self _
      _ ≤ machine.program.hitsBefore arch regs memory breakpoints (n + 1) :=
          Program.hitsBefore_mono hpassed
      _ = k := hcount

/-- After `k` of them the thread is at the `k`-th breakpoint the program comes to. -/
theorem standsAt_continues (k : Nat) :
    Triple (StandsAt arch machine tid breakpoints (regs, memory))
      (continues arch (machine.environment arch) k)
      (fun _ s => ∃ n, (n = 0 ∨ machine.program.isHit arch regs memory breakpoints n = true) ∧
        machine.program.hitsBefore arch regs memory breakpoints (n + 1) = k ∧
        StandsAt arch machine tid breakpoints (machine.program.after regs memory n) s)
      (fun halt _ => halt = .blocked ∧ ∃ tick, ∀ n',
        machine.program.isHit arch regs memory breakpoints n' = true →
          n' < machine.instructions tick →
            machine.program.hitsBefore arch regs memory breakpoints n' + 1 < k) := by
  induction k with
  | zero => exact Triple.pure fun s hs => ⟨0, Or.inl rfl, rfl, hs⟩
  | succ k ih =>
      refine Triple.bind (ih.conseq (fun _ hs => hs) (fun _ _ hs => hs) ?_) fun _ =>
        Triple.exists fun n => ?_
      · rintro halt s ⟨hblocked, tick, hfew⟩
        exact ⟨hblocked, tick, fun n' hhit hlt => (hfew n' hhit hlt).trans k.lt_succ_self⟩
      · rintro s ⟨-, hcount, hs⟩
        refine (standsAt_continue _ hpc hp hapart hformed hpermanent hmachine hcount).conseq
          (fun _ ht => ht) ?_ ?_ s ⟨hs, rfl⟩
        · rintro _ t ⟨n', r, hhit, hbefore, -, ht, -⟩
          refine ⟨n', Or.inr hhit, ?_, ht⟩
          rw [Program.hitsBefore_succ_of_isHit hhit, hbefore]
        · rintro halt t ⟨hblocked, tick, hfew⟩
          exact ⟨hblocked, tick, fun n' hhit hlt => Nat.succ_lt_succ (hfew n' hhit hlt)⟩

end Commands

end Ordinary

/-- On x86-64 `continue` follows the program. The next one stops where the program next comes to an
enabled breakpoint and reports it, as soon as a wait lasts until then; where the program comes to
none it does not return. -/
theorem continue_follows {machine : Machine UserRegs X86_64.DebugRegisters} {tid : Tid}
    {regs : UserRegs} {memory : Memory} {text : Set Address} {fetched : Nat → Set Address}
    {s : State UserRegs X86_64.DebugRegisters}
    (hs : StandsAt x86_64 machine tid s.debugger.breakpoints (regs, memory) s)
    (hformed : WellFormed x86_64 s.debugger.breakpoints)
    (hpermanent : ∀ key r, s.debugger.breakpoints.find? key = some r → r.temporary = false)
    (hp : machine.program.Ordinary x86_64 regs memory s.debugger.breakpoints text fetched)
    (hmachine : machine.RunsOnly tid fun _ => True) (k : Nat) :
    (∀ t u, continues x86_64 (machine.environment x86_64) k s = .ok ⟨⟩ t →
        continueExecution x86_64 (machine.environment x86_64) t = .ok ⟨⟩ u →
      ∃ n r, machine.program.ComesTo x86_64 regs memory s.debugger.breakpoints k n ∧
        s.debugger.breakpoints.find? (machine.program.after regs memory n).1.rip = some r ∧
        StandsAt x86_64 machine tid s.debugger.breakpoints (machine.program.after regs memory n) u ∧
        u.hits = (r.id, (machine.program.after regs memory n).1.rip) :: t.hits) ∧
    (∀ n, machine.program.ComesTo x86_64 regs memory s.debugger.breakpoints k n →
        (∀ tick, n < machine.instructions tick) →
      ∃ t, continues x86_64 (machine.environment x86_64) (k + 1) s = .ok ⟨⟩ t) ∧
    ((¬ ∃ n, machine.program.ComesTo x86_64 regs memory s.debugger.breakpoints k n) →
      ∃ t, continues x86_64 (machine.environment x86_64) (k + 1) s = .error .blocked t) := by
  have hapart : ∀ key, ApartFrom x86_64 s.debugger.breakpoints key :=
    fun _ _ _ _ _ hne => apart_one hne.symm
  have hruns := standsAt_continues x86_64_lawfulPc hp hapart hformed hpermanent hmachine
  refine ⟨fun t u hfirst hrun => ?_, ?_, fun hnone => ?_⟩
  · obtain ⟨m, -, hbefore, ht⟩ := (hruns k).of_ok hs hfirst
    have hnext := standsAt_continue t.hits x86_64_lawfulPc hp hapart hformed hpermanent hmachine
      hbefore
    obtain ⟨n, r, hhit, hcount, hr, hu⟩ := hnext.of_ok ⟨ht, rfl⟩ hrun
    exact ⟨n, r, ⟨hhit, hcount⟩, hr, hu⟩
  · rintro n ⟨hhit, hcount⟩ hlong
    cases hrun : continues x86_64 (machine.environment x86_64) (k + 1) s with
    | error halt t =>
        obtain ⟨-, tick, hfew⟩ := (hruns (k + 1)).of_error hs hrun
        have hlater := hfew n hhit (hlong tick)
        omega
    | ok _ t => exact ⟨t, rfl⟩
  · cases hrun : continues x86_64 (machine.environment x86_64) (k + 1) s with
    | error halt t =>
        obtain ⟨rfl, -⟩ := (hruns (k + 1)).of_error hs hrun
        exact ⟨t, rfl⟩
    | ok _ t =>
        obtain ⟨n, hhit, hcount, -⟩ := (hruns (k + 1)).of_ok hs hrun
        rcases hhit with rfl | hhit
        · cases hcount
        · rw [Program.hitsBefore_succ_of_isHit hhit] at hcount
          exact (hnone ⟨n, hhit, Nat.succ.inj hcount⟩).elim

/-! ### A program that is followed -/

/-- Its thread executes four instructions in a wait. -/
def strolling : Machine UserRegs X86_64.DebugRegisters where
  program := nops
  schedule _ := List.replicate 4 (.run 1)
  fails _ := false

/-- The thread is at the first instruction, with a breakpoint at the fourth one. -/
def standing : State UserRegs X86_64.DebugRegisters where
  debugger := { Debugger.fresh 1 with
    selectedTid := 1
    threads := SortedMap.empty.insert 1 ⟨1, true, sigtrap⟩
    breakpoints := SortedMap.empty.insert 0x1003 ⟨1, 0x1003, [], [0x90], true, false, false⟩ }
  target := { nopTarget 1 with memory := store nopText 0x1003 [0xcc], ready := [] }
  tick := 0
  log := []

theorem trapAt_nopText (address : Address) : x86_64.trapAt nopText address = false := by
  have hbytes : bytesAt nopText address 1 = [0x90#8] := rfl
  exact decide_eq_false (hbytes ▸ by decide)

theorem nops_after (regs : UserRegs) (memory : Memory) (n : Nat) :
    (nops.after regs memory n).2 = memory := by
  induction n with
  | zero => rfl
  | succ n ih => exact ih

theorem eq_of_sub_lt_one {x key : Address} (hin : (x - key).toNat < 1) : x = key := by
  bv_omega

theorem find?_standing {key : Address} {r : Breakpoint}
    (hr : standing.debugger.breakpoints.find? key = some r) :
    key = 0x1003 ∧ r = ⟨1, 0x1003, [], [0x90], true, false, false⟩ := by
  have hfind : standing.debugger.breakpoints.find? key
      = if key = 0x1003 then some ⟨1, 0x1003, [], [0x90], true, false, false⟩ else none :=
    SortedMap.find?_insert ..
  rw [hfind] at hr
  split at hr
  · exact ⟨‹_›, (Option.some.inj hr).symm⟩
  · cases hr

theorem ordinary_nops :
    nops.Ordinary x86_64 (.startingAt 0x1000) nopText standing.debugger.breakpoints {0x1003}
      (fun n => {(nops.after (.startingAt 0x1000) nopText n).1.rip}) where
  reads n memory' hsame := ⟨rfl, fun x hx => hsame x (Or.inl hx)⟩
  writes _ _ _ _ _ := rfl
  quiet n := by
    rw [nops_after]
    exact trapAt_nopText _
  inText key r hr x hin := by
    obtain ⟨rfl, -⟩ := find?_standing hr
    exact eq_of_sub_lt_one hin
  starts key r hr n x hin hfetched := (eq_of_sub_lt_one hin).symm.trans hfetched

theorem overlaid_standing :
    Overlaid x86_64 standing.debugger.breakpoints nopText standing.target.memory where
  saved key r hr _ := by
    obtain ⟨rfl, rfl⟩ := find?_standing hr
    rfl
  trap key r hr _ := by
    obtain ⟨rfl, -⟩ := find?_standing hr
    exact bytesAt_store nopText 0x1003 [0xcc] (by decide)
  rest x hx := if_neg (hx 0x1003 _ (SortedMap.find?_insert_self ..) rfl)

/-- The thread stops at the fourth instruction. -/
theorem continue_follows_nops :
    ∃ t, continues x86_64 (strolling.environment x86_64) 1 standing = .ok ⟨⟩ t := by
  have hstands : StandsAt x86_64 strolling 1 standing.debugger.breakpoints
      (.startingAt 0x1000, nopText) standing := {
    thread := ⟨stoppedTask 0x1000, rfl, rfl, rfl⟩
    consumed := rfl
    maps := rfl
    overlaid := overlaid_standing
    debugger := ⟨rfl, rfl, ⟨sigtrap, rfl⟩, rfl, rfl⟩ }
  have hformed : WellFormed x86_64 standing.debugger.breakpoints := by
    intro key r hr
    obtain ⟨rfl, rfl⟩ := find?_standing hr
    exact ⟨rfl, rfl, fun _ => rfl⟩
  have hpermanent : ∀ key r, standing.debugger.breakpoints.find? key = some r →
      r.temporary = false := by
    intro key r hr
    obtain ⟨rfl, rfl⟩ := find?_standing hr
    rfl
  have hmachine : strolling.RunsOnly 1 fun _ => True :=
    ⟨fun _ _ hmem => Or.inl (List.eq_of_mem_replicate hmem), fun _ => List.mem_cons_self,
      fun _ => rfl⟩
  exact (continue_follows hstands hformed hpermanent ordinary_nops hmachine 0).2.1 3
    ⟨by decide +kernel, by decide +kernel⟩ fun _ => Nat.lt_succ_self 3

end Cosy
