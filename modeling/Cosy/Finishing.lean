import Cosy.Activations

/-!
# Running to the end of a function

`finish` puts a temporary breakpoint where it takes the return address to be, and continues. It takes
it from above the frame pointer, whether or not the function has pushed its own, and the breakpoint
does not know which activation it is for.
-/

namespace Cosy

open ByteMemory Effect

variable {R D : Type} {arch : Architecture R D} {machine : Machine R D} {tid : Tid} {regs : R}
  {memory : Memory} {breakpoints : SortedMap Address Breakpoint} {text : Set Address}
  {fetched : Nat → Set Address} {shown : ModuleManager → Prop} {executed : List (Tid × Address)}
  {hits : List (Int × Address)} {task : Task R D} {d : Debugger} {m : Memory} {n : Nat}
  {flow : R → Memory → Flow}

/-! ### The temporary breakpoint -/

/-- A breakpoint as it is once it has been created, with these bytes under its trap. -/
def Debugger.created (d : Debugger) (address : Address) (specification : Text) (temporary : Bool)
    (saved : List Byte) : Breakpoint where
  id := d.nextBreakpointId
  address := address
  specification := specification
  saved := saved
  enabled := true
  temporary := temporary
  pending := false

/-- The table with the breakpoint of `finish`. A record that is there already stays as it is. -/
def Debugger.finishTable (arch : Architecture R D) (d : Debugger) (address : Address) (m : Memory) :
    SortedMap Address Breakpoint :=
  if d.breakpoints.contains address then d.breakpoints
  else
    d.breakpoints.insert address
      (d.created address "<finish>".toList true (bytesAt m address arch.breakpointSize))

/-- Whether there is an enabled breakpoint at `key` once `finish` has put its own at `address`. -/
def Debugger.armedFor (d : Debugger) (address key : Address) : Bool :=
  d.hasEnabled key || decide (key = address) && !d.breakpoints.contains address

theorem enabled_finishTable (arch : Architecture R D) (d : Debugger) (address : Address) (m : Memory)
    (key : Address) :
    ((d.finishTable arch address m).find? key).any Breakpoint.enabled = d.armedFor address key := by
  have hold : (d.breakpoints.find? key).any Breakpoint.enabled = d.hasEnabled key := by
    unfold Debugger.hasEnabled
    cases d.breakpoints.find? key <;> rfl
  unfold Debugger.finishTable Debugger.armedFor
  cases hcontains : d.breakpoints.contains address with
  | true => simp [hold]
  | false =>
      rw [if_neg Bool.false_ne_true, SortedMap.find?_insert]
      by_cases hkey : key = address
      · simp [hkey, Debugger.created]
      · simp [hkey, hold]

theorem meets_finishTable (d : Debugger) (address : Address) (m : Memory) (n : Nat) :
    machine.program.meets arch regs memory (d.finishTable arch address m) n
      = d.armedFor address (arch.pc (machine.program.after regs memory n).1) :=
  enabled_finishTable arch d address m _

theorem wellFormed_finishTable (hformed : WellFormed arch d.breakpoints) (address : Address)
    (m : Memory) : WellFormed arch (d.finishTable arch address m) := by
  unfold Debugger.finishTable
  split
  · exact hformed
  · intro key r hr
    rw [SortedMap.find?_insert] at hr
    by_cases hkey : key = address
    · rw [if_pos hkey] at hr
      obtain rfl := Option.some.inj hr
      exact ⟨hkey.symm, rfl, fun _ => length_bytesAt _ _ _⟩
    · rw [if_neg hkey] at hr
      exact hformed key r hr

/-! ### The request -/

/-- The word above the frame pointer is read. -/
theorem sole_returnAddress (hmachine : machine.RunsOnly tid shown) (hstopped : task.stopped = true) :
    Triple (Sole machine tid shown executed hits task d m)
      (returnAddress arch (machine.environment arch) tid)
      (fun value s => value = word m (arch.framePointer task.regs + 8) ∧
        Sole machine tid shown executed hits task d m s) (fun _ _ => False) := by
  intro s hs
  have hregs : getRegs arch (machine.environment arch) tid s
      = .ok task.regs ((machine.environment arch).enter s) := hs.ptrace hmachine hstopped _ _
  have hentered := hs.enter arch hmachine hstopped
  have hlater := hentered.enter arch hmachine hstopped
  rw [returnAddress, bind_ok hregs, hentered.ptrace hmachine hstopped]
  exact ⟨congrArg (fun memory => word memory _) hlater.memory, hlater⟩

/-- A breakpoint is created where there is none. -/
theorem sole_createBreakpoint (hmachine : machine.RunsOnly tid shown) (hstopped : task.stopped = true)
    (hselected : d.selectedTid = tid) {address : Address}
    (hnone : d.breakpoints.find? address = none) (specification : Text) (temporary : Bool) :
    Triple (Sole machine tid shown executed hits task d m)
      (createBreakpoint arch (machine.environment arch) address specification temporary)
      (fun _ => Sole machine tid shown executed hits task
        { d with
          breakpoints := d.breakpoints.insert address (d.created address specification temporary
            (bytesAt m address arch.breakpointSize))
          nextBreakpointId := d.nextBreakpointId + 1 }
        (store m address arch.breakpointInstruction)) (fun _ _ => False) := by
  intro s hs
  rw [createBreakpoint, get_bind_apply, hs.debugger, hnone]
  dsimp only
  -- The record goes into the table disabled.
  have hinsert : Triple (Sole machine tid shown executed hits task d m)
      (insertBreakpoint (R := R) (D := D) ⟨d.nextBreakpointId, address, specification, [], false,
        temporary, false⟩)
      (fun _ => Sole machine tid shown executed hits task
        { d with
          breakpoints := d.breakpoints.insert address
            ⟨d.nextBreakpointId, address, specification, [], false, temporary, false⟩
          nextBreakpointId := d.nextBreakpointId + 1 } m) (fun _ _ => False) :=
    Triple.modify fun _ ht => ht.change fun d' =>
      { d' with
        breakpoints := d'.breakpoints.insert address
          ⟨d.nextBreakpointId, address, specification, [], false, temporary, false⟩
        nextBreakpointId := d'.nextBreakpointId + 1 }
  refine Triple.bind hinsert (fun _ => ?_) s hs
  refine Triple.bind (sole_enable hmachine hstopped hselected (SortedMap.find?_insert_self _ _ _) rfl
    rfl rfl) fun _ => ?_
  have htable : (d.breakpoints.insert address
        ⟨d.nextBreakpointId, address, specification, [], false, temporary, false⟩).modify address
      (fun r => r.armedWith (bytesAt m address arch.breakpointSize))
        = d.breakpoints.insert address (d.created address specification temporary
          (bytesAt m address arch.breakpointSize)) := by
    rw [SortedMap.modify_of_find? _ (SortedMap.find?_insert_self _ _ _),
      SortedMap.insert_insert_self]
    rfl
  rw [Debugger.withRecord, htable]
  refine Triple.bind (Triple.get_bind fun t => ?_) fun _ => Triple.pure fun _ ht => ht
  cases t.debugger.breakpoints.find? address with
  | none => exact Triple.pure fun _ ht => ht.2
  | some r => exact Triple.doIf (fun _ => (sole_note rfl).pre fun _ ht => ht.2) fun _ _ ht => ht.2

variable (executed hits) in
/-- With the breakpoint of `finish` the thread rests where it was. -/
theorem RestsAt.createFinish (hmachine : machine.RunsOnly tid shown) {current : R × Memory}
    {address : Address} (hapart : ApartFrom arch breakpoints address)
    (hrests : RestsAt arch tid breakpoints current task d m) :
    ∃ d' m', RestsAt arch tid (d.finishTable arch address m) current task d' m' ∧
      Triple (Sole machine tid shown executed hits task d m)
        (createBreakpoint arch (machine.environment arch) address "<finish>".toList true)
        (fun _ => Sole machine tid shown executed hits task d' m') (fun _ _ => False) := by
  obtain ⟨hregs, hstopped, hover, hd⟩ := hrests
  cases hr : d.breakpoints.find? address with
  | some existing =>
      have htable : d.finishTable arch address m = breakpoints := by
        rw [Debugger.finishTable, if_pos (SortedMap.contains_eq_true_iff.mpr ⟨existing, hr⟩),
          hd.breakpoints]
      rw [htable]
      refine ⟨d, m, ⟨hregs, hstopped, hover, hd⟩, fun s hs => ?_⟩
      rw [createBreakpoint, get_bind_apply, hs.debugger, hr]
      exact hs
  | none =>
      have htable : d.finishTable arch address m = d.breakpoints.insert address
          (d.created address "<finish>".toList true (bytesAt m address arch.breakpointSize)) := by
        rw [Debugger.finishTable, SortedMap.contains_eq_false_iff.mpr hr, if_neg Bool.false_ne_true]
      refine ⟨{ d with
        breakpoints := d.breakpoints.insert address
          (d.created address "<finish>".toList true (bytesAt m address arch.breakpointSize))
        nextBreakpointId := d.nextBreakpointId + 1 }, store m address arch.breakpointInstruction,
        ⟨hregs, hstopped, ?_, ⟨hd.alive, hd.selected, hd.threads, htable.symm, hd.pending⟩⟩,
        sole_createBreakpoint hmachine hstopped hd.selected hr _ true⟩
      rw [← hd.breakpoints] at hover hapart
      -- First there is a disabled record, then its trap is put in.
      have hrecord : Overlaid arch (d.breakpoints.insert address
          { d.created address "<finish>".toList true [] with enabled := false }) current.2 m := by
        refine hover.congr fun key r henabled => ?_
        rw [SortedMap.find?_insert]
        by_cases hkey : key = address
        · rw [if_pos hkey, hkey, hr]
          refine iff_of_false (fun hsome => ?_) (by simp)
          obtain rfl := Option.some.inj hsome
          cases henabled
        · rw [if_neg hkey]
      have hapart' : ApartFrom arch (d.breakpoints.insert address
          { d.created address "<finish>".toList true [] with enabled := false }) address := by
        intro other r hother henabled hne
        rw [SortedMap.find?_insert_of_ne _ _ hne] at hother
        exact hapart other r hother henabled hne
      have hput := hrecord.put hapart' (SortedMap.find?_insert_self _ _ _) rfl
      rw [SortedMap.modify_of_find? _ (SortedMap.find?_insert_self _ _ _),
        SortedMap.insert_insert_self] at hput
      rw [htable]
      exact hput

/-- Where `finish` puts its breakpoint, if the thread has these registers. -/
def State.finishAddress (arch : Architecture R D) (s : State R D) (regs : R) : Address :=
  word s.target.memory (arch.framePointer regs + 8)

/-- The thread is stopped there, `n` instructions after the state `s`, and a hit has been announced
there. -/
structure FinishesAt (arch : Architecture R D) (program : Program R) (regs : R) (memory : Memory)
    (tid : Tid) (n : Nat) (s t : State R D) : Prop where
  stops : StopsAt program regs memory tid n s t
  announced : ∃ id, t.hits = (id, arch.pc (program.after regs memory n).1) :: s.hits

variable (executed hits) in
/-- `finish` runs to the first of the enabled breakpoints, its own included. -/
theorem RestsAt.stepOut (hpc : arch.LawfulPc) (hmachine : machine.RunsOnly tid fun _ => True)
    (hformed : WellFormed arch breakpoints) {address : Address}
    (haddress : word m (arch.framePointer regs + 8) = address)
    (hapart : ∀ key, ApartFrom arch breakpoints key)
    (hapart' : ∀ key, ApartFrom arch (d.finishTable arch address m) key)
    (hp : machine.program.Ordinary arch regs memory (d.finishTable arch address m) text fetched)
    (hrests : RestsAt arch tid breakpoints (regs, memory) task d m) :
    Triple (Sole machine tid (fun _ => True) executed hits task d m)
      (stepOut arch (machine.environment arch))
      (fun _ s => ∃ n id, 0 < n ∧
        machine.program.Clear arch regs memory (d.finishTable arch address m) 1 n ∧
        machine.program.meets arch regs memory (d.finishTable arch address m) n = true ∧
        s.executions.length = executed.length + n ∧
        s.hits = (id, arch.pc (machine.program.after regs memory n).1) :: hits ∧
        ∃ task', s.target.tasks.find? tid = some task' ∧ task'.stopped = true ∧
          task'.regs = (machine.program.after regs memory n).1)
      (fun halt _ => halt = .blocked ∧ ∃ tick, machine.program.Clear arch regs memory
        (d.finishTable arch address m) 1 (machine.instructions tick)) := by
  have hformed' := wellFormed_finishTable (hrests.standing.breakpoints ▸ hformed) address m
  obtain ⟨d', m', hrests', hcreate⟩ := hrests.createFinish executed hits hmachine (hapart address)
  have hcontinue := RestsAt.continueExecution (n := 0) executed hits hpc hp hapart' hformed' hmachine
    hrests'
  refine Triple.rescue (F := fun halt _ => halt = .blocked ∧ ∃ tick,
      machine.program.Clear arch regs memory (d.finishTable arch address m) 1
        (machine.instructions tick)) ?_ ?_ fun _ _ _ hfar => hfar
  · intro s hs
    rw [get_bind_apply, hs.debugger, hrests.standing.selected]
    refine Triple.bind (sole_returnAddress hmachine hrests.stopped).never (fun value => ?_) s hs
    rintro t ⟨rfl, ht⟩
    have hvalue : word m (arch.framePointer task.regs + 8) = address := by
      rw [hrests.registers, haddress]
    rw [hvalue]
    refine Triple.bind hcreate.never (fun id => ?_) t ht
    refine Triple.bind (sole_note rfl).never fun _ => ?_
    refine hcontinue.post fun _ u hu => ?_
    obtain ⟨n, r, hpos, hclear, hmeets, -, hlength, hu⟩ := hu
    exact ⟨n, r.id, hpos, hclear, hmeets, hlength, hu.hits, hu.thread⟩
  · rintro halt exception hthrown s ⟨rfl, -⟩
    cases hthrown

/-- On x86-64, `finish` stops where the activation has returned exactly if that is the first place,
after the instruction the thread is at, where there is an enabled breakpoint: one that is enabled
already, or its own, at the address above the frame pointer, unless there is a record at it. -/
theorem stepOut_finishes_iff {machine : Machine UserRegs X86_64.DebugRegisters} {regs : UserRegs}
    {flow : UserRegs → Memory → Flow} {s : State UserRegs X86_64.DebugRegisters}
    (hs : StandsAt x86_64 machine tid s.debugger.breakpoints (regs, memory) s)
    (hformed : WellFormed x86_64 s.debugger.breakpoints)
    (hp : machine.program.Ordinary x86_64 regs memory
      (s.debugger.finishTable x86_64 (s.finishAddress x86_64 regs) s.target.memory) text fetched)
    (hmachine : machine.RunsOnly tid fun _ => True)
    (hreturns : machine.program.ReturnsAt flow regs memory n)
    (hlong : ∀ tick, n < machine.instructions tick) :
    (∃ t, stepOut x86_64 (machine.environment x86_64) s = .ok ⟨⟩ t ∧
        FinishesAt x86_64 machine.program regs memory tid n s t) ↔
      s.debugger.armedFor (s.finishAddress x86_64 regs)
          (machine.program.after regs memory n).1.rip = true ∧
        ∀ m, 0 < m → m < n → s.debugger.armedFor (s.finishAddress x86_64 regs)
          (machine.program.after regs memory m).1.rip = false := by
  have hapart : ∀ breakpoints key, ApartFrom x86_64 breakpoints key :=
    fun _ _ _ _ _ _ hne => apart_one hne.symm
  have hmeets : ∀ m, s.debugger.armedFor (s.finishAddress x86_64 regs)
      (machine.program.after regs memory m).1.rip
        = machine.program.meets x86_64 regs memory (s.debugger.finishTable x86_64
          (s.finishAddress x86_64 regs) s.target.memory) m := by
    intro m
    rw [meets_finishTable]
    rfl
  simp only [hmeets]
  obtain ⟨task, hrests, hsole⟩ := hs.sole
  have haddress : word s.target.memory (x86_64.framePointer regs + 8) = s.finishAddress x86_64 regs :=
    rfl
  have hspec := hrests.stepOut s.executions s.hits x86_64_lawfulPc hmachine hformed haddress
    (hapart _) (hapart _) hp
  constructor
  · rintro ⟨t, hrun, ht⟩
    obtain ⟨n', id, hpos, hclear, hhere, hcount, -, -⟩ := hspec.of_ok hsole hrun
    have heq : n' = n := by
      have hcounted := ht.stops.executed
      omega
    subst heq
    exact ⟨hhere, fun m hpos hlt => hclear m hpos hlt⟩
  · rintro ⟨hhere, hclear⟩
    cases hrun : Cosy.stepOut x86_64 (machine.environment x86_64) s with
    | error halt t =>
        -- The wait would have lasted until the return.
        obtain ⟨-, tick, hnone⟩ := hspec.of_error hsole hrun
        rw [hnone n hreturns.pos (hlong tick)] at hhere
        cases hhere
    | ok _ t =>
        obtain ⟨n', id, hpos, hbefore, hthere, hcount, hhits, hthread⟩ := hspec.of_ok hsole hrun
        have heq : n' = n := by
          rcases lt_trichotomy n' n with hlt | heq | hlt
          · rw [hclear n' hpos hlt] at hthere
            cases hthere
          · exact heq
          · rw [hbefore n hreturns.pos hlt] at hhere
            cases hhere
        subst heq
        exact ⟨t, rfl, ⟨⟨hcount, hthread⟩, id, hhits⟩⟩

/-! ### In a function that calls another -/

/-- The registers and the memory once the inner function has set its frame pointer. -/
def bodyRegs : UserRegs := (callingCode.program.after callingRegs nopText 6).1

def bodyMemory : Memory := (callingCode.program.after callingRegs nopText 6).2

/-- The thread is stopped there, and there are no breakpoints. -/
def inBody : State UserRegs X86_64.DebugRegisters where
  debugger := { Debugger.fresh 1 with
    selectedTid := 1
    threads := SortedMap.empty.insert 1 ⟨1, true, sigtrap⟩ }
  target := { nopTarget 1 with
    memory := bodyMemory
    tasks := SortedMap.empty.insert 1 { stoppedTask 0x1000 with regs := bodyRegs }
    ready := [] }
  tick := 0
  log := []

/-- Five instructions later the program is in its last loop. -/
theorem body_fixed :
    callingCode.program.after bodyRegs bodyMemory 6
      = callingCode.program.after bodyRegs bodyMemory 5 := Prod.ext (by decide +kernel) rfl

theorem ordinary_body :
    callingCode.program.Ordinary x86_64 bodyRegs bodyMemory
      (inBody.debugger.finishTable x86_64 (inBody.finishAddress x86_64 bodyRegs) bodyMemory) {0x2009}
      (fun n => {(callingCode.program.after bodyRegs bodyMemory n).1.rip}) := by
  have hquiet : ∀ n < 6, x86_64.trapAt (callingCode.program.after bodyRegs bodyMemory n).2
      (callingCode.program.after bodyRegs bodyMemory n).1.rip = false := by decide +kernel
  refine FrameCode.ordinary (fun n x hx => ?_) (fun n => ?_) fun key r hr => ?_
  · obtain rfl := hx
    have hfar : ∀ n < 6, 16 ≤ (0x2009#64 -
          ((callingCode.program.after bodyRegs bodyMemory n).1.rsp - 8)).toNat ∧
        8 ≤ (0x2009#64 - (callingCode.program.after bodyRegs bodyMemory n).1.rbp).toNat := by
      decide +kernel
    refine Program.after_forall (p := fun current => (0x2009 : Address) ∉ current.1.stack) body_fixed
      (fun n hn => ?_) n
    obtain ⟨hstack, hframe⟩ := hfar n hn
    rintro (hnear | hnear)
    · exact absurd hnear (Nat.not_lt.mpr hstack)
    · exact absurd hnear (Nat.not_lt.mpr hframe)
  · exact Program.after_forall (p := fun current => x86_64.trapAt current.2 current.1.rip = false)
      body_fixed hquiet n
  · have haddress : inBody.finishAddress x86_64 bodyRegs = 0x2009 := by decide +kernel
    rw [haddress] at hr
    change (SortedMap.insert SortedMap.empty (0x2009 : Address) _).find? key = some r at hr
    rw [SortedMap.find?_insert] at hr
    split at hr
    · assumption
    · cases hr

/-- With its frame pointer set, `finish` stops where the function has returned to. -/
theorem stepOut_finishes_body :
    ∃ t, stepOut x86_64 (calling.environment x86_64) inBody = .ok ⟨⟩ t ∧
      FinishesAt x86_64 callingCode.program bodyRegs bodyMemory 1 3 inBody t := by
  have hstands : StandsAt x86_64 calling 1 inBody.debugger.breakpoints (bodyRegs, bodyMemory)
      inBody := {
    thread := ⟨_, rfl, rfl, rfl⟩
    consumed := rfl
    maps := rfl
    overlaid := overlaid_empty _ _
    debugger := ⟨rfl, rfl, ⟨sigtrap, rfl⟩, rfl, rfl⟩ }
  have hreturns : callingCode.program.ReturnsAt callingCode.flow bodyRegs bodyMemory 3 := by
    decide +kernel
  have hlong : ∀ tick, 3 < calling.instructions tick := fun _ => (by decide : 3 < 8)
  refine (stepOut_finishes_iff hstands wellFormed_empty ordinary_body (calling_runsOnly _) hreturns
    hlong).mpr ⟨by decide +kernel, ?_⟩
  intro m hpos hlt
  have hbetween : ∀ m < 3, 0 < m → inBody.debugger.armedFor (inBody.finishAddress x86_64 bodyRegs)
      (callingCode.program.after bodyRegs bodyMemory m).1.rip = false := by decide +kernel
  exact hbetween m hlt hpos

/-- Stopped at its first instruction, before it has pushed the frame pointer, the function returns to
another one, and `finish` runs on until that has returned as well. -/
theorem finish_passes_return :
    ∃ s, Prompt x86_64 (calling.environment x86_64) (State.initial 1 callingTarget) s ∧
      StandsAt x86_64 calling 1 s.debugger.breakpoints (s.onlyRegs, s.originalMemory) s ∧
      s.onlyRegs.rip = 0x3000 ∧ callingCode.FollowsConvention ∧ calling.RunsOnly 1 (fun _ => True) ∧
      callingCode.program.ReturnsAt callingCode.flow s.onlyRegs s.originalMemory 5 ∧
      callingCode.program.Clear x86_64 s.onlyRegs s.originalMemory s.debugger.breakpoints 1 6 ∧
      ¬ ∃ t, stepOut x86_64 (calling.environment x86_64) s = .ok ⟨⟩ t ∧
        FinishesAt x86_64 callingCode.program s.onlyRegs s.originalMemory 1 5 s t := by
  obtain ⟨s, hs, hcheck⟩ := Prompt.exists_of_runBatch x86_64 (calling.environment x86_64)
    (State.initial 1 callingTarget) ["b *0x3000".toList, "continue".toList]
    (p := fun s => standsStopped calling s && decide (s.onlyRegs.rip = 0x3000) &&
      decide (callingCode.program.ReturnsAt callingCode.flow s.onlyRegs s.originalMemory 5) &&
      (List.range 6).all (fun m => decide (m = 0) ||
        !callingCode.program.meets x86_64 s.onlyRegs s.originalMemory s.debugger.breakpoints m) &&
      decide ((endState (stepOut x86_64 (calling.environment x86_64)) s).executions.length
        = s.executions.length + 7)) (by decide +kernel)
  simp only [Bool.and_eq_true, decide_eq_true_eq] at hcheck
  obtain ⟨⟨⟨⟨hstands, hrip⟩, hreturns⟩, hclear⟩, hseven⟩ := hcheck
  have hclear' : callingCode.program.Clear x86_64 s.onlyRegs s.originalMemory s.debugger.breakpoints
      1 6 := by
    intro m hle hlt
    have hm := List.all_eq_true.mp hclear m (List.mem_range.mpr hlt)
    simpa [Nat.one_le_iff_ne_zero.mp hle] using hm
  refine ⟨s, hs, standsAt_of_standsStopped hstands, hrip,
    FrameCode.followsConvention_of_conventional (by decide), calling_runsOnly _, hreturns, hclear', ?_⟩
  rintro ⟨t, hrun, ht⟩
  have hfive := ht.stops.executed
  rw [endState_of_ok hrun] at hseven
  omega

end Cosy
