import Cosy.Commands

/-!
# A machine to debug

An environment in which the traced threads run a program. Before each system call the machine
performs the actions its schedule has for that moment: single instructions of single threads, in any
interleaving, and whatever else can stop or end a thread. A stopped thread does nothing.
-/

namespace Cosy

open ByteMemory

variable {R D : Type}

/-- What executing one instruction does to the registers of a thread and to the memory. -/
structure Program (R : Type) where
  step : R → Memory → R × Memory

inductive Action (R D : Type) where
  /-- A running thread executes one instruction. -/
  | run (tid : Tid)
  /-- A running thread stops for any other reason: a signal, a ptrace event, a watchpoint. -/
  | stop (tid : Tid) (signal event : Nat) (eventMsg : Address) (siCode : Int)
  /-- A running thread exits; a traced one has been in the stop of `PTRACE_EVENT_EXIT` before. -/
  | exit (tid : Tid) (code : Nat)
  | kill (tid : Tid) (signal : Nat)
  /-- A running thread creates a thread, which starts out stopped. -/
  | clone (tid newTid : Tid) (debug : D)
  /-- A running thread replaces the address space. -/
  | exec (tid : Tid) (memory : Memory)
  /-- The memory maps change. -/
  | map (maps : Option ModuleManager)

/-- The thread, if it is running. -/
def Target.running (target : Target R D) (tid : Tid) : Option (Task R D) :=
  (target.tasks.find? tid).filter fun task => !task.stopped

/-- A thread enters a ptrace stop, which `waitpid` will report. -/
def Target.halt (target : Target R D) (tid : Tid) (task : Task R D) (status : WaitStatus) :
    Target R D :=
  { target with
    tasks := target.tasks.insert tid { task with stopped := true, stepping := false }
    ready := target.ready ++ [(tid, status)] }

/-- A thread ends. -/
def Target.bury (target : Target R D) (tid : Tid) (status : WaitStatus) : Target R D :=
  { target with
    tasks := target.tasks.erase tid
    ready := target.ready ++ [(tid, status)] }

/-- What the program has written to memory, it would have written without the debugger too. -/
def imageAfter (before after image : Memory) : Memory := fun x =>
  if after x = before x then image x else after x

/-- Whether the processor finds the trap instruction at an address. -/
def Architecture.trapAt (arch : Architecture R D) (memory : Memory) (address : Address) : Bool :=
  bytesAt memory address arch.breakpointSize = arch.breakpointInstruction

/-- One instruction of a running thread. -/
def runTask (arch : Architecture R D) (program : Program R) (target : Target R D) (tid : Tid)
    (task : Task R D) : List TargetEvent × Target R D :=
  let address := arch.pc task.regs
  if arch.trapAt target.memory address then
    ([.trapped tid address],
      target.halt tid
        { task with regs := arch.setPc task.regs (arch.pcAfterTrap address), siCode := 0x80 }
        (.stopped sigtrap 0))
  else
    let (regs, memory) := program.step task.regs target.memory
    let moved : Target R D :=
      { target with
        memory := memory
        image := imageAfter target.memory memory target.image }
    ([.executed tid address],
      if task.stepping then moved.halt tid { task with regs := regs, siCode := 2 } (.stopped sigtrap 0)
      else moved.setTask tid { task with regs := regs })

def cloneTask (target : Target R D) (tid newTid : Tid) (task : Task R D) (debug : D) :
    Target R D :=
  let parent := target.halt tid { task with eventMsg := BitVec.ofInt 64 newTid }
    (.stopped sigtrap ptraceEventClone)
  if target.tasks.contains newTid then target
  else parent.halt newTid { task with debug := debug } (.stopped sigstop 0)

def perform (arch : Architecture R D) (program : Program R) (target : Target R D) :
    Action R D → List TargetEvent × Target R D
  | .run tid =>
      match target.running tid with
      | some task => runTask arch program target tid task
      | none => ([], target)
  | .stop tid signal event eventMsg siCode =>
      match target.running tid with
      | some task =>
          ([.other tid],
            target.halt tid { task with eventMsg := eventMsg, siCode := siCode }
              (.stopped signal event))
      | none => ([], target)
  | .exit tid code =>
      match target.running tid with
      | some _ => ([.other tid], target.bury tid (.exited code))
      | none => ([], target)
  | .kill tid signal =>
      match target.running tid with
      | some _ => ([.other tid], target.bury tid (.signaled signal))
      | none => ([], target)
  | .clone tid newTid debug =>
      match target.running tid with
      | some task => ([.other tid], cloneTask target tid newTid task debug)
      | none => ([], target)
  | .exec tid memory =>
      match target.running tid with
      | some task =>
          ([.exec tid],
            { target with memory := memory, image := memory }.halt tid task
              (.stopped sigtrap ptraceEventExec))
      | none => ([], target)
  | .map maps => ([], { target with maps := maps })

/-- The actions one after another; the events of the last one come first. -/
def performAll (arch : Architecture R D) (program : Program R) (target : Target R D) :
    List (Action R D) → List TargetEvent × Target R D
  | [] => ([], target)
  | action :: rest =>
      let (events, moved) := perform arch program target action
      let (later, final) := performAll arch program moved rest
      (later ++ events, final)

structure Machine (R D : Type) where
  program : Program R
  schedule : Nat → List (Action R D)
  fails : Nat → Bool

def Machine.environment (machine : Machine R D) (arch : Architecture R D) : Environment R D where
  interfere tick target := performAll arch machine.program target (machine.schedule tick)
  fails := machine.fails

def Action.isMap : Action R D → Bool
  | .map _ => true
  | _ => false

theorem runTask_maps (arch : Architecture R D) (program : Program R) (target : Target R D)
    (tid : Tid) (task : Task R D) : (runTask arch program target tid task).2.maps = target.maps := by
  unfold runTask
  dsimp only
  split
  · rfl
  · split <;> rfl

theorem perform_maps (arch : Architecture R D) (program : Program R) (target : Target R D)
    {action : Action R D} (haction : action.isMap = false) :
    (perform arch program target action).2.maps = target.maps := by
  cases action with
  | map => cases haction
  | run tid =>
      unfold perform
      dsimp only
      split
      · exact runTask_maps arch program target tid _
      · rfl
  | clone tid newTid debug =>
      unfold perform
      dsimp only
      split
      · unfold cloneTask
        split <;> rfl
      · rfl
  | _ =>
      unfold perform
      dsimp only
      split <;> rfl

theorem performAll_maps (arch : Architecture R D) (program : Program R)
    {actions : List (Action R D)} (hactions : ∀ action ∈ actions, action.isMap = false)
    (target : Target R D) : (performAll arch program target actions).2.maps = target.maps := by
  induction actions generalizing target with
  | nil => rfl
  | cons action rest ih =>
      calc (performAll arch program target (action :: rest)).2.maps
          = (perform arch program target action).2.maps :=
            ih (fun action hmem => hactions action (List.mem_cons_of_mem _ hmem)) _
        _ = target.maps := perform_maps arch program target (hactions action List.mem_cons_self)

/-! ### A small program for x86-64 -/

/-- Instructions of one byte that do nothing. -/
def nops : Program UserRegs where
  step regs memory := ({ regs with rip := regs.rip + 1 }, memory)

def nopText : Memory := fun _ => 0x90

/-- The registers of a thread about to execute the instruction at `rip`. -/
def UserRegs.startingAt (rip : Address) : UserRegs :=
  ⟨0, 0, 0, 0, 0, 0, 0, 0, 0, 0, 0, 0, 0, 0, 0, 0, rip, 0, 0, 0, 0, 0, 0, 0, 0, 0, 0⟩

/-- A thread that has just stopped at `rip`. -/
def stoppedTask (rip : Address) : Task UserRegs X86_64.DebugRegisters where
  regs := .startingAt rip
  debug _ := 0
  stopped := true
  stepping := false
  options := false
  eventMsg := 0
  siCode := 0

/-- The process of that program after its `exec`. -/
def nopTarget (tid : Tid) : Target UserRegs X86_64.DebugRegisters where
  memory := nopText
  image := nopText
  tasks := SortedMap.empty.insert tid (stoppedTask 0x1000)
  ready := [(tid, .stopped sigtrap 0)]
  maps := some .unloaded

/-- What the threads of that program do, given by the actions before each system call. -/
def nopMachine (schedule : Nat → List (Action UserRegs X86_64.DebugRegisters)) :
    Environment UserRegs X86_64.DebugRegisters :=
  Machine.environment { program := nops, schedule := schedule, fails := fun _ => false } x86_64

/-- The first thread executes this many instructions before every system call, as far as it runs. -/
def runningMachine (count : Nat) : Environment UserRegs X86_64.DebugRegisters :=
  nopMachine fun _ => List.replicate count (.run 1)

end Cosy
