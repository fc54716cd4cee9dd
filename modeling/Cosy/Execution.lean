import Cosy.Watchpoints

/-!
# Execution

Resuming threads, waiting for what happens to them, and reporting it. Two places consume what
`waitpid` returns, `stepOverBreakpoint` and `waitAndReport`, and they decode it separately.
-/

namespace Cosy

open ByteMemory Effect

variable {R D : Type} (arch : Architecture R D) (env : Environment R D)

/-! ### Registers -/

def getRegs (tid : Tid) : Dbg R D R :=
  ptrace env arch.getRegsOperation tid fun task target => (task.regs, target)

def setRegs (tid : Tid) (regs : R) : Dbg R D Unit :=
  ptrace env arch.setRegsOperation tid fun task target =>
    (⟨⟩, target.setTask tid { task with regs := regs })

def pc (tid : Tid) : Dbg R D Address := do
  let regs ← getRegs arch env tid
  pure (arch.pc regs)

def setPc (tid : Tid) (value : Address) : Dbg R D Unit := do
  let regs ← getRegs arch env tid
  setRegs arch env tid (arch.setPc regs value)
  note (.setPc tid value)

def returnAddress (tid : Tid) : Dbg R D Address := do
  let regs ← getRegs arch env tid
  ptrace env "PTRACE_PEEKDATA return address" tid fun _ target =>
    (word target.memory (arch.framePointer regs + 8), target)

/-! ### Threads -/

/-- `static_cast<pid_t>` of an unsigned 64-bit value. -/
def toPid (value : Address) : Tid := (value.setWidth 32).toInt

def modifyThreads (change : SortedMap Tid ThreadState → SortedMap Tid ThreadState) :
    Dbg R D Unit :=
  modifyDebugger fun d => { d with threads := change d.threads }

def setOptions (tid : Tid) : Dbg R D Unit :=
  ptrace env "PTRACE_SETOPTIONS" tid fun task target =>
    (⟨⟩, target.setTask tid { task with options := true })

def ResumeRequest.operation : ResumeRequest → String
  | .cont => "PTRACE_CONT"
  | .singlestep => "PTRACE_SINGLESTEP"

/-- `PTRACE_CONT` or `PTRACE_SINGLESTEP`. -/
def resume (tid : Tid) (request : ResumeRequest) (signal : Nat) : Dbg R D Unit := do
  ptrace env request.operation tid fun task target =>
    (⟨⟩, target.setTask tid { task with stopped := false, stepping := request = .singlestep })
  note (.resumed tid request signal)

/-- Every resumption by `continue` and `stepi` leaves the signal argument at its default. -/
def resumeThread (tid : Tid) (request : ResumeRequest) : Dbg R D Unit := do
  let s ← get
  match s.debugger.threads.find? tid with
  | some state =>
      if state.stopped then do
        resume env tid request 0
        modifyThreads fun threads =>
          threads.modify tid fun state => { state with stopped := false, signal := 0 }
      else pure ⟨⟩
  | none => pure ⟨⟩

/-! ### Reporting a stop -/

/-- The loop over the watchpoints: a failing request is passed over. -/
def inspectWatchpoints (tid : Tid) : List Watchpoint → Dbg R D Unit
  | [] => pure ⟨⟩
  | watchpoint :: rest => do
      let code ← attempt
        (ptrace env "PTRACE_GETSIGINFO" tid fun task target => (some task.siCode, target))
        fun _ => pure none
      if code = some trapHwbkpt then print (.hitWatchpoint watchpoint.id watchpoint.address)
      else inspectWatchpoints tid rest

/-- What `print_stop` does about a record once the program counter is set back. -/
def announceRecord (tid : Tid) (breakpoint : Breakpoint) (candidate : Address) : Dbg R D Unit := do
  print (.hitBreakpoint breakpoint.id candidate)
  note (.hit tid breakpoint.id candidate breakpoint.enabled)
  doIf breakpoint.temporary do
    dropBreakpoint env candidate
    print (.temporaryRemoved breakpoint.id)

/-- What `print_stop` does about a record found at the address it looked at. -/
def announceHit (tid : Tid) (breakpoint : Breakpoint) (candidate : Address) : Dbg R D Unit := do
  setPc arch env tid candidate
  announceRecord env tid breakpoint candidate

def inspectBreakpoint (tid : Tid) (candidate : Address) : Dbg R D Unit := do
  let s ← get
  match s.debugger.breakpoints.find? candidate with
  | some breakpoint => announceHit arch env tid breakpoint candidate
  | none => pure ⟨⟩

def inspectTrap (tid : Tid) : Dbg R D Unit := do
  let stoppedAt ← pc arch env tid
  inspectBreakpoint arch env tid (arch.candidate stoppedAt)
  let s ← get
  inspectWatchpoints env tid s.debugger.watchpoints

def printLocation (tid : Tid) : Dbg R D Unit := do
  let s ← get
  let modules := s.debugger.modules
  let location := modules.location (← pc arch env tid)
  let function := modules.function (← pc arch env tid)
  if location.valid then
    print (.atLine (if function = [] then "<unknown>".toList else function) location)
  else if function ≠ [] then do
    let current ← pc arch env tid
    print (.atFunction function current)
  else pure ⟨⟩

/-- `print_stop` of a thread recorded as stopped by `signal`. -/
def printStopped (tid : Tid) (signal : Nat) : Dbg R D Unit := do
  if signal = sigtrap then
    attempt (inspectTrap arch env tid) fun exception => print (.trapInspectionFailed exception)
  else if signal = sigstop then print (.threadStopped tid)
  else print (.threadStoppedBy tid signal)
  attempt (printLocation arch env tid) fun _ => pure ⟨⟩

/-- Where a thread is stopped. -/
def Target.stoppedAt (target : Target R D) (tid : Tid) : Option Address :=
  match target.tasks.find? tid with
  | some task => if task.stopped then some (arch.pc task.regs) else none
  | none => none

/-- The signal `print_stop` reports for a thread, if it reports anything. -/
def Debugger.stopSignal (d : Debugger) (tid : Tid) : Option Nat :=
  match d.threads.find? tid with
  | some state => if d.alive && state.stopped then some state.signal else none
  | none => none

def printStop (tid : Tid) : Dbg R D Unit := do
  let s ← get
  match s.debugger.stopSignal tid with
  | some signal => printStopped arch env tid signal
  | none => pure ⟨⟩

/-- `print_stop` of a stop that `wait_and_report` has consumed just before. -/
def reportStop (tid : Tid) : Dbg R D Unit := do
  let s ← get
  note (.reporting tid (s.debugger.stopSignal tid) s.debugger.breakpoints
    (s.target.stoppedAt arch tid))
  onThrow (printStop arch env tid) fun _ s => { s with log := .reported tid :: s.log }
  note (.reported tid)

/-! ### Consuming an event -/

def noteConsumed (site : Site) (tid : Tid) (status : WaitStatus) : Dbg R D Unit := do
  let s ← get
  note (.consumed site tid status (s.target.stoppedAt arch tid))

/-- The thread a clone event announces goes into the table. -/
def recordClone (tid : Tid) : Dbg R D Unit := do
  let newTid ← ptrace env "PTRACE_GETEVENTMSG" tid fun task target => (task.eventMsg, target)
  modifyThreads fun threads => threads.emplace (toPid newTid) ⟨toPid newTid, false, 0⟩

def refreshTarget : Dbg R D Unit := do
  refreshModules env
  resolvePendingBreakpoints arch env

/-- A dying clone can disappear before its initial stop is processed. -/
def prepareThread (tid : Tid) : Dbg R D Unit :=
  attempt
    (do
      setOptions env tid
      configureThreadWatchpoints arch env tid)
    fun _ => pure ⟨⟩

/-- What `wait_and_report` does about a stop, up to reporting it. -/
def handleStop (tid : Tid) (signal event : Nat) : Dbg R D Unit := do
  modifyThreads fun threads => threads.insert tid ⟨tid, true, signal⟩
  doIf (event = ptraceEventClone) (recordClone env tid)
  doIf (event = ptraceEventExec) (refreshTarget arch env)
  doIf (signal = sigstop) (prepareThread arch env tid)
  refreshTarget arch env

/-- What `handleStop` does once the stop is in the table. -/
def attendToStop (tid : Tid) (signal event : Nat) : Dbg R D Unit := do
  doIf (event = ptraceEventClone) (recordClone env tid)
  doIf (event = ptraceEventExec) (refreshTarget arch env)
  doIf (signal = sigstop) (prepareThread arch env tid)
  refreshTarget arch env

/-- The end of a thread, which is the end of the target when the thread is its leader. -/
def handleEnd (tid : Tid) : Dbg R D Unit :=
  modifyDebugger fun d =>
    { d with
      threads := d.threads.erase tid
      alive := if tid = d.child then false else d.alive }

def handleEvent (tid : Tid) (status : WaitStatus) (report : Bool) : Dbg R D Unit := do
  modifyDebugger fun d => { d with selectedTid := tid }
  match status with
  | .exited code => do
      handleEnd tid
      doIf report (print (.exited tid code))
  | .signaled signal => do
      handleEnd tid
      doIf report (print (.terminated tid signal))
  | .continued => pure ⟨⟩
  | .stopped signal event => do
      handleStop arch env tid signal event
      doIf report (reportStop arch env tid)

def waitAndReport (report : Bool) : Dbg R D Unit := do
  let (tid, status) ← waitForEvent env
  noteConsumed arch .waitAndReport tid status
  handleEvent arch env tid status report

/-! ### Stepping over a breakpoint -/

/-- No thread but `tid` is running. -/
def Target.alone (target : Target R D) (tid : Tid) : Bool :=
  target.tasks.entries.all fun entry => entry.1 = tid || entry.2.stopped

/-- `threads_.at(tid).stopped = false`. -/
def recordRunning (tid : Tid) : Dbg R D Unit := do
  let s ← get
  if s.debugger.threads.contains tid then
    modifyThreads fun threads => threads.modify tid fun state => { state with stopped := false }
  else throw (.thrown .outOfRange)

/-- The step of a thread whose trap is lifted. -/
def stepThread (tid : Tid) : Dbg R D (Tid × WaitStatus) := do
  resume env tid .singlestep 0
  recordRunning tid
  waitForEvent env

/-- Tells an exception from a wait that does not end. -/
def noteStepFailed (tid : Tid) (halt : Halt) (s : State R D) : State R D :=
  match halt with
  | .thrown _ => { s with log := .stepFailed tid :: s.log }
  | .blocked => s

/-- `step_over_breakpoint` up to its wait: the trap is lifted and the selected thread stepped. -/
def stepOffTrap (address : Address) : Dbg R D (Tid × WaitStatus) := do
  disable env address
  let s ← get
  let selected := s.debugger.selectedTid
  note (.stepOver selected address (s.target.alone selected))
  onThrow (stepThread env selected) (noteStepFailed selected)

/-- Re-insert the trap after a step-over that consumed an event of `tid`. -/
def reinsert (tid : Tid) (address : Address) : Dbg R D Unit := do
  let s ← get
  onThrow (enable arch env address)
    fun _ t => { t with log := .reinsertFailed tid s.debugger.selectedTid :: t.log }

/-- What `step_over_breakpoint` does about a stop. -/
def handleStepStop (address : Address) (tid : Tid) : Dbg R D Unit := do
  let s ← get
  if tid = s.debugger.selectedTid then reinsert arch env tid address
  else do
    reinsert arch env tid address
    modifyDebugger fun d => { d with selectedTid := tid }
    printStop arch env tid

/-- The rest of `step_over_breakpoint`: what it makes of the event. -/
def handleStepEvent (address : Address) (tid : Tid) (status : WaitStatus) : Dbg R D Unit := do
  modifyThreads fun threads => threads.insert tid ⟨tid, status.isStopped, status.stopSignal⟩
  doIf status.isStopped (handleStepStop arch env address tid)

def stepOverBreakpoint : Dbg R D Unit := do
  let s ← get
  let address ← pc arch env s.debugger.selectedTid
  let s ← get
  match s.debugger.breakpoints.find? address with
  | none => pure ⟨⟩
  | some breakpoint =>
      if breakpoint.enabled then do
        let (tid, status) ← stepOffTrap env address
        noteConsumed arch .stepOver tid status
        handleStepEvent arch env address tid status
      else pure ⟨⟩

/-! ### The execution commands -/

/-- The loop of `continue`: every thread of the table that is recorded as stopped is resumed. -/
def resumeStopped : List (Tid × ThreadState) → Dbg R D Unit
  | [] => pure ⟨⟩
  | (tid, _) :: rest => do
      resumeThread env tid .cont
      resumeStopped rest

def continueExecution : Dbg R D Unit := do
  let s ← get
  if s.debugger.alive then do
    stepOverBreakpoint arch env
    let s ← get
    resumeStopped env s.debugger.threads.entries
    waitAndReport arch env true
  else print (.line "target has exited")

def instructionStep (report : Bool) : Dbg R D Unit := do
  let s ← get
  if s.debugger.alive then do
    stepOverBreakpoint arch env
    let s ← get
    resumeThread env s.debugger.selectedTid .singlestep
    waitAndReport arch env report
  else pure ⟨⟩

/-- The line of the selected thread. -/
def selectedLocation : Dbg R D SourceLocation := do
  let s ← get
  let current ← pc arch env s.debugger.selectedTid
  let s ← get
  pure (s.debugger.modules.location current)

def SourceLocation.sameLine (left right : SourceLocation) : Bool :=
  left.file = right.file && left.line = right.line

/-- The loop of `source_step`. -/
def sourceStepFrom (before : SourceLocation) : Nat → Dbg R D Unit
  | 0 => print (.line "source step limit reached")
  | count + 1 => do
      instructionStep arch env false
      let s ← get
      if s.debugger.alive then do
        let after ← selectedLocation arch env
        if after.valid && after.sameLine before then sourceStepFrom before count
        else do
          let s ← get
          reportStop arch env s.debugger.selectedTid
      else pure ⟨⟩

def sourceStepLimit : Nat := 100000

def sourceStep : Dbg R D Unit := do
  let before ← selectedLocation arch env
  if before.valid then sourceStepFrom arch env before sourceStepLimit
  else instructionStep arch env true

def stepOut : Dbg R D Unit :=
  attempt
    (do
      let s ← get
      let target ← returnAddress arch env s.debugger.selectedTid
      let id ← createBreakpoint arch env target "<finish>".toList true
      print (.temporaryAt id target)
      continueExecution arch env)
    fun exception => print (.cannotFinish exception)

end Cosy
