import Cosy.Lib.Effect
import Cosy.Modules

/-!
# The state of a debugging session

Three parts that change together: the debugger's own fields, the traced process with the part of the
kernel that `ptrace` reaches, and the log of the session. The log is a record kept for the proofs:
the debugger's output is in it, and so is what happened in the traced process, in one order.
-/

namespace Cosy

open ByteMemory

/-! ### Exceptions -/

inductive Exception where
  /-- `SystemError`, with the operation that failed. -/
  | system (operation : String)
  | runtime (text : String)
  /-- `std::out_of_range`, from `std::map::at`. -/
  | outOfRange
deriving DecidableEq

/-- Why a run of debugger code does not return: an exception, or a wait that never ends. -/
inductive Halt where
  | thrown (exception : Exception)
  | blocked
deriving DecidableEq

def Halt.exception? : Halt → Option Exception
  | .thrown exception => some exception
  | .blocked => none

/-! ### The traced process -/

def sigtrap : Nat := 5

def sigstop : Nat := 19

def ptraceEventClone : Nat := 3

def ptraceEventExec : Nat := 4

/-- `TRAP_HWBKPT`. -/
def trapHwbkpt : Int := 4

/-- A status reported by `waitpid`, decoded: `stopped` has the stop signal and the ptrace event. -/
inductive WaitStatus where
  | exited (code : Nat)
  | signaled (signal : Nat)
  | stopped (signal event : Nat)
  | continued
deriving DecidableEq

def WaitStatus.isStopped : WaitStatus → Bool
  | .stopped _ _ => true
  | _ => false

/-- `WSTOPSIG` of a stop, 0 otherwise. -/
def WaitStatus.stopSignal : WaitStatus → Nat
  | .stopped signal _ => signal
  | _ => 0

/-- A traced thread, as the kernel knows it. -/
structure Task (R D : Type) where
  regs : R
  debug : D
  /-- In a ptrace stop, whether or not the stop has been reported. -/
  stopped : Bool
  /-- Resumed by `PTRACE_SINGLESTEP`. -/
  stepping : Bool
  /-- The options of `set_options` are in force. -/
  options : Bool
  eventMsg : Address
  siCode : Int

structure Target (R D : Type) where
  memory : Memory
  /-- What the memory would hold had the debugger never written to it. -/
  image : Memory
  tasks : SortedMap Tid (Task R D)
  /-- The statuses `waitpid` has yet to report, in the order in which it will. -/
  ready : List (Tid × WaitStatus)
  /-- What refreshing the modules would find; `none` if the memory maps cannot be read. -/
  maps : Option ModuleManager

def Target.setTask {R D : Type} (target : Target R D) (tid : Tid) (task : Task R D) :
    Target R D :=
  { target with tasks := target.tasks.insert tid task }

/-- Something a traced thread did. -/
inductive TargetEvent where
  /-- It executed the instruction of the program at this address. -/
  | executed (tid : Tid) (address : Address)
  /-- It executed the trap instruction at this address. -/
  | trapped (tid : Tid) (address : Address)
  /-- It replaced the address space. -/
  | exec (tid : Tid)
  /-- Anything else that stops or ends it. -/
  | other (tid : Tid)

/-! ### The debugger -/

structure Breakpoint where
  id : Int
  address : Address
  specification : Text
  saved : List Byte
  enabled : Bool
  temporary : Bool
  pending : Bool
deriving DecidableEq

structure Watchpoint where
  id : Int
  slot : Nat
  address : Address
  access : WatchAccess
  bytes : Nat
deriving DecidableEq

structure ThreadState where
  tid : Tid
  stopped : Bool
  signal : Nat
deriving DecidableEq

structure Debugger where
  child : Tid
  selectedTid : Tid
  alive : Bool
  detached : Bool
  modules : ModuleManager
  threads : SortedMap Tid ThreadState
  breakpoints : SortedMap Address Breakpoint
  pendingBreakpoints : List Breakpoint
  watchpoints : List Watchpoint
  nextBreakpointId : Int
  nextWatchpointId : Int
  selectedFrame : Nat

/-- The debugger as its constructor leaves it, with the process `launch` is about to trace. -/
def Debugger.fresh (child : Tid) : Debugger where
  child := child
  selectedTid := -1
  alive := true
  detached := false
  modules := .unloaded
  threads := .empty
  breakpoints := .empty
  pendingBreakpoints := []
  watchpoints := []
  nextBreakpointId := 1
  nextWatchpointId := 1
  selectedFrame := 0

/-! ### The log -/

/-- What the debugger prints, one constructor for each kind of line. -/
inductive Message : Type where
  /-- A line that is the same on every run: usage, help and refusals. -/
  | line (text : String)
  | banner (name : Text) (child : Tid)
  | error (exception : Exception)
  | resolvedPending (id : Int) (address : Address)
  | breakpointPending (id : Int) (specification : Text)
  | breakpointAt (id : Int) (address : Address)
  | temporaryAt (id : Int) (address : Address)
  | cannotFinish (exception : Exception)
  | watchpointAt (id : Int) (address : Address)
  | watchpointFailed (exception : Exception)
  | exited (tid : Tid) (code : Nat)
  | terminated (tid : Tid) (signal : Nat)
  | hitBreakpoint (id : Int) (address : Address)
  | temporaryRemoved (id : Int)
  | hitWatchpoint (id : Int) (address : Address)
  | trapInspectionFailed (exception : Exception)
  | threadStopped (tid : Tid)
  | threadStoppedBy (tid : Tid) (signal : Nat)
  | atLine (function : Text) (location : SourceLocation)
  | atFunction (function : Text) (pc : Address)
  | breakpointRow (breakpoint : Breakpoint)
  | threadRow (selected : Bool) (state : ThreadState)
  | moduleRow (info : ModuleInfo)
  | registerRow (name : Text) (value : Address)
  | frameRow (selected : Bool) (index : Nat) (pc : Address) (function : Text)
      (location : SourceLocation) (frame : Address)
  | variableRow (value : VariableValue)
  | memoryRow (address value : Address)
  | memoryFailed (address : Address) (exception : Exception)
  | registerValue (value : Option Address)

/-- The two requests that resume a thread. -/
inductive ResumeRequest where
  | cont
  | singlestep
deriving DecidableEq

/-- The two places that consume what `waitpid` reports. -/
inductive Site where
  | stepOver
  | waitAndReport
deriving DecidableEq

/-- An entry of the session's log. -/
inductive Entry : Type where
  | target (event : TargetEvent)
  | out (message : Message)
  /-- A trap is about to be inserted; from here on the breakpoint counts as armed. -/
  | arming (address : Address)
  /-- The trap is out of memory again, or was not inserted after all. -/
  | disarmed (address : Address)
  /-- `disable` wrote these bytes back, where the program itself has the second ones. -/
  | restored (address : Address) (saved original : List Byte)
  /-- The user's breakpoint at this address is to be in force. -/
  | userEnabled (address : Address)
  /-- The user disables or deletes the breakpoint at this address. -/
  | userDisabled (address : Address)
  /-- `set memory` writes the word at this address. -/
  | userWrote (address : Address)
  /-- A step-over begins; `alone` if no other thread is running. -/
  | stepOver (tid : Tid) (address : Address) (alone : Bool)
  /-- A status was taken from `waitpid`, the thread being at `pc`. -/
  | consumed (site : Site) (tid : Tid) (status : WaitStatus) (pc : Option Address)
  /-- An exception came between lifting the trap and the event of the step. -/
  | stepFailed (tid : Tid)
  /-- Putting the trap back after a step-over failed: the stop was `tid`'s, the step `selected`'s. -/
  | reinsertFailed (tid selected : Tid)
  /-- The stop that `wait_and_report` has just consumed goes to `print_stop`: the signal it is going
  to report, the table, and where the thread is stopped. -/
  | reporting (tid : Tid) (signal : Option Nat) (breakpoints : SortedMap Address Breakpoint)
      (pc : Option Address)
  /-- `print_stop` is done with it, or has thrown. -/
  | reported (tid : Tid)
  /-- `print_stop` announces a hit of a record, which may be enabled or not. -/
  | hit (tid : Tid) (id : Int) (address : Address) (enabled : Bool)
  | setPc (tid : Tid) (value : Address)
  | resumed (tid : Tid) (request : ResumeRequest) (signal : Nat)
  /-- `PTRACE_DETACH` let a thread go while the memory was this, and the image that. -/
  | released (tid : Tid) (memory image : Memory)

/-! ### The session -/

structure State (R D : Type) where
  debugger : Debugger
  target : Target R D
  /-- The number of system calls made so far. -/
  tick : Nat
  /-- The newest entry first. -/
  log : List Entry

/-- Everything outside the debugger: before each system call the traced process and the kernel move
on, and a `ptrace` request may fail for a reason of their own. -/
structure Environment (R D : Type) where
  interfere : Nat → Target R D → List TargetEvent × Target R D
  fails : Nat → Bool

/-- Debugger code. -/
abbrev Dbg (R D α : Type) : Type := EStateM Halt (State R D) α

end Cosy
