import Cosy.Locals

/-!
# Commands

The command line: what each command prints or changes, `dispatch`, and the beginning and the end of
a session. `Prompt` and `Visited` are the states a session is in between two commands and the states
any of its parts ends in.
-/

namespace Cosy

open ByteMemory Effect Parallel

variable {R D : Type} (arch : Architecture R D) (env : Environment R D)

/-! ### Printing the state -/

def printBreakpoints : Dbg R D Unit := do
  let s ← get
  print (.line "Num  Type          Address             Status  Location")
  s.debugger.breakpoints.entries.forM fun entry => print (.breakpointRow entry.2)
  s.debugger.pendingBreakpoints.forM fun pending => print (.breakpointRow pending)

def printThreads : Dbg R D Unit := do
  let s ← get
  s.debugger.threads.entries.forM fun entry =>
    print (.threadRow (entry.1 = s.debugger.selectedTid) entry.2)

def printModules : Dbg R D Unit := do
  let s ← get
  s.debugger.modules.modules.forM fun info => print (.moduleRow info)

def printRegisters : Dbg R D Unit := do
  let s ← get
  let regs ← getRegs arch env s.debugger.selectedTid
  (arch.registers regs).forM fun register => print (.registerRow register.1 register.2)

/-! ### Walking the stack -/

section With

variable {M : Type → Type} [Monad M] (caller : Address → M (Option (Address × Address)))

/-- The loop of `backtrace`, with any way to find the caller of a frame: `seen` are the frames passed,
the number is what is left of 64. -/
def backtraceFromWith (seen : List Address) (current frame : Address) :
    Nat → M (List (Address × Address))
  | 0 => pure []
  | depth + 1 =>
      if frame = 0 ∨ frame ∈ seen then pure [(current, frame)]
      else do
        match ← caller frame with
        | none => pure [(current, frame)]
        | some (caller, next) =>
            if next ≤ frame then pure [(current, frame)]
            else do
              let rest ← backtraceFromWith (frame :: seen) caller next depth
              pure ((current, frame) :: rest)

variable {N : Type → Type} [Monad N] {caller} {caller' : Address → N (Option (Address × Address))}
  {Q : (α : Type) → M α → N α → Prop}

theorem related_backtraceFromWith (hrelates : Relates Q)
    (hcaller : ∀ frame, Q _ (caller frame) (caller' frame)) (depth : Nat) :
    ∀ seen current frame, Q _ (backtraceFromWith caller seen current frame depth)
      (backtraceFromWith caller' seen current frame depth) := by
  induction depth with
  | zero => exact fun _ _ _ => hrelates.result _
  | succ depth ih =>
      intro seen current frame
      refine related_ite (hrelates.result _) (hrelates.bind (hcaller frame) fun found => ?_)
      cases found with
      | none => exact hrelates.result _
      | some found =>
          refine related_ite (hrelates.result _) ?_
          exact hrelates.bind (ih _ _ _) fun rest => hrelates.result _

end With

section Read

variable {ε κ σ : Type} (select : ε → Option κ) (regs : EStateM ε σ R)
  (read : Address → EStateM ε σ Address)

/-- What a round of the loop reads, or nothing if that throws. -/
def callerWith (frame : Address) : EStateM ε σ (Option (Address × Address)) :=
  rescue select
    (do
      let caller ← read (frame + 8)
      let next ← read frame
      pure (some (caller, next)))
    fun _ => pure none

def backtraceWith : EStateM ε σ (List (Address × Address)) := do
  let current ← (do let regs ← regs; pure (arch.pc regs))
  let frame ← framePointerWith arch regs
  backtraceFromWith (callerWith select read) [] current frame 64

end Read

def backtrace : Dbg R D (List (Address × Address)) := do
  let s ← get
  backtraceWith arch Halt.exception? (getRegs arch env s.debugger.selectedTid) (readWord env)

/-! ### Printing the frames and the variables -/

def printFrames (index : Nat) : List (Address × Address) → Dbg R D Unit
  | [] => pure ⟨⟩
  | (current, frame) :: rest => do
      let s ← get
      let function := s.debugger.modules.function current
      print (.frameRow (s.debugger.selectedFrame = index) index current
        (if function = [] then "<unknown>".toList else function)
        (s.debugger.modules.location current) frame)
      printFrames (index + 1) rest

def printBacktrace : Dbg R D Unit := do
  let frames ← backtrace arch env
  printFrames 0 frames

def printLocals (wanted : Option Text) : Dbg R D Unit := do
  let s ← get
  if s.debugger.selectedFrame ≠ 0 then
    print (.line "locals are available only for the current frame")
  else do
    let current ← pc arch env s.debugger.selectedTid
    let values ← locals arch env s.debugger.selectedTid current
    let found := values.filter fun value => wanted = none ∨ wanted = some value.name
    found.forM fun value => print (.variableRow value)
    if found.isEmpty then
      print (.line (if wanted = none then "no local variables available" else "variable not found"))
    else pure ⟨⟩

def printWords (address : Address) : Nat → Dbg R D Unit
  | 0 => pure ⟨⟩
  | count + 1 => do
      let value ← attempt (do let value ← readWord env address; pure (Except.ok value))
        fun exception => pure (Except.error exception)
      match value with
      | .ok value => do
          print (.memoryRow address value)
          printWords (address + 8) count
      | .error exception => print (.memoryFailed address exception)

def printMemory (arguments : List Text) : Dbg R D Unit :=
  if arguments.length < 2 then print (.line "usage: x ADDRESS [COUNT]")
  else
    match parseAddress (arguments.getD 1 []) with
    | none => print (.line "invalid address")
    | some address =>
        if 2 < arguments.length then
          match parseAddress (arguments.getD 2 []) with
          | none => print (.line "invalid count")
          | some count =>
              if 1024 < count.toNat then print (.line "invalid count")
              else printWords env address count.toNat
        else printWords env address 1

/-! ### Changing the target -/

/-- The word a `set memory` writes. -/
def writeUserWord (address value : Address) : Dbg R D Unit := do
  pokeWord env address value
  note (.userWrote address)

def writeMemory (arguments : List Text) : Dbg R D Unit :=
  if arguments.length ≠ 4 ∨ arguments.getD 1 [] ≠ "memory".toList then
    print (.line "usage: set memory ADDRESS VALUE")
  else
    match parseAddress (arguments.getD 2 []), parseAddress (arguments.getD 3 []) with
    | some address, some value => writeUserWord env address value
    | _, _ => print (.line "invalid address or value")

def readRegister (name : Text) : Dbg R D Unit := do
  let s ← get
  let regs ← getRegs arch env s.debugger.selectedTid
  print (.registerValue (arch.registerValue regs name))

def writeRegister (name : Text) (value : Address) : Dbg R D Bool := do
  let s ← get
  let regs ← getRegs arch env s.debugger.selectedTid
  match arch.setRegisterValue regs name value with
  | none => pure false
  | some regs => do
      setRegs arch env s.debugger.selectedTid regs
      pure true

def registerCommand (arguments : List Text) : Dbg R D Unit :=
  match arguments with
  | [_, action, name] =>
      if action = "read".toList then readRegister arch env name
      else print (.line "usage: register read NAME | register write NAME VALUE")
  | [_, action, name, value] =>
      if action = "write".toList then
        match parseAddress value with
        | none => print (.line "invalid register or value")
        | some value => do
            let written ← writeRegister arch env name value
            if written then pure ⟨⟩ else print (.line "invalid register or value")
      else print (.line "usage: register read NAME | register write NAME VALUE")
  | _ => print (.line "usage: register read NAME | register write NAME VALUE")

def selectThread (tid : Tid) : Dbg R D Unit := do
  let s ← get
  match s.debugger.threads.find? tid with
  | some state =>
      if state.stopped then do
        modifyDebugger fun d => { d with selectedTid := tid, selectedFrame := 0 }
        printStop arch env tid
      else print (.line "unknown or running thread")
  | none => print (.line "unknown or running thread")

/-! ### Dispatch -/

def isAlias (command : Text) (names : List Text) : Bool := names.contains command

/-- A command that takes one number. -/
def withNumber (arguments : List Text) (usage : String) (body : Address → Dbg R D Unit) :
    Dbg R D Unit :=
  match arguments with
  | [_, argument] =>
      match parseAddress argument with
      | some value => body value
      | none => print (.line usage)
  | _ => print (.line usage)

def selectFrame (frame : Nat) : Dbg R D Unit := do
  modifyDebugger fun d => { d with selectedFrame := frame }
  printBacktrace arch env

def infoCommand (topic : Text) : Dbg R D Unit :=
  if topic = "break".toList then printBreakpoints
  else if topic = "threads".toList then printThreads
  else if topic = "sharedlibrary".toList then printModules
  else if topic = "registers".toList then printRegisters arch env
  else if topic = "locals".toList then printLocals arch env none
  else print (.line "unknown info topic")

def reportUnknown (found : Bool) : Dbg R D Unit :=
  if found then pure ⟨⟩ else print (.line "unknown breakpoint")

/-- The commands of `dispatch` other than `quit`. -/
def runCommand (command : Text) (arguments : List Text) : Dbg R D Unit :=
  if isAlias command ["help".toList, "h".toList] then print (.line "help")
  else if isAlias command ["continue".toList, "c".toList] then continueExecution arch env
  else if isAlias command ["stepi".toList, "si".toList] then instructionStep arch env true
  else if isAlias command ["step".toList, "s".toList, "next".toList, "n".toList] then
    sourceStep arch env
  else if command = "finish".toList then stepOut arch env
  else if isAlias command ["break".toList, "b".toList] then
    match arguments with
    | [_, specification] => setBreakpoint arch env specification
    | _ => print (.line "usage: break LOCATION")
  else if command = "delete".toList then
    withNumber arguments "usage: delete ID" fun value => removeBreakpoint env (toPid value)
  else if command = "enable".toList then
    withNumber arguments "usage: enable ID" fun value => do
      let found ← enableById arch env (toPid value)
      reportUnknown found
  else if command = "disable".toList then
    withNumber arguments "usage: disable ID" fun value => do
      let found ← disableById env (toPid value)
      reportUnknown found
  else if command = "watch".toList then setWatchpoint arch env arguments
  else if isAlias command ["backtrace".toList, "bt".toList] then selectFrame arch env 0
  else if command = "frame".toList then
    withNumber arguments "usage: frame NUMBER" fun value => selectFrame arch env value.toNat
  else if command = "print".toList then
    match arguments with
    | [_, name] => printLocals arch env (some name)
    | _ => print (.line "usage: print NAME")
  else if command = "x".toList then printMemory env arguments
  else if command = "set".toList then writeMemory env arguments
  else if command = "register".toList then registerCommand arch env arguments
  else if command = "thread".toList then
    withNumber arguments "usage: thread TID" fun value => selectThread arch env (toPid value)
  else if command = "info".toList ∧ 2 ≤ arguments.length then
    infoCommand arch env (arguments.getD 1 [])
  else print (.line "unknown command; try help")

def isQuit (command : Text) : Bool := isAlias command ["quit".toList, "q".toList]

/-- `dispatch`: false if the command loop is to end. -/
def dispatch (line : Text) : Dbg R D Bool :=
  match words line with
  | [] => pure true
  | command :: rest =>
      if isQuit command then pure false
      else do
        attempt (runCommand arch env command (command :: rest)) fun exception =>
          print (.error exception)
        pure true

/-! ### The session -/

/-- `PTRACE_DETACH`: its result is not looked at. -/
def releaseThread (tid : Tid) : Dbg R D Unit :=
  attempt
    (do
      ptrace env "PTRACE_DETACH" tid fun _ target =>
        (⟨⟩, { target with tasks := target.tasks.erase tid })
      let s ← get
      note (.released tid s.target.memory s.target.image))
    fun _ => pure ⟨⟩

def disableAll : List (Address × Breakpoint) → Dbg R D Unit
  | [] => pure ⟨⟩
  | (key, _) :: rest => do
      attempt (disable env key) fun _ => pure ⟨⟩
      disableAll rest

def releaseThreads : List (Tid × ThreadState) → Dbg R D Unit
  | [] => pure ⟨⟩
  | (tid, state) :: rest => do
      doIf state.stopped (releaseThread env tid)
      releaseThreads rest

def detach : Dbg R D Unit := do
  let s ← get
  if s.debugger.detached ∨ s.debugger.child ≤ 0 then pure ⟨⟩
  else do
    disableAll env s.debugger.breakpoints.entries
    releaseThreads env s.debugger.threads.entries
    modifyDebugger fun d => { d with detached := true }

/-- `wait_for` of the child that `launch` forked. -/
def waitFor (tid : Tid) : Dbg R D WaitStatus := fun s =>
  let t := env.enter s
  match t.target.ready.find? fun event => event.1 = tid with
  | some (tid, status) =>
      .ok status
        { t with
          target :=
            { t.target with
              ready := t.target.ready.eraseP fun event => event.1 = tid } }
  | none =>
      if t.target.tasks.contains tid then .error .blocked t
      else .error (.thrown (.system "waitpid")) t

theorem waitFor_cases (tid : Tid) (s : State R D) :
    (∃ status ready, waitFor env tid s = .ok status
      { env.enter s with target := { (env.enter s).target with ready := ready } }) ∨
    ∃ halt, waitFor env tid s = .error halt (env.enter s) := by
  unfold waitFor
  dsimp only
  split
  · exact Or.inl ⟨_, _, rfl⟩
  · refine Or.inr ?_
    split <;> exact ⟨_, rfl⟩

/-- `launch` in the parent, after a successful `fork`. -/
def launch : Dbg R D Unit := do
  let s ← get
  let child := s.debugger.child
  let status ← waitFor env child
  if status.isStopped then do
    modifyDebugger fun d =>
      { d with
        threads := d.threads.emplace child ⟨child, true, status.stopSignal⟩
        selectedTid := child }
    setOptions env child
    refreshModules env
    resolvePendingBreakpoints arch env
  else throw (.thrown (.runtime "target did not stop after exec"))

/-- `run` up to its command loop. -/
def openSession : Dbg R D Unit := do
  launch arch env
  let s ← get
  print (.banner arch.name s.debugger.child)
  printStop arch env s.debugger.selectedTid

/-- The command loop in batch mode, up to the end of the lines: the state it ends in, if the
debugger is at its prompt there. -/
def commandLoop (s : State R D) : List Text → Option (State R D)
  | [] => some s
  | line :: rest =>
      match dispatch arch env line s with
      | .ok true t => commandLoop t rest
      | _ => none

/-- `run` in batch mode on these lines: the state in which the debugger has read them all. -/
def runBatch (start : State R D) (lines : List Text) : Option (State R D) :=
  match openSession arch env start with
  | .ok _ s => commandLoop arch env s lines
  | .error _ _ => none

/-- A debugger that has just forked the process it is going to trace. -/
def State.initial (child : Tid) (target : Target R D) : State R D :=
  { debugger := .fresh child, target := target, tick := 0, log := [] }

/-- The states in which the debugger is at its prompt. -/
inductive Prompt (start : State R D) : State R D → Prop
  | opened {s : State R D} (hrun : openSession arch env start = .ok ⟨⟩ s) : Prompt start s
  | command {s t : State R D} (line : Text) (hs : Prompt start s)
      (hrun : dispatch arch env line s = .ok true t) : Prompt start t

/-- The prompts to which lines of this kind lead from a prompt. -/
inductive Later (p : Text → Prop) (s : State R D) : State R D → Prop
  | refl : Later p s s
  | command {t u : State R D} (line : Text) (ht : Later p s t) (hline : p line)
      (hrun : dispatch arch env line t = .ok true u) : Later p s u

theorem Prompt.of_commandLoop {start s t : State R D} {lines : List Text}
    (hs : Prompt arch env start s) (hrun : commandLoop arch env s lines = some t) :
    Prompt arch env start t := by
  induction lines generalizing s with
  | nil => exact Option.some.inj hrun ▸ hs
  | cons line rest ih =>
      rw [commandLoop] at hrun
      split at hrun
      · rename_i next hline
        exact ih (.command line hs hline) hrun
      · cases hrun

theorem Prompt.of_runBatch {start s : State R D} {lines : List Text}
    (hrun : runBatch arch env start lines = some s) : Prompt arch env start s := by
  unfold runBatch at hrun
  split at hrun
  · rename_i s' hopen
    exact Prompt.of_commandLoop arch env (.opened hopen) hrun
  · cases hrun

theorem Later.of_commandLoop {p : Text → Prop} {s t u : State R D} {lines : List Text}
    (hlines : ∀ line ∈ lines, p line) (ht : Later arch env p s t)
    (hrun : commandLoop arch env t lines = some u) : Later arch env p s u := by
  induction lines generalizing t with
  | nil => exact Option.some.inj hrun ▸ ht
  | cons line rest ih =>
      rw [commandLoop] at hrun
      split at hrun
      · rename_i next hline
        refine ih (fun line hmem => hlines line (List.mem_cons_of_mem _ hmem)) ?_ hrun
        exact .command line ht (hlines _ List.mem_cons_self) hline
      · cases hrun

theorem Prompt.exists_of_runBatch (start : State R D) (lines : List Text) {p : State R D → Bool}
    (hrun : (runBatch arch env start lines).any p = true) :
    ∃ s, Prompt arch env start s ∧ p s = true := by
  obtain ⟨s, hs, hp⟩ := (Option.any_eq_true _ _).mp hrun
  exact ⟨s, .of_runBatch arch env hs, hp⟩

/-- The states in which the opening, a command or the detaching of a session ends, whether it
returns, throws, or never comes back from a wait. -/
inductive Visited (start : State R D) : State R D → Prop
  | opening : Visited start (endState (openSession arch env) start)
  | aborted {s : State R D} {exception : Exception}
      (hrun : openSession arch env start = .error (.thrown exception) s) :
      Visited start (endState (detach env) s)
  | command {s : State R D} (line : Text) (hs : Prompt arch env start s) :
      Visited start (endState (dispatch arch env line) s)
  | quit {s : State R D} (hs : Prompt arch env start s) :
      Visited start (endState (detach env) s)

/-- The states in which such a command after a prompt ends, or the detaching after them. -/
inductive LaterVisited (p : Text → Prop) (s : State R D) : State R D → Prop
  | command {t : State R D} (line : Text) (ht : Later arch env p s t) (hline : p line) :
      LaterVisited p s (endState (dispatch arch env line) t)
  | quit {t : State R D} (ht : Later arch env p s t) :
      LaterVisited p s (endState (detach env) t)

/-- The states before and after one line of a batch, and the one its last line ends in. -/
def runAround (start : State R D) (before : List Text) (line : Text) (after : List Text)
    (last : Text) : Option (State R D × State R D × State R D) := do
  let s ← runBatch arch env start before
  let t ← commandLoop arch env s [line]
  let u ← commandLoop arch env t after
  pure (s, t, endState (dispatch arch env last) u)

theorem exists_of_runAround {p : Text → Prop} (start : State R D) (before : List Text) (line : Text)
    (after : List Text) (last : Text) (hafter : ∀ line ∈ after, p line) (hlast : p last)
    {q : State R D × State R D × State R D → Bool}
    (hrun : (runAround arch env start before line after last).any q = true) :
    ∃ s t u, Prompt arch env start s ∧ dispatch arch env line s = .ok true t ∧
      LaterVisited arch env p t u ∧ q (s, t, u) = true := by
  obtain ⟨_, hstates, hcheck⟩ := (Option.any_eq_true _ _).mp hrun
  obtain ⟨s, hs, hstates⟩ := Option.bind_eq_some_iff.mp hstates
  obtain ⟨t, ht, hstates⟩ := Option.bind_eq_some_iff.mp hstates
  obtain ⟨u, hu, hstates⟩ := Option.bind_eq_some_iff.mp hstates
  obtain rfl := Option.some.inj hstates
  refine ⟨s, t, _, .of_runBatch arch env hs, ?_, ?_, hcheck⟩
  · rw [commandLoop] at ht
    split at ht
    · rename_i hline
      exact Option.some.inj ht ▸ hline
    · cases ht
  · exact .command last (.of_commandLoop arch env hafter .refl hu) hlast

end Cosy
