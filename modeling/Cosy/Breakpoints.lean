import Cosy.Kernel

/-!
# Breakpoints

Reading and patching the memory of the traced process, and the two tables of breakpoints. Memory is
reached through the selected thread only, one aligned word at a time.
-/

namespace Cosy

open ByteMemory Effect

variable {R D : Type} (arch : Architecture R D) (env : Environment R D)

/-! ### Memory -/

def readWord (address : Address) : Dbg R D Address := do
  let s ← get
  ptrace env "PTRACE_PEEKDATA" s.debugger.selectedTid fun _ target =>
    (word target.memory address, target)

def pokeWord (address value : Address) : Dbg R D Unit := do
  let s ← get
  ptrace env "PTRACE_POKEDATA" s.debugger.selectedTid fun _ target =>
    (⟨⟩, { target with memory := setWord target.memory address value })

def readBytes (address : Address) : Nat → Dbg R D (List Byte)
  | 0 => pure []
  | size + 1 => do
      let value ← readWord env (aligned address)
      let rest ← readBytes (address + 1) size
      pure (byteOf value (offset address) :: rest)

/-- The words with the one at `key` among them, read now if it was not there yet. -/
def coverWord (words : SortedMap Address Address) (key : Address) :
    Dbg R D (SortedMap Address Address) :=
  if words.contains key then pure words
  else do
    let value ← readWord env key
    pure (words.emplace key value)

/-- The first loop of `write_bytes`: the words the bytes fall in, with the bytes put into them. -/
def gatherWords (words : SortedMap Address Address) (address : Address) :
    List Byte → Dbg R D (SortedMap Address Address)
  | [] => pure words
  | byte :: rest => do
      let words ← coverWord env words (aligned address)
      gatherWords (words.modify (aligned address) fun value => putByte value (offset address) byte)
        (address + 1) rest

/-- The second loop: the words go back to memory in the order of their addresses. -/
def pokeWords (words : List (Address × Address)) : Dbg R D Unit :=
  words.forM fun entry => pokeWord env entry.1 entry.2

def writeBytes (address : Address) (bytes : List Byte) : Dbg R D Unit := do
  let words ← gatherWords env SortedMap.empty address bytes
  pokeWords env words.entries

/-! ### Records -/

/-- Change the record of `breakpoints_` at `key`. -/
def modifyBreakpoint (key : Address) (change : Breakpoint → Breakpoint) : Dbg R D Unit :=
  modifyDebugger fun d => { d with breakpoints := d.breakpoints.modify key change }

/-- The body of `enable`: the bytes are saved before the trap replaces them. -/
def insertTrap (key address : Address) : Dbg R D Unit := do
  let saved ← readBytes env address arch.breakpointSize
  modifyBreakpoint key fun breakpoint => { breakpoint with saved := saved }
  writeBytes env address arch.breakpointInstruction
  modifyBreakpoint key fun breakpoint => { breakpoint with enabled := true }

/-- `enable` on the record at `key`. -/
def enable (key : Address) : Dbg R D Unit := do
  let s ← get
  match s.debugger.breakpoints.find? key with
  | none => pure ⟨⟩
  | some breakpoint =>
      if breakpoint.pending || (breakpoint.enabled && !breakpoint.saved.isEmpty) then pure ⟨⟩
      else do
        note (.arming key)
        onThrow (insertTrap arch env key breakpoint.address)
          fun _ s => { s with log := .disarmed key :: s.log }

/-- `disable` on the record at `key`. -/
def disable (key : Address) : Dbg R D Unit := do
  let s ← get
  match s.debugger.breakpoints.find? key with
  | none => pure ⟨⟩
  | some breakpoint =>
      if breakpoint.pending || !breakpoint.enabled || breakpoint.saved.isEmpty then pure ⟨⟩
      else do
        writeBytes env breakpoint.address breakpoint.saved
        let s ← get
        note (.restored key breakpoint.saved
          (bytesAt s.target.image breakpoint.address breakpoint.saved.length))
        modifyBreakpoint key fun breakpoint => { breakpoint with enabled := false }
        note (.disarmed key)

def insertBreakpoint (breakpoint : Breakpoint) : Dbg R D Unit :=
  modifyDebugger fun d =>
    { d with
      breakpoints := d.breakpoints.insert breakpoint.address breakpoint
      nextBreakpointId := d.nextBreakpointId + 1 }

def eraseBreakpoint (key : Address) : Dbg R D Unit :=
  modifyDebugger fun d => { d with breakpoints := d.breakpoints.erase key }

/-- An enabled record is the user's unless it is temporary. -/
def noteUserEnabled (key : Address) : Dbg R D Unit := do
  let s ← get
  match s.debugger.breakpoints.find? key with
  | some breakpoint => doIf (breakpoint.enabled && !breakpoint.temporary) (note (.userEnabled key))
  | none => pure ⟨⟩

/-- `disable` on a record, which is then erased. -/
def dropBreakpoint (key : Address) : Dbg R D Unit := do
  disable env key
  eraseBreakpoint key

def createBreakpoint (address : Address) (specification : Text) (temporary : Bool) :
    Dbg R D Int := do
  let s ← get
  match s.debugger.breakpoints.find? address with
  | some existing => pure existing.id
  | none => do
      let id := s.debugger.nextBreakpointId
      insertBreakpoint
        { id := id, address := address, specification := specification, saved := [],
          enabled := false, temporary := temporary, pending := false }
      enable arch env address
      noteUserEnabled address
      pure id

def createPendingBreakpoint (specification : Text) : Dbg R D Int := do
  let s ← get
  let id := s.debugger.nextBreakpointId
  modifyDebugger fun d =>
    { d with
      nextBreakpointId := id + 1
      pendingBreakpoints := d.pendingBreakpoints ++
        [{ id := id, address := 0, specification := specification, saved := [],
           enabled := false, temporary := false, pending := true }] }
  pure id

/-- The key of the first record with this id. -/
def keyOfId (breakpoints : SortedMap Address Breakpoint) (id : Int) : Option Address :=
  (breakpoints.entries.find? fun entry => entry.2.id = id).map Prod.fst

def removeBreakpoint (id : Int) : Dbg R D Unit := do
  let s ← get
  match keyOfId s.debugger.breakpoints id with
  | some key => do
      note (.userDisabled key)
      dropBreakpoint env key
  | none =>
      modifyDebugger fun d =>
        { d with pendingBreakpoints := d.pendingBreakpoints.filter fun pending => pending.id ≠ id }

/-! ### Locations -/

def refreshModules : Dbg R D Unit := do
  modify env.enter
  let s ← get
  match s.target.maps with
  | none => throw (.thrown (.runtime "cannot read target memory maps"))
  | some modules => modifyDebugger fun d => { d with modules := modules }

/-- The inner loop of `resolve_pending_breakpoints`. -/
def announceResolved (specification : Text) : List Address → Dbg R D Unit
  | [] => pure ⟨⟩
  | address :: rest => do
      let id ← createBreakpoint arch env address specification false
      print (.resolvedPending id address)
      announceResolved specification rest

/-- The outer loop: `kept` is what the iterator has passed, the list what it has before it. -/
def resolvePendingFrom (kept : List Breakpoint) : List Breakpoint → Dbg R D Unit
  | [] => pure ⟨⟩
  | pending :: rest => do
      let s ← get
      match resolveSpecification s.debugger.modules pending.specification with
      | [] => resolvePendingFrom (kept ++ [pending]) rest
      | resolved => do
          announceResolved arch env pending.specification resolved
          modifyDebugger fun d => { d with pendingBreakpoints := kept ++ rest }
          resolvePendingFrom kept rest

def resolvePendingBreakpoints : Dbg R D Unit := do
  let s ← get
  resolvePendingFrom arch env [] s.debugger.pendingBreakpoints

def announceBreakpoints (specification : Text) : List Address → Dbg R D Unit
  | [] => pure ⟨⟩
  | address :: rest => do
      let id ← createBreakpoint arch env address specification false
      print (.breakpointAt id address)
      announceBreakpoints specification rest

def setBreakpoint (specification : Text) : Dbg R D Unit := do
  let s ← get
  match resolveSpecification s.debugger.modules specification with
  | [] => do
      let id ← createPendingBreakpoint specification
      print (.breakpointPending id specification)
  | resolved => announceBreakpoints arch env specification resolved

/-- The loops of `enable ID` and `disable ID`: `change` is called on every record with the id. The
result tells whether there was one. -/
def forEachWithId (id : Int) (change : Address → Dbg R D Unit) :
    List (Address × Breakpoint) → Dbg R D Bool
  | [] => pure false
  | (key, breakpoint) :: rest => do
      if breakpoint.id = id then do
        change key
        let _ ← forEachWithId id change rest
        pure true
      else forEachWithId id change rest

/-- `enable ID`. -/
def enableById (id : Int) : Dbg R D Bool := do
  let s ← get
  forEachWithId id
    (fun key => do
      enable arch env key
      noteUserEnabled key)
    s.debugger.breakpoints.entries

/-- `disable ID`. -/
def disableById (id : Int) : Dbg R D Bool := do
  let s ← get
  forEachWithId id
    (fun key => do
      note (.userDisabled key)
      disable env key)
    s.debugger.breakpoints.entries

end Cosy
