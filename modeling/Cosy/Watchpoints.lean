import Cosy.Breakpoints

/-!
# Watchpoints

Hardware watchpoints are programmed thread by thread; a record takes the lowest slot that no other
record has.
-/

namespace Cosy

open Effect

variable {R D : Type} (arch : Architecture R D) (env : Environment R D)

/-- `configure_watchpoint` of the architecture, on one thread. -/
def configureWatchpoint (tid : Tid) (slot : Nat) (address : Address) (watchAccess : WatchAccess)
    (bytes : Nat) : Dbg R D Unit :=
  match arch.configureWatchpoint slot address watchAccess bytes with
  | .error text => throw (.thrown (.runtime text))
  | .ok plan => do
      let debug ← ptrace env plan.readOperation tid fun task target => (task.debug, target)
      (plan.writes debug).forM fun write =>
        ptrace env write.1 tid fun task target =>
          (⟨⟩, target.setTask tid { task with debug := write.2 task.debug })

def configureThreadWatchpoints (tid : Tid) : Dbg R D Unit := do
  let s ← get
  s.debugger.watchpoints.forM fun watchpoint =>
    configureWatchpoint arch env tid watchpoint.slot watchpoint.address watchpoint.access
      watchpoint.bytes

/-- The search for a free slot, which ends: of the first `occupied.length + 1` slots one is free. -/
def freeSlotFrom (occupied : List Nat) : Nat → Nat → Nat
  | 0, slot => slot
  | fuel + 1, slot =>
      if occupied.contains slot then freeSlotFrom occupied fuel (slot + 1) else slot

def freeSlot (occupied : List Nat) : Nat := freeSlotFrom occupied (occupied.length + 1) 0

def parseAccess (text : Text) : Option WatchAccess :=
  if text = "r".toList then some .read
  else if text = "rw".toList then some .access
  else if text = "w".toList then some .write
  else none

/-- The part of `set_watchpoint` after the arguments were read. -/
def addWatchpoint (address : Address) (watchAccess : WatchAccess) (bytes : Nat) :
    Dbg R D Unit := do
  let s ← get
  let slot := freeSlot (s.debugger.watchpoints.map Watchpoint.slot)
  if 4 ≤ slot then print (.line "no free hardware watchpoint slot")
  else
    attempt
      (do
        s.debugger.threads.entries.forM fun entry =>
          if entry.2.stopped then configureWatchpoint arch env entry.1 slot address watchAccess bytes
          else pure ⟨⟩
        let id := s.debugger.nextWatchpointId
        modifyDebugger fun d =>
          { d with
            nextWatchpointId := id + 1
            watchpoints := d.watchpoints ++
              [{ id := id, slot := slot, address := address, access := watchAccess,
                 bytes := bytes }] }
        print (.watchpointAt id address))
      fun exception => print (.watchpointFailed exception)

/-- `static_cast<unsigned>` of an address. -/
def toUnsigned (value : Address) : Nat := (value.setWidth 32).toNat

def setWatchpoint (arguments : List Text) : Dbg R D Unit :=
  if arguments.length < 2 then print (.line "usage: watch ADDRESS [r|w|rw] [1|2|4|8]")
  else
    match parseAddress (arguments.getD 1 []) with
    | none => print (.line "invalid watchpoint address")
    | some address =>
        match if 3 ≤ arguments.length then parseAccess (arguments.getD 2 []) else some .write with
        | none => print (.line "access must be r, w, or rw")
        | some watchAccess =>
            match if 4 ≤ arguments.length then (parseAddress (arguments.getD 3 [])).map toUnsigned
              else some 8 with
            | none => print (.line "invalid watchpoint size")
            | some bytes => addWatchpoint arch env address watchAccess bytes

end Cosy
