import Cosy.Patch
import Cosy.Commands

/-!
# Moves

Everything debugger code does to the state is a sequence of moves, each of one of a few kinds. What
a function does is said once, by the kinds of moves it makes (`Runs`); an invariant is then proved
once for each kind. A patch of memory is a single move: it is one write, and the flag of the record
follows it before the environment moves again.
-/

namespace Cosy

open ByteMemory Effect

variable {R D : Type}

def State.logged (s : State R D) (entry : Entry) : State R D := { s with log := entry :: s.log }

def State.withDebugger (s : State R D) (debugger : Debugger) : State R D :=
  { s with debugger := debugger }

def State.withTarget (s : State R D) (target : Target R D) : State R D := { s with target := target }

def State.withRecord (s : State R D) (key : Address) (change : Breakpoint → Breakpoint) :
    State R D :=
  s.withDebugger
    { s.debugger with breakpoints := s.debugger.breakpoints.modify key change }

/-- The kinds of moves. -/
inductive Kind where
  | enter
  | say
  | report
  | stepping
  | book
  | threads
  | regs
  | task
  | resume
  | take
  | release
  | close
  | table
  | arm
  | lift
  | force
  | user
  | write
deriving DecidableEq

/-- What `print_stop` and the others write to the log as they go. -/
def Entry.isSaid : Entry → Bool
  | .out _ | .hit _ _ _ _ | .setPc _ _ | .consumed .waitAndReport _ _ _ => true
  | _ => false

def Entry.isReport : Entry → Bool
  | .reporting _ _ _ _ | .reported _ => true
  | _ => false

def Entry.isStepping : Entry → Bool
  | .stepOver _ _ _ | .consumed .stepOver _ _ _ | .stepFailed _ | .reinsertFailed _ _ => true
  | _ => false

/-- Whether the breakpoint at `key` is the user's: the newest entry about it decides. -/
def userEnabled (key : Address) : List Entry → Bool
  | [] => false
  | .userEnabled address :: rest => address = key || userEnabled key rest
  | .userDisabled address :: rest => address ≠ key && userEnabled key rest
  | _ :: rest => userEnabled key rest

/-- The memory after the trap at `key` was put in, as far as the log allows to tell. -/
def TrapPut (arch : Architecture R D) (T : Set Address) (s : State R D) (key : Address)
    (saved : List Byte) (memory : Memory) : Prop :=
  Orderly arch T s.log → armed key s.log = true →
    saved = bytesAt s.target.memory key arch.breakpointSize ∧
    ∀ x ∈ T, memory x = if arch.trapBase x = key then arch.trapByte x else s.target.memory x

/-- The memory after the saved bytes were put back at `key`. -/
def SavedPut (arch : Architecture R D) (T : Set Address) (s : State R D) (key : Address)
    (saved : List Byte) (memory : Memory) : Prop :=
  Orderly arch T s.log → armed key s.log = true →
    ∀ x ∈ T, memory x =
      if arch.trapBase x = key then saved.getD (x.toNat % arch.breakpointSize) 0
      else s.target.memory x

/-- The state after the saved bytes of a record were put back. -/
def State.lifted (s : State R D) (key : Address) (r : Breakpoint) (memory : Memory) : State R D :=
  let restored := (s.withMemory memory).logged
    (.restored key r.saved (bytesAt s.target.image key r.saved.length))
  (restored.withRecord key fun r => { r with enabled := false }).logged (.disarmed key)

/-- The process is the same, and is still being debugged if it was. -/
structure Debugger.SameSession (d d' : Debugger) : Prop where
  child : d.child = d'.child
  detached : d.detached = d'.detached

inductive Move (arch : Architecture R D) (env : Environment R D) (T : Set Address) :
    Kind → State R D → State R D → Prop
  | enter (s) : Move arch env T .enter s (env.enter s)
  | say (s) {entry : Entry} (hentry : entry.isSaid = true) :
      Move arch env T .say s (s.logged entry)
  | report (s) {entry : Entry} (hentry : entry.isReport = true) :
      Move arch env T .report s (s.logged entry)
  | stepping (s) {entry : Entry} (hentry : entry.isStepping = true) :
      Move arch env T .stepping s (s.logged entry)
  /-- A change of the debugger that leaves breakpoints and threads alone. -/
  | book (s) {d : Debugger} (hbreakpoints : d.breakpoints = s.debugger.breakpoints)
      (hthreads : d.threads = s.debugger.threads) (hselected : d.selectedTid = s.debugger.selectedTid)
      (halive : d.alive = s.debugger.alive) (hsession : d.SameSession s.debugger) :
      Move arch env T .book s (s.withDebugger d)
  | threads (s) {d : Debugger} (hbreakpoints : d.breakpoints = s.debugger.breakpoints)
      (hsession : d.SameSession s.debugger) : Move arch env T .threads s (s.withDebugger d)
  | close (s) :
      Move arch env T .close s (s.withDebugger { s.debugger with detached := true })
  /-- A stopped thread gets other registers. -/
  | regs (s) {tid : Tid} {task : Task R D} (regs : R)
      (htask : s.target.tasks.find? tid = some task) (hstopped : task.stopped = true) :
      Move arch env T .regs s (s.withTarget (s.target.setTask tid { task with regs := regs }))
  /-- Any other request that changes a stopped thread, which stays stopped. -/
  | task (s) {tid : Tid} {task task' : Task R D} (htask : s.target.tasks.find? tid = some task)
      (hstopped : task.stopped = true) (hstopped' : task'.stopped = true) :
      Move arch env T .task s (s.withTarget (s.target.setTask tid task'))
  /-- No signal is ever passed on. -/
  | resume (s) {tid : Tid} {task : Task R D} (request : ResumeRequest)
      (htask : s.target.tasks.find? tid = some task) (hstopped : task.stopped = true) :
      Move arch env T .resume s
        ((s.withTarget (s.target.setTask tid
          { task with stopped := false, stepping := request = .singlestep })).logged
            (.resumed tid request 0))
  | take (s) (ready : List (Tid × WaitStatus)) :
      Move arch env T .take s (s.withTarget { s.target with ready := ready })
  | release (s) (tid : Tid) :
      Move arch env T .release s
        ((s.withTarget { s.target with tasks := s.target.tasks.erase tid }).logged
          (.released tid s.target.memory s.target.image))
  | insert (s) {r : Breakpoint} {next : Int}
      (hfresh : s.debugger.breakpoints.find? r.address = none) (henabled : r.enabled = false)
      (hpending : r.pending = false) :
      Move arch env T .table s
        (s.withDebugger
          { s.debugger with
            breakpoints := s.debugger.breakpoints.insert r.address r
            nextBreakpointId := next })
  | erase (s) {key : Address}
      (hdisabled : ∀ r, s.debugger.breakpoints.find? key = some r → r.enabled = false) :
      Move arch env T .table s
        (s.withDebugger
          { s.debugger with breakpoints := s.debugger.breakpoints.erase key })
  | arming (s) {key : Address} {r : Breakpoint}
      (hr : s.debugger.breakpoints.find? key = some r) (hdisabled : r.enabled = false) :
      Move arch env T .arm s (s.logged (.arming key))
  | save (s) {key : Address} {r : Breakpoint} {saved : List Byte}
      (hr : s.debugger.breakpoints.find? key = some r) (hdisabled : r.enabled = false) :
      Move arch env T .arm s (s.withRecord key fun r => { r with saved := saved })
  | arm (s) {key : Address} {r : Breakpoint} {memory : Memory}
      (hr : s.debugger.breakpoints.find? key = some r) (hdisabled : r.enabled = false)
      (hlength : r.saved.length = arch.breakpointSize)
      (hput : TrapPut arch T s key r.saved memory)
      (harmed : Orderly arch T s.log → armed key s.log = true) :
      Move arch env T .arm s
        ((s.withMemory memory).withRecord key fun r => { r with enabled := true })
  | abandon (s) {key : Address} {r : Breakpoint}
      (hr : s.debugger.breakpoints.find? key = some r) (hdisabled : r.enabled = false) :
      Move arch env T .arm s (s.logged (.disarmed key))
  /-- A write while the trap goes in that the log says nothing about. -/
  | armWild (s) {memory : Memory} (hwild : ¬ Orderly arch T s.log) :
      Move arch env T .arm s (s.withMemory memory)
  | force (s) {key : Address} {r : Breakpoint} {memory : Memory}
      (hr : s.debugger.breakpoints.find? key = some r) (henabled : r.enabled = true)
      (hput : SavedPut arch T s key r.saved memory) :
      Move arch env T .force s (s.lifted key r memory)
  /-- The same where the breakpoint is not the user's, or not any more. -/
  | lift (s) {key : Address} {r : Breakpoint} {memory : Memory}
      (hr : s.debugger.breakpoints.find? key = some r) (henabled : r.enabled = true)
      (hput : SavedPut arch T s key r.saved memory)
      (hreason : userEnabled key s.log = false ∨ r.temporary = true) :
      Move arch env T .lift s (s.lifted key r memory)
  | liftWild (s) {key : Address} {r : Breakpoint} {memory : Memory} {kind : Kind}
      (hkind : kind = .force ∨ kind = .lift)
      (hr : s.debugger.breakpoints.find? key = some r) (henabled : r.enabled = true)
      (hwild : ¬ (Orderly arch T s.log ∧ armed key s.log = true)) :
      Move arch env T kind s (s.withMemory memory)
  | userEnabled (s) {key : Address} {r : Breakpoint}
      (hr : s.debugger.breakpoints.find? key = some r) (henabled : r.enabled = true)
      (htemporary : r.temporary = false) : Move arch env T .user s (s.logged (.userEnabled key))
  | userDisabled (s) (key : Address) : Move arch env T .user s (s.logged (.userDisabled key))
  | write (s) (address value : Address) :
      Move arch env T .write s
        ((s.withMemory (setWord s.target.memory address value)).logged (.userWrote address))

/-- Some number of moves, each of one of the kinds. -/
def Moves (arch : Architecture R D) (env : Environment R D) (T : Set Address) (kinds : List Kind) :
    State R D → State R D → Prop :=
  Relation.ReflTransGen fun s t => ∃ kind ∈ kinds, Move arch env T kind s t

section Moves

variable {arch : Architecture R D} {env : Environment R D} {T : Set Address}
  {kinds kinds' : List Kind} {s t u : State R D}

theorem Moves.refl (s : State R D) : Moves arch env T kinds s s := Relation.ReflTransGen.refl

theorem Moves.trans (hst : Moves arch env T kinds s t) (htu : Moves arch env T kinds t u) :
    Moves arch env T kinds s u := Relation.ReflTransGen.trans hst htu

theorem Moves.single {kind : Kind} (hmove : Move arch env T kind s t) (hkind : kind ∈ kinds) :
    Moves arch env T kinds s t := Relation.ReflTransGen.single ⟨kind, hkind, hmove⟩

theorem Moves.mono (hmoves : Moves arch env T kinds s t) (hkinds : kinds ⊆ kinds') :
    Moves arch env T kinds' s t :=
  Relation.ReflTransGen.mono
    (fun _ _ ⟨kind, hkind, hmove⟩ => ⟨kind, hkinds hkind, hmove⟩) s t hmoves

/-- What every move of these kinds preserves, any number of them preserve. -/
theorem Moves.preserve {I : State R D → Prop}
    (hstep : ∀ kind ∈ kinds, ∀ s t, Move arch env T kind s t → I s → I t)
    (hmoves : Moves arch env T kinds s t) (hs : I s) : I t := by
  induction hmoves with
  | refl => exact hs
  | tail _ hmove ih =>
      obtain ⟨kind, hkind, hmove⟩ := hmove
      exact hstep kind hkind _ _ hmove ih

theorem Moves.relate {Q : State R D → State R D → Prop} [IsPreorder (State R D) Q]
    (hstep : ∀ kind ∈ kinds, ∀ s t, Move arch env T kind s t → Q s t)
    (hmoves : Moves arch env T kinds s t) : Q s t := by
  induction hmoves with
  | refl => exact refl_of Q s
  | tail _ hmove ih =>
      obtain ⟨kind, hkind, hmove⟩ := hmove
      exact trans_of Q ih (hstep kind hkind _ _ hmove)

/-- The log only grows. -/
theorem Move.log_suffix {kind : Kind} (hmove : Move arch env T kind s t) : s.log <:+ t.log := by
  cases hmove with
  | enter => exact List.suffix_append _ _
  | say | report | stepping | arming | abandon | userEnabled | userDisabled | write | resume
  | release => exact List.suffix_cons _ _
  | force | lift => exact (List.suffix_cons _ _).trans (List.suffix_cons _ _)
  | book | threads | close | regs | task | take | insert | erase | save | arm | armWild
  | liftWild => exact List.suffix_rfl

theorem Moves.log_suffix (hmoves : Moves arch env T kinds s t) : s.log <:+ t.log :=
  hmoves.preserve (I := fun u => s.log <:+ u.log)
    (fun _ _ _ _ hmove hu => hu.trans hmove.log_suffix) List.suffix_rfl

/-- Only moves of one kind change the thread table or the selected thread. -/
theorem Move.sameThreads {kind : Kind} (hmove : Move arch env T kind s t) (hkind : kind ≠ .threads) :
    t.debugger.threads = s.debugger.threads ∧
      t.debugger.selectedTid = s.debugger.selectedTid := by
  cases hmove with
  | book _ _ hthreads hselected => exact ⟨hthreads, hselected⟩
  | threads => exact absurd rfl hkind
  | _ => exact ⟨rfl, rfl⟩

end Moves

/-- With a well-formed table, only moves of these kinds, and the table stays well formed. -/
def Runs (arch : Architecture R D) (env : Environment R D) (T : Set Address) (kinds : List Kind)
    (s t : State R D) : Prop :=
  WellFormed arch s.debugger.breakpoints →
    Moves arch env T kinds s t ∧ WellFormed arch t.debugger.breakpoints

theorem Runs.mono {arch : Architecture R D} {env : Environment R D} {T : Set Address}
    {kinds kinds' : List Kind} {s t : State R D} (hruns : Runs arch env T kinds s t)
    (hkinds : kinds ⊆ kinds') : Runs arch env T kinds' s t :=
  fun hformed => ⟨(hruns hformed).1.mono hkinds, (hruns hformed).2⟩

instance (arch : Architecture R D) (env : Environment R D) (T : Set Address) (kinds : List Kind) :
    IsPreorder (State R D) (Runs arch env T kinds) where
  refl _ := fun hs => ⟨Moves.refl _, hs⟩
  trans _ _ _ hst htu := fun hs =>
    have ht := hst hs
    have hu := htu ht.2
    ⟨ht.1.trans hu.1, hu.2⟩

end Cosy
