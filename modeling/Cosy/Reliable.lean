import Cosy.Invariant

/-!
# Requests that are answered

With an environment that leaves stopped threads alone and lets every request to one succeed, reading
and writing memory through a stopped selected thread does not throw.
-/

namespace Cosy

open ByteMemory Effect

variable {R D α : Type} {arch : Architecture R D} {env : Environment R D}

/-- The threads that are stopped in `target` are the same in `target'`. -/
def StopsKept (target target' : Target R D) : Prop :=
  ∀ tid task, target.tasks.find? tid = some task → task.stopped = true →
    target'.tasks.find? tid = some task

structure Environment.Reliable (env : Environment R D) : Prop where
  /-- A stopped thread stays as it is until it is resumed. -/
  steady : ∀ tick target, StopsKept target (env.interfere tick target).2
  answers : ∀ tick, env.fails tick = false

/-- The thread is in a ptrace stop. -/
def State.StoppedThread (s : State R D) (tid : Tid) : Prop :=
  ∃ task, s.target.tasks.find? tid = some task ∧ task.stopped = true

/-- The selected thread is in a ptrace stop. -/
def State.SelectedStopped (s : State R D) : Prop := s.StoppedThread s.debugger.selectedTid

/-- The selected thread is in a ptrace stop when the next system call reaches the kernel. -/
def State.Answering (env : Environment R D) (s : State R D) : Prop := (env.enter s).SelectedStopped

theorem stoppedAt_of_find? {target : Target R D} {tid : Tid} {task : Task R D}
    (htask : target.tasks.find? tid = some task) (hstopped : task.stopped = true) :
    target.stoppedAt arch tid = some (arch.pc task.regs) := by
  rw [Target.stoppedAt, htask]
  exact if_pos hstopped

theorem find?_of_stoppedAt {target : Target R D} {tid : Tid} {current : Address}
    (hstopped : target.stoppedAt arch tid = some current) :
    ∃ task, target.tasks.find? tid = some task ∧ task.stopped = true ∧
      arch.pc task.regs = current := by
  unfold Target.stoppedAt at hstopped
  split at hstopped
  · rename_i task htask
    split at hstopped
    · rename_i hflag
      exact ⟨task, htask, hflag, Option.some.inj hstopped⟩
    · cases hstopped
  · cases hstopped

/-- A stopped thread stays where it is. -/
theorem stoppedAt_of_stopsKept {target target' : Target R D} {tid : Tid} {current : Address}
    (hkept : StopsKept target target') (hstopped : target.stoppedAt arch tid = some current) :
    target'.stoppedAt arch tid = some current := by
  obtain ⟨task, htask, hflag, rfl⟩ := find?_of_stoppedAt hstopped
  exact stoppedAt_of_find? (hkept tid task htask hflag) hflag

/-- A word that cannot be read through the selected thread. -/
theorem readWord_error {s : State R D} (hs : ¬ s.Answering env) (address : Address) :
    ∃ halt, readWord env address s = .error halt (env.enter s) := by
  rw [readWord, get_bind_apply]
  rcases ptrace_cases env "PTRACE_PEEKDATA" s.debugger.selectedTid
      (fun _ target => (word target.memory address, target)) s with
    ⟨task, htask, hstopped, -, -⟩ | ⟨-, hrun⟩
  · exact absurd ⟨task, htask, hstopped⟩ hs
  · exact ⟨_, hrun⟩

/-- Bytes that cannot be written, because the words they lie in cannot be read. -/
theorem writeBytes_error {s : State R D} {bytes : List Byte} (hbytes : bytes ≠ [])
    (hs : ¬ s.Answering env) (address : Address) :
    ∃ halt, writeBytes env address bytes s = .error halt (env.enter s) := by
  cases bytes with
  | nil => exact absurd rfl hbytes
  | cons byte rest =>
      obtain ⟨halt, hread⟩ := readWord_error hs (aligned address)
      have hcover : coverWord env .empty (aligned address) s = .error halt (env.enter s) :=
        bind_error hread
      exact ⟨halt, bind_error (bind_error hcover)⟩

/-- While a trap is inserted, stopped threads stay as they are. -/
theorem stopsKept_of_arming (hreliable : env.Reliable) {T : Set Address} {s t : State R D}
    (hmoves : Moves arch env T [.enter, .arm] s t) : StopsKept s.target t.target := by
  refine hmoves.preserve (I := fun u => StopsKept s.target u.target) ?_ fun _ _ htask _ => htask
  intro kind hkind u v hmove hu
  cases hmove with
  | enter => exact fun tid task htask hstopped =>
      hreliable.steady _ _ tid task (hu tid task htask hstopped) hstopped
  | arming | save | arm | abandon | armWild => exact hu
  | liftWild => exact hu
  | _ => exact absurd hkind (by decide)

namespace Environment.Reliable

variable (hreliable : env.Reliable) {s : State R D}

include hreliable

theorem enter {tid : Tid} (hs : s.StoppedThread tid) : (env.enter s).StoppedThread tid := by
  obtain ⟨task, htask, hstopped⟩ := hs
  exact ⟨task, hreliable.steady _ _ _ _ htask hstopped, hstopped⟩

theorem ptrace {operation : String} {tid : Tid} {request : Task R D → Target R D → α × Target R D}
    {task : Task R D} (htask : s.target.tasks.find? tid = some task)
    (hstopped : task.stopped = true) :
    Cosy.ptrace env operation tid request s = .ok (request task (env.enter s).target).1
      { env.enter s with target := (request task (env.enter s).target).2 } := by
  have hfind : (env.enter s).target.tasks.find? tid = some task :=
    hreliable.steady _ _ _ _ htask hstopped
  rcases ptrace_cases env operation tid request s with ⟨task', htask', -, -, hrun⟩ | ⟨hnone, -⟩
  · rw [hfind] at htask'
    obtain rfl := Option.some.inj htask'
    exact hrun
  · have hfails := hnone task hfind hstopped
    rw [hreliable.answers] at hfails
    cases hfails

theorem pc {tid : Tid} {task : Task R D} (htask : s.target.tasks.find? tid = some task)
    (hstopped : task.stopped = true) :
    Cosy.pc arch env tid s = .ok (arch.pc task.regs) (env.enter s) := by
  have hregs : getRegs arch env tid s = .ok task.regs (env.enter s) :=
    hreliable.ptrace htask hstopped
  rw [Cosy.pc, bind_ok hregs]
  rfl

/-- The program counter of a stopped thread can be set, and the thread stays stopped. -/
theorem setPc {tid : Tid} (value : Address) :
    Triple (fun s => s.StoppedThread tid) (Cosy.setPc arch env tid value)
      (fun _ s => s.StoppedThread tid) (fun _ _ => False) := by
  rintro s ⟨task, htask, hstopped⟩
  have hregs : getRegs arch env tid s = .ok task.regs (env.enter s) :=
    hreliable.ptrace htask hstopped
  have hset : setRegs arch env tid (arch.setPc task.regs value) (env.enter s) = .ok ⟨⟩ _ :=
    hreliable.ptrace (hreliable.steady _ _ _ _ htask hstopped) hstopped
  rw [Cosy.setPc, bind_ok hregs, bind_ok hset]
  exact ⟨_, SortedMap.find?_insert_self _ _ _, hstopped⟩

theorem answering (hs : s.SelectedStopped) : s.Answering env := hreliable.enter hs

theorem readWord (address : Address) :
    Triple (State.Answering env) (Cosy.readWord env address) (fun _ => State.SelectedStopped)
      (fun _ _ => False) := by
  rintro s ⟨task, htask, hstopped⟩
  rw [Cosy.readWord, get_bind_apply]
  rcases ptrace_cases env "PTRACE_PEEKDATA" s.debugger.selectedTid
      (fun _ target => (word target.memory address, target)) s with
    ⟨-, -, -, -, hrun⟩ | ⟨hnone, -⟩
  · rw [hrun]
    exact ⟨task, htask, hstopped⟩
  · have hfails := hnone task htask hstopped
    rw [hreliable.answers] at hfails
    cases hfails

theorem pokeWord (address value : Address) :
    Triple State.SelectedStopped (Cosy.pokeWord env address value)
      (fun _ => State.SelectedStopped) (fun _ _ => False) := by
  rintro s hs
  obtain ⟨task, htask, hstopped⟩ := id hs
  rw [Cosy.pokeWord, get_bind_apply, hreliable.ptrace htask hstopped]
  exact hreliable.enter hs

theorem readBytes (n : Nat) : ∀ address,
    Triple State.SelectedStopped (Cosy.readBytes env address n) (fun _ => State.SelectedStopped)
      (fun _ _ => False) := by
  induction n with
  | zero => exact fun _ => Triple.pure fun _ hs => hs
  | succ n ih =>
      exact fun address => Triple.bind ((hreliable.readWord _).conseq
          (fun _ hs => hreliable.answering hs) (fun _ _ hs => hs) fun _ _ hs => hs) fun _ =>
        Triple.bind (ih _) fun _ => Triple.pure fun _ hs => hs

theorem readTrap (address : Address) :
    Triple (State.Answering env) (Cosy.readBytes env address arch.breakpointSize)
      (fun _ => State.SelectedStopped) (fun _ _ => False) := by
  obtain ⟨n, hn⟩ := Nat.exists_eq_succ_of_ne_zero arch.breakpointSize_pos.ne'
  rw [hn]
  exact Triple.bind (hreliable.readWord _) fun _ =>
    Triple.bind (hreliable.readBytes n _) fun _ => Triple.pure fun _ hs => hs

theorem gatherWords (bytes : List Byte) : ∀ words address,
    Triple State.SelectedStopped (Cosy.gatherWords env words address bytes)
      (fun _ => State.SelectedStopped) (fun _ _ => False) := by
  induction bytes with
  | nil => exact fun _ _ => Triple.pure fun _ hs => hs
  | cons byte rest ih =>
      intro words address
      refine Triple.bind ?_ fun words => ih _ _
      unfold coverWord
      split
      · exact Triple.pure fun _ hs => hs
      · exact Triple.bind ((hreliable.readWord _).conseq (fun _ hs => hreliable.answering hs)
          (fun _ _ hs => hs) fun _ _ hs => hs) fun _ => Triple.pure fun _ hs => hs

theorem gatherTrap {bytes : List Byte} (hbytes : bytes ≠ []) (address : Address) :
    Triple (State.Answering env) (Cosy.gatherWords env .empty address bytes)
      (fun _ => State.SelectedStopped) (fun _ _ => False) := by
  cases bytes with
  | nil => exact absurd rfl hbytes
  | cons byte rest =>
      refine Triple.bind (Triple.bind (hreliable.readWord (aligned address)) fun _ => ?_)
        fun words => hreliable.gatherWords rest _ _
      exact Triple.pure fun _ hs => hs

theorem writeBytes (address : Address) (bytes : List Byte) :
    Triple State.SelectedStopped (Cosy.writeBytes env address bytes)
      (fun _ => State.SelectedStopped) (fun _ _ => False) :=
  Triple.bind (hreliable.gatherWords bytes _ _) fun words =>
    Triple.forM words.entries fun entry _ => hreliable.pokeWord entry.1 entry.2

theorem disable (key : Address) :
    Triple State.SelectedStopped (Cosy.disable env key) (fun _ => State.SelectedStopped)
      (fun _ _ => False) := by
  refine Triple.get_bind fun s => ?_
  cases s.debugger.breakpoints.find? key with
  | none => exact Triple.pure fun _ hs => hs.2
  | some r =>
      dsimp only
      split
      · exact Triple.pure fun _ hs => hs.2
      · refine Triple.bind ((hreliable.writeBytes r.address r.saved).conseq (fun _ hs => hs.2)
          (fun _ _ hs => hs) (fun _ _ hs => hs)) fun _ => ?_
        exact fun t ht => ht

theorem insertTrap (key address : Address) :
    Triple (State.Answering env) (Cosy.insertTrap arch env key address)
      (fun _ => State.SelectedStopped) (fun _ _ => False) := by
  refine Triple.bind (hreliable.readTrap address) fun saved => ?_
  refine Triple.bind (Q := fun _ => State.SelectedStopped) (Triple.modify fun _ hs => hs) fun _ => ?_
  refine Triple.bind (hreliable.writeBytes address _) fun _ => ?_
  exact Triple.modify fun _ hs => hs

theorem enable (key : Address) :
    Triple (State.Answering env) (Cosy.enable arch env key) (fun _ => State.Answering env)
      (fun _ _ => False) := by
  refine Triple.get_bind fun s => ?_
  cases s.debugger.breakpoints.find? key with
  | none => exact Triple.pure fun _ hs => hs.2
  | some r =>
      dsimp only
      split
      · exact Triple.pure fun _ hs => hs.2
      · refine Triple.bind (Q := fun _ => State.Answering env)
          (Triple.modify fun _ hs => hs.2) fun _ => ?_
        refine Triple.onThrow ((hreliable.insertTrap key r.address).conseq (fun _ hs => hs)
          (fun _ _ hs => hreliable.answering hs) fun _ _ hs => hs) fun _ _ hfalse => hfalse.elim

theorem createBreakpoint (address : Address) (specification : Text) (temporary : Bool) :
    Triple (State.Answering env)
      (Cosy.createBreakpoint arch env address specification temporary)
      (fun _ _ => True) (fun _ _ => False) := by
  refine Triple.get_bind fun s => ?_
  cases s.debugger.breakpoints.find? address with
  | some existing => exact Triple.pure fun _ _ => trivial
  | none =>
      refine Triple.bind (Q := fun _ => State.Answering env) (Triple.modify fun _ hs => hs.2)
        fun _ => Triple.bind (hreliable.enable address) fun _ => ?_
      refine Triple.bind (Q := fun _ _ => True) (Triple.get_bind fun t => ?_) fun _ =>
        Triple.pure fun _ _ => trivial
      cases t.debugger.breakpoints.find? address with
      | none => exact Triple.pure fun _ _ => trivial
      | some r =>
          dsimp only [doIf]
          split
          · exact Triple.modify fun _ _ => trivial
          · exact Triple.pure fun _ _ => trivial

end Environment.Reliable

end Cosy
