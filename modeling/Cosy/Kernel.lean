import Cosy.State

/-!
# System calls

What the debugger asks of the kernel: `ptrace` requests on a stopped thread, and `waitpid`. Before
each of them the environment moves, so everything that happens while the debugger runs happens at
one of these points.
-/

namespace Cosy

open Effect

variable {R D α : Type} (env : Environment R D)

/-- A system call begins: the traced process and the kernel have moved on meanwhile. -/
def Environment.enter (s : State R D) : State R D :=
  let (events, target) := env.interfere s.tick s.target
  { s with target := target, tick := s.tick + 1, log := events.map .target ++ s.log }

/-- A `ptrace` request. It fails unless the thread is in a ptrace stop. -/
def ptrace (operation : String) (tid : Tid)
    (request : Task R D → Target R D → α × Target R D) : Dbg R D α := fun s =>
  let t := env.enter s
  match t.target.tasks.find? tid with
  | some task =>
      if task.stopped && !env.fails s.tick then
        let (value, target) := request task t.target
        .ok value { t with target := target }
      else .error (.thrown (.system operation)) t
  | none => .error (.thrown (.system operation)) t

def waitForEvent : Dbg R D (Tid × WaitStatus) := fun s =>
  let t := env.enter s
  match t.target.ready with
  | event :: rest => .ok event { t with target := { t.target with ready := rest } }
  | [] =>
      -- No child is left to wait for (ECHILD); otherwise `waitpid` does not return.
      if t.target.tasks.entries.isEmpty then .error (.thrown (.system "waitpid")) t
      else .error .blocked t

/-- Append an entry to the log. -/
def note (entry : Entry) : Dbg R D Unit := modify fun s => { s with log := entry :: s.log }

def print (message : Message) : Dbg R D Unit := note (.out message)

/-- `try { body } catch (const std::exception&) { handler }`. -/
def attempt (body : Dbg R D α) (handler : Exception → Dbg R D α) : Dbg R D α :=
  rescue Halt.exception? body handler

def modifyDebugger (change : Debugger → Debugger) : Dbg R D Unit :=
  modify fun s => { s with debugger := change s.debugger }

/-! ### What a system call does -/

section

variable {env} {s : State R D}

@[simp]
theorem enter_debugger : (env.enter s).debugger = s.debugger := rfl

@[simp]
theorem enter_tick : (env.enter s).tick = s.tick + 1 := rfl

theorem enter_target : (env.enter s).target = (env.interfere s.tick s.target).2 := rfl

theorem enter_log (env : Environment R D) (s : State R D) :
    (env.enter s).log = (env.interfere s.tick s.target).1.map Entry.target ++ s.log := rfl

/-- A request reaches a stopped thread, or throws once the environment has moved. -/
theorem ptrace_cases (env : Environment R D) (operation : String) (tid : Tid)
    (request : Task R D → Target R D → α × Target R D) (s : State R D) :
    (∃ task, (env.enter s).target.tasks.find? tid = some task ∧ task.stopped = true ∧
      env.fails s.tick = false ∧
      ptrace env operation tid request s
        = .ok (request task (env.enter s).target).1
          { env.enter s with target := (request task (env.enter s).target).2 }) ∨
    ((∀ task, (env.enter s).target.tasks.find? tid = some task → task.stopped = true →
        env.fails s.tick = true) ∧
      ptrace env operation tid request s = .error (.thrown (.system operation)) (env.enter s)) := by
  unfold ptrace
  cases hfind : (env.enter s).target.tasks.find? tid with
  | none => exact Or.inr ⟨by simp, by simp [hfind]⟩
  | some task =>
      by_cases hok : task.stopped = true ∧ env.fails s.tick = false
      · exact Or.inl ⟨task, rfl, hok.1, hok.2, by simp [hfind, hok.1, hok.2]⟩
      · refine Or.inr ⟨?_, ?_⟩
        · rintro _ ⟨⟩ hstopped
          simpa [hstopped] using hok
        · have hguard : (task.stopped && !env.fails s.tick) = false := by simpa using hok
          simp [hfind, hguard]

theorem waitForEvent_cases (env : Environment R D) (s : State R D) :
    (∃ tid status rest, (env.enter s).target.ready = (tid, status) :: rest ∧
      waitForEvent env s
        = .ok (tid, status)
          { env.enter s with target := { (env.enter s).target with ready := rest } }) ∨
    ((env.enter s).target.ready = [] ∧
      ∃ halt, waitForEvent env s = .error halt (env.enter s)) := by
  unfold waitForEvent
  cases hready : (env.enter s).target.ready with
  | nil =>
      refine Or.inr ⟨rfl, ?_⟩
      simp only [hready]
      split <;> exact ⟨_, rfl⟩
  | cons event rest =>
      exact Or.inl ⟨event.1, event.2, rest, rfl, by simp [hready]⟩

@[simp]
theorem note_apply (entry : Entry) (s : State R D) :
    note entry s = .ok ⟨⟩ { s with log := entry :: s.log } := rfl

@[simp]
theorem print_apply (message : Message) (s : State R D) :
    print message s = .ok ⟨⟩ { s with log := .out message :: s.log } := rfl

@[simp]
theorem modifyDebugger_apply (change : Debugger → Debugger) (s : State R D) :
    modifyDebugger change s = .ok ⟨⟩ { s with debugger := change s.debugger } := rfl

end

end Cosy
