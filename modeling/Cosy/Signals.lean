import Cosy.Reports

/-!
# Signals

A thread that stops because a signal is on its way to the program gets the signal only if the
request that resumes it passes it on. The debugger remembers the signal of a stop, and resumes every
thread without one.
-/

namespace Cosy

open ByteMemory Effect

variable {R D : Type} {arch : Architecture R D} {env : Environment R D} {tid : Tid}
  {signal : Nat} {log : List Entry}

/-- The signal a stop keeps from the program, if the debugger does not use it itself. -/
def WaitStatus.programSignal : WaitStatus → Option Nat
  | .stopped signal event =>
      if event = 0 ∧ signal ∉ [0, sigtrap, sigstop] then some signal else none
  | _ => none

/-- What an entry tells about the signal a thread is owed, if it tells anything. -/
def Entry.owes (tid : Tid) : Entry → Option (Option Nat)
  | .consumed _ thread status _ =>
      if thread = tid ∧ status ≠ .continued then some status.programSignal else none
  | .resumed thread _ _ => if thread = tid then some none else none
  | _ => none

/-- The signal a thread has stopped with, if it has not been resumed since. -/
def owed (tid : Tid) : List Entry → Option Nat
  | [] => none
  | entry :: older => (entry.owes tid).getD (owed tid older)

/-- Every request that resumes a thread passes the check, with the log up to then. -/
def resumptionsAre (check : Tid → Nat → List Entry → Bool) : List Entry → Bool
  | [] => true
  | .resumed tid _ signal :: older => check tid signal older && resumptionsAre check older
  | _ :: older => resumptionsAre check older

/-- Every request that resumes a thread passes on the signal the thread has stopped with, and no
other. -/
def signalsPassed : List Entry → Bool :=
  resumptionsAre fun tid signal older => signal = (owed tid older).getD 0

/-- No thread is resumed that has stopped with a signal for the program. -/
def nothingOwed : List Entry → Bool := resumptionsAre fun tid _ older => (owed tid older).isNone

def Entry.passesNothing : Entry → Prop
  | .resumed _ _ signal => signal = 0
  | _ => True

/-! ### What is passed on -/

theorem programSignal_ne_zero {status : WaitStatus}
    (hsignal : status.programSignal = some signal) : signal ≠ 0 := by
  unfold WaitStatus.programSignal at hsignal
  split at hsignal
  · rw [Option.ite_none_right_eq_some] at hsignal
    obtain ⟨⟨-, hnot⟩, heq⟩ := hsignal
    obtain rfl := Option.some.inj heq
    rintro rfl
    exact hnot List.mem_cons_self
  · cases hsignal

theorem owes_ne_zero {entry : Entry} (howes : entry.owes tid = some (some signal)) :
    signal ≠ 0 := by
  unfold Entry.owes at howes
  split at howes
  · rw [Option.ite_none_right_eq_some] at howes
    exact programSignal_ne_zero (Option.some.inj howes.2)
  · rw [Option.ite_none_right_eq_some] at howes
    cases howes.2
  · cases howes

theorem owed_ne_zero (howed : owed tid log = some signal) : signal ≠ 0 := by
  induction log with
  | nil => cases howed
  | cons entry older ih =>
      rw [owed] at howed
      cases howes : entry.owes tid with
      | none =>
          rw [howes] at howed
          exact ih howed
      | some found =>
          rw [howes] at howed
          obtain rfl : found = some signal := howed
          exact owes_ne_zero howes

/-- Passing nothing on is right as long as there is nothing to pass on. -/
theorem zero_passed_iff : (0 : Nat) = (owed tid log).getD 0 ↔ (owed tid log).isNone = true := by
  cases howed : owed tid log with
  | none => simp
  | some signal =>
      have hne := owed_ne_zero howed
      simp only [Option.getD_some, Option.isNone_some, Bool.false_eq_true, iff_false]
      omega

theorem signalsPassed_iff (hlog : ∀ entry ∈ log, entry.passesNothing) :
    signalsPassed log = true ↔ nothingOwed log = true := by
  unfold signalsPassed nothingOwed
  induction log with
  | nil => rfl
  | cons entry older ih =>
      have ih := ih fun entry hmem => hlog entry (List.mem_cons_of_mem _ hmem)
      have hentry := hlog entry List.mem_cons_self
      cases entry with
      | resumed tid request signal =>
          obtain rfl : signal = 0 := hentry
          simp only [resumptionsAre, Bool.and_eq_true, decide_eq_true_eq, ih, zero_passed_iff]
      | _ => exact ih

/-! ### Sessions -/

theorem Move.appends_passesNothing {kind : Kind} {s t : State R D}
    (hmove : Move arch env ∅ kind s t) : Appends Entry.passesNothing s t := by
  cases hmove with
  | enter => exact appends_enter (fun _ => trivial) s
  | say _ hentry | report _ hentry | stepping _ hentry =>
      refine .cons rfl ?_
      rename_i entry
      cases entry <;> trivial
  | resume => exact .cons rfl rfl
  | arming | abandon | userEnabled | userDisabled | write | release => exact .cons rfl trivial
  | force | lift => exact ⟨[_, _], rfl, by simp [Entry.passesNothing]⟩
  | _ => exact .of_eq rfl

/-- The signals of the program get through as long as none stops it. -/
theorem Visited.signals_passed_iff {child : Tid} {target : Target R D} {s : State R D}
    (hs : Visited arch env (State.initial child target) s) :
    signalsPassed s.log = true ↔ nothingOwed s.log = true := by
  have hmoves := hs.moves (T := ∅) (Environment.leavesText_empty env)
  obtain ⟨newer, hnewer, hall⟩ := hmoves.relate (Q := Appends Entry.passesNothing)
    fun _ _ _ _ hmove => hmove.appends_passesNothing
  refine signalsPassed_iff fun entry hmem => hall entry ?_
  rw [hnewer] at hmem
  simpa [State.initial] using hmem

theorem Visited.signals_passed_nops :
    ∃ s, Visited x86_64 (runningMachine 4) (State.initial 1 (nopTarget 1)) s ∧
      s.log.any Entry.isResumed = true ∧ signalsPassed s.log = true := by
  obtain ⟨s, hs, hcheck⟩ := Prompt.exists_of_runBatch x86_64 (runningMachine 4)
    (State.initial 1 (nopTarget 1)) ["b *0x1003".toList]
    (p := fun s =>
      let t := endState (dispatch x86_64 (runningMachine 4) "c".toList) s
      t.log.any Entry.isResumed && nothingOwed t.log) (by decide +kernel)
  rw [Bool.and_eq_true] at hcheck
  have hvisited : Visited x86_64 (runningMachine 4) _ _ := .command "c".toList hs
  exact ⟨_, hvisited, hcheck.1, hvisited.signals_passed_iff.mpr hcheck.2⟩

/-- The process gets signal 10 whenever it runs. -/
def signalled : Environment UserRegs X86_64.DebugRegisters := nopMachine fun _ => [.stop 1 10 0 0 0]

/-- The signal that has stopped the process is dropped by the next `continue`. -/
theorem signal_dropped :
    ∃ s, Prompt x86_64 signalled (State.initial 1 (nopTarget 1)) s ∧
      owed 1 s.log = some 10 ∧
      signalsPassed (endState (dispatch x86_64 signalled "c".toList) s).log = false := by
  obtain ⟨s, hs, hcheck⟩ := Prompt.exists_of_runBatch x86_64 signalled
    (State.initial 1 (nopTarget 1)) ["c".toList]
    (p := fun s => decide (owed 1 s.log = some 10) &&
      !signalsPassed (endState (dispatch x86_64 signalled "c".toList) s).log) (by decide +kernel)
  simp only [Bool.and_eq_true, decide_eq_true_eq, Bool.not_eq_true'] at hcheck
  exact ⟨s, hs, hcheck.1, hcheck.2⟩

end Cosy
