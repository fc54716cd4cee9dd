import Cosy.Exec

/-!
# Detaching

`quit` goes through the selected thread to lift the traps and passes over every failure. If that
thread is stopped no request fails, and the text is the program's again before the first thread is
let go. If there is no trap to lift, nothing can fail.
-/

namespace Cosy

open ByteMemory Effect

variable {R D : Type} {arch : Architecture R D} {env : Environment R D} {T : Set Address}

/-- The states in which a session begins to detach: at a prompt, or when its opening has thrown. -/
inductive Quitting (arch : Architecture R D) (env : Environment R D) (start : State R D) :
    State R D → Prop
  | prompt {s : State R D} (hs : Prompt arch env start s) : Quitting arch env start s
  | aborted {s : State R D} {exception : Exception}
      (hrun : openSession arch env start = .error (.thrown exception) s) :
      Quitting arch env start s

/-- Only these addresses may have an enabled record. -/
def EnabledWithin (K : List Address) (s : State R D) : Prop :=
  ∀ key r, s.debugger.breakpoints.find? key = some r → r.enabled = true → key ∈ K

theorem EnabledWithin.of_moves {K : List Address} {s t : State R D}
    (hmoves : Moves arch env T [.enter, .force] s t) (hs : EnabledWithin K s) :
    EnabledWithin K t := by
  refine hmoves.preserve (fun kind hkind u v hmove hu => ?_) hs
  cases hmove with
  | enter => exact hu
  | liftWild => exact hu
  | force _ hr henabled =>
      intro key r hr' henabled'
      have hfind := (find?_withRecord _ _ key _).symm.trans hr'
      split at hfind
      · obtain ⟨r₀, -, rfl⟩ := Option.map_eq_some_iff.mp hfind
        cases henabled'
      · exact hu key r hfind henabled'
  | _ => exact absurd hkind (by decide)

theorem Patched.restored {s : State R D} (hpatched : Patched arch T s)
    (hdisabled : EnabledWithin [] s) : Set.EqOn s.target.memory s.target.image T := by
  intro x hx
  rw [hpatched.memory hx]
  exact patchedByte_of_not_enabled fun r hr => Bool.eq_false_iff.mpr fun henabled =>
    absurd (hdisabled _ r hr henabled) List.not_mem_nil

theorem Moves.sameSession {s t : State R D} (hmoves : Moves arch env T commanding s t) :
    t.debugger.SameSession s.debugger := by
  refine hmoves.preserve (I := fun u => u.debugger.SameSession s.debugger) ?_ ⟨rfl, rfl⟩
  intro kind hkind u v hmove hu
  cases hmove with
  | book _ _ _ _ _ hsession => exact ⟨hsession.child.trans hu.child, hsession.detached.trans hu.detached⟩
  | threads _ _ hsession => exact ⟨hsession.child.trans hu.child, hsession.detached.trans hu.detached⟩
  | close => exact absurd hkind (by decide)
  | _ => exact ⟨hu.child, hu.detached⟩

/-! ### Quitting -/

theorem Quitting.moves (henv : env.LeavesText T) {child : Tid} {target : Target R D}
    {s : State R D} (hs : Quitting arch env (State.initial child target) s) :
    Moves arch env T commanding (State.initial child target) s := by
  cases hs with
  | prompt hs => exact hs.moves henv
  | aborted hrun =>
      exact (((does_openSession henv).mono (by decide)).of_error hrun wellFormed_empty).1

/-- Whether a thread is in a ptrace stop. -/
def State.isStopped (s : State R D) (tid : Tid) : Bool :=
  (s.target.tasks.find? tid).any fun task => task.stopped

theorem State.stoppedThread_of_isStopped {s : State R D} {tid : Tid}
    (hstopped : s.isStopped tid = true) : s.StoppedThread tid := by
  obtain ⟨task, htask, hflag⟩ := (Option.any_eq_true _ _).mp hstopped
  exact ⟨task, htask, hflag⟩

/-- A second thread appears while the debugger waits, and later, while the debugger waits for the
step of the second, the first one gets a signal. -/
def signalledMachine : Environment UserRegs X86_64.DebugRegisters :=
  nopMachine fun now =>
    if now = 11 then [.clone 1 2 fun _ => 0]
    else if now = 31 then [.stop 1 10 0 0 0]
    else []

end Cosy
