import Cosy.Schedule

/-!
# Replacing the address space

The kernel discards the traps with the old image, and the debugger does not notice. While no trap is
in place when that happens, every enabled record has its trap in the image that is there, and no
byte of an old image is ever written back.
-/

namespace Cosy

open ByteMemory Effect

variable {R D : Type} {arch : Architecture R D} {env : Environment R D} {T : Set Address}

/-- Every record shown as enabled has its trap in memory. -/
def TrapsPresent (arch : Architecture R D) (s : State R D) : Prop :=
  ∀ key r, s.debugger.breakpoints.find? key = some r → r.enabled = true →
    bytesAt s.target.memory key arch.breakpointSize = arch.breakpointInstruction

/-- Whatever bytes were put back, the program had the same ones there. -/
def RestoresImage (s : State R D) : Prop := ∀ entry ∈ s.log, entry.Faithful

/-! ### Sessions without a stale trap -/

theorem Patched.trapsPresent {s : State R D} (hpatched : Patched arch T s)
    (horderly : Orderly arch T s.log) : TrapsPresent arch s := by
  intro key r hr henabled
  obtain ⟨haligned, htext⟩ := horderly.of_armed (hpatched.armed key r hr henabled)
  refine bytesAt_trap haligned fun x hx => ?_
  rw [hpatched.memory (htext x hx), patchedByte_of_enabled (hx.symm ▸ hr) henabled]

theorem Visited.sound (henv : env.LeavesText T) {child : Tid} {target : Target R D}
    (himage : Set.EqOn target.memory target.image T) {s : State R D}
    (hs : Visited arch env (State.initial child target) s) : Sound arch T s :=
  (hs.moves henv).sound henv wellFormed_empty (sound_of_empty rfl himage rfl)

theorem Visited.traps_follow_exec (henv : env.LeavesText T) {child : Tid} {target : Target R D}
    (himage : Set.EqOn target.memory target.image T) {s : State R D}
    (hs : Visited arch env (State.initial child target) s) (horderly : Orderly arch T s.log) :
    TrapsPresent arch s ∧ RestoresImage s := by
  have hsound := hs.sound henv himage
  exact ⟨(hsound.patched horderly).trapsPresent horderly, hsound.faithful horderly⟩

/-! ### Deciding whether a session is orderly -/

/-- The addresses at which a trap was ever about to be inserted. -/
def armings : List Entry → List Address
  | [] => []
  | .arming address :: rest => address :: armings rest
  | _ :: rest => armings rest

theorem mem_armings_of_armed {key : Address} {log : List Entry} (harmed : armed key log = true) :
    key ∈ armings log := by
  induction log with
  | nil => cases harmed
  | cons entry log ih =>
      cases entry with
      | arming address =>
          by_cases heq : address = key
          · exact heq ▸ List.mem_cons_self
          · exact List.mem_cons_of_mem _ (ih (by simpa [armed, heq] using harmed))
      | disarmed address =>
          have hrest : address ≠ key ∧ armed key log = true := by simpa [armed] using harmed
          exact ih hrest.2
      | target event =>
          have hmap : armed key ([event].map Entry.target ++ log) = true := harmed
          exact ih (armed_of_target hmap)
      | _ => exact ih harmed

/-- `Orderly` where every byte is text. -/
def orderlyAnywhere (arch : Architecture R D) : List Entry → Bool
  | [] => true
  | .arming address :: rest =>
      orderlyAnywhere arch rest && decide (address.toNat % arch.breakpointSize = 0)
  | .userWrote _ :: _ => false
  | .target (.exec _) :: rest =>
      orderlyAnywhere arch rest && (armings rest).all fun key => !armed key rest
  | _ :: rest => orderlyAnywhere arch rest

theorem orderly_of_orderlyAnywhere {log : List Entry}
    (hlog : orderlyAnywhere arch log = true) : Orderly arch Set.univ log := by
  induction log with
  | nil => trivial
  | cons entry log ih =>
      cases entry with
      | arming address =>
          simp only [orderlyAnywhere, Bool.and_eq_true, decide_eq_true_eq] at hlog
          exact ⟨ih hlog.1, hlog.2, fun _ _ => trivial⟩
      | userWrote address => cases hlog
      | target event =>
          cases event with
          | exec tid =>
              simp only [orderlyAnywhere, Bool.and_eq_true, List.all_eq_true] at hlog
              refine ⟨ih hlog.1, fun key => ?_⟩
              cases harmed : armed key log with
              | false => rfl
              | true => simpa [harmed] using hlog.2 key (mem_armings_of_armed harmed)
          | _ => exact ih hlog
      | _ => exact ih hlog

/-! ### Sessions with an exec -/

/-- The only thread replaces the address space just before the system call of this number. -/
def execMachine (tick : Nat) : Environment UserRegs X86_64.DebugRegisters :=
  nopMachine fun now => if now = tick then [.exec 1 fun _ => 0x55] else []

theorem execMachine_leavesText (tick : Nat) (T : Set Address) : (execMachine tick).LeavesText T :=
  Machine.leavesText (nops_leavesText T)

def Entry.isExecStop : Entry → Bool
  | .consumed _ _ (.stopped _ event) _ => event = ptraceEventExec
  | _ => false

/-- A breakpoint that was disabled across the exec is inserted into the new image. -/
theorem Visited.traps_follow_exec_nops :
    ∃ s, Visited x86_64 (execMachine 13) (State.initial 1 (nopTarget 1)) s ∧
      s.log.any Entry.isExecStop = true ∧ s.target.memory 0x1003 = 0xcc#8 ∧
      TrapsPresent x86_64 s ∧ RestoresImage s := by
  obtain ⟨s, hs, hcheck⟩ := Prompt.exists_of_runBatch x86_64 (execMachine 13)
    (State.initial 1 (nopTarget 1)) ["b *0x1003".toList, "disable 1".toList, "c".toList]
    (p := fun s =>
      let t := endState (dispatch x86_64 (execMachine 13) "enable 1".toList) s
      t.log.any Entry.isExecStop && decide (t.target.memory 0x1003 = 0xcc#8) &&
        orderlyAnywhere x86_64 t.log) (by decide +kernel)
  simp only [Bool.and_eq_true, decide_eq_true_eq] at hcheck
  have hvisited : Visited x86_64 (execMachine 13) _ _ := .command "enable 1".toList hs
  exact ⟨_, hvisited, hcheck.1.1, hcheck.1.2,
    Visited.traps_follow_exec (execMachine_leavesText 13 Set.univ) (fun _ _ => rfl) hvisited
      (orderly_of_orderlyAnywhere hcheck.2)⟩

/-- Whether the record at an address is enabled without its trap being there. -/
def State.hasStaleTrap (arch : Architecture R D) (s : State R D) (key : Address) : Bool :=
  (s.debugger.breakpoints.find? key).any fun r =>
    r.enabled && decide (bytesAt s.target.memory key arch.breakpointSize ≠ arch.breakpointInstruction)

theorem not_trapsPresent {s : State R D} {key : Address} (hstale : s.hasStaleTrap arch key = true) :
    ¬ TrapsPresent arch s := by
  intro hpresent
  obtain ⟨r, hr, hflags⟩ := (Option.any_eq_true _ _).mp hstale
  simp only [Bool.and_eq_true, decide_eq_true_eq] at hflags
  exact hflags.2 (hpresent key r hr hflags.1)

/-- Whether the entry tells of bytes put back that are not the program's. -/
def Entry.isForeign : Entry → Bool
  | .restored _ saved original => saved ≠ original
  | _ => false

theorem not_restoresImage {s : State R D} (hforeign : s.log.any Entry.isForeign = true) :
    ¬ RestoresImage s := by
  intro hrestores
  obtain ⟨entry, hmem, hentry⟩ := List.any_eq_true.mp hforeign
  have hfaithful := hrestores entry hmem
  cases entry <;> first | cases hentry | simp_all [Entry.isForeign, Entry.Faithful]

/-- The exec finds the trap of an enabled breakpoint in place. The record stays enabled with no trap
in the new image, and deleting the breakpoint writes the old program's byte there. -/
theorem stale_trap_after_exec :
    ∃ s t, Prompt x86_64 (execMachine 11) (State.initial 1 (nopTarget 1)) s ∧
      Prompt x86_64 (execMachine 11) (State.initial 1 (nopTarget 1)) t ∧
      s.log.any Entry.isExecStop = true ∧ ¬ TrapsPresent x86_64 s ∧
      t.log.any Entry.isExecStop = true ∧ ¬ RestoresImage t ∧
      t.target.image 0x1003 = 0x55#8 ∧ t.target.memory 0x1003 = 0x90#8 := by
  obtain ⟨s, hs, hcheck⟩ := Prompt.exists_of_runBatch x86_64 (execMachine 11)
    (State.initial 1 (nopTarget 1)) ["b *0x1003".toList, "c".toList]
    (p := fun s => s.log.any Entry.isExecStop && s.hasStaleTrap x86_64 0x1003) (by decide +kernel)
  obtain ⟨t, ht, hcheck'⟩ := Prompt.exists_of_runBatch x86_64 (execMachine 11)
    (State.initial 1 (nopTarget 1)) ["b *0x1003".toList, "c".toList, "delete 1".toList]
    (p := fun t => t.log.any Entry.isExecStop && t.log.any Entry.isForeign &&
      decide (t.target.image 0x1003 = 0x55#8) && decide (t.target.memory 0x1003 = 0x90#8))
    (by decide +kernel)
  simp only [Bool.and_eq_true, decide_eq_true_eq] at hcheck hcheck'
  exact ⟨s, t, hs, ht, hcheck.1, not_trapsPresent hcheck.2, hcheck'.1.1.1,
    not_restoresImage hcheck'.1.1.2, hcheck'.1.2, hcheck'.2⟩

end Cosy
