import Cosy.Invariant
import Cosy.Machine

/-!
# Restoring the program

Operations on breakpoints in any order, on x86-64, where every request they make may fail, in a
target whose memory nothing else writes: the memory is the original one with a trap byte at each
enabled record, after an exception as after a return.
-/

namespace Cosy

open ByteMemory Effect

/-- The environment never writes the memory of the target, and replaces no address space. -/
structure Environment.WritesNothing {R D : Type} (env : Environment R D) : Prop where
  memory : ∀ tick target, (env.interfere tick target).2.memory = target.memory
  image : ∀ tick target, (env.interfere tick target).2.image = target.image
  noExec : ∀ tick target tid, TargetEvent.exec tid ∉ (env.interfere tick target).1

/-- The operations of the debugger that insert or lift traps. -/
inductive PatchOperation where
  | create (address : Address) (specification : Text) (temporary : Bool)
  | enable (id : Int)
  | disable (id : Int)
  | remove (id : Int)
  | stepOver
  | printStop (tid : Tid)
  | detach

section Operations

variable {R D : Type} (arch : Architecture R D) (env : Environment R D)

def PatchOperation.run : PatchOperation → Dbg R D Unit
  | .create address specification temporary => do
      let _ ← createBreakpoint arch env address specification temporary
  | .enable id => do
      let _ ← enableById arch env id
  | .disable id => do
      let _ ← disableById env id
  | .remove id => removeBreakpoint env id
  | .stepOver => stepOverBreakpoint arch env
  | .printStop tid => Cosy.printStop arch env tid
  | .detach => Cosy.detach env

/-- The state after a sequence of operations, each started where the one before it returned or
threw. -/
def patchRun (s : State R D) : List PatchOperation → State R D
  | [] => s
  | operation :: rest => patchRun (endState (operation.run arch env) s) rest

end Operations

/-- The moves of the operations: everything but a write on the user's behalf. -/
def patching : List Kind := stepping ++ [.release, .close]

section Moves

variable {R D : Type} {arch : Architecture R D} {env : Environment R D} {T : Set Address}
  {s t : State R D}

theorem Environment.WritesNothing.leavesText (henv : env.WritesNothing) (T : Set Address) :
    env.LeavesText T where
  calm tick target _ :=
    ⟨fun x _ => congrFun (henv.memory tick target) x, fun x _ => congrFun (henv.image tick target) x⟩
  exec tick target tid hexec := absurd hexec (henv.noExec tick target tid)

theorem PatchOperation.does_run (henv : env.LeavesText T) (operation : PatchOperation) :
    Does arch env T patching (operation.run arch env) := by
  cases operation with
  | create address specification temporary =>
      exact Within.bind ((does_createBreakpoint henv address specification temporary).mono
        (by decide)) fun _ => .pure _
  | enable id => exact Within.bind ((does_enableById henv id).mono (by decide)) fun _ => .pure _
  | disable id => exact Within.bind ((does_disableById henv id).mono (by decide)) fun _ => .pure _
  | remove id => exact (does_removeBreakpoint henv id).mono (by decide)
  | stepOver => exact (does_stepOverBreakpoint henv).mono (by decide)
  | printStop tid => exact (does_printStop henv tid).mono (by decide)
  | detach => exact (does_detach henv).mono (by decide)

theorem runs_patchRun (henv : env.LeavesText T) (operations : List PatchOperation) :
    ∀ s, Runs arch env T patching s (patchRun arch env s operations) := by
  induction operations with
  | nil => exact fun s => refl_of _ s
  | cons operation rest ih =>
      exact fun s => trans_of (Runs arch env T patching) (operation.does_run henv s) (ih _)

/-- Only the environment changes the image. -/
theorem Move.image {kind : Kind} (henv : env.WritesNothing) (hmove : Move arch env T kind s t) :
    t.target.image = s.target.image := by
  cases hmove with
  | enter => exact henv.image _ _
  | _ => rfl

theorem orderly_targets {events : List TargetEvent} {log : List Entry}
    (hexec : ∀ tid, TargetEvent.exec tid ∉ events) (hlog : Orderly arch T log) :
    Orderly arch T (events.map Entry.target ++ log) := by
  induction events with
  | nil => exact hlog
  | cons event events ih =>
      have hrest := ih fun tid hmem => hexec tid (List.mem_cons_of_mem _ hmem)
      cases event with
      | exec tid => exact absurd List.mem_cons_self (hexec tid)
      | _ => exact hrest

/-- With one-byte traps allowed everywhere, no move of the operations is out of order. -/
theorem Move.orderly (henv : env.WritesNothing) (hsize : arch.breakpointSize = 1) {kind : Kind}
    (hkind : kind ∈ patching) (hmove : Move arch env Set.univ kind s t)
    (hs : Orderly arch Set.univ s.log) : Orderly arch Set.univ t.log := by
  cases hmove with
  | enter => exact enter_log env s ▸ orderly_targets (henv.noExec _ _) hs
  | say _ hentry => exact (orderly_cons_quiet (Entry.isPlain_of_isSaid hentry).1 _).mpr hs
  | report _ hentry => exact (orderly_cons_quiet (Entry.isPlain_of_isReport hentry).1 _).mpr hs
  | stepping _ hentry => exact (orderly_cons_quiet (Entry.isPlain_of_isStepping hentry).1 _).mpr hs
  | arming => exact ⟨hs, by rw [hsize, Nat.mod_one], fun _ _ => trivial⟩
  | write => exact absurd hkind (by decide)
  | _ => exact hs

end Moves

variable {env : Environment UserRegs X86_64.DebugRegisters}
  {s : State UserRegs X86_64.DebugRegisters}

/-- Whether there is an enabled record at an address. -/
def Debugger.hasEnabled (d : Debugger) (address : Address) : Bool :=
  match d.breakpoints.find? address with
  | some r => r.enabled
  | none => false

theorem x86_64_trapBase (x : Address) : x86_64.trapBase x = x := by
  change blockOf 1 x = x
  have hnat := toNat_blockOf 1 x
  exact BitVec.eq_of_toNat_eq (by omega)

theorem x86_64_patchedByte (d : Debugger) (image : Memory) (x : Address) :
    patchedByte x86_64 d.breakpoints image x = if d.hasEnabled x then 0xcc#8 else image x := by
  rw [patchedByte, x86_64_trapBase, Debugger.hasEnabled]
  have htrap : x86_64.trapByte x = 0xcc#8 := by
    change [0xcc#8].getD (x.toNat % 1) 0 = 0xcc#8
    rw [Nat.mod_one]
    rfl
  cases d.breakpoints.find? x with
  | none => simp
  | some r => rw [htrap]

theorem patchRun_memory (henv : env.WritesNothing)
    (hempty : s.debugger.breakpoints = SortedMap.empty) (himage : s.target.image = s.target.memory)
    (hlog : s.log = []) (operations : List PatchOperation) :
    let t := patchRun x86_64 env s operations
    (∀ a, t.target.memory a = if t.debugger.hasEnabled a then 0xcc#8 else s.target.memory a) ∧
      (∀ a r, t.debugger.breakpoints.find? a = some r → r.enabled = true →
        r.saved = [s.target.memory a]) ∧
      ((∀ a, t.debugger.hasEnabled a = false) → t.target.memory = s.target.memory) := by
  intro t
  have hformed : WellFormed x86_64 s.debugger.breakpoints := hempty ▸ wellFormed_empty
  have hmoves := (runs_patchRun (henv.leavesText Set.univ) operations s hformed).1
  have hsound : Sound x86_64 Set.univ t := hmoves.sound (henv.leavesText _) hformed
    (sound_of_empty hempty (fun x _ => congrFun himage.symm x) hlog)
  have horderly : Orderly x86_64 Set.univ t.log :=
    hmoves.preserve (I := fun u => Orderly x86_64 Set.univ u.log)
      (fun kind hkind _ _ hmove => hmove.orderly henv rfl hkind) (hlog ▸ trivial)
  have hunchanged : t.target.image = s.target.memory :=
    hmoves.preserve (I := fun u => u.target.image = s.target.memory)
      (fun _ _ _ _ hmove hu => (hmove.image henv).trans hu) himage
  have hpatched := hsound.patched horderly
  have hmemory : ∀ a, t.target.memory a
      = if t.debugger.hasEnabled a then 0xcc#8 else s.target.memory a := by
    intro a
    rw [hpatched.memory (Set.mem_univ a), x86_64_patchedByte, hunchanged]
  refine ⟨hmemory, fun a r hr henabled => ?_, fun hnone => funext fun a => ?_⟩
  · rw [hpatched.saved a r hr henabled, hunchanged]
    change bytesAt s.target.memory a 1 = [s.target.memory a]
    simp [bytesAt]
  · rw [hmemory a, hnone a]
    rfl

/-- Two traps in one word, the first of which is removed again. -/
theorem patchRun_memory_nops :
    let s := (State.initial 1 (nopTarget 1)).withDebugger { Debugger.fresh 1 with selectedTid := 1 }
    let t := patchRun x86_64 (nopMachine fun _ => []) s
      [.create 0x1003 [] false, .create 0x1005 [] true, .remove 1]
    t.target.memory 0x1003 = 0x90#8 ∧ t.target.memory 0x1005 = 0xcc#8 := by
  intro s t
  have hquiet : (nopMachine fun _ => []).WritesNothing :=
    ⟨fun _ _ => rfl, fun _ _ => rfl, fun _ _ _ hmem => by cases hmem⟩
  have hmemory := (patchRun_memory hquiet (s := s) rfl rfl rfl
    [.create 0x1003 [] false, .create 0x1005 [] true, .remove 1]).1
  exact ⟨(hmemory 0x1003).trans (by decide +kernel), (hmemory 0x1005).trans (by decide +kernel)⟩

end Cosy
