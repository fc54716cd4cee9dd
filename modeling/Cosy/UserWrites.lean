import Cosy.Layering
import Mathlib.Data.List.Pairwise

/-!
# Writes by the user

`set memory` writes a word where the user says, and knows nothing of the traps: it may write over
one, and the byte that the record keeps is then not what the program has there. As long as it leaves
traps and the bytes under them alone, and no trap goes in over another one, the memory is what it
would be without breakpoints, with the traps over it.
-/

namespace Cosy

open ByteMemory Effect

variable {R D α : Type} {arch : Architecture R D} {env : Environment R D} {s t : State R D}
  {under : Memory}

inductive MemoryOperation where
  | patch (operation : PatchOperation)
  | setMemory (address value : Address)

/-- The state after an operation, and the memory that the program is to have: the operations on
breakpoints leave it alone, and `set memory` writes a word. -/
def MemoryOperation.step (arch : Architecture R D) (env : Environment R D)
    (current : State R D × Memory) : MemoryOperation → State R D × Memory
  | .patch operation => (endState (operation.run arch env) current.1, current.2)
  | .setMemory address value =>
      match writeUserWord env address value current.1 with
      | .ok _ t => (t, setWord current.2 address value)
      | .error _ t => (t, current.2)

def memoryRun (arch : Architecture R D) (env : Environment R D) (current : State R D × Memory) :
    List MemoryOperation → State R D × Memory
  | [] => current
  | operation :: rest => memoryRun arch env (operation.step arch env current) rest

/-- Where the word at `address` meets the trap of an enabled record, it has the byte of the trap,
which is also the byte under it. -/
def sparesTraps (arch : Architecture R D) (d : Debugger) (address value : Address) : Bool :=
  d.breakpoints.entries.all fun entry => !entry.2.enabled || (List.range 8).all fun i =>
    let position := (address + BitVec.ofNat 64 i - entry.1).toNat
    arch.breakpointSize ≤ position ||
      byteOf value i = arch.breakpointInstruction.getD position 0 &&
        byteOf value i = entry.2.saved.getD position 0

def MemoryOperation.spares (arch : Architecture R D) (s : State R D) : MemoryOperation → Bool
  | .patch _ => true
  | .setMemory address value => sparesTraps arch s.debugger address value

/-- Every `set memory` of the run leaves the traps and the bytes under them alone. -/
def sparingRun (arch : Architecture R D) (env : Environment R D) (current : State R D × Memory) :
    List MemoryOperation → Bool
  | [] => true
  | operation :: rest =>
      operation.spares arch current.1 && sparingRun arch env (operation.step arch env current) rest

/-- No trap was put in over another one. -/
def insertsApart (n : Nat) : List Entry → Bool
  | [] => true
  | .arming key :: older =>
      (inserted older).all (fun other => other = key || apart n key other) && insertsApart n older
  | _ :: older => insertsApart n older

/-! ### Traps apart from each other -/

theorem insertsApart_of_append {n : Nat} {newer older : List Entry}
    (hinserts : insertsApart n (newer ++ older) = true) : insertsApart n older = true := by
  induction newer with
  | nil => exact hinserts
  | cons entry newer ih =>
      refine ih ?_
      cases entry with
      | arming key => exact (Bool.and_eq_true _ _ ▸ hinserts).2
      | _ => exact hinserts

theorem pairwise_inserted {n : Nat} {log : List Entry} (hinserts : insertsApart n log = true) :
    (inserted log).Pairwise fun key other => key ≠ other → apart n key other = true := by
  induction log with
  | nil => exact .nil
  | cons entry older ih =>
      have holder : insertsApart n ([entry] ++ older) = true := hinserts
      have hpairwise := ih (insertsApart_of_append holder)
      cases entry with
      | arming key =>
          rw [insertsApart, Bool.and_eq_true, List.all_eq_true] at hinserts
          refine .cons (fun other hmem hne => ?_) hpairwise
          simpa [hne.symm] using hinserts.1 other hmem
      | disarmed key => exact hpairwise.sublist List.erase_sublist
      | _ => exact hpairwise

theorem apart_of_mem_inserted {n : Nat} {log : List Entry} (hinserts : insertsApart n log = true)
    {key other : Address} (hkey : key ∈ inserted log) (hother : other ∈ inserted log)
    (hne : key ≠ other) : apart n key other = true := by
  have hsymm : Std.Symm fun key other : Address => key ≠ other → apart n key other = true :=
    ⟨fun _ _ hapart hne => apart_comm.trans (hapart hne.symm)⟩
  exact List.Pairwise.forall_of_forall (fun _ _ hne => absurd rfl hne)
    (pairwise_inserted hinserts) hkey hother hne

theorem uncovered_of_pairwise {n : Nat} {key : Address} {keys : List Address}
    (hpairwise : keys.Pairwise fun key other => key ≠ other → apart n key other = true)
    (hmem : key ∈ keys) : uncovered n key keys = true := by
  induction keys with
  | nil => rfl
  | cons other older ih =>
      rw [List.pairwise_cons] at hpairwise
      rw [uncovered, Bool.or_eq_true, decide_eq_true_eq, Bool.and_eq_true]
      by_cases heq : other = key
      · exact Or.inl heq
      · have hmem : key ∈ older := (List.mem_cons.mp hmem).resolve_left (Ne.symm heq)
        exact Or.inr ⟨hpairwise.1 key hmem heq, ih hpairwise.2 hmem⟩

theorem ordering_insertsApart (arch : Architecture R D) :
    Ordering arch fun log => insertsApart arch.breakpointSize log = true where
  older hinserts := insertsApart_of_append hinserts
  lifts _ _ hinserts hmem := uncovered_of_pairwise (pairwise_inserted hinserts) hmem

/-- Different traps of one byte never overlap. -/
theorem insertsApart_one (log : List Entry) : insertsApart 1 log = true := by
  induction log with
  | nil => rfl
  | cons entry older ih =>
      cases entry with
      | arming key =>
          rw [insertsApart, ih, Bool.and_true, List.all_eq_true]
          intro other _
          by_cases heq : other = key
          · simp [heq]
          · have hapart : apart 1 key other = true := apart_one (Ne.symm heq)
            simp [hapart]
      | _ => exact ih

/-! ### Traps that stay in memory -/

/-- Every trap that was put in and not lifted is in memory. -/
def Intact (arch : Architecture R D) (s : State R D) : Prop :=
  ∀ key ∈ inserted s.log,
    bytesAt s.target.memory key arch.breakpointSize = arch.breakpointInstruction

theorem breakpointSize_le (arch : Architecture R D) : arch.breakpointSize ≤ 8 :=
  Nat.le_of_dvd (by decide) arch.breakpointSize_dvd

/-- A write that is apart from a trap leaves it in memory. -/
theorem bytesAt_store_trap (arch : Architecture R D) {key other : Address} {bytes : List Byte}
    {m : Memory} (hapart : apart arch.breakpointSize key other = true)
    (hlength : bytes.length = arch.breakpointSize)
    (hother : bytesAt m other arch.breakpointSize = arch.breakpointInstruction) :
    bytesAt (store m key bytes) other arch.breakpointSize = arch.breakpointInstruction := by
  have hle := breakpointSize_le arch
  rw [bytesAt_store_of_apart m hapart hlength (by omega), hother]

theorem Patching.intact (hst : Patching arch s t) (hformed : WellFormed arch s.debugger.breakpoints)
    (hlayered : Layered under s)
    (hinserts : insertsApart arch.breakpointSize t.log = true) (hs : Intact arch s) :
    Intact arch t := by
  have holder : insertsApart arch.breakpointSize s.log = true := by
    obtain ⟨newer, hnewer⟩ := hst.log_suffix
    exact insertsApart_of_append (hnewer ▸ hinserts)
  cases hst with
  | requested ht =>
      obtain ⟨events, hevents⟩ := ht.log
      intro key hkey
      rw [hevents, inserted_targets] at hkey
      rw [ht.memory]
      exact hs key hkey
  | @enabled key r hr hdisabled hmemory hdebugger hlog =>
      obtain ⟨events, hevents⟩ := hlog
      have hkey := hlayered.not_inserted hr hdisabled
      intro other hmem
      rw [hevents, inserted_targets, inserted] at hmem
      rw [hmemory]
      rcases List.mem_cons.mp hmem with rfl | hmem'
      · have hle := breakpointSize_le arch
        rw [← arch.length_breakpointInstruction]
        exact bytesAt_store _ _ _ (by rw [arch.length_breakpointInstruction]; omega)
      · have hne : key ≠ other := fun heq => hkey (heq ▸ hmem')
        have hinserted : inserted t.log = key :: inserted s.log := by
          rw [hevents, inserted_targets, inserted]
        have hapart : apart arch.breakpointSize key other = true :=
          apart_of_mem_inserted hinserts (hinserted ▸ List.mem_cons_self)
            (hinserted ▸ List.mem_cons_of_mem _ hmem') hne
        exact bytesAt_store_trap arch hapart arch.length_breakpointInstruction (hs other hmem')
  | abandoned hr hdisabled hmemory hdebugger hlog =>
      obtain ⟨events, hevents⟩ := hlog
      intro key hkey
      rw [hevents, inserted, inserted_targets, inserted, List.erase_cons_head] at hkey
      rw [hmemory]
      exact hs key hkey
  | @disabled key r hr henabled hmemory hdebugger hlog =>
      obtain ⟨events, original, hevents⟩ := hlog
      have holder' : inserted (.restored key r.saved original :: (events.map Entry.target ++ s.log))
          = inserted s.log := inserted_targets events s.log
      intro other hmem
      rw [hevents, inserted, holder', hlayered.nodup.mem_erase_iff] at hmem
      have hkey : key ∈ inserted s.log := (hlayered.enabled key).mpr ⟨r, hr, henabled⟩
      rw [hmemory]
      exact bytesAt_store_trap arch (apart_of_mem_inserted holder hkey hmem.2 hmem.1.symm)
        ((hformed key r hr).2.2 henabled) (hs other hmem.2)

theorem Unpatched.intact (hst : Unpatched s t) (hs : Intact arch s) : Intact arch t := by
  intro key hkey
  rw [hst.memory]
  exact hs key (hst.inserted ▸ hkey)

/-- The invariant of the runs: with no trap over another one, the enabled records are layers over
the memory that the program is to have, and their traps are in memory. -/
structure Written (arch : Architecture R D) (under : Memory) (s : State R D) : Prop where
  layeredWhile : LayeredWhile arch (fun log => insertsApart arch.breakpointSize log = true) under s
  intact : insertsApart arch.breakpointSize s.log = true → Intact arch s

theorem Written.patching (hs : Written arch under s)
    (hformed : WellFormed arch t.debugger.breakpoints) (hst : Patching arch s t) :
    Written arch under t := by
  refine ⟨hs.layeredWhile.patching (ordering_insertsApart arch) hformed hst, fun hinserts => ?_⟩
  have holder : insertsApart arch.breakpointSize s.log = true := by
    obtain ⟨newer, hnewer⟩ := hst.log_suffix
    exact insertsApart_of_append (hnewer ▸ hinserts)
  exact hst.intact hs.layeredWhile.formed (hs.layeredWhile.layered holder) hinserts
    (hs.intact holder)

theorem Written.unpatched (hs : Written arch under s) (hst : Unpatched s t)
    (hlayered : LayeredWhile arch (fun log => insertsApart arch.breakpointSize log = true) under t) :
    Written arch under t := by
  refine ⟨hlayered, fun hinserts => hst.intact (hs.intact ?_)⟩
  obtain ⟨newer, hnewer, -⟩ := hst.log
  exact insertsApart_of_append (hnewer ▸ hinserts)

theorem patchesWithin_written (henv : env.Atomic arch) :
    PatchesWithin arch env (Keeps (Written arch under)) := by
  have hlayered : PatchesWithin arch env (Keeps (LayeredWhile arch _ under)) :=
    patchesWithin_layered (ordering_insertsApart arch) henv
  have hnone := Environment.leavesText_empty env
  have hdisable : ∀ key, Within (Keeps (Written arch under)) (disable env key) := fun key s hs =>
    hs.patching (does_disable hnone key s hs.layeredWhile.formed).2
      (disable_patching henv hs.layeredWhile.formed key)
  refine ⟨fun hm s hs => ?_, fun key s hs => ?_, hdisable, ?_, fun key s hs => ?_⟩
  · obtain ⟨hmoves, -⟩ := hm s hs.layeredWhile.formed
    have hst : Unpatched s _ := hmoves.relate fun kind hkind _ _ hmove =>
      hmove.unpatched henv.still hkind
    exact hs.unpatched hst (hlayered.silent hm s hs.layeredWhile)
  · exact hs.patching (does_enable hnone key s hs.layeredWhile.formed).2
      (enable_patching henv hs.layeredWhile.formed key)
  · intro r s hfresh henabled hpending hs
    exact ⟨hlayered.insert r s hfresh henabled hpending hs.layeredWhile, hs.intact⟩
  · refine withinAt_dropBreakpoint hs.layeredWhile.formed (hdisable key s)
      (fun t hdisabled ht => ?_) hs
    exact ⟨ht.layeredWhile.erase (ordering_insertsApart arch) key hdisabled, ht.intact⟩

/-! ### Words written by the user -/

theorem writeUserWord_cases (henv : env.WritesNothing) (address value : Address) (s : State R D) :
    (∃ t, writeUserWord env address value s = .ok ⟨⟩ t ∧
      t.target.memory = setWord s.target.memory address value ∧ t.debugger = s.debugger ∧
      Appends (fun entry => entry.isUnpatched = true) s t) ∨
    ∃ halt, writeUserWord env address value s = .error halt (env.enter s) := by
  rcases ptrace_cases env "PTRACE_POKEDATA" s.debugger.selectedTid
      (fun _ target => (PUnit.unit, { target with memory := setWord target.memory address value }))
      s with ⟨task, -, -, -, hrun⟩ | ⟨-, hrun⟩
  · refine Or.inl ⟨_, bind_ok (m := pokeWord env address value) hrun, ?_, rfl, ?_⟩
    · exact congrArg (fun m => setWord m address value) (henv.memory s.tick s.target)
    · exact ⟨.userWrote address :: (env.interfere s.tick s.target).1.map Entry.target, rfl,
        by simp [Entry.isUnpatched]⟩
  · exact Or.inr ⟨_, bind_error (m := pokeWord env address value) hrun⟩

theorem byte_of_sparesTraps {address value x : Address} {key : Address} {r : Breakpoint}
    (hspares : sparesTraps arch s.debugger address value = true)
    (hr : s.debugger.breakpoints.find? key = some r) (henabled : r.enabled = true)
    (hx : (x - address).toNat < 8) (hkey : (x - key).toNat < arch.breakpointSize) :
    byteOf value (x - address).toNat = arch.breakpointInstruction.getD (x - key).toNat 0 ∧
      byteOf value (x - address).toNat = r.saved.getD (x - key).toNat 0 := by
  have hentry := List.all_eq_true.mp hspares _ (SortedMap.mem_entries_iff.mpr hr)
  rw [henabled, Bool.not_true, Bool.false_or, List.all_eq_true] at hentry
  have hbyte := hentry _ (List.mem_range.mpr hx)
  simp only [add_ofNat_sub_toNat, Bool.or_eq_true, Bool.and_eq_true, decide_eq_true_eq] at hbyte
  exact hbyte.resolve_left (by omega)

theorem Layered.setWord (hs : Layered under s) (hformed : WellFormed arch s.debugger.breakpoints)
    {address value : Address} (hspares : sparesTraps arch s.debugger address value = true) :
    unwind s.layers (setWord s.target.memory address value) = setWord under address value := by
  rw [← hs.unwound]
  refine unwind_setWord _ fun layer hlayer x hx hcovers => ?_
  obtain ⟨key, hkey, rfl⟩ := List.mem_map.mp hlayer
  obtain ⟨r, hr, henabled⟩ := (hs.enabled key).mp hkey
  rw [hs.covers_iff hformed hkey] at hcovers
  rw [Debugger.layer_of_find? hr]
  exact (byte_of_sparesTraps hspares hr henabled hx hcovers).2.symm

theorem Intact.setWord (hs : Intact arch s) (hlayered : Layered under s) {address value : Address}
    (hspares : sparesTraps arch s.debugger address value = true) {key : Address}
    (hkey : key ∈ inserted s.log) :
    bytesAt (setWord s.target.memory address value) key arch.breakpointSize
      = arch.breakpointInstruction := by
  obtain ⟨r, hr, henabled⟩ := (hlayered.enabled key).mp hkey
  have hle := breakpointSize_le arch
  rw [← hs key hkey]
  refine bytesAt_congr fun i hi => ?_
  have hi' : (key + BitVec.ofNat 64 i - key).toNat = i := add_sub_toNat key (by omega)
  unfold ByteMemory.setWord
  split
  · rename_i hx
    have htrap := (byte_of_sparesTraps hspares hr henabled hx (by rwa [hi'])).1
    rw [htrap, hi', ← hs key hkey, getD_bytesAt _ hi]
  · rfl

theorem Written.setWord (hs : Written arch under s) {address value : Address}
    (hspares : sparesTraps arch s.debugger address value = true)
    (hmemory : t.target.memory = ByteMemory.setWord s.target.memory address value)
    (hdebugger : t.debugger = s.debugger)
    (hlog : Appends (fun entry => entry.isUnpatched = true) s t) :
    Written arch (ByteMemory.setWord under address value) t := by
  obtain ⟨newer, hnewer, hunpatched⟩ := hlog
  have hinserted : inserted t.log = inserted s.log := by rw [hnewer, inserted_append hunpatched]
  have holder : insertsApart arch.breakpointSize t.log = true →
      insertsApart arch.breakpointSize s.log = true :=
    fun hinserts => insertsApart_of_append (hnewer ▸ hinserts)
  have hformed := hs.layeredWhile.formed
  refine ⟨⟨hdebugger ▸ hformed, fun hinserts => ?_⟩, fun hinserts key hkey => ?_⟩
  · have hlayered := hs.layeredWhile.layered (holder hinserts)
    have hlayers : t.layers = s.layers := by rw [State.layers, State.layers, hinserted, hdebugger]
    refine ⟨hinserted ▸ hlayered.nodup, fun key => ?_, ?_⟩
    · rw [hinserted, hdebugger]
      exact hlayered.enabled key
    · rw [hlayers, hmemory]
      exact hlayered.setWord hformed hspares
  · rw [hmemory]
    exact (hs.intact (holder hinserts)).setWord (hs.layeredWhile.layered (holder hinserts)) hspares
      (hinserted ▸ hkey)

/-! ### Runs -/

theorem MemoryOperation.step_written (henv : env.Atomic arch) (operation : MemoryOperation)
    {current : State R D × Memory} (hspares : operation.spares arch current.1 = true)
    (hs : Written arch current.2 current.1) :
    Written arch (operation.step arch env current).2 (operation.step arch env current).1 := by
  cases operation with
  | patch operation => exact (patchesWithin_written henv).run operation current.1 hs
  | setMemory address value =>
      unfold MemoryOperation.step
      rcases writeUserWord_cases henv.still address value current.1 with
        ⟨t, hrun, hmemory, hdebugger, hlog⟩ | ⟨halt, hrun⟩
      · simp only [hrun]
        exact hs.setWord hspares hmemory hdebugger hlog
      · simp only [hrun]
        have henter : Does arch env ∅ silent (modify env.enter) :=
          Within.modify fun u => runs_enter (by decide) u
        exact (patchesWithin_written henv).silent henter current.1 hs

theorem memoryRun_written (henv : env.Atomic arch) (operations : List MemoryOperation)
    {current : State R D × Memory} (hspares : sparingRun arch env current operations = true)
    (hs : Written arch current.2 current.1) :
    Written arch (memoryRun arch env current operations).2
      (memoryRun arch env current operations).1 := by
  induction operations generalizing current with
  | nil => exact hs
  | cons operation rest ih =>
      rw [sparingRun, Bool.and_eq_true] at hspares
      exact ih hspares.2 (operation.step_written henv hspares.1 hs)

/-- The traps of the enabled records are in memory, and without enabled records the memory is the
one from before with the words of the user in it. -/
theorem memoryRun_memory (henv : env.Atomic arch) (hempty : s.debugger.breakpoints = .empty)
    (hlog : s.log = []) (operations : List MemoryOperation)
    (hspares : sparingRun arch env (s, s.target.memory) operations = true) :
    let result := memoryRun arch env (s, s.target.memory) operations
    insertsApart arch.breakpointSize result.1.log = true →
      (∀ key, result.1.debugger.hasEnabled key = true →
        bytesAt result.1.target.memory key arch.breakpointSize = arch.breakpointInstruction) ∧
      ((∀ key, result.1.debugger.hasEnabled key = false) →
        result.1.target.memory = result.2) := by
  intro result hinserts
  have hstart : Written arch s.target.memory s := by
    refine ⟨layeredWhile_empty hempty hlog, fun _ key hkey => ?_⟩
    rw [hlog] at hkey
    cases hkey
  have hwritten := memoryRun_written henv operations hspares hstart
  have hlayered := hwritten.layeredWhile.layered hinserts
  refine ⟨fun key henabled => hwritten.intact hinserts key ?_, hlayered.memory⟩
  rw [hlayered.enabled]
  unfold Debugger.hasEnabled at henabled
  split at henabled
  · rename_i r hr
    exact ⟨r, hr, henabled⟩
  · cases henabled

/-! ### On x86-64 -/

def nopStart : State UserRegs X86_64.DebugRegisters :=
  (State.initial 1 (nopTarget 1)).withDebugger { Debugger.fresh 1 with selectedTid := 1 }

theorem nopMachine_atomic : (nopMachine fun _ => []).Atomic x86_64 :=
  ⟨⟨fun _ _ => rfl, fun _ _ => rfl, fun _ _ _ hmem => by cases hmem⟩, Or.inl rfl⟩

/-- A word next to a trap. -/
theorem memoryRun_memory_nops :
    let result := memoryRun x86_64 (nopMachine fun _ => []) (nopStart, nopText)
      [.patch (.create 0x1003 [] false), .setMemory 0x1004 0x5555555555555555, .patch (.remove 1)]
    result.1.target.memory 0x1004 = 0x55 ∧ result.1.target.memory = result.2 := by
  intro result
  have hmemory := (memoryRun_memory nopMachine_atomic (s := nopStart) rfl rfl
    [.patch (.create 0x1003 [] false), .setMemory 0x1004 0x5555555555555555, .patch (.remove 1)]
    (by decide +kernel) (insertsApart_one _)).2 (hasEnabled_of_entries (by decide +kernel))
  exact ⟨by decide +kernel, hmemory⟩

/-- A word over a trap takes the trap out of memory, and is lost when the breakpoint is deleted. -/
theorem word_over_trap_lost :
    let written := memoryRun x86_64 (nopMachine fun _ => []) (nopStart, nopText)
      [.patch (.create 0x1003 [] false), .setMemory 0x1000 0x5555555555555555]
    let result := memoryRun x86_64 (nopMachine fun _ => []) written [.patch (.remove 1)]
    (written.1.debugger.hasEnabled 0x1003 = true ∧ written.1.target.memory 0x1003 = 0x55) ∧
      result.1.debugger.breakpoints.entries = [] ∧
        result.1.target.memory 0x1003 = 0x90 ∧ result.2 0x1003 = 0x55 := by
  decide +kernel

end Cosy
