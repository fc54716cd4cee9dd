import Cosy.Access

/-!
# The patched text

What the table of breakpoints, the log and the memory have to do with each other. `T` is a set of
addresses the traced program does not write, as a rule its text: breakpoints belong there. On `T`
the memory is the image of the program with the traps of the enabled records put in.
-/

namespace Cosy

open ByteMemory Effect

variable {R D : Type}

namespace Architecture

variable (arch : Architecture R D)

/-- The address a trap that covers `x` is at. -/
def trapBase (x : Address) : Address := blockOf arch.breakpointSize x

/-- The byte of the trap instruction that covers `x`. -/
def trapByte (x : Address) : Byte :=
  arch.breakpointInstruction.getD (x.toNat % arch.breakpointSize) 0

end Architecture

/-- A trap in memory, byte by byte and as a whole. -/
theorem bytesAt_trap {arch : Architecture R D} {memory : Memory} {key : Address}
    (haligned : key.toNat % arch.breakpointSize = 0)
    (htrap : ∀ x, arch.trapBase x = key → memory x = arch.trapByte x) :
    bytesAt memory key arch.breakpointSize = arch.breakpointInstruction := by
  apply List.ext_getElem (by rw [length_bytesAt, arch.length_breakpointInstruction])
  intro i hi hi'
  have hsize : i < arch.breakpointSize := by rwa [length_bytesAt] at hi
  have hbase : arch.trapBase (key + BitVec.ofNat 64 i) = key :=
    blockOf_add arch.breakpointSize_dvd haligned hsize
  rw [← List.getD_eq_getElem _ 0 hi, getD_bytesAt _ hsize, htrap _ hbase, Architecture.trapByte,
    mod_add_of_mod arch.breakpointSize_dvd haligned hsize, List.getD_eq_getElem _ 0 hi']

/-- Writing the bytes of one trap: they lie in one word, which is written at once. -/
theorem writeTrap_spec {arch : Architecture R D} {env : Environment R D} {A C : State R D → Prop}
    {T : Set Address} {m : Memory} (hwatch : Watching env A C T m) {key : Address}
    {bytes : List Byte} (haligned : key.toNat % arch.breakpointSize = 0)
    (hlength : bytes.length = arch.breakpointSize) :
    Triple A (writeBytes env key bytes)
      (fun _ t => ∃ s memory, A s ∧ t = s.withMemory memory ∧ (C s → ∀ x ∈ T, memory x =
        if arch.trapBase x = key then bytes.getD (x.toNat % arch.breakpointSize) 0 else m x))
      (fun _ t => A t) := by
  have hdvd := arch.breakpointSize_dvd
  have hle : arch.breakpointSize ≤ 8 := Nat.le_of_dvd (by decide) hdvd
  have hne : bytes ≠ [] := by
    intro hnil
    have hpos := arch.breakpointSize_pos
    rw [← hlength, hnil] at hpos
    exact absurd hpos (by simp)
  have hword : ∀ i < bytes.length, aligned (key + BitVec.ofNat 64 i) = aligned key :=
    fun i hi => aligned_eq_of_blockOf hdvd (blockOf_add hdvd haligned (hlength ▸ hi))
  refine (writeBytes_spec hwatch True hne (by omega) hword).conseq
    (fun _ hs => ⟨hs, fun _ => trivial⟩) ?_ (fun _ _ hs => hs)
  rintro _ t ⟨u, w, hu, rfl, hput⟩
  refine ⟨u, _, hu, rfl, fun hC x hx => ?_⟩
  rw [(hput hC).2 hx, store_block m hdvd haligned hlength]
  rfl

/-! ### The log -/

/-- Whether the log leaves a trap at `key`, inserted or about to be. With the address space its traps
are gone, whatever the table of breakpoints says. -/
def armed (key : Address) : List Entry → Bool
  | [] => false
  | .arming address :: rest => address = key || armed key rest
  | .disarmed address :: rest => address ≠ key && armed key rest
  | .target (.exec _) :: _ => false
  | _ :: rest => armed key rest

/-- A log in which nothing but the debugger's own patches touches a patched byte: traps are inserted
at addresses that are multiples of their size and belong to `T`, `set memory` writes elsewhere, and
no program replaces its address space while a trap is in it. -/
def Orderly (arch : Architecture R D) (T : Set Address) : List Entry → Prop
  | [] => True
  | .arming address :: rest =>
      Orderly arch T rest ∧ address.toNat % arch.breakpointSize = 0 ∧
        ∀ x, arch.trapBase x = address → x ∈ T
  | .userWrote address :: rest => Orderly arch T rest ∧ ∀ x ∈ T, 8 ≤ (x - address).toNat
  | .target (.exec _) :: rest => Orderly arch T rest ∧ ∀ key, armed key rest = false
  | _ :: rest => Orderly arch T rest

/-- An entry that neither `armed` nor `Orderly` looks at. -/
def Entry.isQuiet : Entry → Bool
  | .arming _ | .disarmed _ | .userWrote _ | .target (.exec _) => false
  | _ => true

theorem armed_cons_quiet {entry : Entry} (hquiet : entry.isQuiet = true) (key : Address)
    (log : List Entry) : armed key (entry :: log) = armed key log := by
  cases entry with
  | target event => cases event <;> first | rfl | cases hquiet
  | _ => first | rfl | cases hquiet

theorem orderly_cons_quiet {arch : Architecture R D} {T : Set Address} {entry : Entry}
    (hquiet : entry.isQuiet = true) (log : List Entry) :
    Orderly arch T (entry :: log) ↔ Orderly arch T log := by
  cases entry with
  | target event => cases event <;> first | rfl | cases hquiet
  | _ => first | rfl | cases hquiet

theorem Orderly.of_cons {arch : Architecture R D} {T : Set Address} {entry : Entry}
    {log : List Entry} (horderly : Orderly arch T (entry :: log)) : Orderly arch T log := by
  cases entry with
  | target event => cases event <;> first | exact horderly | exact horderly.1
  | _ => first | exact horderly | exact horderly.1

theorem Orderly.of_append {arch : Architecture R D} {T : Set Address} {new log : List Entry}
    (horderly : Orderly arch T (new ++ log)) : Orderly arch T log := by
  induction new with
  | nil => exact horderly
  | cons entry new ih => exact ih horderly.of_cons

/-- The traced process inserts no trap, it only loses them. -/
theorem armed_of_target {key : Address} {events : List TargetEvent} {log : List Entry}
    (harmed : armed key (events.map Entry.target ++ log) = true) : armed key log = true := by
  induction events with
  | nil => exact harmed
  | cons event events ih =>
      cases event with
      | exec tid => cases harmed
      | _ => exact ih harmed

/-- In an orderly log it does not lose any. -/
theorem Orderly.armed_target {arch : Architecture R D} {T : Set Address} {key : Address}
    {events : List TargetEvent} {log : List Entry}
    (horderly : Orderly arch T (events.map Entry.target ++ log)) :
    armed key (events.map Entry.target ++ log) = armed key log := by
  induction events with
  | nil => rfl
  | cons event events ih =>
      have hrest := ih horderly.of_cons
      cases event with
      | exec tid =>
          rw [← hrest]
          exact (horderly.2 key).symm
      | _ => exact hrest

/-- A trap that the log leaves at `key` was inserted at a multiple of its size, in `T`. -/
theorem Orderly.of_armed {arch : Architecture R D} {T : Set Address} {key : Address}
    {log : List Entry} (horderly : Orderly arch T log) (harmed : armed key log = true) :
    key.toNat % arch.breakpointSize = 0 ∧ ∀ x, arch.trapBase x = key → x ∈ T := by
  induction log with
  | nil => cases harmed
  | cons entry log ih =>
      cases entry with
      | arming address =>
          by_cases heq : address = key
          · exact heq ▸ horderly.2
          · exact ih horderly.1 (by simpa [armed, heq] using harmed)
      | disarmed address =>
          have hrest : address ≠ key ∧ armed key log = true := by simpa [armed] using harmed
          exact ih horderly hrest.2
      | target event =>
          have hmap : armed key ([event].map Entry.target ++ log) = true := harmed
          exact ih horderly.of_cons (armed_of_target hmap)
      | _ => exact ih horderly.of_cons harmed

/-- No program replaces its address space while a trap is in it. -/
theorem Orderly.no_exec {arch : Architecture R D} {T : Set Address} {key : Address}
    {events : List TargetEvent} {log : List Entry} (harmed : armed key log = true)
    (horderly : Orderly arch T (events.map Entry.target ++ log)) (tid : Tid) :
    TargetEvent.exec tid ∉ events := by
  induction events with
  | nil => exact List.not_mem_nil
  | cons event events ih =>
      intro hmem
      rcases List.mem_cons.mp hmem with rfl | hmem
      · have hnone : armed key (events.map Entry.target ++ log) = false := horderly.2 key
        rw [horderly.of_cons.armed_target, harmed] at hnone
        cases hnone
      · exact ih horderly.of_cons hmem

/-! ### The environment and the text -/

/-- The environment writes the bytes of `T` only by replacing the address space, which puts a fresh
image there. -/
structure Environment.LeavesText (env : Environment R D) (T : Set Address) : Prop where
  calm : ∀ tick target, (∀ tid, TargetEvent.exec tid ∉ (env.interfere tick target).1) →
    Set.EqOn (env.interfere tick target).2.memory target.memory T ∧
      Set.EqOn (env.interfere tick target).2.image target.image T
  exec : ∀ tick target tid, TargetEvent.exec tid ∈ (env.interfere tick target).1 →
    Set.EqOn (env.interfere tick target).2.memory (env.interfere tick target).2.image T

/-- With no text to leave alone, any environment does. -/
theorem Environment.leavesText_empty (env : Environment R D) : env.LeavesText ∅ :=
  ⟨fun _ _ _ => ⟨Set.eqOn_empty _ _, Set.eqOn_empty _ _⟩, fun _ _ _ _ => Set.eqOn_empty _ _⟩

section Enter

variable {arch : Architecture R D} {env : Environment R D} {T : Set Address} {s : State R D}

theorem orderly_of_enter (horderly : Orderly arch T (env.enter s).log) : Orderly arch T s.log :=
  Orderly.of_append (enter_log env s ▸ horderly)

theorem armed_of_enter {key : Address} (harmed : armed key (env.enter s).log = true) :
    armed key s.log = true :=
  armed_of_target (enter_log env s ▸ harmed)

theorem armed_enter (horderly : Orderly arch T (env.enter s).log) (key : Address) :
    armed key (env.enter s).log = armed key s.log := by
  rw [enter_log] at horderly ⊢
  exact horderly.armed_target

/-- While a trap is in place the text and its image stay as they are. -/
theorem eqOn_enter (henv : env.LeavesText T) {key : Address} (harmed : armed key s.log = true)
    (horderly : Orderly arch T (env.enter s).log) :
    Set.EqOn (env.enter s).target.memory s.target.memory T ∧
      Set.EqOn (env.enter s).target.image s.target.image T :=
  henv.calm _ _ fun tid => Orderly.no_exec harmed (enter_log env s ▸ horderly) tid

end Enter

/-! ### The table and the memory -/

/-- The table of breakpoints is well formed. -/
def WellFormed (arch : Architecture R D) (breakpoints : SortedMap Address Breakpoint) : Prop :=
  ∀ key r, breakpoints.find? key = some r →
    r.address = key ∧ r.pending = false ∧
      (r.enabled = true → r.saved.length = arch.breakpointSize)

/-- The byte at `x` once the traps of the enabled records are put into the image. -/
def patchedByte (arch : Architecture R D) (breakpoints : SortedMap Address Breakpoint)
    (image : Memory) (x : Address) : Byte :=
  match breakpoints.find? (arch.trapBase x) with
  | some r => if r.enabled then arch.trapByte x else image x
  | none => image x

structure Patched (arch : Architecture R D) (T : Set Address) (s : State R D) : Prop where
  armed : ∀ key r, s.debugger.breakpoints.find? key = some r → r.enabled = true →
    armed key s.log = true
  saved : ∀ key r, s.debugger.breakpoints.find? key = some r → r.enabled = true →
    r.saved = bytesAt s.target.image key arch.breakpointSize
  memory : Set.EqOn s.target.memory (patchedByte arch s.debugger.breakpoints s.target.image) T

end Cosy
