import Cosy.Continuing

/-!
# Activations

Calls and returns count how deep a program is in the activations of its functions. Which instruction
is a call or a return is all there is to know about them. At the end there is some code that calls,
with the frame pointers where the convention puts them.
-/

namespace Cosy

open ByteMemory Effect

variable {R D : Type}

/-- What an instruction does to the activations. -/
inductive Flow where
  | call
  | ret
  | within
deriving DecidableEq

def Flow.change : Flow → Int
  | .call => 1
  | .ret => -1
  | .within => 0

/-- The calls that have not returned after so many instructions. The activation at the start has
depth 0, its caller -1. -/
def Program.depth (program : Program R) (flow : R → Memory → Flow) (regs : R) (memory : Memory) :
    Nat → Int
  | 0 => 0
  | n + 1 => program.depth flow regs memory n +
      (flow (program.after regs memory n).1 (program.after regs memory n).2).change

/-- After `n` instructions the program is in the activation of the start, for `k = 0`, or in the
`k`-th of its callers. Another activation may have the same depth later on. -/
def Program.InCaller (program : Program R) (flow : R → Memory → Flow) (regs : R) (memory : Memory)
    (k n : Nat) : Prop :=
  program.depth flow regs memory n = -k ∧ ∀ m ≤ n, -k ≤ program.depth flow regs memory m

/-- The activation of the start returns with the `n`-th instruction. -/
def Program.ReturnsAt (program : Program R) (flow : R → Memory → Flow) (regs : R) (memory : Memory)
    (n : Nat) : Prop :=
  program.depth flow regs memory n = -1 ∧ ∀ m < n, 0 ≤ program.depth flow regs memory m

section Depth

variable {program : Program R} {flow : R → Memory → Flow} {regs : R} {memory : Memory} {n : Nat}

instance (k : Nat) : Decidable (program.InCaller flow regs memory k n) :=
  inferInstanceAs (Decidable (_ ∧ ∀ m ≤ n, _))

instance : Decidable (program.ReturnsAt flow regs memory n) :=
  inferInstanceAs (Decidable (_ ∧ ∀ m < n, _))

theorem Program.ReturnsAt.pos (hreturns : program.ReturnsAt flow regs memory n) : 0 < n := by
  rcases Nat.eq_zero_or_pos n with rfl | hpos
  · cases hreturns.1
  · exact hpos

/-- A program that does nothing any more. -/
theorem Program.after_of_fixed {k : Nat}
    (hfixed : program.after regs memory (k + 1) = program.after regs memory k) (hle : k ≤ n) :
    program.after regs memory n = program.after regs memory k := by
  induction n, hle using Nat.le_induction with
  | base => rfl
  | succ n hle ih =>
      calc program.after regs memory (n + 1)
          = program.step (program.after regs memory n).1 (program.after regs memory n).2 := rfl
        _ = program.step (program.after regs memory k).1 (program.after regs memory k).2 := by
            rw [ih]
        _ = program.after regs memory k := hfixed

/-- What is so until then is always so. -/
theorem Program.after_forall {k : Nat} {p : R × Memory → Prop}
    (hfixed : program.after regs memory (k + 1) = program.after regs memory k)
    (hfew : ∀ n < k + 1, p (program.after regs memory n)) (n : Nat) :
    p (program.after regs memory n) := by
  by_cases hn : n < k + 1
  · exact hfew n hn
  · rw [Program.after_of_fixed hfixed (by omega)]
    exact hfew k k.lt_succ_self

end Depth

/-- The thread is stopped there, `n` instructions after the state `s`. -/
structure StopsAt (program : Program R) (regs : R) (memory : Memory) (tid : Tid) (n : Nat)
    (s t : State R D) : Prop where
  executed : t.executions.length = s.executions.length + n
  thread : ∃ task, t.target.tasks.find? tid = some task ∧ task.stopped = true ∧
    task.regs = (program.after regs memory n).1

theorem StopsAt.unique {program : Program R} {regs : R} {memory : Memory} {tid : Tid} {n n' : Nat}
    {s t : State R D} (ht : StopsAt program regs memory tid n s t)
    (ht' : StopsAt program regs memory tid n' s t) : n = n' := by
  have hcount := ht.executed.symm.trans ht'.executed
  omega

/-! ### Code with frame pointers -/

/-- The instructions of the convention, and two that leave the stack alone. -/
inductive FrameInstruction where
  | call (target : Address)
  | pushFrame
  | setFrame
  | leave
  | ret
  | jump (target : Address)
  | nop
deriving DecidableEq

/-- A call pushes the address behind it. The prologue pushes the frame pointer of the caller and sets
its own, the epilogue restores that of the caller. -/
def FrameInstruction.execute (regs : UserRegs) (memory : Memory) :
    FrameInstruction → UserRegs × Memory
  | .call target =>
      ({ regs with rsp := regs.rsp - 8, rip := target },
        setWord memory (regs.rsp - 8) (regs.rip + 5))
  | .pushFrame =>
      ({ regs with rsp := regs.rsp - 8, rip := regs.rip + 1 },
        setWord memory (regs.rsp - 8) regs.rbp)
  | .setFrame => ({ regs with rbp := regs.rsp, rip := regs.rip + 3 }, memory)
  | .leave =>
      ({ regs with rsp := regs.rbp + 8, rbp := word memory regs.rbp, rip := regs.rip + 1 }, memory)
  | .ret => ({ regs with rip := word memory regs.rsp, rsp := regs.rsp + 8 }, memory)
  | .jump target => ({ regs with rip := target }, memory)
  | .nop => ({ regs with rip := regs.rip + 1 }, memory)

def FrameInstruction.flow : FrameInstruction → Flow
  | .call _ => .call
  | .ret => .ret
  | _ => .within

/-- Where nothing is listed, the code does nothing. -/
abbrev FrameCode : Type := List (Address × FrameInstruction)

def FrameCode.instruction (code : FrameCode) (address : Address) : FrameInstruction :=
  ((code.find? fun entry => entry.1 = address).map Prod.snd).getD .nop

def FrameCode.program (code : FrameCode) : Program UserRegs where
  step regs memory := (code.instruction regs.rip).execute regs memory

def FrameCode.flow (code : FrameCode) (regs : UserRegs) (_ : Memory) : Flow :=
  (code.instruction regs.rip).flow

/-- Every function begins with the prologue, and returns after the epilogue only. -/
structure FrameCode.FollowsConvention (code : FrameCode) : Prop where
  prologue : ∀ address target, code.instruction address = .call target →
    code.instruction target = .pushFrame ∧ code.instruction (target + 1) = .setFrame
  epilogue : ∀ address, code.instruction (address + 1) = .ret → code.instruction address = .leave

theorem FrameCode.mem_of_instruction {code : FrameCode} {address : Address}
    {instruction : FrameInstruction} (hinstruction : code.instruction address = instruction)
    (hlisted : instruction ≠ .nop) : (address, instruction) ∈ code := by
  subst hinstruction
  unfold FrameCode.instruction at hlisted ⊢
  cases hfind : code.find? fun entry => entry.1 = address with
  | none =>
      rw [hfind] at hlisted
      exact absurd rfl hlisted
  | some entry =>
      have haddress : entry.1 = address := by simpa using List.find?_some hfind
      exact haddress ▸ List.mem_of_find?_eq_some hfind

/-- Whether the listed instructions follow it. -/
def FrameCode.conventional (code : FrameCode) : Bool :=
  code.all fun entry =>
    match entry.2 with
    | .call target =>
        code.instruction target = .pushFrame && code.instruction (target + 1) = .setFrame
    | .ret => code.instruction (entry.1 - 1) = .leave
    | _ => true

theorem FrameCode.followsConvention_of_conventional {code : FrameCode}
    (hcode : code.conventional = true) : code.FollowsConvention := by
  have hall := List.all_eq_true.mp hcode
  refine ⟨fun address target hcall => ?_, fun address hret => ?_⟩
  · have hlisted := hall _ (FrameCode.mem_of_instruction hcall (by simp))
    simpa using hlisted
  · have hlisted := hall _ (FrameCode.mem_of_instruction hret (by simp))
    have hbefore : address + 1 - 1 = address := by simp
    simpa [hbefore] using hlisted

section Ordinary

variable {code : FrameCode} {regs : UserRegs} {memory memory' : Memory} {text : Set Address}

/-- The stack of an instruction: the two words around the stack pointer, and the one at the frame
pointer. -/
def UserRegs.stack (regs : UserRegs) : Set Address :=
  {x | (x - (regs.rsp - 8)).toNat < 16 ∨ (x - regs.rbp).toNat < 8}

theorem FrameInstruction.execute_congr (instruction : FrameInstruction)
    (hstack : ∀ x ∈ regs.stack, memory' x = memory x) :
    (instruction.execute regs memory').1 = (instruction.execute regs memory).1 := by
  have hframe : word memory' regs.rbp = word memory regs.rbp := word_congr fun i hi =>
    hstack _ (Or.inr (by bv_omega))
  have htop : word memory' regs.rsp = word memory regs.rsp := word_congr fun i hi =>
    hstack _ (Or.inl (by bv_omega))
  cases instruction <;> simp [FrameInstruction.execute, hframe, htop]

/-- Outside the stack an instruction leaves every byte, and within it writes the same. -/
theorem FrameInstruction.execute_memory (instruction : FrameInstruction) {x : Address}
    (hx : memory' x = memory x) :
    (instruction.execute regs memory').2 x = (instruction.execute regs memory).2 x := by
  cases instruction <;> simp [FrameInstruction.execute, setWord, hx]

theorem FrameInstruction.execute_outside (instruction : FrameInstruction) {x : Address}
    (hx : x ∉ regs.stack) : (instruction.execute regs memory).2 x = memory x := by
  have hfar : ¬ (x - (regs.rsp - 8)).toNat < 8 := fun hnear => hx (Or.inl (by omega))
  cases instruction <;> simp only [FrameInstruction.execute, setWord, if_neg hfar]

/-- Code whose stack stays away from its text neither reads nor writes its text. -/
theorem FrameCode.ordinary {breakpoints : SortedMap Address Breakpoint}
    (hstack : ∀ n, ∀ x ∈ text, x ∉ (code.program.after regs memory n).1.stack)
    (hquiet : ∀ n, x86_64.trapAt (code.program.after regs memory n).2
      (code.program.after regs memory n).1.rip = false)
    (hkeys : ∀ key r, breakpoints.find? key = some r → key ∈ text) :
    code.program.Ordinary x86_64 regs memory breakpoints text
      (fun n => {(code.program.after regs memory n).1.rip}) where
  reads n memory' hsame := by
    refine ⟨FrameInstruction.execute_congr _ fun x hx => hsame x (Or.inl fun htext => ?_), ?_⟩
    · exact hstack n x htext hx
    · exact fun x hx => FrameInstruction.execute_memory _ (hsame x (Or.inl hx))
  writes n memory' _ x hx := FrameInstruction.execute_outside _ (hstack n x hx)
  quiet := hquiet
  inText key r hr x hin := by
    obtain rfl := eq_of_sub_lt_one hin
    exact hkeys x r hr
  starts key r hr n x hin hfetched := (eq_of_sub_lt_one hin).symm.trans hfetched

end Ordinary

theorem overlaid_empty (arch : Architecture R D) (memory : Memory) :
    Overlaid arch SortedMap.empty memory memory where
  saved _ _ hr _ := by cases hr
  trap _ _ hr _ := by cases hr
  rest _ _ := rfl

/-- A function at `0x2000` that calls the one at `0x3000`, and is called itself at `0x1000`. -/
def callingCode : FrameCode :=
  [(0x1000, .call 0x2000), (0x1005, .jump 0x1005),
    (0x2000, .pushFrame), (0x2001, .setFrame), (0x2004, .call 0x3000), (0x2009, .leave),
    (0x200a, .ret),
    (0x3000, .pushFrame), (0x3001, .setFrame), (0x3005, .leave), (0x3006, .ret)]

/-- Its only thread executes eight instructions in a wait. -/
def calling : Machine UserRegs X86_64.DebugRegisters where
  program := callingCode.program
  schedule _ := List.replicate 8 (.run 1)
  fails _ := false

theorem calling_runsOnly (shown : ModuleManager → Prop) : calling.RunsOnly 1 shown :=
  ⟨fun _ _ hmem => Or.inl (List.eq_of_mem_replicate hmem), fun _ => List.mem_cons_self, fun _ => rfl⟩

/-- The registers at the call, with an empty stack. -/
def callingRegs : UserRegs := { UserRegs.startingAt 0x1000 with rsp := 0x8000, rbp := 0x8000 }

def callingTarget : Target UserRegs X86_64.DebugRegisters :=
  { nopTarget 1 with
    tasks := SortedMap.empty.insert 1 { stoppedTask 0x1000 with regs := callingRegs } }

/-- The registers of the only thread. -/
def State.onlyRegs (s : State UserRegs X86_64.DebugRegisters) : UserRegs :=
  ((s.target.tasks.find? 1).map Task.regs).getD callingRegs

/-- What a state has to pass for its only thread to stand there. -/
def standsStopped (machine : Machine UserRegs X86_64.DebugRegisters)
    (s : State UserRegs X86_64.DebugRegisters) : Bool :=
  s.debugger.alive && decide (s.debugger.selectedTid = 1) &&
    decide (s.debugger.threads.entries = [(1, ⟨1, true, sigtrap⟩)]) &&
    s.debugger.pendingBreakpoints.isEmpty &&
    (s.debugger.breakpoints.entries.all fun entry => !entry.2.enabled ||
      decide (entry.2.saved = [0x90#8]) && decide (s.target.memory entry.1 = 0xcc#8)) &&
    (s.target.tasks.find? 1).any Task.stopped &&
    decide (s.target.tasks.entries.map Prod.fst = [1]) && s.target.ready.isEmpty &&
    (mapsAfter s.target.maps (machine.schedule s.tick)).isSome

theorem standsAt_of_standsStopped {machine : Machine UserRegs X86_64.DebugRegisters}
    {s : State UserRegs X86_64.DebugRegisters} (hs : standsStopped machine s = true) :
    StandsAt x86_64 machine 1 s.debugger.breakpoints (s.onlyRegs, s.originalMemory) s := by
  simp only [standsStopped, Bool.and_eq_true, decide_eq_true_eq] at hs
  obtain ⟨⟨⟨⟨hs, htask⟩, htasks⟩, hready⟩, hmaps⟩ := hs
  obtain ⟨⟨⟨⟨halive, hselected⟩, hthreads⟩, hpending⟩, hentries⟩ := hs
  obtain ⟨task, hfind, hstopped⟩ := (Option.any_eq_true _ _).mp htask
  refine ⟨⟨task, SortedMap.eq_insert_of_keys htasks hfind, ?_, hstopped⟩, List.isEmpty_iff.mp hready,
    hmaps, overlaid_originalMemory fun key r hr henabled => ?_, halive, hselected, ⟨sigtrap, ?_⟩, rfl,
    List.isEmpty_iff.mp hpending⟩
  · rw [State.onlyRegs, hfind]
    rfl
  · have hentry := List.all_eq_true.mp hentries (key, r) (SortedMap.mem_entries_iff.mpr hr)
    simpa [henabled] using hentry
  · exact SortedMap.ext hthreads

end Cosy
