import Cosy.Common

/-!
# Architectures

The `Architecture` interface and its two implementations. An architecture is a record of pure
functions on a register file `R` and on the hardware debug state `D` of a thread; the `ptrace` calls
that fetch and store those are made by the debugger (`Cosy.Execution`, `Cosy.Watchpoints`).
-/

namespace Cosy

inductive WatchAccess where
  | read
  | write
  | access
deriving DecidableEq

/-- What programming a watchpoint does to a thread: one request that reads its debug state, and the
requests that write it, in order, each named as the exception it throws names it. -/
structure WatchPlan (D : Type) where
  readOperation : String
  writes : D → List (String × (D → D))

structure Architecture (R D : Type) where
  name : Text
  breakpointSize : Nat
  breakpointInstruction : List Byte
  /-- What a failing register access is reported as. -/
  getRegsOperation : String
  setRegsOperation : String
  pc : R → Address
  setPc : R → Address → R
  framePointer : R → Address
  registers : R → List (Text × Address)
  registerValue : R → Text → Option Address
  /-- The register of a DWARF number; the registers are read only if there is one. -/
  dwarfRegister : Nat → Option (R → Option Address)
  setRegisterValue : R → Text → Address → Option R
  /-- The plan for a slot, or the text of the exception. -/
  configureWatchpoint : Nat → Address → WatchAccess → Nat → Except String (WatchPlan D)
  clearWatchpoint : Nat → Option (WatchPlan D)
  breakpointSize_pos : 0 < breakpointSize
  /-- A trap on a multiple of its size lies within one eight-byte word. -/
  breakpointSize_dvd : breakpointSize ∣ 8
  length_breakpointInstruction : breakpointInstruction.length = breakpointSize
  pc_setPc : ∀ regs value, pc (setPc regs value) = value

namespace Architecture

variable {R D : Type} (arch : Architecture R D)

/-- Whether the program counter is left behind the trap instruction that stopped a thread. -/
def stopsAfterTrap : Bool := arch.name = "x86-64".toList

/-- Where `print_stop` looks for the breakpoint that stopped a thread at `pc`. -/
def candidate (pc : Address) : Address :=
  if arch.stopsAfterTrap then pc - BitVec.ofNat 64 arch.breakpointSize else pc

/-- Where the processor leaves the program counter after executing the trap at `address`. -/
def pcAfterTrap (address : Address) : Address :=
  if arch.stopsAfterTrap then address + BitVec.ofNat 64 arch.breakpointSize else address

@[simp]
theorem candidate_pcAfterTrap (address : Address) :
    arch.candidate (arch.pcAfterTrap address) = address := by
  unfold candidate pcAfterTrap
  cases arch.stopsAfterTrap
  · rfl
  · simp

end Architecture

/-! ### x86-64 -/

/-- `user_regs_struct`. -/
structure UserRegs where
  r15 : Address
  r14 : Address
  r13 : Address
  r12 : Address
  rbp : Address
  rbx : Address
  r11 : Address
  r10 : Address
  r9 : Address
  r8 : Address
  rax : Address
  rcx : Address
  rdx : Address
  rsi : Address
  rdi : Address
  origRax : Address
  rip : Address
  cs : Address
  eflags : Address
  rsp : Address
  ss : Address
  fsBase : Address
  gsBase : Address
  ds : Address
  es : Address
  fs : Address
  gs : Address
deriving DecidableEq

namespace X86_64

/-- The eight registers of `u_debugreg`. -/
abbrev DebugRegisters : Type := Nat → Address

def findRegisterTable (r : UserRegs) : List (Text × Address) :=
  [("rax".toList, r.rax), ("rbx".toList, r.rbx), ("rcx".toList, r.rcx), ("rdx".toList, r.rdx),
    ("rsi".toList, r.rsi), ("rdi".toList, r.rdi), ("rbp".toList, r.rbp), ("rsp".toList, r.rsp),
    ("r8".toList, r.r8), ("r9".toList, r.r9), ("r10".toList, r.r10), ("r11".toList, r.r11),
    ("r12".toList, r.r12), ("r13".toList, r.r13), ("r14".toList, r.r14), ("r15".toList, r.r15),
    ("rip".toList, r.rip), ("eflags".toList, r.eflags), ("cs".toList, r.cs), ("ss".toList, r.ss),
    ("ds".toList, r.ds), ("es".toList, r.es), ("fs".toList, r.fs), ("gs".toList, r.gs),
    ("fs_base".toList, r.fsBase), ("gs_base".toList, r.gsBase), ("orig_rax".toList, r.origRax)]

def findRegister (r : UserRegs) (name : Text) : Option Address :=
  ((findRegisterTable r).find? fun entry => entry.1 = name).map Prod.snd

def registers (r : UserRegs) : List (Text × Address) :=
  [("rax".toList, r.rax), ("rbx".toList, r.rbx), ("rcx".toList, r.rcx), ("rdx".toList, r.rdx),
    ("rsi".toList, r.rsi), ("rdi".toList, r.rdi), ("rbp".toList, r.rbp), ("rsp".toList, r.rsp),
    ("r8".toList, r.r8), ("r9".toList, r.r9), ("r10".toList, r.r10), ("r11".toList, r.r11),
    ("r12".toList, r.r12), ("r13".toList, r.r13), ("r14".toList, r.r14), ("r15".toList, r.r15),
    ("rip".toList, r.rip), ("eflags".toList, r.eflags), ("cs".toList, r.cs), ("ss".toList, r.ss),
    ("fs_base".toList, r.fsBase), ("gs_base".toList, r.gsBase)]

def dwarfNames : List Text :=
  ["rax".toList, "rdx".toList, "rcx".toList, "rbx".toList, "rsi".toList, "rdi".toList,
    "rbp".toList, "rsp".toList, "r8".toList, "r9".toList, "r10".toList, "r11".toList,
    "r12".toList, "r13".toList, "r14".toList, "r15".toList, "rip".toList]

def dwarfRegister (number : Nat) : Option (UserRegs → Option Address) :=
  dwarfNames[number]?.map fun name r => findRegister r name

def setRegisterValue (r : UserRegs) (name : Text) (value : Address) : Option UserRegs :=
  if name = "rax".toList then some { r with rax := value }
  else if name = "rbx".toList then some { r with rbx := value }
  else if name = "rcx".toList then some { r with rcx := value }
  else if name = "rdx".toList then some { r with rdx := value }
  else if name = "rsi".toList then some { r with rsi := value }
  else if name = "rdi".toList then some { r with rdi := value }
  else if name = "rbp".toList then some { r with rbp := value }
  else if name = "rsp".toList then some { r with rsp := value }
  else if name = "r8".toList then some { r with r8 := value }
  else if name = "r9".toList then some { r with r9 := value }
  else if name = "r10".toList then some { r with r10 := value }
  else if name = "r11".toList then some { r with r11 := value }
  else if name = "r12".toList then some { r with r12 := value }
  else if name = "r13".toList then some { r with r13 := value }
  else if name = "r14".toList then some { r with r14 := value }
  else if name = "r15".toList then some { r with r15 := value }
  else if name = "rip".toList then some { r with rip := value }
  else if name = "eflags".toList then some { r with eflags := value }
  else none

def setDebugRegister (index : Nat) (value : Address) :
    String × (DebugRegisters → DebugRegisters) :=
  ("PTRACE_POKEUSER debug register", fun debug => Function.update debug index value)

/-- DR7 with the two fields of `slot` cleared. -/
def clearControl (control : Address) (slot : Nat) : Address :=
  (control &&& ~~~(0xf#64 <<< (16 + slot * 4))) &&& ~~~(3#64 <<< (slot * 2))

/-- The LEN code of a watchpoint of that many bytes. -/
def watchLength (bytes : Nat) : Option Nat :=
  match bytes with
  | 1 => some 0
  | 2 => some 1
  | 4 => some 3
  | 8 => some 2
  | _ => none

def configureWatchpoint (slot : Nat) (address : Address) (watchAccess : WatchAccess) (bytes : Nat) :
    Except String (WatchPlan DebugRegisters) :=
  if 4 ≤ slot then .error "x86-64 supports four hardware watchpoints"
  else
    match watchLength bytes with
    | none => .error "watchpoint size must be 1, 2, 4, or 8"
    | some length =>
        if address.toNat % bytes ≠ 0 then
          .error "x86-64 watchpoint address must be naturally aligned"
        else
          let accessBits : Nat := if watchAccess = .write then 1 else 3
          .ok
            { readOperation := "PTRACE_PEEKUSER debug register"
              writes := fun debug =>
                let control := clearControl (debug 7) slot ||| (1#64 <<< (slot * 2)) |||
                  (BitVec.ofNat 64 (accessBits ||| (length <<< 2)) <<< (16 + slot * 4))
                [setDebugRegister slot address, setDebugRegister 7 control] }

def clearWatchpoint (slot : Nat) : Option (WatchPlan DebugRegisters) :=
  if 4 ≤ slot then none
  else
    some
      { readOperation := "PTRACE_PEEKUSER debug register"
        writes := fun debug =>
          [setDebugRegister slot 0, setDebugRegister 7 (clearControl (debug 7) slot)] }

end X86_64

/-- `X86_64Architecture`. -/
def x86_64 : Architecture UserRegs X86_64.DebugRegisters where
  name := "x86-64".toList
  breakpointSize := 1
  breakpointInstruction := [0xcc#8]
  getRegsOperation := "PTRACE_GETREGS"
  setRegsOperation := "PTRACE_SETREGS"
  pc regs := regs.rip
  setPc regs value := { regs with rip := value }
  framePointer regs := regs.rbp
  registers := X86_64.registers
  registerValue := X86_64.findRegister
  dwarfRegister := X86_64.dwarfRegister
  setRegisterValue := X86_64.setRegisterValue
  configureWatchpoint := X86_64.configureWatchpoint
  clearWatchpoint := X86_64.clearWatchpoint
  breakpointSize_pos := Nat.one_pos
  breakpointSize_dvd := one_dvd 8
  length_breakpointInstruction := rfl
  pc_setPc _ _ := rfl

@[simp]
theorem x86_64_candidate (pc : Address) : x86_64.candidate pc = pc - 1#64 := rfl

@[simp]
theorem x86_64_pcAfterTrap (address : Address) : x86_64.pcAfterTrap address = address + 1#64 := rfl

/-! ### AArch64 -/

/-- `user_pt_regs`. -/
structure UserPtRegs where
  regs : Nat → Address
  sp : Address
  pc : Address
  pstate : Address

namespace AArch64

/-- `HardwareDebugState`: an address and a control word for each slot. -/
structure HardwareDebugState where
  info : BitVec 32
  registers : Nat → Address × BitVec 32

def registers (regs : UserPtRegs) : List (Text × Address) :=
  (List.range 31).map (fun index => ('x' :: (toString index).toList, regs.regs index)) ++
    [("sp".toList, regs.sp), ("pc".toList, regs.pc), ("pstate".toList, regs.pstate)]

/-- The number of an `x` register a name spells, if it is below 31. -/
def numbered (name : Text) : Option Nat :=
  match name with
  | 'x' :: digit :: rest =>
      match parseAddress (digit :: rest) with
      | some number => if number.toNat < 31 then some number.toNat else none
      | none => none
  | _ => none

def registerValue (regs : UserPtRegs) (name : Text) : Option Address :=
  if name = "sp".toList then some regs.sp
  else if name = "pc".toList then some regs.pc
  else if name = "fp".toList then some (regs.regs 29)
  else if name = "lr".toList then some (regs.regs 30)
  else (numbered name).map regs.regs

def dwarfRegister (number : Nat) : Option (UserPtRegs → Option Address) :=
  if number ≤ 30 then some fun regs => some (regs.regs number)
  else if number = 31 then some fun regs => some regs.sp
  else none

def setX (regs : UserPtRegs) (number : Nat) (value : Address) : UserPtRegs :=
  { regs with regs := Function.update regs.regs number value }

def setRegisterValue (regs : UserPtRegs) (name : Text) (value : Address) : Option UserPtRegs :=
  if name = "sp".toList then some { regs with sp := value }
  else if name = "pc".toList then some { regs with pc := value }
  else if name = "fp".toList then some (setX regs 29 value)
  else if name = "lr".toList then some (setX regs 30 value)
  else (numbered name).map fun number => setX regs number value

def setSlot (slot : Nat) (value : Address × BitVec 32) (state : HardwareDebugState) :
    HardwareDebugState :=
  { state with registers := Function.update state.registers slot value }

def configureWatchpoint (slot : Nat) (address : Address) (watchAccess : WatchAccess) (bytes : Nat) :
    Except String (WatchPlan HardwareDebugState) :=
  if 16 ≤ slot then .error "AArch64 has no free hardware watchpoint slot"
  else if bytes ≠ 1 && bytes ≠ 2 && bytes ≠ 4 && bytes ≠ 8 then
    .error "watchpoint size must be 1, 2, 4, or 8"
  else
    let mask : BitVec 32 := (1#32 <<< bytes) - 1#32
    let type : BitVec 32 :=
      match watchAccess with
      | .write => 2
      | .read => 1
      | .access => 3
    let control := 1#32 ||| (2#32 <<< 1) ||| (type <<< 3) ||| (mask <<< 5)
    .ok
      { readOperation := "PTRACE_GETREGSET hardware watchpoint"
        writes := fun state =>
          [("PTRACE_SETREGSET hardware watchpoint",
            fun _ => setSlot slot (address, control) state)] }

def clearWatchpoint (slot : Nat) : Option (WatchPlan HardwareDebugState) :=
  some
    { readOperation := "PTRACE_GETREGSET hardware watchpoint"
      writes := fun state =>
        if slot < 16 then
          [("PTRACE_SETREGSET hardware watchpoint", fun _ => setSlot slot (0, 0) state)]
        else [] }

end AArch64

/-- `AArch64Architecture`. -/
def aarch64 : Architecture UserPtRegs AArch64.HardwareDebugState where
  name := "AArch64".toList
  breakpointSize := 4
  breakpointInstruction := [0x00#8, 0x00#8, 0x20#8, 0xd4#8]
  getRegsOperation := "PTRACE_GETREGSET"
  setRegsOperation := "PTRACE_SETREGSET"
  pc regs := regs.pc
  setPc regs value := { regs with pc := value }
  framePointer regs := regs.regs 29
  registers := AArch64.registers
  registerValue := AArch64.registerValue
  dwarfRegister := AArch64.dwarfRegister
  setRegisterValue := AArch64.setRegisterValue
  configureWatchpoint := AArch64.configureWatchpoint
  clearWatchpoint := AArch64.clearWatchpoint
  breakpointSize_pos := by decide
  breakpointSize_dvd := by decide
  length_breakpointInstruction := rfl
  pc_setPc _ _ := rfl

@[simp]
theorem aarch64_candidate (pc : Address) : aarch64.candidate pc = pc := rfl

end Cosy
