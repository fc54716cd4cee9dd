import Cosy.Expressions
import Cosy.Layering

/-!
# The frame base

A variable in the frame is found at an offset from the canonical frame address, the stack pointer
before the call. `evaluate_location` puts that address sixteen bytes above the frame pointer. Where it
really is, the prologue of the function decides.
-/

namespace Cosy

open ByteMemory Effect

variable {R D : Type} {arch : Architecture R D} {env : Environment R D} {s : State R D}
  {regs : R} {tid : Tid}

/-- How a function begins that keeps a frame pointer. -/
structure Prologue (arch : Architecture R D) where
  /-- What its instructions make of the registers and the memory. -/
  run : R → Memory → R × Memory
  /-- The canonical frame address, from the registers at the first instruction. -/
  cfa : R → Address
  /-- How far it lies above the frame pointer in the body. -/
  distance : Address
  framePointer_run : ∀ regs m, arch.framePointer (run regs m).1 + distance = cfa regs

/-! ### The prologues of the two architectures -/

namespace X86_64

/-- `push rbp` -/
def pushRbp (regs : UserRegs) (m : Memory) : UserRegs × Memory :=
  ({ regs with rsp := regs.rsp - 8 }, setWord m (regs.rsp - 8) regs.rbp)

/-- `mov rbp, rsp` -/
def movRbpRsp (regs : UserRegs) : UserRegs := { regs with rbp := regs.rsp }

/-- At the first instruction the return address is on top of the stack. -/
def prologue : Prologue x86_64 where
  run regs m := ((pushRbp regs m).1 |> movRbpRsp, (pushRbp regs m).2)
  cfa regs := regs.rsp + 8
  distance := 16
  framePointer_run regs m := by
    change regs.rsp - 8 + 16 = regs.rsp + 8
    bv_omega

end X86_64

namespace AArch64

/-- `stp x29, x30, [sp, #-N]!` -/
def stpPreIndexed (frameBytes : Address) (regs : UserPtRegs) (m : Memory) : UserPtRegs × Memory :=
  let sp := regs.sp - frameBytes
  ({ regs with sp := sp }, setWord (setWord m sp (regs.regs 29)) (sp + 8) (regs.regs 30))

/-- `mov x29, sp` -/
def movFpSp (regs : UserPtRegs) : UserPtRegs := setX regs 29 regs.sp

def prologue (frameBytes : Address) : Prologue aarch64 where
  run regs m := ((stpPreIndexed frameBytes regs m).1 |> movFpSp, (stpPreIndexed frameBytes regs m).2)
  cfa regs := regs.sp
  distance := frameBytes
  framePointer_run regs m := by
    change Function.update regs.regs 29 (regs.sp - frameBytes) 29 + frameBytes = regs.sp
    rw [Function.update_self, BitVec.sub_add_cancel]

end AArch64

/-! ### Variables in the frame -/

/-- The thread is in the body of a function that was entered with these registers. -/
structure InBody (prologue : Prologue arch) (entry : R) (tid : Tid) (s : State R D) : Prop where
  thread : ∃ regs, Inspecting s s.target.memory tid regs s ∧
    ∃ m, arch.framePointer regs = arch.framePointer (prologue.run entry m).1

/-- `DW_OP_fbreg` leads to the offset from the canonical frame address, and what is shown is the word
that stands there. -/
def FrameVariableRight (env : Environment R D) (prologue : Prologue arch) (entry : R)
    (offset : Address) (tid : Tid) (s : State R D) : Prop :=
  (∀ state, ∃ t, evaluateOperation arch env tid ⟨dwOpFbreg, offset, 0⟩ state s
    = .ok (.ok (state.push (prologue.cfa entry + offset))) t) ∧
  ∀ name, ∃ t, evaluateLocation arch env name [⟨dwOpFbreg, offset, 0⟩] tid s
    = .ok ⟨name, hex (word s.target.memory (prologue.cfa entry + offset)), true⟩ t

theorem operationIn_fbreg (m : Memory) (offset operand : Address) (state : LocationState) :
    operationIn arch regs m ⟨dwOpFbreg, offset, operand⟩ state
      = .ok (state.push (arch.framePointer regs + 16 + offset)) := rfl

/-- The frame base that is used is the canonical frame address exactly when that lies sixteen bytes
above the frame pointer. -/
theorem frameVariable_right_iff (henv : env.WritesNothing) (hreliable : env.Reliable)
    {prologue : Prologue arch} {entry : R} (hbody : InBody prologue entry tid s)
    (offset : Address) :
    FrameVariableRight env prologue entry offset tid s ↔ prologue.distance = 16 := by
  obtain ⟨regs, hs, m, hframe⟩ := hbody.thread
  have hcfa : arch.framePointer regs + prologue.distance = prologue.cfa entry := by
    rw [hframe]
    exact prologue.framePointer_run entry m
  constructor
  · rintro ⟨hpush, -⟩
    have hsame := ((finds_evaluateOperation henv hreliable _ _).ok_iff hs).mp
      (hpush ⟨[], false, false⟩)
    rw [operationIn_fbreg] at hsame
    have haddress : arch.framePointer regs + 16 + offset = prologue.cfa entry + offset :=
      (List.cons.inj (LocationState.mk.inj (Except.ok.inj hsame)).1).1
    rw [← hcfa] at haddress
    bv_omega
  · intro hdistance
    have haddress : arch.framePointer regs + 16 = prologue.cfa entry := by rw [← hdistance, hcfa]
    refine ⟨fun state => ?_, fun name => ?_⟩
    · rw [(finds_evaluateOperation henv hreliable _ _).ok_iff hs, operationIn_fbreg, haddress]
    · rw [(finds_evaluateLocation henv hreliable _ _).ok_iff hs, ← haddress]
      rfl

/-- Under the x86-64 prologue every variable in the frame is the right one. Under the AArch64 prologue
it is when the frame is of sixteen bytes, and with no other frame. -/
theorem fbreg_right_iff (frameBytes offset : Address) :
    (∀ (env : Environment UserRegs X86_64.DebugRegisters) (entry : UserRegs) (tid : Tid)
        (s : State UserRegs X86_64.DebugRegisters), env.WritesNothing → env.Reliable →
      InBody X86_64.prologue entry tid s →
        FrameVariableRight env X86_64.prologue entry offset tid s) ∧
    ∀ (env : Environment UserPtRegs AArch64.HardwareDebugState) (entry : UserPtRegs) (tid : Tid)
        (s : State UserPtRegs AArch64.HardwareDebugState), env.WritesNothing → env.Reliable →
      InBody (AArch64.prologue frameBytes) entry tid s →
        (FrameVariableRight env (AArch64.prologue frameBytes) entry offset tid s ↔
          frameBytes = 16) := by
  constructor
  · intro env entry tid s henv hreliable hbody
    exact (frameVariable_right_iff henv hreliable hbody offset).mpr rfl
  · intro env entry tid s henv hreliable hbody
    exact frameVariable_right_iff henv hreliable hbody offset

/-! ### A frame of thirty-two bytes -/

def deepEntry : UserPtRegs := ⟨fun _ => 0, 0x8020, 0x1000, 0⟩

/-- In the body of a function whose frame is at `0x8000`, with a variable at `0x8018`. -/
def deepFrame : State UserPtRegs AArch64.HardwareDebugState where
  debugger := { Debugger.fresh 1 with selectedTid := 1 }
  target :=
    { stillStart.target with
      memory := setWord (fun _ => 0) 0x8018 7
      tasks := SortedMap.empty.insert 1
        { stillTask with regs := ⟨fun number => if number = 29 then 0x8000 else 0, 0x8000, 0x1010, 0⟩ } }
  tick := 0
  log := []

theorem inspecting_deepFrame : Inspecting deepFrame deepFrame.target.memory 1
    ⟨fun number => if number = 29 then 0x8000 else 0, 0x8000, 0x1010, 0⟩ deepFrame :=
  ⟨Requested.refl _, ⟨_, rfl, rfl⟩, _, rfl, rfl, rfl⟩

theorem inBody_deepFrame : InBody (AArch64.prologue 32) deepEntry 1 deepFrame :=
  ⟨_, inspecting_deepFrame, fun _ => 0, rfl⟩

theorem stillMachine_reliable : stillMachine.Reliable := ⟨fun _ _ _ _ htask _ => htask, fun _ => rfl⟩

/-- The variable eight bytes below the canonical frame address is 7 and is shown as 0. -/
theorem fbreg_wrong :
    InBody (AArch64.prologue 32) deepEntry 1 deepFrame ∧
      ¬ FrameVariableRight stillMachine (AArch64.prologue 32) deepEntry (-8) 1 deepFrame ∧
      word deepFrame.target.memory ((AArch64.prologue 32).cfa deepEntry + (-8)) = 7 ∧
      ∃ t, evaluateLocation aarch64 stillMachine "v".toList [⟨dwOpFbreg, -8, 0⟩] 1 deepFrame
        = .ok ⟨"v".toList, hex 0, true⟩ t := by
  refine ⟨inBody_deepFrame, ?_, rfl, ?_⟩
  · rw [frameVariable_right_iff stillMachine_atomic.still stillMachine_reliable inBody_deepFrame]
    decide
  · exact ((finds_evaluateLocation stillMachine_atomic.still stillMachine_reliable _ _).ok_iff
      inspecting_deepFrame).mpr rfl

/-- In a frame of sixteen bytes the same offset leads to the variable. -/
theorem fbreg_right_shallow :
    FrameVariableRight stillMachine (AArch64.prologue 16) ⟨fun _ => 0, 0x8010, 0x1000, 0⟩ (-8) 1
      deepFrame :=
  ((fbreg_right_iff 16 (-8)).2 stillMachine ⟨fun _ => 0, 0x8010, 0x1000, 0⟩ 1 deepFrame
    stillMachine_atomic.still stillMachine_reliable ⟨_, inspecting_deepFrame, fun _ => 0, rfl⟩).mpr rfl

end Cosy
