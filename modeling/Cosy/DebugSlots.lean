import Cosy.Lib.BitFields
import Cosy.Consumers

/-!
# What the debug registers watch

The two architectures keep a watchpoint in different places: an address register and two fields of
DR7, or one entry of a register set. Either way a slot can be read off the debug state of a thread,
and `configure_watchpoint` and `clear_watchpoint` change the slot they are given and no other.
-/

namespace Cosy

open BitFields

variable {R D : Type}

/-- A slot: where it watches, whether it is enabled, and for what, as the architecture encodes it. -/
structure SlotContent where
  address : Address
  enabled : Bool
  control : Nat
deriving DecidableEq

def SlotContent.cleared : SlotContent := ⟨0, false, 0⟩

/-- How the slots are read off the debug state. -/
structure DebugView (arch : Architecture R D) where
  content : D → Nat → SlotContent
  /-- The slot of a watchpoint at this address, for these accesses, over so many bytes. -/
  requested : Address → WatchAccess → Nat → SlotContent
  requested_enabled : ∀ address watchAccess bytes, (requested address watchAccess bytes).enabled = true
  configured : ∀ {slot address watchAccess bytes plan},
    arch.configureWatchpoint slot address watchAccess bytes = .ok plan → ∀ debug other,
      content (applyWrites (plan.writes debug) debug) other
        = if other = slot then requested address watchAccess bytes else content debug other
  cleared : ∀ {slot plan}, arch.clearWatchpoint slot = some plan → ∀ debug other,
    content (applyWrites (plan.writes debug) debug) other
      = if other = slot then .cleared else content debug other

/-! ### x86-64 -/

namespace X86_64

/-- A slot whose fields of DR7 are in `control`. -/
def slotOf (address control : Address) (slot : Nat) : SlotContent where
  address := address
  enabled := control.extractLsb' (slot * 2) 2 ≠ 0#2
  control := (control.extractLsb' (16 + slot * 4) 4).toNat

def slotContent (debug : DebugRegisters) (slot : Nat) : SlotContent :=
  if slot < 4 then slotOf (debug slot) (debug 7) slot else .cleared

/-- The RW and LEN bits of a watchpoint. -/
def conditionBits (watchAccess : WatchAccess) (bytes : Nat) : Nat :=
  (if watchAccess = .write then 1 else 3) ||| ((watchLength bytes).getD 0 <<< 2)

def requestedSlot (address : Address) (watchAccess : WatchAccess) (bytes : Nat) : SlotContent :=
  ⟨address, true, conditionBits watchAccess bytes⟩

theorem conditionBits_lt (watchAccess : WatchAccess) (bytes : Nat) :
    conditionBits watchAccess bytes < 2 ^ 4 := by
  have hlength : (watchLength bytes).getD 0 < 4 := by
    unfold watchLength
    split <;> decide
  have haccess : (if watchAccess = .write then 1 else 3) < 2 ^ 4 := by
    split <;> decide
  apply Nat.or_lt_two_pow haccess
  rw [Nat.shiftLeft_eq]
  omega

theorem clearControl_eq (control : Address) (slot : Nat) :
    clearControl control slot
      = (control &&& ~~~block 64 (16 + slot * 4) 4) &&& ~~~block 64 (slot * 2) 2 := rfl

theorem clearControl_enable (control : Address) (slot : Nat) :
    (clearControl control slot).extractLsb' (slot * 2) 2 = 0#2 := by
  rw [clearControl_eq]
  exact extractLsb'_clear_self _ _ _

theorem clearControl_condition (control : Address) {slot : Nat} (hslot : slot < 4) :
    (clearControl control slot).extractLsb' (16 + slot * 4) 4 = 0#4 := by
  rw [clearControl_eq, extractLsb'_clear_of_apart _ (by omega)]
  exact extractLsb'_clear_self _ _ _

/-- A field apart from both fields of the slot is kept. -/
theorem clearControl_of_apart (control : Address) {slot start n : Nat}
    (henable : start + n ≤ slot * 2 ∨ slot * 2 + 2 ≤ start)
    (hcondition : start + n ≤ 16 + slot * 4 ∨ 16 + slot * 4 + 4 ≤ start) :
    (clearControl control slot).extractLsb' start n = control.extractLsb' start n := by
  rw [clearControl_eq, extractLsb'_clear_of_apart _ (by omega),
    extractLsb'_clear_of_apart _ (by omega)]

/-- DR7 with the fields of a slot filled in. -/
def program (control : Address) (slot condition : Nat) : Address :=
  clearControl control slot ||| (1#64 <<< (slot * 2)) |||
    (BitVec.ofNat 64 condition <<< (16 + slot * 4))

section Program

variable {slot condition : Nat} (control : Address)

theorem program_enable (hcondition : condition < 2 ^ 4) (hslot : slot < 4) :
    (program control slot condition).extractLsb' (slot * 2) 2 = 1#2 := by
  have hone : (1#64 <<< (slot * 2)).extractLsb' (slot * 2) 2 = 1#2 :=
    extractLsb'_shiftLeft_self 1 (by omega)
  have hother : (BitVec.ofNat 64 condition <<< (16 + slot * 4)).extractLsb' (slot * 2) 2 = 0#2 :=
    extractLsb'_shiftLeft_of_apart hcondition (by omega)
  rw [program, BitVec.extractLsb'_or, BitVec.extractLsb'_or, clearControl_enable, hone, hother]
  rfl

theorem program_condition (hslot : slot < 4) :
    (program control slot condition).extractLsb' (16 + slot * 4) 4 = BitVec.ofNat 4 condition := by
  have hone : (1#64 <<< (slot * 2)).extractLsb' (16 + slot * 4) 4 = 0#4 :=
    extractLsb'_shiftLeft_of_apart (show 1 < 2 ^ 2 by decide) (by omega)
  have hvalue : (BitVec.ofNat 64 condition <<< (16 + slot * 4)).extractLsb' (16 + slot * 4) 4
      = BitVec.ofNat 4 condition := extractLsb'_shiftLeft_self condition (by omega)
  rw [program, BitVec.extractLsb'_or, BitVec.extractLsb'_or, clearControl_condition control hslot,
    hone, hvalue, BitVec.zero_or, BitVec.zero_or]

theorem program_of_apart (hfits : condition < 2 ^ 4) {start n : Nat}
    (henable : start + n ≤ slot * 2 ∨ slot * 2 + 2 ≤ start)
    (hcondition : start + n ≤ 16 + slot * 4 ∨ 16 + slot * 4 + 4 ≤ start) :
    (program control slot condition).extractLsb' start n = control.extractLsb' start n := by
  have hone : (1#64 <<< (slot * 2)).extractLsb' start n = 0#n :=
    extractLsb'_shiftLeft_of_apart (show 1 < 2 ^ 2 by decide) (by omega)
  have hvalue : (BitVec.ofNat 64 condition <<< (16 + slot * 4)).extractLsb' start n = 0#n :=
    extractLsb'_shiftLeft_of_apart hfits (by omega)
  rw [program, BitVec.extractLsb'_or, BitVec.extractLsb'_or,
    clearControl_of_apart control henable hcondition, hone, hvalue, BitVec.or_zero, BitVec.or_zero]

end Program

theorem slotOf_clearControl (address control : Address) {slot other : Nat} (hslot : slot < 4)
    (hother : other < 4) :
    slotOf address (clearControl control slot) other
      = if other = slot then ⟨address, false, 0⟩ else slotOf address control other := by
  by_cases heq : other = slot
  · subst heq
    rw [if_pos rfl, slotOf, clearControl_enable, clearControl_condition control hslot]
    rfl
  · rw [if_neg heq, slotOf, slotOf, clearControl_of_apart control (by omega) (by omega),
      clearControl_of_apart control (by omega) (by omega)]

theorem slotOf_program (address control : Address) {slot other condition : Nat} (hslot : slot < 4)
    (hother : other < 4) (hcondition : condition < 2 ^ 4) :
    slotOf address (program control slot condition) other
      = if other = slot then ⟨address, true, condition⟩ else slotOf address control other := by
  by_cases heq : other = slot
  · subst heq
    rw [if_pos rfl, slotOf, program_enable control hcondition hslot, program_condition control hslot,
      BitVec.toNat_ofNat, Nat.mod_eq_of_lt hcondition]
    rfl
  · rw [if_neg heq, slotOf, slotOf, program_of_apart control hcondition (by omega) (by omega),
      program_of_apart control hcondition (by omega) (by omega)]

/-- The debug registers after the two writes of a plan. -/
theorem slotContent_update (debug : DebugRegisters) {slot : Nat} (hslot : slot < 4)
    (address control : Address) {content : Address → SlotContent}
    (hcontent : ∀ other, other < 4 → ∀ address, slotOf address control other
      = if other = slot then content address else slotOf address (debug 7) other) (other : Nat) :
    slotContent (Function.update (Function.update debug slot address) 7 control) other
      = if other = slot then content address else slotContent debug other := by
  unfold slotContent
  by_cases hother : other < 4
  · rw [if_pos hother, if_pos hother, Function.update_self,
      Function.update_of_ne (by omega : other ≠ 7), hcontent other hother]
    by_cases heq : other = slot
    · rw [if_pos heq, if_pos heq, heq, Function.update_self]
    · rw [if_neg heq, if_neg heq, Function.update_of_ne heq]
  · rw [if_neg hother, if_neg hother, if_neg (by omega)]

end X86_64

def x86_64View : DebugView x86_64 where
  content := X86_64.slotContent
  requested := X86_64.requestedSlot
  requested_enabled _ _ _ := rfl
  configured := by
    intro slot address watchAccess bytes plan hplan debug other
    change X86_64.configureWatchpoint slot address watchAccess bytes = .ok plan at hplan
    unfold X86_64.configureWatchpoint at hplan
    split at hplan
    · cases hplan
    · rename_i hslot
      split at hplan
      · cases hplan
      · rename_i length hlength
        split at hplan
        · cases hplan
        · obtain rfl := Except.ok.inj hplan
          have hbits : (if watchAccess = .write then 1 else 3) ||| (length <<< 2)
              = X86_64.conditionBits watchAccess bytes := by
            rw [X86_64.conditionBits, hlength]
            rfl
          have hprogram : ∀ other, other < 4 → ∀ address, X86_64.slotOf address _ other
              = if other = slot then X86_64.requestedSlot address watchAccess bytes
                else X86_64.slotOf address (debug 7) other :=
            fun other hother address => X86_64.slotOf_program address (debug 7) (by omega) hother
              (X86_64.conditionBits_lt watchAccess bytes)
          rw [← hbits] at hprogram
          exact X86_64.slotContent_update debug (by omega) address _ hprogram other
  cleared := by
    intro slot plan hplan debug other
    change X86_64.clearWatchpoint slot = some plan at hplan
    unfold X86_64.clearWatchpoint at hplan
    split at hplan
    · cases hplan
    · obtain rfl := Option.some.inj hplan
      have hclear : ∀ other, other < 4 → ∀ address, X86_64.slotOf address _ other
          = if other = slot then ⟨address, false, 0⟩ else X86_64.slotOf address (debug 7) other :=
        fun other hother address => X86_64.slotOf_clearControl address (debug 7) (by omega) hother
      exact X86_64.slotContent_update debug (by omega) 0 _ hclear other

/-! ### AArch64 -/

namespace AArch64

def entryContent (entry : Address × BitVec 32) : SlotContent where
  address := entry.1
  enabled := entry.2.getLsbD 0
  control := entry.2.toNat

def slotContent (state : HardwareDebugState) (slot : Nat) : SlotContent :=
  if slot < 16 then entryContent (state.registers slot) else .cleared

/-- The control word of a watchpoint. -/
def controlWord (watchAccess : WatchAccess) (bytes : Nat) : BitVec 32 :=
  let mask : BitVec 32 := (1#32 <<< bytes) - 1#32
  let type : BitVec 32 :=
    match watchAccess with
    | .write => 2
    | .read => 1
    | .access => 3
  1#32 ||| (2#32 <<< 1) ||| (type <<< 3) ||| (mask <<< 5)

theorem slotContent_setSlot (state : HardwareDebugState) {slot : Nat} (hslot : slot < 16)
    (entry : Address × BitVec 32) (other : Nat) :
    slotContent (setSlot slot entry state) other
      = if other = slot then entryContent entry else slotContent state other := by
  unfold slotContent setSlot
  dsimp only
  by_cases heq : other = slot
  · subst heq
    rw [if_pos hslot, if_pos rfl, Function.update_self]
  · rw [if_neg heq, Function.update_of_ne heq]

end AArch64

def aarch64View : DebugView aarch64 where
  content := AArch64.slotContent
  requested address watchAccess bytes :=
    AArch64.entryContent (address, AArch64.controlWord watchAccess bytes)
  requested_enabled address watchAccess bytes := by
    simp [AArch64.entryContent, AArch64.controlWord]
  configured := by
    intro slot address watchAccess bytes plan hplan debug other
    change AArch64.configureWatchpoint slot address watchAccess bytes = .ok plan at hplan
    unfold AArch64.configureWatchpoint at hplan
    split at hplan
    · cases hplan
    · rename_i hslot
      split at hplan
      · cases hplan
      · obtain rfl := Except.ok.inj hplan
        have hslot' : slot < 16 := Nat.lt_of_not_le hslot
        have hset := AArch64.slotContent_setSlot debug hslot'
          (address, AArch64.controlWord watchAccess bytes) other
        cases watchAccess <;> exact hset
  cleared := by
    intro slot plan hplan debug other
    obtain rfl := Option.some.inj hplan
    by_cases hslot : slot < 16
    · simp only [if_pos hslot]
      exact AArch64.slotContent_setSlot debug hslot _ other
    · simp only [if_neg hslot]
      change AArch64.slotContent debug other = _
      split
      · rename_i heq
        rw [AArch64.slotContent, if_neg (heq ▸ hslot)]
      · rfl

end Cosy
