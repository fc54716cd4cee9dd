import Cosy.DebugSlots
import Cosy.Reports

/-!
# The control word

On x86-64 four slots share DR7. A call rewrites the two enable bits and the four condition bits of its
slot and leaves every other bit as it is, so that each slot decodes to the last call on it.
-/

namespace Cosy

open BitFields Effect

section Plans

variable {R D : Type} (arch : Architecture R D) (env : Environment R D)

/-- A plan is carried out: one request that reads, and those that write. -/
def carryOut (tid : Tid) (plan : WatchPlan D) : Dbg R D Unit := do
  let debug ← ptrace env plan.readOperation tid fun task target => (task.debug, target)
  (plan.writes debug).forM fun write =>
    ptrace env write.1 tid fun task target =>
      (⟨⟩, target.setTask tid { task with debug := write.2 task.debug })

/-- `clear_watchpoint` of the architecture, on one thread. -/
def clearWatchpoint (tid : Tid) (slot : Nat) : Dbg R D Unit :=
  match arch.clearWatchpoint slot with
  | none => pure ⟨⟩
  | some plan => carryOut env tid plan

variable {arch env} {s t : State R D} {tid : Tid} {task : Task R D}

/-- A request to a stopped thread that is answered. -/
theorem Environment.Steady.ptrace_ok {α : Type} (hsteady : env.Steady) {operation : String}
    {request : Task R D → Target R D → α × Target R D} {a : α}
    (htask : s.target.tasks.find? tid = some task) (hstopped : task.stopped = true)
    (hrun : ptrace env operation tid request s = .ok a t) :
    a = (request task (env.enter s).target).1 ∧
      t.target = (request task (env.enter s).target).2 := by
  have henter : (env.enter s).target.tasks.find? tid = some task :=
    hsteady _ _ _ _ htask hstopped
  rcases ptrace_cases env operation tid request s with ⟨found, hfound, -, -, hok⟩ | ⟨-, herror⟩
  · rw [henter] at hfound
    obtain rfl := Option.some.inj hfound
    obtain ⟨rfl, rfl⟩ := EStateM.Result.ok.inj (hok.symm.trans hrun)
    exact ⟨rfl, rfl⟩
  · cases herror.symm.trans hrun

/-- What a plan that is carried out leaves in the debug registers. -/
theorem carryOut_ok (hsteady : env.Steady) {plan : WatchPlan D}
    (htask : s.target.tasks.find? tid = some task) (hstopped : task.stopped = true)
    (hrun : carryOut env tid plan s = .ok ⟨⟩ t) :
    t.target.tasks.find? tid
      = some { task with debug := applyWrites (plan.writes task.debug) task.debug } := by
  have hwrites : ∀ (writes : List (String × (D → D))) (s : State R D) (task : Task R D),
      s.target.tasks.find? tid = some task → task.stopped = true →
      (writes.forM fun write => ptrace env write.1 tid fun task target =>
        (PUnit.unit, target.setTask tid { task with debug := write.2 task.debug })) s = .ok ⟨⟩ t →
      t.target.tasks.find? tid = some { task with debug := applyWrites writes task.debug } := by
    intro writes
    induction writes with
    | nil =>
        intro s task htask _ hrun
        obtain ⟨-, rfl⟩ := EStateM.Result.ok.inj hrun
        exact htask
    | cons write rest ih =>
        intro s task htask hstopped hrun
        obtain ⟨_, u, hwrite, hrest⟩ := of_bind_ok hrun
        obtain ⟨-, hu⟩ := hsteady.ptrace_ok htask hstopped hwrite
        refine ih u { task with debug := write.2 task.debug } ?_ hstopped hrest
        rw [hu]
        exact SortedMap.find?_insert_self _ _ _
  obtain ⟨debug, u, hread, hrest⟩ := of_bind_ok hrun
  obtain ⟨rfl, hu⟩ := hsteady.ptrace_ok htask hstopped hread
  refine hwrites _ u task ?_ hstopped hrest
  rw [hu]
  exact hsteady _ _ _ _ htask hstopped

/-- A plan can be carried out on a thread that is stopped. -/
theorem Environment.Reliable.carryOut (hreliable : env.Reliable) (plan : WatchPlan D) :
    Triple (fun s => s.StoppedThread tid) (Cosy.carryOut env tid plan)
      (fun _ s => s.StoppedThread tid) (fun _ _ => False) := by
  have hwrite : ∀ write : String × (D → D), Triple (fun s => s.StoppedThread tid)
      (Cosy.ptrace env write.1 tid fun task target =>
        (PUnit.unit, target.setTask tid { task with debug := write.2 task.debug }))
      (fun _ s => s.StoppedThread tid) (fun _ _ => False) := by
    rintro write s ⟨task, htask, hstopped⟩
    rw [hreliable.ptrace htask hstopped]
    exact ⟨_, SortedMap.find?_insert_self _ _ _, hstopped⟩
  refine Triple.bind (Q := fun _ s => s.StoppedThread tid) ?_ fun debug =>
    Triple.forM (plan.writes debug) fun write _ => hwrite write
  rintro s ⟨task, htask, hstopped⟩
  rw [hreliable.ptrace htask hstopped]
  exact hreliable.enter ⟨task, htask, hstopped⟩

end Plans

namespace X86_64

variable {env : Environment UserRegs DebugRegisters} {s t : State UserRegs DebugRegisters} {tid : Tid}
  {debug debug' : DebugRegisters} {other bit : Nat}

/-! ### What DR7 says -/

/-- A slot, as DR7 and its address register have it. -/
structure SlotFields where
  localEnable : Bool
  globalEnable : Bool
  readWrite : BitVec 2
  length : BitVec 2
  address : Address

def decode (debug : DebugRegisters) (slot : Nat) : SlotFields where
  localEnable := (debug 7).getLsbD (2 * slot)
  globalEnable := (debug 7).getLsbD (2 * slot + 1)
  readWrite := (debug 7).extractLsb' (16 + 4 * slot) 2
  length := (debug 7).extractLsb' (18 + 4 * slot) 2
  address := debug slot

/-- The bit is one of those that DR7 has for the slot. -/
def Owns (slot bit : Nat) : Prop :=
  (2 * slot ≤ bit ∧ bit < 2 * slot + 2) ∨ (16 + 4 * slot ≤ bit ∧ bit < 20 + 4 * slot)

instance (slot bit : Nat) : Decidable (Owns slot bit) := inferInstanceAs (Decidable (_ ∨ _))

/-! ### Calls -/

inductive SlotCall where
  | configure (slot : Nat) (address : Address) (watchAccess : WatchAccess) (bytes : Nat)
  | clear (slot : Nat)

namespace SlotCall

def slot : SlotCall → Nat
  | configure slot _ _ _ => slot
  | clear slot => slot

/-- What the slot is to decode to. -/
def fields : SlotCall → SlotFields
  | configure _ address watchAccess bytes =>
      { localEnable := true
        globalEnable := false
        readWrite := if watchAccess = .write then 1 else 3
        length := if bytes = 1 then 0 else if bytes = 2 then 1 else if bytes = 4 then 3 else 2
        address := address }
  | clear _ => ⟨false, false, 0, 0, 0⟩

/-- There is such a slot and, for a watchpoint, such a size, of which the address is a multiple. -/
def Valid : SlotCall → Prop
  | configure slot address _ bytes =>
      slot < 4 ∧ (bytes = 1 ∨ bytes = 2 ∨ bytes = 4 ∨ bytes = 8) ∧ address.toNat % bytes = 0
  | clear slot => slot < 4

def run (env : Environment UserRegs DebugRegisters) (tid : Tid) :
    SlotCall → Dbg UserRegs DebugRegisters Unit
  | configure slot address watchAccess bytes =>
      Cosy.configureWatchpoint x86_64 env tid slot address watchAccess bytes
  | clear slot => Cosy.clearWatchpoint x86_64 env tid slot

end SlotCall

/-- The last call on a slot. -/
def lastOn (slot : Nat) (calls : List SlotCall) : Option SlotCall :=
  (calls.filter fun call => call.slot = slot).getLast?

/-- Each slot that was touched decodes to the last call on it, and all the rest is as before. -/
structure Decodes (calls : List SlotCall) (debug debug' : DebugRegisters) : Prop where
  fields : ∀ slot call, lastOn slot calls = some call → decode debug' slot = call.fields
  bits : ∀ bit, (∀ call ∈ calls, ¬ Owns call.slot bit) → (debug' 7).getLsbD bit = (debug 7).getLsbD bit
  registers : ∀ index, index ≠ 7 → (∀ call ∈ calls, call.slot ≠ index) → debug' index = debug index

/-! ### One call -/

/-- A bit of another slot, as a field, is apart from the fields of this one. -/
theorem apart_of_not_owns {slot : Nat} (hbit : ¬ Owns slot bit) :
    (bit + 1 ≤ slot * 2 ∨ slot * 2 + 2 ≤ bit) ∧
      (bit + 1 ≤ 16 + slot * 4 ∨ 16 + slot * 4 + 4 ≤ bit) := by
  unfold Owns at hbit
  omega

/-- A slot, from its two enable bits and its four condition bits. -/
def fieldsOf (enable : BitVec 2) (condition : BitVec 4) (address : Address) : SlotFields where
  localEnable := enable.getLsbD 0
  globalEnable := enable.getLsbD 1
  readWrite := condition.extractLsb' 0 2
  length := condition.extractLsb' 2 2
  address := address

theorem decode_eq (debug : DebugRegisters) (slot : Nat) :
    decode debug slot = fieldsOf ((debug 7).extractLsb' (slot * 2) 2)
      ((debug 7).extractLsb' (16 + slot * 4) 4) (debug slot) := by
  rw [Nat.mul_comm slot 2, Nat.mul_comm slot 4]
  have hcondition : ∀ start, start + 2 ≤ 4 →
      ((debug 7).extractLsb' (16 + 4 * slot) 4).extractLsb' start 2
        = (debug 7).extractLsb' (16 + 4 * slot + start) 2 :=
    fun start hfits => extractLsb'_extractLsb'_of_fits _ hfits
  unfold decode fieldsOf
  rw [hcondition 0 (by omega), hcondition 2 (by omega), show 16 + 4 * slot + 2 = 18 + 4 * slot by omega]
  simp

/-- The fields of a watchpoint, as they are asked for and as they are encoded. -/
theorem fields_configure {address : Address} {watchAccess : WatchAccess} {slot bytes : Nat}
    (hbytes : bytes = 1 ∨ bytes = 2 ∨ bytes = 4 ∨ bytes = 8) :
    (SlotCall.configure slot address watchAccess bytes).fields
      = fieldsOf 1#2 (BitVec.ofNat 4 (conditionBits watchAccess bytes)) address := by
  rcases hbytes with rfl | rfl | rfl | rfl <;> cases watchAccess <;> rfl

/-- What a call makes of the debug registers: the address register and DR7, in this order. -/
def SlotCall.change : SlotCall → DebugRegisters → DebugRegisters
  | .configure slot address watchAccess bytes, debug =>
      Function.update (Function.update debug slot address) 7
        (program (debug 7) slot (conditionBits watchAccess bytes))
  | .clear slot, debug =>
      Function.update (Function.update debug slot 0) 7 (clearControl (debug 7) slot)

theorem decodes_update {call : SlotCall} {control address : Address} (hslot : call.slot < 4)
    (hfields : fieldsOf (control.extractLsb' (call.slot * 2) 2)
      (control.extractLsb' (16 + call.slot * 4) 4) address = call.fields)
    (hrest : ∀ bit, ¬ Owns call.slot bit → control.extractLsb' bit 1 = (debug 7).extractLsb' bit 1) :
    Decodes [call] debug
      (Function.update (Function.update debug call.slot address) 7 control) where
  fields := by
    intro slot other hlast
    by_cases heq : call.slot = slot
    · obtain rfl : call = other := by simpa [lastOn, heq] using hlast
      rw [← heq, decode_eq, Function.update_self, Function.update_of_ne (by omega : call.slot ≠ 7),
        Function.update_self, hfields]
    · simp [lastOn, heq] at hlast
  bits := by
    intro bit hbit
    rw [Function.update_self]
    exact getLsbD_eq_of_extractLsb' (hrest bit (hbit call List.mem_cons_self))
  registers := by
    intro index hindex hother
    have hne : index ≠ call.slot := fun heq => hother call List.mem_cons_self heq.symm
    rw [Function.update_of_ne hindex, Function.update_of_ne hne]

theorem SlotCall.Valid.decodes {call : SlotCall} (hvalid : call.Valid) (debug : DebugRegisters) :
    Decodes [call] debug (call.change debug) := by
  cases call with
  | configure slot address watchAccess bytes =>
      obtain ⟨hslot, hbytes, -⟩ := hvalid
      have hcondition := conditionBits_lt watchAccess bytes
      refine decodes_update hslot ?_ fun bit hbit => ?_
      · rw [fields_configure hbytes]
        change fieldsOf ((program _ slot _).extractLsb' (slot * 2) 2) _ _ = _
        rw [program_enable _ hcondition hslot]
        exact congrArg (fieldsOf 1#2 · address) (program_condition _ hslot)
      · obtain ⟨henable, hbits⟩ := apart_of_not_owns hbit
        exact program_of_apart _ hcondition henable hbits
  | clear slot =>
      refine decodes_update hvalid ?_ fun bit hbit => ?_
      · change fieldsOf ((clearControl _ slot).extractLsb' (slot * 2) 2)
          ((clearControl _ slot).extractLsb' (16 + slot * 4) 4) 0 = _
        rw [clearControl_enable, clearControl_condition _ hvalid]
        rfl
      · obtain ⟨henable, hbits⟩ := apart_of_not_owns hbit
        exact clearControl_of_apart _ henable hbits

/-! ### Many calls -/

theorem lastOn_append (slot : Nat) (calls calls' : List SlotCall) :
    lastOn slot (calls ++ calls') = (lastOn slot calls').or (lastOn slot calls) := by
  unfold lastOn
  rw [List.filter_append, List.getLast?_append]

theorem lastOn_eq_none_iff {slot : Nat} {calls : List SlotCall} :
    lastOn slot calls = none ↔ ∀ call ∈ calls, call.slot ≠ slot := by
  simp [lastOn]

theorem Owns.slot_eq {slot slot' bit : Nat} (hslot : slot < 4) (hslot' : slot' < 4)
    (howns : Owns slot bit) (howns' : Owns slot' bit) : slot = slot' := by
  unfold Owns at howns howns'
  omega

/-- A slot that no call was on decodes as before. -/
theorem Decodes.untouched {calls : List SlotCall} (hdecodes : Decodes calls debug debug')
    (hslots : ∀ call ∈ calls, call.slot < 4) (hother : other < 4)
    (huntouched : ∀ call ∈ calls, call.slot ≠ other) : decode debug' other = decode debug other := by
  have hbit : ∀ bit, Owns other bit → (debug' 7).getLsbD bit = (debug 7).getLsbD bit := by
    intro bit howns
    refine hdecodes.bits bit fun call hmem howns' => huntouched call hmem ?_
    exact howns'.slot_eq (hslots call hmem) hother howns
  have hfield : ∀ start, (∀ i < 2, Owns other (start + i)) →
      (debug' 7).extractLsb' start 2 = (debug 7).extractLsb' start 2 := by
    intro start howns
    refine BitVec.eq_of_getLsbD_eq fun i hi => ?_
    rw [BitVec.getLsbD_extractLsb', BitVec.getLsbD_extractLsb', hbit _ (howns i hi)]
  unfold decode
  rw [hbit _ (Or.inl (by omega)), hbit _ (Or.inl (by omega)),
    hfield _ fun i hi => Or.inr (by omega), hfield _ fun i hi => Or.inr (by omega),
    hdecodes.registers other (by omega) huntouched]

theorem Decodes.trans {calls calls' : List SlotCall} {debug'' : DebugRegisters}
    (hfirst : Decodes calls debug debug') (hsecond : Decodes calls' debug' debug'')
    (hslots : ∀ call ∈ calls ++ calls', call.slot < 4) :
    Decodes (calls ++ calls') debug debug'' where
  fields := by
    intro slot call hlast
    rw [lastOn_append] at hlast
    cases hlater : lastOn slot calls' with
    | some later =>
        rw [hlater, Option.some_or] at hlast
        exact hsecond.fields slot call (hlater.trans hlast)
    | none =>
        rw [hlater, Option.none_or] at hlast
        have hslot : slot < 4 := by
          by_contra hnot
          have hnone : lastOn slot calls = none := lastOn_eq_none_iff.mpr fun call hmem heq =>
            hnot (heq ▸ hslots call (List.mem_append_left _ hmem))
          cases hnone.symm.trans hlast
        rw [hsecond.untouched (fun call hmem => hslots call (List.mem_append_right _ hmem)) hslot
          (lastOn_eq_none_iff.mp hlater)]
        exact hfirst.fields slot call hlast
  bits := by
    intro bit hbit
    rw [List.forall_mem_append] at hbit
    exact (hsecond.bits bit hbit.2).trans (hfirst.bits bit hbit.1)
  registers := by
    intro index hindex huntouched
    rw [List.forall_mem_append] at huntouched
    exact (hsecond.registers index hindex huntouched.2).trans
      (hfirst.registers index hindex huntouched.1)

theorem Owns.getLsbD_eq {slot : Nat} (hdecode : decode debug slot = decode debug' slot)
    (howns : Owns slot bit) : (debug 7).getLsbD bit = (debug' 7).getLsbD bit := by
  obtain ⟨hlocal, hglobal, hreadWrite, hlength, -⟩ := SlotFields.mk.inj hdecode
  have hfield : ∀ start, (debug 7).extractLsb' start 2 = (debug' 7).extractLsb' start 2 →
      ∀ i < 2, (debug 7).getLsbD (start + i) = (debug' 7).getLsbD (start + i) := by
    intro start heq i hi
    simpa [hi] using congrArg (fun field => field.getLsbD i) heq
  have hbit : bit = 2 * slot ∨ bit = 2 * slot + 1 ∨ (∃ i < 2, bit = 16 + 4 * slot + i) ∨
      ∃ i < 2, bit = 18 + 4 * slot + i := by
    rcases howns with henable | hcondition
    · omega
    · rcases Nat.lt_or_ge bit (18 + 4 * slot) with hlow | hhigh
      · exact Or.inr (Or.inr (Or.inl ⟨bit - (16 + 4 * slot), by omega, by omega⟩))
      · exact Or.inr (Or.inr (Or.inr ⟨bit - (18 + 4 * slot), by omega, by omega⟩))
  rcases hbit with rfl | rfl | ⟨i, hi, rfl⟩ | ⟨i, hi, rfl⟩
  · exact hlocal
  · exact hglobal
  · exact hfield _ hreadWrite i hi
  · exact hfield _ hlength i hi

/-- The two lists have the same calls on each slot, in the same order. -/
def SameOnEachSlot (calls calls' : List SlotCall) : Prop :=
  ∀ slot, (calls.filter fun call => call.slot = slot) = calls'.filter fun call => call.slot = slot

namespace SameOnEachSlot

variable {calls calls' : List SlotCall}

theorem lastOn (hsame : SameOnEachSlot calls calls') (slot : Nat) :
    lastOn slot calls = X86_64.lastOn slot calls' :=
  congrArg List.getLast? (hsame slot)

theorem mem_iff (hsame : SameOnEachSlot calls calls') (call : SlotCall) :
    call ∈ calls ↔ call ∈ calls' := by
  have hmem : ∀ calls : List SlotCall,
      call ∈ calls ↔ call ∈ calls.filter fun other => other.slot = call.slot := by simp
  rw [hmem calls, hmem calls', hsame call.slot]

/-- Two neighbouring calls on different slots change places. -/
theorem swap {first second : SlotCall} (hslots : first.slot ≠ second.slot)
    (before after : List SlotCall) :
    SameOnEachSlot (before ++ first :: second :: after) (before ++ second :: first :: after) := by
  intro slot
  rw [List.filter_append, List.filter_append]
  congr 1
  by_cases hfirst : first.slot = slot
  · have hsecond : ¬ second.slot = slot := fun heq => hslots (hfirst.trans heq.symm)
    simp [hfirst, hsecond]
  · simp [List.filter_cons, hfirst]

end SameOnEachSlot

/-- What is left depends on the calls on each slot alone. -/
theorem Decodes.unique {calls calls' : List SlotCall} {left right : DebugRegisters}
    (hleft : Decodes calls debug left) (hright : Decodes calls' debug right)
    (hsame : SameOnEachSlot calls calls') : left = right := by
  have hdecode : ∀ call ∈ calls, decode left call.slot = decode right call.slot := by
    intro call hmem
    cases hlast : lastOn call.slot calls with
    | none => exact absurd rfl (lastOn_eq_none_iff.mp hlast call hmem)
    | some last =>
        rw [hleft.fields _ last hlast, hright.fields _ last ((hsame.lastOn _).symm.trans hlast)]
  funext index
  by_cases hindex : index = 7
  · rw [hindex]
    refine BitVec.eq_of_getLsbD_eq fun bit _ => ?_
    by_cases howned : ∃ call ∈ calls, Owns call.slot bit
    · obtain ⟨call, hmem, howns⟩ := howned
      exact howns.getLsbD_eq (hdecode call hmem)
    · have hfree : ∀ call ∈ calls, ¬ Owns call.slot bit :=
        fun call hmem howns => howned ⟨call, hmem, howns⟩
      rw [hleft.bits bit hfree, hright.bits bit fun call hmem =>
        hfree call ((hsame.mem_iff call).mpr hmem)]
  · by_cases htouched : ∃ call ∈ calls, call.slot = index
    · obtain ⟨call, hmem, rfl⟩ := htouched
      exact congrArg SlotFields.address (hdecode call hmem)
    · have hfree : ∀ call ∈ calls, call.slot ≠ index :=
        fun call hmem heq => htouched ⟨call, hmem, heq⟩
      rw [hleft.registers index hindex hfree, hright.registers index hindex fun call hmem =>
        hfree call ((hsame.mem_iff call).mpr hmem)]

/-! ### The calls on a thread -/

theorem configureWatchpoint_of_valid {slot bytes : Nat} {address : Address}
    {watchAccess : WatchAccess} (hvalid : (SlotCall.configure slot address watchAccess bytes).Valid) :
    ∃ plan, X86_64.configureWatchpoint slot address watchAccess bytes = .ok plan ∧
      ∀ debug, applyWrites (plan.writes debug) debug
        = (SlotCall.configure slot address watchAccess bytes).change debug := by
  obtain ⟨hslot, hbytes, haligned⟩ := hvalid
  have hlength : ∃ length, watchLength bytes = some length := by
    rcases hbytes with rfl | rfl | rfl | rfl <;> exact ⟨_, rfl⟩
  obtain ⟨length, hlength⟩ := hlength
  rw [X86_64.configureWatchpoint, if_neg (by omega), hlength]
  dsimp only
  rw [if_neg (by simpa using haligned)]
  refine ⟨_, rfl, fun debug => ?_⟩
  rw [SlotCall.change, conditionBits, hlength]
  rfl

theorem configureWatchpoint_of_not_valid {slot bytes : Nat} {address : Address}
    {watchAccess : WatchAccess}
    (hvalid : ¬ (SlotCall.configure slot address watchAccess bytes).Valid) :
    ∃ text, X86_64.configureWatchpoint slot address watchAccess bytes = .error text := by
  unfold X86_64.configureWatchpoint
  by_cases hslot : 4 ≤ slot
  · exact ⟨_, if_pos hslot⟩
  · rw [if_neg hslot]
    cases hlength : watchLength bytes with
    | none => exact ⟨_, rfl⟩
    | some length =>
        have hbytes : bytes = 1 ∨ bytes = 2 ∨ bytes = 4 ∨ bytes = 8 := by
          unfold watchLength at hlength
          split at hlength
          all_goals first | omega | cases hlength
        have haligned : address.toNat % bytes ≠ 0 :=
          fun haligned => hvalid ⟨by omega, hbytes, haligned⟩
        exact ⟨_, if_pos haligned⟩

/-- A call with such a slot, size or address fails before the first request. -/
theorem SlotCall.run_of_not_valid {call : SlotCall} (hvalid : ¬ call.Valid)
    (env : Environment UserRegs DebugRegisters) (tid : Tid)
    (s : State UserRegs DebugRegisters) : endState (call.run env tid) s = s := by
  cases call with
  | configure slot address watchAccess bytes =>
      obtain ⟨text, htext⟩ := configureWatchpoint_of_not_valid hvalid
      have hplan : x86_64.configureWatchpoint slot address watchAccess bytes = .error text := htext
      rw [SlotCall.run, Cosy.configureWatchpoint, hplan]
      rfl
  | clear slot =>
      have hplan : x86_64.clearWatchpoint slot = none := if_pos (Nat.le_of_not_lt hvalid)
      rw [SlotCall.run, Cosy.clearWatchpoint, hplan]
      rfl

theorem SlotCall.run_ok {call : SlotCall} {task : Task UserRegs DebugRegisters}
    (hsteady : env.Steady) (hslot : call.slot < 4) (htask : s.target.tasks.find? tid = some task)
    (hstopped : task.stopped = true) (hrun : call.run env tid s = .ok ⟨⟩ t) :
    call.Valid ∧ t.target.tasks.find? tid = some { task with debug := call.change task.debug } := by
  cases call with
  | configure slot address watchAccess bytes =>
      have hvalid : (SlotCall.configure slot address watchAccess bytes).Valid := by
        by_contra hvalid
        obtain ⟨text, htext⟩ := configureWatchpoint_of_not_valid hvalid
        have hplan : x86_64.configureWatchpoint slot address watchAccess bytes = .error text := htext
        rw [SlotCall.run, Cosy.configureWatchpoint, hplan] at hrun
        cases hrun
      obtain ⟨plan, hplan, hwrites⟩ := configureWatchpoint_of_valid hvalid
      have hplan : x86_64.configureWatchpoint slot address watchAccess bytes = .ok plan := hplan
      rw [SlotCall.run, Cosy.configureWatchpoint, hplan] at hrun
      have hleft := carryOut_ok hsteady htask hstopped hrun
      rw [hwrites] at hleft
      exact ⟨hvalid, hleft⟩
  | clear slot =>
      have hnot : ¬ 4 ≤ slot := Nat.not_le_of_lt hslot
      have hplan := show x86_64.clearWatchpoint slot = _ from if_neg hnot
      rw [SlotCall.run, Cosy.clearWatchpoint, hplan] at hrun
      exact ⟨hslot, carryOut_ok hsteady htask hstopped hrun⟩

/-- Calls that ask for what there is all succeed, when no request fails. -/
theorem runs_ok {calls : List SlotCall} (hreliable : env.Reliable)
    (hvalid : ∀ call ∈ calls, call.Valid) :
    Triple (fun s => s.StoppedThread tid) (calls.forM (SlotCall.run env tid))
      (fun _ s => s.StoppedThread tid) (fun _ _ => False) := by
  refine Triple.forM calls fun call hmem => ?_
  cases call with
  | configure slot address watchAccess bytes =>
      obtain ⟨plan, hplan, -⟩ := configureWatchpoint_of_valid (hvalid _ hmem)
      have hplan : x86_64.configureWatchpoint slot address watchAccess bytes = .ok plan := hplan
      rw [SlotCall.run, Cosy.configureWatchpoint, hplan]
      exact hreliable.carryOut plan
  | clear slot =>
      have hnot : ¬ 4 ≤ slot := Nat.not_le_of_lt (hvalid _ hmem)
      have hplan := show x86_64.clearWatchpoint slot = _ from if_neg hnot
      rw [SlotCall.run, Cosy.clearWatchpoint, hplan]
      exact hreliable.carryOut _

theorem runs_decode {calls : List SlotCall} {task : Task UserRegs DebugRegisters}
    (hsteady : env.Steady) (hslots : ∀ call ∈ calls, call.slot < 4)
    (htask : s.target.tasks.find? tid = some task) (hstopped : task.stopped = true)
    (hrun : (calls.forM (SlotCall.run env tid)) s = .ok ⟨⟩ t) :
    ∃ debug', t.target.tasks.find? tid = some { task with debug := debug' } ∧
      Decodes calls task.debug debug' := by
  induction calls generalizing s task with
  | nil =>
      obtain ⟨-, rfl⟩ := EStateM.Result.ok.inj hrun
      refine ⟨task.debug, htask, ?_, fun _ _ => rfl, fun _ _ _ => rfl⟩
      intro slot call hlast
      cases hlast
  | cons call rest ih =>
      obtain ⟨_, u, hcall, hrest⟩ := of_bind_ok hrun
      obtain ⟨hslot, hslots'⟩ := List.forall_mem_cons.mp hslots
      obtain ⟨hvalid, hleft⟩ := SlotCall.run_ok hsteady hslot htask hstopped hcall
      obtain ⟨debug', hfind, hdecodes⟩ := ih hslots' hleft hstopped hrest
      exact ⟨debug', hfind, (hvalid.decodes task.debug).trans hdecodes hslots⟩

/-- Every list of calls that succeed leaves each slot as the last call on it asks and the rest as it
was, in whatever order the calls on different slots come; a call that is refused changes nothing. -/
theorem debug_control {calls : List SlotCall} {task : Task UserRegs DebugRegisters}
    (hsteady : env.Steady) (hslots : ∀ call ∈ calls, call.slot < 4)
    (htask : s.target.tasks.find? tid = some task) (hstopped : task.stopped = true)
    (hrun : (calls.forM (SlotCall.run env tid)) s = .ok ⟨⟩ t) :
    (∃ debug', t.target.tasks.find? tid = some { task with debug := debug' } ∧
      Decodes calls task.debug debug') ∧
    (∀ calls' u, SameOnEachSlot calls calls' → (calls'.forM (SlotCall.run env tid)) s = .ok ⟨⟩ u →
      u.target.tasks.find? tid = t.target.tasks.find? tid) ∧
    ∀ call : SlotCall, ¬ call.Valid → ∀ u, endState (call.run env tid) u = u := by
  obtain ⟨debug', hfind, hdecodes⟩ := runs_decode hsteady hslots htask hstopped hrun
  refine ⟨⟨debug', hfind, hdecodes⟩, ?_, fun call hvalid u => call.run_of_not_valid hvalid env tid u⟩
  intro calls' u hsame hrun'
  have hslots' : ∀ call ∈ calls', call.slot < 4 :=
    fun call hmem => hslots call ((hsame.mem_iff call).mpr hmem)
  obtain ⟨debug'', hfind', hdecodes'⟩ := runs_decode hsteady hslots' htask hstopped hrun'
  rw [hfind, hfind', hdecodes.unique hdecodes' hsame]

/-- Four calls on three slots. -/
def fourCalls : List SlotCall :=
  [.configure 0 0x1000 .write 4, .configure 1 0x2008 .access 8, .configure 3 0x3001 .read 1, .clear 0]

theorem debug_control_fourCalls :
    ∃ t, (fourCalls.forM (SlotCall.run (nopMachine fun _ => []) 1)) (State.initial 1 (nopTarget 1))
        = .ok ⟨⟩ t ∧
      ∃ debug', t.target.tasks.find? 1 = some { stoppedTask 0x1000 with debug := debug' } ∧
        Decodes fourCalls (stoppedTask 0x1000).debug debug' := by
  have hreliable := nopMachine_calm.reliable
  have hvalid : ∀ call ∈ fourCalls, call.Valid := by
    simp [fourCalls, SlotCall.Valid]
  have hthread : (State.initial 1 (nopTarget 1)).StoppedThread 1 := ⟨stoppedTask 0x1000, rfl, rfl⟩
  obtain ⟨_, t, hrun, -⟩ := (runs_ok hreliable hvalid).exists_ok hthread
  have hslots : ∀ call ∈ fourCalls, call.slot < 4 := by decide
  exact ⟨t, hrun, (debug_control hreliable.steady hslots rfl rfl hrun).1⟩

end X86_64

end Cosy
