import Cosy.Statics

/-!
# Location expressions

What an expression means, and what `evaluate_location` makes of it. The evaluation keeps two flags
next to the stack, from which it decides in the end whether the top is an address or a value; loading
a word sets one of them. Two encodings of the same operator are read by separate branches.
-/

namespace Cosy

open ByteMemory Effect

variable {R D : Type} {arch : Architecture R D} {env : Environment R D} {s : State R D}
  {m : Memory} {regs : R} {tid : Tid} {name : Text}

/-! ### The meaning of an expression -/

/-- The operators that compute an address. -/
inductive LocationOperator where
  /-- `DW_OP_bregx`: the contents of a register with an offset added. -/
  | bregx (number : Nat) (offset : Address)
  /-- `DW_OP_deref`: the word at the address that is on top. -/
  | deref
  /-- `DW_OP_plus_uconst`. -/
  | plusUconst (addend : Address)

/-- An address or, with `DW_OP_stack_value`, a value that is computed; or a register. -/
inductive LocationExpression where
  | computed (operators : List LocationOperator) (isValue : Bool)
  /-- `DW_OP_regN`, or `DW_OP_regx`. -/
  | register (number : Nat) (long : Bool)

/-- What an expression says about a variable. -/
inductive Meaning where
  /-- It is the word at this address. -/
  | location (address : Address)
  | value (value : Address)
  | nothing
  /-- The expression takes something from an empty stack. -/
  | bad

namespace LocationOperator

/-- What the operator does to the stack, its top first. -/
def apply (arch : Architecture R D) (regs : R) (m : Memory) :
    LocationOperator → List Address → Option (List Address)
  | bregx number offset, stack => (registerIn arch regs number).map fun value =>
      (value + offset) :: stack
  | deref, top :: rest => some (word m top :: rest)
  | plusUconst addend, top :: rest => some ((top + addend) :: rest)
  | _, [] => none

def applyAll (arch : Architecture R D) (regs : R) (m : Memory) :
    List LocationOperator → List Address → Option (List Address)
  | [], stack => some stack
  | operator :: rest, stack => (operator.apply arch regs m stack).bind (applyAll arch regs m rest)

def Known (arch : Architecture R D) (regs : R) : LocationOperator → Prop
  | bregx number _ => number < 2 ^ 32 ∧ (registerIn arch regs number).isSome = true
  | _ => True

def isDeref : LocationOperator → Bool
  | deref => true
  | _ => false

/-- The operands as `libdw` lays them out. -/
def encode : LocationOperator → DwarfOp
  | bregx number offset => ⟨dwOpBregx, BitVec.ofNat 64 number, offset⟩
  | deref => ⟨dwOpDeref, 0, 0⟩
  | plusUconst addend => ⟨dwOpPlusUconst, addend, 0⟩

end LocationOperator

namespace LocationExpression

def meaning (arch : Architecture R D) (regs : R) (m : Memory) : LocationExpression → Meaning
  | computed operators isValue =>
      match LocationOperator.applyAll arch regs m operators [] with
      | none => .bad
      | some [] => .nothing
      | some (top :: _) => if isValue then .value top else .location top
  | register number _ =>
      match registerIn arch regs number with
      | none => .nothing
      | some value => .value value

/-- Its registers are those of the backend; the short operators have 32 of them. -/
def Known (arch : Architecture R D) (regs : R) : LocationExpression → Prop
  | computed operators _ => ∀ operator ∈ operators, operator.Known arch regs
  | register number long => (if long then number < 2 ^ 32 else number ≤ 31) ∧
      (registerIn arch regs number).isSome = true

def dereferences : LocationExpression → Bool
  | computed operators _ => operators.any LocationOperator.isDeref
  | register _ _ => false

def encode : LocationExpression → List DwarfOp
  | computed operators isValue =>
      operators.map LocationOperator.encode ++ if isValue then [⟨dwOpStackValue, 0, 0⟩] else []
  | register number long =>
      if long then [⟨dwOpRegx, BitVec.ofNat 64 number, 0⟩] else [⟨dwOpReg0 + number, 0, 0⟩]

end LocationExpression

/-- What is to be shown of a variable. -/
def Meaning.shown (m : Memory) (name : Text) : Meaning → VariableValue
  | .location address => ⟨name, hex (word m address), true⟩
  | .value content => ⟨name, hex content, true⟩
  | .nothing => ⟨name, "<unavailable>".toList, false⟩
  | .bad => ⟨name, "<bad DWARF expression>".toList, false⟩

/-! ### What is evaluated -/

theorem toUnsigned_ofNat {number : Nat} (hnumber : number < 2 ^ 32) :
    toUnsigned (BitVec.ofNat 64 number) = number := by
  rw [toUnsigned, BitVec.toNat_setWidth, BitVec.toNat_ofNat]
  omega

/-- The state with another stack, if there is one. -/
def LocationState.withStack (state : LocationState) (isDeref : Bool) :
    Option (List Address) → Except Text LocationState
  | none => .error "<bad DWARF expression>".toList
  | some stack => .ok ⟨stack, state.stackValue, state.registerValue || isDeref⟩

theorem operationIn_encode {operator : LocationOperator} (hknown : operator.Known arch regs)
    (state : LocationState) :
    operationIn arch regs m operator.encode state
      = state.withStack operator.isDeref (operator.apply arch regs m state.stack) := by
  cases operator with
  | bregx number offset =>
      obtain ⟨value, hvalue⟩ := Option.isSome_iff_exists.mp hknown.2
      have hpush : operationIn arch regs m (LocationOperator.bregx number offset).encode state
          = pushIn arch regs (toUnsigned (BitVec.ofNat 64 number)) state (· + offset) false := rfl
      rw [hpush, toUnsigned_ofNat hknown.1, pushIn_eq, hvalue, LocationOperator.apply, hvalue]
      rfl
  | deref =>
      obtain ⟨stack, stackValue, registerValue⟩ := state
      cases stack with
      | nil => rfl
      | cons top rest =>
          cases registerValue <;> rfl
  | plusUconst addend =>
      obtain ⟨stack, stackValue, registerValue⟩ := state
      cases stack with
      | nil => rfl
      | cons top rest =>
          cases registerValue <;> rfl

theorem operationsIn_append (first second : List DwarfOp) (state : LocationState) :
    operationsIn arch regs m state (first ++ second)
      = (operationsIn arch regs m state first).bind fun state =>
          operationsIn arch regs m state second := by
  induction first generalizing state with
  | nil => rfl
  | cons operation rest ih =>
      rw [List.cons_append, operationsIn_cons, operationsIn_cons]
      cases operationIn arch regs m operation state with
      | error text => rfl
      | ok state => exact ih state

/-- The operators do to the stack what they mean, and loading a word sets the second flag. -/
theorem operationsIn_encode {operators : List LocationOperator}
    (hknown : ∀ operator ∈ operators, operator.Known arch regs) (state : LocationState) :
    operationsIn arch regs m state (operators.map LocationOperator.encode)
      = state.withStack (operators.any LocationOperator.isDeref)
          (LocationOperator.applyAll arch regs m operators state.stack) := by
  induction operators generalizing state with
  | nil =>
      cases state with
      | mk stack stackValue registerValue => cases registerValue <;> rfl
  | cons operator rest ih =>
      rw [List.map_cons, operationsIn_cons, operationIn_encode (hknown operator List.mem_cons_self),
        LocationOperator.applyAll]
      cases operator.apply arch regs m state.stack with
      | none => rfl
      | some stack =>
          have hrest := ih (fun other hmem => hknown other (List.mem_cons_of_mem _ hmem))
            ⟨stack, state.stackValue, state.registerValue || operator.isDeref⟩
          rw [LocationState.withStack, Option.bind_some]
          dsimp only
          rw [hrest]
          cases LocationOperator.applyAll arch regs m rest stack with
          | none => rfl
          | some stack =>
              rw [LocationState.withStack, LocationState.withStack, List.any_cons, Bool.or_assoc]

theorem locationIn_computed {operators : List LocationOperator}
    (hknown : ∀ operator ∈ operators, operator.Known arch regs) (isValue : Bool) :
    locationIn arch regs m name (LocationExpression.computed operators isValue).encode
      = shownAfter m name (LocationState.withStack ⟨[], isValue, false⟩
          (operators.any LocationOperator.isDeref)
          (LocationOperator.applyAll arch regs m operators [])) := by
  rw [locationIn_eq, LocationExpression.encode, operationsIn_append, operationsIn_encode hknown]
  cases LocationOperator.applyAll arch regs m operators [] with
  | none => rfl
  | some stack => cases isValue <;> rfl

/-- The operators `DW_OP_reg0` to `DW_OP_reg31`. -/
theorem shortRegister_atom {number : Nat} (hnumber : number ≤ 31) :
    ¬ dwOpReg0 + number = dwOpAddr ∧
      dwOpReg0 ≤ dwOpReg0 + number ∧ dwOpReg0 + number ≤ dwOpReg31 := by
  simp only [dwOpReg0, dwOpAddr, dwOpReg31]
  omega

section With

variable {M : Type → Type} [Monad M] (arch : Architecture R D) (regs : M R)
  (read : Address → M Address)

theorem evaluateOperationWith_shortRegister {number : Nat} (hnumber : number ≤ 31)
    (operand operand2 : Address) (state : LocationState) :
    evaluateOperationWith arch regs read ⟨dwOpReg0 + number, operand, operand2⟩ state
      = pushRegisterWith arch regs number state id true := by
  obtain ⟨haddr, hrange⟩ := shortRegister_atom hnumber
  rw [evaluateOperationWith, if_neg haddr, if_pos hrange, Nat.add_sub_cancel_left]

theorem evaluateOperationWith_longRegister {number : Nat} (hnumber : number < 2 ^ 32)
    (operand2 : Address) (state : LocationState) :
    evaluateOperationWith arch regs read ⟨dwOpRegx, BitVec.ofNat 64 number, operand2⟩ state
      = pushRegisterWith arch regs number state id true := by
  have hread : evaluateOperationWith arch regs read ⟨dwOpRegx, BitVec.ofNat 64 number, operand2⟩ state
      = pushRegisterWith arch regs (toUnsigned (BitVec.ofNat 64 number)) state id true := rfl
  rw [hread, toUnsigned_ofNat hnumber]

/-- An operator may be replaced by one that does the same. -/
theorem evaluateOperationsWith_replace {operation operation' : DwarfOp}
    (hsame : ∀ state, evaluateOperationWith arch regs read operation state
      = evaluateOperationWith arch regs read operation' state)
    (before later : List DwarfOp) (state : LocationState) :
    evaluateOperationsWith arch regs read state (before ++ operation :: later)
      = evaluateOperationsWith arch regs read state (before ++ operation' :: later) := by
  induction before generalizing state with
  | nil => rw [List.nil_append, List.nil_append, evaluateOperationsWith, evaluateOperationsWith, hsame]
  | cons first rest ih =>
      rw [List.cons_append, List.cons_append, evaluateOperationsWith, evaluateOperationsWith]
      refine congrArg (evaluateOperationWith arch regs read first state >>= ·) ?_
      funext result
      cases result with
      | error text => rfl
      | ok next => exact ih next

end With

theorem operationIn_shortRegister {number : Nat} (hnumber : number ≤ 31) (operand operand2 : Address)
    (state : LocationState) :
    operationIn arch regs m ⟨dwOpReg0 + number, operand, operand2⟩ state
      = pushIn arch regs number state id true :=
  evaluateOperationWith_shortRegister (M := Id) arch (pure regs) (fun x => pure (word m x)) hnumber
    operand operand2 state

theorem operationIn_longRegister {number : Nat} (hnumber : number < 2 ^ 32) (operand2 : Address)
    (state : LocationState) :
    operationIn arch regs m ⟨dwOpRegx, BitVec.ofNat 64 number, operand2⟩ state
      = pushIn arch regs number state id true :=
  evaluateOperationWith_longRegister (M := Id) arch (pure regs) (fun x => pure (word m x)) hnumber
    operand2 state

theorem locationIn_register {number : Nat} {long : Bool}
    (hknown : (LocationExpression.register number long).Known arch regs) :
    locationIn arch regs m name (LocationExpression.register number long).encode
      = ((LocationExpression.register number long).meaning arch regs m).shown m name := by
  obtain ⟨hnumber, hvalue⟩ := hknown
  obtain ⟨value, hvalue⟩ := Option.isSome_iff_exists.mp hvalue
  have hpush : operationsIn arch regs m ⟨[], false, false⟩
      (LocationExpression.register number long).encode = .ok ⟨[value], false, true⟩ := by
    cases long with
    | true =>
        rw [LocationExpression.encode, if_pos rfl, operationsIn_cons, operationIn_longRegister hnumber,
          pushIn_eq, hvalue]
        rfl
    | false =>
        rw [LocationExpression.encode, if_neg Bool.false_ne_true, operationsIn_cons,
          operationIn_shortRegister hnumber, pushIn_eq, hvalue]
        rfl
  rw [locationIn_eq, hpush, LocationExpression.meaning, hvalue]
  rfl

/-- An expression is shown as what it means exactly when it loads no word, or has a final
`DW_OP_stack_value`, or the variable happens to hold its own address. -/
theorem evaluateLocation_agrees_iff (henv : env.WritesNothing) (hreliable : env.Reliable)
    (hs : Inspecting s m tid regs s) (name : Text) {expression : LocationExpression}
    (hknown : expression.Known arch regs) :
    (∃ t, evaluateLocation arch env name expression.encode tid s
        = .ok ((expression.meaning arch regs m).shown m name) t) ↔
      (expression.dereferences = true →
        ∀ address, expression.meaning arch regs m = .location address → word m address = address) := by
  rw [(finds_evaluateLocation henv hreliable name expression.encode).ok_iff hs]
  cases expression with
  | register number long =>
      exact iff_of_true (locationIn_register hknown) fun hfalse => absurd hfalse Bool.false_ne_true
  | computed operators isValue =>
      rw [locationIn_computed hknown, LocationExpression.meaning, LocationExpression.dereferences]
      cases LocationOperator.applyAll arch regs m operators [] with
      | none => exact iff_of_true rfl fun _ _ hbad => Meaning.noConfusion hbad
      | some stack =>
          cases stack with
          | nil => exact iff_of_true rfl fun _ _ hnothing => Meaning.noConfusion hnothing
          | cons top rest =>
              cases isValue with
              | true => exact iff_of_true rfl fun _ _ hvalue => Meaning.noConfusion hvalue
              | false =>
                  cases operators.any LocationOperator.isDeref with
                  | false => exact iff_of_true rfl fun hfalse => absurd hfalse Bool.false_ne_true
                  | true =>
                      constructor
                      · intro hshown _ address haddress
                        obtain rfl := Meaning.location.inj haddress
                        exact (hex_injective (congrArg VariableValue.value hshown)).symm
                      · intro hsame
                        have htop := congrArg hex (hsame rfl top rfl)
                        exact congrArg (fun text => VariableValue.mk name text true) htop.symm

/-! ### A variable in the frame, and one behind a pointer -/

theorem inspecting_staticState :
    Inspecting (staticState 0) (staticState 0).target.memory 1 (.startingAt 0x1000) (staticState 0) :=
  ⟨Requested.refl _, ⟨_, rfl, rfl⟩, _, rfl, rfl, rfl⟩

/-- An expression without a load. -/
theorem evaluateLocation_agrees_frame :
    ∃ t, evaluateLocation x86_64 (nopMachine fun _ => []) "v".toList
      (LocationExpression.computed [.bregx 7 0x4000, .plusUconst 0x10] false).encode 1 (staticState 0)
        = .ok ⟨"v".toList, hex 42, true⟩ t := by
  have hknown : (LocationExpression.computed [.bregx 7 0x4000, .plusUconst 0x10] false).Known x86_64
      (.startingAt 0x1000) :=
    List.forall_mem_cons.mpr ⟨⟨by decide, rfl⟩, List.forall_mem_singleton.mpr trivial⟩
  exact (evaluateLocation_agrees_iff nopMachine_atomic.still (Machine.reliable fun _ => rfl)
    inspecting_staticState "v".toList hknown).mpr fun hfalse => absurd hfalse Bool.false_ne_true

/-- The word at `0x4010` is 42, and the word at 42 is 0. The variable is shown as 42. -/
theorem pointer_shown :
    (LocationExpression.computed [.bregx 7 0x4010, .deref] false).meaning x86_64 (.startingAt 0x1000)
        (staticState 0).target.memory = .location 42 ∧
      word (staticState 0).target.memory 42 = 0 ∧
      ¬ ∃ t, evaluateLocation x86_64 (nopMachine fun _ => []) "v".toList
        (LocationExpression.computed [.bregx 7 0x4010, .deref] false).encode 1 (staticState 0)
          = .ok ⟨"v".toList, hex 0, true⟩ t := by
  refine ⟨rfl, rfl, ?_⟩
  rw [(finds_evaluateLocation nopMachine_atomic.still (Machine.reliable fun _ => rfl) "v".toList
    (LocationExpression.computed [.bregx 7 0x4010, .deref] false).encode).ok_iff
      inspecting_staticState]
  intro hshown
  have hvalue : hex 42 = hex 0 := congrArg VariableValue.value hshown
  exact absurd (hex_injective hvalue) (by decide)

/-! ### The operators that leave the stack as deep as it is -/

namespace DwarfOp

/-- It changes the top of the stack, if anything. -/
def keepsDepth (operation : DwarfOp) : Bool :=
  operation.atom = dwOpDeref || operation.atom = dwOpPlusUconst || operation.atom = dwOpStackValue

/-- What it makes of the top of the stack. -/
def onTop (m : Memory) (operation : DwarfOp) (top : Address) : Address :=
  if operation.atom = dwOpDeref then word m top
  else if operation.atom = dwOpPlusUconst then top + operation.number
  else top

end DwarfOp

/-- The top of the stack after such operators. -/
def topAfter (m : Memory) (operations : List DwarfOp) (top : Address) : Address :=
  operations.foldl (fun top operation => operation.onTop m top) top

/-- The two stacks have the same top, whatever is below. -/
structure SameTop (state state' : LocationState) : Prop where
  stack : ∃ top rest rest', state.stack = top :: rest ∧ state'.stack = top :: rest'
  stackValue : state'.stackValue = state.stackValue
  registerValue : state'.registerValue = state.registerValue

theorem operationIn_keepsDepth {operation : DwarfOp} (hkeeps : operation.keepsDepth = true)
    (top : Address) (rest : List Address) (stackValue registerValue : Bool) :
    operationIn arch regs m operation ⟨top :: rest, stackValue, registerValue⟩
      = .ok ⟨operation.onTop m top :: rest, stackValue || operation.atom = dwOpStackValue,
          registerValue || operation.atom = dwOpDeref⟩ := by
  obtain ⟨atom, number, number2⟩ := operation
  simp only [DwarfOp.keepsDepth, Bool.or_eq_true, decide_eq_true_eq] at hkeeps
  rcases hkeeps with (rfl | rfl) | rfl
  all_goals cases stackValue <;> cases registerValue <;> rfl

theorem pushIn_sameTop {state state' : LocationState} (hvalue : state'.stackValue = state.stackValue)
    (hregister : state'.registerValue = state.registerValue) (number : Nat)
    (change : Address → Address) (isValue : Bool) :
    (∃ text, pushIn arch regs number state change isValue = .error text ∧
        pushIn arch regs number state' change isValue = .error text) ∨
      ∃ next next', pushIn arch regs number state change isValue = .ok next ∧
        pushIn arch regs number state' change isValue = .ok next' ∧ SameTop next next' := by
  rw [pushIn_eq, pushIn_eq]
  cases registerIn arch regs number with
  | none => exact Or.inl ⟨_, rfl, rfl⟩
  | some value =>
      refine Or.inr ⟨_, _, rfl, rfl, ⟨_, _, _, rfl, rfl⟩, hvalue, ?_⟩
      dsimp only
      rw [hregister]

variable (arch m regs) in
/-- Any other operator looks at nothing that is on the stack. -/
theorem operationIn_sameTop {operation : DwarfOp} (hpushes : operation.keepsDepth = false)
    (state state' : LocationState) (hvalue : state'.stackValue = state.stackValue)
    (hregister : state'.registerValue = state.registerValue) :
    (∃ text, operationIn arch regs m operation state = .error text ∧
        operationIn arch regs m operation state' = .error text) ∨
      ∃ next next', operationIn arch regs m operation state = .ok next ∧
        operationIn arch regs m operation state' = .ok next' ∧ SameTop next next' := by
  simp only [DwarfOp.keepsDepth, Bool.or_eq_false_iff, decide_eq_false_iff_not] at hpushes
  obtain ⟨⟨hderef, hplus⟩, hstackValue⟩ := hpushes
  have hpush : ∀ top, SameTop (state.push top) (state'.push top) := fun top =>
    ⟨⟨top, state.stack, state'.stack, rfl, rfl⟩, hvalue, hregister⟩
  unfold operationIn evaluateOperationWith
  rw [if_neg hderef, if_neg hplus, if_neg hstackValue, if_neg hderef, if_neg hplus,
    if_neg hstackValue]
  split
  · exact Or.inr ⟨_, _, rfl, rfl, hpush _⟩
  split
  · exact pushIn_sameTop hvalue hregister _ _ _
  split
  · exact pushIn_sameTop hvalue hregister _ _ _
  split
  · exact pushIn_sameTop hvalue hregister _ _ _
  split
  · exact pushIn_sameTop hvalue hregister _ _ _
  split
  · exact Or.inr ⟨_, _, rfl, rfl, hpush _⟩
  · exact Or.inl ⟨_, rfl, rfl⟩

/-- What is below the top never shows. -/
theorem shownAfter_sameTop (operations : List DwarfOp) {state state' : LocationState}
    (hsame : SameTop state state') :
    shownAfter m name (operationsIn arch regs m state operations)
      = shownAfter m name (operationsIn arch regs m state' operations) := by
  induction operations generalizing state state' with
  | nil =>
      obtain ⟨stack, stackValue, registerValue⟩ := state
      obtain ⟨stack', stackValue', registerValue'⟩ := state'
      obtain ⟨⟨top, rest, rest', rfl, rfl⟩, rfl, rfl⟩ := hsame
      rfl
  | cons operation others ih =>
      rw [operationsIn_cons, operationsIn_cons]
      cases hkeeps : operation.keepsDepth with
      | true =>
          obtain ⟨stack, stackValue, registerValue⟩ := state
          obtain ⟨stack', stackValue', registerValue'⟩ := state'
          obtain ⟨⟨top, rest, rest', rfl, rfl⟩, rfl, rfl⟩ := hsame
          rw [operationIn_keepsDepth hkeeps, operationIn_keepsDepth hkeeps]
          exact ih ⟨⟨_, _, _, rfl, rfl⟩, rfl, rfl⟩
      | false =>
          rcases operationIn_sameTop arch m regs hkeeps _ _ hsame.stackValue hsame.registerValue with
            ⟨text, hrun, hrun'⟩ | ⟨next, next', hrun, hrun', hnext⟩
          · rw [hrun, hrun']
          · rw [hrun, hrun']
            exact ih hnext

/-- Nor does the top itself, once something else has been pushed. -/
theorem shownAfter_pushes {operations : List DwarfOp}
    (hpushes : operations.all DwarfOp.keepsDepth = false) (top top' : Address) (rest : List Address)
    (stackValue registerValue : Bool) :
    shownAfter m name
        (operationsIn arch regs m ⟨top :: rest, stackValue, registerValue⟩ operations)
      = shownAfter m name
        (operationsIn arch regs m ⟨top' :: rest, stackValue, registerValue⟩ operations) := by
  induction operations generalizing top top' stackValue registerValue with
  | nil => cases hpushes
  | cons operation others ih =>
      rw [operationsIn_cons, operationsIn_cons]
      cases hkeeps : operation.keepsDepth with
      | true =>
          rw [List.all_cons, hkeeps, Bool.true_and] at hpushes
          rw [operationIn_keepsDepth hkeeps, operationIn_keepsDepth hkeeps]
          exact ih hpushes _ _ _ _
      | false =>
          rcases operationIn_sameTop arch m regs hkeeps ⟨top :: rest, stackValue, registerValue⟩
              ⟨top' :: rest, stackValue, registerValue⟩ rfl rfl with
            ⟨text, hrun, hrun'⟩ | ⟨next, next', hrun, hrun', hnext⟩
          · rw [hrun, hrun']
          · rw [hrun, hrun']
            exact shownAfter_sameTop others hnext

theorem operationsIn_keepsDepth {operations : List DwarfOp}
    (hkeeps : operations.all DwarfOp.keepsDepth = true) (top : Address) (rest : List Address)
    (stackValue registerValue : Bool) :
    operationsIn arch regs m ⟨top :: rest, stackValue, registerValue⟩ operations
      = .ok ⟨topAfter m operations top :: rest,
          stackValue || operations.any (fun operation => operation.atom = dwOpStackValue),
          registerValue || operations.any (fun operation => operation.atom = dwOpDeref)⟩ := by
  induction operations generalizing top stackValue registerValue with
  | nil => cases stackValue <;> cases registerValue <;> rfl
  | cons operation others ih =>
      rw [List.all_cons, Bool.and_eq_true] at hkeeps
      rw [operationsIn_cons, operationIn_keepsDepth hkeeps.1, List.any_cons, List.any_cons,
        ← Bool.or_assoc, ← Bool.or_assoc]
      exact ih hkeeps.2 _ _ _

/-! ### Two encodings of one operator -/

namespace DwarfOp

/-- `DW_OP_regN`. -/
def regN (number : Nat) : DwarfOp := ⟨dwOpReg0 + number, 0, 0⟩

/-- `DW_OP_regx N`. -/
def regx (number : Nat) : DwarfOp := ⟨dwOpRegx, BitVec.ofNat 64 number, 0⟩

/-- `DW_OP_bregN`, the offset being the first operand. -/
def bregN (number : Nat) (offset : Address) : DwarfOp := ⟨dwOpBreg0 + number, offset, 0⟩

/-- `DW_OP_bregx N`, with the offset as the second operand. -/
def bregx (number : Nat) (offset : Address) : DwarfOp :=
  ⟨dwOpBregx, BitVec.ofNat 64 number, offset⟩

end DwarfOp

/-- The two encodings of an operator without an offset. -/
theorem evaluateOperationWith_regN {M : Type → Type} [Monad M] (arch : Architecture R D) (regs : M R)
    (read : Address → M Address) {number : Nat} (hnumber : number ≤ 31) (state : LocationState) :
    evaluateOperationWith arch regs read (.regN number) state
      = evaluateOperationWith arch regs read (.regx number) state := by
  rw [DwarfOp.regN, DwarfOp.regx, evaluateOperationWith_shortRegister arch regs read hnumber,
    evaluateOperationWith_longRegister arch regs read (by omega)]

theorem operationIn_bregN {number : Nat} (hnumber : number ≤ 31) (offset : Address)
    (state : LocationState) :
    operationIn arch regs m (.bregN number offset) state = pushIn arch regs number state (· + 0) false := by
  have haddr : ¬ dwOpBreg0 + number = dwOpAddr := by
    simp only [dwOpBreg0, dwOpAddr]
    omega
  have hreg : ¬ (dwOpReg0 ≤ dwOpBreg0 + number ∧ dwOpBreg0 + number ≤ dwOpReg31) := by
    simp only [dwOpReg0, dwOpBreg0, dwOpReg31]
    omega
  have hregx : ¬ dwOpBreg0 + number = dwOpRegx := by
    simp only [dwOpBreg0, dwOpRegx]
    omega
  have hrange : dwOpBreg0 ≤ dwOpBreg0 + number ∧ dwOpBreg0 + number ≤ dwOpBreg31 := by
    simp only [dwOpBreg0, dwOpBreg31]
    omega
  rw [DwarfOp.bregN, operationIn, evaluateOperationWith, if_neg haddr, if_neg hreg, if_neg hregx,
    if_pos hrange, Nat.add_sub_cancel_left]
  rfl

theorem operationIn_bregx {number : Nat} (hnumber : number ≤ 31) (offset : Address)
    (state : LocationState) :
    operationIn arch regs m (.bregx number offset) state
      = pushIn arch regs number state (· + offset) false := by
  have hlong : operationIn arch regs m (.bregx number offset) state
      = pushIn arch regs (toUnsigned (BitVec.ofNat 64 number)) state (· + offset) false := rfl
  rw [hlong, toUnsigned_ofNat (by omega)]

/-- Where the evaluation ends that has this value on top and these operators before it. -/
def LocationState.endsAt (m : Memory) (state : LocationState) (operations : List DwarfOp)
    (top : Address) : Address :=
  if (state.stackValue || operations.any fun operation => operation.atom = dwOpStackValue) ||
      (state.registerValue || operations.any fun operation => operation.atom = dwOpDeref)
  then topAfter m operations top
  else word m (topAfter m operations top)

theorem shownAfter_endsAt {operations : List DwarfOp}
    (hkeeps : operations.all DwarfOp.keepsDepth = true) (state : LocationState) (top : Address) :
    shownAfter m name (operationsIn arch regs m (state.push top) operations)
      = ⟨name, hex (state.endsAt m operations top), true⟩ := by
  obtain ⟨stack, stackValue, registerValue⟩ := state
  rw [LocationState.push, operationsIn_keepsDepth hkeeps, shownAfter, LocationState.endsAt]

theorem pushIn_address {number : Nat} {value : Address}
    (hvalue : registerIn arch regs number = some value) (state : LocationState)
    (change : Address → Address) :
    pushIn arch regs number state change false = .ok (state.push (change value)) := by
  rw [pushIn_eq, hvalue]
  dsimp only
  rw [Bool.or_false]
  rfl

variable (name) in
/-- The two encodings of an operator with an offset are shown alike exactly when the rest of the
expression does not tell the register from the sum of the register and the offset. -/
theorem locationIn_bregN_iff {number : Nat} (hnumber : number ≤ 31) (offset : Address)
    (before later : List DwarfOp) :
    locationIn arch regs m name (before ++ .bregN number offset :: later)
        = locationIn arch regs m name (before ++ .bregx number offset :: later) ↔
      ∀ state value, operationsIn arch regs m ⟨[], false, false⟩ before = .ok state →
        registerIn arch regs number = some value → later.all DwarfOp.keepsDepth = true →
          state.endsAt m later value = state.endsAt m later (value + offset) := by
  rw [locationIn_eq, locationIn_eq, operationsIn_append, operationsIn_append]
  cases operationsIn arch regs m ⟨[], false, false⟩ before with
  | error text =>
      refine iff_of_true rfl fun state value hfalse => ?_
      cases hfalse
  | ok state =>
      dsimp only [Except.bind]
      rw [operationsIn_cons, operationsIn_cons, operationIn_bregN hnumber, operationIn_bregx hnumber]
      cases hvalue : registerIn arch regs number with
      | none =>
          refine iff_of_true ?_ fun state value _ hfalse => ?_
          · rw [pushIn_eq, pushIn_eq, hvalue]
          · cases hfalse
      | some value =>
          have hzero : value + 0 = value := BitVec.add_zero value
          rw [pushIn_address hvalue, pushIn_address hvalue, hzero]
          dsimp only
          cases hkeeps : later.all DwarfOp.keepsDepth with
          | false =>
              refine iff_of_true (shownAfter_pushes hkeeps _ _ _ _ _) fun state value _ _ hfalse => ?_
              cases hfalse
          | true =>
              rw [shownAfter_endsAt hkeeps, shownAfter_endsAt hkeeps]
              constructor
              · rintro hshown _ _ ⟨⟩ ⟨⟩ -
                exact hex_injective (congrArg VariableValue.value hshown)
              · intro hends
                rw [hends state value rfl rfl rfl]

/-- Both encodings of the two register operators: those without an offset always agree. -/
theorem encodings_agree_iff (henv : env.WritesNothing) (hreliable : env.Reliable)
    (hs : Inspecting s m tid regs s) (name : Text) {number : Nat} (hnumber : number ≤ 31)
    (offset : Address) (before later : List DwarfOp) :
    evaluateLocation arch env name (before ++ .regN number :: later) tid
        = evaluateLocation arch env name (before ++ .regx number :: later) tid ∧
      ((∃ shown t t',
          evaluateLocation arch env name (before ++ .bregN number offset :: later) tid s
            = .ok shown t ∧
          evaluateLocation arch env name (before ++ .bregx number offset :: later) tid s
            = .ok shown t') ↔
        ∀ state value, operationsIn arch regs m ⟨[], false, false⟩ before = .ok state →
          registerIn arch regs number = some value → later.all DwarfOp.keepsDepth = true →
            state.endsAt m later value = state.endsAt m later (value + offset)) := by
  constructor
  · unfold evaluateLocation evaluateLocationWith
    rw [evaluateOperationsWith_replace arch _ _ (evaluateOperationWith_regN arch _ _ hnumber)]
  · rw [← locationIn_bregN_iff name hnumber offset before later]
    have hfinds : ∀ operations, Finds (Inspecting s m tid regs)
        (evaluateLocation arch env name operations tid) (locationIn arch regs m name operations) :=
      finds_evaluateLocation henv hreliable name
    constructor
    · rintro ⟨shown, t, t', hrun, hrun'⟩
      have hshort := ((hfinds _).ok_iff hs).mp ⟨t, hrun⟩
      have hlong := ((hfinds _).ok_iff hs).mp ⟨t', hrun'⟩
      exact hshort.trans hlong.symm
    · intro hsame
      obtain ⟨t, hrun, -⟩ := hfinds (before ++ .bregN number offset :: later) s hs
      obtain ⟨t', hrun', -⟩ := hfinds (before ++ .bregx number offset :: later) s hs
      exact ⟨_, t, t', hrun, hsame ▸ hrun'⟩

/-- An offset that does not show: an address is pushed after it. -/
theorem encodings_agree_covered :
    ∃ shown t t',
      evaluateLocation x86_64 (nopMachine fun _ => []) "v".toList
          [.bregN 6 0x10, ⟨dwOpAddr, 0x4010, 0⟩] 1 (staticState 0) = .ok shown t ∧
        evaluateLocation x86_64 (nopMachine fun _ => []) "v".toList
          [.bregx 6 0x10, ⟨dwOpAddr, 0x4010, 0⟩] 1 (staticState 0) = .ok shown t' := by
  refine (encodings_agree_iff nopMachine_atomic.still (Machine.reliable fun _ => rfl)
    inspecting_staticState "v".toList (show 6 ≤ 31 by decide) 0x10 [] [⟨dwOpAddr, 0x4010, 0⟩]).2.mpr ?_
  intro state value _ _ hfalse
  cases hfalse

/-- A variable at an offset from the frame pointer: the short operator leaves the offset out. -/
theorem offset_left_out :
    ¬ ∃ shown t t',
      evaluateLocation x86_64 (nopMachine fun _ => []) "v".toList [.bregN 6 0x4010] 1 (staticState 0)
          = .ok shown t ∧
        evaluateLocation x86_64 (nopMachine fun _ => []) "v".toList [.bregx 6 0x4010] 1 (staticState 0)
          = .ok shown t' := by
  have hfinds : ∀ operations, Finds
      (Inspecting (staticState 0) (staticState 0).target.memory 1 (.startingAt 0x1000))
      (evaluateLocation x86_64 (nopMachine fun _ => []) "v".toList operations 1)
      (locationIn x86_64 (.startingAt 0x1000) (staticState 0).target.memory "v".toList operations) :=
    finds_evaluateLocation nopMachine_atomic.still (Machine.reliable fun _ => rfl) "v".toList
  rintro ⟨shown, t, t', hrun, hrun'⟩
  have hshort := ((hfinds _).ok_iff inspecting_staticState).mp ⟨t, hrun⟩
  have hlong := ((hfinds _).ok_iff inspecting_staticState).mp ⟨t', hrun'⟩
  have hvalue : hex 0 = hex 42 := congrArg VariableValue.value (hshort.trans hlong.symm)
  exact absurd (hex_injective hvalue) (by decide)

end Cosy
