import Cosy.Execution
import Cosy.Lib.Parallel

/-!
# Local variables

The evaluation of DWARF location expressions and the search for the variables in scope, as
`ModuleManager::locals` does them. The registers of the thread and the function that reads a word are
parameters, in whatever monad these work; the debugger asks its target.
-/

namespace Cosy

open Effect Parallel

/-! ### Location expressions -/

def dwOpAddr : Nat := 0x03
def dwOpDeref : Nat := 0x06
def dwOpPlusUconst : Nat := 0x23
def dwOpReg0 : Nat := 0x50
def dwOpReg31 : Nat := 0x6f
def dwOpBreg0 : Nat := 0x70
def dwOpBreg31 : Nat := 0x8f
def dwOpRegx : Nat := 0x90
def dwOpFbreg : Nat := 0x91
def dwOpBregx : Nat := 0x92
def dwOpStackValue : Nat := 0x9f

/-- What the evaluation of a location has reached: the stack, its top first, and two flags. -/
structure LocationState where
  stack : List Address
  stackValue : Bool
  registerValue : Bool

def LocationState.push (state : LocationState) (value : Address) : LocationState :=
  { state with stack := value :: state.stack }

section With

variable {R D : Type} {M : Type → Type} [Monad M] (arch : Architecture R D) (regs : M R)
  (read : Address → M Address)

def dwarfRegisterWith (number : Nat) : M (Option Address) :=
  match arch.dwarfRegister number with
  | none => pure none
  | some select => do
      let regs ← regs
      pure (select regs)

def framePointerWith : M Address := do
  let regs ← regs
  pure (arch.framePointer regs)

/-- A register of the thread, changed by `change`, goes on the stack. -/
def pushRegisterWith (number : Nat) (state : LocationState) (change : Address → Address)
    (isValue : Bool) : M (Except Text LocationState) := do
  match ← dwarfRegisterWith arch regs number with
  | none => pure (.error "<unknown register>".toList)
  | some value =>
      pure (.ok { state.push (change value) with registerValue := state.registerValue || isValue })

/-- One operation; an error is the text the variable is shown with. -/
def evaluateOperationWith (operation : DwarfOp) (state : LocationState) :
    M (Except Text LocationState) :=
  if operation.atom = dwOpAddr then pure (.ok (state.push operation.number))
  else if dwOpReg0 ≤ operation.atom ∧ operation.atom ≤ dwOpReg31 then
    pushRegisterWith arch regs (operation.atom - dwOpReg0) state id true
  else if operation.atom = dwOpRegx then
    pushRegisterWith arch regs (toUnsigned operation.number) state id true
  else if dwOpBreg0 ≤ operation.atom ∧ operation.atom ≤ dwOpBreg31 then
    pushRegisterWith arch regs (operation.atom - dwOpBreg0) state (· + operation.number2) false
  else if operation.atom = dwOpBregx then
    pushRegisterWith arch regs (toUnsigned operation.number) state (· + operation.number2) false
  else if operation.atom = dwOpFbreg then do
    let frame ← framePointerWith arch regs
    pure (.ok (state.push (frame + 16 + operation.number)))
  else if operation.atom = dwOpDeref then
    match state.stack with
    | [] => pure (.error "<bad DWARF expression>".toList)
    | top :: rest => do
        let value ← read top
        pure (.ok { state with stack := value :: rest, registerValue := true })
  else if operation.atom = dwOpPlusUconst then
    match state.stack with
    | [] => pure (.error "<bad DWARF expression>".toList)
    | top :: rest => pure (.ok { state with stack := (top + operation.number) :: rest })
  else if operation.atom = dwOpStackValue then pure (.ok { state with stackValue := true })
  else pure (.error "<unsupported DWARF expression>".toList)

def evaluateOperationsWith (state : LocationState) : List DwarfOp → M (Except Text LocationState)
  | [] => pure (.ok state)
  | operation :: rest => do
      match ← evaluateOperationWith arch regs read operation state with
      | .error text => pure (.error text)
      | .ok state => evaluateOperationsWith state rest

def evaluateLocationWith (name : Text) (operations : List DwarfOp) : M VariableValue := do
  match ← evaluateOperationsWith arch regs read ⟨[], false, false⟩ operations with
  | .error text => pure ⟨name, text, false⟩
  | .ok state =>
      match state.stack with
      | [] => pure ⟨name, "<unavailable>".toList, false⟩
      | top :: _ =>
          if !state.stackValue && !state.registerValue then do
            let value ← read top
            pure ⟨name, hex value, true⟩
          else pure ⟨name, hex top, true⟩

end With

/-! ### Variables in scope -/

def dwTagFormalParameter : Nat := 0x05
def dwTagVariable : Nat := 0x34

section With

variable {R D : Type} {M : Type → Type} [Monad M] (arch : Architecture R D) (regs : M R)
  (read : Address → M Address)

def evaluateEntryWith (name : Text) (location : EntryLocation) : M VariableValue :=
  match location with
  | .missing => pure ⟨name, "<no location>".toList, false⟩
  | .undecodable => pure ⟨name, "<optimized out>".toList, false⟩
  | .operations operations => evaluateLocationWith arch regs read name operations

/-- The entries of all scopes in order; `names` are the variables already found. -/
def localsWith (names : List Text) : List ScopeEntry → M (List VariableValue)
  | [] => pure []
  | entry :: rest =>
      match entry.name with
      | some name =>
          if (entry.tag = dwTagVariable ∨ entry.tag = dwTagFormalParameter) ∧ name ∉ names then do
            let value ← evaluateEntryWith arch regs read name entry.location
            let values ← localsWith (name :: names) rest
            pure (value :: values)
          else localsWith names rest
      | none => localsWith names rest

variable {arch regs read} {names : List Text} {entry : ScopeEntry} {rest : List ScopeEntry}

theorem localsWith_cons_of_new {name : Text} (hname : entry.name = some name)
    (htag : entry.tag = dwTagVariable ∨ entry.tag = dwTagFormalParameter) (hnew : name ∉ names) :
    localsWith arch regs read names (entry :: rest) = (do
      let value ← evaluateEntryWith arch regs read name entry.location
      let values ← localsWith arch regs read (name :: names) rest
      pure (value :: values)) := by
  rw [localsWith, hname]
  exact if_pos ⟨htag, hnew⟩

theorem localsWith_cons_of_passed (hpassed : ∀ name, entry.name = some name →
      ¬ ((entry.tag = dwTagVariable ∨ entry.tag = dwTagFormalParameter) ∧ name ∉ names)) :
    localsWith arch regs read names (entry :: rest) = localsWith arch regs read names rest := by
  rw [localsWith]
  cases hname : entry.name with
  | none => rfl
  | some name => exact if_neg (hpassed name hname)

end With

/-! ### In two monads -/

section Related

variable {R D : Type} {M N : Type → Type} [Monad M] [Monad N] {arch : Architecture R D} {regs : M R}
  {regs' : N R} {read : Address → M Address} {read' : Address → N Address}
  {Q : (α : Type) → M α → N α → Prop} (hrelates : Relates Q) (hregs : Q R regs regs')
  (hread : ∀ address, Q Address (read address) (read' address))

include hrelates hregs

theorem related_dwarfRegisterWith (number : Nat) :
    Q _ (dwarfRegisterWith arch regs number) (dwarfRegisterWith arch regs' number) := by
  unfold dwarfRegisterWith
  cases arch.dwarfRegister number with
  | none => exact hrelates.result none
  | some select => exact hrelates.bind hregs fun _ => hrelates.result _

theorem related_framePointerWith :
    Q _ (framePointerWith arch regs) (framePointerWith arch regs') :=
  hrelates.bind hregs fun _ => hrelates.result _

theorem related_pushRegisterWith (number : Nat) (state : LocationState) (change : Address → Address)
    (isValue : Bool) : Q _ (pushRegisterWith arch regs number state change isValue)
      (pushRegisterWith arch regs' number state change isValue) := by
  refine hrelates.bind (related_dwarfRegisterWith hrelates hregs number) fun value => ?_
  cases value with
  | none => exact hrelates.result _
  | some value => exact hrelates.result _

include hread

theorem related_evaluateOperationWith (operation : DwarfOp) (state : LocationState) :
    Q _ (evaluateOperationWith arch regs read operation state)
      (evaluateOperationWith arch regs' read' operation state) := by
  have hpush : ∀ number change isValue, Q _ (pushRegisterWith arch regs number state change isValue)
      (pushRegisterWith arch regs' number state change isValue) := fun number change isValue =>
    related_pushRegisterWith hrelates hregs number state change isValue
  refine related_ite (hrelates.result _) ?_
  refine related_ite (hpush _ _ _) ?_
  refine related_ite (hpush _ _ _) ?_
  refine related_ite (hpush _ _ _) ?_
  refine related_ite (hpush _ _ _) ?_
  refine related_ite ?_ (related_ite ?_ ?_)
  · exact hrelates.bind (related_framePointerWith hrelates hregs) fun _ => hrelates.result _
  · cases state.stack with
    | nil => exact hrelates.result _
    | cons top rest => exact hrelates.bind (hread top) fun _ => hrelates.result _
  refine related_ite ?_ (related_ite (hrelates.result _) (hrelates.result _))
  cases state.stack with
  | nil => exact hrelates.result _
  | cons top rest => exact hrelates.result _

theorem related_evaluateOperationsWith (operations : List DwarfOp) (state : LocationState) :
    Q _ (evaluateOperationsWith arch regs read state operations)
      (evaluateOperationsWith arch regs' read' state operations) := by
  induction operations generalizing state with
  | nil => exact hrelates.result _
  | cons operation rest ih =>
      refine hrelates.bind (related_evaluateOperationWith hrelates hregs hread operation state) ?_
      intro result
      cases result with
      | error text => exact hrelates.result _
      | ok state => exact ih state

theorem related_evaluateLocationWith (name : Text) (operations : List DwarfOp) :
    Q _ (evaluateLocationWith arch regs read name operations)
      (evaluateLocationWith arch regs' read' name operations) := by
  refine hrelates.bind (related_evaluateOperationsWith hrelates hregs hread operations _) ?_
  intro result
  cases result with
  | error text => exact hrelates.result _
  | ok state =>
      dsimp only
      cases state.stack with
      | nil => exact hrelates.result _
      | cons top rest =>
          exact related_ite (hrelates.bind (hread top) fun _ => hrelates.result _) (hrelates.result _)

theorem related_evaluateEntryWith (name : Text) (location : EntryLocation) :
    Q _ (evaluateEntryWith arch regs read name location)
      (evaluateEntryWith arch regs' read' name location) := by
  cases location with
  | missing => exact hrelates.result _
  | undecodable => exact hrelates.result _
  | operations operations => exact related_evaluateLocationWith hrelates hregs hread name operations

theorem related_localsWith (entries : List ScopeEntry) (names : List Text) :
    Q _ (localsWith arch regs read names entries) (localsWith arch regs' read' names entries) := by
  induction entries generalizing names with
  | nil => exact hrelates.result _
  | cons entry rest ih =>
      rw [localsWith, localsWith]
      cases entry.name with
      | none => exact ih names
      | some name =>
          refine related_ite ?_ (ih names)
          refine hrelates.bind
            (related_evaluateEntryWith hrelates hregs hread name entry.location) fun value => ?_
          exact hrelates.bind (ih (name :: names)) fun values => hrelates.result _

end Related

/-! ### Through the requests of the debugger -/

variable {R D : Type} (arch : Architecture R D) (env : Environment R D)

def dwarfRegister (tid : Tid) (number : Nat) : Dbg R D (Option Address) :=
  dwarfRegisterWith arch (getRegs arch env tid) number

def framePointer (tid : Tid) : Dbg R D Address := framePointerWith arch (getRegs arch env tid)

def evaluateOperation (tid : Tid) (operation : DwarfOp) (state : LocationState) :
    Dbg R D (Except Text LocationState) :=
  evaluateOperationWith arch (getRegs arch env tid) (readWord env) operation state

def evaluateLocation (name : Text) (operations : List DwarfOp) (tid : Tid) : Dbg R D VariableValue :=
  evaluateLocationWith arch (getRegs arch env tid) (readWord env) name operations

def evaluateEntry (name : Text) (location : EntryLocation) (tid : Tid) : Dbg R D VariableValue :=
  evaluateEntryWith arch (getRegs arch env tid) (readWord env) name location

def locals (tid : Tid) (address : Address) : Dbg R D (List VariableValue) := do
  let s ← get
  localsWith arch (getRegs arch env tid) (readWord env) []
    (s.debugger.modules.scopes address).flatten

end Cosy
