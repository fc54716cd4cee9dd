import Cosy.Whole

/-!
# Looking at a process that stands still

The evaluation of locations asks the kernel again and again, and each request could fail or find the
process changed. While requests are answered and nothing else writes memory, all of it comes down to
the same evaluation with the registers and the memory at hand.
-/

namespace Cosy

open ByteMemory Effect Parallel

variable {R D α : Type} {arch : Architecture R D} {env : Environment R D} {s t : State R D}
  {m : Memory} {regs : R} {tid : Tid}

/-! ### What the registers and the memory say -/

section In

variable (arch : Architecture R D) (regs : R) (m : Memory)

def registerIn (number : Nat) : Option Address := Id.run (dwarfRegisterWith arch (pure regs) number)

def pushIn (number : Nat) (state : LocationState) (change : Address → Address) (isValue : Bool) :
    Except Text LocationState :=
  Id.run (pushRegisterWith arch (pure regs) number state change isValue)

def operationIn (operation : DwarfOp) (state : LocationState) : Except Text LocationState :=
  Id.run (evaluateOperationWith arch (pure regs) (fun x => pure (word m x)) operation state)

def operationsIn (state : LocationState) (operations : List DwarfOp) : Except Text LocationState :=
  Id.run (evaluateOperationsWith arch (pure regs) (fun x => pure (word m x)) state operations)

def locationIn (name : Text) (operations : List DwarfOp) : VariableValue :=
  Id.run (evaluateLocationWith arch (pure regs) (fun x => pure (word m x)) name operations)

def entryIn (name : Text) (location : EntryLocation) : VariableValue :=
  Id.run (evaluateEntryWith arch (pure regs) (fun x => pure (word m x)) name location)

def localsIn (names : List Text) (entries : List ScopeEntry) : List VariableValue :=
  Id.run (localsWith arch (pure regs) (fun x => pure (word m x)) names entries)

end In

theorem registerIn_eq_bind (number : Nat) :
    registerIn arch regs number = (arch.dwarfRegister number).bind fun select => select regs := by
  unfold registerIn dwarfRegisterWith
  cases arch.dwarfRegister number <;> rfl

theorem pushIn_eq (number : Nat) (state : LocationState) (change : Address → Address)
    (isValue : Bool) : pushIn arch regs number state change isValue =
      match registerIn arch regs number with
      | none => .error "<unknown register>".toList
      | some value =>
          .ok { state.push (change value) with registerValue := state.registerValue || isValue } :=
  rfl

theorem operationsIn_cons (operation : DwarfOp) (rest : List DwarfOp) (state : LocationState) :
    operationsIn arch regs m state (operation :: rest) =
      match operationIn arch regs m operation state with
      | .error text => .error text
      | .ok state => operationsIn arch regs m state rest :=
  rfl

/-- What is shown once the operators have been gone through. -/
def shownAfter (m : Memory) (name : Text) : Except Text LocationState → VariableValue
  | .error text => ⟨name, text, false⟩
  | .ok ⟨[], _, _⟩ => ⟨name, "<unavailable>".toList, false⟩
  | .ok ⟨top :: _, stackValue, registerValue⟩ =>
      ⟨name, hex (if stackValue || registerValue then top else word m top), true⟩

theorem shownAfter_name (name : Text) (result : Except Text LocationState) :
    (shownAfter m name result).name = name := by
  cases result with
  | error text => rfl
  | ok state =>
      obtain ⟨stack, stackValue, registerValue⟩ := state
      cases stack with
      | nil => rfl
      | cons top rest => rfl

theorem locationIn_eq (name : Text) (operations : List DwarfOp) :
    locationIn arch regs m name operations
      = shownAfter m name (operationsIn arch regs m ⟨[], false, false⟩ operations) := by
  rw [locationIn, evaluateLocationWith, Id.run_bind, ← operationsIn]
  cases operationsIn arch regs m ⟨[], false, false⟩ operations with
  | error text => rfl
  | ok state =>
      obtain ⟨stack, stackValue, registerValue⟩ := state
      cases stack with
      | nil => rfl
      | cons top rest => cases stackValue <;> cases registerValue <;> rfl

theorem entryIn_operations (name : Text) (operations : List DwarfOp) :
    entryIn arch regs m name (.operations operations) = locationIn arch regs m name operations :=
  rfl

theorem entryIn_name (name : Text) (location : EntryLocation) :
    (entryIn arch regs m name location).name = name := by
  cases location with
  | missing => rfl
  | undecodable => rfl
  | operations operations => rw [entryIn_operations, locationIn_eq, shownAfter_name]

theorem localsIn_cons_of_new {names : List Text} {entry : ScopeEntry} {name : Text}
    {rest : List ScopeEntry} (hname : entry.name = some name)
    (htag : entry.tag = dwTagVariable ∨ entry.tag = dwTagFormalParameter) (hnew : name ∉ names) :
    localsIn arch regs m names (entry :: rest)
      = entryIn arch regs m name entry.location :: localsIn arch regs m (name :: names) rest := by
  rw [localsIn, localsWith_cons_of_new hname htag hnew]
  rfl

theorem localsIn_cons_of_passed {names : List Text} {entry : ScopeEntry} {rest : List ScopeEntry}
    (hpassed : ∀ name, entry.name = some name →
      ¬ ((entry.tag = dwTagVariable ∨ entry.tag = dwTagFormalParameter) ∧ name ∉ names)) :
    localsIn arch regs m names (entry :: rest) = localsIn arch regs m names rest := by
  rw [localsIn, localsWith_cons_of_passed hpassed]
  rfl

/-! ### And what the debugger finds -/

/-- The thread has these registers, the memory is `m`, and since `s` nothing has happened that matters
to who looks at the process. -/
structure Inspecting (s : State R D) (m : Memory) (tid : Tid) (regs : R) (t : State R D) : Prop where
  requested : Requested s m t
  selected : t.SelectedStopped
  thread : ∃ task, t.target.tasks.find? tid = some task ∧ task.stopped = true ∧ task.regs = regs

section Still

variable (henv : env.WritesNothing) (hreliable : env.Reliable)

include henv hreliable

theorem Inspecting.enter (ht : Inspecting s m tid regs t) :
    Inspecting s m tid regs (env.enter t) := by
  obtain ⟨task, htask, hstopped, hregs⟩ := ht.thread
  exact ⟨ht.requested.enter henv, hreliable.enter ht.selected,
    task, hreliable.steady _ _ _ _ htask hstopped, hstopped, hregs⟩

theorem finds_readWord (address : Address) :
    Finds (Inspecting s m tid regs) (readWord env address) (word m address) := by
  intro t ht
  have hentered := ht.enter henv hreliable
  obtain ⟨task, htask, hstopped⟩ := ht.selected
  refine ⟨env.enter t, ?_, hentered⟩
  rw [readWord, get_bind_apply, hreliable.ptrace htask hstopped, ← hentered.requested.memory]

theorem finds_getRegs : Finds (Inspecting s m tid regs) (getRegs arch env tid) regs := by
  intro t ht
  obtain ⟨task, htask, hstopped, rfl⟩ := ht.thread
  exact ⟨env.enter t, hreliable.ptrace htask hstopped, ht.enter henv hreliable⟩

omit henv hreliable in
theorem relates_finds {I : State R D → Prop} :
    Relates (M := EStateM Halt (State R D)) (N := Id) fun _ found a => Finds I found a where
  result _ := .pure _
  bind hfound hrest := hfound.bind (hrest _)

theorem finds_framePointer :
    Finds (Inspecting s m tid regs) (framePointer arch env tid) (arch.framePointer regs) :=
  (finds_getRegs henv hreliable).bind (.pure _)

theorem finds_evaluateOperation (operation : DwarfOp) (state : LocationState) :
    Finds (Inspecting s m tid regs) (evaluateOperation arch env tid operation state)
      (operationIn arch regs m operation state) :=
  related_evaluateOperationWith relates_finds (finds_getRegs henv hreliable)
    (finds_readWord henv hreliable) operation state

theorem finds_evaluateLocation (name : Text) (operations : List DwarfOp) :
    Finds (Inspecting s m tid regs) (evaluateLocation arch env name operations tid)
      (locationIn arch regs m name operations) :=
  related_evaluateLocationWith relates_finds (finds_getRegs henv hreliable)
    (finds_readWord henv hreliable) name operations

theorem finds_evaluateEntry (name : Text) (location : EntryLocation) :
    Finds (Inspecting s m tid regs) (evaluateEntry arch env name location tid)
      (entryIn arch regs m name location) :=
  related_evaluateEntryWith relates_finds (finds_getRegs henv hreliable)
    (finds_readWord henv hreliable) name location

variable (arch) in
/-- The variables that are shown, through a thread and a selected thread that are stopped. -/
theorem locals_eq (hs : Inspecting s m tid regs s) (address : Address) :
    ∃ t, locals arch env tid address s
      = .ok (localsIn arch regs m [] (s.debugger.modules.scopes address).flatten) t := by
  have hfinds : Finds (Inspecting s m tid regs)
      (localsWith arch (getRegs arch env tid) (readWord env) []
        (s.debugger.modules.scopes address).flatten)
      (localsIn arch regs m [] (s.debugger.modules.scopes address).flatten) :=
    related_localsWith relates_finds (finds_getRegs henv hreliable)
      (finds_readWord henv hreliable) _ []
  obtain ⟨t, hrun, -⟩ := hfinds s hs
  exact ⟨t, hrun⟩

end Still

end Cosy
