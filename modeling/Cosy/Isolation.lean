import Cosy.Shadowing

/-!
# Memory that cannot be read

`DebugFile::locals` is given the function that reads a word, and that function may throw. Here it is a
parameter, so that any addresses at all may be unreadable. Nothing between the read and the command
catches the exception: one variable that needs an unreadable word takes all the others with it.
-/

namespace Cosy

open ByteMemory Effect

variable {R D : Type} {arch : Architecture R D} {env : Environment R D} {m : Memory} {regs : R}
  {tid : Tid}

/-! ### Readable and unreadable addresses -/

/-- `read_word` over the memory `m`, of which some words can be read. -/
def reader (readable : Address → Bool) (m : Memory) (address : Address) :
    Except Exception Address :=
  if readable address then .ok (word m address) else .error (.system "PTRACE_PEEKDATA")

/-- The addresses an operation reads from. -/
def operationReads (operation : DwarfOp) (state : LocationState) : List Address :=
  if operation.atom = dwOpDeref then state.stack.head?.toList else []

def operationsReads (arch : Architecture R D) (regs : R) (m : Memory) (state : LocationState) :
    List DwarfOp → List Address
  | [] => []
  | operation :: rest =>
      operationReads operation state ++
        match operationIn arch regs m operation state with
        | .error _ => []
        | .ok state => operationsReads arch regs m state rest

/-- The addresses an expression reads from, the variable itself last. -/
def locationReads (arch : Architecture R D) (regs : R) (m : Memory) (operations : List DwarfOp) :
    List Address :=
  operationsReads arch regs m ⟨[], false, false⟩ operations ++
    match operationsIn arch regs m ⟨[], false, false⟩ operations with
    | .error _ => []
    | .ok state =>
        if !state.stackValue && !state.registerValue then state.stack.head?.toList else []

def entryReads (arch : Architecture R D) (regs : R) (m : Memory) : EntryLocation → List Address
  | .operations operations => locationReads arch regs m operations
  | _ => []

/-- The program returns `a` if all of these addresses can be read, and throws otherwise. -/
def Reading {α : Type} (readable : Address → Bool) (p : Except Exception α) (a : α)
    (reads : List Address) : Prop :=
  p = if reads.all readable then .ok a else .error (.system "PTRACE_PEEKDATA")

namespace Reading

variable {α β : Type} {readable : Address → Bool} {p : Except Exception α} {a : α}
  {reads reads' : List Address}

protected theorem pure (a : α) : Reading readable (Pure.pure a) a [] :=
  rfl

protected theorem bind {f : α → Except Exception β} {b : β} (hp : Reading readable p a reads)
    (hf : Reading readable (f a) b reads') : Reading readable (p >>= f) b (reads ++ reads') := by
  unfold Reading at *
  rw [List.all_append]
  cases hreads : reads.all readable with
  | true =>
      rw [hreads, if_pos rfl] at hp
      rw [hp, Bool.true_and]
      exact hf
  | false =>
      rw [hreads, if_neg Bool.false_ne_true] at hp
      rw [hp, Bool.false_and, if_neg Bool.false_ne_true]
      rfl

protected theorem ite {c : Prop} [Decidable c] {p' : Except Exception α} {a' : α}
    (hthen : c → Reading readable p a reads) (helse : ¬ c → Reading readable p' a' reads) :
    Reading readable (if c then p else p') (if c then a else a') reads := by
  split
  · exact hthen ‹c›
  · exact helse ‹¬ c›

theorem read (m : Memory) (address : Address) :
    Reading readable (reader readable m address) (word m address) [address] := by
  unfold Reading reader
  simp

end Reading

variable {readable : Address → Bool}

theorem reading_pushRegisterWith (number : Nat) (state : LocationState)
    (change : Address → Address) (isValue : Bool) :
    Reading readable (pushRegisterWith arch (pure regs) number state change isValue)
      (pushIn arch regs number state change isValue) [] := by
  have hregister : dwarfRegisterWith arch (pure regs : Except Exception R) number
      = pure (registerIn arch regs number) := by
    unfold registerIn dwarfRegisterWith
    cases arch.dwarfRegister number with
    | none => rfl
    | some select => rfl
  rw [pushRegisterWith, hregister, pure_bind, pushIn_eq]
  cases registerIn arch regs number with
  | none => exact .pure _
  | some value => exact .pure _

theorem reading_evaluateOperationWith (operation : DwarfOp) (state : LocationState) :
    Reading readable (evaluateOperationWith arch (pure regs) (reader readable m) operation state)
      (operationIn arch regs m operation state) (operationReads operation state) := by
  by_cases hderef : operation.atom = dwOpDeref
  · obtain ⟨atom, number, number2⟩ := operation
    obtain rfl : atom = dwOpDeref := hderef
    obtain ⟨stack, stackValue, registerValue⟩ := state
    cases stack with
    | nil => exact .pure _
    | cons top rest => exact (Reading.read m top).bind (.pure _)
  · rw [operationReads, if_neg hderef]
    refine Reading.ite (fun _ => .pure _) fun _ => ?_
    refine Reading.ite (fun _ => reading_pushRegisterWith _ _ _ _) fun _ => ?_
    refine Reading.ite (fun _ => reading_pushRegisterWith _ _ _ _) fun _ => ?_
    refine Reading.ite (fun _ => reading_pushRegisterWith _ _ _ _) fun _ => ?_
    refine Reading.ite (fun _ => reading_pushRegisterWith _ _ _ _) fun _ => ?_
    refine Reading.ite (fun _ => .pure _) fun _ => ?_
    refine Reading.ite (fun hatom => absurd hatom hderef) fun _ => ?_
    refine Reading.ite (fun _ => ?_) fun _ => Reading.ite (fun _ => .pure _) fun _ => .pure _
    cases state.stack with
    | nil => exact .pure _
    | cons top rest => exact .pure _

theorem reading_evaluateOperationsWith (operations : List DwarfOp) (state : LocationState) :
    Reading readable (evaluateOperationsWith arch (pure regs) (reader readable m) state operations)
      (operationsIn arch regs m state operations) (operationsReads arch regs m state operations) := by
  induction operations generalizing state with
  | nil => exact .pure _
  | cons operation rest ih =>
      rw [evaluateOperationsWith, operationsIn_cons, operationsReads]
      refine (reading_evaluateOperationWith operation state).bind ?_
      cases operationIn arch regs m operation state with
      | error text => exact .pure _
      | ok state => exact ih state

theorem reading_evaluateEntryWith (name : Text) (location : EntryLocation) :
    Reading readable (evaluateEntryWith arch (pure regs) (reader readable m) name location)
      (entryIn arch regs m name location) (entryReads arch regs m location) := by
  cases location with
  | missing => exact .pure _
  | undecodable => exact .pure _
  | operations operations =>
      rw [evaluateEntryWith, evaluateLocationWith, entryIn_operations, locationIn_eq, entryReads,
        locationReads]
      refine (reading_evaluateOperationsWith operations _).bind ?_
      cases operationsIn arch regs m ⟨[], false, false⟩ operations with
      | error text => exact .pure _
      | ok state =>
          obtain ⟨stack, stackValue, registerValue⟩ := state
          cases stack with
          | nil => cases stackValue <;> cases registerValue <;> exact .pure _
          | cons top rest =>
              cases stackValue <;> cases registerValue
              · exact (Reading.read m top).bind (.pure _)
              all_goals exact .pure _

/-- The variables come out if every word that any of them needs can be read. -/
theorem reading_localsWith (entries : List ScopeEntry) (names : List Text) :
    Reading readable (localsWith arch (pure regs) (reader readable m) names entries)
      (localsIn arch regs m names entries)
      ((shownFrom names entries).flatMap fun shown => entryReads arch regs m shown.2.location) := by
  induction entries generalizing names with
  | nil => exact .pure _
  | cons entry rest ih =>
      rcases declared_cases entry names with ⟨name, hdeclared, hnew⟩ | hpassed
      · obtain ⟨htag, hname⟩ := ScopeEntry.declared_eq_some_iff.mp hdeclared
        rw [localsWith_cons_of_new hname htag hnew, localsIn_cons_of_new hname htag hnew,
          shownFrom_of_not_mem hdeclared hnew, List.flatMap_cons, ← List.append_nil (List.flatMap _ _)]
        exact (reading_evaluateEntryWith name entry.location).bind ((ih (name :: names)).bind (.pure _))
      · have hskip : ∀ name, entry.name = some name →
            ¬ ((entry.tag = dwTagVariable ∨ entry.tag = dwTagFormalParameter) ∧ name ∉ names) :=
          fun name hname ⟨htag, hnew⟩ =>
            hnew (hpassed name (ScopeEntry.declared_eq_some_iff.mpr ⟨htag, hname⟩))
        rw [localsWith_cons_of_passed hskip, localsIn_cons_of_passed hskip,
          shownFrom_of_mem hpassed]
        exact ih names

/-! ### What a variable owes to the others -/

/-- The addresses that the variable of this name is read from can all be read. -/
def OwnReadable (arch : Architecture R D) (regs : R) (m : Memory) (readable : Address → Bool)
    (scopes : List (List ScopeEntry)) (name : Text) : Prop :=
  ∀ entry, innermost scopes name = some entry →
    ∀ x ∈ entryReads arch regs m entry.location, readable x = true

/-- Every variable comes out, and those whose own words can be read as if all memory could. -/
def Isolated (arch : Architecture R D) (regs : R) (m : Memory) (readable : Address → Bool)
    (scopes : List (List ScopeEntry)) : Prop :=
  ∃ values whole,
    localsWith arch (pure regs) (reader readable m) [] scopes.flatten = .ok values ∧
    localsWith arch (pure regs) (reader (fun _ => true) m) [] scopes.flatten = .ok whole ∧
    values.map VariableValue.name = declaredNames scopes ∧
    ∀ value ∈ values, OwnReadable arch regs m readable scopes value.name → value ∈ whole

theorem ownReadable_iff (scopes : List (List ScopeEntry)) :
    (∀ name ∈ declaredNames scopes, OwnReadable arch regs m readable scopes name) ↔
      ∀ x ∈ (shownFrom [] scopes.flatten).flatMap fun shown => entryReads arch regs m shown.2.location,
        readable x = true := by
  constructor
  · intro hall x hx
    obtain ⟨shown, hshown, hread⟩ := List.mem_flatMap.mp hx
    have hname : shown.1 ∈ declaredNames scopes := by
      rw [← names_shown]
      exact List.mem_map_of_mem hshown
    exact hall shown.1 hname shown.2 (innermost_of_shown scopes hshown) x hread
  · intro hall name hname entry hentry x hx
    rw [← names_shown, List.mem_map] at hname
    obtain ⟨shown, hshown, rfl⟩ := hname
    obtain rfl := Option.some.inj ((innermost_of_shown scopes hshown).symm.trans hentry)
    exact hall x (List.mem_flatMap.mpr ⟨shown, hshown, hx⟩)

/-- One variable that cannot be read hides all of them. -/
theorem locals_isolated_iff (arch : Architecture R D) (regs : R) (m : Memory)
    (readable : Address → Bool) (scopes : List (List ScopeEntry)) :
    Isolated arch regs m readable scopes ↔
      ∀ name ∈ declaredNames scopes, OwnReadable arch regs m readable scopes name := by
  have hpart : Reading readable _ (localsIn arch regs m [] scopes.flatten) _ :=
    reading_localsWith scopes.flatten []
  have hwhole : Reading (fun _ => true) _ (localsIn arch regs m [] scopes.flatten) _ :=
    reading_localsWith scopes.flatten []
  rw [Reading, if_pos (List.all_eq_true.mpr fun _ _ => rfl)] at hwhole
  rw [ownReadable_iff, ← List.all_eq_true]
  constructor
  · rintro ⟨values, whole, hvalues, -⟩
    by_contra hnot
    rw [Reading, if_neg hnot] at hpart
    cases hpart.symm.trans hvalues
  · intro hall
    rw [Reading, if_pos hall] at hpart
    exact ⟨_, _, hpart, hwhole, names_localsIn scopes, fun value hmem _ => hmem⟩

/-! ### A variable in a register next to one behind a wild pointer -/

/-- `i` is in a register, and `p` is what a null pointer points to. -/
def wildScopes : List (List ScopeEntry) :=
  [[⟨dwTagVariable, some "i".toList, .operations [⟨dwOpReg0, 0, 0⟩]⟩,
    ⟨dwTagVariable, some "p".toList, .operations [⟨dwOpAddr, 0, 0⟩, ⟨dwOpDeref, 0, 0⟩]⟩]]

/-- Page zero is not mapped. -/
def mapped (address : Address) : Bool := 0x1000 ≤ address.toNat

/-- Nothing is shown, although `i` needs no memory. -/
theorem locals_hidden :
    ¬ Isolated x86_64 (.startingAt 0x1000) (fun _ => 0) mapped wildScopes ∧
      OwnReadable x86_64 (.startingAt 0x1000) (fun _ => 0) mapped wildScopes "i".toList ∧
      localsWith x86_64 (pure (.startingAt 0x1000)) (reader mapped fun _ => 0) [] wildScopes.flatten
        = .error (.system "PTRACE_PEEKDATA") := by
  refine ⟨?_, ?_, rfl⟩
  · rintro ⟨values, whole, hvalues, -⟩
    cases hvalues
  · intro entry hentry x hx
    obtain rfl := Option.some.inj hentry
    cases hx

end Cosy
