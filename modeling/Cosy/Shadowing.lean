import Cosy.Statics

/-!
# Scopes within scopes

The scopes around an address come innermost first, and `locals` goes through the children of each of
them, keeping the names it has met. What comes out is one variable for each name, and it is the one
that the innermost scope declares.
-/

namespace Cosy

open ByteMemory Effect

variable {R D : Type} {arch : Architecture R D} {env : Environment R D} {s : State R D} {m : Memory}
  {regs : R} {tid : Tid} {name : Text}

/-- The name a child of a scope declares, if it is a variable or a parameter and has one. -/
def ScopeEntry.declared (entry : ScopeEntry) : Option Text :=
  if entry.tag = dwTagVariable ∨ entry.tag = dwTagFormalParameter then entry.name else none

/-- The names that are declared, each where it first appears. -/
def declaredNames (scopes : List (List ScopeEntry)) : List Text :=
  (scopes.flatten.filterMap ScopeEntry.declared).eraseDups

/-- The first child that declares the name, in the innermost scope that has one. -/
def innermost (scopes : List (List ScopeEntry)) (name : Text) : Option ScopeEntry :=
  scopes.findSome? fun scope => scope.find? fun entry => entry.declared = some name

theorem ScopeEntry.declared_eq_some_iff {entry : ScopeEntry} {name : Text} :
    entry.declared = some name ↔
      (entry.tag = dwTagVariable ∨ entry.tag = dwTagFormalParameter) ∧ entry.name = some name := by
  unfold declared
  split_ifs with htag <;> simp [htag]

theorem ScopeEntry.isVariable_eq (entry : ScopeEntry) (name : Text) :
    entry.isVariable name = decide (entry.declared = some name) := by
  unfold isVariable declared
  by_cases htag : entry.tag = dwTagVariable ∨ entry.tag = dwTagFormalParameter
  · rw [if_pos htag]
    simpa using fun _ => htag
  · rw [if_neg htag]
    simpa using fun _ => not_or.mp htag

theorem innermost_eq (scopes : List (List ScopeEntry)) (name : Text) :
    innermost scopes name = scopes.flatten.find? fun entry => entry.isVariable name := by
  simp only [innermost, List.find?_flatten, ScopeEntry.isVariable_eq]

/-- The children that are shown, each with its name; `names` are those already met. -/
def shownFrom (names : List Text) : List ScopeEntry → List (Text × ScopeEntry)
  | [] => []
  | entry :: rest =>
      match entry.declared with
      | some name =>
          if names.elem name then shownFrom names rest
          else (name, entry) :: shownFrom (name :: names) rest
      | none => shownFrom names rest

theorem shownFrom_of_not_mem {entry : ScopeEntry} {names : List Text}
    (hdeclared : entry.declared = some name) (hmem : name ∉ names) (rest : List ScopeEntry) :
    shownFrom names (entry :: rest) = (name, entry) :: shownFrom (name :: names) rest := by
  simp [shownFrom, hdeclared, hmem]

theorem shownFrom_of_mem {entry : ScopeEntry} {names : List Text}
    (hpassed : ∀ name, entry.declared = some name → name ∈ names) (rest : List ScopeEntry) :
    shownFrom names (entry :: rest) = shownFrom names rest := by
  rw [shownFrom]
  cases hdeclared : entry.declared with
  | none => rfl
  | some name => exact if_pos (List.elem_eq_true_of_mem (hpassed name hdeclared))

/-- A child is shown, or it is passed over: it declares nothing, or a name that was met before. -/
theorem declared_cases (entry : ScopeEntry) (names : List Text) :
    (∃ name, entry.declared = some name ∧ name ∉ names) ∨
      ∀ name, entry.declared = some name → name ∈ names := by
  cases entry.declared with
  | none => exact Or.inr fun _ hnone => by cases hnone
  | some name =>
      by_cases hmem : name ∈ names
      · exact Or.inr fun _ hsome => Option.some.inj hsome ▸ hmem
      · exact Or.inl ⟨name, rfl, hmem⟩

theorem localsIn_eq (entries : List ScopeEntry) (names : List Text) :
    localsIn arch regs m names entries
      = (shownFrom names entries).map fun shown => entryIn arch regs m shown.1 shown.2.location := by
  induction entries generalizing names with
  | nil => rfl
  | cons entry rest ih =>
      rcases declared_cases entry names with ⟨name, hdeclared, hnew⟩ | hpassed
      · obtain ⟨htag, hname⟩ := ScopeEntry.declared_eq_some_iff.mp hdeclared
        rw [localsIn_cons_of_new hname htag hnew, shownFrom_of_not_mem hdeclared hnew, ih,
          List.map_cons]
      · rw [shownFrom_of_mem hpassed, ← ih]
        refine localsIn_cons_of_passed fun name hname ⟨htag, hnew⟩ => ?_
        exact hnew (hpassed name (ScopeEntry.declared_eq_some_iff.mpr ⟨htag, hname⟩))

theorem names_shownFrom (entries : List ScopeEntry) (names : List Text) :
    (shownFrom names entries).map Prod.fst
      = ((entries.filterMap ScopeEntry.declared).filter fun name => name ∉ names).eraseDups := by
  induction entries generalizing names with
  | nil => rfl
  | cons entry rest ih =>
      rw [List.filterMap_cons]
      rcases declared_cases entry names with ⟨name, hdeclared, hmem⟩ | hpassed
      · rw [shownFrom_of_not_mem hdeclared hmem, hdeclared]
        dsimp only
        rw [List.filter_cons_of_pos (by simpa using hmem), List.map_cons, List.eraseDups_cons, ih,
          List.filter_filter]
        congr 3
        funext other
        by_cases heq : other = name <;> simp [heq]
      · rw [shownFrom_of_mem hpassed]
        cases hdeclared : entry.declared with
        | none => exact ih names
        | some name =>
            have hmem := hpassed name hdeclared
            dsimp only
            rw [List.filter_cons_of_neg (by simpa using hmem)]
            exact ih names

/-- A child that is shown is the first one of its name, and the name was not met before. -/
theorem mem_shownFrom {entries : List ScopeEntry} {names : List Text} {shown : Text × ScopeEntry}
    (hshown : shown ∈ shownFrom names entries) :
    shown.1 ∉ names ∧ entries.find? (fun entry => entry.isVariable shown.1) = some shown.2 := by
  induction entries generalizing names with
  | nil => cases hshown
  | cons entry rest ih =>
      have hskip : entry.declared ≠ some shown.1 →
          (entry :: rest).find? (fun entry => entry.isVariable shown.1)
            = rest.find? fun entry => entry.isVariable shown.1 := by
        intro hother
        exact List.find?_cons_of_neg (by simpa [entry.isVariable_eq] using hother)
      rcases declared_cases entry names with ⟨name, hdeclared, hmem⟩ | hpassed
      · rw [shownFrom_of_not_mem hdeclared hmem] at hshown
        rcases List.mem_cons.mp hshown with rfl | hshown
        · have hhead : entry.isVariable name = true := by simp [entry.isVariable_eq, hdeclared]
          exact ⟨hmem, List.find?_cons_of_pos hhead⟩
        · obtain ⟨hnew, hfirst⟩ := ih hshown
          rw [List.mem_cons, not_or] at hnew
          rw [hskip (by simpa [hdeclared] using Ne.symm hnew.1)]
          exact ⟨hnew.2, hfirst⟩
      · rw [shownFrom_of_mem hpassed] at hshown
        obtain ⟨hnew, hfirst⟩ := ih hshown
        rw [hskip fun hsame => hnew (hpassed _ hsame)]
        exact ⟨hnew, hfirst⟩

theorem nodup_shownFrom (entries : List ScopeEntry) (names : List Text) :
    ((shownFrom names entries).map Prod.fst).Nodup := by
  induction entries generalizing names with
  | nil => exact List.nodup_nil
  | cons entry rest ih =>
      rcases declared_cases entry names with ⟨name, hdeclared, hmem⟩ | hpassed
      · rw [shownFrom_of_not_mem hdeclared hmem, List.map_cons, List.nodup_cons]
        refine ⟨fun hlater => ?_, ih _⟩
        obtain ⟨shown, hshown, hname⟩ := List.mem_map.mp hlater
        exact (mem_shownFrom hshown).1 (hname ▸ List.mem_cons_self)
      · rw [shownFrom_of_mem hpassed]
        exact ih names

section Shown

variable (scopes : List (List ScopeEntry))

theorem names_shown : (shownFrom [] scopes.flatten).map Prod.fst = declaredNames scopes := by
  have hall : ∀ name ∈ scopes.flatten.filterMap ScopeEntry.declared,
      decide (name ∉ ([] : List Text)) = true := by simp
  rw [names_shownFrom, declaredNames, List.filter_eq_self.mpr hall]

theorem innermost_of_shown {shown : Text × ScopeEntry} (hshown : shown ∈ shownFrom [] scopes.flatten) :
    innermost scopes shown.1 = some shown.2 :=
  (innermost_eq _ _).trans (mem_shownFrom hshown).2

theorem names_localsIn :
    (localsIn arch regs m [] scopes.flatten).map VariableValue.name = declaredNames scopes := by
  rw [localsIn_eq, List.map_map, ← names_shown]
  exact List.map_congr_left fun shown _ => entryIn_name _ _

end Shown

/-- Every name that the scopes declare is shown once, in the order in which the names first appear,
with the value of what the innermost scope has under it. -/
theorem locals_shadow (henv : env.WritesNothing) (hreliable : env.Reliable)
    (hs : Inspecting s m tid regs s) (address : Address) :
    ∃ values t, locals arch env tid address s = .ok values t ∧
      (values.map VariableValue.name).Nodup ∧
      values.map VariableValue.name = declaredNames (s.debugger.modules.scopes address) ∧
      ∀ value ∈ values, ∃ entry,
        innermost (s.debugger.modules.scopes address) value.name = some entry ∧
        ∃ u, evaluateEntry arch env value.name entry.location tid s = .ok value u := by
  obtain ⟨t, hrun⟩ := locals_eq arch henv hreliable hs address
  refine ⟨_, t, hrun, ?_, names_localsIn _, fun value hmem => ?_⟩
  · rw [names_localsIn, ← names_shown]
    exact nodup_shownFrom _ _
  · rw [localsIn_eq, List.mem_map] at hmem
    obtain ⟨shown, hshown, rfl⟩ := hmem
    rw [entryIn_name]
    refine ⟨shown.2, innermost_of_shown _ hshown, ?_⟩
    rw [(finds_evaluateEntry henv hreliable _ _).ok_iff hs]

/-! ### Three scopes with two variables of one name -/

/-- The innermost scope has no children; the next has a type and a variable of the name `v`; and so
has the function, with a parameter and an entry without a name. -/
def nestedScopes : List (List ScopeEntry) :=
  [[],
    [⟨0x16, some "v".toList, .missing⟩,
      ⟨dwTagVariable, some "v".toList, .operations [⟨dwOpAddr, 0x4010, 0⟩]⟩],
    [⟨dwTagFormalParameter, some "w".toList, .missing⟩, ⟨dwTagVariable, none, .missing⟩,
      ⟨dwTagVariable, some "v".toList, .undecodable⟩]]

def nestedState : State UserRegs X86_64.DebugRegisters :=
  { staticState 0 with
    debugger :=
      { (staticState 0).debugger with
        modules := { (staticState 0).debugger.modules with scopes := fun _ => nestedScopes } } }

theorem locals_shadow_nested :
    ∃ values t, locals x86_64 (nopMachine fun _ => []) 1 0x1000 nestedState = .ok values t ∧
      values.map VariableValue.name = ["v".toList, "w".toList] ∧
      ∀ value ∈ values, ∃ entry, innermost nestedScopes value.name = some entry ∧
        ∃ u, evaluateEntry x86_64 (nopMachine fun _ => []) value.name entry.location 1 nestedState
          = .ok value u := by
  have hs : Inspecting nestedState nestedState.target.memory 1 (.startingAt 0x1000) nestedState :=
    ⟨Requested.refl _, ⟨_, rfl, rfl⟩, _, rfl, rfl, rfl⟩
  obtain ⟨values, t, hrun, -, hnames, hvalues⟩ := locals_shadow nopMachine_atomic.still
    (Machine.reliable fun _ => rfl) hs 0x1000
  exact ⟨values, t, hrun, hnames.trans (by decide), hvalues⟩

end Cosy
