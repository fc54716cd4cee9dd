import Cosy.DebugFile
import Cosy.Hexadecimal
import Cosy.Inspection
import Cosy.UserWrites

/-!
# Static variables

The location of a static variable is an address the file was linked for. It is the one address from
the file that reaches the memory of the process without being moved by the load bias.
-/

namespace Cosy

open ByteMemory Effect

variable {R D : Type} {arch : Architecture R D} {env env' : Environment R D} {s s' : State R D}
  {m : Memory} {regs : R} {tid tid' : Tid} {address address' x w w' : Address} {name : Text}

/-! ### Variables by their names -/

/-- A variable or a parameter of this name. -/
def ScopeEntry.isVariable (entry : ScopeEntry) (name : Text) : Bool :=
  entry.name = some name && (entry.tag = dwTagVariable || entry.tag = dwTagFormalParameter)

/-- The first entry in scope is the one whose value is shown. -/
theorem find?_localsIn (entries : List ScopeEntry) {names : List Text} (hname : name ∉ names) :
    (localsIn arch regs m names entries).find? (fun value => value.name = name)
      = (entries.find? fun entry => entry.isVariable name).map fun entry =>
          entryIn arch regs m name entry.location := by
  induction entries generalizing names with
  | nil => rfl
  | cons entry rest ih =>
      rw [List.find?_cons]
      by_cases hshown : ∃ found, entry.name = some found ∧
          (entry.tag = dwTagVariable ∨ entry.tag = dwTagFormalParameter) ∧ found ∉ names
      · obtain ⟨found, hentry, htag, hnew⟩ := hshown
        rw [localsIn_cons_of_new hentry htag hnew, List.find?_cons, entryIn_name]
        by_cases hfound : found = name
        · subst hfound
          have hvariable : entry.isVariable found = true := by
            simpa [ScopeEntry.isVariable, hentry] using htag
          rw [hvariable, decide_eq_true rfl]
          rfl
        · have hother : entry.isVariable name = false := by
            simp [ScopeEntry.isVariable, hentry, hfound]
          rw [hother, decide_eq_false hfound]
          exact ih (by simpa [hname] using Ne.symm hfound)
      · have hpassed : ∀ found, entry.name = some found →
            ¬ ((entry.tag = dwTagVariable ∨ entry.tag = dwTagFormalParameter) ∧ found ∉ names) :=
          fun found hentry hboth => hshown ⟨found, hentry, hboth⟩
        have hother : entry.isVariable name = false := by
          rw [Bool.eq_false_iff]
          intro hvariable
          simp only [ScopeEntry.isVariable, Bool.and_eq_true, Bool.or_eq_true,
            decide_eq_true_eq] at hvariable
          exact hpassed name hvariable.1 ⟨hvariable.2, hname⟩
        rw [localsIn_cons_of_passed hpassed, hother]
        exact ih hname

/-! ### Fixed addresses -/

/-- The location is an address of the file, with a constant added to it or not. -/
inductive StaticAt : List DwarfOp → Address → Prop where
  | addr (v number2 : Address) : StaticAt [⟨dwOpAddr, v, number2⟩] v
  | plus (v number2 c number2' : Address) :
      StaticAt [⟨dwOpAddr, v, number2⟩, ⟨dwOpPlusUconst, c, number2'⟩] (v + c)

theorem locationIn_static {operations : List DwarfOp} (hstatic : StaticAt operations x) :
    locationIn arch regs m name operations = ⟨name, hex (word m x), true⟩ := by
  cases hstatic with
  | addr => rfl
  | plus => rfl

/-- `locals` shows this word as the value of the variable. -/
def ShowsWord (arch : Architecture R D) (env : Environment R D) (tid : Tid) (address : Address)
    (s : State R D) (name : Text) (w : Address) : Prop :=
  ∃ values t, locals arch env tid address s = .ok values t ∧
    values.find? (fun value => value.name = name) = some ⟨name, hex w, true⟩

theorem ShowsWord.unique (hw : ShowsWord arch env tid address s name w)
    (hw' : ShowsWord arch env tid address s name w') : w = w' := by
  obtain ⟨values, t, hrun, hfind⟩ := hw
  obtain ⟨values', t', hrun', hfind'⟩ := hw'
  rw [hrun] at hrun'
  obtain ⟨rfl, rfl⟩ : values = values' ∧ t = t' := by simpa using hrun'
  have hsame := Option.some.inj (hfind.symm.trans hfind')
  exact hex_injective (congrArg VariableValue.value hsame)

/-- A process stands still at an address of the file, where the name stands for a static variable with
the link-time address `x`. -/
structure StaticInScope (env : Environment R D) (s : State R D) (tid : Tid) (address : Address)
    (file : DebugFile) (name : Text) (x : Address) : Prop where
  still : env.WritesNothing
  answers : env.Reliable
  selected : s.SelectedStopped
  thread : s.StoppedThread tid
  inFile : ∃ files, s.debugger.modules = .ofFiles files ∧
    ModuleManager.fileAt files address = some file
  entry : ∃ entry operations,
    (file.scopes address).flatten.find? (fun entry => entry.isVariable name) = some entry ∧
      entry.location = .operations operations ∧ StaticAt operations x

variable (arch) in
/-- What is shown is the word at the link-time address. -/
theorem StaticInScope.shows {file : DebugFile}
    (hs : StaticInScope env s tid address file name x) :
    ShowsWord arch env tid address s name (word s.target.memory x) := by
  obtain ⟨files, hmodules, hfile⟩ := hs.inFile
  obtain ⟨entry, operations, hentry, hlocation, hstatic⟩ := hs.entry
  obtain ⟨task, htask, hstopped⟩ := hs.thread
  have hinspecting : Inspecting s s.target.memory tid task.regs s :=
    ⟨Requested.refl s, hs.selected, task, htask, hstopped, rfl⟩
  obtain ⟨t, hrun⟩ := locals_eq arch hs.still hs.answers hinspecting address
  have hscopes : s.debugger.modules.scopes address = file.scopes address := by
    rw [hmodules]
    exact ModuleManager.ofFiles_scopes hfile
  refine ⟨_, t, hrun, ?_⟩
  rw [hscopes, find?_localsIn _ List.not_mem_nil, hentry, Option.map_some, hlocation,
    entryIn_operations, locationIn_static hstatic]

/-- Two runs in which the file has the same contents at two biases show the same value, the one that
    the variable has, exactly when either has that word at the link-time address too. -/
theorem statics_follow_iff {file file' : DebugFile}
    (hs : StaticInScope env s tid address file name x)
    (hs' : StaticInScope env' s' tid' address' file' name x)
    (hshift : word s.target.memory (file.toRuntime x) = word s'.target.memory (file'.toRuntime x)) :
    (∃ w, ShowsWord arch env tid address s name w ∧ ShowsWord arch env' tid' address' s' name w ∧
      w = word s.target.memory (file.toRuntime x)) ↔
      word s.target.memory x = word s.target.memory (file.toRuntime x) ∧
        word s'.target.memory x = word s'.target.memory (file'.toRuntime x) := by
  constructor
  · rintro ⟨w, hw, hw', hvalue⟩
    have hfirst := (hs.shows arch).unique hw
    have hsecond := (hs'.shows arch).unique hw'
    exact ⟨hfirst.trans hvalue, hsecond.trans (hvalue.trans hshift)⟩
  · rintro ⟨hfirst, hsecond⟩
    refine ⟨_, hs.shows arch, ?_, hfirst⟩
    rw [hfirst, hshift, ← hsecond]
    exact hs'.shows arch

/-! ### A library at two places -/

theorem wordFrom_shift (f : Memory) (b x : Address) (n : Nat) :
    wordFrom (fun a => f (a - b)) (b + x) n = wordFrom f x n := by
  induction n generalizing x with
  | zero => rfl
  | succ n ih =>
      have hback : b + x - b = x := by rw [BitVec.add_comm, BitVec.add_sub_cancel]
      rw [wordFrom, wordFrom, hback, BitVec.add_assoc, ih]

/-- The debugging information: everywhere in scope, a variable with the link-time address 0x4010. -/
def staticDwarf : Dwarf where
  units := []
  lineAt _ := none
  scopesAt _ := [[⟨dwTagVariable, some "v".toList, .operations [⟨dwOpAddr, 0x4010, 0⟩]⟩]]

def staticFile (base : Address) : DebugFile where
  info := ⟨"/lib.so".toList, base, base + 0x5000⟩
  dynamic := true
  symbols := []
  dwarf := some staticDwarf

/-- The contents of the file: the variable is 42. -/
def staticContents : Memory := fun x => if x = 0x4010 then 42 else 0

/-- A stopped process in which the file is loaded at `base`. -/
def staticState (base : Address) : State UserRegs X86_64.DebugRegisters where
  debugger := { Debugger.fresh 1 with selectedTid := 1, modules := .ofFiles [staticFile base] }
  target := { nopTarget 1 with memory := fun a => staticContents (a - base) }
  tick := 0
  log := []

/-- The same, where memory is another. -/
def staticStateWith (base : Address) (memory : Memory) : State UserRegs X86_64.DebugRegisters :=
  { staticState base with target := { (staticState base).target with memory := memory } }

theorem staticStateWith_inScope (base : Address) (memory : Memory)
    (hbase : base + 0x1000 < base + 0x5000) (hbase' : base ≤ base + 0x1000) :
    StaticInScope (nopMachine fun _ => []) (staticStateWith base memory) 1 (base + 0x1000)
      (staticFile base) "v".toList 0x4010 := by
  have hcontains : (staticFile base).contains (base + 0x1000) = true := by
    rw [DebugFile.contains, Bool.and_eq_true]
    exact ⟨decide_eq_true hbase', decide_eq_true hbase⟩
  refine ⟨nopMachine_atomic.still, Machine.reliable fun _ => rfl, ⟨_, rfl, rfl⟩, ⟨_, rfl, rfl⟩,
    ⟨[staticFile base], rfl, ?_⟩, ⟨_, _, rfl, rfl, .addr 0x4010 0⟩⟩
  rw [ModuleManager.fileAt, List.find?_cons, hcontains]

/-- The file is loaded at `base`, and another 42 is at the link-time address of the variable. -/
def staticTwice (base : Address) : Memory := fun a =>
  if a = 0x4010 then 42 else staticContents (a - base)

/-- The file at two places, in two processes that have the value at the link-time address as well. -/
theorem statics_follow_twice :
    ∃ w, ShowsWord x86_64 (nopMachine fun _ => []) 1 0x11000
        (staticStateWith 0x10000 (staticTwice 0x10000)) "v".toList w ∧
      ShowsWord x86_64 (nopMachine fun _ => []) 1 0x21000
        (staticStateWith 0x20000 (staticTwice 0x20000)) "v".toList w ∧
      w = word (staticTwice 0x10000) ((staticFile 0x10000).toRuntime 0x4010) :=
  (statics_follow_iff (staticStateWith_inScope 0x10000 (staticTwice 0x10000) (by decide) (by decide))
    (staticStateWith_inScope 0x20000 (staticTwice 0x20000) (by decide) (by decide))
    (by decide)).mpr ⟨by decide, by decide⟩

/-- The same file at two places; the variable is shown as 0. -/
theorem static_not_moved :
    (∀ x, word (staticState 0x10000).target.memory ((staticFile 0x10000).toRuntime x)
        = word (staticState 0x20000).target.memory ((staticFile 0x20000).toRuntime x)) ∧
      word (staticState 0x10000).target.memory ((staticFile 0x10000).toRuntime 0x4010) = 42 ∧
      ShowsWord x86_64 (nopMachine fun _ => []) 1 0x11000 (staticState 0x10000) "v".toList 0 ∧
      ¬ ShowsWord x86_64 (nopMachine fun _ => []) 1 0x11000 (staticState 0x10000) "v".toList 42 := by
  have hs : ShowsWord x86_64 (nopMachine fun _ => []) 1 0x11000 (staticState 0x10000) "v".toList _ :=
    (staticStateWith_inScope 0x10000 _ (by decide) (by decide)).shows x86_64
  have hzero : word (staticState 0x10000).target.memory 0x4010 = 0 := by decide
  refine ⟨fun x => ?_, by decide, hzero ▸ hs, fun hshown => ?_⟩
  · exact (wordFrom_shift staticContents 0x10000 x 8).trans
      (wordFrom_shift staticContents 0x20000 x 8).symm
  · exact absurd (hs.unique hshown) (by decide)

end Cosy
