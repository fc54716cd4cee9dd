import Cosy.Architecture

/-!
# The module manager

`ModuleManager` as the debugger uses it: what its queries answer. A refresh replaces all the answers
at once, so the manager is the record of its answers, and what the next refresh would find is part
of the traced system (`Target.maps`).
-/

namespace Cosy

structure SourceLocation where
  file : Text
  line : Int
  column : Int
  function : Text

def SourceLocation.valid (location : SourceLocation) : Bool :=
  location.file ≠ [] && 0 < location.line

structure ModuleInfo where
  path : Text
  base : Address
  last : Address

/-- One operation of a DWARF location expression, as `libdw` decodes it. -/
structure DwarfOp where
  atom : Nat
  number : Address
  number2 : Address

/-- The location attribute of a debugging entry. -/
inductive EntryLocation where
  | missing
  | undecodable
  | operations (operations : List DwarfOp)

/-- A child of a scope, with what `locals` asks of it. -/
structure ScopeEntry where
  tag : Nat
  name : Option Text
  location : EntryLocation

structure VariableValue where
  name : Text
  value : Text
  available : Bool

structure ModuleManager where
  modules : List ModuleInfo
  /-- The run-time address of a symbol, searched in the modules that match the second text. -/
  resolveSymbol : Text → Text → Option Address
  resolveSourceLine : Text → Int → List Address
  location : Address → SourceLocation
  function : Address → Text
  /-- The scopes around a run-time address, innermost first, each with its children. -/
  scopes : Address → List (List ScopeEntry)

/-- The manager before its first refresh. -/
def ModuleManager.unloaded : ModuleManager where
  modules := []
  resolveSymbol _ _ := none
  resolveSourceLine _ _ := []
  location _ := ⟨[], 0, 0, []⟩
  function _ := []
  scopes _ := []

/-- The two sides of a separator, if the text has it: split at the first occurrence. -/
def splitFirst (separator : Char) : Text → Option (Text × Text)
  | [] => none
  | ch :: rest =>
      if ch = separator then some ([], rest)
      else (splitFirst separator rest).map fun parts => (ch :: parts.1, parts.2)

/-- The same, split at the last occurrence. -/
def splitLast (separator : Char) (text : Text) : Option (Text × Text) :=
  (splitFirst separator text.reverse).map fun parts => (parts.2.reverse, parts.1.reverse)

def resolveSpecification (modules : ModuleManager) (specification : Text) : List Address :=
  match specification with
  | '*' :: rest => (parseAddress rest).toList
  | _ =>
      match splitFirst '!' specification with
      | some (module, symbol) => (modules.resolveSymbol symbol module).toList
      | none =>
          match splitLast ':' specification with
          | some (file, line) =>
              match stoi line with
              | some line => modules.resolveSourceLine file line
              | none => []
          | none => (modules.resolveSymbol specification []).toList

/-! ### Splitting at a separator -/

theorem splitFirst_eq_some_iff {separator : Char} {text first second : Text} :
    splitFirst separator text = some (first, second) ↔
      separator ∉ first ∧ text = first ++ separator :: second := by
  induction text generalizing first with
  | nil => simp [splitFirst]
  | cons ch rest ih =>
      by_cases hch : ch = separator
      · rw [splitFirst, if_pos hch]
        constructor
        · intro hsplit
          obtain ⟨rfl, rfl⟩ := Prod.mk.inj (Option.some.inj hsplit)
          exact ⟨List.not_mem_nil, by rw [hch, List.nil_append]⟩
        · rintro ⟨hfirst, htext⟩
          cases first with
          | nil =>
              obtain ⟨-, rfl⟩ := List.cons.inj htext
              rfl
          | cons ch' first =>
              obtain ⟨rfl, -⟩ := List.cons.inj htext
              exact absurd (hch ▸ List.mem_cons_self) hfirst
      · rw [splitFirst, if_neg hch, Option.map_eq_some_iff]
        constructor
        · rintro ⟨⟨front, back⟩, hsplit, hparts⟩
          obtain ⟨rfl, rfl⟩ := Prod.mk.inj hparts
          obtain ⟨hfront, rfl⟩ := ih.mp hsplit
          exact ⟨List.not_mem_cons_of_ne_of_not_mem (Ne.symm hch) hfront, rfl⟩
        · rintro ⟨hfirst, htext⟩
          cases first with
          | nil => exact absurd (List.cons.inj htext).1 hch
          | cons ch' first =>
              obtain ⟨rfl, hrest⟩ := List.cons.inj htext
              exact ⟨(first, second), ih.mpr ⟨(List.ne_and_not_mem_of_not_mem_cons hfirst).2, hrest⟩, rfl⟩

theorem splitFirst_append {separator : Char} {first : Text} (hfirst : separator ∉ first)
    (second : Text) : splitFirst separator (first ++ separator :: second) = some (first, second) :=
  splitFirst_eq_some_iff.mpr ⟨hfirst, rfl⟩

theorem splitFirst_eq_none_iff {separator : Char} {text : Text} :
    splitFirst separator text = none ↔ separator ∉ text := by
  induction text with
  | nil => simp [splitFirst]
  | cons ch rest ih =>
      by_cases hch : ch = separator
      · simp [splitFirst, hch]
      · simp [splitFirst, hch, ih, Ne.symm hch]

theorem splitLast_eq_some_iff {separator : Char} {text first second : Text} :
    splitLast separator text = some (first, second) ↔
      separator ∉ second ∧ text = first ++ separator :: second := by
  have hreverse : text.reverse = second.reverse ++ separator :: first.reverse ↔
      text = first ++ separator :: second := by
    rw [← List.reverse_inj, List.reverse_reverse]
    simp
  have hmem : separator ∉ second.reverse ↔ separator ∉ second := not_congr List.mem_reverse
  rw [← hreverse, ← hmem, ← splitFirst_eq_some_iff, splitLast, Option.map_eq_some_iff]
  constructor
  · rintro ⟨⟨front, back⟩, hsplit, hparts⟩
    obtain ⟨rfl, rfl⟩ := Prod.mk.inj hparts
    simpa using hsplit
  · intro hsplit
    exact ⟨_, hsplit, by simp⟩

theorem splitLast_eq_none_iff {separator : Char} {text : Text} :
    splitLast separator text = none ↔ separator ∉ text := by
  rw [splitLast, Option.map_eq_none_iff, splitFirst_eq_none_iff, List.mem_reverse]

end Cosy
