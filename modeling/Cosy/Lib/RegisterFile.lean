import Mathlib.Data.List.Nodup
import Mathlib.Logic.Equiv.Defs
import Mathlib.Tactic.Common

/-!
# Register files

Storage made of cells, and access to it by name. Tables say which cell a name stands for when it is
read and when it is written, and several names may stand for one cell. If a name that can be written
stands for the same cell when it is read, then what is written is read back under every name of the
cell, and under no other name has anything changed.
-/

namespace RegisterFile

variable {F C N V : Type}

/-! ### Cells -/

section Cells

variable [DecidableEq C] (cells : F ≃ (C → V))

def put (file : F) (cell : C) (value : V) : F :=
  cells.symm (Function.update (cells file) cell value)

@[simp]
theorem cells_put (file : F) (cell : C) (value : V) :
    cells (put cells file cell value) = Function.update (cells file) cell value :=
  cells.apply_symm_apply _

theorem put_put (file : F) (cell : C) (value later : V) :
    put cells (put cells file cell value) cell later = put cells file cell later := by
  rw [put, cells_put, Function.update_idem, put]

theorem put_cells (file : F) (cell : C) : put cells file cell (cells file cell) = file := by
  rw [put, Function.update_eq_self, cells.symm_apply_apply]

/-- A way to read and a way to write that go by the cells the names stand for. -/
structure Access (read : F → N → Option V) (write : F → N → V → Option F)
    (readable writable : N → Option C) : Prop where
  read_eq : ∀ file name, read file name = (readable name).map (cells file)
  write_eq : ∀ file name value,
    write file name value = (writable name).map fun cell => put cells file cell value
  readable_of_writable : ∀ name cell, writable name = some cell → readable name = some cell

namespace Access

variable {cells} {read : F → N → Option V} {write : F → N → V → Option F}
  {readable writable : N → Option C} (haccess : Access cells read write readable writable)
  {file file' : F} {name name' : N} {cell : C} {value : V}

include haccess

theorem read_eq_some_iff :
    read file name = some value ↔ ∃ cell, readable name = some cell ∧ cells file cell = value := by
  rw [haccess.read_eq, Option.map_eq_some_iff]

theorem isSome_write_iff :
    (write file name value).isSome = true ↔ ∃ cell, writable name = some cell := by
  rw [haccess.write_eq, Option.isSome_map, Option.isSome_iff_exists]

theorem exists_put (hwrite : write file name value = some file') :
    ∃ cell, writable name = some cell ∧ file' = put cells file cell value := by
  rw [haccess.write_eq, Option.map_eq_some_iff] at hwrite
  obtain ⟨cell, hname, rfl⟩ := hwrite
  exact ⟨cell, hname, rfl⟩

theorem read_put (hname : readable name = some cell) :
    read (put cells file cell value) name = some value := by
  rw [haccess.read_eq, hname, Option.map_some, cells_put, Function.update_self]

theorem read_put_of_ne (hname : readable name ≠ some cell) :
    read (put cells file cell value) name = read file name := by
  rw [haccess.read_eq, haccess.read_eq]
  cases hother : readable name with
  | none => rfl
  | some other =>
      have hne : other ≠ cell := fun hsame => hname (hsame ▸ hother)
      rw [Option.map_some, Option.map_some, cells_put, Function.update_of_ne hne]

/-- The second of two writes to a cell replaces the first, whichever names they go by. -/
theorem write_put (hname : writable name = some cell) (hname' : writable name' = some cell)
    (later : V) : write (put cells file cell value) name' later = write file name later := by
  rw [haccess.write_eq, haccess.write_eq, hname, hname', Option.map_some, Option.map_some, put_put]

/-- To write what is there is to write nothing. -/
theorem write_read (hname : writable name = some cell) (hread : read file name = some value) :
    write file name value = some file := by
  obtain ⟨other, hother, rfl⟩ := haccess.read_eq_some_iff.mp hread
  obtain rfl := Option.some.inj ((haccess.readable_of_writable _ _ hname).symm.trans hother)
  rw [haccess.write_eq, hname, Option.map_some, put_cells]

end Access

end Cells

/-! ### Tables -/

section Tables

variable [DecidableEq N]

/-- The cell of the first entry with that name. -/
def lookup (table : List (N × C)) (name : N) : Option C :=
  (table.find? fun entry => entry.1 = name).map Prod.snd

@[simp]
theorem lookup_nil (name : N) : lookup ([] : List (N × C)) name = none := rfl

@[simp]
theorem lookup_cons (entry : N × C) (table : List (N × C)) (name : N) :
    lookup (entry :: table) name = if name = entry.1 then some entry.2 else lookup table name := by
  unfold lookup
  rw [List.find?_cons]
  by_cases hname : name = entry.1
  · rw [if_pos hname, decide_eq_true hname.symm]
    rfl
  · rw [if_neg hname, decide_eq_false (Ne.symm hname)]

/-- A chain of comparisons, one for each entry. -/
theorem map_lookup_cons (f : C → V) (entry : N × C) (table : List (N × C)) (name : N) :
    (lookup (entry :: table) name).map f
      = if name = entry.1 then some (f entry.2) else (lookup table name).map f := by
  rw [lookup_cons, apply_ite (Option.map f), Option.map_some]

/-- A table of values has the value of the cell that the table of cells has. -/
theorem find?_map_values (f : C → V) (table : List (N × C)) (name : N) :
    ((table.map fun entry => (entry.1, f entry.2)).find? fun entry => entry.1 = name).map Prod.snd
      = (lookup table name).map f := by
  rw [List.find?_map, lookup, Option.map_map, Option.map_map]
  rfl

theorem lookup_eq_some_iff {table : List (N × C)} (hnodup : (table.map Prod.fst).Nodup) {name : N}
    {cell : C} : lookup table name = some cell ↔ (name, cell) ∈ table := by
  induction table with
  | nil => simp
  | cons entry rest ih =>
      rw [List.map_cons, List.nodup_cons] at hnodup
      obtain ⟨hnew, hrest⟩ := hnodup
      rw [lookup_cons, List.mem_cons]
      by_cases hname : name = entry.1
      · have hnot : (name, cell) ∉ rest := by
          intro hmem
          exact hnew (hname ▸ List.mem_map_of_mem (f := Prod.fst) hmem)
        rw [if_pos hname, or_iff_left hnot, Option.some.injEq, Prod.ext_iff]
        exact ⟨fun hcell => ⟨hname, hcell.symm⟩, fun hsame => hsame.2.symm⟩
      · have hne : (name, cell) ≠ entry := fun hsame => hname (congrArg Prod.fst hsame)
        rw [if_neg hname, ih hrest, or_iff_right hne]

end Tables

end RegisterFile
