import Mathlib.Data.List.Sort
import Mathlib.Data.List.Destutter
import Cosy.State

/-!
# Files with symbols

`DebugFile`: what is read from an ELF file that the process has mapped, and what is answered from
it. An `ElfImage` is what `libelf` and `libdw` find in the file. Its addresses are those the file was
linked for; a file of type `ET_DYN` is found elsewhere at run time, moved by the load bias.
-/

namespace Cosy

/-! ### What is in a file -/

def etDyn : Nat := 3
def shtSymtab : Nat := 2
def shtDynsym : Nat := 11
def sttFunc : Nat := 2

/-- An entry of a symbol table. -/
structure ElfSymbol where
  name : Option Text
  type : Nat
  value : Address
  size : Address

/-- A section, with what `gelf_getsym` returns at each of its `sh_size / sh_entsize` indices; there
    are none if the data of the section cannot be read. -/
structure ElfSection where
  type : Nat
  entrySize : Nat
  entries : List (Option ElfSymbol)

/-- A row of a line table; what cannot be read of it is missing. -/
structure LineRow where
  source : Option Text
  line : Option Int
  column : Option Int
  statement : Option Bool
  address : Option Address

structure Dwarf where
  /-- The line tables of the compilation units. -/
  units : List (List LineRow)
  /-- The row for an address: `dwarf_addrdie`, then `dwarf_getsrc_die`. -/
  lineAt : Address → Option LineRow
  /-- The scopes around an address, innermost first: `dwarf_addrdie`, then `dwarf_getscopes`. -/
  scopesAt : Address → List (List ScopeEntry)

structure ElfImage where
  type : Nat
  sections : List ElfSection
  dwarf : Option Dwarf

structure Symbol where
  name : Text
  value : Address
  size : Address
deriving DecidableEq

def ElfSymbol.function? (entry : ElfSymbol) : Option Symbol :=
  if entry.type ≠ sttFunc ∨ entry.value = 0 then none
  else
    match entry.name with
    | none | some [] => none
    | some name => some ⟨name, entry.value, entry.size⟩

def ElfSection.symbols (elfSection : ElfSection) : List Symbol :=
  if (elfSection.type ≠ shtSymtab ∧ elfSection.type ≠ shtDynsym) ∨ elfSection.entrySize = 0 then []
  else elfSection.entries.filterMap fun entry => entry.bind ElfSymbol.function?

def ElfImage.readSymbols (image : ElfImage) : List Symbol :=
  image.sections.flatMap ElfSection.symbols

/-! ### What is answered from it -/

/-- A `DebugFile`, without the descriptor it holds. -/
structure DebugFile where
  info : ModuleInfo
  dynamic : Bool
  symbols : List Symbol
  dwarf : Option Dwarf

def endsWith (value suffix : Text) : Bool :=
  suffix.length ≤ value.length && value.drop (value.length - suffix.length) = suffix

/-- The address of a row that begins a statement on the wanted line of the file. -/
def LineRow.begins (row : LineRow) (file : Text) (wantedLine : Int) : Option Address :=
  match row.source, row.line, row.statement, row.address with
  | some source, some line, some statement, some address =>
      if line = wantedLine ∧ (file = source ∨ endsWith source file) ∧ statement then some address
      else none
  | _, _, _, _ => none

namespace DebugFile

variable (file : DebugFile)

def runtimeBase : Address := if file.dynamic then file.info.base else 0

def toRuntime (address : Address) : Address := file.runtimeBase + address

def toDwarf (address : Address) : Address := address - file.runtimeBase

def contains (address : Address) : Bool :=
  file.runtimeBase ≤ address && address < file.info.last

def symbol (name : Text) : Option Address :=
  (file.symbols.find? fun item => item.name = name).map fun item => file.toRuntime item.value

/-- One round of the loop in `function`: the symbol is closer than the closest one so far. -/
def closer (relative : Address) (closest : Option Symbol) (symbol : Symbol) : Option Symbol :=
  if symbol.value ≤ relative ∧ (symbol.size = 0 ∨ relative < symbol.value + symbol.size) ∧
      closest.all (fun best => best.value < symbol.value) then some symbol
  else closest

def function (address : Address) : Text :=
  match file.symbols.foldl (closer (file.toDwarf address)) none with
  | some closest => closest.name
  | none => []

def location (address : Address) : SourceLocation :=
  let unknown : SourceLocation := ⟨[], 0, 0, file.function address⟩
  match file.dwarf with
  | none => unknown
  | some dwarf =>
      match dwarf.lineAt (file.toDwarf address) with
      | none => unknown
      | some row =>
          match row.source, row.line with
          | some path, some line => ⟨path, line, row.column.getD 0, file.function address⟩
          | _, _ => unknown

def sourceLine (path : Text) (wantedLine : Int) : List Address :=
  match file.dwarf with
  | none => []
  | some dwarf =>
      let found := dwarf.units.flatten.filterMap fun row => row.begins path wantedLine
      ((found.map file.toRuntime).insertionSort (· ≤ ·)).destutter (· ≠ ·)

/-- The scopes that `locals` searches. -/
def scopes (address : Address) : List (List ScopeEntry) :=
  match file.dwarf with
  | none => []
  | some dwarf => dwarf.scopesAt (file.toDwarf address)

@[simp]
theorem toDwarf_toRuntime (address : Address) : file.toDwarf (file.toRuntime address) = address := by
  rw [toDwarf, toRuntime, BitVec.add_comm]
  exact BitVec.add_sub_cancel _ _

theorem toRuntime_inj {x y : Address} : file.toRuntime x = file.toRuntime y ↔ x = y := by
  constructor
  · intro heq
    rw [← file.toDwarf_toRuntime x, heq, file.toDwarf_toRuntime]
  · rintro rfl
    rfl

end DebugFile

/-! ### All the files -/

/-- The part of a path after its last separator. -/
def fileName (path : Text) : Text :=
  match splitLast '/' path with
  | some (_, name) => name
  | none => path

def moduleMatches (path requested : Text) : Bool :=
  requested = [] || path = requested || fileName path = requested || decide (requested <:+: path)

namespace ModuleManager

/-- The first file, in the order of `debug_files`, that contains the address. -/
def fileAt (files : List DebugFile) (address : Address) : Option DebugFile :=
  files.find? fun file => file.contains address

/-- The first address that a file of a matching module has for the symbol. -/
def resolve (files : List DebugFile) (name module : Text) : Option Address :=
  files.findSome? fun file => if moduleMatches file.info.path module then file.symbol name else none

/-- The manager that holds these files. -/
def ofFiles (files : List DebugFile) : ModuleManager where
  modules := files.map DebugFile.info
  resolveSymbol := resolve files
  resolveSourceLine path line := files.flatMap fun file => file.sourceLine path line
  location address :=
    match fileAt files address with
    | some file => file.location address
    | none => ⟨[], 0, 0, []⟩
  function address :=
    match fileAt files address with
    | some file => file.function address
    | none => []
  scopes address :=
    match fileAt files address with
    | some file => file.scopes address
    | none => []

section

variable {files : List DebugFile} {file : DebugFile} {address : Address}
  (hfile : fileAt files address = some file)

include hfile

theorem ofFiles_location : (ofFiles files).location address = file.location address := by
  simp only [ofFiles, hfile]

theorem ofFiles_function : (ofFiles files).function address = file.function address := by
  simp only [ofFiles, hfile]

theorem ofFiles_scopes : (ofFiles files).scopes address = file.scopes address := by
  simp only [ofFiles, hfile]

end

end ModuleManager

end Cosy
