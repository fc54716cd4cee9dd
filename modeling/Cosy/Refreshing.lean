import Cosy.DebugFile
import Cosy.Watchpoints

/-!
# Refreshing the modules

`ModuleManager::refresh` groups the mappings of the process by file and replaces all the `DebugFile`s
by new ones. The groups come in the order of a hash table, so in any order. A file whose constructor
throws is left out; what the constructor has opened by then stays open.
-/

namespace Cosy

open Effect

/-- A line of the memory maps. -/
structure Mapping where
  start : Address
  last : Address
  offset : Address
  permissions : Text
  path : Text
deriving DecidableEq

/-! ### Groups -/

def mappingsOf (maps : List Mapping) (path : Text) : List Mapping :=
  maps.filter fun map => map.path = path

/-- Where the file would begin by the lowest of its mappings. -/
def loadBias (group : List Mapping) : Address :=
  group.foldl
    (fun bias map => if map.start - map.offset < bias then map.start - map.offset else bias)
    (BitVec.allOnes 64)

def lastAddress (group : List Mapping) : Address :=
  group.foldl (fun last map => if last < map.last then map.last else last) 0

/-- An order in which the groups may come. -/
structure Enumerates (order : List Text) (maps : List Mapping) : Prop where
  nodup : order.Nodup
  mem_iff : ∀ path, path ∈ order ↔ ∃ map ∈ maps, map.path = path

/-! ### Opening a file -/

/-- What the steps of the constructor find in a file that can be opened. -/
inductive FileContent where
  /-- `elf_begin` returns no handle. -/
  | unparsable
  /-- There is a handle, but `gelf_getehdr` finds no header: the file is not an ELF file. -/
  | headerless
  /-- There is not enough memory for the symbols. -/
  | exhausting
  | elf (image : ElfImage)

/-- What a refresh meets outside of the debugger. -/
structure Disk where
  /-- `elf_version` knows `EV_CURRENT`. -/
  libelf : Bool
  /-- The files; those that cannot be opened are missing. -/
  content : Text → Option FileContent
  /-- The descriptors the debugger has open for other purposes. -/
  others : List Nat

inductive ConstructError where
  | exception (exception : Exception)
  | badAlloc

/-- What a constructor does; the state is the descriptors that `DebugFile`s have opened and not
    closed. -/
abbrev Construct (α : Type) : Type := EStateM ConstructError (List Nat) α

/-- A `DebugFile` and its `fd_`. -/
structure OpenFile where
  fd : Nat
  file : DebugFile

/-- The kernel gives the lowest descriptor that is free. -/
def openDescriptor (disk : Disk) : Construct Nat := do
  let opened ← get
  let fd := freeSlot (disk.others ++ opened)
  modify fun opened => fd :: opened
  pure fd

def closeDescriptor (fd : Nat) : Construct PUnit := modify fun opened => opened.erase fd

def DebugFile.ofImage (image : ElfImage) (path : Text) (bias last : Address) : DebugFile where
  info := ⟨path, bias, last⟩
  dynamic := image.type = etDyn
  symbols := image.readSymbols
  dwarf := image.dwarf

/-- The constructor of `DebugFile`. -/
def DebugFile.construct (disk : Disk) (path : Text) (bias last : Address) : Construct OpenFile :=
  if !disk.libelf then throw (.exception (.runtime "libelf initialization failed"))
  else
    match disk.content path with
    | none => throw (.exception (.system "open ELF file"))
    | some content => do
        let fd ← openDescriptor disk
        match content with
        | .unparsable => do
            closeDescriptor fd
            throw (.exception (.runtime ("cannot parse ELF file " ++ String.ofList path)))
        | .headerless =>
            throw (.exception (.runtime ("cannot read ELF header " ++ String.ofList path)))
        | .exhausting => throw .badAlloc
        | .elf image => pure ⟨fd, .ofImage image path bias last⟩

/-! ### The refresh -/

/-- The loop over the groups, which swallows every exception. -/
def loadFiles (disk : Disk) (maps : List Mapping) : List Text → List Nat → List OpenFile × List Nat
  | [], opened => ([], opened)
  | path :: rest, opened =>
      let group := mappingsOf maps path
      match DebugFile.construct disk path (loadBias group) (lastAddress group) opened with
      | .ok file opened =>
          let (files, opened) := loadFiles disk maps rest opened
          (file :: files, opened)
      | .error _ opened => loadFiles disk maps rest opened

/-- The part of the debugger that a refresh changes: the descriptors its `DebugFile`s have opened,
    and `debug_files`. -/
structure Symbolizer where
  opened : List Nat
  debugFiles : List OpenFile

def Symbolizer.empty : Symbolizer := ⟨[], []⟩

/-- The destructors of `DebugFile`s. -/
def destroy (files : List OpenFile) (opened : List Nat) : List Nat :=
  files.foldl (fun opened file => opened.erase file.fd) opened

/-- A call of `refresh` with what it meets; no maps are found if they cannot be read. -/
structure RefreshCall where
  disk : Disk
  maps : Option (List Mapping)
  order : List Text
  enumerates : ∀ found ∈ maps, Enumerates order found

def refresh (call : RefreshCall) : EStateM Exception Symbolizer PUnit :=
  match call.maps with
  | none => throw (.runtime "cannot read target memory maps")
  | some maps =>
      modify fun s =>
        let (next, opened) := loadFiles call.disk maps call.order s.opened
        ⟨destroy s.debugFiles opened, next⟩

/-- The manager that the rest of the debugger sees. -/
def Symbolizer.manager (s : Symbolizer) : ModuleManager :=
  .ofFiles (s.debugFiles.map OpenFile.file)

/-! ### Which files are loaded -/

/-- The `DebugFile` of a path, if its constructor does not throw. -/
def debugFile (disk : Disk) (maps : List Mapping) (path : Text) : Option DebugFile :=
  match disk.libelf, disk.content path with
  | true, some (.elf image) =>
      some (.ofImage image path (loadBias (mappingsOf maps path)) (lastAddress (mappingsOf maps path)))
  | _, _ => none

variable {disk : Disk} {maps : List Mapping} {path : Text} {order : List Text} {opened : List Nat}

variable (disk maps path opened) in
/-- The constructor returns exactly for the files that are loaded. -/
theorem construct_cases :
    (∃ file, debugFile disk maps path = some file ∧
      DebugFile.construct disk path (loadBias (mappingsOf maps path))
          (lastAddress (mappingsOf maps path)) opened
        = .ok ⟨freeSlot (disk.others ++ opened), file⟩ (freeSlot (disk.others ++ opened) :: opened)) ∨
    (debugFile disk maps path = none ∧ ∃ e left,
      DebugFile.construct disk path (loadBias (mappingsOf maps path))
        (lastAddress (mappingsOf maps path)) opened = .error e left) := by
  unfold debugFile DebugFile.construct
  cases hlibelf : disk.libelf with
  | false => exact Or.inr ⟨rfl, _, _, rfl⟩
  | true =>
      cases hcontent : disk.content path with
      | none => exact Or.inr ⟨rfl, _, _, rfl⟩
      | some content =>
          cases content with
          | elf image => exact Or.inl ⟨_, rfl, rfl⟩
          | _ => exact Or.inr ⟨rfl, _, _, rfl⟩

/-- Which files are loaded has nothing to do with descriptors. -/
theorem loadFiles_files (order : List Text) (opened : List Nat) :
    (loadFiles disk maps order opened).1.map OpenFile.file
      = order.filterMap (debugFile disk maps) := by
  induction order generalizing opened with
  | nil => rfl
  | cons path rest ih =>
      rw [loadFiles, List.filterMap_cons]
      rcases construct_cases disk maps path opened with
        ⟨file, hfile, hrun⟩ | ⟨hfile, e, left, hrun⟩
      · rw [hfile]
        simp only [hrun, List.map_cons, ih]
      · rw [hfile]
        simp only [hrun, ih]

theorem refresh_files (call : RefreshCall) (hmaps : call.maps = some maps) (s : Symbolizer) :
    (endState (refresh call) s).debugFiles.map OpenFile.file
      = call.order.filterMap (debugFile call.disk maps) := by
  unfold refresh
  rw [hmaps]
  exact loadFiles_files _ _

end Cosy
