import Cosy.DebugFile
import Cosy.Lib.SortedUnique

/-!
# The addresses of a source line

`source_line` compares the path of a row with the file that was asked for by the ends of the two
texts. What it finds is in order and without repetition, but a path may end with the name of a file
that it does not name.
-/

namespace Cosy

open SortedUnique

/-! ### Which rows are meant -/

/-- The path is the file, or has it as its last components. -/
def Names (path file : Text) : Prop := path = file ∨ ('/' :: file) <:+ path

/-- The row begins a statement on the line, somewhere, and can be read. -/
structure LineRow.BeginsLine (row : LineRow) (wantedLine : Int) (path : Text) (address : Address) :
    Prop where
  source : row.source = some path
  line : row.line = some wantedLine
  statement : row.statement = some true
  address : row.address = some address

theorem endsWith_iff {value suffix : Text} : endsWith value suffix = true ↔ suffix <:+ value := by
  rw [endsWith, Bool.and_eq_true, decide_eq_true_iff, decide_eq_true_iff, List.suffix_iff_eq_drop]
  constructor
  · rintro ⟨-, hdrop⟩
    exact hdrop.symm
  · intro hdrop
    refine ⟨?_, hdrop.symm⟩
    rw [hdrop, List.length_drop]
    exact Nat.sub_le _ _

theorem Names.suffix {path file : Text} (hnames : Names path file) : file <:+ path := by
  rcases hnames with rfl | hsuffix
  · exact List.suffix_refl path
  · exact (List.suffix_cons '/' file).trans hsuffix

/-- The loop takes a row when its path ends with the text of the file. -/
theorem LineRow.begins_eq_some_iff {row : LineRow} {file : Text} {wantedLine : Int}
    {address : Address} :
    row.begins file wantedLine = some address ↔
      ∃ path, row.BeginsLine wantedLine path address ∧ file <:+ path := by
  constructor
  · intro hbegins
    unfold LineRow.begins at hbegins
    split at hbegins
    · rename_i path line statement address' hsource hline hstatement haddress
      split at hbegins
      · rename_i hmatches
        obtain ⟨rfl, hpath, rfl⟩ := hmatches
        obtain rfl := Option.some.inj hbegins
        refine ⟨path, ⟨hsource, hline, hstatement, haddress⟩, ?_⟩
        rcases hpath with rfl | hends
        · exact List.suffix_refl file
        · exact endsWith_iff.mp hends
      · cases hbegins
    · cases hbegins
  · rintro ⟨path, hrow, hsuffix⟩
    rw [LineRow.begins, hrow.source, hrow.line, hrow.statement, hrow.address]
    exact if_pos ⟨rfl, Or.inr (endsWith_iff.mpr hsuffix), rfl⟩

/-! ### What is found -/

namespace DebugFile

variable (file : DebugFile)

/-- The rows of all line tables. -/
def rows : List LineRow :=
  match file.dwarf with
  | none => []
  | some dwarf => dwarf.units.flatten

/-- Whether the address, which is one of the file, is where the line begins. -/
def LineAt (path : Text) (wantedLine : Int) (address : Address) : Prop :=
  ∃ row ∈ file.rows, ∃ source, row.BeginsLine wantedLine source address ∧ Names source path

/-- The run-time addresses where the line begins, in increasing order, each once. -/
structure HitsOnly (path : Text) (wantedLine : Int) (addresses : List Address) : Prop where
  increasing : addresses.Pairwise (· < ·)
  exact : ∀ x, x ∈ addresses ↔
    ∃ address, file.LineAt path wantedLine address ∧ x = file.toRuntime address

variable {file}

/-- The loops collect the rows, which are then sorted. -/
theorem sourceLine_eq (path : Text) (wantedLine : Int) :
    file.sourceLine path wantedLine =
      sortUnique ((file.rows.filterMap fun row => row.begins path wantedLine).map file.toRuntime) := by
  unfold sourceLine rows
  cases file.dwarf <;> rfl

theorem mem_sourceLine_iff {path : Text} {wantedLine : Int} {x : Address} :
    x ∈ file.sourceLine path wantedLine ↔
      ∃ row ∈ file.rows, ∃ source address, row.BeginsLine wantedLine source address ∧
        path <:+ source ∧ x = file.toRuntime address := by
  rw [sourceLine_eq, mem_sortUnique, List.mem_map]
  constructor
  · rintro ⟨address, hfound, rfl⟩
    obtain ⟨row, hrow, hbegins⟩ := List.mem_filterMap.mp hfound
    obtain ⟨source, hline, hsuffix⟩ := LineRow.begins_eq_some_iff.mp hbegins
    exact ⟨row, hrow, source, address, hline, hsuffix, rfl⟩
  · rintro ⟨row, hrow, source, address, hline, hsuffix, rfl⟩
    refine ⟨address, List.mem_filterMap.mpr ⟨row, hrow, ?_⟩, rfl⟩
    exact LineRow.begins_eq_some_iff.mpr ⟨source, hline, hsuffix⟩

/-- The addresses of a line of a file are found exactly when every row whose path merely ends with the
text of the file begins the line where a row of the file does too. -/
theorem sourceLine_hitsOnly_iff (path : Text) (wantedLine : Int) :
    file.HitsOnly path wantedLine (file.sourceLine path wantedLine) ↔
      ∀ row ∈ file.rows, ∀ source address, row.BeginsLine wantedLine source address →
        path <:+ source → ¬ Names source path → file.LineAt path wantedLine address := by
  constructor
  · intro hhits row hrow source address hline hsuffix _
    have hfound := mem_sourceLine_iff.mpr ⟨row, hrow, source, address, hline, hsuffix, rfl⟩
    obtain ⟨address', hat, heq⟩ := (hhits.exact _).mp hfound
    rwa [file.toRuntime_inj.mp heq]
  · intro hstray
    refine ⟨?_, fun x => mem_sourceLine_iff.trans ?_⟩
    · rw [sourceLine_eq]
      exact pairwise_sortUnique _
    constructor
    · rintro ⟨row, hrow, source, address, hline, hsuffix, rfl⟩
      refine ⟨address, ?_, rfl⟩
      by_cases hnames : Names source path
      · exact ⟨row, hrow, source, hline, hnames⟩
      · exact hstray row hrow source address hline hsuffix hnames
    · rintro ⟨address, ⟨row, hrow, source, hline, hnames⟩, rfl⟩
      exact ⟨row, hrow, source, address, hline, hnames.suffix, rfl⟩

end DebugFile

/-! ### Two files -/

/-- A program whose only line is line 3 of another file. -/
def domainFile : DebugFile where
  info := ⟨"/bin/prog".toList, 0x400000, 0x402000⟩
  dynamic := false
  symbols := []
  dwarf := some
    { units := [[⟨some "src/domain.cpp".toList, some 3, some 1, some true, some 0x401000⟩]]
      lineAt := fun _ => none
      scopesAt := fun _ => [] }

/-- The third line of `domain.cpp` is found for `main.cpp`. -/
theorem other_file_hit :
    domainFile.sourceLine "main.cpp".toList 3 = [0x401000] ∧
      ¬ domainFile.HitsOnly "main.cpp".toList 3 (domainFile.sourceLine "main.cpp".toList 3) := by
  have hfound : domainFile.sourceLine "main.cpp".toList 3 = [0x401000] := by decide
  refine ⟨hfound, fun hhits => ?_⟩
  obtain ⟨address, ⟨row, hrow, source, hline, hnames⟩, -⟩ :=
    (hhits.exact 0x401000).mp (hfound ▸ List.mem_singleton_self _)
  obtain rfl := List.mem_singleton.mp hrow
  obtain rfl := Option.some.inj hline.source
  rcases hnames with heq | hsuffix
  · exact absurd heq (by decide)
  · exact absurd hsuffix (by decide)

end Cosy
