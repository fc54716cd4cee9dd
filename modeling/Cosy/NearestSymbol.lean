import Cosy.Lib.FirstGreatest
import Cosy.Refreshing

/-!
# The nearest symbol

`function` goes through the symbols of a file once and keeps the one with the greatest value among
those that cover the address. A symbol without a size covers everything behind it.
-/

namespace Cosy

open FirstGreatest

variable {file : DebugFile} {address relative : Address}

/-- The range of the symbol, which has no end if it has no size. -/
def Symbol.Covers (symbol : Symbol) (relative : Address) : Prop :=
  symbol.value ≤ relative ∧
    (symbol.size = 0 ∨ relative.toNat < symbol.value.toNat + symbol.size.toNat)

/-- The range ends within the address space. -/
def Symbol.Fits (symbol : Symbol) : Prop := symbol.value.toNat + symbol.size.toNat < 2 ^ 64

/-- No address is in the ranges of both. -/
def Symbol.Apart (symbol other : Symbol) : Prop :=
  ∀ relative, ¬ (symbol.Covers relative ∧ other.Covers relative)

/-- What `read_symbols` sees to: no symbol is without a name. -/
def DebugFile.Named (file : DebugFile) : Prop := ∀ symbol ∈ file.symbols, symbol.name ≠ []

/-- Of the symbols that cover the address the one with the greatest value, and of those the first. -/
def DebugFile.Nearest (file : DebugFile) (address : Address) : Symbol → Prop :=
  IsFirst (fun symbol => symbol.Covers (file.toDwarf address)) Symbol.value file.symbols

/-- Every symbol can be found by its name and by its range. -/
structure DebugFile.Separate (file : DebugFile) : Prop where
  names : (file.symbols.map Symbol.name).Nodup
  sized : ∀ symbol ∈ file.symbols, symbol.size ≠ 0
  disjoint : file.symbols.Pairwise Symbol.Apart

/-! ### The symbols of a file -/

theorem ElfSymbol.function?_named {entry : ElfSymbol} {symbol : Symbol}
    (hsymbol : entry.function? = some symbol) : symbol.name ≠ [] := by
  unfold ElfSymbol.function? at hsymbol
  split at hsymbol
  · cases hsymbol
  · cases hname : entry.name with
    | none => simp [hname] at hsymbol
    | some name =>
        cases name with
        | nil => simp [hname] at hsymbol
        | cons ch rest =>
            simp only [hname, Option.some.injEq] at hsymbol
            rw [← hsymbol]
            exact List.cons_ne_nil ch rest

theorem DebugFile.ofImage_named (image : ElfImage) (path : Text) (bias last : Address) :
    (DebugFile.ofImage image path bias last).Named := by
  intro symbol hsymbol
  obtain ⟨elfSection, -, hsymbol⟩ := List.mem_flatMap.mp hsymbol
  unfold ElfSection.symbols at hsymbol
  split at hsymbol
  · cases hsymbol
  · obtain ⟨entry, -, hentry⟩ := List.mem_filterMap.mp hsymbol
    obtain ⟨found, -, hfound⟩ := Option.bind_eq_some_iff.mp hentry
    exact ElfSymbol.function?_named hfound

/-! ### The pass over the symbols -/

theorem Symbol.covers_iff {symbol : Symbol} (hfits : symbol.Fits) :
    symbol.Covers relative ↔
      symbol.value ≤ relative ∧ (symbol.size = 0 ∨ relative < symbol.value + symbol.size) := by
  have hsum : (symbol.value + symbol.size).toNat = symbol.value.toNat + symbol.size.toNat := by
    rw [BitVec.toNat_add, Nat.mod_eq_of_lt hfits]
  rw [Symbol.Covers, BitVec.lt_def, hsum]

instance : Std.Symm Symbol.Apart where
  symm _ _ hapart relative hboth := hapart relative hboth.symm

instance (symbol : Symbol) : DecidablePred symbol.Covers := fun _ =>
  inferInstanceAs (Decidable (_ ∧ _))

theorem DebugFile.closer_eq_better {symbols : List Symbol} (hfits : ∀ symbol ∈ symbols, symbol.Fits)
    (best : Option Symbol) :
    symbols.foldl (closer relative) best
      = symbols.foldl (better (fun symbol => symbol.Covers relative) Symbol.value) best := by
  induction symbols generalizing best with
  | nil => rfl
  | cons symbol rest ih =>
      have hround : closer relative best symbol
          = better (fun symbol => symbol.Covers relative) Symbol.value best symbol := by
        unfold closer better
        simp only [Symbol.covers_iff (hfits symbol List.mem_cons_self), and_assoc]
      rw [List.foldl_cons, List.foldl_cons, hround]
      exact ih (fun other hmem => hfits other (List.mem_cons_of_mem _ hmem)) _

section Table

variable (hnamed : file.Named) (hfits : ∀ symbol ∈ file.symbols, symbol.Fits)

include hnamed hfits

theorem DebugFile.function_cases (address : Address) :
    ((∀ symbol ∈ file.symbols, ¬ symbol.Covers (file.toDwarf address)) ∧
      file.function address = []) ∨
    ∃ symbol, file.Nearest address symbol ∧ file.function address = symbol.name ∧
      symbol.name ≠ [] := by
  unfold DebugFile.function
  rw [DebugFile.closer_eq_better hfits none]
  cases hfound : file.symbols.foldl _ none with
  | none => exact Or.inl ⟨foldl_better_eq_none_iff.mp hfound, rfl⟩
  | some symbol =>
      have hnearest := isFirst_of_foldl hfound
      exact Or.inr ⟨symbol, hnearest, rfl, hnamed symbol hnearest.mem⟩

theorem DebugFile.function_eq_nil_iff (address : Address) :
    file.function address = [] ↔
      ∀ symbol ∈ file.symbols, ¬ symbol.Covers (file.toDwarf address) := by
  rcases DebugFile.function_cases hnamed hfits address with
    ⟨hnone, hempty⟩ | ⟨symbol, hnearest, hname, hne⟩
  · exact iff_of_true hempty hnone
  · refine iff_of_false (hname ▸ hne) fun hnone => ?_
    exact hnone symbol hnearest.mem hnearest.qualifies

/-- Where only one symbol covers an address, its name is found there. -/
theorem DebugFile.function_of_covers (hseparate : file.Separate) {symbol : Symbol}
    (hsymbol : symbol ∈ file.symbols) (hcovers : symbol.Covers (file.toDwarf address)) :
    file.function address = symbol.name := by
  rcases DebugFile.function_cases hnamed hfits address with
    ⟨hnone, -⟩ | ⟨found, hnearest, hname, -⟩
  · exact absurd hcovers (hnone symbol hsymbol)
  · by_cases heq : symbol = found
    · rw [hname, heq]
    · have hapart := hseparate.disjoint.forall hsymbol hnearest.mem heq
      exact absurd ⟨hcovers, hnearest.qualifies⟩ (hapart _)

end Table

/-! ### There and back -/

theorem DebugFile.symbol_of_mem (hnames : (file.symbols.map Symbol.name).Nodup) {symbol : Symbol}
    (hsymbol : symbol ∈ file.symbols) :
    file.symbol symbol.name = some (file.toRuntime symbol.value) := by
  have hfound : file.symbols.find? (fun other => other.name = symbol.name) = some symbol := by
    rw [List.find?_eq_some_iff_append]
    obtain ⟨before, after, hsplit⟩ := List.append_of_mem hsymbol
    refine ⟨decide_eq_true rfl, before, after, hsplit, fun other hother => ?_⟩
    rw [hsplit, List.map_append, List.map_cons, List.nodup_append] at hnames
    have hne := hnames.2.2 _ (List.mem_map_of_mem hother) _ List.mem_cons_self
    simpa using hne
  rw [DebugFile.symbol, hfound, Option.map_some]

/-- The addresses of a function, from the one that its name stands for. -/
theorem Symbol.covers_offset {symbol : Symbol} (hfits : symbol.Fits) {i : Nat}
    (hi : i < symbol.size.toNat) :
    symbol.Covers (file.toDwarf (file.toRuntime symbol.value + BitVec.ofNat 64 i)) := by
  have hrelative : file.toDwarf (file.toRuntime symbol.value + BitVec.ofNat 64 i)
      = symbol.value + BitVec.ofNat 64 i := by
    have hsum : file.toRuntime symbol.value + BitVec.ofNat 64 i
        = file.toRuntime (symbol.value + BitVec.ofNat 64 i) := BitVec.add_assoc _ _ _
    rw [hsum, file.toDwarf_toRuntime]
  have hvalue : (symbol.value + BitVec.ofNat 64 i).toNat = symbol.value.toNat + i := by
    unfold Symbol.Fits at hfits
    rw [BitVec.toNat_add, BitVec.toNat_ofNat]
    omega
  rw [hrelative]
  refine ⟨?_, Or.inr ?_⟩
  · rw [BitVec.le_def, hvalue]
    exact Nat.le_add_right _ _
  · omega

/-- `function` finds nothing exactly where no symbol covers the address, and otherwise the name of the
nearest symbol. Where names and ranges are unambiguous, it is the inverse of `symbol`. -/
theorem DebugFile.function_nearest (hnamed : file.Named)
    (hfits : ∀ symbol ∈ file.symbols, symbol.Fits) :
    (∀ address,
      (file.function address = [] ↔
        ∀ symbol ∈ file.symbols, ¬ symbol.Covers (file.toDwarf address)) ∧
      ((∃ symbol ∈ file.symbols, symbol.Covers (file.toDwarf address)) →
        ∃ symbol, file.Nearest address symbol ∧ file.function address = symbol.name)) ∧
    (file.Separate → ∀ symbol ∈ file.symbols, ∃ base, file.symbol symbol.name = some base ∧
      ∀ i < symbol.size.toNat, file.function (base + BitVec.ofNat 64 i) = symbol.name) := by
  refine ⟨fun address => ⟨DebugFile.function_eq_nil_iff hnamed hfits address, ?_⟩, ?_⟩
  · rintro ⟨covering, hmem, hcovers⟩
    rcases DebugFile.function_cases hnamed hfits address with ⟨hnone, -⟩ | ⟨symbol, hnearest, hname, -⟩
    · exact absurd hcovers (hnone covering hmem)
    · exact ⟨symbol, hnearest, hname⟩
  · intro hseparate symbol hsymbol
    refine ⟨_, DebugFile.symbol_of_mem hseparate.names hsymbol, fun i hi => ?_⟩
    exact DebugFile.function_of_covers hnamed hfits hseparate hsymbol
      (Symbol.covers_offset (hfits symbol hsymbol) hi)

/-- A file of two functions, one behind the other. -/
def adjacentImage : ElfImage :=
  ⟨etDyn, [⟨shtSymtab, 24, [some ⟨some "first".toList, sttFunc, 0x1000, 0x40⟩,
    some ⟨some "second".toList, sttFunc, 0x1040, 0x10⟩]⟩], none⟩

def adjacentFile : DebugFile := .ofImage adjacentImage "/bin/prog".toList 0x400000 0x402000

theorem adjacentFile_separate : adjacentFile.Separate where
  names := by decide
  sized := by decide
  disjoint := by
    have hapart : Symbol.Apart ⟨"first".toList, 0x1000, 0x40⟩ ⟨"second".toList, 0x1040, 0x10⟩ := by
      rintro relative ⟨⟨-, hfirst⟩, hsecond, -⟩
      rcases hfirst with hsize | hbelow
      · exact absurd hsize (by decide)
      · have habove : 0x1040 ≤ relative.toNat := hsecond
        have hend : relative.toNat < 0x1040 := hbelow
        omega
    exact List.pairwise_pair.mpr hapart

theorem DebugFile.function_nearest_adjacent :
    adjacentFile.function 0x402000 = [] ∧
      ∃ base, adjacentFile.symbol "first".toList = some base ∧
        ∀ i < 0x40, adjacentFile.function (base + BitVec.ofNat 64 i) = "first".toList := by
  have hnamed : adjacentFile.Named := DebugFile.ofImage_named _ _ _ _
  have hfits : ∀ symbol ∈ adjacentFile.symbols, symbol.Fits := by
    unfold Symbol.Fits
    decide
  obtain ⟨hfunction, hinverse⟩ := DebugFile.function_nearest hnamed hfits
  exact ⟨(hfunction 0x402000).1.mpr (by decide),
    hinverse adjacentFile_separate ⟨"first".toList, 0x1000, 0x40⟩ (by decide)⟩

end Cosy
