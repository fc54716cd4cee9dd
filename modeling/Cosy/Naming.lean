import Cosy.Attribution
import Cosy.Locations
import Cosy.MemoryMaps
import Cosy.NearestSymbol

/-!
# From the text of the maps to a name and back

What lies between the text of the memory maps and the answer to `break NAME`: lines are read, grouped
by file and turned into load biases, files are opened in the order of a hash table, and the location
is taken apart and searched for. A breakpoint at the function of a library that is loaded as it should
be ends up where the function is, and its name is shown all over it.
-/

namespace Cosy

open Effect

open scoped List

variable {maps : List Mapping} {disk : Disk} {path : Text} {image : ElfImage} {b address : Address}
  {pageBits : Nat} {segments : List Segment} {symbol : Symbol}

/-- A refresh that finds this text in the memory maps. -/
def RefreshCall.Finds (call : RefreshCall) (text : Text) : Prop :=
  call.maps = (readMaps (some text)).toOption

/-- The file is a library that is loaded at `b`, and no other mapping places it lower. -/
structure PlacedAt (pageBits : Nat) (disk : Disk) (maps : List Mapping) (path : Text)
    (image : ElfImage) (segments : List Segment) (b : Address) : Prop where
  libelf : disk.libelf = true
  content : disk.content path = some (.elf image)
  dynamic : image.type = etDyn
  load : LoadedAt pageBits b segments (mappingsOf maps path)
  above : ∀ map ∈ mappingsOf maps path, 'x' ∉ map.permissions → b ≤ map.start - map.offset

/-- The address is one of the code of the file, and no other file that is loaded spans it. -/
structure CodeOf (disk : Disk) (maps : List Mapping) (path : Text) (address : Address) : Prop where
  within : ∃ map ∈ mappingsOf maps path, 'x' ∈ map.permissions ∧ map.start ≤ address ∧
    address < map.last
  alone : ∀ other file, other ≠ path → debugFile disk maps other = some file →
    ¬ Spans file.dynamic (mappingsOf maps other) address

/-- No other file that is loaded has a function of this name. -/
def DefinedOnlyIn (disk : Disk) (maps : List Mapping) (path name : Text) : Prop :=
  ∀ map ∈ maps, ∀ file, map.path ≠ path → debugFile disk maps map.path = some file →
    file.symbol name = none

/-- A name that is not read as an address, a module or a line. -/
structure IsName (name : Text) : Prop where
  star : name.head? ≠ some '*'
  mark : '!' ∉ name
  colon : ':' ∉ name

/-! ### The file of a library -/

namespace PlacedAt

variable (hplaced : PlacedAt pageBits disk maps path image segments b)

include hplaced

theorem debugFile : Cosy.debugFile disk maps path
    = some (.ofImage image path b (lastAddress (mappingsOf maps path))) :=
  debugFile_at hplaced.libelf hplaced.content (hplaced.load.loadBias_eq_iff.mpr hplaced.above) rfl

theorem mapped : ∃ map ∈ maps, map.path = path := by
  obtain ⟨segment, hsegment, -⟩ := hplaced.load.first
  obtain ⟨map, hmap, -⟩ := hplaced.load.mapped segment hsegment
  obtain ⟨hmem, hpath⟩ := List.mem_filter.mp hmap
  exact ⟨map, hmem, of_decide_eq_true hpath⟩

theorem toRuntime (last value : Address) :
    (DebugFile.ofImage image path b last).toRuntime value = b + value := by
  have hbase : (DebugFile.ofImage image path b last).runtimeBase = b :=
    if_pos (decide_eq_true hplaced.dynamic)
  rw [DebugFile.toRuntime, hbase]

/-- Its code is among what it spans. -/
theorem spans (hcode : CodeOf disk maps path address) (dynamic : Bool) :
    Spans dynamic (mappingsOf maps path) address := by
  obtain ⟨map, hmap, hexecutable, hstart, hlast⟩ := hcode.within
  obtain ⟨segment, hsegment, hmapped⟩ := hplaced.load.executable map hmap hexecutable
  obtain ⟨first, hfirst, hvaddr, hoffset⟩ := hplaced.load.first
  obtain ⟨lowest, hlowest, hbegin, hzero⟩ := hplaced.load.mapped first hfirst
  refine ⟨fun _ => ⟨lowest, hlowest, ?_⟩, map, hmap, hlast⟩
  have hb : lowest.start - lowest.offset = b := by
    rw [hvaddr, pageFloor_zero] at hbegin
    rw [hzero, hoffset, pageFloor_zero]
    exact (BitVec.sub_zero _).trans (BitVec.eq_of_toNat_eq hbegin)
  have habove := hmapped.start
  rw [hb]
  rw [BitVec.le_def] at hstart ⊢
  omega

/-- And is answered by it, whatever the order of the files. -/
theorem fileAt (hcode : CodeOf disk maps path address) {order : List Text}
    (hperm : order ~ pathsOf maps) :
    ModuleManager.fileAt (order.filterMap (Cosy.debugFile disk maps)) address
      = some (.ofImage image path b (lastAddress (mappingsOf maps path))) := by
  have hanswer := mem_answer_iff.mpr
    ⟨hplaced.debugFile, (contains_iff hplaced.debugFile).mpr (hplaced.spans hcode _)⟩
  rw [fileAt_filterMap]
  refine FirstMatch.findSome?_of_agree
    ⟨path, hperm.mem_iff.mpr (mem_pathsOf.mpr hplaced.mapped), Option.isSome_iff_exists.mpr ⟨_, hanswer⟩⟩
    fun other _ found hfound => ?_
  obtain ⟨hother, hcontains⟩ := mem_answer_iff.mp hfound
  by_cases heq : other = path
  · subst heq
    exact Option.some.inj (hother.symm.trans hplaced.debugFile)
  · exact absurd ((contains_iff hother).mp hcontains) (hcode.alone other found heq hother)

/-- A function of it is found where it has been loaded. -/
theorem resolve (hnames : (image.readSymbols.map Symbol.name).Nodup)
    (hsymbol : symbol ∈ image.readSymbols) (honly : DefinedOnlyIn disk maps path symbol.name)
    {module : Text} (hmodule : moduleMatches path module = true) {order : List Text}
    (hperm : order ~ pathsOf maps) :
    ModuleManager.resolve (order.filterMap (Cosy.debugFile disk maps)) symbol.name module
      = some (b + symbol.value) := by
  have hoffers : Offers disk maps symbol.name module
      (.ofImage image path b (lastAddress (mappingsOf maps path))) (b + symbol.value) := by
    refine ⟨hplaced.mapped, hplaced.debugFile, hmodule, ?_⟩
    rw [DebugFile.symbol_of_mem hnames hsymbol, hplaced.toRuntime]
  have hsole : ∀ file x, Offers disk maps symbol.name module file x → x = b + symbol.value := by
    intro file x hfile
    by_cases heq : file.info.path = path
    · have hsame := hfile.loaded
      rw [heq, hplaced.debugFile] at hsame
      have hfound := hfile.symbol
      rw [← Option.some.inj hsame, hoffers.symbol] at hfound
      exact (Option.some.inj hfound).symm
    · obtain ⟨map, hmap, hpath⟩ := hfile.mapped
      have hnone := honly map hmap file (hpath ▸ heq) (hpath ▸ hfile.loaded)
      rw [hfile.symbol] at hnone
      cases hnone
  exact resolve_of_offers (fun file other x y hx hy => (hsole file x hx).trans (hsole other y hy).symm)
    hoffers hperm

end PlacedAt

/-- Whatever the order in which the files come: the name of a function of a library, with its module
or without, is resolved to where the function has been loaded, and the function that is shown for an
address in it is that name. -/
theorem refresh_names {records : List MapRecord} {text : Text} (hprinted : PrintedMaps records text)
    (hmaps : maps = (records.filter MapRecord.isFile).map MapRecord.mapping) {call : RefreshCall}
    (hfinds : call.Finds text) (s : Symbolizer)
    (hplaced : PlacedAt pageBits call.disk maps path image segments b)
    (hfits : ∀ symbol ∈ image.readSymbols, symbol.Fits)
    (hseparate : (DebugFile.ofImage image path b (lastAddress (mappingsOf maps path))).Separate)
    (hsymbol : symbol ∈ image.readSymbols) (hname : IsName symbol.name)
    (honly : DefinedOnlyIn call.disk maps path symbol.name) :
    let manager := (endState (refresh call) s).manager
    resolveSpecification manager symbol.name = [b + symbol.value] ∧
      (∀ module, moduleMatches path module = true → '!' ∉ module → module.head? ≠ some '*' →
        resolveSpecification manager (module ++ '!' :: symbol.name) = [b + symbol.value]) ∧
      ∀ i < symbol.size.toNat, CodeOf call.disk maps path (b + symbol.value + BitVec.ofNat 64 i) →
        manager.function (b + symbol.value + BitVec.ofNat 64 i) = symbol.name := by
  intro manager
  have hcall : call.maps = some maps := by
    rw [RefreshCall.Finds, readMaps_of_printed hprinted, ← hmaps] at hfinds
    exact hfinds
  have hperm := (enumerates_pathsOf maps).perm (call.enumerates maps hcall)
  have hresolve : ∀ module, moduleMatches path module = true →
      manager.resolveSymbol symbol.name module = some (b + symbol.value) := by
    intro module hmodule
    rw [resolveSymbol_refresh call hcall]
    exact hplaced.resolve hseparate.names hsymbol honly hmodule hperm
  refine ⟨?_, fun module hmodule hmark hstar => ?_, fun i hi hcode => ?_⟩
  · rw [resolveSpecification_of_head manager hname.star, splitFirst_eq_none_iff.mpr hname.mark,
      splitLast_eq_none_iff.mpr hname.colon]
    dsimp only
    rw [hresolve [] rfl]
    rfl
  · have hhead : (module ++ '!' :: symbol.name).head? ≠ some '*' := by
      cases module with
      | nil => simp
      | cons ch rest => exact hstar
    rw [resolveSpecification_of_head manager hhead, splitFirst_append hmark]
    dsimp only
    rw [hresolve module hmodule]
    rfl
  · have hanswers : ModuleManager.fileAt ((endState (refresh call) s).debugFiles.map OpenFile.file)
        (b + symbol.value + BitVec.ofNat 64 i)
          = some (.ofImage image path b (lastAddress (mappingsOf maps path))) := by
      rw [refresh_files call hcall]
      exact hplaced.fileAt hcode hperm
    let file : DebugFile := .ofImage image path b (lastAddress (mappingsOf maps path))
    have hcovers : symbol.Covers (file.toDwarf (file.toRuntime symbol.value + BitVec.ofNat 64 i)) :=
      Symbol.covers_offset (hfits symbol hsymbol) hi
    rw [hplaced.toRuntime] at hcovers
    calc manager.function (b + symbol.value + BitVec.ofNat 64 i)
        = file.function (b + symbol.value + BitVec.ofNat 64 i) :=
          ModuleManager.ofFiles_function hanswers
      _ = symbol.name := DebugFile.function_of_covers (DebugFile.ofImage_named _ _ _ _) hfits
          hseparate hsymbol hcovers

/-! ### A library with one function -/

theorem head_libPath : ∀ ch ∈ libPath.head?, isTrimmed ch = false := by
  simp [libPath, isTrimmed]

theorem last_libPath : ∀ ch ∈ libPath.getLast?, isTrimmed ch = false := by
  simp [libPath, isTrimmed]

def libTextRecord : MapRecord :=
  { libraryRecord with
    start := 0x7f0000011000
    last := 0x7f0000012000
    offset := 0x1000
    path := libPath
    line_path := by decide
    head_path := head_libPath
    last_path := last_libPath }

def libHeaderRecord : MapRecord :=
  { libTextRecord with
    start := 0x7f0000010000
    last := 0x7f0000011000
    offset := 0
    permissions := "r--p".toList
    length_permissions := rfl
    solid_permissions := List.all_iff_forall_prop.mp (by decide) }

def libHeaderLine : Text := "7f0000010000-7f0000011000 r--p 00000000 08:02 1735 /lib.so".toList

def libTextLine : Text := "7f0000011000-7f0000012000 r-xp 00001000 08:02 1735 /lib.so".toList

theorem printed_libLines : PrintedMaps [libHeaderRecord, libTextRecord]
    (libHeaderLine ++ '\n' :: (libTextLine ++ ['\n'])) := by
  have hmiddle : LowerHex "7f0000011000".toList (0x7f0000011000#64).toNat :=
    lowerHex_of_fromChars (by decide) (by decide)
  have hheader : libHeaderRecord.IsPrinted libHeaderLine :=
    ⟨"7f0000010000".toList, "7f0000011000".toList, "00000000".toList, [],
      lowerHex_of_fromChars (by decide) (by decide), hmiddle,
      lowerHex_of_fromChars (by decide) (by decide), by simp, rfl⟩
  have htext : libTextRecord.IsPrinted libTextLine :=
    ⟨"7f0000011000".toList, "7f0000012000".toList, "00001000".toList, [], hmiddle,
      lowerHex_of_fromChars (by decide) (by decide), lowerHex_of_fromChars (by decide) (by decide),
      by simp, rfl⟩
  exact .cons hheader (.cons htext .nil)

theorem refresh_names_lib :
    let manager := (endState (refresh (libCall libMaps (by decide) (by decide))) .empty).manager
    resolveSpecification manager "f".toList = [0x7f0000011040] ∧
      resolveSpecification manager "lib.so!f".toList = [0x7f0000011040] ∧
      manager.function 0x7f0000011048 = "f".toList := by
  have hgroup : mappingsOf libMaps libPath = libMaps := by decide
  have hlib : ∀ map ∈ libMaps, map.path = libPath := by decide
  have hplaced : PlacedAt 12 (libCall libMaps (by decide) (by decide)).disk libMaps libPath libImage
      libSegments 0x7f0000010000 :=
    ⟨rfl, rfl, rfl, hgroup.symm ▸ libMaps_loaded, by decide⟩
  have hseparate : (DebugFile.ofImage libImage libPath 0x7f0000010000
      (lastAddress (mappingsOf libMaps libPath))).Separate :=
    ⟨by decide, by decide, List.pairwise_singleton _ _⟩
  have hfits : ∀ symbol ∈ libImage.readSymbols, symbol.Fits := by
    unfold Symbol.Fits
    decide
  have hmaps : libMaps
      = ([libHeaderRecord, libTextRecord].filter MapRecord.isFile).map MapRecord.mapping := rfl
  have hfinds : (libCall libMaps (by decide) (by decide)).Finds
      (libHeaderLine ++ '\n' :: (libTextLine ++ ['\n'])) := by
    rw [RefreshCall.Finds, readMaps_of_printed printed_libLines]
    rfl
  have hsymbol : (⟨"f".toList, 0x1040, 16⟩ : Symbol) ∈ libImage.readSymbols := by decide
  obtain ⟨hname, hmodule, hfunction⟩ := refresh_names printed_libLines hmaps hfinds .empty hplaced hfits
    hseparate hsymbol ⟨by decide, by decide, by decide⟩ fun map hmap _ hne => absurd (hlib map hmap) hne
  refine ⟨hname, hmodule "lib.so".toList (by decide) (by decide) (by decide), hfunction 8 (by decide) ?_⟩
  refine ⟨⟨libMaps[1], by decide, by decide, by decide, by decide⟩, ?_⟩
  intro other file hne _ hspans
  obtain ⟨map, hmap, -⟩ := hspans.below
  obtain ⟨hmem, hpath⟩ := List.mem_filter.mp hmap
  exact hne ((of_decide_eq_true hpath).symm.trans (hlib map hmem))

end Cosy
