import Cosy.Refreshing

/-!
# The load bias

The bias of a file is the least of `start - offset` over all of its mappings, also those that have
nothing to do with the load: a program may map its own file once more, as data and anywhere.
-/

namespace Cosy

open Effect

variable {maps group : List Mapping} {disk : Disk} {path : Text} {b x : Address} {pageBits : Nat}

/-! ### The least difference -/

/-- What holds of everything above a value holds of the least difference if it holds of all. -/
theorem foldl_bias_iff {p : Address → Prop} (hmono : ∀ x y, x ≤ y → p x → p y)
    (group : List Mapping) (bias : Address) :
    p (group.foldl
        (fun bias map => if map.start - map.offset < bias then map.start - map.offset else bias)
        bias) ↔
      p bias ∧ ∀ map ∈ group, p (map.start - map.offset) := by
  induction group generalizing bias with
  | nil => simp
  | cons map rest ih =>
      rw [List.foldl_cons, ih, List.forall_mem_cons, ← and_assoc]
      refine and_congr_left' ?_
      split
      · rename_i hlt
        exact ⟨fun hp => ⟨hmono _ _ (BitVec.le_of_lt hlt) hp, hp⟩, And.right⟩
      · rename_i hge
        exact ⟨fun hp => ⟨hp, hmono _ _ (BitVec.not_lt.mp hge) hp⟩, And.left⟩

theorem le_allOnes (x : Address) : x ≤ BitVec.allOnes 64 := by
  rw [BitVec.le_def, BitVec.toNat_allOnes]
  omega

theorem le_loadBias_iff : x ≤ loadBias group ↔ ∀ map ∈ group, x ≤ map.start - map.offset := by
  rw [loadBias, foldl_bias_iff (p := (x ≤ ·)) fun _ _ hle hx => BitVec.le_trans hx hle]
  exact and_iff_right (le_allOnes x)

theorem address_lt_of_lt_of_le {x y z : Address} (hlt : x < y) (hle : y ≤ z) : x < z :=
  Nat.lt_of_lt_of_le hlt hle

theorem lt_loadBias_iff (hne : group ≠ []) :
    x < loadBias group ↔ ∀ map ∈ group, x < map.start - map.offset := by
  rw [loadBias, foldl_bias_iff (p := (x < ·)) fun _ _ hle hx => address_lt_of_lt_of_le hx hle]
  refine and_iff_right_of_imp fun hall => ?_
  obtain ⟨map, hmap⟩ := List.exists_mem_of_ne_nil group hne
  exact address_lt_of_lt_of_le (hall map hmap) (le_allOnes _)

theorem loadBias_le {map : Mapping} (hmap : map ∈ group) : loadBias group ≤ map.start - map.offset :=
  le_loadBias_iff.mp (BitVec.le_refl _) map hmap

/-! ### A load -/

def pageFloor (pageBits : Nat) (address : Address) : Address := (address >>> pageBits) <<< pageBits

theorem toNat_pageFloor (address : Address) :
    (pageFloor pageBits address).toNat = address.toNat / 2 ^ pageBits * 2 ^ pageBits := by
  have hle : address.toNat / 2 ^ pageBits * 2 ^ pageBits ≤ address.toNat := Nat.div_mul_le_self _ _
  rw [pageFloor, BitVec.toNat_shiftLeft, BitVec.toNat_ushiftRight, Nat.shiftRight_eq_div_pow,
    Nat.shiftLeft_eq, Nat.mod_eq_of_lt]
  exact Nat.lt_of_le_of_lt hle address.isLt

theorem pageFloor_mono {address address' : Address} (hle : address ≤ address') :
    (pageFloor pageBits address).toNat ≤ (pageFloor pageBits address').toNat := by
  rw [toNat_pageFloor, toNat_pageFloor]
  exact Nat.mul_le_mul_right _ (Nat.div_le_div_right hle)

@[simp]
theorem pageFloor_zero : pageFloor pageBits 0 = 0 := by
  simp [pageFloor]

/-- A loadable segment: its `p_vaddr` and its `p_offset`. -/
structure Segment where
  vaddr : Address
  offset : Address

/-- The mapping is the one that the segment has when the file is loaded at `b`. -/
structure Segment.MappedBy (pageBits : Nat) (b : Address) (segment : Segment) (map : Mapping) :
    Prop where
  start : map.start.toNat = b.toNat + (pageFloor pageBits segment.vaddr).toNat
  offset : map.offset = pageFloor pageBits segment.offset

/-- All the mappings of a file: those of its segments, loaded at `b`, and others that are not
    executable. -/
structure LoadedAt (pageBits : Nat) (b : Address) (segments : List Segment) (group : List Mapping) :
    Prop where
  first : ∃ segment ∈ segments, segment.vaddr = 0 ∧ segment.offset = 0
  ordered : ∀ segment ∈ segments, segment.offset ≤ segment.vaddr
  mapped : ∀ segment ∈ segments, ∃ map ∈ group, segment.MappedBy pageBits b map
  executable : ∀ map ∈ group, 'x' ∈ map.permissions →
    ∃ segment ∈ segments, segment.MappedBy pageBits b map

/-- No mapping of a segment places the file below `b`. -/
theorem Segment.MappedBy.le {segment : Segment} {map : Mapping}
    (hmap : segment.MappedBy pageBits b map) (hordered : segment.offset ≤ segment.vaddr) :
    b ≤ map.start - map.offset := by
  have hoffset : map.offset.toNat ≤ (pageFloor pageBits segment.vaddr).toNat := by
    rw [hmap.offset]
    exact pageFloor_mono hordered
  have hstart := hmap.start
  have hle : map.offset ≤ map.start := by
    rw [BitVec.le_def]
    omega
  rw [BitVec.le_def, BitVec.toNat_sub_of_le hle]
  omega

/-- The mapping of the first segment places it there. -/
theorem LoadedAt.loadBias_le {segments : List Segment} (hload : LoadedAt pageBits b segments group) :
    loadBias group ≤ b := by
  obtain ⟨segment, hsegment, hvaddr, hoffset⟩ := hload.first
  obtain ⟨map, hmap, hstart, hmapOffset⟩ := hload.mapped segment hsegment
  have hb : map.start - map.offset = b := by
    rw [hvaddr, pageFloor_zero] at hstart
    have hzero : map.offset = 0 := by rw [hmapOffset, hoffset, pageFloor_zero]
    rw [hzero]
    exact (BitVec.sub_zero _).trans (BitVec.eq_of_toNat_eq hstart)
  exact hb ▸ Cosy.loadBias_le hmap

theorem LoadedAt.loadBias_eq_iff {segments : List Segment}
    (hload : LoadedAt pageBits b segments group) :
    loadBias group = b ↔
      ∀ map ∈ group, 'x' ∉ map.permissions → b ≤ map.start - map.offset := by
  have hle := hload.loadBias_le
  calc loadBias group = b ↔ b ≤ loadBias group := by
        constructor
        · rintro rfl
          exact BitVec.le_refl _
        · exact fun hge => BitVec.le_antisymm hle hge
    _ ↔ ∀ map ∈ group, b ≤ map.start - map.offset := le_loadBias_iff
    _ ↔ ∀ map ∈ group, 'x' ∉ map.permissions → b ≤ map.start - map.offset := by
        refine forall₂_congr fun map hmap => ⟨fun hb _ => hb, fun hb => ?_⟩
        by_cases hexecutable : 'x' ∈ map.permissions
        · obtain ⟨segment, hsegment, hmapped⟩ := hload.executable map hmap hexecutable
          exact hmapped.le (hload.ordered segment hsegment)
        · exact hb hexecutable

/-! ### Addresses of a loaded file -/

/-- Addresses of the file are where the load has put them. -/
structure DebugFile.BiasRight (file : DebugFile) (b : Address) : Prop where
  base : file.runtimeBase = b
  symbol : ∀ item ∈ file.symbols, file.symbol item.name = some (b + item.value)
  inverse : ∀ item ∈ file.symbols, file.toDwarf (b + item.value) = item.value

/-- No name stands for two functions. -/
def DebugFile.Unambiguous (file : DebugFile) : Prop :=
  ∀ item ∈ file.symbols, ∀ other ∈ file.symbols, item.name = other.name → item.value = other.value

/-- Every symbol is found at its own address exactly when names are unambiguous. -/
theorem DebugFile.symbol_iff (file : DebugFile) :
    (∀ item ∈ file.symbols, file.symbol item.name = some (file.toRuntime item.value)) ↔
      file.Unambiguous := by
  constructor
  · intro hsymbol item hitem other hother hname
    have hsame := (hsymbol item hitem).symm.trans (hname ▸ hsymbol other hother)
    exact file.toRuntime_inj.mp (Option.some.inj hsame)
  · intro hunambiguous item hitem
    cases hfind : file.symbols.find? fun other => other.name = item.name with
    | none =>
        have hnone := List.find?_eq_none.mp hfind item hitem
        exact absurd (decide_eq_true rfl) hnone
    | some other =>
        have hname : other.name = item.name := by simpa using List.find?_some hfind
        have hvalue := hunambiguous other (List.mem_of_find?_eq_some hfind) item hitem hname
        rw [DebugFile.symbol, hfind, Option.map_some, hvalue]

theorem DebugFile.biasRight_iff (file : DebugFile) :
    file.BiasRight b ↔ file.runtimeBase = b ∧ file.Unambiguous := by
  constructor
  · rintro ⟨rfl, hsymbol, -⟩
    exact ⟨rfl, file.symbol_iff.mp hsymbol⟩
  · rintro ⟨rfl, hunambiguous⟩
    exact ⟨rfl, file.symbol_iff.mpr hunambiguous, fun item _ => file.toDwarf_toRuntime item.value⟩

/-- Another mapping of the file that is not executable. -/
theorem LoadedAt.cons {segments : List Segment} (hload : LoadedAt pageBits b segments group)
    {map : Mapping} (hmap : 'x' ∉ map.permissions) :
    LoadedAt pageBits b segments (map :: group) where
  first := hload.first
  ordered := hload.ordered
  mapped segment hsegment := by
    obtain ⟨found, hfound, hmapped⟩ := hload.mapped segment hsegment
    exact ⟨found, List.mem_cons_of_mem _ hfound, hmapped⟩
  executable found hfound hexecutable := by
    rcases List.mem_cons.mp hfound with rfl | hfound
    · exact absurd hexecutable hmap
    · exact hload.executable found hfound hexecutable

/-! ### After a refresh -/

variable (maps) in
theorem debugFile_of_elf (image : ElfImage) (hlibelf : disk.libelf = true)
    (himage : disk.content path = some (.elf image)) :
    debugFile disk maps path = some (.ofImage image path (loadBias (mappingsOf maps path))
      (lastAddress (mappingsOf maps path))) := by
  rw [debugFile, hlibelf, himage]

theorem debugFile_at {image : ElfImage} {bias last : Address} (hlibelf : disk.libelf = true)
    (himage : disk.content path = some (.elf image)) (hbias : loadBias (mappingsOf maps path) = bias)
    (hlast : lastAddress (mappingsOf maps path) = last) :
    debugFile disk maps path = some (.ofImage image path bias last) := by
  rw [debugFile_of_elf maps image hlibelf himage, hbias, hlast]

theorem debugFile_path {file : DebugFile} (hfile : debugFile disk maps path = some file) :
    file.info.path = path := by
  unfold debugFile at hfile
  split at hfile
  · cases hfile
    rfl
  · cases hfile

theorem mem_refresh_iff (call : RefreshCall) (hmaps : call.maps = some maps) (s : Symbolizer)
    (file : DebugFile) :
    file ∈ (endState (refresh call) s).debugFiles.map OpenFile.file ↔
      (∃ map ∈ maps, map.path = file.info.path) ∧
        debugFile call.disk maps file.info.path = some file := by
  rw [refresh_files call hmaps, List.mem_filterMap, ← (call.enumerates maps hmaps).mem_iff]
  constructor
  · rintro ⟨path, hpath, hfile⟩
    obtain rfl := debugFile_path hfile
    exact ⟨hpath, hfile⟩
  · exact fun ⟨hpath, hfile⟩ => ⟨_, hpath, hfile⟩

/-- After a refresh there is one `DebugFile` for a file loaded at `b`, and it has the right addresses
    exactly when no other mapping of the file begins, less its offset, below `b`. -/
theorem refresh_biasRight_iff (call : RefreshCall) (s : Symbolizer) (hmaps : call.maps = some maps)
    {image : ElfImage} (hlibelf : call.disk.libelf = true)
    (himage : call.disk.content path = some (.elf image)) (hdynamic : image.type = etDyn)
    {segments : List Segment} (hload : LoadedAt pageBits b segments (mappingsOf maps path)) :
    ∃ file ∈ (endState (refresh call) s).debugFiles.map OpenFile.file, file.info.path = path ∧
      (∀ other ∈ (endState (refresh call) s).debugFiles.map OpenFile.file,
        other.info.path = path → other = file) ∧
      (file.BiasRight b ↔
        (∀ map ∈ maps, map.path = path → 'x' ∉ map.permissions → b ≤ map.start - map.offset) ∧
          file.Unambiguous) := by
  have hfile := debugFile_of_elf maps image hlibelf himage
  refine ⟨.ofImage image path (loadBias (mappingsOf maps path)) (lastAddress (mappingsOf maps path)),
    (mem_refresh_iff call hmaps s _).mpr ⟨?_, hfile⟩, rfl, ?_, ?_⟩
  · obtain ⟨segment, hsegment, -⟩ := hload.first
    obtain ⟨map, hmap, -⟩ := hload.mapped segment hsegment
    obtain ⟨hmem, hpath⟩ := List.mem_filter.mp hmap
    exact ⟨map, hmem, of_decide_eq_true hpath⟩
  · rintro other hother rfl
    exact Option.some.inj (((mem_refresh_iff call hmaps s other).mp hother).2.symm.trans hfile)
  · rw [DebugFile.biasRight_iff]
    refine and_congr_left' ?_
    have hbase : (DebugFile.ofImage image path (loadBias (mappingsOf maps path))
        (lastAddress (mappingsOf maps path))).runtimeBase = loadBias (mappingsOf maps path) :=
      if_pos (decide_eq_true hdynamic)
    rw [hbase, hload.loadBias_eq_iff]
    simp only [mappingsOf, List.mem_filter, decide_eq_true_eq, and_imp]

/-! ### A library that is mapped twice -/

def libPath : Text := "/lib.so".toList

def libImage : ElfImage := ⟨etDyn, [⟨shtDynsym, 24, [some ⟨some "f".toList, sttFunc, 0x1040, 16⟩]⟩], none⟩

def libSegments : List Segment := [⟨0, 0⟩, ⟨0x1000, 0x1000⟩]

/-- The mappings of the library, loaded at 0x7f0000010000. -/
def libMaps : List Mapping :=
  [⟨0x7f0000010000, 0x7f0000011000, 0, "r--p".toList, libPath⟩,
    ⟨0x7f0000011000, 0x7f0000012000, 0x1000, "r-xp".toList, libPath⟩]

/-- A refresh that finds these mappings, all of them of the library. -/
def libCall (maps : List Mapping) (hmaps : ∀ map ∈ maps, map.path = libPath) (hne : maps ≠ []) :
    RefreshCall where
  disk := ⟨true, fun _ => some (.elf libImage), [0, 1, 2]⟩
  maps := some maps
  order := [libPath]
  enumerates found hfound := by
    obtain rfl := Option.mem_some_iff.mp hfound
    refine ⟨List.nodup_singleton _, fun path => ⟨fun hpath => ?_, ?_⟩⟩
    · obtain ⟨map, hmap⟩ := List.exists_mem_of_ne_nil maps hne
      exact ⟨map, hmap, (hmaps map hmap).trans (List.mem_singleton.mp hpath).symm⟩
    · rintro ⟨map, hmap, rfl⟩
      exact List.mem_singleton.mpr (hmaps map hmap)

theorem libMaps_loaded : LoadedAt 12 0x7f0000010000 libSegments libMaps := by
  have hfirst : Segment.MappedBy 12 0x7f0000010000 ⟨0, 0⟩
      ⟨0x7f0000010000, 0x7f0000011000, 0, "r--p".toList, libPath⟩ := ⟨by decide, by decide⟩
  have hsecond : Segment.MappedBy 12 0x7f0000010000 ⟨0x1000, 0x1000⟩
      ⟨0x7f0000011000, 0x7f0000012000, 0x1000, "r-xp".toList, libPath⟩ := ⟨by decide, by decide⟩
  constructor
  · exact ⟨⟨0, 0⟩, List.mem_cons_self, rfl, rfl⟩
  · decide
  · intro segment hsegment
    rcases List.mem_pair.mp hsegment with rfl | rfl
    · exact ⟨_, List.mem_cons_self, hfirst⟩
    · exact ⟨_, List.mem_cons_of_mem _ List.mem_cons_self, hsecond⟩
  · intro map hmap _
    rcases List.mem_pair.mp hmap with rfl | rfl
    · exact ⟨_, List.mem_cons_self, hfirst⟩
    · exact ⟨_, List.mem_cons_of_mem _ List.mem_cons_self, hsecond⟩

theorem refresh_biasRight_lib :
    ∃ file ∈ (endState (refresh (libCall libMaps (by decide) (by decide))) .empty).debugFiles.map
        OpenFile.file,
      file.info.path = libPath ∧ file.BiasRight 0x7f0000010000 := by
  have hgroup : mappingsOf libMaps libPath = libMaps := by decide
  have himage : (libCall libMaps (by decide) (by decide)).disk.content libPath
      = some (.elf libImage) := rfl
  obtain ⟨file, hfile, hpath, -, hiff⟩ := refresh_biasRight_iff
    (libCall libMaps (by decide) (by decide)) .empty rfl rfl himage rfl (hgroup ▸ libMaps_loaded)
  refine ⟨file, hfile, hpath, hiff.mpr ⟨by decide, ?_⟩⟩
  have hloaded := ((mem_refresh_iff _ rfl _ _).mp hfile).2
  rw [hpath] at hloaded
  obtain rfl := Option.some.inj hloaded
  unfold DebugFile.Unambiguous
  decide

/-- The library is also mapped as a whole, to be read, below where it is loaded. -/
def readMap : Mapping := ⟨0x7effff000000, 0x7effff002000, 0, "r--p".toList, libPath⟩

theorem bias_of_data_mapping :
    LoadedAt 12 0x7f0000010000 libSegments (mappingsOf (readMap :: libMaps) libPath) ∧
      ∃ file ∈ (endState (refresh (libCall (readMap :: libMaps) (by decide) (by decide)))
          .empty).debugFiles.map OpenFile.file,
        file.info.path = libPath ∧ file.runtimeBase = 0x7effff000000 ∧
          file.symbol "f".toList = some 0x7effff001040 ∧ ¬ file.BiasRight 0x7f0000010000 := by
  have hgroup : mappingsOf (readMap :: libMaps) libPath = readMap :: libMaps := by decide
  refine ⟨hgroup ▸ libMaps_loaded.cons (by decide), ?_⟩
  have hfile : debugFile (libCall (readMap :: libMaps) (by decide) (by decide)).disk
      (readMap :: libMaps) libPath
      = some (.ofImage libImage libPath 0x7effff000000 0x7f0000012000) :=
    debugFile_at rfl rfl (by decide) (by decide)
  have hmem := (mem_refresh_iff (libCall (readMap :: libMaps) (by decide) (by decide)) rfl .empty
    (.ofImage libImage libPath 0x7effff000000 0x7f0000012000)).mpr
    ⟨⟨readMap, List.mem_cons_self, rfl⟩, hfile⟩
  refine ⟨_, hmem, rfl, by decide, by decide, fun hright => ?_⟩
  exact absurd hright.base (by decide)

end Cosy
