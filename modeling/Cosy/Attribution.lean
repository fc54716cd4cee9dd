import Cosy.Lib.FirstMatch
import Cosy.LoadBias

/-!
# Which file answers

Every query goes through `debug_files` in the order in which a hash table gave the groups, and takes
the first file that claims to know. So what is answered depends on that order as soon as two files
claim to know and say different things.
-/

namespace Cosy

open Effect FirstMatch

open scoped List

variable {maps group : List Mapping} {disk : Disk} {path : Text} {address : Address}
  {order order' : List Text}

/-! ### Orders -/

theorem Enumerates.perm (horder : Enumerates order maps) (horder' : Enumerates order' maps) :
    order' ~ order := by
  refine (List.perm_ext_iff_of_nodup horder'.nodup horder.nodup).mpr fun path => ?_
  rw [horder.mem_iff, horder'.mem_iff]

theorem Enumerates.of_perm (horder : Enumerates order maps) (hperm : order' ~ order) :
    Enumerates order' maps :=
  ⟨hperm.nodup_iff.mpr horder.nodup, fun path => hperm.mem_iff.trans (horder.mem_iff path)⟩

/-- The paths in the order of the maps. -/
def pathsOf (maps : List Mapping) : List Text := (maps.map Mapping.path).dedup

theorem enumerates_pathsOf (maps : List Mapping) : Enumerates (pathsOf maps) maps where
  nodup := List.nodup_dedup _
  mem_iff path := by rw [pathsOf, List.mem_dedup, List.mem_map]

theorem mem_pathsOf : path ∈ pathsOf maps ↔ ∃ map ∈ maps, map.path = path :=
  (enumerates_pathsOf maps).mem_iff path

/-- The refresh that finds these maps and gets the groups in this order. -/
def RefreshCall.ofOrder (disk : Disk) (horder : Enumerates order maps) : RefreshCall where
  disk := disk
  maps := some maps
  order := order
  enumerates found hfound := by
    obtain rfl := Option.mem_some_iff.mp hfound
    exact horder

/-- What holds after every refresh that finds these maps on this disk. -/
theorem forall_refresh_iff {P : List DebugFile → Prop} :
    (∀ call : RefreshCall, call.disk = disk → call.maps = some maps → ∀ s,
      P ((endState (refresh call) s).debugFiles.map OpenFile.file)) ↔
      ∀ order, order ~ pathsOf maps → P (order.filterMap (debugFile disk maps)) := by
  constructor
  · intro hall order hperm
    have horder := (enumerates_pathsOf maps).of_perm hperm
    have hfiles := hall (.ofOrder disk horder) rfl rfl .empty
    rwa [refresh_files _ rfl] at hfiles
  · rintro hall call rfl hmaps s
    rw [refresh_files call hmaps]
    exact hall _ ((enumerates_pathsOf maps).perm (call.enumerates maps hmaps))

/-! ### Addresses -/

/-- What is answered about the address is what this file has to say. -/
structure Symbolizer.AnsweredBy (s : Symbolizer) (file : DebugFile) (address : Address) : Prop where
  first : ModuleManager.fileAt (s.debugFiles.map OpenFile.file) address = some file
  location : s.manager.location address = file.location address
  function : s.manager.function address = file.function address
  scopes : s.manager.scopes address = file.scopes address

theorem Symbolizer.answeredBy_iff_fileAt {s : Symbolizer} {file : DebugFile} :
    s.AnsweredBy file address ↔
      ModuleManager.fileAt (s.debugFiles.map OpenFile.file) address = some file := by
  constructor
  · exact AnsweredBy.first
  · exact fun hfirst => ⟨hfirst, ModuleManager.ofFiles_location hfirst,
      ModuleManager.ofFiles_function hfirst, ModuleManager.ofFiles_scopes hfirst⟩

/-- The address lies between where the file begins by one of its mappings, or 0 if the file is not
    moved, and where another of them ends. -/
structure Spans (dynamic : Bool) (group : List Mapping) (address : Address) : Prop where
  above : dynamic = true → ∃ map ∈ group, map.start - map.offset ≤ address
  below : ∃ map ∈ group, address < map.last

theorem foldl_last_lt_iff (group : List Mapping) (last : Address) :
    address < group.foldl (fun last map => if last < map.last then map.last else last) last ↔
      address < last ∨ ∃ map ∈ group, address < map.last := by
  induction group generalizing last with
  | nil => simp
  | cons map rest ih =>
      rw [List.foldl_cons, ih, List.exists_mem_cons_iff, ← or_assoc]
      refine or_congr_left ?_
      split
      · rename_i hlt
        simp only [BitVec.lt_def] at hlt ⊢
        omega
      · rename_i hge
        simp only [BitVec.lt_def] at hge ⊢
        omega

theorem lt_lastAddress_iff : address < lastAddress group ↔ ∃ map ∈ group, address < map.last := by
  have hzero : ¬ address < 0 := by
    rw [BitVec.lt_def]
    exact Nat.not_lt_zero _
  rw [lastAddress, foldl_last_lt_iff]
  exact or_iff_right hzero

theorem loadBias_le_iff (hne : group ≠ []) :
    loadBias group ≤ address ↔ ∃ map ∈ group, map.start - map.offset ≤ address := by
  rw [← not_iff_not, BitVec.not_le, lt_loadBias_iff hne]
  simp only [not_exists, not_and, BitVec.not_le]

theorem debugFile_eq_some_iff {file : DebugFile} :
    debugFile disk maps path = some file ↔ disk.libelf = true ∧ ∃ image,
      disk.content path = some (.elf image) ∧ file = .ofImage image path
        (loadBias (mappingsOf maps path)) (lastAddress (mappingsOf maps path)) := by
  constructor
  · intro hfile
    unfold debugFile at hfile
    split at hfile
    · rename_i image hlibelf himage
      exact ⟨hlibelf, image, himage, (Option.some.inj hfile).symm⟩
    · cases hfile
  · rintro ⟨hlibelf, image, himage, rfl⟩
    exact debugFile_of_elf _ _ hlibelf himage

theorem contains_iff {file : DebugFile} (hfile : debugFile disk maps path = some file) :
    file.contains address = true ↔ Spans file.dynamic (mappingsOf maps path) address := by
  obtain ⟨-, image, -, rfl⟩ := debugFile_eq_some_iff.mp hfile
  rw [DebugFile.contains, Bool.and_eq_true, decide_eq_true_eq, decide_eq_true_eq, DebugFile.runtimeBase,
    DebugFile.ofImage]
  constructor
  · rintro ⟨hbase, hlast⟩
    have hbelow := lt_lastAddress_iff.mp hlast
    refine ⟨fun hdynamic => ?_, hbelow⟩
    obtain ⟨map, hmap, -⟩ := hbelow
    rw [if_pos hdynamic] at hbase
    exact (loadBias_le_iff (List.ne_nil_of_mem hmap)).mp hbase
  · rintro ⟨habove, hbelow⟩
    refine ⟨?_, lt_lastAddress_iff.mpr hbelow⟩
    obtain ⟨map, hmap, -⟩ := hbelow
    by_cases hdynamic : decide (image.type = etDyn) = true
    · rw [if_pos hdynamic]
      exact (loadBias_le_iff (List.ne_nil_of_mem hmap)).mpr (habove hdynamic)
    · rw [if_neg hdynamic]
      exact Nat.zero_le _

/-- The search for the file of an address, as a search through the paths. -/
theorem fileAt_filterMap (order : List Text) :
    ModuleManager.fileAt (order.filterMap (debugFile disk maps)) address
      = order.findSome? fun path =>
          (debugFile disk maps path).bind (Option.guard fun file => file.contains address) := by
  rw [ModuleManager.fileAt, ← List.findSome?_guard, findSome?_filterMap]

theorem mem_answer_iff {answer : DebugFile} :
    answer ∈ (debugFile disk maps path).bind (Option.guard fun file => file.contains address) ↔
      debugFile disk maps path = some answer ∧ answer.contains address = true := by
  rw [Option.mem_def, Option.bind_eq_some_iff]
  constructor
  · rintro ⟨file, hfile, hguard⟩
    obtain ⟨rfl, hcontains⟩ := Option.guard_eq_some_iff.mp hguard
    exact ⟨hfile, hcontains⟩
  · exact fun ⟨hfile, hcontains⟩ => ⟨answer, hfile, Option.guard_eq_some_iff.mpr ⟨rfl, hcontains⟩⟩

/-- Only this file has an answer, stated in terms of the mappings. -/
theorem onlyAnswer_iff {file : DebugFile} (hfile : debugFile disk maps path = some file)
    (hmem : path ∈ pathsOf maps) :
    ((∃ found ∈ pathsOf maps, ((debugFile disk maps found).bind
        (Option.guard fun file => file.contains address)).isSome) ∧
      ∀ found ∈ pathsOf maps, ∀ answer ∈ (debugFile disk maps found).bind
        (Option.guard fun file => file.contains address), answer = file) ↔
      file.contains address = true ∧ ∀ other otherFile, other ≠ path →
        debugFile disk maps other = some otherFile →
          ¬ Spans otherFile.dynamic (mappingsOf maps other) address := by
  constructor
  · rintro ⟨⟨found, hfound, hsome⟩, honly⟩
    obtain ⟨answer, hanswer⟩ := Option.isSome_iff_exists.mp hsome
    obtain rfl := honly found hfound answer hanswer
    refine ⟨(mem_answer_iff.mp hanswer).2, fun other otherFile hne hother hspans => hne ?_⟩
    have hmapped : other ∈ pathsOf maps := by
      obtain ⟨map, hmap, -⟩ := hspans.below
      obtain ⟨hmap, hpath⟩ := List.mem_filter.mp hmap
      exact mem_pathsOf.mpr ⟨map, hmap, of_decide_eq_true hpath⟩
    have hsame := honly other hmapped otherFile
      (mem_answer_iff.mpr ⟨hother, (contains_iff hother).mpr hspans⟩)
    rw [← debugFile_path hfile, ← hsame, debugFile_path hother]
  · rintro ⟨hcontains, hothers⟩
    have hanswer := mem_answer_iff.mpr ⟨hfile, hcontains⟩
    refine ⟨⟨path, hmem, Option.isSome_iff_exists.mpr ⟨file, hanswer⟩⟩, fun found _ answer hfound => ?_⟩
    obtain ⟨hfoundFile, hfoundContains⟩ := mem_answer_iff.mp hfound
    by_cases heq : found = path
    · subst heq
      exact Option.some.inj (hfoundFile.symm.trans hfile)
    · exact absurd ((contains_iff hfoundFile).mp hfoundContains) (hothers found answer heq hfoundFile)

/-- An address in a mapping of a file is answered by that file after every refresh exactly when the
    file spans it and no other file does. -/
theorem answeredBy_iff {file : DebugFile} (hfile : debugFile disk maps path = some file)
    {map : Mapping} (hmap : map ∈ maps) (hpath : map.path = path) (hlast : address < map.last) :
    (∀ call : RefreshCall, call.disk = disk → call.maps = some maps → ∀ s,
      (endState (refresh call) s).AnsweredBy file address) ↔
      (file.dynamic = true → ∃ map ∈ maps, map.path = path ∧ map.start - map.offset ≤ address) ∧
        ∀ other otherFile, other ≠ path → debugFile disk maps other = some otherFile →
          ¬ Spans otherFile.dynamic (mappingsOf maps other) address := by
  have hmem : path ∈ pathsOf maps := mem_pathsOf.mpr ⟨map, hmap, hpath⟩
  have hbelow : ∃ map ∈ mappingsOf maps path, address < map.last :=
    ⟨map, List.mem_filter.mpr ⟨hmap, decide_eq_true hpath⟩, hlast⟩
  calc (∀ call : RefreshCall, call.disk = disk → call.maps = some maps → ∀ s,
        (endState (refresh call) s).AnsweredBy file address)
      ↔ ∀ order, order ~ pathsOf maps →
          ModuleManager.fileAt (order.filterMap (debugFile disk maps)) address = some file := by
        simp only [Symbolizer.answeredBy_iff_fileAt]
        exact forall_refresh_iff (P := fun files => ModuleManager.fileAt files address = some file)
    _ ↔ (∃ found ∈ pathsOf maps, ((debugFile disk maps found).bind
            (Option.guard fun file => file.contains address)).isSome) ∧
          ∀ found ∈ pathsOf maps, ∀ answer ∈ (debugFile disk maps found).bind
            (Option.guard fun file => file.contains address), answer = file := by
        simp only [fileAt_filterMap]
        exact findSome?_eq_some_iff_forall_perm
    _ ↔ file.contains address = true ∧ ∀ other otherFile, other ≠ path →
          debugFile disk maps other = some otherFile →
            ¬ Spans otherFile.dynamic (mappingsOf maps other) address := onlyAnswer_iff hfile hmem
    _ ↔ _ := by
        rw [contains_iff hfile]
        refine and_congr_left' ⟨fun hspans hdynamic => ?_, fun habove => ⟨fun hdynamic => ?_, hbelow⟩⟩
        · obtain ⟨found, hfound, hle⟩ := hspans.above hdynamic
          obtain ⟨hfound, hfoundPath⟩ := List.mem_filter.mp hfound
          exact ⟨found, hfound, of_decide_eq_true hfoundPath, hle⟩
        · obtain ⟨found, hfound, hfoundPath, hle⟩ := habove hdynamic
          exact ⟨found, List.mem_filter.mpr ⟨hfound, decide_eq_true hfoundPath⟩, hle⟩

/-- While the library is mapped as it was loaded, its addresses are its own. -/
theorem answeredBy_lib :
    (endState (refresh (libCall libMaps (by decide) (by decide))) .empty).AnsweredBy
      (.ofImage libImage libPath 0x7f0000010000 0x7f0000012000) 0x7f0000011040 := by
  have hfile : debugFile ⟨true, fun _ => some (.elf libImage), [0, 1, 2]⟩ libMaps libPath
      = some (.ofImage libImage libPath 0x7f0000010000 0x7f0000012000) :=
    debugFile_at rfl rfl (by decide) (by decide)
  have hmap : libMaps[1] ∈ libMaps := List.getElem_mem _
  refine (answeredBy_iff hfile hmap rfl (by decide)).mpr ⟨fun _ => ⟨_, hmap, rfl, by decide⟩, ?_⟩
    (libCall libMaps (by decide) (by decide)) rfl rfl .empty
  intro other otherFile hne _ hspans
  obtain ⟨map, hmap, -⟩ := hspans.below
  obtain ⟨hmap, hpath⟩ := List.mem_filter.mp hmap
  have hall : ∀ map ∈ libMaps, map.path = libPath := by decide
  exact hne ((of_decide_eq_true hpath).symm.trans (hall map hmap))

/-- Another library lies between the one that is loaded and its copy to be read. -/
def betweenMaps : List Mapping :=
  ⟨0x7f0000000000, 0x7f0000002000, 0, "r-xp".toList, "/b.so".toList⟩ :: readMap :: libMaps

theorem betweenMaps_order : Enumerates ["/b.so".toList, libPath] betweenMaps := by
  have horder : pathsOf betweenMaps = ["/b.so".toList, libPath] := by decide
  exact horder ▸ enumerates_pathsOf betweenMaps

def betweenDisk : Disk := ⟨true, fun _ => some (.elf libImage), [0, 1, 2]⟩

/-- An address of it is answered by either of them, as the hash table has it. -/
theorem answered_by_either :
    betweenMaps.Pairwise (fun map other => map.last ≤ other.start ∨ other.last ≤ map.start) ∧
      ∃ call call' : RefreshCall, (call.disk = betweenDisk ∧ call.maps = some betweenMaps) ∧
        (call'.disk = betweenDisk ∧ call'.maps = some betweenMaps) ∧
        (endState (refresh call) .empty).AnsweredBy
          (.ofImage libImage "/b.so".toList 0x7f0000000000 0x7f0000002000) 0x7f0000001040 ∧
        (endState (refresh call') .empty).AnsweredBy
          (.ofImage libImage libPath 0x7effff000000 0x7f0000012000) 0x7f0000001040 := by
  have hb : debugFile betweenDisk betweenMaps "/b.so".toList
      = some (.ofImage libImage "/b.so".toList 0x7f0000000000 0x7f0000002000) :=
    debugFile_at rfl rfl (by decide) (by decide)
  have hlib : debugFile betweenDisk betweenMaps libPath
      = some (.ofImage libImage libPath 0x7effff000000 0x7f0000012000) :=
    debugFile_at rfl rfl (by decide) (by decide)
  refine ⟨by decide, .ofOrder betweenDisk betweenMaps_order,
    .ofOrder betweenDisk (betweenMaps_order.of_perm (List.Perm.swap _ _ _)), ⟨rfl, rfl⟩, ⟨rfl, rfl⟩,
    ?_, ?_⟩
  · rw [Symbolizer.answeredBy_iff_fileAt, refresh_files _ rfl]
    simp only [RefreshCall.ofOrder, List.filterMap_cons, hb, hlib]
    rfl
  · rw [Symbolizer.answeredBy_iff_fileAt, refresh_files _ rfl]
    simp only [RefreshCall.ofOrder, List.filterMap_cons, hb, hlib]
    rfl

/-! ### Names -/

/-- A file that is loaded and matches the module has this address for the symbol. -/
structure Offers (disk : Disk) (maps : List Mapping) (name module : Text) (file : DebugFile)
    (address : Address) : Prop where
  mapped : ∃ map ∈ maps, map.path = file.info.path
  loaded : debugFile disk maps file.info.path = some file
  matching : moduleMatches file.info.path module = true
  symbol : file.symbol name = some address

/-- After every refresh that finds these maps on this disk, a name is resolved alike, and in the
    module that has exactly the wanted name if it defines the symbol. -/
structure ResolvesAlike (disk : Disk) (maps : List Mapping) (name module : Text) : Prop where
  order : ∀ call : RefreshCall, call.disk = disk → call.maps = some maps → ∀ s,
    ∀ call' : RefreshCall, call'.disk = disk → call'.maps = some maps → ∀ s',
      (endState (refresh call) s).manager.resolveSymbol name module
        = (endState (refresh call') s').manager.resolveSymbol name module
  exactModule : ∀ call : RefreshCall, call.disk = disk → call.maps = some maps → ∀ s,
    (∃ file ∈ (endState (refresh call) s).debugFiles.map OpenFile.file,
      fileName file.info.path = module ∧ (file.symbol name).isSome) →
    ∃ file ∈ (endState (refresh call) s).debugFiles.map OpenFile.file,
      fileName file.info.path = module ∧ (file.symbol name).isSome ∧
        (endState (refresh call) s).manager.resolveSymbol name module = file.symbol name

/-- What the file has for the symbol, if it matches the module. -/
def offer (name module : Text) (file : DebugFile) : Option Address :=
  if moduleMatches file.info.path module then file.symbol name else none

theorem resolve_filterMap (name module : Text) (order : List Text) :
    ModuleManager.resolve (order.filterMap (debugFile disk maps)) name module
      = order.findSome? fun path => (debugFile disk maps path).bind (offer name module) := by
  rw [ModuleManager.resolve, findSome?_filterMap]
  rfl

theorem mem_offer_iff {name module : Text} (hpath : path ∈ pathsOf maps) :
    address ∈ (debugFile disk maps path).bind (offer name module) ↔
      ∃ file, file.info.path = path ∧ Offers disk maps name module file address := by
  rw [Option.mem_def, Option.bind_eq_some_iff]
  constructor
  · rintro ⟨file, hfile, hoffer⟩
    obtain rfl := debugFile_path hfile
    unfold offer at hoffer
    split at hoffer
    · exact ⟨file, rfl, mem_pathsOf.mp hpath, hfile, ‹_›, hoffer⟩
    · cases hoffer
  · rintro ⟨file, rfl, hoffers⟩
    exact ⟨file, hoffers.loaded, (if_pos hoffers.matching).trans hoffers.symbol⟩

theorem fileName_matches (hname : fileName path = module) : moduleMatches path module = true := by
  simp [moduleMatches, hname]

/-- The files that make an offer agree, stated for the search through the paths. -/
theorem offers_agree_iff {name module : Text} :
    (∀ file other address address', Offers disk maps name module file address →
      Offers disk maps name module other address' → address = address') ↔
      ∀ path ∈ pathsOf maps, ∀ other ∈ pathsOf maps,
        ∀ address ∈ (debugFile disk maps path).bind (offer name module),
          ∀ address' ∈ (debugFile disk maps other).bind (offer name module), address = address' := by
  constructor
  · intro hagree path hpath other hother address haddress address' haddress'
    obtain ⟨file, -, hoffers⟩ := (mem_offer_iff hpath).mp haddress
    obtain ⟨file', -, hoffers'⟩ := (mem_offer_iff hother).mp haddress'
    exact hagree file file' address address' hoffers hoffers'
  · intro hagree file other address address' hoffers hoffers'
    have hpath := mem_pathsOf.mpr hoffers.mapped
    have hother := mem_pathsOf.mpr hoffers'.mapped
    exact hagree _ hpath _ hother address ((mem_offer_iff hpath).mpr ⟨file, rfl, hoffers⟩) address'
      ((mem_offer_iff hother).mpr ⟨other, rfl, hoffers'⟩)

/-- If all the files that make an offer agree, a refresh finds what any of them offers. -/
theorem resolve_of_offers {name module : Text} {file : DebugFile}
    (hagree : ∀ file other address address', Offers disk maps name module file address →
      Offers disk maps name module other address' → address = address')
    (hoffers : Offers disk maps name module file address) {order : List Text}
    (hperm : order ~ pathsOf maps) :
    ModuleManager.resolve (order.filterMap (debugFile disk maps)) name module = some address := by
  have hpath := mem_pathsOf.mpr hoffers.mapped
  have hoffer := (mem_offer_iff hpath).mpr ⟨file, rfl, hoffers⟩
  rw [resolve_filterMap]
  refine findSome?_of_agree ⟨_, hperm.mem_iff.mpr hpath, ?_⟩ fun other hother address' haddress' => ?_
  · exact Option.isSome_iff_exists.mpr ⟨address, hoffer⟩
  · exact offers_agree_iff.mp hagree other (hperm.mem_iff.mp hother) _ hpath address' haddress' address
      hoffer

theorem resolveSymbol_refresh (call : RefreshCall) (hmaps : call.maps = some maps) (s : Symbolizer)
    (name module : Text) :
    (endState (refresh call) s).manager.resolveSymbol name module
      = ModuleManager.resolve (call.order.filterMap (debugFile call.disk maps)) name module := by
  rw [← refresh_files call hmaps s]
  rfl

theorem resolve_order_iff {name module : Text} :
    (∀ call : RefreshCall, call.disk = disk → call.maps = some maps → ∀ s,
      ∀ call' : RefreshCall, call'.disk = disk → call'.maps = some maps → ∀ s',
        (endState (refresh call) s).manager.resolveSymbol name module
          = (endState (refresh call') s').manager.resolveSymbol name module) ↔
      ∀ file other address address', Offers disk maps name module file address →
        Offers disk maps name module other address' → address = address' := by
  rw [offers_agree_iff, ← findSome?_independent_iff]
  constructor
  · intro hall order order' hperm hperm'
    have horder := (enumerates_pathsOf maps).of_perm hperm
    have horder' := (enumerates_pathsOf maps).of_perm hperm'
    have hsame := hall (.ofOrder disk horder) rfl rfl .empty (.ofOrder disk horder') rfl rfl .empty
    rw [resolveSymbol_refresh _ rfl, resolveSymbol_refresh _ rfl] at hsame
    rw [← resolve_filterMap, ← resolve_filterMap]
    exact hsame
  · rintro hall call rfl hmaps s call' hdisk hmaps' s'
    have hperm := (enumerates_pathsOf maps).perm (call.enumerates maps hmaps)
    have hperm' := (enumerates_pathsOf maps).perm (call'.enumerates maps hmaps')
    rw [resolveSymbol_refresh call hmaps, resolveSymbol_refresh call' hmaps', hdisk, resolve_filterMap,
      resolve_filterMap]
    exact hall call.order call'.order hperm hperm'

/-- A specification is resolved alike after every refresh exactly when all the loaded files that match
    the module and define the name have the same address for it. -/
theorem resolvesAlike_iff {name module : Text} :
    ResolvesAlike disk maps name module ↔
      ∀ file other address address', Offers disk maps name module file address →
        Offers disk maps name module other address' → address = address' := by
  constructor
  · exact fun halike => resolve_order_iff.mp halike.order
  · intro hagree
    refine ⟨resolve_order_iff.mpr hagree, ?_⟩
    rintro call rfl hmaps s ⟨file, hfile, hname, hsome⟩
    obtain ⟨address, hsymbol⟩ := Option.isSome_iff_exists.mp hsome
    obtain ⟨hmapped, hloaded⟩ := (mem_refresh_iff call hmaps s file).mp hfile
    have hresolve := resolve_of_offers hagree ⟨hmapped, hloaded, fileName_matches hname, hsymbol⟩
      ((enumerates_pathsOf maps).perm (call.enumerates maps hmaps))
    refine ⟨file, hfile, hname, hsome, ?_⟩
    rw [hsymbol, ← hresolve, resolveSymbol_refresh call hmaps]

/-- Two libraries; the name of the first is part of the name of the second. -/
def twoMaps : List Mapping :=
  [⟨0x7f0000000000, 0x7f0000002000, 0, "r-xp".toList, "/b.so".toList⟩,
    ⟨0x7f0000010000, 0x7f0000012000, 0, "r-xp".toList, "/ab.so".toList⟩]

theorem twoMaps_order : Enumerates ["/b.so".toList, "/ab.so".toList] twoMaps := by
  have horder : pathsOf twoMaps = ["/b.so".toList, "/ab.so".toList] := by decide
  exact horder ▸ enumerates_pathsOf twoMaps

def twoCall : RefreshCall := .ofOrder betweenDisk twoMaps_order

def twoCall' : RefreshCall := .ofOrder betweenDisk (twoMaps_order.of_perm (List.Perm.swap _ _ _))

/-- A function of the first is found in either of them, as the hash table has it. -/
theorem resolved_in_either :
    (twoCall.disk = betweenDisk ∧ twoCall.maps = some twoMaps) ∧
      (twoCall'.disk = betweenDisk ∧ twoCall'.maps = some twoMaps) ∧
      (endState (refresh twoCall) .empty).manager.resolveSymbol "f".toList "b.so".toList
        = some 0x7f0000001040 ∧
      (endState (refresh twoCall') .empty).manager.resolveSymbol "f".toList "b.so".toList
        = some 0x7f0000011040 ∧
      ¬ ResolvesAlike betweenDisk twoMaps "f".toList "b.so".toList := by
  have hfirst : (endState (refresh twoCall) .empty).manager.resolveSymbol "f".toList "b.so".toList
      = some 0x7f0000001040 := by
    rw [resolveSymbol_refresh twoCall rfl]
    decide
  have hsecond : (endState (refresh twoCall') .empty).manager.resolveSymbol "f".toList "b.so".toList
      = some 0x7f0000011040 := by
    rw [resolveSymbol_refresh twoCall' rfl]
    decide
  refine ⟨⟨rfl, rfl⟩, ⟨rfl, rfl⟩, hfirst, hsecond, fun halike => ?_⟩
  have hsame := halike.order twoCall rfl rfl .empty twoCall' rfl rfl .empty
  exact absurd (hfirst.symm.trans (hsame.trans hsecond)) (by decide)

end Cosy
