import Cosy.Lib.Handles
import Cosy.Programming
import Cosy.Refreshing

/-!
# The descriptors of a refresh

A file that can be opened and has no ELF header is closed by nobody: its constructor throws before
there is an object whose destructor could run, and the refresh drops the exception. Everything else
that a refresh opens is closed by the next one.
-/

namespace Cosy

open Effect Handles

/-- The constructor opens the file, and throws without closing it. -/
def Disk.leaks (disk : Disk) (path : Text) : Bool :=
  disk.libelf &&
    match disk.content path with
    | some .headerless | some .exhausting => true
    | _ => false

variable {disk : Disk} {maps : List Mapping} {path : Text} {owned lost opened : List Nat}
  {s : Symbolizer}

/-! ### One file -/

variable (disk path) in
/-- The descriptor of a file belongs to the object, or it is lost, or it has been closed again. -/
theorem construct_account (bias last : Address) (haccount : Account owned lost opened) :
    (∃ file left, DebugFile.construct disk path bias last opened = .ok file left ∧
      disk.leaks path = false ∧ Account (file.fd :: owned) lost left) ∨
    (∃ e left more, DebugFile.construct disk path bias last opened = .error e left ∧
      more.length = (disk.leaks path).toNat ∧ Account owned (more ++ lost) left) := by
  have hfresh : freeSlot (disk.others ++ opened) ∉ opened := fun hmem =>
    freeSlot_notMem _ (List.mem_append_right _ hmem)
  unfold DebugFile.construct Disk.leaks
  cases hlibelf : disk.libelf with
  | false => exact Or.inr ⟨_, opened, [], rfl, rfl, haccount⟩
  | true =>
      cases hcontent : disk.content path with
      | none => exact Or.inr ⟨_, opened, [], rfl, rfl, haccount⟩
      | some content =>
          cases content with
          | unparsable => exact Or.inr ⟨_, _, [], rfl, rfl, (haccount.acquire hfresh).release⟩
          | headerless | exhausting =>
              exact Or.inr ⟨_, _, [freeSlot (disk.others ++ opened)], rfl, rfl, haccount.lose hfresh⟩
          | elf image => exact Or.inl ⟨_, _, rfl, rfl, haccount.acquire hfresh⟩

theorem destroy_account {files : List OpenFile}
    (haccount : Account (files.map OpenFile.fd ++ owned) lost opened) :
    Account owned lost (destroy files opened) := by
  induction files generalizing opened with
  | nil => exact haccount
  | cons file rest ih => exact ih haccount.release

/-! ### One refresh -/

variable (disk maps) in
theorem loadFiles_account (order : List Text) (haccount : Account owned lost opened) :
    ∃ more, more.length = order.countP disk.leaks ∧
      Account ((loadFiles disk maps order opened).1.map OpenFile.fd ++ owned) (more ++ lost)
        (loadFiles disk maps order opened).2 := by
  induction order generalizing opened owned lost with
  | nil => exact ⟨[], rfl, haccount⟩
  | cons path rest ih =>
      rw [loadFiles, List.countP_cons]
      rcases construct_account disk path (loadBias (mappingsOf maps path))
        (lastAddress (mappingsOf maps path)) haccount with
        ⟨file, left, hrun, hkept, hleft⟩ | ⟨e, left, more, hrun, hlength, hleft⟩
      · obtain ⟨later, hlater, hfinal⟩ := ih hleft
        refine ⟨later, ?_, ?_⟩
        · rw [hlater, hkept]
          rfl
        · simp only [hrun, List.map_cons]
          exact hfinal.of_perm List.perm_middle
      · obtain ⟨later, hlater, hfinal⟩ := ih hleft
        refine ⟨later ++ more, ?_, ?_⟩
        · rw [List.length_append, hlater, hlength]
          cases disk.leaks path <;> rfl
        · simp only [hrun, List.append_assoc]
          exact hfinal

/-- How many descriptors the call loses. -/
def RefreshCall.leaked (call : RefreshCall) : Nat :=
  match call.maps with
  | none => 0
  | some _ => call.order.countP call.disk.leaks

theorem refresh_account (call : RefreshCall)
    (haccount : Account (s.debugFiles.map OpenFile.fd) lost s.opened) :
    ∃ more, more.length = call.leaked ∧
      Account ((endState (refresh call) s).debugFiles.map OpenFile.fd) (more ++ lost)
        (endState (refresh call) s).opened := by
  unfold RefreshCall.leaked refresh
  cases hmaps : call.maps with
  | none => exact ⟨[], rfl, haccount⟩
  | some maps =>
      obtain ⟨more, hmore, hloaded⟩ := loadFiles_account call.disk maps call.order
        haccount
      exact ⟨more, hmore, destroy_account (hloaded.of_perm List.perm_append_comm)⟩

/-- Nothing is lost exactly when no mapped file leaks. -/
theorem RefreshCall.leaked_eq_zero_iff (call : RefreshCall) :
    call.leaked = 0 ↔ ∀ maps ∈ call.maps, ∀ map ∈ maps, call.disk.leaks map.path = false := by
  unfold leaked
  cases hmaps : call.maps with
  | none => simp
  | some maps =>
      have henum := call.enumerates maps hmaps
      rw [List.countP_eq_zero]
      constructor
      · intro hnone found hfound map hmap
        obtain rfl := Option.mem_some_iff.mp hfound
        simpa using hnone map.path ((henum.mem_iff _).mpr ⟨map, hmap, rfl⟩)
      · intro hnone path hpath
        obtain ⟨map, hmap, rfl⟩ := (henum.mem_iff path).mp hpath
        simp [hnone maps rfl map hmap]

/-! ### Any number of refreshes -/

/-- The calls one after another, each of them wrapped in a handler for its exception. -/
def refreshes (calls : List RefreshCall) (s : Symbolizer) : Symbolizer :=
  calls.foldl (fun s call => endState (refresh call) s) s

/-- What `DebugFile`s have opened and not closed is what the objects in `debug_files` hold. -/
def Symbolizer.Balanced (s : Symbolizer) : Prop :=
  ∀ fd, fd ∈ s.opened ↔ ∃ file ∈ s.debugFiles, file.fd = fd

theorem refreshes_account (calls : List RefreshCall) :
    ∃ lost, lost.length = (calls.map RefreshCall.leaked).sum ∧
      Account ((refreshes calls .empty).debugFiles.map OpenFile.fd) lost
        (refreshes calls .empty).opened := by
  induction calls using List.reverseRecOn with
  | nil => exact ⟨[], rfl, Account.nil⟩
  | append_singleton before call ih =>
      obtain ⟨lost, hlost, hbefore⟩ := ih
      obtain ⟨more, hmore, hafter⟩ := refresh_account call hbefore
      refine ⟨more ++ lost, ?_, ?_⟩
      · rw [List.length_append, hmore, hlost, List.map_append, List.sum_append, Nat.add_comm]
        simp
      · rw [refreshes, List.foldl_append]
        exact hafter

/-- Every refresh that meets such a file costs a descriptor for good. -/
theorem refreshes_opened (calls : List RefreshCall) :
    (refreshes calls .empty).opened.length
      = (refreshes calls .empty).debugFiles.length + (calls.map RefreshCall.leaked).sum := by
  obtain ⟨lost, hlost, haccount⟩ := refreshes_account calls
  rw [haccount.perm.length_eq, List.length_append, List.length_map, hlost]

theorem refreshes_balanced (calls : List RefreshCall) :
    (refreshes calls .empty).Balanced ↔ ∀ call ∈ calls, call.leaked = 0 := by
  obtain ⟨lost, hlost, haccount⟩ := refreshes_account calls
  calc (refreshes calls .empty).Balanced
      ↔ ∀ fd, fd ∈ (refreshes calls .empty).opened ↔
          fd ∈ (refreshes calls .empty).debugFiles.map OpenFile.fd := by
        simp only [Symbolizer.Balanced, List.mem_map]
    _ ↔ lost = [] := haccount.balanced_iff
    _ ↔ ∀ call ∈ calls, call.leaked = 0 := by
        rw [← List.length_eq_zero_iff, hlost, List.sum_eq_zero_iff_forall_eq_nat]
        simp

/-- The descriptors are accounted for after each of the calls exactly when no call meets a mapped
    file that leaks. -/
theorem refreshes_balanced_iff (calls : List RefreshCall) :
    (∀ before, before <+: calls → (refreshes before .empty).Balanced) ↔
      ∀ call ∈ calls, ∀ maps ∈ call.maps, ∀ map ∈ maps, call.disk.leaks map.path = false := by
  simp only [← RefreshCall.leaked_eq_zero_iff, refreshes_balanced]
  constructor
  · exact fun hall => hall calls List.prefix_rfl
  · exact fun hnone before hbefore call hcall => hnone call (hbefore.subset hcall)

/-- A process that has mapped a data file. -/
def dataMaps : List Mapping := [⟨0x7f0000000000, 0x7f0000001000, 0, "r--p".toList, "/data".toList⟩]

def dataCall : RefreshCall where
  disk := ⟨true, fun _ => some .headerless, [0, 1, 2]⟩
  maps := some dataMaps
  order := ["/data".toList]
  enumerates found hfound := by
    obtain rfl := Option.mem_some_iff.mp hfound
    exact ⟨List.nodup_singleton _, fun path => by simp [dataMaps, eq_comm]⟩

/-- The descriptor of the data file stays open, and the next refresh opens another one. -/
theorem data_file_stays_open :
    (refreshes [dataCall] .empty).debugFiles.length = 0 ∧
      (refreshes [dataCall] .empty).opened = [3] ∧
      (refreshes [dataCall, dataCall] .empty).opened = [4, 3] ∧
      ¬ (refreshes [dataCall] .empty).Balanced := by
  refine ⟨rfl, rfl, rfl, fun hbalanced => ?_⟩
  obtain ⟨file, hfile, -⟩ := (hbalanced 3).mp (List.mem_singleton_self 3)
  exact absurd hfile List.not_mem_nil

end Cosy
