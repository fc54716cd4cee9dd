import Cosy.Pausing
import Cosy.SoleThread

/-!
# Single steps

What `stepi` executes. The program is compared with itself: with the instruction it would have
executed from the same registers, had no trap been put into its memory.
-/

namespace Cosy

open ByteMemory Effect

variable {R D : Type} {arch : Architecture R D}

/-! ### Traps over a memory -/

/-- The memory is the original one with exactly the traps of the enabled records put in, and these
records have the original bytes. -/
structure Overlaid (arch : Architecture R D) (breakpoints : SortedMap Address Breakpoint)
    (original memory : Memory) : Prop where
  saved : ∀ key r, breakpoints.find? key = some r → r.enabled = true →
    r.saved = bytesAt original key arch.breakpointSize
  trap : ∀ key r, breakpoints.find? key = some r → r.enabled = true →
    bytesAt memory key arch.breakpointSize = arch.breakpointInstruction
  rest : ∀ x, (∀ key r, breakpoints.find? key = some r → r.enabled = true →
    ¬ (x - key).toNat < arch.breakpointSize) → memory x = original x

/-- The trap at `key` would overlap none of the traps of other records. -/
def ApartFrom (arch : Architecture R D) (breakpoints : SortedMap Address Breakpoint)
    (key : Address) : Prop :=
  ∀ other r, breakpoints.find? other = some r → r.enabled = true → other ≠ key →
    apart arch.breakpointSize key other = true

section Overlaid

variable {breakpoints : SortedMap Address Breakpoint} {original memory : Memory} {key : Address}
  {r : Breakpoint}

theorem breakpointSize_lt (arch : Architecture R D) : arch.breakpointSize < 2 ^ 64 := by
  have hle : arch.breakpointSize ≤ 8 := Nat.le_of_dvd (by decide) arch.breakpointSize_dvd
  omega

/-- Where no trap is in the way the bytes are the original ones. -/
theorem Overlaid.bytesAt_eq (hover : Overlaid arch breakpoints original memory)
    (hapart : ApartFrom arch breakpoints key)
    (hdisabled : ∀ r, breakpoints.find? key = some r → r.enabled = false) :
    bytesAt memory key arch.breakpointSize = bytesAt original key arch.breakpointSize := by
  refine bytesAt_congr fun i hi => hover.rest _ fun other r hr henabled => ?_
  have hne : other ≠ key := by
    rintro rfl
    rw [hdisabled r hr] at henabled
    cases henabled
  refine not_both_of_apart (hapart other r hr henabled hne) ?_
  rwa [add_sub_toNat key (hi.trans (breakpointSize_lt arch))]

/-- A trap that overlaps no other may be put in. -/
theorem Overlaid.put (hover : Overlaid arch breakpoints original memory)
    (hapart : ApartFrom arch breakpoints key) (hr : breakpoints.find? key = some r)
    (hdisabled : r.enabled = false) :
    Overlaid arch
      (breakpoints.modify key fun r => r.armedWith (bytesAt memory key arch.breakpointSize))
      original (store memory key arch.breakpointInstruction) := by
  have hbytes := hover.bytesAt_eq hapart fun r' hr' => by
    obtain rfl := Option.some.inj (hr.symm.trans hr')
    exact hdisabled
  have hlength := arch.length_breakpointInstruction
  refine ⟨fun other r' hr' henabled => ?_, fun other r' hr' henabled => ?_, fun x hx => ?_⟩
  · by_cases heq : other = key
    · subst heq
      rw [SortedMap.find?_modify_self, hr] at hr'
      obtain rfl := Option.some.inj hr'
      exact hbytes
    · rw [SortedMap.find?_modify_of_ne _ _ heq] at hr'
      exact hover.saved other r' hr' henabled
  · by_cases heq : other = key
    · subst heq
      rw [← hlength, bytesAt_store _ _ _ (by rw [hlength]; exact (breakpointSize_lt arch).le)]
    · rw [SortedMap.find?_modify_of_ne _ _ heq] at hr'
      rw [bytesAt_store_of_apart _ (hapart other r' hr' henabled heq) hlength
        (breakpointSize_lt arch).le]
      exact hover.trap other r' hr' henabled
  · have hout : ¬ (x - key).toNat < arch.breakpointSize := by
      refine hx key (r.armedWith (bytesAt memory key arch.breakpointSize)) ?_ rfl
      rw [SortedMap.find?_modify_self, hr]
      rfl
    rw [store, hlength, if_neg hout]
    refine hover.rest x fun other r' hr' henabled => hx other r' ?_ henabled
    rw [SortedMap.find?_modify_of_ne _ _ ?_]
    · exact hr'
    · rintro rfl
      obtain rfl := Option.some.inj (hr.symm.trans hr')
      rw [hdisabled] at henabled
      cases henabled

/-- A trap that overlaps no other may be lifted. -/
theorem Overlaid.lift (hover : Overlaid arch breakpoints original memory)
    (hapart : ApartFrom arch breakpoints key) (hr : breakpoints.find? key = some r)
    (henabled : r.enabled = true) :
    Overlaid arch (breakpoints.modify key fun r => { r with enabled := false }) original
      (store memory key r.saved) := by
  have hsaved := hover.saved key r hr henabled
  have hlength : r.saved.length = arch.breakpointSize := by rw [hsaved, length_bytesAt]
  -- What is enabled afterwards is another record, and was enabled before.
  have hother : ∀ other r', (breakpoints.modify key fun r => { r with enabled := false }).find? other
      = some r' → r'.enabled = true → other ≠ key ∧ breakpoints.find? other = some r' := by
    intro other r' hr' henabled'
    by_cases heq : other = key
    · subst heq
      rw [SortedMap.find?_modify_self, hr] at hr'
      obtain rfl := Option.some.inj hr'
      cases henabled'
    · rw [SortedMap.find?_modify_of_ne _ _ heq] at hr'
      exact ⟨heq, hr'⟩
  refine ⟨fun other r' hr' henabled' => ?_, fun other r' hr' henabled' => ?_, fun x hx => ?_⟩
  · exact hover.saved other r' (hother other r' hr' henabled').2 henabled'
  · obtain ⟨hne, hr'⟩ := hother other r' hr' henabled'
    rw [bytesAt_store_of_apart _ (hapart other r' hr' henabled' hne) hlength
      (breakpointSize_lt arch).le]
    exact hover.trap other r' hr' henabled'
  · by_cases hin : (x - key).toNat < arch.breakpointSize
    · rw [store, hlength, if_pos hin, hsaved, getD_bytesAt _ hin, add_ofNat_sub_toNat]
    · rw [store, hlength, if_neg hin]
      refine hover.rest x fun other r' hr' henabled' => ?_
      by_cases heq : other = key
      · exact heq ▸ hin
      · refine hx other r' ?_ henabled'
        rw [SortedMap.find?_modify_of_ne _ _ heq]
        exact hr'

/-- The traps are those of the enabled records, whatever other records there are. -/
theorem Overlaid.congr {breakpoints' : SortedMap Address Breakpoint}
    (hover : Overlaid arch breakpoints original memory)
    (hsame : ∀ key r, r.enabled = true →
      (breakpoints'.find? key = some r ↔ breakpoints.find? key = some r)) :
    Overlaid arch breakpoints' original memory where
  saved key r hr henabled := hover.saved key r ((hsame key r henabled).mp hr) henabled
  trap key r hr henabled := hover.trap key r ((hsame key r henabled).mp hr) henabled
  rest x hx := hover.rest x fun key r hr henabled =>
    hx key r ((hsame key r henabled).mpr hr) henabled

end Overlaid

/-! ### Reporting the stop -/

/-- The debugger and the memory between a stop of its thread and the end of the report: the traps are
over the original memory, at addresses of `K`, and there are records at the addresses of `F`. -/
structure InOrder (arch : Architecture R D) (tid : Tid) (modules : ModuleManager)
    (original : Memory) (K F : Set Address) (d : Debugger) (memory : Memory) : Prop where
  formed : WellFormed arch d.breakpoints
  overlaid : Overlaid arch d.breakpoints original memory
  traps : ∀ key r, d.breakpoints.find? key = some r → r.enabled = true → key ∈ K
  keys : ∀ key, (d.breakpoints.find? key).isSome ↔ key ∈ F
  selected : d.selectedTid = tid
  signal : d.stopSignal tid = some sigtrap
  modules : d.modules = modules

section InOrder

variable {tid : Tid} {modules : ModuleManager} {original memory : Memory} {K F : Set Address}
  {d d' : Debugger} {key : Address} {r : Breakpoint}

theorem InOrder.apartFrom (hd : InOrder arch tid modules original K F d memory)
    (hapart : K.Pairwise fun a b => apart arch.breakpointSize a b = true) (hkey : key ∈ K) :
    ApartFrom arch d.breakpoints key :=
  fun other r hr henabled hne => hapart hkey (hd.traps other r hr henabled) hne.symm

theorem InOrder.of_eq (hd : InOrder arch tid modules original K F d memory)
    (hbreakpoints : d'.breakpoints = d.breakpoints) (hselected : d'.selectedTid = d.selectedTid)
    (hsignal : d'.stopSignal tid = d.stopSignal tid) (hmodules : d'.modules = d.modules) :
    InOrder arch tid modules original K F d' memory :=
  ⟨hbreakpoints ▸ hd.formed, hbreakpoints ▸ hd.overlaid, hbreakpoints ▸ hd.traps,
    hbreakpoints ▸ hd.keys, hselected.trans hd.selected, hsignal.trans hd.signal,
    hmodules.trans hd.modules⟩

theorem isSome_find?_modify (breakpoints : SortedMap Address Breakpoint) (key : Address)
    (change : Breakpoint → Breakpoint) (other : Address) :
    ((breakpoints.modify key change).find? other).isSome = (breakpoints.find? other).isSome := by
  rw [SortedMap.find?_modify]
  split
  · rename_i heq
    rw [Option.isSome_map, heq]
  · rfl

theorem InOrder.put (hd : InOrder arch tid modules original K F d memory)
    (hapart : K.Pairwise fun a b => apart arch.breakpointSize a b = true) (hkey : key ∈ K)
    (hr : d.breakpoints.find? key = some r) (hdisabled : r.enabled = false) :
    InOrder arch tid modules original K F
      (d.withRecord key fun r => r.armedWith (bytesAt memory key arch.breakpointSize))
      (store memory key arch.breakpointInstruction) where
  formed := hd.formed.modify fun _ _ => ⟨rfl, rfl, fun _ => length_bytesAt _ _ _⟩
  overlaid := hd.overlaid.put (hd.apartFrom hapart hkey) hr hdisabled
  traps other r' hr' henabled := by
    by_cases heq : other = key
    · exact heq ▸ hkey
    · rw [Debugger.withRecord, SortedMap.find?_modify_of_ne _ _ heq] at hr'
      exact hd.traps other r' hr' henabled
  keys other := by
    rw [Debugger.withRecord, isSome_find?_modify]
    exact hd.keys other
  selected := hd.selected
  signal := hd.signal
  modules := hd.modules

theorem InOrder.lift (hd : InOrder arch tid modules original K F d memory)
    (hapart : K.Pairwise fun a b => apart arch.breakpointSize a b = true)
    (hr : d.breakpoints.find? key = some r) (henabled : r.enabled = true) :
    InOrder arch tid modules original K F
      (d.withRecord key fun r => { r with enabled := false }) (store memory key r.saved) where
  formed := hd.formed.modify fun _ _ => ⟨rfl, rfl, fun hfalse => by cases hfalse⟩
  overlaid := hd.overlaid.lift (hd.apartFrom hapart (hd.traps key r hr henabled)) hr henabled
  traps other r' hr' henabled' := by
    by_cases heq : other = key
    · exact heq ▸ hd.traps key r hr henabled
    · rw [Debugger.withRecord, SortedMap.find?_modify_of_ne _ _ heq] at hr'
      exact hd.traps other r' hr' henabled'
  keys other := by
    rw [Debugger.withRecord, isSome_find?_modify]
    exact hd.keys other
  selected := hd.selected
  signal := hd.signal
  modules := hd.modules

/-- A disabled record is added. -/
theorem InOrder.insert (hd : InOrder arch tid modules original K F d memory)
    (hfresh : d.breakpoints.find? r.address = none) (hdisabled : r.enabled = false)
    (hpending : r.pending = false) (next : Int) :
    InOrder arch tid modules original K (insert r.address F)
      { d with
        breakpoints := d.breakpoints.insert r.address r
        nextBreakpointId := next } memory where
  formed := hd.formed.insert hdisabled hpending
  overlaid := hd.overlaid.congr fun other r' henabled => by
    by_cases heq : other = r.address
    · rw [heq, SortedMap.find?_insert_self, hfresh]
      refine ⟨fun hsome => ?_, fun hsome => by cases hsome⟩
      obtain rfl := Option.some.inj hsome
      rw [hdisabled] at henabled
      cases henabled
    · rw [SortedMap.find?_insert_of_ne _ _ heq]
  traps other r' hr' henabled := by
    by_cases heq : other = r.address
    · rw [heq, SortedMap.find?_insert_self] at hr'
      obtain rfl := Option.some.inj hr'
      rw [hdisabled] at henabled
      cases henabled
    · rw [SortedMap.find?_insert_of_ne _ _ heq] at hr'
      exact hd.traps other r' hr' henabled
  keys other := by
    rw [SortedMap.find?_insert, Set.mem_insert_iff, ← hd.keys other]
    by_cases heq : other = r.address <;> simp [heq]
  selected := hd.selected
  signal := hd.signal
  modules := hd.modules

/-- A disabled record is removed. -/
theorem InOrder.erase (hd : InOrder arch tid modules original K F d memory)
    (hdisabled : ∀ r, d.breakpoints.find? key = some r → r.enabled = false) :
    InOrder arch tid modules original K (F \ {key})
      { d with breakpoints := d.breakpoints.erase key } memory where
  formed := hd.formed.erase key
  overlaid := hd.overlaid.congr fun other r henabled => by
    rw [SortedMap.find?_erase]
    by_cases heq : other = key
    · rw [if_pos heq, heq]
      refine ⟨nofun, fun hsome => ?_⟩
      rw [hdisabled r hsome] at henabled
      cases henabled
    · rw [if_neg heq]
  traps other r hr henabled := by
    rw [SortedMap.find?_erase] at hr
    split at hr
    · cases hr
    · exact hd.traps other r hr henabled
  keys other := by
    rw [SortedMap.find?_erase, Set.mem_sdiff, Set.mem_singleton_iff, ← hd.keys other]
    by_cases heq : other = key <;> simp [heq]
  selected := hd.selected
  signal := hd.signal
  modules := hd.modules

end InOrder

/-- The thread is stopped, and the debugger is about to report it or has done so. -/
def Tended (arch : Architecture R D) (machine : Machine R D) (tid : Tid) (modules : ModuleManager)
    (executed : List (Tid × Address)) (original : Memory) (K F : Set Address) (task : Task R D)
    (s : State R D) : Prop :=
  ∃ d memory hits, InOrder arch tid modules original K F d memory ∧
    Sole machine tid (· = modules) executed hits task d memory s

section Tended

variable {machine : Machine R D} {tid : Tid} {modules : ModuleManager}
  {executed : List (Tid × Address)} {hits : List (Int × Address)} {original : Memory}
  {K F : Set Address} {task : Task R D}
  {s : State R D} {key : Address}

/-- It is enough to follow one debugger and one memory. -/
theorem tended_of_sole {m : Dbg R D α} {Q : α → State R D → Prop}
    (hm : ∀ d memory hits, InOrder arch tid modules original K F d memory →
      Triple (Sole machine tid (· = modules) executed hits task d memory) m Q (fun _ _ => False)) :
    Triple (Tended arch machine tid modules executed original K F task) m Q (fun _ _ => False) := by
  rintro s ⟨d, memory, hits, hd, hs⟩
  exact hm d memory hits hd s hs

theorem tended_note {entry : Entry} (hentry : entry.execution = none) :
    Triple (Tended arch machine tid modules executed original K F task) (note entry)
      (fun _ => Tended arch machine tid modules executed original K F task) (fun _ _ => False) :=
  Triple.modify fun _ ⟨d, memory, _, hd, hs⟩ => by
    have hnoted := hs.noted entry
    rw [hentry] at hnoted
    exact ⟨d, memory, _, hd, hnoted⟩

/-- A change of the debugger that concerns none of this. -/
theorem tended_change {change : Debugger → Debugger}
    (hchange : ∀ d, (change d).breakpoints = d.breakpoints ∧
      (change d).selectedTid = d.selectedTid ∧ (change d).stopSignal tid = d.stopSignal tid ∧
      (change d).modules = d.modules) :
    Triple (Tended arch machine tid modules executed original K F task) (modifyDebugger change)
      (fun _ => Tended arch machine tid modules executed original K F task) (fun _ _ => False) :=
  Triple.modify fun _ ⟨d, memory, _, hd, hs⟩ =>
    ⟨change d, memory, _, hd.of_eq (hchange d).1 (hchange d).2.1 (hchange d).2.2.1 (hchange d).2.2.2,
      hs.change change⟩

theorem tended_noteUserEnabled :
    Triple (Tended arch machine tid modules executed original K F task)
      (noteUserEnabled (R := R) (D := D) key)
      (fun _ => Tended arch machine tid modules executed original K F task)
      (fun _ _ => False) := by
  refine Triple.get_bind fun s => ?_
  cases s.debugger.breakpoints.find? key with
  | none => exact Triple.pure fun _ hs => hs.2
  | some r =>
      refine Triple.doIf (fun _ => ?_) fun _ _ hs => hs.2
      exact (tended_note rfl).pre fun _ hs => hs.2

/-- A disabled record goes into the table. -/
theorem sole_insertBreakpoint {d : Debugger} {memory : Memory} {r : Breakpoint}
    (hd : InOrder arch tid modules original K F d memory)
    (hfresh : d.breakpoints.find? r.address = none) (hdisabled : r.enabled = false)
    (hpending : r.pending = false) :
    Triple (Sole machine tid (· = modules) executed hits task d memory) (insertBreakpoint r)
      (fun _ => Tended arch machine tid modules executed original K (insert r.address F) task)
      (fun _ _ => False) :=
  Triple.modify fun _ hs =>
    ⟨_, memory, _, hd.insert hfresh hdisabled hpending _, hs.change fun d =>
      { d with
        breakpoints := d.breakpoints.insert r.address r
        nextBreakpointId := d.nextBreakpointId + 1 }⟩

variable (hmachine : machine.RunsOnly tid (· = modules)) (hstopped : task.stopped = true)
  (hapart : K.Pairwise fun a b => apart arch.breakpointSize a b = true)

include hmachine hstopped

theorem tended_setPc (value : Address) :
    Triple (Tended arch machine tid modules executed original K F task)
      (setPc arch (machine.environment arch) tid value)
      (fun _ => Tended arch machine tid modules executed original K F
        { task with regs := arch.setPc task.regs value }) (fun _ _ => False) :=
  tended_of_sole fun d memory _ hd =>
    (sole_setPc hmachine hstopped value).post fun _ _ hs => ⟨d, memory, _, hd, hs⟩

include hapart

/-- A record at one of the addresses is enabled, or is so already. -/
theorem tended_enable (hkey : key ∈ K) :
    Triple (Tended arch machine tid modules executed original K F task)
      (enable arch (machine.environment arch) key)
      (fun _ => Tended arch machine tid modules executed original K F task)
      (fun _ _ => False) := by
  refine tended_of_sole fun d memory _ hd => ?_
  cases hr : d.breakpoints.find? key with
  | none =>
      intro s hs
      rw [enable, get_bind_apply, hs.debugger, hr]
      exact ⟨d, memory, _, hd, hs⟩
  | some r =>
      obtain ⟨haddress, hpending, hlength⟩ := hd.formed key r hr
      cases henabled : r.enabled with
      | false =>
          exact (sole_enable hmachine hstopped hd.selected hr haddress hpending henabled).post
            fun _ _ hs => ⟨_, _, _, hd.put hapart hkey hr henabled, hs⟩
      | true =>
          intro s hs
          have hsaved : r.saved.isEmpty = false := by
            rw [List.isEmpty_eq_false_iff]
            exact List.ne_nil_of_length_pos (hlength henabled ▸ arch.breakpointSize_pos)
          rw [enable, get_bind_apply, hs.debugger, hr]
          simp only [henabled, hsaved, Bool.not_false, Bool.and_true, Bool.or_true, if_true]
          exact ⟨d, memory, _, hd, hs⟩

/-- The record of a breakpoint is taken out of the table, and its trap out of memory. -/
theorem tended_dropBreakpoint :
    Triple (Tended arch machine tid modules executed original K F task)
      (dropBreakpoint (machine.environment arch) key)
      (fun _ => Tended arch machine tid modules executed original K (F \ {key}) task)
      (fun _ _ => False) := by
  refine tended_of_sole fun d memory hits hd => ?_
  -- Once `disable` is done the record is disabled, if there is one.
  have hdisable : Triple (Sole machine tid (· = modules) executed hits task d memory)
      (disable (machine.environment arch) key)
      (fun _ s => ∃ d' memory', InOrder arch tid modules original K F d' memory' ∧
        (∀ r, d'.breakpoints.find? key = some r → r.enabled = false) ∧
        Sole machine tid (· = modules) executed hits task d' memory' s) (fun _ _ => False) := by
    by_cases henabled : ∃ r, d.breakpoints.find? key = some r ∧ r.enabled = true
    · obtain ⟨r, hr, henabled⟩ := henabled
      obtain ⟨haddress, hpending, hlength⟩ := hd.formed key r hr
      refine (sole_disable hmachine hstopped hd.selected hr haddress hpending henabled
        (hlength henabled)).post fun _ _ hs => ?_
      refine ⟨_, _, hd.lift hapart hr henabled, fun r' hr' => ?_, hs⟩
      rw [Debugger.withRecord, SortedMap.find?_modify_self, hr] at hr'
      obtain rfl := Option.some.inj hr'
      rfl
    · have hdisabled : ∀ r, d.breakpoints.find? key = some r → r.enabled = false :=
        fun r hr => Bool.eq_false_iff.mpr fun hr' => henabled ⟨r, hr, hr'⟩
      exact (sole_disable_none hdisabled).post fun _ _ hs => ⟨d, memory, hd, hdisabled, hs⟩
  refine Triple.bind hdisable fun _ => Triple.modify ?_
  rintro s ⟨d', memory', hd', hdisabled, hs⟩
  exact ⟨_, memory', _, hd'.erase hdisabled,
    hs.change fun d => { d with breakpoints := d.breakpoints.erase key }⟩

/-- After `create_breakpoint` there is a record at the address. -/
theorem tended_createBreakpoint (hkey : key ∈ K) (specification : Text) (temporary : Bool) :
    Triple (Tended arch machine tid modules executed original K F task)
      (createBreakpoint arch (machine.environment arch) key specification temporary)
      (fun _ => Tended arch machine tid modules executed original K (insert key F) task)
      (fun _ _ => False) := by
  refine tended_of_sole fun d memory hits hd s hs => ?_
  rw [createBreakpoint, get_bind_apply, hs.debugger]
  cases hr : d.breakpoints.find? key with
  | some existing =>
      have hmem : key ∈ F := (hd.keys key).mp (by rw [hr]; rfl)
      rw [Set.insert_eq_of_mem hmem]
      exact ⟨d, memory, _, hd, hs⟩
  | none =>
      dsimp only
      refine Triple.bind (sole_insertBreakpoint hd hr rfl rfl) (fun _ => ?_) s hs
      refine Triple.bind (tended_enable hmachine hstopped hapart hkey) fun _ => ?_
      exact Triple.bind tended_noteUserEnabled fun _ => Triple.pure fun _ ht => ht

/-- The addresses the pending specifications stand for. -/
def resolutions (modules : ModuleManager) (pending : List Breakpoint) : List Address :=
  pending.flatMap fun breakpoint => resolveSpecification modules breakpoint.specification

theorem tended_announceResolved (specification : Text) (addresses : List Address)
    (hmem : ∀ address ∈ addresses, address ∈ K) : ∀ F,
    Triple (Tended arch machine tid modules executed original K F task)
      (announceResolved arch (machine.environment arch) specification addresses)
      (fun _ => Tended arch machine tid modules executed original K (F ∪ {a | a ∈ addresses}) task)
      (fun _ _ => False) := by
  induction addresses with
  | nil =>
      intro F
      refine Triple.pure fun _ hs => ?_
      simpa using hs
  | cons address rest ih =>
      intro F
      have hunion : F ∪ {a | a ∈ address :: rest} = insert address F ∪ {a | a ∈ rest} := by
        ext a
        simp only [Set.mem_union, Set.mem_ofPred_eq, List.mem_cons, Set.mem_insert_iff]
        tauto
      rw [hunion]
      refine Triple.bind (tended_createBreakpoint hmachine hstopped hapart
        (hmem address List.mem_cons_self) specification false) fun id => ?_
      refine Triple.bind (tended_note rfl) fun _ => ?_
      exact ih (fun a ha => hmem a (List.mem_cons_of_mem _ ha)) _

theorem tended_resolvePendingFrom (pending : List Breakpoint)
    (hmem : ∀ address ∈ resolutions modules pending, address ∈ K) : ∀ kept F,
    Triple (Tended arch machine tid modules executed original K F task)
      (resolvePendingFrom arch (machine.environment arch) kept pending)
      (fun _ => Tended arch machine tid modules executed original K
        (F ∪ {a | a ∈ resolutions modules pending}) task)
      (fun _ _ => False) := by
  induction pending with
  | nil =>
      intro kept F
      refine Triple.pure fun _ hs => ?_
      simpa [resolutions] using hs
  | cons breakpoint rest ih =>
      intro kept F
      have hrest : ∀ address ∈ resolutions modules rest, address ∈ K := fun address haddress =>
        hmem address (by simp [resolutions] at haddress ⊢; tauto)
      have hunion : F ∪ {a | a ∈ resolutions modules (breakpoint :: rest)}
          = F ∪ {a | a ∈ resolveSpecification modules breakpoint.specification} ∪
            {a | a ∈ resolutions modules rest} := by
        ext a
        simp [resolutions, or_assoc]
      rw [hunion]
      refine tended_of_sole fun d memory hits hd s hs => ?_
      rw [resolvePendingFrom, get_bind_apply, hs.debugger, hd.modules]
      cases hresolved : resolveSpecification modules breakpoint.specification with
      | nil =>
          have hempty : F ∪ {a | a ∈ ([] : List Address)} = F := by simp
          rw [hempty]
          exact ih hrest _ F s ⟨d, memory, _, hd, hs⟩
      | cons address others =>
          refine Triple.bind (tended_announceResolved hmachine hstopped hapart _ _ ?_ F) (fun _ => ?_)
            s ⟨d, memory, _, hd, hs⟩
          · intro a ha
            refine hmem a (List.mem_flatMap.mpr ⟨breakpoint, List.mem_cons_self, ?_⟩)
            rwa [hresolved]
          exact Triple.bind (tended_change fun _ => ⟨rfl, rfl, rfl, rfl⟩) fun _ => ih hrest _ _

theorem sole_refreshTarget {d : Debugger} {memory : Memory}
    (hd : InOrder arch tid modules original K F { d with modules := modules } memory)
    (hmem : ∀ address ∈ resolutions modules d.pendingBreakpoints, address ∈ K) :
    Triple (Sole machine tid (· = modules) executed hits task d memory)
      (refreshTarget arch (machine.environment arch))
      (fun _ => Tended arch machine tid modules executed original K
        (F ∪ {a | a ∈ resolutions modules d.pendingBreakpoints}) task)
      (fun _ _ => False) := by
  refine Triple.bind (sole_refreshModules hmachine hstopped) fun _ => ?_
  rintro s ⟨_, rfl, hs⟩
  rw [resolvePendingBreakpoints, get_bind_apply, hs.debugger]
  exact tended_resolvePendingFrom hmachine hstopped hapart _ hmem [] F s ⟨_, memory, _, hd, hs⟩

/-! ### The report -/

/-- A record where `print_stop` looks for one takes the program counter back. -/
theorem tended_inspectBreakpoint_found {address : Address} (hfound : address ∈ F) :
    Triple (Tended arch machine tid modules executed original K F task)
      (inspectBreakpoint arch (machine.environment arch) tid address)
      (fun _ s => ∃ F', Tended arch machine tid modules executed original K F'
        { task with regs := arch.setPc task.regs address } s)
      (fun _ _ => False) := by
  refine tended_of_sole fun d memory hits hd s hs => ?_
  rw [inspectBreakpoint, get_bind_apply, hs.debugger]
  cases hr : d.breakpoints.find? address with
  | none =>
      have hsome := (hd.keys address).mpr hfound
      rw [hr] at hsome
      cases hsome
  | some r =>
      refine Triple.bind (tended_setPc hmachine hstopped address) (fun _ => ?_) s
        ⟨d, memory, _, hd, hs⟩
      refine Triple.bind (tended_note rfl) fun _ => Triple.bind (tended_note rfl) fun _ => ?_
      refine Triple.doIf (fun _ => ?_) fun _ t ht => ⟨F, ht⟩
      refine Triple.bind (tended_dropBreakpoint hmachine hstopped hapart) fun _ => ?_
      exact (tended_note rfl).post fun _ _ ht => ⟨_, ht⟩

omit hmachine hstopped hapart in
theorem tended_inspectBreakpoint_missed {address : Address} (hmissed : address ∉ F) :
    Triple (Tended arch machine tid modules executed original K F task)
      (inspectBreakpoint arch (machine.environment arch) tid address)
      (fun _ s => ∃ F', Tended arch machine tid modules executed original K F' task s)
      (fun _ _ => False) := by
  refine tended_of_sole fun d memory hits hd s hs => ?_
  rw [inspectBreakpoint, get_bind_apply, hs.debugger]
  cases hr : d.breakpoints.find? address with
  | none => exact ⟨F, d, memory, _, hd, hs⟩
  | some r => exact absurd ((hd.keys address).mp (by rw [hr]; rfl)) hmissed

omit hapart in
/-- The report of the stop leaves the thread as looking for a breakpoint has left it. -/
theorem tended_reportStop {task' : Task R D} (hstopped' : task'.stopped = true)
    (hinspect : Triple (Tended arch machine tid modules executed original K F task)
      (inspectBreakpoint arch (machine.environment arch) tid (arch.candidate (arch.pc task.regs)))
      (fun _ s => ∃ F', Tended arch machine tid modules executed original K F' task' s)
      (fun _ _ => False)) :
    Triple (Tended arch machine tid modules executed original K F task)
      (reportStop arch (machine.environment arch) tid)
      (fun _ s => ∃ F', Tended arch machine tid modules executed original K F' task' s)
      (fun _ _ => False) := by
  refine tended_of_sole fun d memory hits hd => ?_
  refine sole_reportStop hmachine hstopped hd.signal hstopped' ?_
    (hinspect.pre fun s hs => ⟨d, memory, hits, hd, hs⟩)
  rintro s ⟨F', d', memory', hits', hd', hs⟩
  exact ⟨executed, hits', d', memory', hs, fun t ht => ⟨F', d', memory', hits', hd', ht⟩⟩

/-- The debugger once it has recorded the stop and looked at the memory maps. -/
def Debugger.atStop (d : Debugger) (tid : Tid) (modules : ModuleManager) : Debugger :=
  { d.recording tid with modules := modules }

/-- `wait_and_report` from the stop on. -/
theorem sole_handleEvent {d : Debugger} {memory : Memory} {task' : Task R D}
    (hd : InOrder arch tid modules original K F (d.atStop tid modules) memory)
    (hmem : ∀ address ∈ resolutions modules d.pendingBreakpoints, address ∈ K)
    (hstopped' : task'.stopped = true)
    (hinspect : Triple (Tended arch machine tid modules executed original K
        (F ∪ {a | a ∈ resolutions modules d.pendingBreakpoints}) task)
      (inspectBreakpoint arch (machine.environment arch) tid (arch.candidate (arch.pc task.regs)))
      (fun _ s => ∃ F', Tended arch machine tid modules executed original K F' task' s)
      (fun _ _ => False)) :
    Triple (Sole machine tid (· = modules) executed hits task d memory)
      (do
        noteConsumed arch .waitAndReport tid (.stopped sigtrap 0)
        handleEvent arch (machine.environment arch) tid (.stopped sigtrap 0) true)
      (fun _ s => ∃ F', Tended arch machine tid modules executed original K F' task' s)
      (fun _ _ => False) :=
  sole_stopConsumed (sole_refreshTarget hmachine hstopped hapart hd hmem)
    (tended_reportStop hmachine hstopped hstopped' hinspect)

end Tended

/-! ### The command -/

/-- Reading the program counter and setting it concern the same register. -/
structure Architecture.LawfulPc (arch : Architecture R D) : Prop where
  setPc_pc : ∀ regs, arch.setPc regs (arch.pc regs) = regs
  setPc_setPc : ∀ regs value value',
    arch.setPc (arch.setPc regs value) value' = arch.setPc regs value'

/-- The table with the record at an address disabled. -/
def Debugger.liftedAt (d : Debugger) (address : Address) : SortedMap Address Breakpoint :=
  d.breakpoints.modify address fun r => { r with enabled := false }

/-- The addresses where there is a trap, or will be once the pending breakpoints are resolved. -/
def Debugger.trapAddresses (d : Debugger) (modules : ModuleManager) : Set Address :=
  {address | d.hasEnabled address = true ∨ address ∈ resolutions modules d.pendingBreakpoints}

/-- Whether there will be a record at an address once the pending breakpoints are resolved. -/
def Debugger.hasRecord (d : Debugger) (modules : ModuleManager) (address : Address) : Prop :=
  d.breakpoints.contains address = true ∨ address ∈ resolutions modules d.pendingBreakpoints

/-- The only thread of a program is stopped and selected, and its next instruction leads from the
original memory to `original'` and to the registers `regs'`. This instruction is no trap of the program,
nor is the next one where the thread is going to be stepped twice. The traps of the enabled records are
over the original memory, none overlaps another or one of the two instructions, and the instruction does
not read or write what they hide. -/
structure AboutToStep (arch : Architecture R D) (machine : Machine R D) (tid : Tid)
    (modules : ModuleManager) (task : Task R D) (original : Memory) (regs' : R)
    (original' : Memory) (s : State R D) : Prop where
  runs : machine.RunsOnly tid (· = modules)
  sole : Sole machine tid (· = modules) s.executions s.hits task s.debugger s.target.memory s
  stopped : task.stopped = true
  alive : s.debugger.alive = true
  selected : s.debugger.selectedTid = tid
  recorded : s.debugger.RecordsStopped tid
  formed : WellFormed arch s.debugger.breakpoints
  overlaid : Overlaid arch s.debugger.breakpoints original s.target.memory
  step : machine.program.step task.regs original = (regs', original')
  current : arch.trapAt original (arch.pc task.regs) = false
  next : s.debugger.hasEnabled (arch.pc task.regs) = true →
    s.debugger.hasEnabled (arch.pc regs') = false → arch.trapAt original' (arch.pc regs') = false
  apart : ({arch.pc task.regs, arch.pc regs'} ∪ s.debugger.trapAddresses modules).Pairwise
    fun a b => apart arch.breakpointSize a b = true
  blind : ∀ memory, Overlaid arch (s.debugger.liftedAt (arch.pc task.regs)) original memory →
    ∃ memory', machine.program.step task.regs memory = (regs', memory') ∧
      Overlaid arch (s.debugger.liftedAt (arch.pc task.regs)) original' memory'

/-- Exactly one instruction has been executed, the one at `current`, and the process is in the state
the program itself would be in, but for the traps of the enabled records. -/
structure SteppedOnce (arch : Architecture R D) (tid : Tid) (current : Address) (regs' : R)
    (original' : Memory) (s t : State R D) : Prop where
  executed : t.executions = (tid, current) :: s.executions
  thread : ∃ task, t.target.tasks.find? tid = some task ∧ task.stopped = true ∧ task.regs = regs'
  memory : Overlaid arch t.debugger.breakpoints original' t.target.memory

section Command

variable {machine : Machine R D} {tid : Tid} {modules : ModuleManager} {task : Task R D}
  {original original' memory : Memory} {regs' : R} {s : State R D} {executed : List (Tid × Address)}
  {hits : List (Int × Address)}
  {d : Debugger}

theorem liftedAt_of_disabled {address : Address} (hdisabled : d.hasEnabled address = false) :
    d.liftedAt address = d.breakpoints := by
  refine SortedMap.ext_find? fun key => ?_
  rw [Debugger.liftedAt, SortedMap.find?_modify]
  split
  · rename_i heq
    rw [heq]
    unfold Debugger.hasEnabled at hdisabled
    cases hr : d.breakpoints.find? address with
    | none => rfl
    | some r =>
        rw [hr] at hdisabled
        rw [Option.map_some, ← hdisabled]
  · rfl

theorem hasEnabled_iff {address : Address} :
    d.hasEnabled address = true ↔ ∃ r, d.breakpoints.find? address = some r ∧ r.enabled = true := by
  unfold Debugger.hasEnabled
  cases d.breakpoints.find? address with
  | none => simp
  | some r => simp

/-- The debugger once `resume_thread` has let the thread go. -/
def Debugger.resuming (d : Debugger) (tid : Tid) : Debugger :=
  d.withThreads fun threads => threads.modify tid fun state =>
    { state with stopped := false, signal := 0 }

/-- The second half of `instruction_step`: the thread is let go for a step, and what is done about
its stop is known. -/
theorem sole_stepAndReport {shown : ModuleManager → Prop} {report : Bool}
    (hmachine : machine.RunsOnly tid shown)
    (hstopped : task.stopped = true) (hselected : d.selectedTid = tid)
    (hrecorded : d.RecordsStopped tid) {executed' : List (Tid × Address)} {task' : Task R D}
    {memory' : Memory} {Q : PUnit → State R D → Prop} {E : Halt → State R D → Prop}
    (hwait : Triple (Sole machine tid shown executed hits task.letGo (d.resuming tid) memory)
      (waitForEvent (machine.environment arch))
      (fun event s => event = (tid, .stopped sigtrap 0) ∧
        Sole machine tid shown executed' hits task' (d.resuming tid) memory' s)
      (fun _ _ => False))
    (hhandle : Triple (Sole machine tid shown executed' hits task' (d.resuming tid) memory')
      (do
        noteConsumed arch .waitAndReport tid (.stopped sigtrap 0)
        handleEvent arch (machine.environment arch) tid (.stopped sigtrap 0) report) Q E) :
    Triple (Sole machine tid shown executed hits task d memory)
      (do
        let s ← get
        resumeThread (machine.environment arch) s.debugger.selectedTid .singlestep
        waitAndReport arch (machine.environment arch) report) Q E := by
  intro s hs
  rw [get_bind_apply, hs.debugger, hselected]
  have hresume : Triple (Sole machine tid shown executed hits task d memory)
      (resumeThread (machine.environment arch) tid .singlestep)
      (fun _ => Sole machine tid shown executed hits task.letGo (d.resuming tid) memory)
      (fun _ _ => False) := by
    intro t ht
    obtain ⟨state, hstate, hflag⟩ := hrecorded
    rw [resumeThread, get_bind_apply, ht.debugger, hstate]
    simp only [hflag, if_true]
    exact Triple.bind (sole_resume hmachine hstopped .singlestep) (fun _ => sole_modifyThreads _) t
      ht
  refine Triple.bind hresume.never
    (fun _ => Triple.bind hwait.never
      fun event => ?_) s hs
  rintro t ⟨rfl, ht⟩
  exact hhandle t ht

variable {K : Set Address}

theorem inOrder_atStop (hformed : WellFormed arch d.breakpoints)
    (hover : Overlaid arch d.breakpoints original memory)
    (htraps : ∀ key r, d.breakpoints.find? key = some r → r.enabled = true → key ∈ K)
    (halive : d.alive = true) :
    InOrder arch tid modules original K {address | d.breakpoints.contains address = true}
      ((d.resuming tid).atStop tid modules) memory where
  formed := hformed
  overlaid := hover
  traps := htraps
  keys _ := Iff.rfl
  selected := rfl
  signal := (d.resuming tid).stopSignal_recording modules halive
  modules := rfl

variable (task executed) in
/-- How the report of a stop ends: with the program counter set back if there is a record. -/
theorem sole_report (hmachine : machine.RunsOnly tid (· = modules)) (hstopped : task.stopped = true)
    (hapart : K.Pairwise fun a b => apart arch.breakpointSize a b = true)
    (hformed : WellFormed arch d.breakpoints)
    (hover : Overlaid arch d.breakpoints original memory)
    (htraps : ∀ address ∈ d.trapAddresses modules, address ∈ K) (halive : d.alive = true)
    {address : Address} (haddress : arch.candidate (arch.pc task.regs) = address) :
    ∃ task' : Task R D, task'.stopped = true ∧
      (d.hasRecord modules address → task'.regs = arch.setPc task.regs address) ∧
      (¬ d.hasRecord modules address → task'.regs = task.regs) ∧
      Triple (Sole machine tid (· = modules) executed hits task (d.resuming tid) memory)
        (do
          noteConsumed arch .waitAndReport tid (.stopped sigtrap 0)
          handleEvent arch (machine.environment arch) tid (.stopped sigtrap 0) true)
        (fun _ s => ∃ F', Tended arch machine tid modules executed original K F' task' s)
        (fun _ _ => False) := by
  subst haddress
  have hd : InOrder arch tid modules original K {address | d.breakpoints.contains address = true}
      ((d.resuming tid).atStop tid modules) memory :=
    inOrder_atStop hformed hover
      (fun key r hr henabled => htraps key (Or.inl (hasEnabled_iff.mpr ⟨r, hr, henabled⟩))) halive
  have hmem : ∀ address ∈ resolutions modules d.pendingBreakpoints, address ∈ K :=
    fun address haddress => htraps address (Or.inr haddress)
  by_cases hrecord : d.hasRecord modules (arch.candidate (arch.pc task.regs))
  · exact ⟨{ task with regs := arch.setPc task.regs (arch.candidate (arch.pc task.regs)) }, hstopped,
      fun _ => rfl, fun hnone => absurd hrecord hnone,
      sole_handleEvent hmachine hstopped hapart hd hmem hstopped
        (tended_inspectBreakpoint_found hmachine hstopped hapart hrecord)⟩
  · exact ⟨task, hstopped, fun hsome => absurd hsome hrecord, fun _ => rfl,
      sole_handleEvent hmachine hstopped hapart hd hmem hstopped
        (tended_inspectBreakpoint_missed hrecord)⟩

theorem Tended.steppedOnce {F : Set Address} {current : Address} {t : State R D}
    (ht : Tended arch machine tid modules ((tid, current) :: s.executions) original' K F task t)
    (hstopped : task.stopped = true) : SteppedOnce arch tid current task.regs original' s t := by
  obtain ⟨d, memory, hits, hd, ht⟩ := ht
  refine ⟨ht.executions, ⟨task, ht.find?, hstopped, rfl⟩, ?_⟩
  rw [ht.debugger, ht.memory]
  exact hd.overlaid

/-- From an enabled record the instruction is executed with its trap lifted; then the trap is back. -/
theorem sole_overBreakpoint (executed : List (Tid × Address)) (hits : List (Int × Address))
    {shown : ModuleManager → Prop} (hmachine : machine.RunsOnly tid shown)
    (hstopped : task.stopped = true) (hselected : d.selectedTid = tid)
    (hcontains : d.threads.contains tid = true) (hformed : WellFormed arch d.breakpoints)
    (hover : Overlaid arch d.breakpoints original memory)
    (hapart : ApartFrom arch d.breakpoints (arch.pc task.regs))
    (henabled : d.hasEnabled (arch.pc task.regs) = true)
    (hcurrent : arch.trapAt original (arch.pc task.regs) = false)
    (hblind : ∀ memory, Overlaid arch (d.liftedAt (arch.pc task.regs)) original memory →
      ∃ memory', machine.program.step task.regs memory = (regs', memory') ∧
        Overlaid arch (d.liftedAt (arch.pc task.regs)) original' memory') :
    ∃ saved memory', WellFormed arch (d.steppedOver tid (arch.pc task.regs) saved).breakpoints ∧
      Overlaid arch (d.steppedOver tid (arch.pc task.regs) saved).breakpoints original' memory' ∧
      Triple (Sole machine tid shown executed hits task d memory)
        (stepOverBreakpoint arch (machine.environment arch))
        (fun _ => Sole machine tid shown ((tid, arch.pc task.regs) :: executed) hits
          (task.stepped regs') (d.steppedOver tid (arch.pc task.regs) saved) memory')
        (fun _ _ => False) := by
  obtain ⟨r, hr, hflag⟩ := hasEnabled_iff.mp henabled
  obtain ⟨haddress, hpending, hlength⟩ := hformed _ r hr
  obtain ⟨memory', hstep, hover'⟩ := hblind _ (hover.lift hapart hr hflag)
  have htrap : arch.trapAt (store memory (arch.pc task.regs) r.saved) (arch.pc task.regs)
      = false := by
    have hbytes : bytesAt (store memory (arch.pc task.regs) r.saved) (arch.pc task.regs)
        arch.breakpointSize = bytesAt original (arch.pc task.regs) arch.breakpointSize := by
      rw [← hlength hflag, bytesAt_store _ _ _
        (by rw [hlength hflag]; exact (breakpointSize_lt arch).le), hover.saved _ r hr hflag,
        length_bytesAt]
    unfold Architecture.trapAt at hcurrent ⊢
    rwa [hbytes]
  -- The record while its trap is lifted.
  have hgone : (d.liftedAt (arch.pc task.regs)).find? (arch.pc task.regs)
      = some { r with enabled := false } := by
    rw [Debugger.liftedAt, SortedMap.find?_modify_self, hr]
    rfl
  have hapart' : ApartFrom arch (d.liftedAt (arch.pc task.regs)) (arch.pc task.regs) := by
    intro other r' hr' hflag' hne
    rw [Debugger.liftedAt, SortedMap.find?_modify_of_ne _ _ hne] at hr'
    exact hapart other r' hr' hflag' hne
  have hput := hover'.put hapart' hgone rfl
  have htable : (d.liftedAt (arch.pc task.regs)).modify (arch.pc task.regs)
      (fun r => r.armedWith (bytesAt memory' (arch.pc task.regs) arch.breakpointSize))
      = (d.steppedOver tid (arch.pc task.regs)
        (bytesAt memory' (arch.pc task.regs) arch.breakpointSize)).breakpoints :=
    congrArg Debugger.breakpoints (d.withRecord_withRecord (arch.pc task.regs) _ _)
  rw [htable] at hput
  exact ⟨_, _, hformed.modify fun _ _ => ⟨rfl, rfl, fun _ => length_bytesAt _ _ _⟩, hput,
    sole_stepOverBreakpoint executed hmachine hstopped hselected rfl hr haddress hpending hflag
      (hlength hflag) hcontains htrap hstep⟩

section AboutToStep

variable (hs : AboutToStep arch machine tid modules task original regs' original' s)

include hs

theorem AboutToStep.apartFrom {address : Address}
    (haddress : address = arch.pc task.regs ∨ address = arch.pc regs') :
    ApartFrom arch s.debugger.breakpoints address := by
  intro other r hr henabled hne
  exact hs.apart (Or.inl haddress) (Or.inr (Or.inl (hasEnabled_iff.mpr ⟨r, hr, henabled⟩))) hne.symm

theorem AboutToStep.instructionStep_of {Q : PUnit → State R D → Prop}
    {E : Halt → State R D → Prop}
    (hm : Triple (Sole machine tid (· = modules) s.executions s.hits task s.debugger s.target.memory)
      (do
        stepOverBreakpoint arch (machine.environment arch)
        let s ← get
        resumeThread (machine.environment arch) s.debugger.selectedTid .singlestep
        waitAndReport arch (machine.environment arch) true) Q E) :
    Triple (fun t => t = s) (instructionStep arch (machine.environment arch) true) Q E := by
  rintro t rfl
  rw [instructionStep, get_bind_apply, if_pos hs.alive]
  exact hm t hs.sole

/-- Without an enabled record at the program counter, the instruction is executed where it is. -/
theorem AboutToStep.without
    (hdisabled : s.debugger.hasEnabled (arch.pc task.regs) = false) :
    ∃ memory', Overlaid arch s.debugger.breakpoints original' memory' ∧
      ∀ (Q : PUnit → State R D → Prop) (E : Halt → State R D → Prop),
        Triple (Sole machine tid (· = modules) ((tid, arch.pc task.regs) :: s.executions) s.hits
            (task.stepped regs') (s.debugger.resuming tid) memory')
          (do
            noteConsumed arch .waitAndReport tid (.stopped sigtrap 0)
            handleEvent arch (machine.environment arch) tid (.stopped sigtrap 0) true) Q E →
        Triple (fun t => t = s) (instructionStep arch (machine.environment arch) true) Q E := by
  have hnone : ∀ r, s.debugger.breakpoints.find? (arch.pc task.regs) = some r → r.enabled = false :=
    fun r hr => Bool.eq_false_iff.mpr fun henabled => by
      rw [hasEnabled_iff.mpr ⟨r, hr, henabled⟩] at hdisabled
      cases hdisabled
  have hblind := hs.blind
  rw [liftedAt_of_disabled hdisabled] at hblind
  obtain ⟨memory', hstep, hover⟩ := hblind _ hs.overlaid
  refine ⟨memory', hover, fun Q E hQ => ?_⟩
  have htrap : arch.trapAt s.target.memory (arch.pc task.regs) = false := by
    have hbytes := hs.overlaid.bytesAt_eq (hs.apartFrom (Or.inl rfl)) hnone
    have hcurrent := hs.current
    unfold Architecture.trapAt at hcurrent ⊢
    rwa [hbytes]
  have hrest := sole_stepAndReport hs.runs hs.stopped hs.selected hs.recorded
    (sole_executed hs.runs htrap hstep) hQ
  refine hs.instructionStep_of ?_
  exact Triple.bind (sole_stepOverBreakpoint_none hs.runs hs.stopped hs.selected hnone).never
    fun _ => hrest

/-- From an enabled record the instruction is executed with its trap lifted; then the trap is back,
and the thread is let go once more. -/
theorem AboutToStep.over (henabled : s.debugger.hasEnabled (arch.pc task.regs) = true) :
    ∃ saved memory',
      WellFormed arch (s.debugger.steppedOver tid (arch.pc task.regs) saved).breakpoints ∧
      Overlaid arch (s.debugger.steppedOver tid (arch.pc task.regs) saved).breakpoints original'
        memory' ∧
      ∀ (Q : PUnit → State R D → Prop) (E : Halt → State R D → Prop),
        Triple (Sole machine tid (· = modules) ((tid, arch.pc task.regs) :: s.executions) s.hits
            (task.stepped regs') (s.debugger.steppedOver tid (arch.pc task.regs) saved) memory')
          (do
            let s ← get
            resumeThread (machine.environment arch) s.debugger.selectedTid .singlestep
            waitAndReport arch (machine.environment arch) true) Q E →
        Triple (fun t => t = s) (instructionStep arch (machine.environment arch) true) Q E := by
  obtain ⟨state, hstate, -⟩ := hs.recorded
  obtain ⟨saved, memory', hformed, hover, hstep⟩ := sole_overBreakpoint s.executions s.hits hs.runs
    hs.stopped hs.selected (SortedMap.contains_eq_true_iff.mpr ⟨state, hstate⟩) hs.formed hs.overlaid
    (hs.apartFrom (Or.inl rfl)) henabled hs.current hs.blind
  exact ⟨saved, memory', hformed, hover, fun Q E hQ =>
    hs.instructionStep_of (Triple.bind hstep.never fun _ => hQ)⟩

end AboutToStep

theorem hasEnabled_steppedOver {key : Address} (saved : List Byte)
    (henabled : d.hasEnabled key = true) (address : Address) :
    (d.steppedOver tid key saved).hasEnabled address = d.hasEnabled address := by
  have hfind : (d.steppedOver tid key saved).breakpoints.find? address
      = if address = key then (d.breakpoints.find? key).map fun r => r.armedWith saved
        else d.breakpoints.find? address := SortedMap.find?_modify _ _ _ _
  obtain ⟨r, hr, hflag⟩ := hasEnabled_iff.mp henabled
  rw [Debugger.hasEnabled, hfind]
  by_cases heq : address = key
  · rw [if_pos heq, hr, heq, henabled]
    rfl
  · rw [if_neg heq]
    rfl

theorem hasRecord_steppedOver {key address : Address} {saved : List Byte}
    (henabled : d.hasEnabled address = true) :
    (d.steppedOver tid key saved).hasRecord modules address := by
  obtain ⟨r, hr, -⟩ := hasEnabled_iff.mp henabled
  have hsome := isSome_find?_modify d.breakpoints key (fun r => r.armedWith saved) address
  rw [hr] at hsome
  exact Or.inl hsome

theorem trapAddresses_steppedOver {key : Address} {K : Set Address} (saved : List Byte)
    (henabled : d.hasEnabled key = true) :
    ∀ address ∈ (d.steppedOver tid key saved).trapAddresses modules,
      address ∈ K ∪ d.trapAddresses modules := by
  rintro address (htrap | hpending)
  · exact Or.inr (Or.inl ((hasEnabled_steppedOver saved henabled address).symm.trans htrap))
  · exact Or.inr (Or.inr hpending)

theorem recordsStopped_steppedOver (d : Debugger) (tid : Tid) (key : Address) (saved : List Byte) :
    (d.steppedOver tid key saved).RecordsStopped tid :=
  ⟨_, SortedMap.find?_insert_self _ _ _, rfl⟩

/-- What happens once the instruction has been executed can only add to the instructions executed. -/
theorem executed_suffix (hformed : WellFormed arch d.breakpoints) :
    Triple (Sole machine tid (· = modules) executed hits task d memory)
      (do
        noteConsumed arch .waitAndReport tid (.stopped sigtrap 0)
        handleEvent arch (machine.environment arch) tid (.stopped sigtrap 0) true)
      (fun _ t => executed <:+ t.executions) (fun _ t => executed <:+ t.executions) := by
  have henv := Environment.leavesText_empty (machine.environment arch)
  have hwithin : Within (Runs arch (machine.environment arch) ∅ commanding) (do
      noteConsumed arch .waitAndReport tid (.stopped sigtrap 0)
      handleEvent arch (machine.environment arch) tid (.stopped sigtrap 0) true) :=
    Within.bind (does_noteConsumed (by decide) _ _) fun _ =>
      (stepsWithin_commanding henv).handleEvent henv _ _ _
  have hsuffix : ∀ s t : State R D, Runs arch (machine.environment arch) ∅ commanding s t →
      Sole machine tid (· = modules) executed hits task d memory s → executed <:+ t.executions := by
    intro s t hruns hs
    have hlog := (hruns (hs.debugger ▸ hformed)).1.log_suffix
    rw [← hs.executions]
    exact hlog.filterMap _
  exact Triple.of_within hwithin (fun s t hruns hs _ => hsuffix s t hruns hs)
    fun s t hruns hs _ => hsuffix s t hruns hs

section Verdicts

variable (hs : AboutToStep arch machine tid modules task original regs' original' s)

include hs

/-- Where nothing is stepped over, all depends on the report, which may set the thread back. -/
theorem AboutToStep.once_without (hpc : arch.LawfulPc)
    (hdisabled : s.debugger.hasEnabled (arch.pc task.regs) = false) :
    (∃ t, instructionStep arch (machine.environment arch) true s = .ok ⟨⟩ t ∧
        SteppedOnce arch tid (arch.pc task.regs) regs' original' s t) ↔
      arch.candidate (arch.pc regs') = arch.pc regs' ∨
        ¬ s.debugger.hasRecord modules (arch.candidate (arch.pc regs')) := by
  obtain ⟨memory', hover, hcontinue⟩ := hs.without hdisabled
  obtain ⟨task', hstopped', hfound, hmissed, hreport⟩ := sole_report
    (task.stepped regs') ((tid, arch.pc task.regs) :: s.executions) hs.runs rfl
    hs.apart hs.formed hover (fun _ haddress => Or.inr haddress) hs.alive rfl
  obtain ⟨⟨⟩, t, hrun, F, ht⟩ := (hcontinue _ _ hreport).exists_ok rfl
  have hend := ht.steppedOnce hstopped'
  constructor
  · rintro ⟨t', hrun', honce⟩
    obtain rfl : t = t' := by simpa using hrun.symm.trans hrun'
    obtain ⟨task₁, hfind₁, -, hregs₁⟩ := honce.thread
    obtain ⟨task₂, hfind₂, -, hregs₂⟩ := hend.thread
    obtain rfl := Option.some.inj (hfind₁.symm.trans hfind₂)
    refine or_iff_not_imp_right.mpr fun hrecord => ?_
    have hback := hfound (not_not.mp hrecord)
    rw [← hregs₂, hregs₁] at hback
    calc arch.candidate (arch.pc regs')
        = arch.pc (arch.setPc regs' (arch.candidate (arch.pc regs'))) := (arch.pc_setPc _ _).symm
      _ = arch.pc regs' := congrArg arch.pc hback.symm
  · intro hcase
    have hregs : task'.regs = regs' := by
      by_cases hrecord : s.debugger.hasRecord modules (arch.candidate (arch.pc regs'))
      · have hsame := hcase.resolve_right (not_not.mpr hrecord)
        calc task'.regs = arch.setPc regs' (arch.candidate (arch.pc regs')) := hfound hrecord
          _ = arch.setPc regs' (arch.pc regs') := by rw [hsame]
          _ = regs' := hpc.setPc_pc regs'
      · exact hmissed hrecord
    exact ⟨t, hrun, hregs ▸ hend⟩

/-- With a breakpoint at the next instruction too, the second step ends in its trap. -/
theorem AboutToStep.once_over (hpc : arch.LawfulPc)
    (henabled : s.debugger.hasEnabled (arch.pc task.regs) = true)
    (hnext : s.debugger.hasEnabled (arch.pc regs') = true) :
    ∃ t, instructionStep arch (machine.environment arch) true s = .ok ⟨⟩ t ∧
      SteppedOnce arch tid (arch.pc task.regs) regs' original' s t := by
  obtain ⟨saved, memory', hformed, hover, hcontinue⟩ := hs.over henabled
  obtain ⟨r, hr, hflag⟩ := hasEnabled_iff.mp
    ((hasEnabled_steppedOver saved henabled (arch.pc regs')).trans hnext)
  have htrap : arch.trapAt memory' (arch.pc regs') = true :=
    decide_eq_true (hover.trap _ r hr hflag)
  -- The report finds the record and sets the thread back to it.
  have hback : arch.candidate (arch.pc (arch.setPc regs' (arch.pcAfterTrap (arch.pc regs'))))
      = arch.pc regs' := by
    rw [arch.pc_setPc, arch.candidate_pcAfterTrap]
  obtain ⟨task', hstopped', hfound, -, hreport⟩ := sole_report
    ((task.stepped regs').trapped (arch.setPc regs' (arch.pcAfterTrap (arch.pc regs'))))
    ((tid, arch.pc task.regs) :: s.executions) hs.runs rfl hs.apart hformed hover
    (trapAddresses_steppedOver saved henabled) hs.alive hback
  have hregs : task'.regs = regs' := by
    calc task'.regs
        = arch.setPc (arch.setPc regs' (arch.pcAfterTrap (arch.pc regs'))) (arch.pc regs') := by
          exact hfound (hasRecord_steppedOver hnext)
      _ = arch.setPc regs' (arch.pc regs') := hpc.setPc_setPc _ _ _
      _ = regs' := hpc.setPc_pc regs'
  have hrest := sole_stepAndReport hs.runs rfl (by exact hs.selected)
    (recordsStopped_steppedOver _ _ _ _) (sole_trapped hs.runs htrap) hreport
  obtain ⟨⟨⟩, t, hrun, F, ht⟩ := (hcontinue _ _ hrest).exists_ok rfl
  exact ⟨t, hrun, hregs ▸ ht.steppedOnce hstopped'⟩

/-- Without one, a second instruction is executed. -/
theorem AboutToStep.twice_over (henabled : s.debugger.hasEnabled (arch.pc task.regs) = true)
    (hnext : s.debugger.hasEnabled (arch.pc regs') = false) :
    ¬ ∃ t, instructionStep arch (machine.environment arch) true s = .ok ⟨⟩ t ∧
      SteppedOnce arch tid (arch.pc task.regs) regs' original' s t := by
  obtain ⟨saved, memory', hformed, hover, hcontinue⟩ := hs.over henabled
  have hnone : ∀ r, (s.debugger.steppedOver tid (arch.pc task.regs) saved).breakpoints.find?
      (arch.pc regs') = some r → r.enabled = false := by
    intro r hr
    refine Bool.eq_false_iff.mpr fun hflag => ?_
    have hsome := hasEnabled_iff.mpr ⟨r, hr, hflag⟩
    rw [hasEnabled_steppedOver saved henabled, hnext] at hsome
    cases hsome
  have hapart : ApartFrom arch (s.debugger.steppedOver tid (arch.pc task.regs) saved).breakpoints
      (arch.pc regs') := by
    intro other r hr hflag hne
    have hsome := hasEnabled_iff.mpr ⟨r, hr, hflag⟩
    rw [hasEnabled_steppedOver saved henabled] at hsome
    exact hs.apart (Or.inl (Or.inr rfl)) (Or.inr (Or.inl hsome)) hne.symm
  have htrap : arch.trapAt memory' (arch.pc regs') = false := by
    have hnextTrap := hs.next henabled hnext
    unfold Architecture.trapAt at hnextTrap ⊢
    rwa [hover.bytesAt_eq hapart hnone]
  have hrest := hcontinue _ _ (sole_stepAndReport hs.runs rfl (by exact hs.selected)
    (recordsStopped_steppedOver _ _ _ _) (sole_executed hs.runs htrap rfl)
    (executed_suffix (by exact hformed)))
  rintro ⟨t, hrun, honce⟩
  have hsuffix := hrest.of_ok rfl hrun
  rw [honce.executed] at hsuffix
  have hlength := hsuffix.length_le
  simp only [List.length_cons] at hlength
  omega

end Verdicts

/-- From a breakpoint `stepi` executes two instructions, unless there is a breakpoint at the second
one too; from elsewhere it sets the thread back if there is a record, enabled or not, where it looks
for the breakpoint that stopped the thread. -/
theorem instructionStep_once_iff (hpc : arch.LawfulPc)
    (hs : AboutToStep arch machine tid modules task original regs' original' s) :
    (∃ t, instructionStep arch (machine.environment arch) true s = .ok ⟨⟩ t ∧
        SteppedOnce arch tid (arch.pc task.regs) regs' original' s t) ↔
      if s.debugger.hasEnabled (arch.pc task.regs) then
        s.debugger.hasEnabled (arch.pc regs') = true
      else
        arch.candidate (arch.pc regs') = arch.pc regs' ∨
          ¬ s.debugger.hasRecord modules (arch.candidate (arch.pc regs')) := by
  cases henabled : s.debugger.hasEnabled (arch.pc task.regs) with
  | false => exact hs.once_without hpc henabled
  | true =>
      cases hnext : s.debugger.hasEnabled (arch.pc regs') with
      | false => exact iff_of_false (hs.twice_over henabled hnext) (by simp)
      | true => exact iff_of_true (hs.once_over hpc henabled hnext) rfl

end Command

/-! ### Steps of a program for x86-64 -/

theorem x86_64_lawfulPc : x86_64.LawfulPc := ⟨fun _ => rfl, fun _ _ _ => rfl⟩

theorem aarch64_lawfulPc : aarch64.LawfulPc := ⟨fun _ => rfl, fun _ _ _ => rfl⟩

/-- One thread, and nothing but instructions that do nothing. -/
def steppable : Machine UserRegs X86_64.DebugRegisters where
  program := nops
  schedule _ := [.run 1]
  fails _ := false

/-- The memory of that program without the traps. -/
def State.originalMemory (s : State UserRegs X86_64.DebugRegisters) : Memory := fun x =>
  if s.debugger.hasEnabled x then 0x90 else s.target.memory x

/-- What a state at the start of the program has to pass. -/
def standsReady (s : State UserRegs X86_64.DebugRegisters) : Bool :=
  s.debugger.alive && decide (s.debugger.selectedTid = 1) &&
    (s.debugger.threads.find? 1).any ThreadState.stopped && s.debugger.pendingBreakpoints.isEmpty &&
    (s.debugger.breakpoints.entries.all fun entry => !entry.2.enabled ||
      decide (entry.2.saved = [0x90#8]) && decide (s.target.memory entry.1 = 0xcc#8)) &&
    (s.target.tasks.find? 1).any (fun task => task.stopped && decide (task.regs.rip = 0x1000#64)) &&
    decide (s.target.tasks.entries.map Prod.fst = [1]) && s.target.ready.isEmpty &&
    s.target.maps.isSome && decide (s.originalMemory 0x1000 = 0x90#8) &&
    decide (s.originalMemory 0x1001 = 0x90#8)

theorem overlaid_originalMemory {s : State UserRegs X86_64.DebugRegisters}
    (hentries : ∀ key r, s.debugger.breakpoints.find? key = some r → r.enabled = true →
      r.saved = [0x90#8] ∧ s.target.memory key = 0xcc#8) :
    Overlaid x86_64 s.debugger.breakpoints s.originalMemory s.target.memory where
  saved key r hr henabled := by
    have horiginal : s.originalMemory key = 0x90#8 := if_pos (hasEnabled_iff.mpr ⟨r, hr, henabled⟩)
    calc r.saved = [0x90#8] := (hentries key r hr henabled).1
      _ = [s.originalMemory key] := by rw [horiginal]
  trap key r hr henabled := by
    have hmemory := (hentries key r hr henabled).2
    calc bytesAt s.target.memory key 1 = [s.target.memory key] := rfl
      _ = [0xcc#8] := by rw [hmemory]
  rest x hx := by
    have hnone : ¬ s.debugger.hasEnabled x = true := by
      intro henabled
      obtain ⟨r, hr, hflag⟩ := hasEnabled_iff.mp henabled
      exact hx x r hr hflag (by rw [BitVec.sub_self]; decide)
    exact (if_neg hnone).symm

theorem aboutToStep_nops {s : State UserRegs X86_64.DebugRegisters}
    (hformed : WellFormed x86_64 s.debugger.breakpoints) (hready : standsReady s = true) :
    ∃ modules task, task.regs.rip = 0x1000 ∧
      AboutToStep x86_64 steppable 1 modules task s.originalMemory
        { task.regs with rip := task.regs.rip + 1 } s.originalMemory s := by
  simp only [standsReady, Bool.and_eq_true, decide_eq_true_eq] at hready
  obtain ⟨⟨⟨⟨⟨⟨⟨⟨⟨⟨halive, hselected⟩, hthread⟩, hpending⟩, hentries⟩, htask⟩, htasks⟩, hnone⟩, hmaps⟩,
    hcurrent⟩, hnext⟩ := hready
  obtain ⟨state, hstate, hrecorded⟩ := (Option.any_eq_true _ _).mp hthread
  obtain ⟨task, hfind, htask⟩ := (Option.any_eq_true _ _).mp htask
  rw [Bool.and_eq_true, decide_eq_true_eq] at htask
  obtain ⟨modules, hmodules⟩ := Option.isSome_iff_exists.mp hmaps
  have honly : s.target.tasks = SortedMap.empty.insert 1 task :=
    SortedMap.eq_insert_of_keys htasks hfind
  have hoverlaid : Overlaid x86_64 s.debugger.breakpoints s.originalMemory s.target.memory := by
    refine overlaid_originalMemory fun key r hr henabled => ?_
    have hentry := List.all_eq_true.mp hentries (key, r) (SortedMap.mem_entries_iff.mpr hr)
    simpa [henabled] using hentry
  have htrap : ∀ address, s.originalMemory address = 0x90#8 →
      x86_64.trapAt s.originalMemory address = false := by
    intro address hbyte
    have hbytes : bytesAt s.originalMemory address 1 = [0x90#8] := by
      calc bytesAt s.originalMemory address 1 = [s.originalMemory address] := rfl
        _ = [0x90#8] := by rw [hbyte]
    exact decide_eq_false (hbytes ▸ by decide)
  have hsecond : task.regs.rip + 1 = 0x1001#64 := by
    rw [htask.2]
    rfl
  refine ⟨modules, task, htask.2, ?_⟩
  exact {
    runs := ⟨fun _ _ hmem => Or.inl (List.mem_singleton.mp hmem),
      fun _ => List.mem_singleton.mpr rfl, fun _ => rfl⟩
    sole := ⟨honly, List.isEmpty_iff.mp hnone, rfl, rfl, ⟨modules, rfl, hmodules⟩, rfl, rfl⟩
    stopped := htask.1
    alive := halive
    selected := hselected
    recorded := ⟨state, hstate, hrecorded⟩
    formed := hformed
    overlaid := hoverlaid
    step := rfl
    current := htrap _ ((congrArg s.originalMemory htask.2).trans hcurrent)
    next := fun _ _ => htrap _ ((congrArg s.originalMemory hsecond).trans hnext)
    apart := fun _ _ _ _ hne => apart_one hne
    blind := fun memory hover => ⟨memory, rfl, hover⟩ }

/-- With breakpoints at the instruction and at the next one, one instruction is executed. -/
theorem instructionStep_once_nops :
    ∃ s modules task, Prompt x86_64 (steppable.environment x86_64)
        (State.initial 1 (nopTarget 1)) s ∧
      AboutToStep x86_64 steppable 1 modules task s.originalMemory
        { task.regs with rip := task.regs.rip + 1 } s.originalMemory s ∧
      s.debugger.hasEnabled 0x1000 = true ∧
      ∃ t, instructionStep x86_64 (steppable.environment x86_64) true s = .ok ⟨⟩ t ∧
        SteppedOnce x86_64 1 0x1000 { task.regs with rip := task.regs.rip + 1 } s.originalMemory
          s t := by
  obtain ⟨s, hs, hcheck⟩ := Prompt.exists_of_runBatch x86_64 (steppable.environment x86_64)
    (State.initial 1 (nopTarget 1)) ["b *0x1000".toList, "b *0x1001".toList]
    (p := fun s => standsReady s && s.debugger.hasEnabled 0x1000 && s.debugger.hasEnabled 0x1001)
    (by decide +kernel)
  simp only [Bool.and_eq_true] at hcheck
  obtain ⟨⟨hready, hcurrent⟩, hnext⟩ := hcheck
  obtain ⟨modules, task, hrip, habout⟩ := aboutToStep_nops hs.wellFormed hready
  refine ⟨s, modules, task, hs, habout, hcurrent, ?_⟩
  have hpc : x86_64.pc task.regs = 0x1000 := hrip
  have hpc' : x86_64.pc { task.regs with rip := task.regs.rip + 1 } = 0x1001 := by
    calc task.regs.rip + 1 = 0x1000 + 1 := by rw [hrip]
      _ = 0x1001 := rfl
  rw [← hpc]
  refine (instructionStep_once_iff x86_64_lawfulPc habout).mpr ?_
  rw [hpc, hpc', if_pos hcurrent]
  exact hnext

/-- From a breakpoint two instructions are executed. -/
theorem two_instructions_from_breakpoint :
    ∃ s modules task, Prompt x86_64 (steppable.environment x86_64)
        (State.initial 1 (nopTarget 1)) s ∧
      AboutToStep x86_64 steppable 1 modules task s.originalMemory
        { task.regs with rip := task.regs.rip + 1 } s.originalMemory s ∧
      ¬ ∃ t, instructionStep x86_64 (steppable.environment x86_64) true s = .ok ⟨⟩ t ∧
        SteppedOnce x86_64 1 (x86_64.pc task.regs) { task.regs with rip := task.regs.rip + 1 }
          s.originalMemory s t := by
  obtain ⟨s, hs, hcheck⟩ := Prompt.exists_of_runBatch x86_64 (steppable.environment x86_64)
    (State.initial 1 (nopTarget 1)) ["b *0x1000".toList]
    (p := fun s => standsReady s &&
      decide ((endState (instructionStep x86_64 (steppable.environment x86_64) true)
        s).executions.length = s.executions.length + 2)) (by decide +kernel)
  rw [Bool.and_eq_true] at hcheck
  obtain ⟨modules, task, -, habout⟩ := aboutToStep_nops hs.wellFormed hcheck.1
  refine ⟨s, modules, task, hs, habout, ?_⟩
  rintro ⟨t, hrun, honce⟩
  have htwo := of_decide_eq_true hcheck.2
  rw [endState_of_ok hrun, honce.executed, List.length_cons] at htwo
  omega

end Cosy
