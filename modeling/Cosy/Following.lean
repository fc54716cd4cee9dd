import Cosy.Attending
import Cosy.Displaying
import Cosy.Finishing
import Cosy.SteppingOver

/-!
# A session follows the controller

The debugger on a process with one thread, on x86-64, is such a controller. The thread is where the
program would have come to by itself, in a memory that is the program's but for the traps; the records
are the marks; and the hits that are announced are those of the controller. Line by line this stays
so, whatever the lines are, as long as they ask for something a controller knows.
-/

namespace Cosy

open ByteMemory Effect Refinement

variable {R D α : Type} {arch : Architecture R D} {machine : Machine R D} {tid : Tid} {regs : R}
  {memory : Memory} {text spots : Set Address} {fetched : Nat → Set Address} {c : Controller Address}
  {executed : List (Tid × Address)} {hits : List (Int × Address)} {task : Task R D} {d : Debugger}
  {m original : Memory} {breakpoints : SortedMap Address Breakpoint} {key : Address} {r : Breakpoint}

/-! ### The program -/

/-- The places a thread goes through: the addresses of its instructions. -/
def Program.path (program : Program R) (arch : Architecture R D) (regs : R) (memory : Memory)
    (n : Nat) : Address := arch.pc (program.after regs memory n).1

/-- Breakpoints may be set at these addresses: whichever of them have one, the program is an ordinary
one. None is where `print_stop` looks for a breakpoint after a step to another address. -/
structure Program.Breakable (program : Program R) (arch : Architecture R D) (regs : R)
    (memory : Memory) (spots text : Set Address) (fetched : Nat → Set Address) : Prop where
  ordinary : ∀ breakpoints : SortedMap Address Breakpoint,
    (∀ key r, breakpoints.find? key = some r → key ∈ spots) →
      program.Ordinary arch regs memory breakpoints text fetched
  behind : ∀ n, arch.candidate (program.path arch regs memory n) ∉ spots

/-! ### The table -/

def Breakpoint.mark (r : Breakpoint) : Mark := ⟨r.id, r.enabled⟩

/-- The table has the controller's marks, all of them the user's. -/
structure Debugger.Records (arch : Architecture R D) (c : Controller Address) (d : Debugger) :
    Prop where
  formed : WellFormed arch d.breakpoints
  permanent : ∀ key r, d.breakpoints.find? key = some r → r.temporary = false
  marks : ∀ key, (d.breakpoints.find? key).map Breakpoint.mark = c.marks key
  nextId : d.nextBreakpointId = c.nextId

section Records

variable (hd : d.Records arch c)

include hd

theorem Debugger.Records.mark_of_find? (hr : d.breakpoints.find? key = some r) :
    c.marks key = some r.mark := by
  rw [← hd.marks, hr]
  rfl

theorem Debugger.Records.none_iff : d.breakpoints.find? key = none ↔ c.marks key = none := by
  rw [← hd.marks, Option.map_eq_none_iff]

theorem Debugger.Records.meets (program : Program R) (n : Nat) :
    program.meets arch regs memory d.breakpoints n
      = c.armed (program.path arch regs memory n) := by
  rw [Controller.armed, ← hd.marks, Option.any_map]
  rfl

/-- Nothing but the tables and the next number matters. -/
theorem Debugger.Records.congr {d' : Debugger} {c' : Controller Address}
    (hbreakpoints : d'.breakpoints = d.breakpoints)
    (hnext : d'.nextBreakpointId = d.nextBreakpointId) (hmarks : c'.marks = c.marks)
    (hnextId : c'.nextId = c.nextId) : d'.Records arch c' where
  formed := hbreakpoints ▸ hd.formed
  permanent := hbreakpoints ▸ hd.permanent
  marks key := by rw [hbreakpoints, hd.marks, hmarks]
  nextId := by rw [hnext, hd.nextId, hnextId]

end Records

/-! ### Traps that come and go -/

/-- A record with its trap is put in where there was none. -/
theorem Overlaid.plant (hover : Overlaid arch breakpoints original m)
    (hapart : ApartFrom arch breakpoints key) (hnone : breakpoints.find? key = none)
    (henabled : r.enabled = true) (hsaved : r.saved = bytesAt m key arch.breakpointSize) :
    Overlaid arch (breakpoints.insert key r) original
      (store m key arch.breakpointInstruction) := by
  -- First there is a disabled record, then its trap is put in.
  have hrecord : Overlaid arch (breakpoints.insert key { r with enabled := false }) original m := by
    refine hover.congr fun other r' henabled' => ?_
    rw [SortedMap.find?_insert]
    by_cases hother : other = key
    · rw [if_pos hother, hother, hnone]
      refine iff_of_false (fun hsome => ?_) (by simp)
      obtain rfl := Option.some.inj hsome
      cases henabled'
    · rw [if_neg hother]
  have hapart' : ApartFrom arch (breakpoints.insert key { r with enabled := false }) key := by
    intro other r' hr' henabled' hne
    rw [SortedMap.find?_insert_of_ne _ _ hne] at hr'
    exact hapart other r' hr' henabled' hne
  have hput := hrecord.put hapart' (SortedMap.find?_insert_self _ _ _) rfl
  rw [SortedMap.modify_of_find? _ (SortedMap.find?_insert_self _ _ _),
    SortedMap.insert_insert_self] at hput
  have harmed : Breakpoint.armedWith { r with enabled := false }
      (bytesAt m key arch.breakpointSize) = r := by
    rw [Breakpoint.armedWith, ← hsaved, ← henabled]
  rwa [harmed] at hput

/-- A record goes away, and its trap if it is enabled. -/
theorem Overlaid.drop (hover : Overlaid arch breakpoints original m)
    (hapart : ApartFrom arch breakpoints key) (hr : breakpoints.find? key = some r) :
    Overlaid arch (breakpoints.erase key) original
      (if r.enabled then store m key r.saved else m) := by
  have herase : ∀ table memory, Overlaid arch table original memory →
      (∀ r', table.find? key = some r' → r'.enabled = false) →
        Overlaid arch (table.erase key) original memory := by
    intro table memory hover hdisabled
    refine hover.congr fun other r' henabled => ?_
    rw [SortedMap.find?_erase]
    by_cases hother : other = key
    · rw [if_pos hother, hother]
      refine iff_of_false (by simp) fun hsome => ?_
      rw [hdisabled r' hsome] at henabled
      cases henabled
    · rw [if_neg hother]
  cases henabled : r.enabled with
  | true =>
      have hlifted := herase _ _ (hover.lift hapart hr henabled) fun r' hr' => by
        rw [SortedMap.find?_modify_self, hr] at hr'
        obtain rfl := Option.some.inj hr'
        rfl
      rwa [SortedMap.erase_modify_self] at hlifted
  | false =>
      refine herase _ _ hover fun r' hr' => ?_
      obtain rfl := Option.some.inj (hr.symm.trans hr')
      exact henabled

/-- The places of the traps determine the memory. -/
theorem Overlaid.unique {breakpoints' : SortedMap Address Breakpoint} {m' : Memory}
    (hover : Overlaid arch breakpoints original m) (hover' : Overlaid arch breakpoints' original m')
    (hsame : ∀ key, (breakpoints.find? key).any Breakpoint.enabled
      = (breakpoints'.find? key).any Breakpoint.enabled) : m = m' := by
  funext x
  by_cases htrap : ∃ key r, breakpoints.find? key = some r ∧ r.enabled = true ∧
    (x - key).toNat < arch.breakpointSize
  · obtain ⟨key, r, hr, henabled, hin⟩ := htrap
    have hany : (breakpoints'.find? key).any Breakpoint.enabled = true := by
      rw [← hsame, hr]
      exact henabled
    obtain ⟨r', hr', henabled'⟩ := Option.any_eq_true _ _ |>.mp hany
    have hbytes := (hover.trap key r hr henabled).trans (hover'.trap key r' hr' henabled').symm
    calc m x = (bytesAt m key arch.breakpointSize).getD (x - key).toNat 0 := by
          rw [getD_bytesAt _ hin, add_ofNat_sub_toNat]
      _ = (bytesAt m' key arch.breakpointSize).getD (x - key).toNat 0 := by rw [hbytes]
      _ = m' x := by rw [getD_bytesAt _ hin, add_ofNat_sub_toNat]
  · have hout : ∀ key r, breakpoints.find? key = some r → r.enabled = true →
        ¬ (x - key).toNat < arch.breakpointSize :=
      fun key r hr henabled hin => htrap ⟨key, r, hr, henabled, hin⟩
    rw [hover.rest x hout]
    refine (hover'.rest x fun key r' hr' henabled' hin => ?_).symm
    have hany : (breakpoints.find? key).any Breakpoint.enabled = true := by
      rw [hsame, hr']
      exact henabled'
    obtain ⟨r, hr, henabled⟩ := Option.any_eq_true _ _ |>.mp hany
    exact hout key r hr henabled hin

/-! ### The session -/

/-- The session stands where the controller does. -/
structure Tracks (arch : Architecture R D) (machine : Machine R D) (tid : Tid) (regs : R)
    (memory : Memory) (c : Controller Address) (s : State R D) : Prop where
  stands : StandsAt arch machine tid s.debugger.breakpoints
    (machine.program.after regs memory c.position) s
  records : s.debugger.Records arch c
  executed : s.executions.length = c.position
  hits : s.hits = c.hits

/-- The thread rests where the controller is. -/
abbrev Rests (arch : Architecture R D) (machine : Machine R D) (tid : Tid) (regs : R)
    (memory : Memory) (c : Controller Address) (task : Task R D) (d : Debugger) (m : Memory) : Prop :=
  RestsAt arch tid d.breakpoints (machine.program.after regs memory c.position) task d m ∧
    d.Records arch c

theorem Sole.tracks {s : State R D}
    (hs : Sole machine tid (fun _ => True) executed c.hits task d m s)
    (hrests : Rests arch machine tid regs memory c task d m)
    (hlength : executed.length = c.position) : Tracks arch machine tid regs memory c s where
  stands := by
    have hstands := hs.standsAt hrests.1
    rwa [← hs.debugger] at hstands
  records := hs.debugger ▸ hrests.2
  executed := by rw [hs.executions, hlength]
  hits := hs.hits

/-- It is enough to follow one thread, one debugger and one memory. -/
theorem triple_of_tracks {program : Dbg R D α} {Q : α → State R D → Prop}
    {E : Halt → State R D → Prop}
    (hprogram : ∀ executed task d m, Rests arch machine tid regs memory c task d m →
      executed.length = c.position →
        Triple (Sole machine tid (fun _ => True) executed c.hits task d m) program Q E) :
    Triple (Tracks arch machine tid regs memory c) program Q E := by
  intro s hs
  obtain ⟨task, hrests, hsole⟩ := hs.stands.sole
  rw [hs.hits] at hsole
  exact hprogram _ _ _ _ ⟨hrests, hs.records⟩ hs.executed s hsole

theorem Debugger.Standing.of_eq {d' : Debugger} (hd : d.Standing tid d.breakpoints)
    (halive : d'.alive = d.alive) (hselected : d'.selectedTid = d.selectedTid)
    (hthreads : d'.threads = d.threads) (hpending : d'.pendingBreakpoints = d.pendingBreakpoints) :
    d'.Standing tid d'.breakpoints where
  alive := halive.trans hd.alive
  selected := hselected.trans hd.selected
  threads := hthreads ▸ hd.threads
  breakpoints := rfl
  pending := hpending.trans hd.pending

/-- On a machine whose traps are single bytes, no two of them overlap. -/
theorem apartFrom_of_size (hone : arch.breakpointSize = 1)
    (breakpoints : SortedMap Address Breakpoint) (key : Address) : ApartFrom arch breakpoints key := by
  intro other r _ _ hne
  rw [hone]
  exact apart_one hne.symm

section Marks

variable (hone : arch.breakpointSize = 1) (hmachine : machine.RunsOnly tid fun _ => True)

include hone hmachine

/-! ### Marking a place -/

omit hone hmachine in
theorem Debugger.Records.mark (hd : d.Records arch c) (hnone : d.breakpoints.find? key = none)
    (specification : Text) (saved : List Byte) (hsaved : saved.length = arch.breakpointSize) :
    Debugger.Records arch (c.mark key)
      { d with
        breakpoints := d.breakpoints.insert key (d.created key specification false saved)
        nextBreakpointId := d.nextBreakpointId + 1 } := by
  have hunmarked : (c.marks key).isSome = false := by
    rw [hd.none_iff.mp hnone]
    rfl
  have hmark : c.mark key = { c with
      marks := Function.update c.marks key (some ⟨c.nextId, true⟩)
      nextId := c.nextId + 1 } := by simp [Controller.mark, hunmarked]
  rw [hmark]
  refine ⟨fun other r hr => ?_, fun other r hr => ?_, fun other => ?_, ?_⟩
  · rw [SortedMap.find?_insert] at hr
    split at hr
    · rename_i hother
      obtain rfl := Option.some.inj hr
      exact ⟨hother.symm, rfl, fun _ => hsaved⟩
    · exact hd.formed other r hr
  · rw [SortedMap.find?_insert] at hr
    split at hr
    · obtain rfl := Option.some.inj hr
      rfl
    · exact hd.permanent other r hr
  · rw [SortedMap.find?_insert]
    by_cases hother : other = key
    · simp [hother, Breakpoint.mark, Debugger.created, hd.nextId]
    · simp [hother, hd.marks]
  · simp [hd.nextId]

/-- `break *ADDRESS`. -/
theorem tracks_setBreakpoint {address : Address} {argument : Text}
    (hargument : parseAddress argument = some address) :
    Triple (Tracks arch machine tid regs memory c)
      (setBreakpoint arch (machine.environment arch) ('*' :: argument))
      (fun _ => Tracks arch machine tid regs memory (c.mark address)) (fun _ _ => False) := by
  refine triple_of_tracks fun executed task d m hrests hlength => Triple.get_bind fun s => ?_
  have hresolved : resolveSpecification s.debugger.modules ('*' :: argument) = [address] := by
    simp [resolveSpecification, hargument]
  rw [hresolved]
  -- The message comes after the table is what the controller says.
  have hcreate : Triple (Sole machine tid (fun _ => True) executed c.hits task d m)
      (createBreakpoint arch (machine.environment arch) address ('*' :: argument) false)
      (fun _ s => ∃ d m, Rests arch machine tid regs memory (c.mark address) task d m ∧
        Sole machine tid (fun _ => True) executed c.hits task d m s) (fun _ _ => False) := by
    obtain ⟨hrests, hrecords⟩ := hrests
    cases hr : d.breakpoints.find? address with
    | some existing =>
        have hmarked : c.mark address = c := by
          rw [Controller.mark, hrecords.mark_of_find? hr]
          rfl
        intro t ht
        rw [createBreakpoint, get_bind_apply, ht.debugger, hr]
        rw [hmarked]
        exact ⟨d, m, ⟨hrests, hrecords⟩, ht⟩
    | none =>
        refine (sole_createBreakpoint hmachine hrests.stopped hrests.standing.selected hr _ false).post
          fun _ t ht => ⟨_, _, ⟨?_, hrecords.mark hr _ _ (length_bytesAt _ _ _)⟩, ht⟩
        have hposition : (c.mark address).position = c.position := by
          unfold Controller.mark
          split <;> rfl
        rw [hposition]
        refine ⟨hrests.registers, hrests.stopped, ?_, hrests.standing.of_eq rfl rfl rfl rfl⟩
        exact hrests.overlaid.plant (apartFrom_of_size hone _ _) hr rfl rfl
  refine Triple.bind (hcreate.pre fun _ ht => ht.2) fun id => ?_
  rintro t ⟨d', m', hrests', ht⟩
  have hhits : (c.mark address).hits = c.hits := by
    unfold Controller.mark
    split <;> rfl
  have hposition : (c.mark address).position = c.position := by
    unfold Controller.mark
    split <;> rfl
  exact Sole.tracks (hhits ▸ ht.logged rfl) hrests' (hlength.trans hposition.symm)

/-! ### Removing a mark -/

/-- `delete ID`. -/
theorem tracks_removeBreakpoint {id : Int}
    (hunique : ∀ key key' mark mark', c.marks key = some mark → c.marks key' = some mark' →
      mark.id = mark'.id → key = key') :
    Triple (Tracks arch machine tid regs memory c)
      (removeBreakpoint (machine.environment arch) id)
      (fun _ => Tracks arch machine tid regs memory (c.remove id)) (fun _ _ => False) := by
  refine triple_of_tracks fun executed task d m ⟨hrests, hrecords⟩ hlength => ?_
  intro s hs
  rw [removeBreakpoint, get_bind_apply, hs.debugger]
  cases hkey : keyOfId d.breakpoints id with
  | none =>
      -- No mark has the number, and no breakpoint is pending.
      have hsame : c.remove id = c := by
        have hmarks : (c.remove id).marks = c.marks := by
          funext key
          change (c.marks key).filter _ = c.marks key
          rw [← hrecords.marks]
          cases hr : d.breakpoints.find? key with
          | none => rfl
          | some r =>
              have hid : r.id ≠ id := keyOfId_eq_none hkey hr
              simp [Breakpoint.mark, hid]
        calc c.remove id = { c with marks := (c.remove id).marks } := rfl
          _ = c := by rw [hmarks]
      have hpending : { d with
          pendingBreakpoints := d.pendingBreakpoints.filter fun p => p.id ≠ id } = d := by
        have hnone := hrests.standing.pending
        calc { d with pendingBreakpoints := d.pendingBreakpoints.filter fun p => p.id ≠ id }
            = { d with pendingBreakpoints := [] } := by rw [hnone, List.filter_nil]
          _ = d := by rw [← hnone]
      have hs' := hs.change fun d =>
        { d with pendingBreakpoints := d.pendingBreakpoints.filter fun p => p.id ≠ id }
      rw [hpending] at hs'
      rw [hsame]
      exact hs'.tracks ⟨hrests, hrecords⟩ hlength
  | some key =>
      obtain ⟨r, hr, hid⟩ := keyOfId_eq_some hkey
      have hremoved : ∀ other, (c.remove id).marks other
          = if other = key then none else c.marks other := by
        intro other
        change (c.marks other).filter _ = _
        have hmark := hrecords.mark_of_find? hr
        by_cases hother : other = key
        · rw [if_pos hother, hother, hmark]
          simp [Breakpoint.mark, hid]
        · rw [if_neg hother]
          cases hmark' : c.marks other with
          | none => rfl
          | some mark =>
              have hne : mark.id ≠ id := fun heq =>
                hother (hunique other key mark r.mark hmark' hmark (heq.trans hid.symm))
              simp [hne]
      refine Triple.bind (sole_note rfl) (fun _ => ?_) s hs
      refine (sole_dropBreakpoint hmachine hrests.stopped hrests.standing.selected hrecords.formed
        hr).post fun _ t ht => Sole.tracks (c := c.remove id) ht ⟨?_, ?_⟩ hlength
      · refine ⟨hrests.registers, hrests.stopped, ?_, hrests.standing.of_eq rfl rfl rfl rfl⟩
        exact hrests.overlaid.drop (apartFrom_of_size hone _ _) hr
      · refine ⟨hrecords.formed.erase key, fun other r' hr' => ?_, fun other => ?_, hrecords.nextId⟩
        · rw [SortedMap.find?_erase] at hr'
          split at hr'
          · cases hr'
          · exact hrecords.permanent other r' hr'
        · rw [SortedMap.find?_erase, hremoved]
          split
          · rfl
          · exact hrecords.marks other

omit hone hmachine

/-! ### Switching a mark -/

/-- The only record with a number is worked on once. -/
theorem forEachWithId_single {id : Int} {change : Address → Dbg R D Unit}
    {entries : List (Address × Breakpoint)} (hnodup : entries.Nodup) (hmem : (key, r) ∈ entries)
    (hid : r.id = id) (honly : ∀ entry ∈ entries, entry.2.id = id → entry = (key, r))
    (s : State R D) :
    forEachWithId id change entries s = (change key >>= fun _ => pure true) s := by
  induction entries with
  | nil => cases hmem
  | cons entry rest ih =>
      obtain ⟨hfresh, hrest⟩ := List.nodup_cons.mp hnodup
      have honly' := fun entry hmem => honly entry (List.mem_cons_of_mem _ hmem)
      by_cases hentry : entry.2.id = id
      · obtain rfl := honly entry List.mem_cons_self hentry
        have hnone : ∀ entry ∈ rest, entry.2.id ≠ id := by
          rintro entry hin heq
          exact hfresh (honly' entry hin heq ▸ hin)
        have hdone : ∀ t, forEachWithId id change rest t = .ok false t :=
          fun t => forEachWithId_none hnone
        rw [forEachWithId, if_pos hentry]
        refine bind_congr_of_ok fun _ t _ => ?_
        rw [bind_ok (hdone t)]
      · have hin : (key, r) ∈ rest := by
          rcases List.mem_cons.mp hmem with heq | hin
          · rw [← heq] at hentry
            exact absurd hid hentry
          · exact hin
        rw [forEachWithId, if_neg hentry]
        exact ih hrest hin honly'

section Switch

variable {id : Int} {on : Bool}
  (hunique : ∀ key key' mark mark', c.marks key = some mark → c.marks key' = some mark' →
    mark.id = mark'.id → key = key')

/-- Where no record has the number, nothing is switched. -/
theorem Debugger.Records.switch_none (hd : d.Records arch c)
    (hnone : ∀ key r, d.breakpoints.find? key = some r → r.id ≠ id) : c.switch id on = c := by
  have hmarks : (c.switch id on).marks = c.marks := by
    funext key
    change (c.marks key).map _ = c.marks key
    rw [← hd.marks]
    cases hr : d.breakpoints.find? key with
    | none => rfl
    | some r => simp [Breakpoint.mark, hnone key r hr]
  calc c.switch id on = { c with marks := (c.switch id on).marks } := rfl
    _ = c := by rw [hmarks]

include hunique

/-- The mark of the record with the number is switched, and no other. -/
theorem Debugger.Records.switch_marks (hd : d.Records arch c)
    (hr : d.breakpoints.find? key = some r) (hid : r.id = id) (other : Address) :
    (c.switch id on).marks other
      = if other = key then some ⟨id, on⟩ else c.marks other := by
  change (c.marks other).map _ = _
  have hmark := hd.mark_of_find? hr
  by_cases hother : other = key
  · rw [if_pos hother, hother, hmark]
    simp [Breakpoint.mark, hid]
  · rw [if_neg hother]
    cases hmark' : c.marks other with
    | none => rfl
    | some mark =>
        have hne : mark.id ≠ id := fun heq =>
          hother (hunique other key mark r.mark hmark' hmark (heq.trans hid.symm))
        simp [hne]

/-- A record that is in this state already stays in it. -/
theorem Debugger.Records.switch_same (hd : d.Records arch c)
    (hr : d.breakpoints.find? key = some r) (hid : r.id = id) (hon : r.enabled = on) :
    c.switch id on = c := by
  have hmarks : (c.switch id on).marks = c.marks := by
    funext other
    rw [hd.switch_marks hunique hr hid]
    split
    · rename_i hother
      rw [hother, hd.mark_of_find? hr, Breakpoint.mark, hid, hon]
    · rfl
  calc c.switch id on = { c with marks := (c.switch id on).marks } := rfl
    _ = c := by rw [hmarks]

/-- The record changes its state, and maybe its bytes. -/
theorem Debugger.Records.switch (hd : d.Records arch c) (hr : d.breakpoints.find? key = some r)
    (hid : r.id = id) {change : Breakpoint → Breakpoint}
    (hchange : ∀ r : Breakpoint, r.SameIdentity (change r)) (hon : (change r).enabled = on)
    (hsaved : on = true → (change r).saved.length = arch.breakpointSize) :
    (d.withRecord key change).Records arch (c.switch id on) := by
  have hfind : ∀ other, (d.withRecord key change).breakpoints.find? other
      = if other = key then some (change r) else d.breakpoints.find? other := by
    intro other
    rw [Debugger.withRecord, SortedMap.find?_modify, hr]
    rfl
  refine ⟨hd.formed.modify fun r' hr' => ?_, fun other r' hr' => ?_, fun other => ?_, hd.nextId⟩
  · obtain rfl := Option.some.inj (hr.symm.trans hr')
    exact ⟨(hchange r).address, (hchange r).pending, fun henabled => hsaved (hon ▸ henabled)⟩
  · rw [hfind] at hr'
    split at hr'
    · obtain rfl := Option.some.inj hr'
      exact (hchange r).temporary.trans (hd.permanent key r hr)
    · exact hd.permanent other r' hr'
  · rw [hfind, hd.switch_marks hunique hr hid]
    split
    · rw [Option.map_some, Breakpoint.mark, hon, (hchange r).id, hid]
    · exact hd.marks other

variable (on) in
/-- A command that works on the record with a number switches its mark, if it does so for the one
record there may be. -/
theorem tracks_forEachWithId {change : Address → Dbg R D Unit}
    (hchange : ∀ executed task d m key r, Rests arch machine tid regs memory c task d m →
      executed.length = c.position → d.breakpoints.find? key = some r → r.id = id →
        Triple (Sole machine tid (fun _ => True) executed c.hits task d m) (change key)
          (fun _ => Tracks arch machine tid regs memory (c.switch id on)) (fun _ _ => False)) :
    Triple (Tracks arch machine tid regs memory c)
      (do
        let s ← get
        let found ← forEachWithId id change s.debugger.breakpoints.entries
        reportUnknown found)
      (fun _ => Tracks arch machine tid regs memory (c.switch id on)) (fun _ _ => False) := by
  refine triple_of_tracks fun executed task d m hrests hlength => ?_
  intro s hs
  rw [get_bind_apply, hs.debugger]
  by_cases hfound : ∃ key r, d.breakpoints.find? key = some r ∧ r.id = id
  · obtain ⟨key, r, hr, hid⟩ := hfound
    have honly : ∀ entry ∈ d.breakpoints.entries, entry.2.id = id → entry = (key, r) := by
      rintro ⟨other, r'⟩ hmem hid'
      have hr' := SortedMap.mem_entries_iff.mp hmem
      obtain rfl : other = key := hunique other key r'.mark r.mark (hrests.2.mark_of_find? hr')
        (hrests.2.mark_of_find? hr) (hid'.trans hid.symm)
      rw [Option.some.inj (hr'.symm.trans hr)]
    rw [bind_apply, forEachWithId_single (SortedMap.nodup_entries _)
      (SortedMap.mem_entries_iff.mpr hr) hid honly, ← bind_apply]
    have hfind : Triple (Sole machine tid (fun _ => True) executed c.hits task d m)
        (change key >>= fun _ => pure true)
        (fun found t => found = true ∧ Tracks arch machine tid regs memory (c.switch id on) t)
        (fun _ _ => False) :=
      Triple.bind (hchange _ _ _ _ key r hrests hlength hr hid) fun _ =>
        Triple.pure fun _ ht => ⟨rfl, ht⟩
    refine Triple.bind hfind (fun found => ?_) s hs
    rintro t ⟨rfl, ht⟩
    exact ht
  · have hnone : ∀ key r, d.breakpoints.find? key = some r → r.id ≠ id :=
      fun key r hr hid => hfound ⟨key, r, hr, hid⟩
    rw [bind_ok (forEachWithId_none (fun entry hmem =>
      hnone _ _ (SortedMap.mem_entries_iff.mp hmem))), hrests.2.switch_none hnone]
    exact (hs.logged rfl).tracks hrests hlength

include hone hmachine

/-- `enable ID`. -/
theorem tracks_enable :
    Triple (Tracks arch machine tid regs memory c)
      (do
        let found ← enableById arch (machine.environment arch) id
        reportUnknown found)
      (fun _ => Tracks arch machine tid regs memory (c.switch id true)) (fun _ _ => False) := by
  refine tracks_forEachWithId true hunique
    fun executed task d m key r ⟨hrests, hrecords⟩ hlength hr hid => ?_
  obtain ⟨haddress, hpending, hsaved⟩ := hrecords.formed key r hr
  have hnoted : ∀ d' m', Rests arch machine tid regs memory (c.switch id true) task d' m' →
      Triple (Sole machine tid (fun _ => True) executed c.hits task d' m')
        (noteUserEnabled (R := R) (D := D) key)
        (fun _ => Tracks arch machine tid regs memory (c.switch id true)) (fun _ _ => False) := by
    intro d' m' hrests'
    refine Triple.get_bind fun t => ?_
    have htracks : Triple (fun u => u = t ∧
          Sole machine tid (fun _ => True) executed c.hits task d' m' u)
        (note (R := R) (D := D) (.userEnabled key))
        (fun _ => Tracks arch machine tid regs memory (c.switch id true)) (fun _ _ => False) :=
      (sole_note rfl).conseq (fun _ hu => hu.2)
        (fun _ u hu => Sole.tracks (c := c.switch id true) hu hrests' hlength) fun _ _ hu => hu
    have hpure : ∀ u, u = t ∧ Sole machine tid (fun _ => True) executed c.hits task d' m' u →
        Tracks arch machine tid regs memory (c.switch id true) u :=
      fun u hu => Sole.tracks (c := c.switch id true) hu.2 hrests' hlength
    cases t.debugger.breakpoints.find? key with
    | none => exact Triple.pure hpure
    | some _ => exact Triple.doIf (fun _ => htracks) fun _ => hpure
  cases henabled : r.enabled with
  | true =>
      have hsame := hrecords.switch_same hunique hr hid henabled
      have hskip : Triple (Sole machine tid (fun _ => True) executed c.hits task d m)
          (Cosy.enable arch (machine.environment arch) key)
          (fun _ => Sole machine tid (fun _ => True) executed c.hits task d m)
          (fun _ _ => False) := by
        intro s hs
        have hkept : r.saved.isEmpty = false := by
          rw [List.isEmpty_eq_false_iff]
          exact List.ne_nil_of_length_pos (hsaved henabled ▸ arch.breakpointSize_pos)
        rw [Cosy.enable, get_bind_apply, hs.debugger, hr]
        simp only [henabled, hkept, Bool.not_false, Bool.and_self, Bool.or_true, if_true]
        exact hs
      exact Triple.bind hskip fun _ => hnoted d m (hsame.symm ▸ ⟨hrests, hrecords⟩)
  | false =>
      refine Triple.bind (sole_enable hmachine hrests.stopped hrests.standing.selected hr haddress
        hpending henabled) fun _ => hnoted _ _ ⟨?_, ?_⟩
      · refine ⟨hrests.registers, hrests.stopped, ?_, hrests.standing.of_eq rfl rfl rfl rfl⟩
        exact hrests.overlaid.put (apartFrom_of_size hone _ _) hr henabled
      · exact hrecords.switch hunique hr hid (fun _ => ⟨rfl, rfl, rfl, rfl⟩) rfl
          fun _ => length_bytesAt _ _ _

/-- `disable ID`. -/
theorem tracks_disable :
    Triple (Tracks arch machine tid regs memory c)
      (do
        let found ← disableById (machine.environment arch) id
        reportUnknown found)
      (fun _ => Tracks arch machine tid regs memory (c.switch id false)) (fun _ _ => False) := by
  refine tracks_forEachWithId false hunique
    fun executed task d m key r ⟨hrests, hrecords⟩ hlength hr hid => ?_
  obtain ⟨haddress, hpending, hsaved⟩ := hrecords.formed key r hr
  refine Triple.bind (sole_note rfl) fun _ => ?_
  cases henabled : r.enabled with
  | true =>
      refine (sole_disable hmachine hrests.stopped hrests.standing.selected hr haddress hpending
        henabled (hsaved henabled)).post fun _ t ht =>
          Sole.tracks (c := c.switch id false) ht ⟨?_, ?_⟩ hlength
      · refine ⟨hrests.registers, hrests.stopped, ?_, hrests.standing.of_eq rfl rfl rfl rfl⟩
        exact hrests.overlaid.lift (apartFrom_of_size hone _ _) hr henabled
      · exact hrecords.switch hunique hr hid (fun _ => ⟨rfl, rfl, rfl, rfl⟩) rfl
          fun hfalse => by cases hfalse
  | false =>
      have hdisabled : ∀ r', d.breakpoints.find? key = some r' → r'.enabled = false := by
        intro r' hr'
        obtain rfl := Option.some.inj (hr.symm.trans hr')
        exact henabled
      rw [hrecords.switch_same hunique hr hid henabled]
      exact (sole_disable_none hdisabled).post fun _ t ht => ht.tracks ⟨hrests, hrecords⟩ hlength

end Switch

end Marks

/-! ### A step that is reported -/

section Reported

variable {shown : ModuleManager → Prop} {n : Nat}

/-- Where `print_stop` finds no record, it leaves everything as it is. -/
theorem sole_missReported (hmachine : machine.RunsOnly tid shown) (hstopped : task.stopped = true)
    (hsignal : d.stopSignal tid = some sigtrap)
    (hnone : d.breakpoints.find? (arch.candidate (arch.pc task.regs)) = none) :
    Triple (Sole machine tid shown executed hits task d m)
      (reportStop arch (machine.environment arch) tid)
      (fun _ => Sole machine tid shown executed hits task d m) (fun _ _ => False) := by
  refine sole_reportStop hmachine hstopped hsignal hstopped
    (fun s hs => ⟨_, _, _, _, hs, fun _ ht => ht⟩) ?_
  intro s hs
  rw [inspectBreakpoint, get_bind_apply, hs.debugger, hnone]
  exact hs

/-- The step executes the trap of a breakpoint, which is announced, or an instruction. -/
def SteppedTo (arch : Architecture R D) (machine : Machine R D) (tid : Tid) (regs : R)
    (memory : Memory) (breakpoints : SortedMap Address Breakpoint) (base past : Nat)
    (hits : List (Int × Address)) (s : State R D) : Prop :=
  (∃ r, breakpoints.find? (machine.program.path arch regs memory past) = some r ∧
    r.enabled = true ∧ s.executions.length = base + past ∧
    HitAt arch machine tid breakpoints (machine.program.after regs memory past) hits r s) ∨
  machine.program.meets arch regs memory breakpoints past = false ∧
    s.executions.length = base + (past + 1) ∧ s.hits = hits ∧
    StandsAt arch machine tid breakpoints (machine.program.after regs memory (past + 1)) s

variable (executed hits) in
/-- `stepi` where the thread stands after `n` instructions. -/
theorem RestsAt.stepReported (hpc : arch.LawfulPc)
    (hp : machine.program.Ordinary arch regs memory breakpoints text fetched)
    (hapart : ∀ key, ApartFrom arch breakpoints key) (hformed : WellFormed arch breakpoints)
    (hmachine : machine.RunsOnly tid shown)
    (hbehind : ∀ n, breakpoints.find? (arch.candidate (machine.program.path arch regs memory n))
      = none)
    {base : Nat} (hlength : executed.length = base + n)
    (hrests : RestsAt arch tid breakpoints (machine.program.after regs memory n) task d m) :
    Triple (Sole machine tid shown executed hits task d m)
      (Cosy.instructionStep arch (machine.environment arch) true)
      (fun _ => SteppedTo arch machine tid regs memory breakpoints base
        (machine.program.past arch regs memory breakpoints n) hits) (fun _ _ => False) := by
  obtain ⟨executed₁, task₁, d₁, m₁, hcount, hrests₁, -, hstepOver⟩ :=
    hrests.stepOver executed hits hp hapart hformed hmachine
  generalize machine.program.past arch regs memory breakpoints n = past at hcount hrests₁ ⊢
  obtain ⟨hregs, hstopped, hover, hd⟩ := hrests₁
  have htrap := hp.trapAt hapart hover
  rw [← hregs] at htrap
  intro s hs
  have halive : s.debugger.alive = true := by rw [hs.debugger, hrests.standing.alive]
  rw [Cosy.instructionStep, get_bind_apply, if_pos halive]
  refine Triple.bind hstepOver (fun _ => ?_) s hs
  cases hmeets : machine.program.meets arch regs memory breakpoints past with
  | true =>
      -- The step executes the trap, and nothing else.
      obtain ⟨r, hr, henabled⟩ := Program.meets_iff.mp hmeets
      refine sole_stepAndReport hmachine hstopped hd.selected hd.recordsStopped
        (sole_trapped hmachine (htrap.trans hmeets)) ?_
      have htraps : TrapsAt arch machine.program regs memory breakpoints past
          (task₁.trapped (arch.setPc task₁.regs (arch.pcAfterTrap (arch.pc task₁.regs)))) m₁ :=
        ⟨hmeets, by rw [← hregs]; rfl, rfl, hover⟩
      refine (sole_stopConsumed (sole_refreshNothing hmachine htraps.stopped hd)
        (Triple.exists fun modules u hu => sole_hitReported hpc hmachine hformed htraps
          ((d₁.resuming tid).stopSignal_recording modules hd.alive) (hd.atStop modules) hr u
          hu.2)).post fun _ u hu => Or.inl ⟨r, hr, henabled, ?_, hu.2⟩
      rw [hu.1]
      omega
  | false =>
      obtain ⟨m', hstep, hover'⟩ := hp.stepFree hmeets hover
      rw [← hregs] at hstep
      refine sole_stepAndReport hmachine hstopped hd.selected hd.recordsStopped
        (sole_executed hmachine (htrap.trans hmeets) hstep) ?_
      refine sole_stopConsumed (sole_refreshNothing hmachine rfl hd)
        (Triple.exists fun modules u hu => ?_)
      have hnone : ((d₁.resuming tid).atStop tid modules).breakpoints.find?
          (arch.candidate (arch.pc (machine.program.after regs memory (past + 1)).1)) = none := by
        rw [(hd.atStop modules).breakpoints]
        exact hbehind (past + 1)
      have hsignal : ((d₁.resuming tid).atStop tid modules).stopSignal tid = some sigtrap :=
        (d₁.resuming tid).stopSignal_recording modules hd.alive
      have hreport : Triple (Sole machine tid shown ((tid, arch.pc task₁.regs) :: executed₁) hits
            (task₁.stepped (machine.program.after regs memory (past + 1)).1)
            ((d₁.resuming tid).atStop tid modules) m')
          (reportStop arch (machine.environment arch) tid)
          (fun _ => Sole machine tid shown ((tid, arch.pc task₁.regs) :: executed₁) hits
            (task₁.stepped (machine.program.after regs memory (past + 1)).1)
            ((d₁.resuming tid).atStop tid modules) m') (fun _ _ => False) :=
        sole_missReported hmachine rfl hsignal hnone
      refine (hreport.post fun _ v hv => Or.inr ⟨hmeets, ?_, hv.hits, ?_⟩) u hu.2
      · rw [hv.executions, List.length_cons]
        omega
      · exact hv.standsAt ⟨rfl, rfl, hover', hd.atStop modules⟩

end Reported

/-! ### Going on and taking a step -/

section Running

variable (hone : arch.breakpointSize = 1) (hpc : arch.LawfulPc)
  (hmachine : machine.RunsOnly tid fun _ => True)
  (hp : machine.program.Breakable arch regs memory spots text fetched)
  (hspots : ∀ place mark, c.marks place = some mark → place ∈ spots)

include hspots in
theorem Debugger.Records.ordinary (hd : d.Records arch c)
    (hp : machine.program.Breakable arch regs memory spots text fetched) :
    machine.program.Ordinary arch regs memory d.breakpoints text fetched :=
  hp.ordinary _ fun _ _ hr => hspots _ _ (hd.mark_of_find? hr)

include hone hpc hmachine hp hspots

/-- `continue` goes on to the next mark, or does not come back. -/
theorem tracks_continueExecution :
    Triple (Tracks arch machine tid regs memory c)
      (continueExecution arch (machine.environment arch))
      (fun _ t => ∃ c', c.Allows (machine.program.path arch regs memory) .goOn c' ∧
        Tracks arch machine tid regs memory c' t)
      (fun halt _ => halt = .blocked ∧ ∃ tick, ∀ n, c.position < n →
        n < machine.instructions tick →
          c.armed (machine.program.path arch regs memory n) = false) := by
  refine triple_of_tracks fun executed task d m ⟨hrests, hrecords⟩ hlength => ?_
  have hordinary := hrecords.ordinary hspots hp
  have hspec := (hrests.continueExecution executed c.hits hpc hordinary
    (apartFrom_of_size hone _) hrecords.formed hmachine)
  have hnone : Within (Keeps fun s : State R D => s.debugger.NonePending c.nextId)
      (continueExecution arch (machine.environment arch)) :=
    (attendsWithin_nonePending c.nextId).executes.continueExecution
  refine ((hspec.frame hnone fun _ _ hst => hst).conseq (fun s hs => ⟨hs, ?_⟩) ?_ ?_)
  · rw [hs.debugger]
    exact ⟨hrests.standing.pending, hrecords.nextId⟩
  · rintro _ t ⟨⟨n, r, hlater, hclear, hmeets, hr, hcount, hit⟩, hnext⟩
    have hstands := hit.stands (hrecords.permanent _ r hr)
    have henabled : r.enabled = true := by
      obtain ⟨r', hr', henabled⟩ := Program.meets_iff.mp hmeets
      rwa [Option.some.inj (hr.symm.trans hr')]
    have hbreakpoints := hstands.debugger.breakpoints
    refine ⟨c.stopFor (machine.program.path arch regs memory) n r.mark, ⟨n, r.mark, hlater,
      fun m hle hlt => ?_, hrecords.mark_of_find? hr, henabled, rfl⟩, ?_, ?_, ?_, hit.hits⟩
    · rw [← hrecords.meets machine.program]
      exact hclear m hle hlt
    · rw [hbreakpoints]
      exact hstands
    · refine ⟨hbreakpoints ▸ hrecords.formed, hbreakpoints ▸ hrecords.permanent, fun key => ?_,
        hnext.2⟩
      rw [hbreakpoints]
      exact hrecords.marks key
    · change t.executions.length = n
      omega
  · rintro halt t ⟨⟨hblocked, tick, hclear⟩, -⟩
    refine ⟨hblocked, tick, fun n hle hlt => ?_⟩
    rw [← hrecords.meets machine.program]
    exact hclear n hle hlt

/-- `stepi` takes a step. -/
theorem tracks_instructionStep :
    Triple (Tracks arch machine tid regs memory c)
      (instructionStep arch (machine.environment arch) true)
      (fun _ => Tracks arch machine tid regs memory
        (c.stepped (machine.program.path arch regs memory))) (fun _ _ => False) := by
  refine triple_of_tracks fun executed task d m ⟨hrests, hrecords⟩ hlength => ?_
  have hbehind : ∀ n, d.breakpoints.find?
      (arch.candidate (machine.program.path arch regs memory n)) = none := by
    intro n
    cases hr : d.breakpoints.find? (arch.candidate (machine.program.path arch regs memory n)) with
    | none => rfl
    | some r => exact absurd (hspots _ _ (hrecords.mark_of_find? hr)) (hp.behind n)
  have hspec := hrests.stepReported executed c.hits hpc (hrecords.ordinary hspots hp)
    (apartFrom_of_size hone _) hrecords.formed hmachine hbehind
    (hlength.trans (Nat.zero_add c.position).symm)
  have hnone : Within (Keeps fun s : State R D => s.debugger.NonePending c.nextId)
      (instructionStep arch (machine.environment arch) true) :=
    (attendsWithin_nonePending c.nextId).executes.instructionStep true
  have hpast : machine.program.past arch regs memory d.breakpoints c.position
      = c.past (machine.program.path arch regs memory) := by
    rw [Program.past, Controller.past, hrecords.meets]
  rw [hpast] at hspec
  refine ((hspec.frame hnone fun _ _ hst => hst).conseq (fun s hs => ⟨hs, ?_⟩) ?_ ?_)
  · rw [hs.debugger]
    exact ⟨hrests.standing.pending, hrecords.nextId⟩
  · rintro _ t ⟨hstepped, hnext⟩
    have htable : t.debugger.breakpoints = d.breakpoints → ∀ c', c'.marks = c.marks →
        c'.nextId = c.nextId → t.debugger.Records arch c' := by
      intro hbreakpoints c' hmarks hnextId
      exact hrecords.congr hbreakpoints (hnext.2.trans hrecords.nextId.symm) hmarks hnextId
    rcases hstepped with ⟨r, hr, henabled, hcount, hit⟩ | ⟨hmeets, hcount, hhits, hstands⟩
    · have hmark : (c.marks (machine.program.path arch regs memory
          (c.past (machine.program.path arch regs memory)))).filter Mark.on = some r.mark := by
        rw [hrecords.mark_of_find? hr]
        exact Option.filter_some_pos henabled
      have hstands := hit.stands (hrecords.permanent _ r hr)
      have hbreakpoints := hstands.debugger.breakpoints
      rw [Controller.stepped, hmark]
      refine ⟨?_, htable hbreakpoints _ rfl rfl, ?_, hit.hits⟩
      · rw [hbreakpoints]
        exact hstands
      · rw [hcount, Nat.zero_add]
        rfl
    · have hmark : (c.marks (machine.program.path arch regs memory
          (c.past (machine.program.path arch regs memory)))).filter Mark.on = none := by
        rw [hrecords.meets] at hmeets
        rw [Option.filter_eq_none_iff]
        intro mark hmark hon
        rw [Controller.armed, hmark, Option.any_some, hon] at hmeets
        cases hmeets
      have hbreakpoints := hstands.debugger.breakpoints
      rw [Controller.stepped, hmark]
      refine ⟨?_, htable hbreakpoints _ rfl rfl, ?_, hhits⟩
      · rw [hbreakpoints]
        exact hstands
      · rw [hcount, Nat.zero_add]
  · rintro halt t ⟨hfalse, -⟩
    exact hfalse

end Running

end Cosy
