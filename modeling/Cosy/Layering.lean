import Cosy.Operations
import Cosy.Reports

/-!
# Traps over traps

A breakpoint may be anywhere, so on AArch64 a trap may be put over a part of another one, whose
bytes it then keeps for the program's. The records that are enabled are layers over the memory of
the program, in the order in which they were enabled, and lifting traps brings that memory back
unless one is lifted from under a newer one.
-/

namespace Cosy

open ByteMemory Effect

variable {R D α : Type} {arch : Architecture R D} {env : Environment R D} {s t : State R D}
  {under : Memory}

/-! ### The order of insertion -/

/-- The addresses where a trap is in, the newest first. -/
def inserted : List Entry → List Address
  | [] => []
  | .arming key :: older => key :: inserted older
  | .disarmed key :: older => (inserted older).erase key
  | _ :: older => inserted older

/-- No trap newer than the one at `key` overlaps it. -/
def uncovered (n : Nat) (key : Address) : List Address → Bool
  | [] => true
  | other :: older => other = key || apart n other key && uncovered n key older

/-- No trap was lifted from under a newer one. -/
def liftsUncovered (n : Nat) : List Entry → Bool
  | [] => true
  | .disarmed key :: older => uncovered n key (inserted older) && liftsUncovered n older
  | _ :: older => liftsUncovered n older

/-- An entry that tells of no trap going in or out. -/
def Entry.isUnpatched : Entry → Bool
  | .arming _ | .disarmed _ => false
  | _ => true

theorem inserted_append {newer older : List Entry}
    (hnewer : ∀ entry ∈ newer, entry.isUnpatched = true) :
    inserted (newer ++ older) = inserted older := by
  induction newer with
  | nil => rfl
  | cons entry newer ih =>
      have hrest := ih fun entry hmem => hnewer entry (List.mem_cons_of_mem _ hmem)
      have hentry := hnewer entry List.mem_cons_self
      cases entry <;> first | exact hrest | cases hentry

@[simp]
theorem inserted_targets (events : List TargetEvent) (older : List Entry) :
    inserted (events.map Entry.target ++ older) = inserted older :=
  inserted_append (by simp [Entry.isUnpatched])

theorem liftsUncovered_of_append {n : Nat} {newer older : List Entry}
    (hlifts : liftsUncovered n (newer ++ older) = true) : liftsUncovered n older = true := by
  induction newer with
  | nil => exact hlifts
  | cons entry newer ih =>
      refine ih ?_
      cases entry with
      | disarmed key => exact (Bool.and_eq_true _ _ ▸ hlifts).2
      | _ => exact hlifts

theorem apart_of_uncovered {n : Nat} {key : Address} {newer older : List Address}
    (huncovered : uncovered n key (newer ++ key :: older) = true) (hkey : key ∉ newer) :
    ∀ other ∈ newer, apart n other key = true := by
  induction newer with
  | nil => exact fun _ hmem => absurd hmem List.not_mem_nil
  | cons first newer ih =>
      rw [List.mem_cons, not_or] at hkey
      rw [List.cons_append, uncovered, Bool.or_eq_true, decide_eq_true_eq, Bool.and_eq_true]
        at huncovered
      obtain ⟨hfirst, hrest⟩ := huncovered.resolve_left (Ne.symm hkey.1)
      intro other hmem
      rcases List.mem_cons.mp hmem with rfl | hmem
      · exact hfirst
      · exact ih hrest hkey.2 other hmem

/-! ### Layers -/

/-- What a trap at `key` keeps of the memory under it. -/
def Debugger.layer (d : Debugger) (key : Address) : Layer :=
  ⟨key, ((d.breakpoints.find? key).map Breakpoint.saved).getD []⟩

def State.layers (s : State R D) : List Layer := (inserted s.log).map s.debugger.layer

/-- The enabled records are layers over this memory. -/
structure Layered (under : Memory) (s : State R D) : Prop where
  nodup : (inserted s.log).Nodup
  enabled : ∀ key, key ∈ inserted s.log ↔
    ∃ r, s.debugger.breakpoints.find? key = some r ∧ r.enabled = true
  unwound : unwind s.layers s.target.memory = under

theorem Debugger.layer_congr {d d' : Debugger} {key : Address}
    (hfind : d'.breakpoints.find? key = d.breakpoints.find? key) : d'.layer key = d.layer key := by
  rw [Debugger.layer, Debugger.layer, hfind]

theorem Debugger.layer_of_find? {d : Debugger} {key : Address} {r : Breakpoint}
    (hr : d.breakpoints.find? key = some r) : d.layer key = ⟨key, r.saved⟩ := by
  rw [Debugger.layer, hr]
  rfl

theorem find?_withRecord_of_ne {d : Debugger} {key other : Address} (hne : other ≠ key)
    (change : Breakpoint → Breakpoint) :
    (d.withRecord key change).breakpoints.find? other = d.breakpoints.find? other :=
  SortedMap.find?_modify_of_ne _ _ hne

theorem find?_withRecord_self {d : Debugger} {key : Address} {r : Breakpoint}
    (hr : d.breakpoints.find? key = some r) (change : Breakpoint → Breakpoint) :
    (d.withRecord key change).breakpoints.find? key = some (change r) := by
  rw [Debugger.withRecord, SortedMap.find?_modify_self, hr]
  rfl

theorem Layered.of_same (hs : Layered under s) (hinserted : inserted t.log = inserted s.log)
    (hmemory : t.target.memory = s.target.memory)
    (henabled : ∀ key, (∃ r, t.debugger.breakpoints.find? key = some r ∧ r.enabled = true) ↔
      ∃ r, s.debugger.breakpoints.find? key = some r ∧ r.enabled = true)
    (hkept : ∀ key ∈ inserted s.log, t.debugger.layer key = s.debugger.layer key) :
    Layered under t := by
  have hlayers : t.layers = s.layers := by
    rw [State.layers, State.layers, hinserted]
    exact List.map_congr_left hkept
  refine ⟨hinserted ▸ hs.nodup, fun key => ?_, ?_⟩
  · rw [hinserted, henabled]
    exact hs.enabled key
  · rw [hlayers, hmemory]
    exact hs.unwound

theorem Layered.not_inserted (hs : Layered under s) {key : Address} {r : Breakpoint}
    (hr : s.debugger.breakpoints.find? key = some r) (hdisabled : r.enabled = false) :
    key ∉ inserted s.log := by
  intro hmem
  obtain ⟨r', hr', henabled⟩ := (hs.enabled key).mp hmem
  obtain rfl := Option.some.inj (hr.symm.trans hr')
  rw [hdisabled] at henabled
  cases henabled

/-- A trap that goes in is the newest layer. -/
theorem Layered.put (hs : Layered under s) {key : Address} {r : Breakpoint}
    (hr : s.debugger.breakpoints.find? key = some r) (hdisabled : r.enabled = false)
    (hinserted : inserted t.log = key :: inserted s.log)
    (hmemory : t.target.memory = store s.target.memory key arch.breakpointInstruction)
    (hdebugger : t.debugger = s.debugger.withRecord key fun r =>
      r.armedWith (bytesAt s.target.memory key arch.breakpointSize)) : Layered under t := by
  have hkey := hs.not_inserted hr hdisabled
  have hself : t.debugger.breakpoints.find? key
      = some (r.armedWith (bytesAt s.target.memory key arch.breakpointSize)) :=
    hdebugger ▸ find?_withRecord_self hr _
  have hother : ∀ other, other ≠ key →
      t.debugger.breakpoints.find? other = s.debugger.breakpoints.find? other :=
    fun other hne => hdebugger ▸ find?_withRecord_of_ne hne _
  refine ⟨?_, fun other => ?_, ?_⟩
  · rw [hinserted]
    exact List.nodup_cons.mpr ⟨hkey, hs.nodup⟩
  · rw [hinserted, List.mem_cons]
    by_cases heq : other = key
    · rw [heq]
      exact iff_of_true (Or.inl rfl) ⟨_, hself, rfl⟩
    · rw [hother other heq, or_iff_right heq]
      exact hs.enabled other
  · have hlayers : t.layers
        = ⟨key, bytesAt s.target.memory key arch.breakpointInstruction.length⟩ :: s.layers := by
      rw [State.layers, hinserted, List.map_cons, Debugger.layer_of_find? hself,
        arch.length_breakpointInstruction]
      refine congrArg (List.cons _) (List.map_congr_left fun other hmem => ?_)
      exact Debugger.layer_congr (hother other fun heq => hkey (heq ▸ hmem))
    rw [hlayers, hmemory, unwind_put]
    exact hs.unwound

/-- A layer covers the bytes of its trap. -/
theorem Layered.covers_iff (hs : Layered under s) (hformed : WellFormed arch s.debugger.breakpoints)
    {key x : Address} (hkey : key ∈ inserted s.log) :
    (s.debugger.layer key).covers x ↔ (x - key).toNat < arch.breakpointSize := by
  obtain ⟨r, hr, henabled⟩ := (hs.enabled key).mp hkey
  rw [Debugger.layer_of_find? hr, Layer.covers, (hformed key r hr).2.2 henabled]

/-- A trap that no newer one overlaps can be lifted. -/
theorem Layered.lift (hs : Layered under s) (hformed : WellFormed arch s.debugger.breakpoints)
    {key : Address} {r : Breakpoint} (hr : s.debugger.breakpoints.find? key = some r)
    (henabled : r.enabled = true)
    (huncovered : uncovered arch.breakpointSize key (inserted s.log) = true)
    (hinserted : inserted t.log = (inserted s.log).erase key)
    (hmemory : t.target.memory = store s.target.memory key r.saved)
    (hdebugger : t.debugger = s.debugger.withRecord key fun r => { r with enabled := false }) :
    Layered under t := by
  have hother : ∀ other, other ≠ key →
      t.debugger.breakpoints.find? other = s.debugger.breakpoints.find? other :=
    fun other hne => hdebugger ▸ find?_withRecord_of_ne hne _
  have hmem : key ∈ inserted s.log := (hs.enabled key).mpr ⟨r, hr, henabled⟩
  refine ⟨hinserted ▸ hs.nodup.erase key, fun other => ?_, ?_⟩
  · rw [hinserted, hs.nodup.mem_erase_iff]
    by_cases heq : other = key
    · refine iff_of_false (fun hmem => hmem.1 heq) ?_
      rintro ⟨r', hr', henabled'⟩
      rw [heq, hdebugger, find?_withRecord_self hr] at hr'
      obtain rfl := Option.some.inj hr'
      cases henabled'
    · rw [hother other heq, and_iff_right heq]
      exact hs.enabled other
  · obtain ⟨newer, older, hsplit⟩ := List.append_of_mem hmem
    have hnodup := hs.nodup
    rw [hsplit, List.nodup_middle, List.nodup_cons, List.mem_append, not_or] at hnodup
    have hkept : ∀ others : List Address, key ∉ others →
        others.map t.debugger.layer = others.map s.debugger.layer := by
      refine fun others hnot => List.map_congr_left fun other hother' => ?_
      exact Debugger.layer_congr (hother other fun heq => hnot (heq ▸ hother'))
    have hlayers : t.layers = newer.map s.debugger.layer ++ older.map s.debugger.layer := by
      rw [State.layers, hinserted, hsplit, List.erase_append_right _ hnodup.1.1,
        List.erase_cons_head, List.map_append, hkept newer hnodup.1.1, hkept older hnodup.1.2]
    have hlayers' : s.layers
        = newer.map s.debugger.layer ++ s.debugger.layer key :: older.map s.debugger.layer := by
      rw [State.layers, hsplit, List.map_append, List.map_cons]
    have hapart : ∀ other ∈ newer.map s.debugger.layer, ∀ x, other.covers x →
        ¬ (s.debugger.layer key).covers x := by
      intro layer hlayer x hx
      obtain ⟨other, hnewer, rfl⟩ := List.mem_map.mp hlayer
      have hother' : other ∈ inserted s.log := hsplit ▸ List.mem_append_left _ hnewer
      rw [hs.covers_iff hformed hother'] at hx
      rw [hs.covers_iff hformed hmem]
      rw [hsplit] at huncovered
      exact not_both_of_apart (apart_of_uncovered huncovered hnodup.1.1 other hnewer) hx
    have hlifted : t.target.memory = (s.debugger.layer key).lift s.target.memory := by
      rw [hmemory, Debugger.layer_of_find? hr]
      rfl
    calc unwind t.layers t.target.memory
        = unwind s.layers s.target.memory := by
          rw [hlayers, hlayers', hlifted]
          exact unwind_lift hapart _
      _ = under := hs.unwound

/-- What `enable` and `disable` do leaves the layers over the same memory. -/
theorem Patching.layered (hst : Patching arch s t) (hformed : WellFormed arch s.debugger.breakpoints)
    (hlifts : ∀ key older, t.log = .disarmed key :: older → key ∈ inserted older →
      uncovered arch.breakpointSize key (inserted older) = true)
    (hs : Layered under s) : Layered under t := by
  cases hst with
  | requested ht =>
      obtain ⟨events, hevents⟩ := ht.log
      refine hs.of_same (by rw [hevents, inserted_targets]) ht.memory ?_ ?_
      · exact fun key => by rw [ht.debugger]
      · exact fun key _ => by rw [ht.debugger]
  | enabled hr hdisabled hmemory hdebugger hlog =>
      obtain ⟨events, hevents⟩ := hlog
      exact hs.put hr hdisabled (by rw [hevents, inserted_targets, inserted]) hmemory hdebugger
  | @abandoned key r hr hdisabled hmemory hdebugger hlog =>
      obtain ⟨events, hevents⟩ := hlog
      have hinserted : inserted t.log = inserted s.log := by
        rw [hevents, inserted, inserted_targets, inserted, List.erase_cons_head]
      rcases hdebugger with hdebugger | ⟨saved, hdebugger⟩
      · exact hs.of_same hinserted hmemory (fun _ => by rw [hdebugger]) fun _ _ => by rw [hdebugger]
      refine hs.of_same hinserted hmemory (fun other => ?_) fun other hmem => ?_
      · by_cases heq : other = key
        · rw [heq, hdebugger, find?_withRecord_self hr, hr]
          simp [hdisabled]
        · rw [hdebugger, find?_withRecord_of_ne heq]
      · refine Debugger.layer_congr ?_
        rw [hdebugger, find?_withRecord_of_ne]
        rintro rfl
        exact hs.not_inserted hr hdisabled hmem
  | @disabled key r hr henabled hmemory hdebugger hlog =>
      obtain ⟨events, original, hevents⟩ := hlog
      have holder : inserted (.restored key r.saved original :: (events.map Entry.target ++ s.log))
          = inserted s.log := inserted_targets events s.log
      have huncovered := hlifts key _ hevents
      rw [holder] at huncovered
      have hmem : key ∈ inserted s.log := (hs.enabled key).mpr ⟨r, hr, henabled⟩
      refine hs.lift hformed hr henabled (huncovered hmem) ?_ hmemory hdebugger
      rw [hevents, inserted, holder]

/-! ### Everything else -/

/-- Neither the memory nor the table of breakpoints changes, nor is a trap logged. -/
structure Unpatched (s t : State R D) : Prop where
  memory : t.target.memory = s.target.memory
  breakpoints : t.debugger.breakpoints = s.debugger.breakpoints
  log : Appends (fun entry => entry.isUnpatched = true) s t

instance : IsPreorder (State R D) Unpatched where
  refl _ := ⟨rfl, rfl, .of_eq rfl⟩
  trans _ _ _ hst htu :=
    ⟨htu.memory.trans hst.memory, htu.breakpoints.trans hst.breakpoints,
      trans_of (Appends _) hst.log htu.log⟩

theorem Move.unpatched (henv : env.WritesNothing) {kind : Kind} (hkind : kind ∈ silent)
    (hmove : Move arch env ∅ kind s t) : Unpatched s t := by
  cases hmove with
  | enter => exact ⟨henv.memory _ _, rfl, appends_enter (fun _ => rfl) s⟩
  | say _ hentry | report _ hentry | stepping _ hentry =>
      refine ⟨rfl, rfl, .cons rfl ?_⟩
      rename_i entry
      cases entry <;> first | rfl | cases hentry
  | book _ hbreakpoints => exact ⟨rfl, hbreakpoints, .of_eq rfl⟩
  | threads _ hbreakpoints => exact ⟨rfl, hbreakpoints, .of_eq rfl⟩
  | resume | release | userEnabled | userDisabled => exact ⟨rfl, rfl, .cons rfl rfl⟩
  | regs | task | take | close => exact ⟨rfl, rfl, .of_eq rfl⟩
  | liftWild _ hlift => rcases hlift with rfl | rfl <;> exact absurd hkind (by decide)
  | _ => exact absurd hkind (by decide)

theorem Unpatched.inserted (hst : Unpatched s t) : inserted t.log = inserted s.log := by
  obtain ⟨newer, hnewer, hunpatched⟩ := hst.log
  rw [hnewer, inserted_append hunpatched]

theorem Unpatched.layered (hst : Unpatched s t) (hs : Layered under s) : Layered under t := by
  refine hs.of_same hst.inserted hst.memory (fun _ => by rw [hst.breakpoints]) fun key _ => ?_
  exact Debugger.layer_congr (by rw [hst.breakpoints])

/-- A record that is not enabled is no layer. -/
theorem Layered.table (hs : Layered under s) {d : Debugger} (key : Address)
    (hdisabled : ∀ r, s.debugger.breakpoints.find? key = some r → r.enabled = false)
    (hdisabled' : ∀ r, d.breakpoints.find? key = some r → r.enabled = false)
    (hother : ∀ other, other ≠ key →
      d.breakpoints.find? other = s.debugger.breakpoints.find? other) :
    Layered under (s.withDebugger d) := by
  refine hs.of_same rfl rfl (fun other => ?_) fun other hmem => ?_
  · by_cases heq : other = key
    · rw [heq]
      refine iff_of_false ?_ ?_
      · rintro ⟨r, hr, henabled⟩
        exact Bool.false_ne_true ((hdisabled' r hr).symm.trans henabled)
      · rintro ⟨r, hr, henabled⟩
        exact Bool.false_ne_true ((hdisabled r hr).symm.trans henabled)
    · rw [← hother other heq]
      rfl
  · refine Debugger.layer_congr (hother other ?_)
    rintro rfl
    obtain ⟨r, hr, henabled⟩ := (hs.enabled other).mp hmem
    exact Bool.false_ne_true ((hdisabled r hr).symm.trans henabled)

/-! ### Operations -/

/-- As long as `P` holds of the log, no trap was lifted from under a newer one. -/
structure Ordering (arch : Architecture R D) (P : List Entry → Prop) : Prop where
  older : ∀ {newer older}, P (newer ++ older) → P older
  lifts : ∀ key older, P (.disarmed key :: older) → key ∈ inserted older →
    uncovered arch.breakpointSize key (inserted older) = true

/-- With a well-formed table, the enabled records are layers over this memory as long as `P` holds
of the log. -/
structure LayeredWhile (arch : Architecture R D) (P : List Entry → Prop) (under : Memory)
    (s : State R D) : Prop where
  formed : WellFormed arch s.debugger.breakpoints
  layered : P s.log → Layered under s

variable {P : List Entry → Prop} (hordering : Ordering arch P)

include hordering

theorem LayeredWhile.next (hs : LayeredWhile arch P under s)
    (hformed : WellFormed arch t.debugger.breakpoints) (hlog : s.log <:+ t.log)
    (hlayered : P t.log → Layered under s → Layered under t) : LayeredWhile arch P under t := by
  refine ⟨hformed, fun hP => hlayered hP (hs.layered ?_)⟩
  obtain ⟨newer, hnewer⟩ := hlog
  exact hordering.older (hnewer ▸ hP)

theorem LayeredWhile.patching (hs : LayeredWhile arch P under s)
    (hformed : WellFormed arch t.debugger.breakpoints) (hst : Patching arch s t) :
    LayeredWhile arch P under t :=
  hs.next hordering hformed hst.log_suffix fun hP =>
    hst.layered hs.formed fun key older hlog => hordering.lifts key older (hlog ▸ hP)

theorem LayeredWhile.erase (hs : LayeredWhile arch P under s) (key : Address)
    (hdisabled : ∀ r, s.debugger.breakpoints.find? key = some r → r.enabled = false) :
    LayeredWhile arch P under (s.withDebugger
      { s.debugger with breakpoints := s.debugger.breakpoints.erase key }) := by
  refine hs.next hordering (hs.formed.erase key) List.suffix_rfl fun _ hlayered => ?_
  refine hlayered.table key hdisabled (fun r hr => ?_) fun other hne => ?_
  · rw [SortedMap.find?_erase, if_pos rfl] at hr
    cases hr
  · rw [SortedMap.find?_erase, if_neg hne]

theorem LayeredWhile.disable (henv : env.Atomic arch) (key : Address) :
    Within (Keeps (LayeredWhile arch P under)) (disable env key) := fun s hs =>
  hs.patching hordering (does_disable (Environment.leavesText_empty env) key s hs.formed).2
    (disable_patching henv hs.formed key)

theorem patchesWithin_layered (henv : env.Atomic arch) :
    PatchesWithin arch env (Keeps (LayeredWhile arch P under)) where
  silent hm := by
    intro s hs
    obtain ⟨hmoves, hformed⟩ := hm s hs.formed
    have hst : Unpatched s _ := hmoves.relate fun kind hkind _ _ hmove =>
      hmove.unpatched henv.still hkind
    exact hs.next hordering hformed hmoves.log_suffix fun _ => hst.layered
  enable key s hs := hs.patching hordering
    (does_enable (Environment.leavesText_empty env) key s hs.formed).2
    (enable_patching henv hs.formed key)
  disable := LayeredWhile.disable hordering henv
  insert r s hfresh henabled hpending := by
    intro hs
    refine hs.next hordering (hs.formed.insert henabled hpending) List.suffix_rfl
      fun _ hlayered => ?_
    refine hlayered.table r.address (fun r' hr' => ?_) (fun r' hr' => ?_) fun other hne => ?_
    · rw [hfresh] at hr'
      cases hr'
    · rw [SortedMap.find?_insert_self] at hr'
      exact Option.some.inj hr' ▸ henabled
    · exact SortedMap.find?_insert_of_ne _ _ hne
  drop key s hs := by
    refine withinAt_dropBreakpoint hs.formed (LayeredWhile.disable hordering henv key s)
      (fun t hdisabled ht => ?_) hs
    exact ht.erase hordering key hdisabled

omit hordering

theorem ordering_liftsUncovered (arch : Architecture R D) :
    Ordering arch fun log => liftsUncovered arch.breakpointSize log = true where
  older hlifts := liftsUncovered_of_append hlifts
  lifts _ _ hlifts _ := (Bool.and_eq_true _ _ ▸ hlifts).1

theorem layeredWhile_empty (hempty : s.debugger.breakpoints = .empty) (hlog : s.log = []) :
    LayeredWhile arch P s.target.memory s := by
  refine ⟨hempty ▸ wellFormed_empty, fun _ => ⟨?_, fun key => ?_, ?_⟩⟩
  · rw [hlog]
    exact List.nodup_nil
  · rw [hlog, hempty]
    exact iff_of_false List.not_mem_nil fun ⟨_, hr, _⟩ => by cases hr
  · rw [State.layers, hlog]
    rfl

theorem Layered.memory (hs : Layered under s) (hnone : ∀ key, s.debugger.hasEnabled key = false) :
    s.target.memory = under := by
  have hinserted : inserted s.log = [] := by
    rw [List.eq_nil_iff_forall_not_mem]
    intro key hmem
    obtain ⟨r, hr, henabled⟩ := (hs.enabled key).mp hmem
    have hkey := hnone key
    rw [Debugger.hasEnabled, hr] at hkey
    exact Bool.false_ne_true (hkey.symm.trans henabled)
  have hlayers : s.layers = [] := by
    rw [State.layers, hinserted]
    rfl
  have hunwound := hs.unwound
  rwa [hlayers] at hunwound

theorem patchRun_layered (hordering : Ordering arch P) (henv : env.Atomic arch)
    (operations : List PatchOperation) (hs : LayeredWhile arch P under s) :
    LayeredWhile arch P under (patchRun arch env s operations) := by
  induction operations generalizing s with
  | nil => exact hs
  | cons operation rest ih => exact ih ((patchesWithin_layered hordering henv).run operation s hs)

/-- Without enabled records, the memory is the one from before the operations. -/
theorem patchRun_restores (henv : env.Atomic arch) (hempty : s.debugger.breakpoints = .empty)
    (hlog : s.log = []) (operations : List PatchOperation) :
    let t := patchRun arch env s operations
    liftsUncovered arch.breakpointSize t.log = true →
      (∀ key, t.debugger.hasEnabled key = false) → t.target.memory = s.target.memory := by
  intro t hlifts hnone
  have ht := patchRun_layered (ordering_liftsUncovered arch) henv operations
    (layeredWhile_empty hempty hlog)
  exact (ht.layered hlifts).memory hnone

/-! ### Two traps that overlap -/

theorem hasEnabled_of_entries {d : Debugger}
    (hnone : d.breakpoints.entries.all (fun entry => !entry.2.enabled) = true) (key : Address) :
    d.hasEnabled key = false := by
  unfold Debugger.hasEnabled
  cases hr : d.breakpoints.find? key with
  | none => rfl
  | some r => simpa using List.all_eq_true.mp hnone _ (SortedMap.mem_entries_iff.mpr hr)

/-- A process on AArch64 that is stopped and stays so, with instructions that do nothing all over
its memory. -/
def stillMachine : Environment UserPtRegs AArch64.HardwareDebugState :=
  Machine.environment ⟨⟨fun regs memory => (regs, memory)⟩, fun _ => [], fun _ => false⟩ aarch64

def stillText : Memory := fun address =>
  [0x1f#8, 0x20#8, 0x03#8, 0xd5#8].getD (address.toNat % 4) 0

def stillTask : Task UserPtRegs AArch64.HardwareDebugState where
  regs := ⟨fun _ => 0, 0, 0x1000, 0⟩
  debug := ⟨0, fun _ => (0, 0)⟩
  stopped := true
  stepping := false
  options := false
  eventMsg := 0
  siCode := 0

def stillStart : State UserPtRegs AArch64.HardwareDebugState where
  debugger := { Debugger.fresh 1 with selectedTid := 1 }
  target := ⟨stillText, stillText, SortedMap.empty.insert 1 stillTask, [], some .unloaded⟩
  tick := 0
  log := []

theorem stillMachine_atomic : stillMachine.Atomic aarch64 :=
  ⟨⟨fun _ _ => rfl, fun _ _ => rfl, fun _ _ _ hmem => by cases hmem⟩,
    Or.inr ⟨fun _ _ _ _ htask _ => htask, fun _ => rfl⟩⟩

/-- The second trap is over the end of the first one and is lifted before it. -/
theorem patchRun_restores_still :
    (patchRun aarch64 stillMachine stillStart
      [.create 0x1000 [] false, .create 0x1002 [] false, .disable 2, .enable 2, .remove 2,
        .disable 1]).target.memory = stillText :=
  patchRun_restores stillMachine_atomic rfl rfl _ (by decide +kernel)
    (hasEnabled_of_entries (by decide +kernel))

/-- Lifted in the order in which they went in, the two traps leave a piece of the first one. -/
theorem trap_left_by_overlap :
    let s := patchRun aarch64 stillMachine stillStart
      [.create 0x1000 [] false, .create 0x1002 [] false]
    let t := patchRun aarch64 stillMachine s [.remove 1, .remove 2]
    s.debugger.hasEnabled 0x1000 = true ∧ s.debugger.hasEnabled 0x1002 = true ∧
      t.debugger.breakpoints.entries = [] ∧ t.target.memory 0x1002 = 0x20 ∧
      stillStart.target.memory 0x1002 = 0x03 := by
  decide +kernel

end Cosy
