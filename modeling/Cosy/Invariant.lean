import Cosy.Sessions

/-!
# The patch invariant

In an orderly session the memory is the image with the traps of the enabled records in it, every
enabled record has saved the bytes of the image, and every byte that `disable` ever put back was the
image's. One lemma for each kind of move, and from them one for whole runs.
-/

namespace Cosy

open ByteMemory Effect

variable {R D : Type} {arch : Architecture R D} {env : Environment R D} {T : Set Address}

/-- The bytes `disable` put back are those of the image. -/
def Entry.Faithful : Entry → Prop
  | .restored _ saved original => saved = original
  | _ => True

theorem Entry.isPlain_of_isSaid {entry : Entry} (hsaid : entry.isSaid = true) :
    entry.isQuiet = true ∧ entry.Faithful := by
  cases entry <;> first | exact ⟨rfl, trivial⟩ | cases hsaid

theorem Entry.isPlain_of_isReport {entry : Entry} (hreport : entry.isReport = true) :
    entry.isQuiet = true ∧ entry.Faithful := by
  cases entry <;> first | exact ⟨rfl, trivial⟩ | cases hreport

theorem Entry.isPlain_of_isStepping {entry : Entry} (hstepping : entry.isStepping = true) :
    entry.isQuiet = true ∧ entry.Faithful := by
  cases entry <;> first | exact ⟨rfl, trivial⟩ | cases hstepping

/-- The patch invariant, as long as the session is orderly. -/
structure Sound (arch : Architecture R D) (T : Set Address) (s : State R D) : Prop where
  patched : Orderly arch T s.log → Patched arch T s
  faithful : Orderly arch T s.log → ∀ entry ∈ s.log, entry.Faithful

/-! ### Patched bytes -/

theorem patchedByte_of_ne {breakpoints breakpoints' : SortedMap Address Breakpoint} {key x : Address}
    {image : Memory} (hfind : ∀ key', key' ≠ key → breakpoints'.find? key' = breakpoints.find? key')
    (hx : arch.trapBase x ≠ key) :
    patchedByte arch breakpoints' image x = patchedByte arch breakpoints image x := by
  rw [patchedByte, patchedByte, hfind _ hx]

theorem patchedByte_of_enabled {breakpoints : SortedMap Address Breakpoint} {image : Memory}
    {x : Address} {r : Breakpoint} (hr : breakpoints.find? (arch.trapBase x) = some r)
    (henabled : r.enabled = true) :
    patchedByte arch breakpoints image x = arch.trapByte x := by
  rw [patchedByte, hr]
  exact if_pos henabled

theorem patchedByte_of_not_enabled {breakpoints : SortedMap Address Breakpoint} {image : Memory}
    {x : Address}
    (hdisabled : ∀ r, breakpoints.find? (arch.trapBase x) = some r → r.enabled = false) :
    patchedByte arch breakpoints image x = image x := by
  unfold patchedByte
  cases hr : breakpoints.find? (arch.trapBase x) with
  | none => rfl
  | some r => simp [hdisabled r hr]

theorem patchedByte_congr (breakpoints : SortedMap Address Breakpoint) {image image' : Memory}
    {x : Address} (himage : image' x = image x) :
    patchedByte arch breakpoints image' x = patchedByte arch breakpoints image x := by
  unfold patchedByte
  rw [himage]

/-- A change of one record leaves the patched bytes of the others, and its own if it is disabled
before and after. -/
theorem patchedByte_disabled {breakpoints breakpoints' : SortedMap Address Breakpoint}
    {key : Address} (image : Memory)
    (hfind : ∀ key', key' ≠ key → breakpoints'.find? key' = breakpoints.find? key')
    (hbefore : ∀ r, breakpoints.find? key = some r → r.enabled = false)
    (hafter : ∀ r, breakpoints'.find? key = some r → r.enabled = false) (x : Address) :
    patchedByte arch breakpoints' image x = patchedByte arch breakpoints image x := by
  by_cases hx : arch.trapBase x = key
  · rw [patchedByte_of_not_enabled (hx ▸ hafter), patchedByte_of_not_enabled (hx ▸ hbefore)]
  · exact patchedByte_of_ne hfind hx

/-! ### Moves that do not touch the text -/

section Frame

variable {s t : State R D}

theorem Sound.of_eq (hs : Sound arch T s)
    (hbreakpoints : t.debugger.breakpoints = s.debugger.breakpoints)
    (hmemory : t.target.memory = s.target.memory) (himage : t.target.image = s.target.image)
    (hlog : t.log = s.log) : Sound arch T t := by
  refine ⟨fun horderly => ?_, fun horderly => ?_⟩
  · have hpatched := hs.patched (hlog ▸ horderly)
    refine ⟨?_, ?_, ?_⟩
    · rw [hbreakpoints, hlog]
      exact hpatched.armed
    · rw [hbreakpoints, himage]
      exact hpatched.saved
    · rw [hbreakpoints, hmemory, himage]
      exact hpatched.memory
  · rw [hlog] at horderly ⊢
    exact hs.faithful horderly

theorem Sound.of_logged {entry : Entry} (hs : Sound arch T s)
    (hbreakpoints : t.debugger.breakpoints = s.debugger.breakpoints)
    (hmemory : t.target.memory = s.target.memory) (himage : t.target.image = s.target.image)
    (hlog : t.log = entry :: s.log) (hquiet : entry.isQuiet = true)
    (hfaithful : entry.Faithful) : Sound arch T t := by
  have hback : Orderly arch T t.log → Orderly arch T s.log := fun horderly =>
    (orderly_cons_quiet hquiet s.log).mp (hlog ▸ horderly)
  refine ⟨fun horderly => ?_, fun horderly entry' hmem => ?_⟩
  · have hpatched := hs.patched (hback horderly)
    refine ⟨fun key r hr henabled => ?_, ?_, ?_⟩
    · rw [hlog, armed_cons_quiet hquiet]
      exact hpatched.armed key r (hbreakpoints ▸ hr) henabled
    · rw [hbreakpoints, himage]
      exact hpatched.saved
    · rw [hbreakpoints, hmemory, himage]
      exact hpatched.memory
  · rcases List.mem_cons.mp (hlog ▸ hmem) with rfl | hmem
    · exact hfaithful
    · exact hs.faithful (hback horderly) entry' hmem

/-- A change of one record, disabled before and after. -/
theorem Sound.of_disabled {key : Address} (hs : Sound arch T s)
    (hfind : ∀ key', key' ≠ key →
      t.debugger.breakpoints.find? key' = s.debugger.breakpoints.find? key')
    (hbefore : ∀ r, s.debugger.breakpoints.find? key = some r → r.enabled = false)
    (hafter : ∀ r, t.debugger.breakpoints.find? key = some r → r.enabled = false)
    (htarget : t.target = s.target) (hlog : t.log = s.log) : Sound arch T t := by
  have hne : ∀ {key' r}, t.debugger.breakpoints.find? key' = some r → r.enabled = true →
      key' ≠ key ∧ s.debugger.breakpoints.find? key' = some r := by
    intro key' r hr henabled
    have hkey : key' ≠ key := by
      rintro rfl
      rw [hafter r hr] at henabled
      cases henabled
    exact ⟨hkey, (hfind key' hkey).symm.trans hr⟩
  refine ⟨fun horderly => ?_, ?_⟩
  · have hpatched := hs.patched (hlog ▸ horderly)
    refine ⟨fun key' r hr henabled => ?_, fun key' r hr henabled => ?_, ?_⟩
    · rw [hlog]
      exact hpatched.armed key' r (hne hr henabled).2 henabled
    · rw [htarget]
      exact hpatched.saved key' r (hne hr henabled).2 henabled
    · rw [htarget]
      intro x hx
      rw [hpatched.memory hx, patchedByte_disabled _ hfind hbefore hafter]
  · rw [hlog]
    exact hs.faithful

end Frame

/-! ### The moves that do -/

section Moves

variable {s : State R D}

/-- While the environment moves, the text changes only by a new program, and not under a trap. -/
theorem Sound.enter (henv : env.LeavesText T) (hs : Sound arch T s) :
    Sound arch T (env.enter s) := by
  refine ⟨fun horderly => ?_, fun horderly entry hmem => ?_⟩
  · have hpatched := hs.patched (orderly_of_enter horderly)
    have harmed : ∀ key r, s.debugger.breakpoints.find? key = some r → r.enabled = true →
        armed key (env.enter s).log = true := fun key r hr henabled =>
      (armed_enter horderly key).trans (hpatched.armed key r hr henabled)
    by_cases hexec : ∃ tid, TargetEvent.exec tid ∈ (env.interfere s.tick s.target).1
    · obtain ⟨tid, hexec⟩ := hexec
      have hdisabled : ∀ key r, s.debugger.breakpoints.find? key = some r → r.enabled = false := by
        intro key r hr
        by_contra henabled
        have harmed := hpatched.armed key r hr (by simpa using henabled)
        exact Orderly.no_exec harmed (enter_log env s ▸ horderly) tid hexec
      refine ⟨harmed, fun key r hr henabled => ?_, fun x hx => ?_⟩
      · rw [hdisabled key r hr] at henabled
        cases henabled
      · rw [enter_debugger, patchedByte_of_not_enabled (hdisabled _)]
        exact henv.exec _ _ tid hexec hx
    · have hcalm := henv.calm s.tick s.target fun tid htid => hexec ⟨tid, htid⟩
      refine ⟨harmed, fun key r hr henabled => ?_, fun x hx => ?_⟩
      · obtain ⟨haligned, htext⟩ := horderly.of_armed (harmed key r hr henabled)
        rw [hpatched.saved key r hr henabled]
        refine bytesAt_congr fun i hi => (hcalm.2 (htext _ ?_)).symm
        exact blockOf_add arch.breakpointSize_dvd haligned hi
      · calc (env.enter s).target.memory x = s.target.memory x := hcalm.1 hx
          _ = patchedByte arch s.debugger.breakpoints s.target.image x := hpatched.memory hx
          _ = _ := (patchedByte_congr _ (hcalm.2 hx)).symm
  · rw [enter_log] at hmem
    rcases List.mem_append.mp hmem with hmem | hmem
    · obtain ⟨event, -, rfl⟩ := List.mem_map.mp hmem
      trivial
    · exact hs.faithful (orderly_of_enter horderly) entry hmem

theorem Sound.arming {key : Address} (hs : Sound arch T s) :
    Sound arch T (s.logged (.arming key)) := by
  refine ⟨fun horderly => ?_, fun horderly entry hmem => ?_⟩
  · have hpatched := hs.patched horderly.of_cons
    refine ⟨fun key' r hr henabled => ?_, hpatched.saved, hpatched.memory⟩
    simp [State.logged, armed, hpatched.armed key' r hr henabled]
  · rcases List.mem_cons.mp hmem with rfl | hmem
    · trivial
    · exact hs.faithful horderly.of_cons entry hmem

theorem Sound.abandon {key : Address} {r : Breakpoint} (hs : Sound arch T s)
    (hr : s.debugger.breakpoints.find? key = some r) (hdisabled : r.enabled = false) :
    Sound arch T (s.logged (.disarmed key)) := by
  refine ⟨fun horderly => ?_, fun horderly entry hmem => ?_⟩
  · have hpatched := hs.patched horderly.of_cons
    refine ⟨fun key' r' hr' henabled => ?_, hpatched.saved, hpatched.memory⟩
    have hne : key ≠ key' := by
      rintro rfl
      obtain rfl := Option.some.inj (hr.symm.trans hr')
      rw [hdisabled] at henabled
      cases henabled
    simp [State.logged, armed, hne, hpatched.armed key' r' hr' henabled]
  · rcases List.mem_cons.mp hmem with rfl | hmem
    · trivial
    · exact hs.faithful horderly.of_cons entry hmem

/-- The trap goes in: the record had saved what the memory, and so the image, had there. -/
theorem Sound.arm {key : Address} {r : Breakpoint} {memory : Memory} (hs : Sound arch T s)
    (hr : s.debugger.breakpoints.find? key = some r) (hdisabled : r.enabled = false)
    (harmed : Orderly arch T s.log → armed key s.log = true)
    (hput : TrapPut arch T s key r.saved memory) :
    Sound arch T
      ((s.withMemory memory).withRecord key fun r => { r with enabled := true }) := by
  refine ⟨fun horderly => ?_, fun horderly => hs.faithful horderly⟩
  have hpatched := hs.patched horderly
  have hinserted := harmed horderly
  obtain ⟨hsaved, hmemory⟩ := hput horderly hinserted
  obtain ⟨haligned, htext⟩ := Orderly.of_armed horderly hinserted
  have hfind := find?_withRecord (s.withMemory memory) key
  refine ⟨fun key' r' hr' henabled => ?_, fun key' r' hr' henabled => ?_, fun x hx => ?_⟩
  · rw [hfind] at hr'
    split at hr'
    · rename_i heq
      exact heq ▸ hinserted
    · exact hpatched.armed key' r' hr' henabled
  · rw [hfind] at hr'
    split at hr'
    · rename_i heq
      obtain ⟨r₀, hr₀, rfl⟩ := Option.map_eq_some_iff.mp hr'
      obtain rfl := Option.some.inj (hr.symm.trans hr₀)
      subst heq
      change r.saved = _
      rw [hsaved]
      refine bytesAt_congr fun i hi => ?_
      have hblock := blockOf_add arch.breakpointSize_dvd haligned hi
      rw [hpatched.memory (htext _ hblock), patchedByte_of_not_enabled]
      · rfl
      · intro r' hr'
        rw [Architecture.trapBase, hblock, hr] at hr'
        exact (Option.some.inj hr') ▸ hdisabled
    · exact hpatched.saved key' r' hr' henabled
  · change memory x = _
    rw [hmemory x hx]
    by_cases hbase : arch.trapBase x = key
    · rw [if_pos hbase, patchedByte_of_enabled (r := { r with enabled := true }) ?_ rfl]
      rw [hfind, if_pos hbase]
      exact congrArg (Option.map _) hr
    · rw [if_neg hbase, hpatched.memory hx]
      refine (patchedByte_of_ne (fun key' hne => ?_) hbase).symm
      rw [hfind, if_neg hne]
      rfl

/-- The saved bytes, which are the image's, go back. -/
theorem Sound.lifted {key : Address} {r : Breakpoint} {memory : Memory} (hs : Sound arch T s)
    (hformed : WellFormed arch s.debugger.breakpoints)
    (hr : s.debugger.breakpoints.find? key = some r) (henabled : r.enabled = true)
    (hput : SavedPut arch T s key r.saved memory) : Sound arch T (s.lifted key r memory) := by
  have hlength := (hformed key r hr).2.2 henabled
  have hfind := find?_withRecord (s.withMemory memory) key
  have hafter : ∀ r', (s.lifted key r memory).debugger.breakpoints.find? key = some r' →
      r'.enabled = false := by
    intro r' hr'
    have hr'' := (hfind key _).symm.trans hr'
    rw [if_pos rfl] at hr''
    obtain ⟨r₀, -, rfl⟩ := Option.map_eq_some_iff.mp hr''
    rfl
  have hother : ∀ key', key' ≠ key → (s.lifted key r memory).debugger.breakpoints.find? key'
      = s.debugger.breakpoints.find? key' := fun key' hne =>
    (hfind key' _).trans (if_neg hne)
  refine ⟨fun horderly => ?_, fun horderly entry hmem => ?_⟩
  · have horderlys : Orderly arch T s.log := horderly
    have hpatched := hs.patched horderlys
    have harmed := hpatched.armed key r hr henabled
    have hmemory := hput horderlys harmed
    refine ⟨fun key' r' hr' henabled' => ?_, fun key' r' hr' henabled' => ?_, fun x hx => ?_⟩
    · have hne : key ≠ key' := by
        rintro rfl
        rw [hafter r' hr'] at henabled'
        cases henabled'
      have hold := hpatched.armed key' r' ((hother key' (Ne.symm hne)).symm.trans hr') henabled'
      change armed key' (.disarmed key :: .restored key r.saved _ :: s.log) = true
      simp [armed, hne, hold]
    · have hne : key' ≠ key := by
        rintro rfl
        rw [hafter r' hr'] at henabled'
        cases henabled'
      exact hpatched.saved key' r' ((hother key' hne).symm.trans hr') henabled'
    · change memory x = patchedByte arch _ s.target.image x
      rw [hmemory x hx]
      by_cases hbase : arch.trapBase x = key
      · rw [if_pos hbase, patchedByte_of_not_enabled (hbase ▸ hafter),
          hpatched.saved key r hr henabled, getD_bytesAt_block _ arch.breakpointSize_dvd hbase]
      · rw [if_neg hbase, hpatched.memory hx, patchedByte_of_ne hother hbase]
  · have horderlys : Orderly arch T s.log := horderly
    rcases List.mem_cons.mp hmem with rfl | hmem
    · trivial
    rcases List.mem_cons.mp hmem with rfl | hmem
    · have hsaved := (hs.patched horderlys).saved key r hr henabled
      change r.saved = bytesAt s.target.image key r.saved.length
      rw [hlength]
      exact hsaved
    · exact hs.faithful horderlys entry hmem

theorem Sound.write {address value : Address} (hs : Sound arch T s) :
    Sound arch T ((s.withMemory (setWord s.target.memory address value)).logged
      (.userWrote address)) := by
  refine ⟨fun horderly => ?_, fun horderly entry hmem => ?_⟩
  · have hpatched := hs.patched horderly.1
    refine ⟨hpatched.armed, hpatched.saved, fun x hx => ?_⟩
    have hfar := horderly.2 x hx
    change setWord s.target.memory address value x = _
    rw [setWord, if_neg (by omega)]
    exact hpatched.memory hx
  · rcases List.mem_cons.mp hmem with rfl | hmem
    · trivial
    · exact hs.faithful horderly.1 entry hmem

end Moves

/-! ### Every move -/

theorem Move.wellFormed {kind : Kind} {s t : State R D} (hmove : Move arch env T kind s t)
    (hformed : WellFormed arch s.debugger.breakpoints) :
    WellFormed arch t.debugger.breakpoints := by
  cases hmove with
  | book _ hbreakpoints => exact hbreakpoints ▸ hformed
  | threads _ hbreakpoints => exact hbreakpoints ▸ hformed
  | insert _ hfresh henabled hpending =>
      intro key r hr
      rw [State.withDebugger, SortedMap.find?_insert] at hr
      split at hr
      · rename_i heq
        obtain rfl := Option.some.inj hr
        exact ⟨heq.symm, hpending, by simp [henabled]⟩
      · exact hformed key r hr
  | erase _ hdisabled =>
      intro key r hr
      rw [State.withDebugger, SortedMap.find?_erase] at hr
      split at hr
      · cases hr
      · exact hformed key r hr
  | save _ hr hdisabled =>
      refine hformed.modify fun r' hr' => ⟨rfl, rfl, ?_⟩
      obtain rfl := Option.some.inj (hr.symm.trans hr')
      simp [hdisabled]
  | arm _ hr hdisabled hlength =>
      refine hformed.modify fun r' hr' => ⟨rfl, rfl, ?_⟩
      obtain rfl := Option.some.inj (hr.symm.trans hr')
      exact fun _ => hlength
  | force _ hr | lift _ hr => exact hformed.modify fun r' hr' => ⟨rfl, rfl, by simp⟩
  | _ => exact hformed

theorem Move.sound (henv : env.LeavesText T) {kind : Kind} {s t : State R D}
    (hmove : Move arch env T kind s t) (hformed : WellFormed arch s.debugger.breakpoints)
    (hs : Sound arch T s) : Sound arch T t := by
  cases hmove with
  | enter => exact hs.enter henv
  | say _ hentry =>
      have hplain := Entry.isPlain_of_isSaid hentry
      exact hs.of_logged rfl rfl rfl rfl hplain.1 hplain.2
  | report _ hentry =>
      have hplain := Entry.isPlain_of_isReport hentry
      exact hs.of_logged rfl rfl rfl rfl hplain.1 hplain.2
  | stepping _ hentry =>
      have hplain := Entry.isPlain_of_isStepping hentry
      exact hs.of_logged rfl rfl rfl rfl hplain.1 hplain.2
  | book _ hbreakpoints => exact hs.of_eq hbreakpoints rfl rfl rfl
  | threads _ hbreakpoints => exact hs.of_eq hbreakpoints rfl rfl rfl
  | regs | task | take | close => exact hs.of_eq rfl rfl rfl rfl
  | resume | release | userEnabled | userDisabled =>
      exact hs.of_logged rfl rfl rfl rfl rfl trivial
  | insert _ hfresh henabled =>
      refine hs.of_disabled (fun key' hne => SortedMap.find?_insert_of_ne _ _ hne) ?_ ?_ rfl rfl
      · simp [hfresh]
      · intro r hr
        obtain rfl := Option.some.inj ((SortedMap.find?_insert_self _ _ _).symm.trans hr)
        exact henabled
  | erase _ hdisabled =>
      refine hs.of_disabled (fun key' hne => ?_) hdisabled ?_ rfl rfl
      · exact (SortedMap.find?_erase _ _ _).trans (if_neg hne)
      · intro r hr
        cases ((SortedMap.find?_erase _ _ _).trans (if_pos rfl)).symm.trans hr
  | arming => exact hs.arming
  | save _ hr hdisabled =>
      refine hs.of_disabled (fun key' hne => SortedMap.find?_modify_of_ne _ _ hne) ?_ ?_ rfl rfl
      · intro r' hr'
        exact (Option.some.inj (hr.symm.trans hr')) ▸ hdisabled
      · intro r' hr'
        have hmodified := (SortedMap.find?_modify_self _ _ _).symm.trans hr'
        rw [hr] at hmodified
        exact (Option.some.inj hmodified) ▸ hdisabled
  | arm _ hr hdisabled _ hput harmed => exact hs.arm hr hdisabled harmed hput
  | abandon _ hr hdisabled => exact hs.abandon hr hdisabled
  | armWild _ hwild =>
      exact ⟨fun horderly => absurd horderly hwild, fun horderly => absurd horderly hwild⟩
  | force _ hr henabled hput => exact hs.lifted hformed hr henabled hput
  | lift _ hr henabled hput => exact hs.lifted hformed hr henabled hput
  | liftWild _ _ hr henabled hwild =>
      refine ⟨fun horderly => ?_, hs.faithful⟩
      exact absurd ⟨horderly, (hs.patched horderly).armed _ _ hr henabled⟩ hwild
  | write => exact hs.write

/-! ### Runs -/

theorem Moves.wellFormed {kinds : List Kind} {s t : State R D}
    (hmoves : Moves arch env T kinds s t) (hformed : WellFormed arch s.debugger.breakpoints) :
    WellFormed arch t.debugger.breakpoints :=
  hmoves.preserve (I := fun u => WellFormed arch u.debugger.breakpoints)
    (fun _ _ _ _ hmove hu => hmove.wellFormed hu) hformed

theorem Moves.sound (henv : env.LeavesText T) {kinds : List Kind} {s t : State R D}
    (hmoves : Moves arch env T kinds s t) (hformed : WellFormed arch s.debugger.breakpoints)
    (hs : Sound arch T s) : Sound arch T t :=
  (hmoves.preserve (I := fun u => WellFormed arch u.debugger.breakpoints ∧ Sound arch T u)
    (fun _ _ _ _ hmove hu => ⟨hmove.wellFormed hu.1, hmove.sound henv hu.1 hu.2⟩)
    ⟨hformed, hs⟩).2

theorem wellFormed_empty : WellFormed arch SortedMap.empty := by
  intro key r hr
  cases hr

theorem patchedByte_empty (image : Memory) (x : Address) :
    patchedByte arch SortedMap.empty image x = image x := rfl

/-- A session starts with an empty table and a memory that is the image. -/
theorem sound_of_empty {s : State R D} (hempty : s.debugger.breakpoints = SortedMap.empty)
    (himage : Set.EqOn s.target.memory s.target.image T) (hlog : s.log = []) :
    Sound arch T s := by
  refine ⟨fun _ => ⟨fun key r hr => ?_, fun key r hr => ?_, fun x hx => ?_⟩, fun _ entry hmem => ?_⟩
  · rw [hempty] at hr
    cases hr
  · rw [hempty] at hr
    cases hr
  · rw [hempty, patchedByte_empty]
    exact himage hx
  · rw [hlog] at hmem
    cases hmem

/-- All a session does is moves, from the fork of its process on. -/
theorem Visited.moves (henv : env.LeavesText T) {child : Tid} {target : Target R D}
    {s : State R D} (hs : Visited arch env (State.initial child target) s) :
    Moves arch env T (commanding ++ [.release, .close]) (State.initial child target) s := by
  refine (hs.related (Q := Runs arch env T (commanding ++ [.release, .close])) ?_ ?_ ?_ ?_).1
  · exact (does_openSession henv).mono (by decide)
  · exact fun line => (does_dispatch henv line).mono (by decide)
  · exact (does_detach henv).mono (by decide)
  · exact wellFormed_empty

theorem Prompt.moves (henv : env.LeavesText T) {child : Tid} {target : Target R D}
    {s : State R D} (hs : Prompt arch env (State.initial child target) s) :
    Moves arch env T commanding (State.initial child target) s := by
  refine (hs.related (Q := Runs arch env T commanding) ?_ ?_ ?_).1
  · exact (does_openSession henv).mono (by decide)
  · exact fun line => does_dispatch henv line
  · exact wellFormed_empty

theorem Prompt.wellFormed {child : Tid} {target : Target R D} {s : State R D}
    (hs : Prompt arch env (State.initial child target) s) :
    WellFormed arch s.debugger.breakpoints :=
  (hs.moves (Environment.leavesText_empty env)).wellFormed wellFormed_empty

end Cosy
