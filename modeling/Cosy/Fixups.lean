import Cosy.Reports

/-!
# What is taken for a hit

A thread that executes an inserted trap stops behind it, and `print_stop` sets the program counter
back. It does so as well for any other `SIGTRAP` stop behind a record, whether the record is enabled
or not: so that nothing is taken for a hit which is none, no other stop may come to stand there.
-/

namespace Cosy

open ByteMemory Effect

variable {R D : Type} {arch : Architecture R D} {env : Environment R D}

/-! ### The cause of a stop -/

def TargetEvent.tid : TargetEvent → Tid
  | .executed tid _ | .trapped tid _ | .exec tid | .other tid => tid

/-- Whether the last thing the thread did was to execute the trap inserted at this address, in the
program it was inserted in. -/
def causedByTrap (tid : Tid) (address : Address) : List Entry → Bool
  | [] => false
  | .target event :: older =>
      if event.tid = tid then
        match event with
        | .trapped _ found => found = address && armed address older
        | _ => false
      else causedByTrap tid address older
  | _ :: older => causedByTrap tid address older

/-! ### No other stop is taken for a hit -/

/-- Whatever the report that ends here did about a record, an enabled one's trap was the cause of
the stop. -/
def soundReport (log : List Entry) : Bool :=
  match log.dropWhile fun entry => !entry.opensReport with
  | .reporting tid _ breakpoints _ :: older =>
      (log.takeWhile fun entry => !entry.opensReport).all fun entry =>
        !entry.isAct || breakpoints.entries.any fun record =>
          record.2.enabled && entry.actsOn record.1 && causedByTrap tid record.1 older
  | _ => true

def fixupsSound : List Entry → Bool
  | [] => true
  | .reported _ :: log => fixupsSound log && soundReport log
  | _ :: log => fixupsSound log

/-- Whether a thread that has come to stand here may be reported as stopped by a `SIGTRAP`. If an
inserted trap has stopped it, the breakpoint has not been disabled since. If it was anything else, a
step, an event, a watchpoint or a trap of the program's own, no record is one trap's length behind. -/
def standsClear (arch : Architecture R D) (tid : Tid) (breakpoints : SortedMap Address Breakpoint)
    (current : Address) (older : List Entry) : Bool :=
  if causedByTrap tid (arch.candidate current) older then
    (breakpoints.find? (arch.candidate current)).all Breakpoint.enabled
  else !breakpoints.contains (arch.candidate current)

/-- Every thread for which a `SIGTRAP` was reported stood where it could be. -/
def reportsClear (arch : Architecture R D) : List Entry → Bool
  | [] => true
  | .reporting tid signal breakpoints stoppedAt :: older =>
      reportsClear arch older && (signal ≠ some sigtrap ||
        stoppedAt.any fun current => standsClear arch tid breakpoints current older)
  | _ :: older => reportsClear arch older

/-- With a record one trap's length behind it, a thread stands there as it should only if it has run
into the trap of that record. -/
theorem standsClear_iff {tid : Tid} {breakpoints : SortedMap Address Breakpoint} {current : Address}
    {older : List Entry} {r : Breakpoint}
    (hr : breakpoints.find? (arch.candidate current) = some r) :
    standsClear arch tid breakpoints current older = true ↔
      r.enabled = true ∧ causedByTrap tid (arch.candidate current) older = true := by
  have hcontains : breakpoints.contains (arch.candidate current) = true :=
    SortedMap.contains_eq_true_iff.mpr ⟨r, hr⟩
  unfold standsClear
  rw [hr, hcontains, Option.all_some]
  split
  · rename_i hcause
    simp [hcause]
  · rename_i hcause
    simp [hcause]

theorem fixupsSound_append {newer : List Entry} (log : List Entry)
    (hnewer : ∀ entry ∈ newer, entry.closesReport = false) :
    fixupsSound (newer ++ log) = fixupsSound log := by
  refine eq_append_of_skipped (fun entry _ hentry => ?_) log hnewer
  cases entry <;> first | rfl | cases hentry

theorem reportsClear_append {newer : List Entry} (log : List Entry)
    (hnewer : ∀ entry ∈ newer, entry.opensReport = false) :
    reportsClear arch (newer ++ log) = reportsClear arch log := by
  refine eq_append_of_skipped (fun entry _ hentry => ?_) log hnewer
  cases entry <;> first | rfl | cases hentry

theorem soundReport_of_acts {opening : Entry} {block log : List Entry}
    (hopening : opening.opensReport = true)
    (hinside : ∀ entry ∈ block, entry.opensReport = false)
    (hacts : ActsOnRecord arch opening block) (hclear : reportsClear arch (opening :: log) = true) :
    soundReport (block ++ opening :: log) = true := by
  have hnot : ∀ entry ∈ block, (!entry.opensReport) = true := fun entry hmem => by
    rw [hinside entry hmem]
    rfl
  have hdrop : (block ++ opening :: log).dropWhile (fun entry => !entry.opensReport)
      = opening :: log := by
    rw [List.dropWhile_append_of_pos hnot, List.dropWhile_cons_of_neg (by simp [hopening])]
  have htake : (block ++ opening :: log).takeWhile (fun entry => !entry.opensReport) = block := by
    rw [List.takeWhile_append_of_pos hnot, List.takeWhile_cons_of_neg (by simp [hopening]),
      List.append_nil]
  rw [soundReport, hdrop, htake]
  cases opening with
  | reporting tid signal breakpoints stoppedAt =>
      refine List.all_eq_true.mpr fun entry hmem => ?_
      cases hact : entry.isAct with
      | false => rfl
      | true =>
          obtain ⟨hsignal, hrecord⟩ := hacts entry hmem hact
          simp only [reportsClear, hsignal, ne_eq, not_true_eq_false, decide_false,
            Bool.false_or, Bool.and_eq_true] at hclear
          obtain ⟨current, hcurrent, hstands⟩ := (Option.any_eq_true _ _).mp hclear.2
          obtain ⟨hcontains, hactsOn⟩ := hrecord current hcurrent
          obtain ⟨r, hr⟩ := SortedMap.contains_eq_true_iff.mp hcontains
          obtain ⟨henabled, hcause⟩ := (standsClear_iff hr).mp hstands
          refine List.any_eq_true.mpr ⟨(_, r), SortedMap.mem_entries_iff.mpr hr, ?_⟩
          simp [henabled, hcause, hactsOn]
  | _ => cases hopening

theorem fixupsSound_of_reportsAre {log : List Entry} (hlog : ReportsAre (ActsOnRecord arch) log)
    (hclear : reportsClear arch log = true) : fixupsSound log = true := by
  induction hlog with
  | nil => rfl
  | @single entry log hopens hcloses hlog ih =>
      rw [← List.singleton_append, reportsClear_append log (by simpa using hopens)] at hclear
      rw [← List.singleton_append, fixupsSound_append log (by simpa using hcloses)]
      exact ih hclear
  | @block opening closing block log hopening hclosing hinside hacts hlog ih =>
      have hopens := not_opensReport_of_closesReport closing hclosing
      have hearlier : reportsClear arch (opening :: log) = true := by
        have hblock : reportsClear arch (closing :: block ++ opening :: log) = true := hclear
        rw [reportsClear_append] at hblock
        · exact hblock
        · simpa [hopens] using fun entry hmem => (hinside entry hmem).1
      have hsound := soundReport_of_acts hopening (fun entry hmem => (hinside entry hmem).1) hacts
        hearlier
      have hrest : fixupsSound (block ++ opening :: log) = true := by
        rw [fixupsSound_append _ fun entry hmem => (hinside entry hmem).2]
        cases opening with
        | reporting => exact ih (by simp only [reportsClear, Bool.and_eq_true] at hearlier; exact hearlier.1)
        | _ => cases hopening
      cases closing with
      | reported => rw [fixupsSound, hrest, hsound]; rfl
      | _ => cases hclosing

theorem Visited.fixups_sound (hsteady : env.Steady) {child : Tid} {target : Target R D}
    {s : State R D} (hs : Visited arch env (State.initial child target) s)
    (hclear : reportsClear arch s.log = true) : fixupsSound s.log = true :=
  fixupsSound_of_reportsAre
    (hs.reportsAre fun tid s block hblock _ => printStop_acts hsteady tid s block hblock) hclear

/-! ### Nothing less will do -/

/-- Threads were stopped when they were reported as stopped by a `SIGTRAP`. -/
def reportsStopped : List Entry → Bool
  | [] => true
  | .reporting _ signal _ stoppedAt :: older =>
      reportsStopped older && (signal ≠ some sigtrap || stoppedAt.isSome)
  | _ :: older => reportsStopped older

theorem reportsStopped_append {newer : List Entry} (log : List Entry)
    (hnewer : ∀ entry ∈ newer, entry.opensReport = false) :
    reportsStopped (newer ++ log) = reportsStopped log := by
  refine eq_append_of_skipped (fun entry _ hentry => ?_) log hnewer
  cases entry <;> first | rfl | cases hentry

/-- A report that sets the program counter back is sound only if the thread stood where it could. -/
theorem standsClear_of_soundReport {tid : Tid} {breakpoints : SortedMap Address Breakpoint}
    {current : Address} {block log : List Entry}
    (hinside : ∀ entry ∈ block, entry.opensReport = false)
    (hrewinds : Rewinds arch (.reporting tid (some sigtrap) breakpoints (some current)) block)
    (hsound : soundReport (block ++ .reporting tid (some sigtrap) breakpoints (some current) :: log)
      = true) : standsClear arch tid breakpoints current log = true := by
  cases hr : breakpoints.find? (arch.candidate current) with
  | none =>
      have hcontains : breakpoints.contains (arch.candidate current) = false :=
        Bool.eq_false_iff.mpr fun hcontains => by
          obtain ⟨r, hfound⟩ := SortedMap.contains_eq_true_iff.mp hcontains
          cases hr.symm.trans hfound
      simp [standsClear, hr, hcontains]
  | some r =>
      have hset := hrewinds.2 rfl current rfl (SortedMap.contains_eq_true_iff.mpr ⟨r, hr⟩)
      have hnot : ∀ entry ∈ block, (!entry.opensReport) = true := fun entry hmem => by
        rw [hinside entry hmem]
        rfl
      rw [soundReport, List.dropWhile_append_of_pos hnot, List.takeWhile_append_of_pos hnot] at hsound
      obtain ⟨⟨key, r'⟩, hmem, hrecord⟩ := List.any_eq_true.mp
        ((List.all_eq_true.mp hsound) _ (List.mem_append_left _ hset))
      simp only [Entry.actsOn, Bool.and_eq_true, decide_eq_true_eq] at hrecord
      obtain ⟨⟨henabled, rfl⟩, hcause⟩ := hrecord
      obtain rfl := Option.some.inj (hr.symm.trans (SortedMap.mem_entries_iff.mp hmem))
      exact (standsClear_iff hr).mpr ⟨henabled, hcause⟩

theorem reportsClear_of_reportsAre {log : List Entry} (hlog : ReportsAre (Rewinds arch) log)
    (hstopped : reportsStopped log = true) (hsound : fixupsSound log = true) :
    reportsClear arch log = true := by
  induction hlog with
  | nil => rfl
  | @single entry log hopens hcloses hlog ih =>
      rw [← List.singleton_append, reportsStopped_append log (by simpa using hopens)] at hstopped
      rw [← List.singleton_append, fixupsSound_append log (by simpa using hcloses)] at hsound
      rw [← List.singleton_append, reportsClear_append log (by simpa using hopens)]
      exact ih hstopped hsound
  | @block opening closing block log hopening hclosing hinside hrewinds hlog ih =>
      have hopens : ∀ entry ∈ closing :: block, entry.opensReport = false := by
        simpa [not_opensReport_of_closesReport closing hclosing] using
          fun entry hmem => (hinside entry hmem).1
      cases closing with
      | reported =>
          rw [fixupsSound, Bool.and_eq_true,
            fixupsSound_append _ fun entry hmem => (hinside entry hmem).2] at hsound
          rw [← List.cons_append, reportsStopped_append _ hopens] at hstopped
          rw [← List.cons_append, reportsClear_append _ hopens]
          cases opening with
          | reporting tid signal breakpoints stoppedAt =>
              simp only [reportsStopped, Bool.and_eq_true] at hstopped
              have hearlier := ih hstopped.1 hsound.1
              rw [reportsClear, hearlier, Bool.true_and]
              by_cases hsignal : signal = some sigtrap
              · subst hsignal
                obtain ⟨current, rfl⟩ := Option.isSome_iff_exists.mp (by simpa using hstopped.2)
                simpa using standsClear_of_soundReport (fun entry hmem => (hinside entry hmem).1)
                  hrewinds hsound.2
              · simp [hsignal]
          | _ => cases hopening
      | _ => cases hclosing

/-- If the requests are answered, `print_stop` goes wrong in every other case. -/
theorem Visited.reportsClear_of_fixupsSound (hreliable : env.Reliable) {child : Tid}
    {target : Target R D} {s : State R D} (hs : Visited arch env (State.initial child target) s)
    (hstopped : reportsStopped s.log = true) (hsound : fixupsSound s.log = true) :
    reportsClear arch s.log = true := by
  have hlog : ReportsAre (Rewinds arch) s.log := hs.reportsAre fun tid s block hblock hformed =>
    printStop_rewinds hreliable tid s block hblock hformed
  exact reportsClear_of_reportsAre hlog hstopped hsound

/-! ### A disabled breakpoint behind the thread -/

/-- The program counter is set back to the breakpoint. -/
def Entry.setsBack (tid : Tid) (address : Address) : Entry → Bool
  | .setPc thread value => thread = tid && value = address
  | _ => false

theorem Visited.fixups_sound_nops :
    ∃ s, Visited x86_64 (runningMachine 4) (State.initial 1 (nopTarget 1)) s ∧
      s.log.any (fun entry => entry.setsBack 1 0x1003) = true ∧ fixupsSound s.log = true := by
  obtain ⟨s, hs, hcheck⟩ := Prompt.exists_of_runBatch x86_64 (runningMachine 4)
    (State.initial 1 (nopTarget 1)) ["b *0x1003".toList]
    (p := fun s =>
      let t := endState (dispatch x86_64 (runningMachine 4) "c".toList) s
      t.log.any (fun entry => entry.setsBack 1 0x1003) && reportsClear x86_64 t.log)
    (by decide +kernel)
  rw [Bool.and_eq_true] at hcheck
  have hvisited : Visited x86_64 (runningMachine 4) _ _ := .command "c".toList hs
  exact ⟨_, hvisited, hcheck.1,
    Visited.fixups_sound (Machine.reliable fun _ => rfl).steady hvisited hcheck.2⟩

/-- A step past a disabled breakpoint of one byte is taken for a hit, and undone. -/
theorem step_taken_for_hit :
    ∃ s, Prompt x86_64 (runningMachine 1) (State.initial 1 (nopTarget 1)) s ∧
      s.log.any (fun entry => entry.setsBack 1 0x1000) = true ∧
      s.debugger.breakpoints.entries.all (fun record => !record.2.enabled) = true ∧
      s.target.stoppedAt x86_64 1 = some 0x1000 ∧ fixupsSound s.log = false := by
  obtain ⟨s, hs, hcheck⟩ := Prompt.exists_of_runBatch x86_64 (runningMachine 1)
    (State.initial 1 (nopTarget 1)) ["b *0x1000".toList, "disable 1".toList, "si".toList]
    (p := fun s => s.log.any (fun entry => entry.setsBack 1 0x1000) &&
      s.debugger.breakpoints.entries.all (fun record => !record.2.enabled) &&
      decide (s.target.stoppedAt x86_64 1 = some 0x1000) && !fixupsSound s.log) (by decide +kernel)
  simp only [Bool.and_eq_true, decide_eq_true_eq, Bool.not_eq_true'] at hcheck
  exact ⟨s, hs, hcheck.1.1.1, hcheck.1.1.2, hcheck.1.2, hcheck.2⟩

end Cosy
