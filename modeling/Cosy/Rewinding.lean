import Cosy.Announcements
import Cosy.Attending
import Cosy.Fixups
import Cosy.Resolving

/-!
# Back at the breakpoint

A thread that has run into an inserted trap is set back to the breakpoint when its stop is reported,
and nowhere else. So it goes on from the breakpoint as long as every such stop is reported: nothing
throws between taking the stop from `waitpid` and reporting it, and no source step passes over it
because the line is still the same.
-/

namespace Cosy

open ByteMemory Effect

variable {R D α : Type} {arch : Architecture R D} {env : Environment R D} {s t u : State R D}
  {tid : Tid} {address : Address}

/-! ### Hits -/

/-- The breakpoint whose inserted trap has brought this stop about, if one has and the thread is right
behind it. -/
def hitBy (arch : Architecture R D) (older : List Entry) (tid : Tid) :
    WaitStatus → Option Address → Option Address
  | .stopped signal _, some current =>
      let address := arch.candidate current
      if signal = sigtrap ∧ arch.pcAfterTrap address = current ∧
          causedByTrap tid address older = true then some address
      else none
  | _, _ => none

/-- The thread and the breakpoint of a hit that `wait_and_report` has consumed. -/
def hitConsumed (arch : Architecture R D) (older : List Entry) : Entry → Option (Tid × Address)
  | .consumed .waitAndReport tid status pc =>
      (hitBy arch older tid status pc).map fun address => (tid, address)
  | _ => none

/-- The oldest entry first: the thread is set back to the breakpoint before it is resumed, if it is. -/
def setBackFirst (tid : Tid) (address : Address) : List Entry → Bool
  | [] => true
  | entry :: later =>
      entry.setsBack tid address || (!entry.resumes tid && setBackFirst tid address later)

/-- After each hit that was consumed the thread is set back first. `later` is what follows in the log,
the oldest entry first. -/
def hitsSetBack (arch : Architecture R D) (later : List Entry) : List Entry → Bool
  | [] => true
  | entry :: older =>
      hitsSetBack arch (entry :: later) older &&
        (hitConsumed arch older entry).all fun hit => setBackFirst hit.1 hit.2 later

section Conditions

variable (arch env)

/-- The prompts of the sessions in which every command is one that may be given where it is. -/
inductive PromptWhere (may : Text → State R D → Bool) (start : State R D) : State R D → Prop
  | opened {s : State R D} (hrun : openSession arch env start = .ok ⟨⟩ s) : PromptWhere may start s
  | command {s t : State R D} (line : Text) (hs : PromptWhere may start s) (hmay : may line s = true)
      (hrun : dispatch arch env line s = .ok true t) : PromptWhere may start t

end Conditions

theorem PromptWhere.prompt {may : Text → State R D → Bool} {start : State R D}
    (hs : PromptWhere arch env may start s) : Prompt arch env start s := by
  induction hs with
  | opened hrun => exact .opened hrun
  | command line _ _ hrun ih => exact .command line ih hrun

theorem isAwaited_of_hitConsumed {older : List Entry} {entry : Entry} {hit : Tid × Address}
    (hhit : hitConsumed arch older entry = some hit) : entry.isAwaited = true := by
  cases entry with
  | consumed site tid status pc =>
      cases site with
      | stepOver => cases hhit
      | waitAndReport =>
          cases status with
          | stopped signal event => rfl
          | _ => cases hhit
  | _ => cases hhit

/-- After each hit the thread was set back, and not resumed before. -/
def AllSetBack (arch : Architecture R D) (log : List Entry) : Prop :=
  ∀ newer entry older hit, log = newer ++ entry :: older → hitConsumed arch older entry = some hit →
    ∃ later earlier, newer = later ++ .setPc hit.1 hit.2 :: earlier ∧
      ∀ other ∈ earlier, other.resumes hit.1 = false

section Log

variable {log newer : List Entry}

theorem AllSetBack.append (hlog : AllSetBack arch log)
    (hnewer : ∀ entry ∈ newer, entry.isAwaited = false) : AllSetBack arch (newer ++ log) := by
  intro newest entry older hit heq hhit
  rcases mem_or_of_append_eq heq with hmem | ⟨between, rfl, hrest⟩
  · cases (hnewer entry hmem).symm.trans (isAwaited_of_hitConsumed hhit)
  · obtain ⟨later, earlier, rfl, hearlier⟩ := hlog between entry older hit hrest hhit
    exact ⟨newer ++ later, earlier, (List.append_assoc _ _ _).symm, hearlier⟩

/-- An entry that consumes no hit may be any. -/
theorem AllSetBack.cons {entry : Entry} (hlog : AllSetBack arch log)
    (hentry : hitConsumed arch log entry = none) : AllSetBack arch (entry :: log) := by
  intro newest entry' older hit heq hhit
  cases newest with
  | nil =>
      obtain ⟨rfl, rfl⟩ := List.cons.inj heq
      cases hentry.symm.trans hhit
  | cons first newest =>
      obtain ⟨rfl, hrest⟩ := List.cons.inj heq
      obtain ⟨later, earlier, rfl, hearlier⟩ := hlog newest entry' older hit hrest hhit
      exact ⟨entry :: later, earlier, rfl, hearlier⟩

/-- A hit is consumed, and dealt with by what follows. -/
theorem AllSetBack.hit {entry : Entry} {later earlier : List Entry} {hit : Tid × Address}
    (hlog : AllSetBack arch log) (hhit : hitConsumed arch log entry = some hit)
    (hlater : ∀ other ∈ later, other.isAwaited = false)
    (hearlier : ∀ other ∈ earlier, other.isIdle = true) :
    AllSetBack arch (later ++ .setPc hit.1 hit.2 :: (earlier ++ entry :: log)) := by
  have hback : AllSetBack arch (.setPc hit.1 hit.2 :: (earlier ++ entry :: log)) := by
    intro newest entry' older hit' heq hhit'
    have hnew : .setPc hit.1 hit.2 :: earlier ++ entry :: log = newest ++ entry' :: older := heq
    rcases mem_or_of_append_eq hnew with hmem | ⟨between, rfl, hrest⟩
    · have hawaited := isAwaited_of_hitConsumed hhit'
      rcases List.mem_cons.mp hmem with rfl | hmem
      · cases hawaited
      · have hidle := hearlier entry' hmem
        cases entry' <;> first | cases hawaited | cases hidle
    cases between with
    | nil =>
        obtain ⟨rfl, rfl⟩ := List.cons.inj hrest
        obtain rfl := Option.some.inj (hhit.symm.trans hhit')
        refine ⟨[], earlier, by simp, fun other hmem => ?_⟩
        have hidle := hearlier other hmem
        cases other <;> first | rfl | cases hidle
    | cons first between =>
        obtain ⟨rfl, htail⟩ := List.cons.inj hrest
        obtain ⟨later', earlier', rfl, hearlier'⟩ := hlog between entry' older hit' htail hhit'
        exact ⟨.setPc hit.1 hit.2 :: earlier ++ entry :: later', earlier', by simp, hearlier'⟩
  exact hback.append hlater

theorem setBackFirst_of_split {later rest : List Entry}
    (hrest : ∀ entry ∈ rest, entry.resumes tid = false) :
    setBackFirst tid address (rest ++ .setPc tid address :: later) = true := by
  induction rest with
  | nil => simp [setBackFirst, Entry.setsBack]
  | cons entry rest ih =>
      have hothers := ih fun other hmem => hrest other (List.mem_cons_of_mem _ hmem)
      simp [setBackFirst, hrest entry List.mem_cons_self, hothers]

theorem AllSetBack.hitsSetBack {older : List Entry} :
    ∀ later : List Entry, AllSetBack arch (later.reverse ++ older) →
      hitsSetBack arch later older = true := by
  induction older with
  | nil => exact fun _ _ => rfl
  | cons entry older ih =>
      intro later hlog
      have hearlier := ih (entry :: later) (by simpa using hlog)
      rw [Cosy.hitsSetBack, hearlier, Bool.true_and]
      cases hhit : hitConsumed arch older entry with
      | none => rfl
      | some hit =>
          obtain ⟨newest, rest, hsplit, hrest⟩ := hlog _ entry older hit rfl hhit
          have hlater : later = rest.reverse ++ .setPc hit.1 hit.2 :: newest.reverse := by
            rw [← List.reverse_reverse later, hsplit]
            simp
          rw [Option.all_some, hlater]
          exact setBackFirst_of_split fun other hmem => hrest other (List.mem_reverse.mp hmem)

end Log

/-! ### What consumes no hit -/

/-- The table is well formed, and every hit that was consumed has been dealt with. -/
structure State.Rewound (arch : Architecture R D) (s : State R D) : Prop where
  formed : WellFormed arch s.debugger.breakpoints
  log : AllSetBack arch s.log

theorem State.Rewound.of_appends (hs : s.Rewound arch) (hformed : WellFormed arch t.debugger.breakpoints)
    (hst : Appends (fun entry => entry.isAwaited = false) s t) : t.Rewound arch := by
  obtain ⟨newer, hlog, hnewer⟩ := hst
  exact ⟨hformed, hlog ▸ hs.log.append hnewer⟩

/-- A hit has been consumed, and since then nothing was done but to look for modules. -/
structure Owing (arch : Architecture R D) (tid : Tid) (address : Address) (s : State R D) :
    Prop where
  formed : WellFormed arch s.debugger.breakpoints
  alive : s.debugger.alive = true
  selected : s.debugger.selectedTid = tid
  recorded : s.debugger.threads.find? tid = some ⟨tid, true, sigtrap⟩
  known : s.debugger.breakpoints.contains address = true
  stopped : s.target.stoppedAt arch tid = some (arch.pcAfterTrap address)
  log : ∃ newer consumed older, s.log = newer ++ consumed :: older ∧
    (∀ entry ∈ newer, entry.isIdle = true) ∧ hitConsumed arch older consumed = some (tid, address) ∧
    AllSetBack arch older

/-- It is still to be reported after what neither resumes a thread nor forgets a breakpoint. -/
theorem Owing.idles (hs : Owing arch tid address s) (hidles : Idles s t)
    (hformed : WellFormed arch t.debugger.breakpoints)
    (hknown : t.debugger.breakpoints.contains address = true)
    (hstopped : t.target.stoppedAt arch tid = some (arch.pcAfterTrap address)) :
    Owing arch tid address t := by
  obtain ⟨newer, consumed, older, hlog, hnewer, hhit, holder⟩ := hs.log
  obtain ⟨newest, hnewest, hidle⟩ := hidles.log
  refine ⟨hformed, hidles.alive.trans hs.alive, hidles.selected.trans hs.selected,
    hidles.threads _ _ hs.recorded, hknown, hstopped, newest ++ newer, consumed, older, ?_, ?_, hhit,
    holder⟩
  · rw [hnewest, hlog, List.append_assoc]
  · exact fun entry hmem => (List.mem_append.mp hmem).elim (hidle entry) (hnewer entry)

/-- The report of a hit sets the thread back. -/
theorem Owing.reportStop (hreliable : env.Reliable) (hs : Owing arch tid address s) :
    (endState (reportStop arch env tid) s).Rewound arch := by
  have henv := Environment.leavesText_empty env
  refine ⟨(does_reportStop henv tid s hs.formed).2, ?_⟩
  obtain ⟨newer, consumed, older, hlog, hnewer, hhit, holder⟩ := hs.log
  have hsignal : s.debugger.stopSignal tid = some sigtrap := by
    simp only [Debugger.stopSignal, hs.recorded, hs.alive, Bool.and_self, if_true]
  let reporting := s.logged (s.reportOf arch tid)
  have hmanages : ManagesWithin arch env (Rested (R := R) (D := D)) := rested_manages
  obtain ⟨block, hblock, hidle⟩ := (hmanages.tends.printStop tid reporting).log
  have hrewinds := printStop_rewinds hreliable tid reporting block hblock hs.formed
  have hset : Entry.setPc tid address ∈ block := by
    have hmem := hrewinds.2 hsignal _ hs.stopped
    rw [arch.candidate_pcAfterTrap] at hmem
    exact hmem hs.known
  obtain ⟨later, earlier, rfl⟩ := List.append_of_mem hset
  rw [endState_reportStop, hblock]
  have hsplit : Entry.reported tid :: (later ++ .setPc tid address :: earlier ++ reporting.log)
      = (.reported tid :: later) ++ .setPc tid address ::
        ((earlier ++ s.reportOf arch tid :: newer) ++ consumed :: older) := by
    simp [reporting, State.logged, hlog]
  rw [hsplit]
  refine holder.hit hhit (fun entry hmem => ?_) fun entry hmem => ?_
  · rcases List.mem_cons.mp hmem with rfl | hmem
    · rfl
    · exact Entry.isAwaited_of_isIdle (hidle entry (List.mem_append_left _ hmem))
  · rcases List.mem_append.mp hmem with hmem | hmem
    · exact hidle entry (List.mem_append_right _ (List.mem_cons_of_mem _ hmem))
    · rcases List.mem_cons.mp hmem with rfl | hmem
      · rfl
      · exact hnewer entry hmem

/-! ### Looking for modules meanwhile -/

/-- What looking for modules does to the tables. -/
def arriving : List EditKind := [.aside, .refresh, .patch, .create false, .settle]

/-- No record is lost. -/
theorem Edit.known {maps : Set ModuleManager} {ids : Set Int} {kind : EditKind} {d d' : Debugger}
    (hedit : Edit maps ids kind d d') (hkind : kind ∈ arriving)
    (hknown : d.breakpoints.contains address = true) : d'.breakpoints.contains address = true := by
  obtain ⟨r, hr⟩ := SortedMap.contains_eq_true_iff.mp hknown
  cases hedit with
  | aside hbreakpoints => rwa [hbreakpoints]
  | refresh | settle => exact hknown
  | patch key =>
      refine SortedMap.contains_eq_true_iff.mpr ?_
      rw [Debugger.withRecord, SortedMap.find?_modify]
      split
      · rename_i heq
        exact ⟨_, by rw [← heq, hr, Option.map_some]⟩
      · exact ⟨r, hr⟩
  | create hfresh =>
      refine SortedMap.contains_eq_true_iff.mpr ?_
      rw [SortedMap.find?_insert]
      split
      · exact ⟨_, rfl⟩
      · exact ⟨r, hr⟩
  | defer | expire | remove | dismiss => simp [arriving] at hkind

theorem Makes.known {m : Dbg R D α} (hm : Makes env Set.univ ∅ arriving m) :
    Within (Keeps fun s : State R D => s.debugger.breakpoints.contains address = true) m :=
  fun s hs => (hm s).preserve (fun _ hkind _ _ hedit => hedit.known hkind) (mapsOnly_univ _ _) hs

/-- The thread is found, and the hit is still to be reported. -/
theorem Owing.selectedLocation (hreliable : env.Reliable) (hs : Owing arch tid address s) :
    ∃ after t, selectedLocation arch env s = .ok after t ∧ Owing arch tid address t := by
  obtain ⟨task, htask, hflag, hpc⟩ := find?_of_stoppedAt hs.stopped
  have hrun : Cosy.selectedLocation arch env s
      = .ok ((env.enter s).debugger.modules.location (arch.pc task.regs)) (env.enter s) := by
    rw [Cosy.selectedLocation, get_bind_apply, hs.selected, bind_ok (hreliable.pc htask hflag)]
    rfl
  have htends : TendsWithin arch env (Idles (R := R) (D := D)) := idles_tends
  refine ⟨_, _, hrun, hs.idles (htends.selectedLocation.of_ok hrun) hs.formed hs.known ?_⟩
  exact stoppedAt_of_stopsKept (hreliable.steady _ _) hs.stopped

end Cosy
