import Cosy.Lib.Notices
import Cosy.Managing
import Cosy.Programming

/-!
# Which threads know the watchpoints

A record of a watchpoint is a notice to the threads. Those that are recorded as stopped when `watch`
is given are programmed at once. The others miss it, and make up for it only when a stop by SIGSTOP
is consumed by `wait_and_report`, which briefs the thread on all the records. The log says which
threads are behind in this sense; those that are not watch for every record, in whatever order
threads are created, stopped, resumed and ended.
-/

namespace Cosy

open Effect Notices

variable {R D α : Type} {arch : Architecture R D} {env : Environment R D} {s t : State R D}
  {tid child : Tid} {late : Set Tid}

/-! ### What the log tells -/

/-- Whether a stop leads to `prepare_thread`, and the thread is there to be prepared. -/
def briefs (site : Site) (signal event : Nat) (pc : Option Address) : Bool :=
  site = .waitAndReport && signal = sigstop && event ≠ ptraceEventExec && pc.isSome

/-- What an entry means to those who are to know the watchpoints. A thread is present while it is
recorded as stopped; when it executes another program, its debug registers are lost. -/
def Entry.notice : Entry → Option (Event Tid)
  | .out (.watchpointAt _ _) => some .posted
  | .target (.exec tid) => some (.forgotten tid)
  | .resumed tid _ _ => some (.left tid)
  | .consumed site tid (.stopped signal event) pc =>
      some (.arrived tid (briefs site signal event pc))
  | .consumed _ tid (.exited _) _ | .consumed _ tid (.signaled _) _ => some (.ended tid)
  | .consumed .stepOver tid .continued _ => some (.left tid)
  | _ => none

/-- A session begins with the process that was launched, which is stopped. -/
def State.notices (child : Tid) (s : State R D) : List (Event Tid) :=
  s.log.filterMap Entry.notice ++ [.arrived child false]

theorem notices_cons {entry : Entry} {event : Event Tid} (hlog : t.log = entry :: s.log)
    (hentry : entry.notice = some event) : t.notices child = event :: s.notices child := by
  rw [State.notices, hlog, List.filterMap_cons, hentry]
  rfl

theorem notices_cons_none {entry : Entry} (hlog : t.log = entry :: s.log)
    (hentry : entry.notice = none) : t.notices child = s.notices child := by
  rw [State.notices, hlog, List.filterMap_cons, hentry]
  rfl

theorem notices_of_log (hlog : t.log = s.log) : t.notices child = s.notices child := by
  rw [State.notices, State.notices, hlog]

/-- All that is heard while the environment moves is which threads executed another program. -/
theorem notices_enter (env : Environment R D) (child : Tid) (s : State R D) :
    ∃ newer, (env.enter s).notices child = newer ++ s.notices child ∧
      (∀ event ∈ newer, ∃ other, event = .forgotten other) ∧
      ∀ tid, .forgotten tid ∈ newer ↔ .exec tid ∈ (env.interfere s.tick s.target).1 := by
  refine ⟨((env.interfere s.tick s.target).1.map Entry.target).filterMap Entry.notice, ?_, ?_, ?_⟩
  · rw [State.notices, enter_log, List.filterMap_append, List.append_assoc]
    rfl
  · intro event hmem
    obtain ⟨entry, hentry, hevent⟩ := List.mem_filterMap.mp hmem
    obtain ⟨action, -, rfl⟩ := List.mem_map.mp hentry
    cases action with
    | exec other => exact ⟨other, (Option.some.inj hevent).symm⟩
    | _ => cases hevent
  · intro tid
    constructor
    · intro hmem
      obtain ⟨entry, hentry, hevent⟩ := List.mem_filterMap.mp hmem
      obtain ⟨action, haction, rfl⟩ := List.mem_map.mp hentry
      cases action with
      | exec other =>
          obtain rfl := Event.forgotten.inj (Option.some.inj hevent)
          exact haction
      | _ => cases hevent
    · exact fun hmem => List.mem_filterMap.mpr ⟨_, List.mem_map.mpr ⟨_, hmem, rfl⟩, rfl⟩

/-! ### The threads -/

def WaitStatus.isEnd : WaitStatus → Bool
  | .exited _ | .signaled _ => true
  | _ => false

/-- The end of the thread is waiting to be reported. -/
def Target.Ending (target : Target R D) (tid : Tid) : Prop :=
  ∃ status, (tid, status) ∈ target.ready ∧ status.isEnd = true

def Target.EndsGone (target : Target R D) : Prop :=
  ∀ tid, target.Ending tid → target.tasks.find? tid = none

/-- Only the debugger changes the debug registers of a thread, until the thread executes another
program or ends; and the name of a thread is not used again before its end has been reported. -/
structure Environment.KeepsDebug (env : Environment R D) : Prop where
  kept : ∀ tick target tid task, target.tasks.find? tid = some task →
    .exec tid ∉ (env.interfere tick target).1 →
    (∃ task', (env.interfere tick target).2.tasks.find? tid = some task' ∧
      task'.debug = task.debug) ∨ (env.interfere tick target).2.Ending tid
  pending : ∀ tick target tid, target.Ending tid → (env.interfere tick target).2.Ending tid
  gone : ∀ tick (target : Target R D), target.EndsGone → (env.interfere tick target).2.EndsGone

/-- The thread watches for the record, unless it has ended. -/
def DebugView.Knows (view : DebugView arch) (target : Target R D) (tid : Tid)
    (watchpoint : Watchpoint) : Prop :=
  target.Ending tid ∨ ∃ task, target.tasks.find? tid = some task ∧ view.Watches task.debug watchpoint

/-- The same threads with the same debug registers, those of some of them apart. -/
structure Target.SameDebug (late : Set Tid) (target target' : Target R D) : Prop where
  ending : ∀ tid, target'.Ending tid ↔ target.Ending tid
  exists_iff : ∀ tid, target'.tasks.find? tid = none ↔ target.tasks.find? tid = none
  debug : ∀ tid ∉ late, (target'.tasks.find? tid).map Task.debug
    = (target.tasks.find? tid).map Task.debug

theorem Target.SameDebug.of_tasks {target target' : Target R D} (late : Set Tid)
    (htasks : target'.tasks = target.tasks) (hready : target'.ready = target.ready) :
    target.SameDebug late target' := by
  refine ⟨fun tid => ?_, fun tid => by rw [htasks], fun tid _ => by rw [htasks]⟩
  rw [Target.Ending, Target.Ending, hready]

theorem Target.SameDebug.setTask {target : Target R D} {task task' : Task R D}
    (htask : target.tasks.find? tid = some task) (hdebug : tid ∈ late ∨ task'.debug = task.debug) :
    target.SameDebug late (target.setTask tid task') := by
  refine ⟨fun other => Iff.rfl, fun other => ?_, fun other hother => ?_⟩
  · rw [Target.setTask, SortedMap.find?_insert]
    split
    · rename_i heq
      simp [heq, htask]
    · exact Iff.rfl
  · rw [Target.setTask, SortedMap.find?_insert]
    split
    · rename_i heq
      subst heq
      rw [htask, Option.map_some, Option.map_some, hdebug.resolve_left hother]
    · rfl

theorem Target.SameDebug.take {target : Target R D} {status : WaitStatus}
    {rest : List (Tid × WaitStatus)} (hready : target.ready = (tid, status) :: rest)
    (hstatus : status.isEnd = false) : target.SameDebug late { target with ready := rest } := by
  refine ⟨fun other => ?_, fun _ => Iff.rfl, fun _ _ => rfl⟩
  rw [Target.Ending, Target.Ending, hready]
  refine exists_congr fun status' => and_congr_left fun hend => ?_
  rw [List.mem_cons]
  refine (or_iff_right ?_).symm
  rintro ⟨⟩
  rw [hstatus] at hend
  cases hend

theorem Target.SameDebug.endsGone {target target' : Target R D} (hsame : target.SameDebug late target')
    (hgone : target.EndsGone) : target'.EndsGone :=
  fun tid hending => (hsame.exists_iff tid).mpr (hgone tid ((hsame.ending tid).mp hending))

theorem Target.SameDebug.knows {view : DebugView arch} {target target' : Target R D}
    (hsame : target.SameDebug late target') (htid : tid ∉ late) {watchpoint : Watchpoint}
    (hknows : view.Knows target tid watchpoint) : view.Knows target' tid watchpoint := by
  refine hknows.imp (hsame.ending tid).mpr ?_
  rintro ⟨task, htask, hwatches⟩
  have hmap := hsame.debug tid htid
  rw [htask, Option.map_some, Option.map_eq_some_iff] at hmap
  obtain ⟨task', htask', hdebug⟩ := hmap
  exact ⟨task', htask', hdebug ▸ hwatches⟩

/-! ### The invariant -/

/-- The table and the log agree on which threads are stopped, and every thread that is not behind
watches for every record. The threads in `late` are only just being prepared. -/
structure Covered (view : DebugView arch) (child : Tid) (late : Set Tid) (s : State R D) :
    Prop where
  formed : WellFormed arch s.debugger.breakpoints
  slots : (s.debugger.watchpoints.map Watchpoint.slot).Nodup
  unposted : posted (s.notices child) = false → s.debugger.watchpoints = []
  ends : s.target.EndsGone
  table : ∀ tid, s.debugger.recordOf tid = some true ↔ present tid (s.notices child) = true
  knows : (∀ watchpoint ∈ s.debugger.watchpoints, arch.Accepts watchpoint) →
    ∀ tid ∉ late, behind tid (s.notices child) = false →
      ∀ watchpoint ∈ s.debugger.watchpoints, view.Knows s.target tid watchpoint

section Covered

variable {view : DebugView arch}

theorem Covered.of_same (hs : Covered view child late s)
    (hformed : WellFormed arch t.debugger.breakpoints)
    (hwatchpoints : t.debugger.watchpoints = s.debugger.watchpoints)
    (htable : ∀ tid, t.debugger.recordOf tid = some true ↔ s.debugger.recordOf tid = some true)
    (hnotices : t.notices child = s.notices child) (htarget : s.target.SameDebug late t.target) :
    Covered view child late t where
  formed := hformed
  slots := hwatchpoints ▸ hs.slots
  unposted hposted := hwatchpoints.trans (hs.unposted (hnotices ▸ hposted))
  ends := htarget.endsGone hs.ends
  table tid := by rw [htable, hnotices, hs.table]
  knows haccepted tid htid hbehind watchpoint hmem := by
    rw [hwatchpoints] at haccepted hmem
    exact htarget.knows htid (hs.knows haccepted tid htid (hnotices ▸ hbehind) watchpoint hmem)

theorem Covered.mono {late' : Set Tid} (hs : Covered view child late s) (hlate : late ⊆ late') :
    Covered view child late' s :=
  { hs with knows := fun haccepted tid htid => hs.knows haccepted tid fun hmem => htid (hlate hmem) }

/-- A thread that knows all the records is not late any more. -/
theorem Covered.settle (hs : Covered view child (insert tid late) s)
    (hknows : tid ∉ late → (∀ watchpoint ∈ s.debugger.watchpoints, arch.Accepts watchpoint) →
      behind tid (s.notices child) = false →
        ∀ watchpoint ∈ s.debugger.watchpoints, view.Knows s.target tid watchpoint) :
    Covered view child late s :=
  { hs with
    knows := fun haccepted other hother hbehind => by
      by_cases heq : other = tid
      · subst heq
        exact hknows hother haccepted hbehind
      · exact hs.knows haccepted other (by simp [heq, hother]) hbehind }

/-- Nobody gets to be up to date while the environment moves. -/
theorem behind_of_enter (env : Environment R D)
    (hbehind : behind tid ((env.enter s).notices child) = false) :
    behind tid (s.notices child) = false := by
  obtain ⟨newer, hnotices, hforgotten, -⟩ := notices_enter env child s
  rw [hnotices, behind_append_forgotten hforgotten] at hbehind
  split at hbehind
  · exact Bool.eq_false_iff.mpr fun htrue => by rw [posted_of_behind htrue] at hbehind; cases hbehind
  · exact hbehind

theorem Covered.enter (hkeeps : env.KeepsDebug) (hs : Covered view child late s) :
    Covered view child late (env.enter s) := by
  obtain ⟨newer, hnotices, hforgotten, hexec⟩ := notices_enter env child s
  refine ⟨hs.formed, hs.slots, fun hposted => ?_, hkeeps.gone _ _ hs.ends, fun tid => ?_,
    fun haccepted tid htid hbehind watchpoint hmem => ?_⟩
  · rw [hnotices, posted_append_forgotten hforgotten] at hposted
    exact hs.unposted hposted
  · rw [hnotices, present_append_forgotten hforgotten]
    exact hs.table tid
  · have hknows := hs.knows haccepted tid htid (behind_of_enter env hbehind) watchpoint hmem
    rw [hnotices, behind_append_forgotten hforgotten] at hbehind
    split at hbehind
    · -- There is no record yet that the thread could have forgotten.
      rw [enter_debugger, hs.unposted hbehind] at hmem
      cases hmem
    · rename_i hkept
      rw [hexec] at hkept
      rcases hknows with hending | ⟨task, htask, hwatches⟩
      · exact Or.inl (hkeeps.pending _ _ tid hending)
      · rcases hkeeps.kept s.tick s.target tid task htask hkept with ⟨task', htask', hdebug⟩ | hending
        · exact Or.inr ⟨task', htask', hdebug ▸ hwatches⟩
        · exact Or.inl hending

theorem Covered.logged (hs : Covered view child late s) {entry : Entry}
    (hentry : entry.notice = none) : Covered view child late (s.logged entry) :=
  hs.of_same hs.formed rfl (fun _ => Iff.rfl) (notices_cons_none rfl hentry) (.of_tasks late rfl rfl)

/-- Whatever is shown may be taken for a notice, even where no record follows. -/
theorem Covered.shown (hs : Covered view child late s) {entry : Entry}
    (hentry : entry.isShown = true) : Covered view child late (s.logged entry) := by
  by_cases hnone : entry.notice = none
  · exact hs.logged hnone
  · have hposted : entry.notice = some .posted := by
      cases entry with
      | out message =>
          cases message with
          | watchpointAt => rfl
          | _ => exact absurd rfl hnone
      | _ => first | exact absurd rfl hnone | cases hentry
    have hnotices : (s.logged entry).notices child = .posted :: s.notices child :=
      notices_cons rfl hposted
    refine ⟨hs.formed, hs.slots, fun hposted => ?_, hs.ends, fun tid => ?_,
      fun haccepted tid htid hbehind => ?_⟩
    · rw [hnotices] at hposted
      cases hposted
    · rw [hnotices]
      exact hs.table tid
    · rw [hnotices] at hbehind
      exact hs.knows haccepted tid htid (behind_posted hbehind).2

/-! ### The threads come and go -/

theorem Covered.left {entry : Entry} (hs : Covered view child late s)
    (hformed : WellFormed arch t.debugger.breakpoints)
    (hwatchpoints : t.debugger.watchpoints = s.debugger.watchpoints)
    (hlog : t.log = entry :: s.log) (hentry : entry.notice = some (.left tid))
    (htable : ∀ other, t.debugger.recordOf other = some true ↔
      tid ≠ other ∧ s.debugger.recordOf other = some true)
    (htarget : s.target.SameDebug late t.target) : Covered view child late t := by
  have hnotices : t.notices child = .left tid :: s.notices child := notices_cons hlog hentry
  refine ⟨hformed, hwatchpoints ▸ hs.slots, fun hposted => ?_, htarget.endsGone hs.ends,
    fun other => ?_, fun haccepted other hother hbehind watchpoint hmem => ?_⟩
  · rw [hnotices] at hposted
    exact hwatchpoints.trans (hs.unposted hposted)
  · rw [htable, hnotices, present, hs.table]
    simp
  · rw [hwatchpoints] at haccepted hmem
    rw [hnotices] at hbehind
    exact htarget.knows hother (hs.knows haccepted other hother hbehind watchpoint hmem)

/-- A stop of a thread is recorded; a thread that is to be briefed is late until it has been. -/
theorem Covered.arrived {entry : Entry} {briefed : Bool} (hs : Covered view child late s)
    (hformed : WellFormed arch t.debugger.breakpoints)
    (hwatchpoints : t.debugger.watchpoints = s.debugger.watchpoints)
    (hlog : t.log = entry :: s.log) (hentry : entry.notice = some (.arrived tid briefed))
    (htable : ∀ other, t.debugger.recordOf other = some true ↔
      tid = other ∨ s.debugger.recordOf other = some true)
    (hlate : briefed = true → tid ∈ late) (htarget : s.target.SameDebug late t.target) :
    Covered view child late t := by
  have hnotices : t.notices child = .arrived tid briefed :: s.notices child :=
    notices_cons hlog hentry
  refine ⟨hformed, hwatchpoints ▸ hs.slots, fun hposted => ?_, htarget.endsGone hs.ends,
    fun other => ?_, fun haccepted other hother hbehind watchpoint hmem => ?_⟩
  · rw [hnotices] at hposted
    exact hwatchpoints.trans (hs.unposted hposted)
  · rw [htable, hnotices, present, hs.table]
    simp
  · rw [hwatchpoints] at haccepted hmem
    refine htarget.knows hother (hs.knows haccepted other hother ?_ watchpoint hmem)
    rw [hnotices, behind, Bool.and_eq_false_iff] at hbehind
    refine hbehind.resolve_left fun hnews => hother ?_
    simp only [Bool.not_eq_false', Bool.and_eq_true, decide_eq_true_eq] at hnews
    exact hnews.1 ▸ hlate hnews.2

theorem Covered.ended {entry : Entry} (hs : Covered view child late s)
    (hformed : WellFormed arch t.debugger.breakpoints)
    (hwatchpoints : t.debugger.watchpoints = s.debugger.watchpoints)
    (hlog : t.log = entry :: s.log) (hentry : entry.notice = some (.ended tid))
    (htable : ∀ other, t.debugger.recordOf other = some true ↔
      tid ≠ other ∧ s.debugger.recordOf other = some true)
    (htasks : t.target.tasks = s.target.tasks) (hready : t.target.ready ⊆ s.target.ready)
    (hothers : ∀ other, tid ≠ other → s.target.Ending other → t.target.Ending other) :
    Covered view child late t := by
  have hnotices : t.notices child = .ended tid :: s.notices child := notices_cons hlog hentry
  refine ⟨hformed, hwatchpoints ▸ hs.slots, fun hposted => ?_, fun other hending => ?_,
    fun other => ?_, fun haccepted other hother hbehind watchpoint hmem => ?_⟩
  · rw [hnotices] at hposted
    exact hwatchpoints.trans (hs.unposted hposted)
  · obtain ⟨status, hmem, hend⟩ := hending
    rw [htasks]
    exact hs.ends other ⟨status, hready hmem, hend⟩
  · rw [htable, hnotices, present, hs.table]
    simp
  · rw [hwatchpoints] at haccepted hmem
    rw [hnotices, behind] at hbehind
    split at hbehind
    · rw [hs.unposted hbehind] at hmem
      cases hmem
    · rename_i hne
      rcases hs.knows haccepted other hother hbehind watchpoint hmem with hending | ⟨task, htask, hw⟩
      · exact Or.inl (hothers other hne hending)
      · exact Or.inr ⟨task, htasks ▸ htask, hw⟩

/-- A record is added that every thread recorded as stopped knows. -/
theorem Covered.posted {entry : Entry} {watchpoint : Watchpoint} (hs : Covered view child late s)
    (hformed : WellFormed arch t.debugger.breakpoints)
    (hfree : watchpoint.slot ∉ s.debugger.watchpoints.map Watchpoint.slot)
    (hwatchpoints : t.debugger.watchpoints = s.debugger.watchpoints ++ [watchpoint])
    (hlog : t.log = entry :: s.log) (hentry : entry.notice = some .posted)
    (htable : ∀ tid, t.debugger.recordOf tid = s.debugger.recordOf tid)
    (htarget : t.target = s.target)
    (hstopped : ∀ tid, s.debugger.recordOf tid = some true → view.Knows s.target tid watchpoint) :
    Covered view child late t := by
  have hnotices : t.notices child = .posted :: s.notices child := notices_cons hlog hentry
  refine ⟨hformed, ?_, fun hposted => ?_, htarget ▸ hs.ends, fun tid => ?_,
    fun haccepted tid htid hbehind other hmem => ?_⟩
  · rw [hwatchpoints, List.map_append, List.nodup_append]
    refine ⟨hs.slots, List.nodup_singleton _, ?_⟩
    rintro slot hslot _ hnew rfl
    rw [List.map_singleton, List.mem_singleton] at hnew
    exact hfree (hnew ▸ hslot)
  · rw [hnotices] at hposted
    cases hposted
  · rw [htable, hnotices]
    exact hs.table tid
  · rw [hnotices] at hbehind
    rw [hwatchpoints] at haccepted hmem
    rw [htarget]
    obtain ⟨hpresent, hbehind⟩ := behind_posted hbehind
    rcases List.mem_append.mp hmem with hold | hnew
    · exact hs.knows (fun w hw => haccepted w (List.mem_append_left _ hw)) tid htid hbehind other hold
    · obtain rfl := List.mem_singleton.mp hnew
      exact hstopped tid ((hs.table tid).mpr hpresent)

/-! ### What does not concern the watchpoints -/

/-- The kinds of moves that leave the watchpoints, the threads and their debug registers alone. -/
def unwatched : List Kind :=
  [.enter, .report, .regs, .table, .arm, .force, .lift, .user, .write]

theorem Move.covered (hkeeps : env.KeepsDebug) {T : Set Address} {kind : Kind}
    (hkind : kind ∈ unwatched) (hmove : Move arch env T kind s t) (hs : Covered view child late s) :
    Covered view child late t := by
  have hformed := hmove.wellFormed hs.formed
  have hlogged : ∀ {entry : Entry} {u : State R D}, entry.notice = none → u.log = entry :: s.log →
      u.notices child = s.notices child := fun hentry hlog => notices_cons_none hlog hentry
  cases hmove with
  | enter => exact hs.enter hkeeps
  | report _ hentry =>
      refine hs.logged ?_
      rename_i entry
      cases entry <;> first | rfl | cases hentry
  | regs _ regs htask =>
      exact hs.of_same hformed rfl (fun _ => Iff.rfl) rfl (.setTask htask (Or.inr rfl))
  | arming | abandon | userEnabled | userDisabled | write =>
      exact hs.of_same hformed rfl (fun _ => Iff.rfl) (hlogged rfl rfl) (.of_tasks late rfl rfl)
  | insert | erase | save | arm | armWild | liftWild =>
      exact hs.of_same hformed rfl (fun _ => Iff.rfl) rfl (.of_tasks late rfl rfl)
  | force | lift =>
      exact hs.of_same hformed rfl (fun _ => Iff.rfl) rfl (.of_tasks late rfl rfl)
  | _ => exact absurd hkind (by decide)

theorem covered_of_does (hkeeps : env.KeepsDebug) (kinds : List Kind) {m : Dbg R D α}
    (hm : Does arch env ∅ kinds m) (hkinds : kinds ⊆ unwatched) :
    Within (Keeps (Covered view child late)) m := by
  intro s hs
  obtain ⟨hmoves, -⟩ := hm s hs.formed
  exact hmoves.preserve (fun _ hkind _ _ hmove hu => hmove.covered hkeeps (hkinds hkind) hu) hs

/-- A change of the debugger that leaves the watchpoints alone, and the table as far as it says
which threads are stopped. -/
theorem covered_modify {change : Debugger → Debugger}
    (hbreakpoints : ∀ d, (change d).breakpoints = d.breakpoints)
    (hwatchpoints : ∀ d, (change d).watchpoints = d.watchpoints)
    (htable : ∀ d tid, (change d).recordOf tid = some true ↔ d.recordOf tid = some true) :
    Within (Keeps (Covered view child late)) (modifyDebugger (R := R) (D := D) change) :=
  Within.modify fun s hs => hs.of_same (show WellFormed arch (change s.debugger).breakpoints from
    hbreakpoints s.debugger ▸ hs.formed) (hwatchpoints _) (htable _) rfl (.of_tasks late rfl rfl)

theorem covered_manages (hkeeps : env.KeepsDebug) :
    ManagesWithin arch env (Keeps (Covered view child late)) where
  peek := covered_of_does hkeeps [.enter] (does_peek (by decide)) (by decide)
  note hentry := Within.modify fun s hs => hs.shown hentry
  setRegs tid regs := covered_of_does hkeeps [.enter, .regs]
    (does_ptrace (by decide) fun s _ hfind hstopped =>
      .single (.regs s regs hfind hstopped) (by decide)) (by decide)
  enter := Within.modify fun s hs => hs.enter hkeeps
  mark {entry} hentry := Within.modify fun s hs => hs.logged
    (by cases entry <;> first | rfl | cases hentry)
  aside hchange := covered_modify (fun d => (hchange d).breakpoints)
    (fun d => (hchange d).watchpoints)
    fun d tid => by rw [Debugger.recordOf, (hchange d).threads]; rfl
  enable key := covered_of_does hkeeps _ (does_enable (Environment.leavesText_empty env) key)
    (by decide)
  disable key := covered_of_does hkeeps _ (does_disable (Environment.leavesText_empty env) key)
    (by decide)
  insert r s hfresh henabled hpending hs := by
    have hmove : Move arch env ∅ .table s (endState (insertBreakpoint r) s) :=
      .insert s hfresh henabled hpending
    exact hmove.covered hkeeps (by decide) hs
  drop key s hs := by
    have hdrop : WithinAt (Keeps (Covered view child late)) (dropBreakpoint env key) s := by
      refine withinAt_dropBreakpoint hs.formed ?_ fun t hdisabled ht => ?_
      · exact covered_of_does hkeeps _ (does_disable (Environment.leavesText_empty env) key)
          (by decide) s
      · have hmove : Move arch env ∅ .table t (endState (eraseBreakpoint key) t) :=
          .erase t hdisabled
        exact hmove.covered hkeeps (by decide) ht
    exact hdrop hs
  noteUserEnabled key := covered_of_does hkeeps [.user] (does_noteUserEnabled (by decide) key)
    (by decide)

end Covered

end Cosy
