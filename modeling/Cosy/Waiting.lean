import Cosy.Guarding

/-!
# The debugger never waits for nothing

While every thread is stopped and every stop has been reported, `waitpid` does not return. The debugger
gets there in one way only: it steps a thread over a breakpoint, hears that the thread has ended, and
steps it again.
-/

namespace Cosy

open Effect

variable {R D α : Type} {arch : Architecture R D} {env : Environment R D} {s t : State R D}
  {tid child : Tid}

/-! ### What is going to be heard of a thread -/

/-- The thread is in a stop that has been reported. -/
def Target.Parked (target : Target R D) (tid : Tid) : Prop :=
  (∃ task, target.tasks.find? tid = some task ∧ task.stopped = true) ∧
    ∀ status, (tid, status) ∈ target.ready → status.isStopped = false

/-- The thread runs, or something that has happened to it is still to be reported. -/
def Target.Due (target : Target R D) (tid : Tid) : Prop :=
  target.isRunning tid = true ∨ ∃ status, (tid, status) ∈ target.ready

/-- The end of a thread is reported once it is gone, and it is not reported that one goes on. -/
structure Target.Candid (target : Target R D) : Prop where
  gone : target.EndsGone
  neverContinued : ∀ tid, (tid, .continued) ∉ target.ready

/-- No stop goes unreported. -/
structure Target.Onward (target target' : Target R D) : Prop where
  parked : ∀ tid, target'.Parked tid → target.Parked tid
  due : ∀ tid, target.Due tid → target'.Due tid
  candid : target.Candid → target'.Candid

/-- Whatever stops or ends a thread is reported, and the name of a thread is not used again before its
end has been. -/
def Environment.Reports (env : Environment R D) : Prop :=
  ∀ tick (target : Target R D), target.Onward (env.interfere tick target).2

instance : IsPreorder (Target R D) Target.Onward where
  refl _ := ⟨fun _ => id, fun _ => id, id⟩
  trans _ _ _ hst htu := ⟨fun tid hu => hst.parked tid (htu.parked tid hu),
    fun tid hs => htu.due tid (hst.due tid hs), fun hs => htu.candid (hst.candid hs)⟩

section Onward

variable {target target' : Target R D} {task task' : Task R D} {status : WaitStatus}

theorem Target.Onward.of_eq (htasks : target'.tasks = target.tasks)
    (hready : target'.ready = target.ready) : target.Onward target' := by
  refine ⟨fun tid hparked => ?_, fun tid hdue => ?_, fun hcandid => ⟨?_, ?_⟩⟩
  · rwa [Target.Parked, htasks, hready] at hparked
  · rwa [Target.Due, Target.isRunning, Target.running, htasks, hready]
  · rw [Target.EndsGone]
    simp only [Target.Ending, htasks, hready]
    exact hcandid.gone
  · rw [hready]
    exact hcandid.neverContinued

/-- A stopped thread is changed, and stays stopped or is resumed. -/
theorem Target.Onward.setTask (htask : target.tasks.find? tid = some task)
    (hstopped : task.stopped = true) : target.Onward (target.setTask tid task') := by
  have hfind : ∀ other, (target.setTask tid task').tasks.find? other
      = if other = tid then some task' else target.tasks.find? other :=
    SortedMap.find?_insert target.tasks tid task'
  refine ⟨fun other hparked => ?_, fun other hdue => ?_, fun hcandid => ⟨fun other hending => ?_, ?_⟩⟩
  · obtain ⟨⟨found, hfound, hflag⟩, hreported⟩ := hparked
    refine ⟨?_, hreported⟩
    by_cases heq : other = tid
    · exact ⟨task, heq ▸ htask, hstopped⟩
    · rw [hfind, if_neg heq] at hfound
      exact ⟨found, hfound, hflag⟩
  · refine hdue.imp_left fun hrunning => ?_
    obtain ⟨found, hfound, hflag⟩ := Target.isRunning_iff.mp hrunning
    refine Target.isRunning_iff.mpr ⟨found, ?_, hflag⟩
    rw [hfind, if_neg, hfound]
    rintro rfl
    obtain rfl := Option.some.inj (htask.symm.trans hfound)
    cases hstopped.symm.trans hflag
  · have hgone := hcandid.gone other hending
    rw [hfind, if_neg, hgone]
    rintro rfl
    cases htask.symm.trans hgone
  · exact hcandid.neverContinued

/-- A thread that runs is stopped or goes on, or it ends, and if it does not go on this is reported. -/
theorem Target.Onward.of_running (hrunning : target.running tid = some task)
    (hothers : ∀ other ≠ tid, target'.tasks.find? other = target.tasks.find? other)
    (hready : ∃ new, target'.ready = target.ready ++ new ∧ ∀ event ∈ new, event.1 = tid ∧
      event.2 ≠ .continued ∧ (event.2.isEnd = true → target'.tasks.find? tid = none))
    (hnext : target'.isRunning tid = true ∨
      (∃ status, (tid, status) ∈ target'.ready ∧ status.isStopped = true) ∨
      target'.tasks.find? tid = none ∧ ∃ status, (tid, status) ∈ target'.ready) :
    target.Onward target' := by
  obtain ⟨htask, hflag⟩ := Option.filter_eq_some_iff.mp hrunning
  obtain ⟨new, hready, hnew⟩ := hready
  refine ⟨fun other hparked => ?_, fun other hdue => ?_, fun hcandid => ⟨fun other hending => ?_, ?_⟩⟩
  · obtain ⟨⟨found, hfound, hstopped⟩, hreported⟩ := hparked
    by_cases heq : other = tid
    · subst heq
      rcases hnext with hruns | ⟨status, hmem, hstop⟩ | ⟨hnone, -⟩
      · obtain ⟨found', hfound', hflag'⟩ := Target.isRunning_iff.mp hruns
        obtain rfl := Option.some.inj (hfound.symm.trans hfound')
        cases hstopped.symm.trans hflag'
      · cases (hreported status hmem).symm.trans hstop
      · cases hfound.symm.trans hnone
    · refine ⟨⟨found, (hothers other heq).symm.trans hfound, hstopped⟩, fun status hmem => ?_⟩
      exact hreported status (hready ▸ List.mem_append_left new hmem)
  · by_cases heq : other = tid
    · subst heq
      rcases hnext with hruns | ⟨status, hmem, -⟩ | ⟨-, status, hmem⟩
      · exact Or.inl hruns
      · exact Or.inr ⟨status, hmem⟩
      · exact Or.inr ⟨status, hmem⟩
    · refine hdue.imp (fun hruns => ?_) fun ⟨status, hmem⟩ => ⟨status, ?_⟩
      · rwa [Target.isRunning, Target.running, hothers other heq]
      · exact hready ▸ List.mem_append_left new hmem
  · obtain ⟨status, hmem, hend⟩ := hending
    rw [hready] at hmem
    rcases List.mem_append.mp hmem with hmem | hmem
    · have hgone := hcandid.gone other ⟨status, hmem, hend⟩
      rw [hothers, hgone]
      rintro rfl
      cases htask.symm.trans hgone
    · obtain ⟨rfl, -, hnone⟩ := hnew _ hmem
      exact hnone hend
  · intro other hmem
    rw [hready] at hmem
    rcases List.mem_append.mp hmem with hmem | hmem
    · exact hcandid.neverContinued other hmem
    · exact (hnew _ hmem).2.1 rfl

theorem Target.Onward.halt (hrunning : target.running tid = some task) (htasks : target'.tasks = target.tasks)
    (hready : target'.ready = target.ready) (hstop : status.isStopped = true) :
    target.Onward (target'.halt tid task' status) := by
  have hstatus : (tid, status) ∈ (target'.halt tid task' status).ready :=
    List.mem_append_right _ (List.mem_singleton_self _)
  refine .of_running hrunning (fun other hother => ?_) ⟨[(tid, status)], ?_, fun event hmem => ?_⟩
    (Or.inr (Or.inl ⟨status, hstatus, hstop⟩))
  · exact htasks ▸ SortedMap.find?_insert_of_ne target'.tasks _ hother
  · exact hready ▸ rfl
  · obtain rfl := List.mem_singleton.mp hmem
    cases status with
    | stopped signal event => exact ⟨rfl, WaitStatus.noConfusion, fun hend => by cases hend⟩
    | _ => cases hstop

theorem Target.Onward.bury (hrunning : target.running tid = some task) (hend : status.isEnd = true) :
    target.Onward (target.bury tid status) := by
  have hnone : (target.bury tid status).tasks.find? tid = none := by
    rw [Target.bury, SortedMap.find?_erase, if_pos rfl]
  have hstatus : (tid, status) ∈ (target.bury tid status).ready :=
    List.mem_append_right _ (List.mem_singleton_self _)
  refine .of_running hrunning (fun other hother => ?_) ⟨[(tid, status)], rfl, fun event hmem => ?_⟩
    (Or.inr (Or.inr ⟨hnone, status, hstatus⟩))
  · rw [Target.bury, SortedMap.find?_erase, if_neg hother]
  · obtain rfl := List.mem_singleton.mp hmem
    refine ⟨rfl, ?_, fun _ => hnone⟩
    rintro rfl
    cases hend

end Onward

section Machine

variable {program : Program R}

theorem runTask_onward {target : Target R D} {task : Task R D} (hrunning : target.running tid = some task) :
    target.Onward (runTask arch program target tid task).2 := by
  unfold runTask
  dsimp only
  split
  · exact .halt hrunning rfl rfl rfl
  · split
    · exact .halt hrunning rfl rfl rfl
    · obtain ⟨htask, hflag⟩ := Option.filter_eq_some_iff.mp hrunning
      refine .of_running hrunning (fun other hother => ?_) ⟨[], (List.append_nil _).symm, by simp⟩ (Or.inl ?_)
      · exact SortedMap.find?_insert_of_ne target.tasks _ hother
      · refine Target.isRunning_iff.mpr ⟨_, SortedMap.find?_insert_self target.tasks _ _, ?_⟩
        exact Bool.not_eq_true' _ ▸ hflag

def Action.isClone : Action R D → Bool
  | .clone _ _ _ => true
  | _ => false

theorem perform_onward (arch : Architecture R D) (program : Program R) (target : Target R D) {action : Action R D} (haction : action.isClone = false) :
    target.Onward (perform arch program target action).2 := by
  have hself : target.Onward target := refl_of Target.Onward target
  cases action with
  | clone => cases haction
  | map maps => exact .of_eq rfl rfl
  | run tid | stop tid | exit tid | kill tid | exec tid =>
      unfold perform
      dsimp only
      cases hrunning : target.running tid with
      | none => exact hself
      | some task => first
          | exact runTask_onward hrunning
          | exact .halt hrunning rfl rfl rfl
          | exact .bury hrunning rfl

theorem performAll_onward (actions : List (Action R D))
    (hactions : ∀ action ∈ actions, action.isClone = false) :
    ∀ target : Target R D, target.Onward (performAll arch program target actions).2 := by
  induction actions with
  | nil => exact fun target => refl_of Target.Onward target
  | cons action rest ih =>
      intro target
      have hfirst := perform_onward arch program target
        (hactions action List.mem_cons_self)
      exact trans_of Target.Onward hfirst (ih (fun other hmem => hactions other
        (List.mem_cons_of_mem _ hmem)) _)

/-- A machine does so whose threads create no other. -/
theorem Machine.reports {machine : Machine R D}
    (hclones : ∀ tick, ∀ action ∈ machine.schedule tick, action.isClone = false) :
    (machine.environment arch).Reports :=
  fun tick target => performAll_onward _ (hclones tick) target

end Machine

/-! ### Accounting for the threads -/

/-- Every thread that is in a reported stop is recorded as stopped. -/
structure Accounted (arch : Architecture R D) (s : State R D) : Prop where
  formed : WellFormed arch s.debugger.breakpoints
  candid : s.target.Candid
  recorded : ∀ tid, s.target.Parked tid → s.debugger.recordOf tid = some true

/-- The threads are the same to the debugger, and no stop goes unreported. -/
structure Stays (s t : State R D) : Prop where
  target : s.target.Onward t.target
  threads : t.debugger.threads = s.debugger.threads
  selectedTid : t.debugger.selectedTid = s.debugger.selectedTid

instance : IsPreorder (State R D) Stays where
  refl s := ⟨refl_of Target.Onward s.target, rfl, rfl⟩
  trans _ _ _ hst htu := ⟨trans_of Target.Onward hst.target htu.target, htu.threads.trans hst.threads,
    htu.selectedTid.trans hst.selectedTid⟩

theorem Stays.recordOf (hst : Stays s t) (tid : Tid) :
    t.debugger.recordOf tid = s.debugger.recordOf tid := by
  rw [Debugger.recordOf, Debugger.recordOf, hst.threads]

theorem Accounted.stays (hs : Accounted arch s) (hst : Stays s t)
    (hformed : WellFormed arch t.debugger.breakpoints) : Accounted arch t :=
  ⟨hformed, hst.target.candid hs.candid, fun tid hparked =>
    (hst.recordOf tid).trans (hs.recorded tid (hst.target.parked tid hparked))⟩

/-- The moves after which no thread is on record that was not, and no event is forgotten. -/
def staying : List Kind :=
  [.enter, .say, .report, .stepping, .book, .regs, .task, .resume, .close, .table, .arm, .lift, .force,
    .user, .write]

theorem Move.stays {T : Set Address} (hreports : env.Reports) {kind : Kind} (hmove : Move arch env T kind s t)
    (hkind : kind ∈ staying) : Stays s t := by
  refine ⟨?_, (hmove.sameThreads ?_).1, (hmove.sameThreads ?_).2⟩
  · cases hmove with
    | enter => exact hreports s.tick s.target
    | regs _ _ htask hstopped | task _ htask hstopped | resume _ _ htask hstopped =>
        exact .setTask htask hstopped
    | threads | take | release => simp [staying] at hkind
    | _ => exact .of_eq rfl rfl
  · rintro rfl
    simp [staying] at hkind
  · rintro rfl
    simp [staying] at hkind

theorem stays_of_does {T : Set Address} (hreports : env.Reports) {kinds : List Kind} {m : Dbg R D α}
    (hm : Does arch env T kinds m) (hkinds : kinds ⊆ staying) :
    Within (fun s t => Accounted arch s → Stays s t ∧ Accounted arch t) m := by
  intro s hs
  obtain ⟨hmoves, hformed⟩ := hm s hs.formed
  have hst : Stays s (endState m s) :=
    hmoves.relate fun kind hkind _ _ hmove => hmove.stays hreports (hkinds hkind)
  exact ⟨hst, hs.stays hst hformed⟩

/-! ### Waiting -/

/-- What the debugger has heard last, and where. -/
def lastConsumed : List Entry → Option (Site × Tid × WaitStatus)
  | [] => none
  | .consumed site tid status _ :: _ => some (site, tid, status)
  | _ :: older => lastConsumed older

/-- The last thing the debugger has heard is that the selected thread has ended while it was being stepped
over a breakpoint. -/
def State.SteppedToItsEnd (s : State R D) : Prop :=
  ∃ status, lastConsumed s.log = some (.stepOver, s.debugger.selectedTid, status) ∧ status.isEnd = true

/-- Somebody runs, or the debugger has stepped the selected thread to its end. -/
def State.Awaits (s : State R D) : Prop :=
  (∃ tid, s.target.isRunning tid = true) ∨ s.SteppedToItsEnd

/-- After an exception every thread is accounted for, and nobody waits for nothing. -/
def WaitsFor (arch : Architecture R D) : Halt → State R D → Prop
  | .thrown _, s => Accounted arch s
  | .blocked, s => s.Awaits

@[simp]
theorem lastConsumed_target (events : List TargetEvent) (log : List Entry) :
    lastConsumed (events.map .target ++ log) = lastConsumed log := by
  induction events with
  | nil => rfl
  | cons event events ih => exact ih

theorem steppedToItsEnd_enter : (env.enter s).SteppedToItsEnd ↔ s.SteppedToItsEnd := by
  rw [State.SteppedToItsEnd, State.SteppedToItsEnd, enter_log, lastConsumed_target]
  rfl

theorem Accounted.enter (hreports : env.Reports) (hs : Accounted arch s) : Accounted arch (env.enter s) :=
  hs.stays ⟨hreports s.tick s.target, rfl, rfl⟩ hs.formed

/-- What neither resumes nor waits leaves the threads accounted for, and everything as it was that only
depends on them. -/
theorem accounted_does {T : Set Address} (hreports : env.Reports) {kinds : List Kind} {m : Dbg R D α}
    (hm : Does arch env T kinds m) (hkinds : kinds ⊆ staying) (hreturns : NeverBlocks m)
    {J : State R D → Prop} (hJ : ∀ s t, Stays s t → J s → J t) :
    Triple (fun s => Accounted arch s ∧ J s) m (fun _ s => Accounted arch s ∧ J s) (WaitsFor arch) := by
  rintro s ⟨hs, hjs⟩
  obtain ⟨hst, ht⟩ := stays_of_does hreports hm hkinds s hs
  cases hrun : m s with
  | ok a t =>
      rw [endState_of_ok hrun] at hst ht
      exact ⟨ht, hJ s t hst hjs⟩
  | error halt t =>
      rw [endState_of_error hrun] at ht
      cases halt with
      | thrown exception => exact ht
      | blocked => exact absurd hrun (hreturns s t)

/-- An event of the thread has been taken. If it is a stop, it is not on record yet. -/
structure Consuming (arch : Architecture R D) (tid : Tid) (status : WaitStatus) (s : State R D) :
    Prop where
  formed : WellFormed arch s.debugger.breakpoints
  candid : s.target.Candid
  recorded : ∀ other, s.target.Parked other →
    s.debugger.recordOf other = some true ∨ other = tid ∧ status.isStopped = true
  gone : status.isEnd = true → s.target.tasks.find? tid = none
  notContinued : status ≠ .continued

theorem Consuming.of_same {status : WaitStatus} (hs : Consuming arch tid status s)
    (hbreakpoints : t.debugger.breakpoints = s.debugger.breakpoints)
    (hthreads : t.debugger.threads = s.debugger.threads) (htarget : t.target = s.target) :
    Consuming arch tid status t where
  formed := hbreakpoints ▸ hs.formed
  candid := htarget ▸ hs.candid
  recorded other hparked := by
    rw [htarget] at hparked
    rw [Debugger.recordOf, hthreads]
    exact hs.recorded other hparked
  gone hend := htarget ▸ hs.gone hend
  notContinued := hs.notContinued

/-- Once the stop is on record, or the thread that has ended is not, every thread is accounted for. -/
theorem Consuming.accounted {status : WaitStatus} (hs : Consuming arch tid status s)
    (hformed : WellFormed arch t.debugger.breakpoints) (htarget : t.target = s.target)
    (hrecord : status.isStopped = true → t.debugger.recordOf tid = some true)
    (hothers : ∀ other ≠ tid, t.debugger.recordOf other = s.debugger.recordOf other) :
    Accounted arch t := by
  refine ⟨hformed, htarget ▸ hs.candid, fun other hparked => ?_⟩
  rw [htarget] at hparked
  by_cases heq : other = tid
  · subst heq
    cases status with
    | stopped signal event => exact hrecord rfl
    | continued => exact absurd rfl hs.notContinued
    | exited code | signaled signal =>
        obtain ⟨⟨task, htask, -⟩, -⟩ := hparked
        cases htask.symm.trans (hs.gone rfl)
  · rw [hothers other heq]
    exact (hs.recorded other hparked).resolve_right fun h => heq h.1

theorem waitForEvent_of_nil (hready : (env.enter s).target.ready = []) :
    waitForEvent env s = .error (if (env.enter s).target.tasks.entries.isEmpty then
      .thrown (.system "waitpid") else .blocked) (env.enter s) := by
  unfold waitForEvent
  simp only [hready]
  split <;> rfl

/-- A wait ends with an event, and nothing else is forgotten; or else there is nothing to be heard. -/
theorem Accounted.wait (hreports : env.Reports) (hs : Accounted arch s) :
    (∃ tid status t, waitForEvent env s = .ok (tid, status) t ∧ Consuming arch tid status t ∧
      t.debugger = s.debugger ∧ ∀ other ≠ tid, s.target.Due other → t.target.Due other) ∨
    (env.enter s).target.ready = [] ∧ ∃ halt, waitForEvent env s = .error halt (env.enter s) ∧
      (halt = .blocked → (env.enter s).target.tasks.entries ≠ []) := by
  have hentered := hs.enter hreports
  rcases waitForEvent_cases env s with ⟨tid, status, rest, hready, hrun⟩ | ⟨hready, -⟩
  · refine Or.inl ⟨tid, status, _, hrun, ⟨hs.formed, ⟨fun other hending => ?_, fun other hmem => ?_⟩,
      fun other hparked => ?_, fun hend => ?_, ?_⟩, rfl, fun other hother hdue => ?_⟩
    · obtain ⟨status', hmem, hend⟩ := hending
      exact hentered.candid.gone other ⟨status', hready ▸ List.mem_cons_of_mem _ hmem, hend⟩
    · exact hentered.candid.neverContinued other (hready ▸ List.mem_cons_of_mem _ hmem)
    · by_cases htaken : other = tid ∧ status.isStopped = true
      · exact Or.inr htaken
      · refine Or.inl (hentered.recorded other ⟨hparked.1, fun status' hmem => ?_⟩)
        rw [hready] at hmem
        rcases List.mem_cons.mp hmem with heq | hmem
        · obtain ⟨rfl, rfl⟩ := Prod.mk.inj heq
          exact Bool.eq_false_iff.mpr fun hstopped => htaken ⟨rfl, hstopped⟩
        · exact hparked.2 status' hmem
    · exact hentered.candid.gone tid ⟨status, hready ▸ List.mem_cons_self, hend⟩
    · rintro rfl
      exact hentered.candid.neverContinued tid (hready ▸ List.mem_cons_self)
    · refine ((hreports s.tick s.target).due other hdue).imp_right fun ⟨status', hmem⟩ => ⟨status', ?_⟩
      change (other, status') ∈ (env.enter s).target.ready at hmem
      rw [hready] at hmem
      refine (List.mem_cons.mp hmem).resolve_left fun heq => hother (Prod.mk.inj heq).1
  · refine Or.inr ⟨hready, _, waitForEvent_of_nil hready, fun hblocked hnil => ?_⟩
    rw [hnil] at hblocked
    cases hblocked

theorem Target.Due.isRunning {target : Target R D} (hdue : target.Due tid) (hready : target.ready = []) :
    target.isRunning tid = true := by
  refine hdue.resolve_right fun ⟨status, hmem⟩ => ?_
  rw [hready] at hmem
  cases hmem

/-! ### Stepping over a breakpoint -/

/-- The selected thread is recorded as stopped, or something is to be heard of it, unless it has been
stepped to its end. -/
def State.Poised (s : State R D) : Prop :=
  s.debugger.recordOf s.debugger.selectedTid = some true ∨
    s.target.Due s.debugger.selectedTid ∨ s.SteppedToItsEnd

/-- A thread that runs need not be on record. -/
theorem Accounted.running (hs : Accounted arch s) (hrunning : s.target.isRunning tid = true)
    (hformed : WellFormed arch t.debugger.breakpoints) (htarget : t.target = s.target)
    (hothers : ∀ other ≠ tid, t.debugger.recordOf other = s.debugger.recordOf other) :
    Accounted arch t := by
  refine ⟨hformed, htarget ▸ hs.candid, fun other hparked => ?_⟩
  rw [htarget] at hparked
  rw [hothers]
  · exact hs.recorded other hparked
  · rintro rfl
    obtain ⟨⟨task, htask, hstopped⟩, -⟩ := hparked
    obtain ⟨task', htask', hflag⟩ := Target.isRunning_iff.mp hrunning
    obtain rfl := Option.some.inj (htask.symm.trans htask')
    cases hstopped.symm.trans hflag

theorem recordOf_modify_of_ne {d d' : Debugger} {change : ThreadState → ThreadState} {other : Tid}
    (hthreads : d'.threads = d.threads.modify tid change) (hne : other ≠ tid) :
    d'.recordOf other = d.recordOf other := by
  rw [Debugger.recordOf, Debugger.recordOf, hthreads, SortedMap.find?_modify_of_ne _ _ hne]

theorem recordOf_insert_self (d : Debugger) (tid : Tid) (state : ThreadState) :
    Debugger.recordOf { d with threads := d.threads.insert tid state } tid = some state.stopped := by
  rw [Debugger.recordOf, SortedMap.find?_insert_self, Option.map_some]

section StepOver

variable (hreports : env.Reports)

include hreports

theorem resume_runs (d : Debugger) (tid : Tid) (request : ResumeRequest) :
    Triple (fun s => Accounted arch s ∧ s.debugger = d) (resume env tid request 0)
      (fun _ t => Accounted arch t ∧ t.debugger = d ∧ t.target.isRunning tid = true)
      (WaitsFor arch) := by
  rintro s ⟨hs, rfl⟩
  have hdoes : Does arch env ∅ [.enter, .resume] (resume env tid request 0) :=
    does_resume (by decide) (by decide) tid request
  have haccounted := (stays_of_does hreports hdoes (by decide) s hs).2
  rcases ptrace_cases env request.operation tid (fun task target =>
      (PUnit.unit, target.setTask tid
        { task with stopped := false, stepping := request = .singlestep })) s with
    ⟨task, -, -, -, hrun⟩ | ⟨-, hrun⟩
  · rw [resume, endState, bind_ok hrun] at haccounted
    rw [resume, bind_ok hrun]
    refine ⟨haccounted, rfl, Target.isRunning_iff.mpr ⟨_, SortedMap.find?_insert_self _ _ _, rfl⟩⟩
  · rw [resume, bind_error hrun]
    exact hs.enter hreports

theorem stepThread_waits (tid : Tid) :
    Triple (fun s => Accounted arch s ∧ s.debugger.selectedTid = tid) (stepThread env tid)
      (fun event s => Consuming arch event.1 event.2 s ∧ s.debugger.selectedTid = tid ∧
        (event.1 ≠ tid → s.target.Due tid)) (WaitsFor arch) := by
  have hrecord : ∀ d : Debugger, d.selectedTid = tid →
      Triple (fun s => Accounted arch s ∧ s.debugger = d ∧ s.target.isRunning tid = true)
        (recordRunning tid)
        (fun _ s => Accounted arch s ∧ s.debugger.selectedTid = tid ∧ s.target.Due tid)
        (WaitsFor arch) := by
    intro d hselected
    refine Triple.get_bind fun s => Triple.ite (Triple.modify ?_) (Triple.throw ?_)
    · rintro t ⟨rfl, ht, rfl, hrunning⟩
      refine ⟨?_, hselected, Or.inl hrunning⟩
      exact ht.running hrunning ht.formed rfl fun other hne => recordOf_modify_of_ne rfl hne
    · exact fun t ht => ht.2.1
  rintro s ⟨hs, hselected⟩
  refine Triple.bind (resume_runs hreports s.debugger tid .singlestep) (fun _ =>
    Triple.bind (hrecord _ hselected) fun _ => ?_) s ⟨hs, rfl⟩
  rintro t ⟨ht, hselected, hdue⟩
  rcases ht.wait hreports with ⟨other, status, u, hrun, hu, hdebugger, hothers⟩ | ⟨hready, halt, hrun, -⟩
  · rw [hrun]
    exact ⟨hu, hdebugger ▸ hselected, fun hne => hothers tid (Ne.symm hne) hdue⟩
  · rw [hrun]
    cases halt with
    | thrown exception => exact ht.enter hreports
    | blocked => exact Or.inl ⟨tid, ((hreports t.tick t.target).due tid hdue).isRunning hready⟩

theorem stepOffTrap_waits (tid : Tid) (address : Address) :
    Triple (fun s => Accounted arch s ∧ s.debugger.selectedTid = tid) (stepOffTrap env address)
      (fun event s => Consuming arch event.1 event.2 s ∧ s.debugger.selectedTid = tid ∧
        (event.1 ≠ tid → s.target.Due tid)) (WaitsFor arch) := by
  refine Triple.bind (accounted_does hreports (does_disable (Environment.leavesText_empty env) address)
    (by decide) (neverBlocks_disable address) fun s t hst hs => hst.selectedTid.trans hs) fun _ => ?_
  refine Triple.get_bind fun s => ?_
  refine Triple.bind (Q := fun _ t => Accounted arch t ∧ t.debugger.selectedTid = tid ∧
    s.debugger.selectedTid = tid) (Triple.modify ?_) fun _ => ?_
  · rintro t ⟨rfl, ht, hselected⟩
    exact ⟨⟨ht.formed, ht.candid, ht.recorded⟩, hselected, hselected⟩
  rintro t ⟨ht, hselected, hstepped⟩
  rw [hstepped]
  refine Triple.onThrow (stepThread_waits hreports tid) (fun halt u hu => ?_) t ⟨ht, hselected⟩
  cases halt with
  | thrown exception => exact ⟨hu.formed, hu.candid, hu.recorded⟩
  | blocked => exact hu

/-- A stop is on record, and is the selected thread's afterwards; if the thread that is stepped has not
ended, it is still to be heard of. -/
theorem handleStepEvent_poised (address : Address) (stepped tid : Tid) (status : WaitStatus) :
    Triple (fun s => (Consuming arch tid status s ∧ s.debugger.selectedTid = stepped ∧
        (tid ≠ stepped → s.target.Due stepped)) ∧ lastConsumed s.log = some (.stepOver, tid, status))
      (handleStepEvent arch env address tid status) (fun _ s => Accounted arch s ∧ s.Poised)
      (WaitsFor arch) := by
  have henv := Environment.leavesText_empty env
  let recorded : State R D → Prop := fun s => s.debugger.recordOf tid = some true
  have hkeep : ∀ s t : State R D, Stays s t → recorded s → recorded t :=
    fun s t hst hs => (hst.recordOf tid).trans hs
  have hreinsert : NeverBlocks (reinsert arch env tid address) :=
    .get_bind fun _ => .onThrow (neverBlocks_enable address)
  refine Triple.bind (Q := fun _ s => Accounted arch s ∧ s.debugger.selectedTid = stepped ∧
    (status.isStopped = true → recorded s) ∧ (status.isStopped = false → s.Poised))
    (Triple.modify ?_) fun _ => Triple.doIf (fun hstopped => ?_) fun hrest s hs =>
      ⟨hs.1, hs.2.2.2 (Bool.not_eq_true _ ▸ hrest)⟩
  · rintro s ⟨⟨hs, hselected, hdue⟩, hlast⟩
    have hstop := fun hstopped : status.isStopped = true =>
      (recordOf_insert_self s.debugger tid ⟨tid, status.isStopped, status.stopSignal⟩).trans
        (congrArg some hstopped)
    refine ⟨hs.accounted hs.formed rfl hstop fun other hne => ?_, hselected, hstop, fun hend => ?_⟩
    · exact congrArg (Option.map _) (SortedMap.find?_insert_of_ne _ _ hne)
    · by_cases heq : tid = stepped
      · refine Or.inr (Or.inr ⟨status, ?_, ?_⟩)
        · exact hlast.trans (by rw [heq, ← hselected])
        · cases status with
          | stopped => cases hend
          | continued => exact absurd rfl hs.notContinued
          | _ => rfl
      · exact Or.inr (Or.inl (show s.target.Due s.debugger.selectedTid from hselected ▸ hdue heq))
  · refine Triple.pre (P := fun s => Accounted arch s ∧ recorded s ∧ s.debugger.selectedTid = stepped)
      (Triple.get_bind fun s => ?_) fun s hs => ⟨hs.1, hs.2.2.1 hstopped, hs.2.1⟩
    have hreinserts : ∀ J : State R D → Prop, (∀ s t, Stays s t → J s → J t) →
        Triple (fun s => Accounted arch s ∧ J s) (reinsert arch env tid address)
          (fun _ s => Accounted arch s ∧ J s) (WaitsFor arch) := fun J hJ =>
      accounted_does hreports (does_reinsert henv tid address) (by decide) hreinsert hJ
    by_cases hown : tid = s.debugger.selectedTid
    · rw [if_pos hown]
      refine (hreinserts (fun t => t.debugger.recordOf t.debugger.selectedTid = some true)
        fun t u htu ht => ?_).conseq ?_ (fun _ t ht => ⟨ht.1, Or.inl ht.2⟩) fun _ _ ht => ht
      · rw [htu.selectedTid, htu.recordOf]
        exact ht
      · rintro t ⟨rfl, ht, hrecorded, -⟩
        exact ⟨ht, hown ▸ hrecorded⟩
    · rw [if_neg hown]
      refine Triple.bind ((hreinserts recorded hkeep).pre fun t ht => ⟨ht.2.1, ht.2.2.1⟩) fun _ => ?_
      refine Triple.bind (Q := fun _ t => Accounted arch t ∧
        (recorded t ∧ t.debugger.selectedTid = tid)) (Triple.modify ?_) fun _ => ?_
      · rintro t ⟨ht, hrecorded⟩
        exact ⟨⟨ht.formed, ht.candid, ht.recorded⟩, hrecorded, rfl⟩
      · refine (accounted_does hreports (does_printStop henv tid) (by decide)
          (neverBlocks_printStop tid) fun t u htu ht => ?_).post fun _ t ht => ⟨ht.1, Or.inl ?_⟩
        · exact ⟨hkeep t u htu ht.1, htu.selectedTid.trans ht.2⟩
        · exact ht.2.2 ▸ ht.2.1

theorem stepOverBreakpoint_poised :
    Triple (Accounted arch) (stepOverBreakpoint arch env) (fun _ s => Accounted arch s ∧ s.Poised)
      (WaitsFor arch) := by
  refine Triple.get_bind fun s => ?_
  have hdoes : Does arch env ∅ [.enter] (pc arch env s.debugger.selectedTid) := does_pc (by decide) _
  have hlook := (accounted_does hreports hdoes (by decide) (neverBlocks_pc _)
    (J := fun t => t.debugger.selectedTid = s.debugger.selectedTid)
    fun t u htu ht => htu.selectedTid.trans ht).and (pc_stopped arch env s s.debugger.selectedTid)
  refine Triple.bind (Q := fun _ t => Accounted arch t ∧ t.Poised) ?_ fun address => ?_
  · refine hlook.conseq ?_ (fun _ t ht => ⟨ht.1.1, ?_⟩) fun _ _ ht => ht.1
    · rintro t ⟨rfl, ht⟩
      exact ⟨⟨ht, rfl⟩, rfl⟩
    · obtain ⟨⟨ht, hselected⟩, hstopped⟩ := ht
      rw [← hselected] at hstopped
      by_cases hpending : ∃ status, (t.debugger.selectedTid, status) ∈ t.target.ready
      · exact Or.inr (Or.inl (Or.inr hpending))
      · refine Or.inl (ht.recorded _ ⟨hstopped, fun status hmem => ?_⟩)
        exact absurd ⟨status, hmem⟩ hpending
  refine Triple.get_bind fun t => ?_
  cases t.debugger.breakpoints.find? address with
  | none => exact Triple.pure fun _ ht => ht.2
  | some r =>
      refine Triple.ite (Triple.pre (P := fun u => Accounted arch u ∧
        u.debugger.selectedTid = t.debugger.selectedTid) ?_ ?_) (Triple.pure fun _ ht => ht.2)
      · refine Triple.bind (stepOffTrap_waits hreports t.debugger.selectedTid address) fun event => ?_
        refine Triple.bind (Triple.get_bind fun u => Triple.modify ?_) fun _ =>
          handleStepEvent_poised hreports address t.debugger.selectedTid event.1 event.2
        rintro v ⟨rfl, hv, hselected, hdue⟩
        exact ⟨⟨hv.of_same rfl rfl rfl, hselected, hdue⟩, rfl⟩
      · rintro u ⟨rfl, hu, -⟩
        exact ⟨hu, rfl⟩

omit hreports

/-! ### Hearing of a thread -/

theorem neverBlocks_refreshTarget : NeverBlocks (refreshTarget arch env) := by
  have hannounce : ∀ specification addresses,
      NeverBlocks (announceResolved arch env specification addresses) := by
    intro specification addresses
    induction addresses with
    | nil => exact .pure _
    | cons address rest ih =>
        exact (neverBlocks_createBreakpoint _ _ _).bind fun _ => (NeverBlocks.print _).bind fun _ => ih
  have hresolve : ∀ pending kept, NeverBlocks (resolvePendingFrom arch env kept pending) := by
    intro pending
    induction pending with
    | nil => exact fun _ => .pure _
    | cons breakpoint rest ih =>
        refine fun kept => .get_bind fun s => ?_
        cases resolveSpecification s.debugger.modules breakpoint.specification with
        | nil => exact ih _
        | cons address addresses =>
            exact (hannounce _ _).bind fun _ => (NeverBlocks.modify _).bind fun _ => ih _
  refine NeverBlocks.bind ((NeverBlocks.modify _).bind fun _ => .get_bind fun s => ?_) fun _ =>
    .get_bind fun t => hresolve _ _
  cases s.target.maps with
  | none => exact .throw _
  | some modules => exact .modify _

theorem neverBlocks_prepareThread (tid : Tid) : NeverBlocks (prepareThread arch env tid) :=
  .attempt ((NeverBlocks.ptrace _ _ _).bind fun _ => .get_bind fun _ =>
    .forM _ fun _ => neverBlocks_configureWatchpoint _ _ _ _ _) fun _ => .pure _

/-- A clone that is announced takes nobody off the record. -/
theorem Accounted.announced (hs : Accounted arch s) (state : ThreadState)
    (hformed : WellFormed arch t.debugger.breakpoints) (htarget : t.target = s.target)
    (hthreads : t.debugger.threads = s.debugger.threads.emplace tid state) : Accounted arch t := by
  refine ⟨hformed, htarget ▸ hs.candid, fun other hparked => ?_⟩
  rw [htarget] at hparked
  have hrecorded := hs.recorded other hparked
  rw [Debugger.recordOf, hthreads, SortedMap.find?_emplace, if_neg]
  · exact hrecorded
  · rintro ⟨rfl, hnone⟩
    rw [Debugger.recordOf, hnone] at hrecorded
    cases hrecorded

include hreports

theorem accounted_answer {m : Dbg R D α} (kinds : List Kind) (hm : Does arch env ∅ kinds m)
    (hkinds : kinds ⊆ staying) (hreturns : NeverBlocks m) :
    Upholds (Accounted arch) (WaitsFor arch) m :=
  (accounted_does hreports hm hkinds hreturns (J := fun _ => True) fun _ _ _ ht => ht).conseq
    (fun _ hs => ⟨hs, trivial⟩) (fun _ _ hs => hs.1) fun _ _ hs => hs

theorem recordClone_accounted (tid : Tid) :
    Upholds (Accounted arch) (WaitsFor arch) (recordClone env tid) := by
  refine Triple.bind (accounted_answer hreports [.enter] (does_peek (by decide)) (by decide)
    (.ptrace _ _ _)) fun newTid => Triple.modify fun s hs => ?_
  exact hs.announced _ hs.formed rfl rfl

theorem handleStop_accounted (tid : Tid) (signal event : Nat) :
    Triple (Consuming arch tid (.stopped signal event)) (handleStop arch env tid signal event)
      (fun _ => Accounted arch) (WaitsFor arch) := by
  have hrefresh : Upholds (Accounted arch) (WaitsFor arch) (refreshTarget arch env) :=
    accounted_answer hreports resolving (does_refreshTarget (Environment.leavesText_empty env))
      (by decide) neverBlocks_refreshTarget
  have hprepare : Upholds (Accounted arch) (WaitsFor arch) (prepareThread arch env tid) :=
    accounted_answer hreports session (does_prepareThread tid) (by decide) (neverBlocks_prepareThread tid)
  have hoptional : ∀ {c : Prop} [Decidable c] {m : Dbg R D PUnit},
      Upholds (Accounted arch) (WaitsFor arch) m → Upholds (Accounted arch) (WaitsFor arch) (doIf c m) :=
    fun hm => Triple.doIf (fun _ => hm) fun _ _ hs => hs
  refine Triple.bind (Q := fun _ => Accounted arch) (Triple.modify fun s hs => ?_) fun _ => ?_
  · refine hs.accounted hs.formed rfl (fun _ => recordOf_insert_self _ _ _) fun other hne => ?_
    exact congrArg (Option.map _) (SortedMap.find?_insert_of_ne _ _ hne)
  refine Triple.bind (hoptional (recordClone_accounted hreports tid)) fun _ => ?_
  refine Triple.bind (hoptional hrefresh) fun _ => ?_
  exact Triple.bind (hoptional hprepare) fun _ => hrefresh

theorem handleEvent_accounted (tid : Tid) (status : WaitStatus) (report : Bool) :
    Triple (Consuming arch tid status) (handleEvent arch env tid status report)
      (fun _ => Accounted arch) (WaitsFor arch) := by
  have hprint : ∀ message, Upholds (Accounted arch) (WaitsFor arch) (print message) := fun message =>
    accounted_answer hreports [.say] (does_print (by decide) message) (by decide)
      (.print message)
  have hend : status.isStopped = false → ∀ message, Triple (Consuming arch tid status) (do
      handleEnd tid
      doIf report (print message)) (fun _ => Accounted arch) (WaitsFor arch) := by
    refine fun hstatus message => Triple.bind (Q := fun _ => Accounted arch) (Triple.modify fun s hs => ?_)
      fun _ => Triple.doIf (fun _ => hprint message) fun _ _ hs => hs
    refine hs.accounted hs.formed rfl (fun hstopped => ?_) fun other hne => ?_
    · cases hstatus.symm.trans hstopped
    · exact congrArg (Option.map _) ((SortedMap.find?_erase _ _ _).trans (if_neg hne))
  refine Triple.bind (Q := fun _ => Consuming arch tid status) (Triple.modify fun s hs => ?_) fun _ => ?_
  · exact hs.of_same rfl rfl rfl
  cases status with
  | exited code => exact hend rfl _
  | signaled signal => exact hend rfl _
  | continued => exact Triple.pure fun _ hs => absurd rfl hs.notContinued
  | stopped signal event =>
      refine Triple.bind (handleStop_accounted hreports tid signal event) fun _ =>
        Triple.doIf (fun _ => ?_) fun _ _ hs => hs
      exact accounted_answer hreports _ (does_reportStop (Environment.leavesText_empty env) tid) (by decide)
        (neverBlocks_reportStop tid)

/-- If there is somebody to wait for wherever nothing is to be heard, the wait is for somebody. -/
theorem waitAndReport_accounted (report : Bool) {J : State R D → Prop}
    (hJ : ∀ s, Accounted arch s → J s → (env.enter s).target.ready = [] →
      (env.enter s).target.tasks.entries ≠ [] → (env.enter s).Awaits) :
    Triple (fun s => Accounted arch s ∧ J s) (waitAndReport arch env report) (fun _ => Accounted arch)
      (WaitsFor arch) := by
  have hnext : ∀ event : Tid × WaitStatus, Triple (Consuming arch event.1 event.2)
      (do
        noteConsumed arch .waitAndReport event.1 event.2
        handleEvent arch env event.1 event.2 report) (fun _ => Accounted arch) (WaitsFor arch) := by
    refine fun event => Triple.bind (Q := fun _ => Consuming arch event.1 event.2)
      (Triple.get_bind fun s => Triple.modify ?_) fun _ => handleEvent_accounted hreports _ _ report
    rintro t ⟨rfl, ht⟩
    exact ht.of_same rfl rfl rfl
  refine Triple.bind (Q := fun event => Consuming arch event.1 event.2) ?_ hnext
  rintro s ⟨hs, hjs⟩
  rcases hs.wait hreports with ⟨tid, status, t, hrun, ht, -, -⟩ | ⟨hready, halt, hrun, hblocked⟩
  · rw [hrun]
    exact ht
  · rw [hrun]
    cases halt with
    | thrown exception => exact hs.enter hreports
    | blocked => exact hJ s hs hjs hready (hblocked rfl)

/-! ### Execution -/

omit hreports in
theorem resumeThread_of_unrecorded {request : ResumeRequest}
    (hunrecorded : s.debugger.recordOf tid ≠ some true) :
    resumeThread env tid request s = .ok ⟨⟩ s := by
  rw [resumeThread, get_bind_apply]
  cases hfind : s.debugger.threads.find? tid with
  | none => rfl
  | some state =>
      dsimp only
      rw [if_neg, pure_apply]
      intro hstopped
      rw [Debugger.recordOf, hfind, Option.map_some, hstopped] at hunrecorded
      exact hunrecorded rfl

/-- The thread is resumed if it is recorded as stopped, and is not so recorded afterwards. -/
theorem resumeThread_resumes (d : Debugger) (tid : Tid) (request : ResumeRequest) :
    Triple (fun s => Accounted arch s ∧ s.debugger = d) (resumeThread env tid request)
      (fun _ t => Accounted arch t ∧ t.debugger.selectedTid = d.selectedTid ∧
        (d.recordOf tid = some true → t.target.isRunning tid = true) ∧
        ∀ other, t.debugger.recordOf other = some true →
          other ≠ tid ∧ d.recordOf other = some true) (WaitsFor arch) := by
  rintro s ⟨hs, rfl⟩
  by_cases hrecorded : s.debugger.recordOf tid = some true
  · obtain ⟨state, hfind, hstopped⟩ := Option.map_eq_some_iff.mp hrecorded
    rw [resumeThread, get_bind_apply, hfind]
    dsimp only
    rw [if_pos hstopped]
    refine Triple.bind (resume_runs hreports s.debugger tid request) (fun _ => Triple.modify ?_) s ⟨hs, rfl⟩
    rintro t ⟨ht, hdebugger, hrunning⟩
    have hothers : ∀ other ≠ tid, Debugger.recordOf { t.debugger with
        threads := t.debugger.threads.modify tid fun state => { state with stopped := false, signal := 0 } }
          other = t.debugger.recordOf other := fun other hne => recordOf_modify_of_ne rfl hne
    have hselected : t.debugger.selectedTid = s.debugger.selectedTid := by rw [hdebugger]
    refine ⟨ht.running hrunning ht.formed rfl hothers, hselected, fun _ => hrunning, fun other hother => ?_⟩
    have hne : other ≠ tid := by
      rintro rfl
      change ((t.debugger.threads.modify other _).find? other).map _ = _ at hother
      rw [SortedMap.find?_modify_self] at hother
      cases hfound : t.debugger.threads.find? other <;> rw [hfound] at hother <;> cases hother
    exact ⟨hne, hdebugger ▸ (hothers other hne).symm.trans hother⟩
  · rw [resumeThread_of_unrecorded hrecorded]
    refine ⟨hs, rfl, fun h => absurd h hrecorded, fun other hother => ⟨?_, hother⟩⟩
    rintro rfl
    exact hrecorded hother

/-- After the loop of `continue` no thread is recorded as stopped. -/
theorem resumeStopped_resumes (entries : List (Tid × ThreadState)) :
    Triple (fun s => Accounted arch s ∧ ∀ tid, s.debugger.recordOf tid = some true →
        ∃ entry ∈ entries, entry.1 = tid)
      (resumeStopped env entries)
      (fun _ s => Accounted arch s ∧ ∀ tid, s.debugger.recordOf tid ≠ some true) (WaitsFor arch) := by
  induction entries with
  | nil =>
      refine Triple.pure fun s hs => ⟨hs.1, fun tid hrecorded => ?_⟩
      obtain ⟨entry, hmem, -⟩ := hs.2 tid hrecorded
      cases hmem
  | cons entry rest ih =>
      rintro s ⟨hs, hleft⟩
      refine Triple.bind (resumeThread_resumes hreports s.debugger entry.1 .cont) (fun _ => ih.pre ?_) s
        ⟨hs, rfl⟩
      rintro t ⟨ht, -, -, hrest⟩
      refine ⟨ht, fun tid hrecorded => ?_⟩
      obtain ⟨hne, hbefore⟩ := hrest tid hrecorded
      obtain ⟨other, hmem, rfl⟩ := hleft tid hbefore
      rcases List.mem_cons.mp hmem with rfl | hlater
      · exact absurd rfl hne
      · exact ⟨other, hlater, rfl⟩

theorem continueExecution_waits : Upholds (Accounted arch) (WaitsFor arch) (continueExecution arch env) := by
  refine Triple.get_bind fun s => Triple.pre ?_ fun _ ht => ht.2
  refine Triple.ite (Triple.bind (stepOverBreakpoint_poised hreports) fun _ => ?_)
    (accounted_answer hreports [.say] (does_print (by decide) _) (by decide) (.print _))
  refine Triple.get_bind fun t => Triple.bind (Triple.pre (resumeStopped_resumes hreports _) ?_) fun _ => ?_
  · rintro u ⟨rfl, hu, -⟩
    refine ⟨hu, fun tid hrecorded => ?_⟩
    obtain ⟨state, hmem, -⟩ := (recordOf_eq_true_iff u.debugger tid).mp hrecorded
    exact ⟨_, hmem, rfl⟩
  refine waitAndReport_accounted hreports true fun u hu hnone hready htasks => ?_
  -- Nobody is recorded as stopped, so nobody is in a stop that has been reported.
  obtain ⟨⟨tid, task⟩, hmem⟩ := List.exists_mem_of_ne_nil _ htasks
  have htask := SortedMap.mem_entries_iff.mp hmem
  refine Or.inl ⟨tid, Target.isRunning_iff.mpr ⟨task, htask, Bool.eq_false_iff.mpr fun hstopped => ?_⟩⟩
  refine hnone tid ((hu.enter hreports).recorded tid ⟨⟨task, htask, hstopped⟩, fun status hpending => ?_⟩)
  rw [hready] at hpending
  cases hpending

theorem instructionStep_waits (report : Bool) :
    Upholds (Accounted arch) (WaitsFor arch) (instructionStep arch env report) := by
  refine Triple.get_bind fun s => Triple.pre ?_ fun _ ht => ht.2
  refine Triple.ite (Triple.bind (stepOverBreakpoint_poised hreports) fun _ => ?_)
    (Triple.pure fun _ hs => hs)
  refine Triple.get_bind fun t => ?_
  refine Triple.bind (Q := fun _ u => Accounted arch u ∧
    (u.target.Due u.debugger.selectedTid ∨ u.SteppedToItsEnd)) ?_ fun _ => ?_
  · rintro u ⟨rfl, hu, hpoised⟩
    by_cases hrecorded : u.debugger.recordOf u.debugger.selectedTid = some true
    · refine (resumeThread_resumes hreports u.debugger u.debugger.selectedTid .singlestep).post ?_ u ⟨hu, rfl⟩
      rintro _ v ⟨hv, hselected, hrunning, -⟩
      exact ⟨hv, Or.inl (Or.inl (hselected ▸ hrunning hrecorded))⟩
    · rw [resumeThread_of_unrecorded hrecorded]
      exact ⟨hu, hpoised.resolve_left hrecorded⟩
  · refine waitAndReport_accounted hreports report fun u hu hdue hready _ => ?_
    refine hdue.imp (fun hdue => ⟨u.debugger.selectedTid, ?_⟩) steppedToItsEnd_enter.mpr
    exact ((hreports u.tick u.target).due _ hdue).isRunning hready

theorem accounted_upheld : UpheldWithin arch env ∅ (Accounted arch) (WaitsFor arch) where
  thrown _ _ hs := hs
  answer hm hreturns := accounted_answer hreports answering hm (by decide) hreturns
  select tid := Triple.modify fun _ hs => ⟨hs.formed, hs.candid, hs.recorded⟩
  continueExecution := continueExecution_waits hreports
  instructionStep := instructionStep_waits hreports

/-! ### Sessions -/

omit hreports in
theorem waitFor_taken {status : WaitStatus} (hrun : waitFor env tid s = .ok status t) {other : Tid}
    {status' : WaitStatus} (hne : other ≠ tid)
    (hmem : (other, status') ∈ (env.enter s).target.ready) : (other, status') ∈ t.target.ready := by
  unfold waitFor at hrun
  dsimp only at hrun
  split at hrun
  · rename_i hfound
    have hown := List.find?_some hfound
    simp only [decide_eq_true_eq] at hown
    obtain ⟨-, rfl⟩ := EStateM.Result.ok.inj hrun
    refine (List.mem_eraseP_of_neg ?_).mpr hmem
    simpa [hown] using hne
  · split at hrun <;> cases hrun

theorem accounted_opened {target : Target R D} (hcandid : target.Candid)
    (hfresh : ∀ tid, ¬ target.Parked tid)
    (hrun : openSession arch env (State.initial child target) = .ok ⟨⟩ s) : Accounted arch s := by
  have henv := Environment.leavesText_empty env
  have hkeeps : ∀ {β : Type} {m : Dbg R D β}, Does arch env ∅ session m →
      Within (Keeps (Accounted arch)) m := fun hm u hu =>
    (stays_of_does hreports hm (by decide) u hu).2
  obtain ⟨status, t, hwait, hrelated⟩ := openSession_related (hkeeps (does_setOptions _))
    (hkeeps (does_refreshModules.mono (by decide)))
    (hkeeps ((does_resolvePendingBreakpoints henv).mono (by decide)))
    (fun message => hkeeps (does_print (by decide) message))
    (fun tid => hkeeps ((does_printStop henv tid).mono (by decide))) hrun
  obtain ⟨hdebugger, -, htasks, hready⟩ := waitFor_ready hwait
  have honward := hreports 0 target
  refine hrelated ⟨?_, ⟨fun tid hending => ?_, fun tid hmem => ?_⟩, fun tid hparked => ?_⟩
  · rw [State.launched, hdebugger]
    exact wellFormed_empty
  · obtain ⟨status', hmem, hend⟩ := hending
    exact htasks ▸ (honward.candid hcandid).gone tid ⟨status', hready hmem, hend⟩
  · exact (honward.candid hcandid).neverContinued tid (hready hmem)
  · -- No stop has been reported yet but the one of the process.
    by_cases heq : tid = child
    · rw [heq, State.launched, hdebugger]
      exact congrArg (Option.map _) (SortedMap.find?_insert_self SortedMap.empty child _)
    · refine absurd (honward.parked tid ⟨htasks ▸ hparked.1, fun status' hmem => ?_⟩) (hfresh tid)
      exact hparked.2 status' (waitFor_taken hwait heq hmem)

theorem Prompt.accounted {target : Target R D} (hcandid : target.Candid)
    (hfresh : ∀ tid, ¬ target.Parked tid) (hs : Prompt arch env (State.initial child target) s) :
    Accounted arch s := by
  induction hs with
  | opened hrun => exact accounted_opened hreports hcandid hfresh hrun
  | command line _ hrun ih =>
      exact ((accounted_upheld hreports).dispatch (Environment.leavesText_empty env) line).of_ok ih hrun

/-- Whatever line is typed, if the debugger waits forever then some thread runs, or it has stepped the
selected thread to its end. -/
theorem Prompt.waits_for_somebody {target : Target R D} (hcandid : target.Candid)
    (hfresh : ∀ tid, ¬ target.Parked tid) (hs : Prompt arch env (State.initial child target) s)
    {line : Text} (hrun : dispatch arch env line s = .error .blocked t) :
    (∃ tid, t.target.isRunning tid = true) ∨ t.SteppedToItsEnd :=
  ((accounted_upheld hreports).dispatch (Environment.leavesText_empty env) line).of_error
    (hs.accounted hreports hcandid hfresh) hrun

end StepOver

theorem candid_twoThreads : twoThreads.Candid := by
  refine ⟨endsGone_twoThreads, fun tid hmem => ?_⟩
  simp [twoThreads] at hmem

theorem not_parked_twoThreads (tid : Tid) : ¬ twoThreads.Parked tid := by
  rintro ⟨⟨task, htask, -⟩, hreported⟩
  have hmem : (tid, task) ∈ twoThreads.tasks.entries := SortedMap.mem_entries_iff.mpr htask
  have htids : tid ∈ twoThreads.tasks.entries.map Prod.fst := List.mem_map_of_mem hmem
  rcases List.mem_pair.mp htids with rfl | rfl
  · cases hreported (.stopped sigtrap 0) List.mem_cons_self
  · cases hreported (.stopped sigstop 0) (List.mem_cons_of_mem _ List.mem_cons_self)

/-- The first thread stops on its way out (`PTRACE_EVENT_EXIT` is 6) when it is stepped, and is gone
when it is stepped again. -/
def endingMachine : Environment UserRegs X86_64.DebugRegisters := nopMachine fun tick =>
  if tick = 15 then [.stop 1 sigtrap 6 0 0] else if tick = 28 then [.exit 1 0] else []

/-- It ends while it is stepped over a breakpoint, and the second thread is stopped. -/
theorem Prompt.waits_for_somebody_ending :
    ∃ s t, Prompt x86_64 endingMachine (State.initial 1 twoThreads) s ∧
      dispatch x86_64 endingMachine "stepi".toList s = .error .blocked t ∧
      (∀ entry ∈ t.target.tasks.entries, entry.2.stopped = true) ∧ t.SteppedToItsEnd := by
  obtain ⟨s, hs, hcheck⟩ := Prompt.exists_of_runBatch x86_64 endingMachine (State.initial 1 twoThreads)
    ["b *0x1000".toList, "stepi".toList, "stepi".toList, "enable 1".toList]
    (p := fun s => match dispatch x86_64 endingMachine "stepi".toList s with
      | .error .blocked t => t.target.tasks.entries.all fun entry => entry.2.stopped
      | _ => false) (by decide +kernel)
  have hreports : endingMachine.Reports := Machine.reports fun tick action hmem => by
    dsimp only at hmem
    split at hmem
    · rw [List.mem_singleton.mp hmem]
      rfl
    · split at hmem
      · rw [List.mem_singleton.mp hmem]
        rfl
      · cases hmem
  cases hrun : dispatch x86_64 endingMachine "stepi".toList s with
  | ok more t =>
      rw [hrun] at hcheck
      cases hcheck
  | error halt t =>
      rw [hrun] at hcheck
      cases halt with
      | thrown exception => cases hcheck
      | blocked =>
          have hstopped := List.all_eq_true.mp hcheck
          refine ⟨s, t, hs, hrun, hstopped, ?_⟩
          rcases Prompt.waits_for_somebody hreports candid_twoThreads not_parked_twoThreads hs hrun with
            ⟨tid, hrunning⟩ | hended
          · obtain ⟨task, htask, hflag⟩ := Target.isRunning_iff.mp hrunning
            have hflag' := hstopped _ (SortedMap.mem_entries_iff.mpr htask)
            cases hflag.symm.trans hflag'
          · exact hended

end Cosy
