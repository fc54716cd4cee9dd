import Cosy.Lib.Census
import Cosy.Reports

/-!
# Clone events in any order

A thread gets into the table by a stop of its own or by the clone event of another thread, and out
of it by its end. `continue` after `continue`, the table is the census kept from what is consumed,
and the one order that spoils it is an announcement consumed after the end of the thread.
-/

namespace Cosy

open ByteMemory Effect Census

variable {R D α : Type} {arch : Architecture R D} {env : Environment R D} {s t : State R D}
  {tid : Tid}

/-- Whether a thread of the table is recorded as stopped. -/
def Debugger.recordOf (d : Debugger) (tid : Tid) : Option Bool :=
  (d.threads.find? tid).map ThreadState.stopped

theorem recordOf_eq_true_iff (d : Debugger) (tid : Tid) :
    d.recordOf tid = some true ↔ ∃ state, (tid, state) ∈ d.threads.entries ∧ state.stopped = true := by
  rw [Debugger.recordOf, Option.map_eq_some_iff]
  simp only [SortedMap.mem_entries_iff]

/-! ### What is heard of the threads -/

def Entry.resumption : Entry → Option (News Tid)
  | .resumed tid _ _ => some (.resumed tid)
  | _ => none

def Entry.isStepConsumed : Entry → Bool
  | .consumed .stepOver _ _ _ => true
  | _ => false

/-- The thread that a clone event announces, if `PTRACE_GETEVENTMSG` succeeds. -/
def announcedBy (env : Environment R D) (tid : Tid) (s : State R D) : Option Tid :=
  match (env.enter s).target.tasks.find? tid with
  | some task => if task.stopped && !env.fails s.tick then some (toPid task.eventMsg) else none
  | none => none

/-- What `wait_and_report` learns from a status, the newest first. -/
def newsOf (env : Environment R D) (tid : Tid) (status : WaitStatus) (s : State R D) :
    List (News Tid) :=
  match status with
  | .exited _ | .signaled _ => [.ended tid]
  | .stopped _ event =>
      if event = ptraceEventClone then
        match announcedBy env tid s with
        | some newTid => [.announced newTid, .stopped tid]
        | none => [.stopped tid]
      else [.stopped tid]
  | .continued => []

def newsOfWait (env : Environment R D) (s : State R D) : List (News Tid) :=
  match waitForEvent env s with
  | .ok (tid, status) t => newsOf env tid status t
  | .error _ _ => []

/-- `continue` up to its wait. -/
def resumeAll (arch : Architecture R D) (env : Environment R D) : Dbg R D Unit := do
  stepOverBreakpoint arch env
  let s ← get
  resumeStopped env s.debugger.threads.entries

def resumptions (s t : State R D) : List (News Tid) := (s.entriesSince t).filterMap Entry.resumption

/-- What there is to hear of the threads in the course of one `continue`. -/
def newsOfContinue (arch : Architecture R D) (env : Environment R D) (s : State R D) :
    List (News Tid) :=
  if s.debugger.alive then
    match resumeAll arch env s with
    | .ok _ t => newsOfWait env t ++ resumptions s t
    | .error _ t => resumptions s t
  else []

/-- No event is consumed before the wait of this `continue`. -/
def waitsOnce (arch : Architecture R D) (env : Environment R D) (s : State R D) : Bool :=
  !(s.entriesSince (endState (resumeAll arch env) s)).any Entry.isStepConsumed

/-! ### Up to the wait -/

/-- With a well-formed table, the entries of the threads follow the resumptions in the log, until
an event is consumed. -/
def Follows (arch : Architecture R D) (s t : State R D) : Prop :=
  WellFormed arch s.debugger.breakpoints → WellFormed arch t.debugger.breakpoints ∧
    ∃ newer, t.log = newer ++ s.log ∧ (newer.any Entry.isStepConsumed = false →
      ∀ tid, t.debugger.recordOf tid
        = entryFrom (s.debugger.recordOf tid) tid (newer.filterMap Entry.resumption))

instance : IsPreorder (State R D) (Follows arch) where
  refl _ := fun hs => ⟨hs, [], rfl, fun _ _ => rfl⟩
  trans s t u hst htu := fun hs => by
    obtain ⟨ht, newer, hnewer, hfirst⟩ := hst hs
    obtain ⟨hu, newest, hnewest, hsecond⟩ := htu ht
    refine ⟨hu, newest ++ newer, by rw [hnewest, hnewer, List.append_assoc], fun hquiet tid => ?_⟩
    rw [List.any_append, Bool.or_eq_false_iff] at hquiet
    rw [hsecond hquiet.1, hfirst hquiet.2, List.filterMap_append, entryFrom_append]

/-- The table is the same, and nothing is logged that tells of the threads. -/
theorem Follows.of_silent (hformed : WellFormed arch s.debugger.breakpoints →
      WellFormed arch t.debugger.breakpoints) (hthreads : t.debugger.threads = s.debugger.threads)
    (hlog : Appends (fun entry => entry.resumption = none) s t) : Follows arch s t := by
  intro hs
  obtain ⟨newer, hnewer, hsilent⟩ := hlog
  refine ⟨hformed hs, newer, hnewer, fun _ tid => ?_⟩
  rw [List.filterMap_eq_nil_iff.mpr hsilent, Debugger.recordOf, hthreads]
  rfl

theorem follows_logged {entry : Entry} (hentry : entry.resumption = none) :
    Follows arch s (s.logged entry) := .of_silent id rfl (.cons rfl hentry)

/-- Only moves of two kinds tell of the threads. -/
theorem Move.follows {kind : Kind} (hmove : Move arch env ∅ kind s t)
    (hkind : kind ∉ [.threads, .resume]) : Follows arch s t := by
  obtain ⟨hthreads, -⟩ := hmove.sameThreads fun heq => hkind (by simp [heq])
  refine .of_silent (fun hs => hmove.wellFormed hs) hthreads ?_
  cases hmove with
  | enter => exact appends_enter (fun _ => rfl) s
  | say _ hentry | report _ hentry | stepping _ hentry =>
      refine .cons rfl ?_
      rename_i entry
      cases entry <;> first | rfl | cases hentry
  | arming | abandon | userEnabled | userDisabled | write | release => exact .cons rfl rfl
  | force | lift => exact ⟨[_, _], rfl, by simp [Entry.resumption]⟩
  | resume => exact absurd (by decide) hkind
  | _ => exact .of_eq rfl

theorem follows_of_does (kinds : List Kind) {m : Dbg R D α} (hm : Does arch env ∅ kinds m)
    (hkinds : ∀ kind ∈ kinds, kind ∉ [Kind.threads, .resume]) : Within (Follows arch) m := by
  intro s hs
  obtain ⟨hmoves, -⟩ := hm s hs
  exact hmoves.relate (fun kind hkind _ _ hmove => hmove.follows (hkinds kind hkind)) hs

theorem resume_cases (env : Environment R D) (tid : Tid) (request : ResumeRequest) (s : State R D) :
    (∃ t, resume env tid request 0 s = .ok ⟨⟩ t ∧ t.debugger = s.debugger ∧
      t.log = .resumed tid request 0 :: (env.enter s).log) ∨
    ∃ halt, resume env tid request 0 s = .error halt (env.enter s) := by
  rcases ptrace_cases env request.operation tid (fun task target =>
      (PUnit.unit, target.setTask tid
        { task with stopped := false, stepping := request = .singlestep })) s with
    ⟨task, -, -, -, hrun⟩ | ⟨-, hrun⟩
  · exact Or.inl ⟨_, bind_ok hrun, rfl, rfl⟩
  · exact Or.inr ⟨_, bind_error hrun⟩

/-- A request that resumes a thread, whose entry in the table is then changed. -/
theorem follows_resume (tid : Tid) (request : ResumeRequest) {m : Dbg R D α}
    (hm : ∀ s : State R D, (endState m s).log = s.log ∧
      (endState m s).debugger.breakpoints = s.debugger.breakpoints ∧
      ∀ other, (endState m s).debugger.recordOf other
        = entryFrom (s.debugger.recordOf other) other [.resumed tid]) :
    Within (Follows arch) (resume env tid request 0 >>= fun _ => m) := by
  intro s
  rcases resume_cases env tid request s with ⟨t, hrun, hdebugger, hlogged⟩ | ⟨halt, hrun⟩
  · rw [WithinAt, endState_bind_ok hrun]
    obtain ⟨hlog, hbreakpoints, hrecords⟩ := hm t
    intro hs
    refine ⟨?_, .resumed tid request 0 :: (env.interfere s.tick s.target).1.map Entry.target, ?_,
      fun _ other => ?_⟩
    · rwa [hbreakpoints, hdebugger]
    · rw [hlog, hlogged, enter_log, List.cons_append]
    · have hsilent : ((env.interfere s.tick s.target).1.map Entry.target).filterMap Entry.resumption
          = [] := by simp [Entry.resumption]
      rw [hrecords, hdebugger, List.filterMap_cons, hsilent]
      rfl
  · rw [WithinAt, endState_bind_error hrun]
    exact (Move.enter s).follows (by decide)

theorem recordOf_resumed (d : Debugger) {change : ThreadState → ThreadState}
    (hchange : ∀ state, (change state).stopped = false) (tid other : Tid) :
    Debugger.recordOf { d with threads := d.threads.modify tid change } other
      = entryFrom (d.recordOf other) other [.resumed tid] := by
  have hrecord : Debugger.recordOf { d with threads := d.threads.modify tid change } other
      = ((d.threads.modify tid change).find? other).map ThreadState.stopped := rfl
  rw [hrecord, SortedMap.find?_modify]
  by_cases heq : tid = other
  · rw [if_pos heq.symm, heq]
    simp only [entryFrom, News.key, if_pos, News.change, Debugger.recordOf, Option.map_map]
    congr 1
    funext state
    exact hchange state
  · rw [if_neg (Ne.symm heq)]
    exact (entryFrom_of_ne (by simpa [News.key] using heq)).symm

theorem follows_resumeThread (tid : Tid) (request : ResumeRequest) :
    Within (Follows arch) (resumeThread env tid request) := by
  refine Within.get_bind fun s => ?_
  cases s.debugger.threads.find? tid with
  | none => exact .pure _
  | some state =>
      refine Within.ite (fun _ => ?_) (fun _ => .pure _) s
      refine follows_resume tid request fun t => ⟨rfl, rfl, fun other => ?_⟩
      exact recordOf_resumed t.debugger (fun _ => rfl) tid other

theorem follows_stepThread (tid : Tid) : Within (Follows arch) (stepThread env tid) := by
  have hwait : Within (Follows arch) (waitForEvent env) :=
    follows_of_does [.enter, .take] (does_waitForEvent (by decide) (by decide)) (by decide)
  have hstep : stepThread env tid
      = ((resume env tid .singlestep 0 >>= fun _ => recordRunning tid) >>= fun _ =>
          waitForEvent env) := by
    rw [stepThread, bind_assoc]
  rw [hstep]
  refine Within.bind (follows_resume tid .singlestep fun t => ?_) fun _ => hwait
  by_cases hknown : t.debugger.threads.contains tid = true
  · have hrun : endState (recordRunning tid) t = _ :=
      endState_of_ok (by rw [recordRunning, get_bind_apply, if_pos hknown]; rfl)
    rw [hrun]
    exact ⟨rfl, rfl, recordOf_resumed t.debugger (fun _ => rfl) tid⟩
  · have hrun : endState (recordRunning tid) t = t :=
      endState_of_error (by rw [recordRunning, get_bind_apply, if_neg hknown]; rfl)
    rw [hrun]
    refine ⟨rfl, rfl, fun other => ?_⟩
    by_cases heq : tid = other
    · have hnone : t.debugger.recordOf other = none := by
        rw [Debugger.recordOf, Option.map_eq_none_iff, ← heq]
        exact SortedMap.contains_eq_false_iff.mp (by simpa using hknown)
      rw [hnone]
      simp [entryFrom, News.key, News.change, heq]
    · simp [entryFrom, News.key, heq]

theorem follows_stepOffTrap (address : Address) :
    Within (Follows arch) (stepOffTrap env address) := by
  refine Within.bind ?_ fun _ => ?_
  · exact follows_of_does _ (does_disable (Environment.leavesText_empty env) address) (by decide)
  refine Within.get_bind fun s => WithinAt.modify_bind (follows_logged rfl) ?_
  refine WithinAt.onThrow (follows_stepThread _ _) fun halt t _ => ?_
  cases halt with
  | thrown exception => exact follows_logged rfl
  | blocked => exact refl_of _ t

/-- Once an event is consumed, nothing more is said. -/
theorem follows_stepEvent (address : Address) (tid : Tid) (status : WaitStatus) :
    Within (Follows arch) (do
      noteConsumed arch .stepOver tid status
      handleStepEvent arch env address tid status) := by
  intro s hs
  let consumed := s.logged (.consumed .stepOver tid status (s.target.stoppedAt arch tid))
  obtain ⟨hmoves, hformed⟩ := does_handleStepEvent (Environment.leavesText_empty env) address tid
    status consumed hs
  obtain ⟨newest, hnewest⟩ := hmoves.log_suffix
  refine ⟨hformed, newest ++ [.consumed .stepOver tid status (s.target.stoppedAt arch tid)], ?_, ?_⟩
  · rw [List.append_assoc]
    exact hnewest.symm
  · intro hquiet
    rw [List.any_append, Bool.or_eq_false_iff] at hquiet
    cases hquiet.2

theorem follows_stepOverBreakpoint : Within (Follows arch) (stepOverBreakpoint arch env) := by
  refine Within.get_bind fun s => Within.bind ?_ (fun address => ?_) s
  · exact follows_of_does [.enter] (does_pc (by decide) _) (by decide)
  refine Within.get_bind fun t => ?_
  cases t.debugger.breakpoints.find? address with
  | none => exact .pure _
  | some r =>
      refine Within.ite (fun _ => ?_) (fun _ => .pure _) t
      exact Within.bind (follows_stepOffTrap address) fun event => follows_stepEvent _ _ _

theorem follows_resumeAll : Within (Follows arch) (resumeAll arch env) := by
  refine Within.bind follows_stepOverBreakpoint fun _ => Within.get_bind fun s => ?_
  have hloop : ∀ entries, Within (Follows arch) (resumeStopped env entries) := by
    intro entries
    induction entries with
    | nil => exact .pure _
    | cons entry rest ih => exact Within.bind (follows_resumeThread entry.1 .cont) fun _ => ih
  exact hloop _ s

/-- Before the wait, the table is changed by the resumptions alone. -/
theorem resumeAll_records (hs : WellFormed arch s.debugger.breakpoints)
    (hquiet : waitsOnce arch env s = true) (tid : Tid) :
    (endState (resumeAll arch env) s).debugger.recordOf tid
      = entryFrom (s.debugger.recordOf tid) tid
        (resumptions s (endState (resumeAll arch env) s)) := by
  obtain ⟨-, newer, hnewer, hrecords⟩ := follows_resumeAll s hs
  rw [waitsOnce, entriesSince_of_append hnewer, Bool.not_eq_true'] at hquiet
  rw [hrecords hquiet tid, resumptions, entriesSince_of_append hnewer]

/-! ### The wait -/

section Records

variable {d d' : Debugger} {key : Tid}

theorem recordOf_insert {state : ThreadState}
    (hthreads : d'.threads = d.threads.insert tid state) (hstopped : state.stopped = true) :
    d'.recordOf key = entryFrom (d.recordOf key) key [.stopped tid] := by
  rw [Debugger.recordOf, hthreads, SortedMap.find?_insert]
  by_cases heq : tid = key
  · rw [if_pos heq.symm, heq]
    simp [entryFrom, News.key, News.change, hstopped]
  · rw [if_neg (Ne.symm heq)]
    exact (entryFrom_of_ne (by simpa [News.key] using heq)).symm

theorem recordOf_emplace (hthreads : d'.threads = d.threads.emplace tid ⟨tid, false, 0⟩) :
    d'.recordOf key = entryFrom (d.recordOf key) key [.announced tid] := by
  rw [Debugger.recordOf, hthreads]
  by_cases heq : tid = key
  · subst heq
    simp only [entryFrom, News.key, News.change, if_true, Debugger.recordOf]
    cases hfind : d.threads.find? tid with
    | none =>
        rw [SortedMap.emplace, if_neg (by rw [SortedMap.contains_eq_false_iff.mpr hfind]; decide),
          SortedMap.find?_insert_self]
        rfl
    | some state =>
        rw [SortedMap.emplace, if_pos (SortedMap.contains_eq_true_iff.mpr ⟨state, hfind⟩), hfind]
        rfl
  · rw [entryFrom_of_ne (by simpa [News.key] using heq), Debugger.recordOf, SortedMap.emplace]
    split
    · rfl
    · rw [SortedMap.find?_insert_of_ne _ _ (Ne.symm heq)]

theorem recordOf_erase (hthreads : d'.threads = d.threads.erase tid) :
    d'.recordOf key = entryFrom (d.recordOf key) key [.ended tid] := by
  rw [Debugger.recordOf, hthreads, SortedMap.find?_erase]
  by_cases heq : tid = key
  · rw [if_pos heq.symm, heq]
    simp [entryFrom, News.key, News.change]
  · rw [if_neg (Ne.symm heq)]
    exact (entryFrom_of_ne (by simpa [News.key] using heq)).symm

end Records

/-- With a well-formed table of breakpoints, the table of threads stays as it is. -/
def SameThreads (arch : Architecture R D) (s t : State R D) : Prop :=
  WellFormed arch s.debugger.breakpoints →
    WellFormed arch t.debugger.breakpoints ∧ t.debugger.threads = s.debugger.threads

instance : IsPreorder (State R D) (SameThreads arch) where
  refl _ := fun hs => ⟨hs, rfl⟩
  trans _ _ _ hst htu := fun hs =>
    have ht := hst hs
    have hu := htu ht.1
    ⟨hu.1, hu.2.trans ht.2⟩

theorem sameThreads_of_does (kinds : List Kind) {m : Dbg R D α} (hm : Does arch env ∅ kinds m)
    (hkinds : Kind.threads ∉ kinds) : Within (SameThreads arch) m := by
  intro s hs
  obtain ⟨hmoves, -⟩ := hm s hs
  refine hmoves.relate (Q := SameThreads arch) (fun kind hkind u v hmove hu => ?_) hs
  exact ⟨hmove.wellFormed hu, (hmove.sameThreads fun heq => hkinds (heq ▸ hkind)).1⟩

theorem recordOf_of_sameThreads (hst : SameThreads arch s t)
    (hs : WellFormed arch s.debugger.breakpoints) (key : Tid) :
    t.debugger.recordOf key = s.debugger.recordOf key := by
  rw [Debugger.recordOf, Debugger.recordOf, (hst hs).2]

section Waiting

variable {key : Tid}

/-- The record of a clone event: the announced thread goes into the table, or the request throws. -/
theorem recordClone_cases (env : Environment R D) (tid : Tid) (s : State R D) :
    (∃ newTid t, announcedBy env tid s = some newTid ∧ recordClone env tid s = .ok ⟨⟩ t ∧
      t.debugger.breakpoints = s.debugger.breakpoints ∧
      t.debugger.threads = s.debugger.threads.emplace newTid ⟨newTid, false, 0⟩) ∨
    announcedBy env tid s = none ∧
      ∃ halt t, recordClone env tid s = .error halt t ∧ t.debugger = s.debugger := by
  rcases ptrace_cases env "PTRACE_GETEVENTMSG" tid (fun task target => (task.eventMsg, target)) s with
    ⟨task, htask, hstopped, hfails, hrun⟩ | ⟨hnone, hrun⟩
  · refine Or.inl ⟨toPid task.eventMsg, _, ?_, bind_ok hrun, rfl, rfl⟩
    simp [announcedBy, htask, hstopped, hfails]
  · refine Or.inr ⟨?_, _, _, bind_error hrun, rfl⟩
    unfold announcedBy
    split
    · rename_i task htask
      rw [if_neg]
      intro hflags
      rw [Bool.and_eq_true, Bool.not_eq_true'] at hflags
      rw [hnone task htask hflags.1] at hflags
      cases hflags.2
    · rfl

theorem handleStop_records (env : Environment R D) (tid : Tid) (signal event : Nat) (key : Tid)
    (hs : WellFormed arch s.debugger.breakpoints) :
    (endState (handleStop arch env tid signal event) s).debugger.recordOf key
      = entryFrom (s.debugger.recordOf key) key (newsOf env tid (.stopped signal event) s) := by
  have hrest : Within (SameThreads arch) (do
      doIf (event = ptraceEventExec) (refreshTarget arch env)
      doIf (signal = sigstop) (prepareThread arch env tid)
      refreshTarget arch env) := by
    have hrefresh : Within (SameThreads arch) (refreshTarget arch env) :=
      sameThreads_of_does _ (does_refreshTarget (Environment.leavesText_empty env)) (by decide)
    refine Within.bind (Within.doIf fun _ => hrefresh) fun _ => ?_
    refine Within.bind (Within.doIf fun _ => ?_) fun _ => hrefresh
    exact sameThreads_of_does _ (does_prepareThread tid) (by decide)
  let recorded := s.withDebugger
    { s.debugger with threads := s.debugger.threads.insert tid ⟨tid, true, signal⟩ }
  have hinserted : recorded.debugger.recordOf key
      = entryFrom (s.debugger.recordOf key) key [.stopped tid] := recordOf_insert rfl rfl
  have hhandle : endState (handleStop arch env tid signal event) s
      = endState (doIf (event = ptraceEventClone) (recordClone env tid) >>= fun _ => do
          doIf (event = ptraceEventExec) (refreshTarget arch env)
          doIf (signal = sigstop) (prepareThread arch env tid)
          refreshTarget arch env) recorded := rfl
  rw [hhandle]
  by_cases hclone : event = ptraceEventClone
  · rw [doIf, if_pos hclone]
    rcases recordClone_cases env tid recorded with
      ⟨newTid, t, hannounced, hrun, hbreakpoints, hthreads⟩ | ⟨hannounced, halt, t, hrun, hdebugger⟩
    · have hannounced' : announcedBy env tid s = some newTid := hannounced
      have hrecords : t.debugger.recordOf key
          = entryFrom (recorded.debugger.recordOf key) key [.announced newTid] :=
        recordOf_emplace hthreads
      rw [endState_bind_ok hrun, recordOf_of_sameThreads (hrest t) (hbreakpoints ▸ hs), hrecords,
        hinserted, ← entryFrom_append]
      simp only [newsOf, if_pos hclone, hannounced', List.cons_append, List.nil_append]
    · have hannounced' : announcedBy env tid s = none := hannounced
      rw [endState_bind_error hrun, hdebugger, hinserted]
      simp only [newsOf, if_pos hclone, hannounced']
  · rw [doIf, if_neg hclone, endState_bind_ok (pure_apply _ recorded),
      recordOf_of_sameThreads (hrest recorded) hs, hinserted]
    simp only [newsOf, if_neg hclone]

theorem handleEvent_records (tid : Tid) (status : WaitStatus) (report : Bool)
    (hs : WellFormed arch s.debugger.breakpoints) :
    (endState (handleEvent arch env tid status report) s).debugger.recordOf key
      = entryFrom (s.debugger.recordOf key) key (newsOf env tid status s) := by
  let selected := s.withDebugger { s.debugger with selectedTid := tid }
  have hend : ∀ message, (endState (do
      handleEnd (R := R) (D := D) tid
      doIf report (print message)) selected).debugger.recordOf key
      = entryFrom (s.debugger.recordOf key) key [.ended tid] := by
    intro message
    have herased : (endState (handleEnd (R := R) (D := D) tid) selected).debugger.recordOf key
        = entryFrom (s.debugger.recordOf key) key [.ended tid] := recordOf_erase rfl
    cases report <;> exact herased
  cases status with
  | exited code => exact hend _
  | signaled signal => exact hend _
  | continued => rfl
  | stopped signal event =>
      have hstop := handleStop_records env tid signal event key (s := selected) hs
      have hreport : Within (SameThreads arch) (doIf report (reportStop arch env tid)) :=
        Within.doIf fun _ => sameThreads_of_does _
          (does_reportStop (Environment.leavesText_empty env) tid) (by decide)
      change (endState (handleStop arch env tid signal event >>= fun _ =>
        doIf report (reportStop arch env tid)) selected).debugger.recordOf key = _
      have hformed := (does_handleStop (Environment.leavesText_empty env) tid signal event selected
        hs).2
      cases hrun : handleStop arch env tid signal event selected with
      | ok a t =>
          rw [endState_of_ok hrun] at hstop hformed
          rw [endState_bind_ok hrun, recordOf_of_sameThreads (hreport t) hformed]
          exact hstop
      | error halt t =>
          rw [endState_of_error hrun] at hstop
          rw [endState_bind_error hrun]
          exact hstop

theorem waitAndReport_records (report : Bool) (hs : WellFormed arch s.debugger.breakpoints) :
    (endState (waitAndReport arch env report) s).debugger.recordOf key
      = entryFrom (s.debugger.recordOf key) key (newsOfWait env s) := by
  rcases waitForEvent_cases env s with ⟨tid, status, rest, -, hrun⟩ | ⟨-, halt, hrun⟩
  · rw [waitAndReport, endState_bind_ok hrun, newsOfWait, hrun]
    exact handleEvent_records tid status report hs
  · rw [waitAndReport, endState_bind_error hrun, newsOfWait, hrun]
    rfl

end Waiting

/-! ### Runs of `continue` -/

def isContinue (line : Text) : Bool :=
  match words line with
  | command :: _ => isAlias command ["continue".toList, "c".toList]
  | [] => false

theorem dispatch_continue {line : Text} (hline : isContinue line = true) :
    dispatch arch env line = (do
      attempt (continueExecution arch env) fun exception => print (.error exception)
      pure true) := by
  unfold isContinue at hline
  split at hline
  · rename_i command rest hwords
    have hcommand : command = "continue".toList ∨ command = "c".toList := by
      simpa [isAlias] using hline
    rw [dispatch, hwords]
    rcases hcommand with rfl | rfl <;> rfl
  · cases hline

/-- An exception of the command is printed, and changes nothing else. -/
theorem debugger_of_attempt {m : Dbg R D Unit} {message : Exception → Message} {goes : Bool}
    (hrun : (do
      attempt m fun exception => print (message exception)
      pure true : Dbg R D Bool) s = .ok goes t) : t.debugger = (endState m s).debugger := by
  obtain ⟨_, u, hattempt, hpure⟩ := of_bind_ok hrun
  injection hpure with _ hstate
  rw [← hstate]
  unfold attempt rescue at hattempt
  cases hm : m s with
  | ok a v =>
      rw [hm] at hattempt
      injection hattempt with _ hstate
      rw [endState_of_ok hm, hstate]
  | error halt v =>
      rw [endState_of_error hm]
      rw [hm] at hattempt
      cases halt with
      | thrown exception =>
          injection hattempt with _ hstate
          rw [← hstate]
      | blocked => cases hattempt

theorem endState_continueExecution (halive : s.debugger.alive = true) :
    endState (continueExecution arch env) s
      = endState (resumeAll arch env >>= fun _ => waitAndReport arch env true) s := by
  rw [resumeAll, bind_assoc]
  simp only [bind_assoc]
  rw [endState, endState, continueExecution, get_bind_apply, if_pos halive]

theorem endState_continueExecution_of_exited (halive : ¬ s.debugger.alive = true) :
    endState (continueExecution arch env) s = s.logged (.out (.line "target has exited")) := by
  rw [endState, continueExecution, get_bind_apply, if_neg halive]
  rfl

theorem continueExecution_records (hs : WellFormed arch s.debugger.breakpoints)
    (hquiet : waitsOnce arch env s = true) (key : Tid) :
    (endState (continueExecution arch env) s).debugger.recordOf key
      = entryFrom (s.debugger.recordOf key) key (newsOfContinue arch env s) := by
  by_cases halive : s.debugger.alive = true
  · have hresumed := resumeAll_records hs hquiet key
    have hfollows : WithinAt (Follows arch) (resumeAll arch env) s := follows_resumeAll s
    have hformed := (hfollows hs).1
    rw [endState_continueExecution halive, newsOfContinue, if_pos halive]
    cases hrun : resumeAll arch env s with
    | ok a t =>
        rw [endState_of_ok hrun] at hresumed hformed
        rw [endState_bind_ok hrun, waitAndReport_records true hformed, hresumed]
        exact (entryFrom_append ..).symm
    | error halt t =>
        rw [endState_of_error hrun] at hresumed
        rw [endState_bind_error hrun]
        exact hresumed
  · rw [endState_continueExecution_of_exited halive, newsOfContinue, if_neg halive]
    rfl

/-- From one prompt to another by `continue` only, each with one event, and what is heard of the
threads meanwhile; `p` is what is so when a command is given. -/
inductive Continues (arch : Architecture R D) (env : Environment R D)
    (p : List (News Tid) → State R D → Prop) (s : State R D) : List (News Tid) → State R D → Prop
  | refl : Continues arch env p s [] s
  | round {history : List (News Tid)} {t u : State R D} (line : Text)
      (ht : Continues arch env p s history t) (hp : p history t) (hline : isContinue line = true)
      (hquiet : waitsOnce arch env t = true) (hrun : dispatch arch env line t = .ok true u) :
      Continues arch env p s (newsOfContinue arch env t ++ history) u

section Runs

variable {p : List (News Tid) → State R D → Prop} {history : List (News Tid)}

theorem Continues.records (hs : WellFormed arch s.debugger.breakpoints)
    (ht : Continues arch env p s history t) (key : Tid) :
    t.debugger.recordOf key = entryFrom (s.debugger.recordOf key) key history := by
  have hformed : WellFormed arch t.debugger.breakpoints ∧
      t.debugger.recordOf key = entryFrom (s.debugger.recordOf key) key history := by
    induction ht with
    | refl => exact ⟨hs, rfl⟩
    | round line _ _ hline hquiet hrun ih =>
        refine ⟨((does_dispatch (Environment.leavesText_empty env) line).of_ok hrun ih.1).2, ?_⟩
        rw [dispatch_continue hline] at hrun
        rw [debugger_of_attempt hrun, continueExecution_records ih.1 hquiet, ih.2]
        exact (entryFrom_append ..).symm
  exact hformed.2

end Runs

/-- A session begins with the process that was launched, which is stopped. -/
theorem opened_records {child : Tid} {target : Target R D}
    (hrun : openSession arch env (State.initial child target) = .ok ⟨⟩ s) (key : Tid) :
    s.debugger.recordOf key = entry key [.stopped child] := by
  have henv := Environment.leavesText_empty env
  obtain ⟨status, u, hwait, hrelated⟩ := openSession_related (Q := SameThreads arch)
    (sameThreads_of_does _ (does_setOptions _) (by decide))
    (sameThreads_of_does _ does_refreshModules (by decide))
    (sameThreads_of_does _ (does_resolvePendingBreakpoints henv) (by decide))
    (fun _ => Within.modify fun _ hv => ⟨hv, rfl⟩)
    (fun tid => sameThreads_of_does _ (does_printStop henv tid) (by decide)) hrun
  have hdebugger : u.debugger = Debugger.fresh child := (waitFor_ready hwait).1
  have hformed : WellFormed arch (u.launched child status.stopSignal).debugger.breakpoints := by
    rw [State.launched, hdebugger]
    exact wellFormed_empty
  have hempty : u.debugger.threads.contains child = false := by
    rw [hdebugger]
    rfl
  have hinserted : (u.launched child status.stopSignal).debugger.threads
      = u.debugger.threads.insert child ⟨child, true, status.stopSignal⟩ :=
    if_neg (by simp [hempty])
  calc s.debugger.recordOf key
      = (u.launched child status.stopSignal).debugger.recordOf key :=
        recordOf_of_sameThreads hrelated hformed key
    _ = entryFrom (u.debugger.recordOf key) key [.stopped child] := recordOf_insert hinserted rfl
    _ = entry key [.stopped child] := by
        rw [hdebugger]
        rfl

theorem Continues.entries {p : List (News Tid) → State R D → Prop} {child : Tid}
    {target : Target R D} {history : List (News Tid)}
    (hopen : openSession arch env (State.initial child target) = .ok ⟨⟩ s)
    (ht : Continues arch env p s history t) (key : Tid) :
    t.debugger.recordOf key = entry key (history ++ [.stopped child]) := by
  have hformed : WellFormed arch s.debugger.breakpoints := (Prompt.opened hopen).wellFormed
  rw [ht.records hformed key, opened_records hopen key]
  exact (entryFrom_append ..).symm

/-- The table says what it ought to about every thread, unless a thread was announced after its end
was consumed. -/
theorem Continues.thread_table_iff {p : List (News Tid) → State R D → Prop} {child : Tid}
    {target : Target R D} {history : List (News Tid)}
    (hopen : openSession arch env (State.initial child target) = .ok ⟨⟩ s)
    (ht : Continues arch env p s history t)
    (horder : ∀ key, inOrder key (history ++ [.stopped child]) = true) :
    (∀ key, t.debugger.recordOf key = expected key (history ++ [.stopped child])) ↔
      ∀ key, announcedLate key (history ++ [.stopped child]) = false := by
  refine forall_congr' fun key => ?_
  rw [ht.entries hopen key]
  exact entry_eq_expected_iff (horder key)

/-! ### After the end of a thread -/

section Ends

variable {history : List (News Tid)}

/-- A thread whose end has been reported answers no request any more. -/
def EndedAreGone (env : Environment R D) (history : List (News Tid)) (s : State R D) : Prop :=
  ∀ tid, .ended tid ∈ history → ¬ (env.enter s).StoppedThread tid

/-- No end was heard of but the newest of the news, and that one is of the selected thread. -/
def EndsLast (history : List (News Tid)) (s : State R D) : Prop :=
  (∀ key, .ended key ∉ history) ∨
    ∃ rest, history = .ended s.debugger.selectedTid :: rest ∧ ∀ key, .ended key ∉ rest

theorem ended_not_mem_resumptions (key : Tid) : .ended key ∉ resumptions s t := by
  intro hmem
  obtain ⟨entry, -, hentry⟩ := List.mem_filterMap.mp hmem
  cases entry <;> cases hentry

/-- `continue` does not get past a selected thread that answers no request. -/
theorem resumeAll_of_gone (arch : Architecture R D)
    (hgone : ¬ (env.enter s).StoppedThread s.debugger.selectedTid) :
    ∃ halt, resumeAll arch env s = .error halt (env.enter s) := by
  have hpc : ∃ halt, pc arch env s.debugger.selectedTid s = .error halt (env.enter s) := by
    rcases ptrace_cases env arch.getRegsOperation s.debugger.selectedTid
        (fun task target => (task.regs, target)) s with ⟨task, htask, hstopped, -, -⟩ | ⟨-, hrun⟩
    · exact absurd ⟨task, htask, hstopped⟩ hgone
    · exact ⟨_, bind_error hrun⟩
  obtain ⟨halt, hpc⟩ := hpc
  have hover : stepOverBreakpoint arch env s = .error halt (env.enter s) := by
    rw [stepOverBreakpoint, get_bind_apply, bind_error hpc]
  exact ⟨halt, bind_error hover⟩

/-- Nothing is heard then, and nothing changes. -/
theorem continueExecution_of_gone (arch : Architecture R D)
    (hgone : ¬ (env.enter s).StoppedThread s.debugger.selectedTid) :
    newsOfContinue arch env s = [] ∧
      (endState (continueExecution arch env) s).debugger = s.debugger := by
  by_cases halive : s.debugger.alive = true
  · obtain ⟨halt, hrun⟩ := resumeAll_of_gone arch hgone
    rw [newsOfContinue, if_pos halive, endState_continueExecution halive, hrun,
      endState_bind_error hrun]
    have hsilent : resumptions s (env.enter s) = [] := by
      rw [resumptions, entriesSince_of_append (enter_log env s)]
      simp [Entry.resumption]
    exact ⟨hsilent, rfl⟩
  · rw [newsOfContinue, if_neg halive, endState_continueExecution_of_exited halive]
    exact ⟨rfl, rfl⟩

theorem newsOf_ends (arch : Architecture R D) (env : Environment R D) (tid : Tid)
    (status : WaitStatus) (report : Bool) (s : State R D) :
    (∀ key, .ended key ∉ newsOf env tid status s) ∨
      newsOf env tid status s = [.ended tid] ∧
        (endState (handleEvent arch env tid status report) s).debugger.selectedTid = tid := by
  cases status with
  | exited code => exact Or.inr ⟨rfl, by cases report <;> rfl⟩
  | signaled signal => exact Or.inr ⟨rfl, by cases report <;> rfl⟩
  | continued => exact Or.inl fun key hmem => absurd hmem List.not_mem_nil
  | stopped signal event =>
      refine Or.inl fun key => ?_
      by_cases hclone : event = ptraceEventClone
      · simp only [newsOf, if_pos hclone]
        cases announcedBy env tid s <;> simp
      · simp [newsOf, if_neg hclone]

/-- If the wait of a `continue` brings the end of a thread, this is the last that is heard, and the
thread is the selected one then. -/
theorem newsOfWait_ends (arch : Architecture R D) (env : Environment R D) (report : Bool)
    (s : State R D) :
    (∀ key, .ended key ∉ newsOfWait env s) ∨
      newsOfWait env s
        = [.ended (endState (waitAndReport arch env report) s).debugger.selectedTid] := by
  rcases waitForEvent_cases env s with ⟨tid, status, rest, -, hrun⟩ | ⟨-, halt, hrun⟩
  · rw [waitAndReport, endState_bind_ok hrun, newsOfWait, hrun]
    let u : State R D := { env.enter s with target := { (env.enter s).target with ready := rest } }
    rcases newsOf_ends arch env tid status report
      (u.logged (.consumed .waitAndReport tid status (u.target.stoppedAt arch tid))) with
      hnone | ⟨hnews, hselected⟩
    · exact Or.inl hnone
    · refine Or.inr (hnews.trans ?_)
      exact congrArg (fun tid => [News.ended tid]) hselected.symm
  · rw [newsOfWait, hrun]
    exact Or.inl fun key hmem => absurd hmem List.not_mem_nil

theorem newsOfContinue_ends (arch : Architecture R D) (env : Environment R D) (s : State R D) :
    EndsLast (newsOfContinue arch env s) (endState (continueExecution arch env) s) := by
  by_cases halive : s.debugger.alive = true
  · rw [newsOfContinue, if_pos halive, endState_continueExecution halive]
    cases hrun : resumeAll arch env s with
    | error halt t => exact Or.inl ended_not_mem_resumptions
    | ok a t =>
        rw [endState_bind_ok hrun]
        rcases newsOfWait_ends arch env true t with hnone | hnews
        · refine Or.inl fun key hmem => ?_
          rcases List.mem_append.mp hmem with hmem | hmem
          · exact hnone key hmem
          · exact ended_not_mem_resumptions key hmem
        · refine Or.inr ⟨resumptions s t, ?_, ended_not_mem_resumptions⟩
          exact congrArg (fun news => news ++ resumptions s t) hnews
  · rw [newsOfContinue, if_neg halive]
    exact Or.inl fun key => List.not_mem_nil

/-- Once an end is consumed, `continue` consumes nothing more. -/
theorem Continues.endsLast (ht : Continues arch env (EndedAreGone env) s history t) :
    EndsLast history t := by
  induction ht with
  | refl => exact Or.inl fun key => List.not_mem_nil
  | @round older t u line _ hgone hline _ hrun ih =>
      rw [dispatch_continue hline] at hrun
      have hdebugger := debugger_of_attempt hrun
      rcases ih with hnone | ⟨rest, holder, hrest⟩
      · rcases newsOfContinue_ends arch env t with hquiet | ⟨rest, hnews, hrest⟩
        · refine Or.inl fun key hmem => ?_
          rcases List.mem_append.mp hmem with hmem | hmem
          · exact hquiet key hmem
          · exact hnone key hmem
        · refine Or.inr ⟨rest ++ older, ?_, fun key hmem => ?_⟩
          · rw [hnews, hdebugger]
            rfl
          · rcases List.mem_append.mp hmem with hmem | hmem
            · exact hrest key hmem
            · exact hnone key hmem
      · have hended : .ended t.debugger.selectedTid ∈ older := holder ▸ List.mem_cons_self
        obtain ⟨hnews, hsame⟩ := continueExecution_of_gone arch (hgone _ hended)
        rw [hnews, List.nil_append]
        exact Or.inr ⟨rest, by rw [hdebugger, hsame]; exact holder, hrest⟩

/-- However the events of the threads and the announcements of them are ordered, the table holds
the threads whose end was not consumed, and which of them are stopped. An end is always the last event
that is consumed (`Continues.endsLast`), so none is announced after it. -/
theorem Continues.thread_table {child : Tid} {target : Target R D}
    (hopen : openSession arch env (State.initial child target) = .ok ⟨⟩ s)
    (ht : Continues arch env (EndedAreGone env) s history t) (key : Tid) :
    t.debugger.recordOf key = expected key (history ++ [.stopped child]) := by
  rw [ht.entries hopen key]
  rcases ht.endsLast with hnone | ⟨rest, rfl, hrest⟩
  · refine entry_of_not_ended fun hmem => ?_
    rcases List.mem_append.mp hmem with hmem | hmem
    · exact hnone key hmem
    · simp at hmem
  · refine entry_cons fun hmem => ?_
    rcases List.mem_append.mp hmem with hmem | hmem
    · exact hrest key hmem
    · simp at hmem

/-- The rounds of a batch, no end being consumed but in the last one. -/
def hear (arch : Architecture R D) (env : Environment R D) (history : List (News Tid))
    (s : State R D) : List Text → Option (List (News Tid) × State R D)
  | [] => some (history, s)
  | line :: rest =>
      if isContinue line && waitsOnce arch env s && !history.any News.isEnd then
        match dispatch arch env line s with
        | .ok true t => hear arch env (newsOfContinue arch env s ++ history) t rest
        | _ => none
      else none

theorem Continues.of_hear {lines : List Text} {start : State R D} {last : List (News Tid)}
    (hs : Continues arch env (EndedAreGone env) start history s)
    (hrun : hear arch env history s lines = some (last, t)) :
    Continues arch env (EndedAreGone env) start last t := by
  induction lines generalizing history s with
  | nil =>
      obtain ⟨rfl, rfl⟩ := Prod.mk.inj (Option.some.inj hrun)
      exact hs
  | cons line rest ih =>
      rw [hear] at hrun
      split at hrun
      · rename_i hround
        simp only [Bool.and_eq_true, Bool.not_eq_true', List.any_eq_false] at hround
        split at hrun
        · rename_i u hline
          exact ih (.round line hs (fun tid hmem => absurd rfl (hround.2 _ hmem)) hround.1.1
            hround.1.2 hline) hrun
        · cases hrun
      · cases hrun

end Ends

/-- The process creates a thread, which is heard of by its announcement and by its stop. It stops once
more on its way out (`PTRACE_EVENT_EXIT` is 6), and ends. -/
def cloning : Environment UserRegs X86_64.DebugRegisters := nopMachine fun tick =>
  if tick = 8 then [.clone 1 2 fun _ => 0]
  else if tick < 16 then []
  else if tick < 26 then [.stop 2 sigtrap 6 0 0]
  else [.exit 2 0]

theorem Continues.thread_table_nops :
    ∃ s history t, openSession x86_64 cloning (State.initial 1 (nopTarget 1)) = .ok ⟨⟩ s ∧
      Continues x86_64 cloning (EndedAreGone cloning) s history t ∧
      .announced 2 ∈ history ∧ .stopped 2 ∈ history ∧ .ended 2 ∈ history ∧
      ∀ key, t.debugger.recordOf key = expected key (history ++ [.stopped 1]) := by
  have hcheck : (match openSession x86_64 cloning (State.initial 1 (nopTarget 1)) with
      | .ok _ s =>
          (hear x86_64 cloning [] s ["c".toList, "c".toList, "c".toList, "c".toList]).any fun result =>
            decide (.announced 2 ∈ result.1) && decide (.stopped 2 ∈ result.1) &&
              decide (.ended 2 ∈ result.1)
      | .error _ _ => false) = true := by decide +kernel
  split at hcheck
  · rename_i s hopen
    obtain ⟨⟨history, t⟩, hhear, hnews⟩ := (Option.any_eq_true _ _).mp hcheck
    simp only [Bool.and_eq_true, decide_eq_true_eq] at hnews
    have ht : Continues x86_64 cloning (EndedAreGone cloning) s history t := .of_hear .refl hhear
    exact ⟨s, history, t, hopen, ht, hnews.1.1, hnews.1.2, hnews.2, ht.thread_table hopen⟩
  · cases hcheck

end Cosy
