import Cosy.Detach

/-!
# The selected thread

Every command resumes what it finds stopped and then consumes one event, so that no thread is
recorded as stopped but the one the event was about, and that one is selected. The exception is a
step-over that consumes another thread's stop and then fails to put its trap back: the table has the
other thread as stopped by then, and the thread that was stepped stays selected.
-/

namespace Cosy

open ByteMemory Effect

variable {R D α : Type} {arch : Architecture R D} {env : Environment R D}

/-- If any thread is recorded as stopped, the selected one is. -/
def SelectedRecorded (s : State R D) : Prop :=
  s.debugger.alive = true →
    (∃ tid state, s.debugger.threads.find? tid = some state ∧ state.stopped = true) →
    ∃ state, s.debugger.threads.find? s.debugger.selectedTid = some state ∧ state.stopped = true

/-- A step-over has consumed another thread's stop and failed to put its trap back. -/
def Strayed (log : List Entry) : Prop :=
  ∃ tid selected, Entry.reinsertFailed tid selected ∈ log ∧ tid ≠ selected

theorem Strayed.mono {older newer : List Entry} (hstrayed : Strayed older)
    (hsuffix : older <:+ newer) : Strayed newer := by
  obtain ⟨tid, selected, hmem, hne⟩ := hstrayed
  exact ⟨tid, selected, hsuffix.subset hmem, hne⟩

/-! ### Threads recorded as stopped -/

/-- Every thread recorded as stopped is one of these. -/
def StoppedWithin (K : List Tid) (threads : SortedMap Tid ThreadState) : Prop :=
  ∀ tid state, threads.find? tid = some state → state.stopped = true → tid ∈ K

section StoppedWithin

variable {K K' : List Tid} {threads : SortedMap Tid ThreadState} {tid : Tid}

theorem StoppedWithin.mono (hthreads : StoppedWithin K threads) (hsubset : K ⊆ K') :
    StoppedWithin K' threads :=
  fun tid state hfind hstopped => hsubset (hthreads tid state hfind hstopped)

theorem StoppedWithin.insert (hthreads : StoppedWithin K threads) {state : ThreadState}
    (hstate : state.stopped = true → tid ∈ K) : StoppedWithin K (threads.insert tid state) := by
  intro tid' state' hfind hstopped
  rw [SortedMap.find?_insert] at hfind
  split at hfind
  · rename_i heq
    obtain rfl := Option.some.inj hfind
    exact heq ▸ hstate hstopped
  · exact hthreads tid' state' hfind hstopped

theorem StoppedWithin.emplace (hthreads : StoppedWithin K threads) {state : ThreadState}
    (hstate : state.stopped = true → tid ∈ K) : StoppedWithin K (threads.emplace tid state) := by
  unfold SortedMap.emplace
  split
  · exact hthreads
  · exact hthreads.insert hstate

theorem StoppedWithin.erase (hthreads : StoppedWithin K threads) :
    StoppedWithin K (threads.erase tid) := by
  intro tid' state hfind hstopped
  rw [SortedMap.find?_erase] at hfind
  split at hfind
  · cases hfind
  · exact hthreads tid' state hfind hstopped

/-- A thread recorded as running is no longer among those recorded as stopped. -/
theorem StoppedWithin.modify (hthreads : StoppedWithin (tid :: K) threads)
    {change : ThreadState → ThreadState} (hchange : ∀ state, (change state).stopped = false) :
    StoppedWithin K (threads.modify tid change) := by
  intro tid' state hfind hstopped
  rw [SortedMap.find?_modify] at hfind
  split at hfind
  · obtain ⟨old, -, rfl⟩ := Option.map_eq_some_iff.mp hfind
    rw [hchange] at hstopped
    cases hstopped
  · rename_i hne
    exact (List.mem_cons.mp (hthreads tid' state hfind hstopped)).resolve_left hne

theorem stoppedWithin_keys (threads : SortedMap Tid ThreadState) :
    StoppedWithin (threads.entries.map Prod.fst) threads := by
  intro tid state hfind _
  exact List.mem_map_of_mem (SortedMap.mem_entries_iff.mpr hfind)

end StoppedWithin

/-- Unless a step-over has strayed, the threads recorded as stopped are some of these, which may
depend on the selected thread. -/
structure Recorded (arch : Architecture R D) (K : Tid → List Tid) (s : State R D) : Prop where
  formed : WellFormed arch s.debugger.breakpoints
  stopped : Strayed s.log ∨ StoppedWithin (K s.debugger.selectedTid) s.debugger.threads

/-- Only the selected thread may be recorded as stopped. -/
abbrev Attended (arch : Architecture R D) : State R D → Prop := Recorded arch fun selected => [selected]

/-- No thread is recorded as stopped. -/
abbrev AllResumed (arch : Architecture R D) : State R D → Prop := Recorded arch fun _ => []

section Recorded

variable {K K' : Tid → List Tid} {s t : State R D}

theorem Recorded.change (hs : Recorded arch K s) {d : Debugger}
    (hbreakpoints : d.breakpoints = s.debugger.breakpoints)
    (hstopped : StoppedWithin (K s.debugger.selectedTid) s.debugger.threads →
      StoppedWithin (K' d.selectedTid) d.threads) : Recorded arch K' (s.withDebugger d) :=
  ⟨hbreakpoints ▸ hs.formed, hs.stopped.imp_right hstopped⟩

theorem Recorded.logged (hs : Recorded arch K s) (entry : Entry) :
    Recorded arch K (s.logged entry) :=
  ⟨hs.formed, hs.stopped.imp_left fun hstrayed => hstrayed.mono (List.suffix_cons _ _)⟩

theorem Recorded.mono (hs : Recorded arch K s) (hsubset : ∀ selected, K selected ⊆ K' selected) :
    Recorded arch K' s :=
  ⟨hs.formed, hs.stopped.imp_right fun hstopped => hstopped.mono (hsubset _)⟩

theorem AllResumed.attended (hs : AllResumed arch s) : Attended arch s :=
  hs.mono fun _ => List.nil_subset _

/-- Whatever leaves the thread table and the selection alone. -/
theorem Recorded.of_does (kinds : List Kind) {m : Dbg R D α} (hm : Does arch env ∅ kinds m)
    (hkinds : Kind.threads ∉ kinds) : Within (Keeps (Recorded arch K)) m := by
  intro s hs
  obtain ⟨hmoves, -⟩ := hm s hs.formed
  refine hmoves.preserve (fun kind hkind u v hmove hu => ?_) hs
  have hne : kind ≠ .threads := fun heq => hkinds (heq ▸ hkind)
  obtain ⟨hthreads, hselected⟩ := hmove.sameThreads hne
  refine ⟨hmove.wellFormed hu.formed, ?_⟩
  rw [hthreads, hselected]
  exact hu.stopped.imp_left fun hstrayed => hstrayed.mono hmove.log_suffix

theorem Recorded.triple_of_does (kinds : List Kind) {m : Dbg R D α} (hm : Does arch env ∅ kinds m)
    (hkinds : Kind.threads ∉ kinds) :
    Triple (Recorded arch K) m (fun _ => Recorded arch K) (fun _ => Recorded arch K) :=
  triple_of_within (Recorded.of_does kinds hm hkinds)

end Recorded

/-! ### Resuming -/

section Resuming

variable {K : Tid → List Tid}

theorem resume_recorded (tid : Tid) (request : ResumeRequest) :
    Triple (Recorded arch K) (resume env tid request 0) (fun _ => Recorded arch K)
      (fun _ => Recorded arch K) :=
  Recorded.triple_of_does [.enter, .resume]
    (does_resume (by decide) (by decide) tid request) (by decide)

theorem resumeThread_keeps (tid : Tid) (request : ResumeRequest) :
    Within (Keeps (Recorded arch K)) (resumeThread env tid request) := by
  refine within_of_triple (Triple.get_bind fun s => ?_)
  cases s.debugger.threads.find? tid with
  | none => exact Triple.pure fun _ hs => hs.2
  | some state =>
      dsimp only
      split
      · refine Triple.bind ((resume_recorded tid request).conseq (fun _ hs => hs.2)
          (fun _ _ ht => ht) fun _ _ ht => ht) fun _ => Triple.modify fun t ht => ?_
        exact ht.change rfl fun hstopped =>
          StoppedWithin.modify (hstopped.mono (List.subset_cons_self _ _)) fun _ => rfl
      · exact Triple.pure fun _ hs => hs.2

/-- A thread that was resumed is recorded as running. -/
theorem resumeThread_marks (tid : Tid) (request : ResumeRequest) (rest : List Tid) :
    Triple (Recorded arch fun _ => tid :: rest) (resumeThread env tid request)
      (fun _ => Recorded arch fun _ => rest) (fun _ _ => True) := by
  refine Triple.get_bind fun s => ?_
  cases hfind : s.debugger.threads.find? tid with
  | none =>
      rintro t ⟨rfl, ht⟩
      refine ⟨ht.formed, ht.stopped.imp_right fun hstopped tid' state hfind' hflag => ?_⟩
      refine (List.mem_cons.mp (hstopped tid' state hfind' hflag)).resolve_left ?_
      rintro rfl
      rw [hfind] at hfind'
      cases hfind'
  | some state =>
      dsimp only
      split
      · refine Triple.bind ((resume_recorded tid request).conseq (fun _ hs => hs.2)
          (fun _ _ ht => ht) fun _ _ _ => trivial) fun _ => Triple.modify fun t ht => ?_
        exact ht.change rfl fun hstopped => hstopped.modify fun _ => rfl
      · rename_i hrunning
        rintro t ⟨rfl, ht⟩
        refine ⟨ht.formed, ht.stopped.imp_right fun hstopped tid' state' hfind' hflag => ?_⟩
        refine (List.mem_cons.mp (hstopped tid' state' hfind' hflag)).resolve_left ?_
        rintro rfl
        rw [hfind] at hfind'
        obtain rfl := Option.some.inj hfind'
        exact hrunning hflag

theorem resumeStopped_keeps (entries : List (Tid × ThreadState)) :
    Within (Keeps (Recorded arch K)) (resumeStopped env entries) := by
  induction entries with
  | nil => exact .pure _
  | cons entry rest ih => exact Within.bind (resumeThread_keeps entry.1 .cont) fun _ => ih

theorem resumeStopped_marks (entries : List (Tid × ThreadState)) :
    Triple (Recorded arch fun _ => entries.map Prod.fst) (resumeStopped env entries)
      (fun _ => AllResumed arch) (fun _ _ => True) := by
  induction entries with
  | nil => exact Triple.pure fun _ hs => hs
  | cons entry rest ih => exact Triple.bind (resumeThread_marks entry.1 .cont _) fun _ => ih

/-- `continue` resumes every thread that is recorded as stopped. -/
theorem resumeAll_attended :
    Triple (Attended arch) (do
        let s ← get
        resumeStopped env s.debugger.threads.entries)
      (fun _ => AllResumed arch) (fun _ => Attended arch) := by
  refine Triple.get_bind fun s => ?_
  have hkeeps : Within (Keeps (Attended arch)) (resumeStopped env s.debugger.threads.entries) :=
    resumeStopped_keeps _
  refine ((resumeStopped_marks _).frame hkeeps fun _ _ hst => hst).conseq ?_
    (fun _ _ ht => ht.1) fun _ _ ht => ht.2
  rintro t ⟨rfl, ht⟩
  exact ⟨⟨ht.formed, Or.inr (stoppedWithin_keys _)⟩, ht⟩

/-- `stepi` resumes the selected thread, and no other is recorded as stopped. -/
theorem resumeSelected_attended :
    Triple (Attended arch) (do
        let s ← get
        resumeThread env s.debugger.selectedTid .singlestep)
      (fun _ => AllResumed arch) (fun _ => Attended arch) := by
  refine Triple.get_bind fun s => ?_
  have hkeeps : Within (Keeps (Attended arch))
      (resumeThread env s.debugger.selectedTid .singlestep) := resumeThread_keeps _ _
  refine ((resumeThread_marks _ _ []).frame hkeeps fun _ _ hst => hst).conseq ?_
    (fun _ _ ht => ht.1) fun _ _ ht => ht.2
  rintro t ⟨rfl, ht⟩
  exact ⟨⟨ht.formed, ht.stopped⟩, ht⟩

end Resuming

/-! ### Waiting -/

section Waiting

theorem handleStop_attended (tid : Tid) (signal event : Nat) :
    Triple (fun s => AllResumed arch s ∧ s.debugger.selectedTid = tid)
      (handleStop arch env tid signal event) (fun _ => Attended arch) (fun _ => Attended arch) := by
  have hrefresh : Triple (Attended arch) (refreshTarget arch env) (fun _ => Attended arch)
      (fun _ => Attended arch) :=
    Recorded.triple_of_does _ (does_refreshTarget (Environment.leavesText_empty env)) (by decide)
  have hclone : Triple (Attended arch) (recordClone env tid) (fun _ => Attended arch)
      (fun _ => Attended arch) := by
    refine Triple.bind (Recorded.triple_of_does [.enter] (does_peek (by decide))
      (by decide)) fun message => Triple.modify fun s hs => ?_
    exact hs.change rfl fun hstopped => hstopped.emplace fun hflag => by cases hflag
  refine Triple.bind (Q := fun _ => Attended arch) (Triple.modify fun s hs => ?_) fun _ => ?_
  · obtain ⟨hs, rfl⟩ := hs
    exact hs.change rfl fun hstopped => (hstopped.mono (List.nil_subset _)).insert
      fun _ => List.mem_singleton_self _
  refine Triple.bind (Triple.doIf (fun _ => hclone) fun _ _ hs => hs) fun _ => ?_
  refine Triple.bind (Triple.doIf (fun _ => hrefresh) fun _ _ hs => hs) fun _ => ?_
  refine Triple.bind (Triple.doIf (fun _ => ?_) fun _ _ hs => hs) fun _ => hrefresh
  exact Recorded.triple_of_does _ (does_prepareThread tid) (by decide)

theorem handleEvent_attended (tid : Tid) (status : WaitStatus) (report : Bool) :
    Triple (AllResumed arch) (handleEvent arch env tid status report) (fun _ => Attended arch)
      (fun _ => Attended arch) := by
  have hend : ∀ message, Triple (fun s => AllResumed arch s ∧ s.debugger.selectedTid = tid)
      (do
        handleEnd tid
        doIf report (print message))
      (fun _ => Attended arch) (fun _ => Attended arch) := by
    intro message
    refine Triple.bind (Q := fun _ => Attended arch) (Triple.modify fun s hs => ?_) fun _ => ?_
    · exact hs.1.change rfl fun hstopped => (hstopped.mono (List.nil_subset _)).erase
    · refine Triple.doIf (fun _ => ?_) fun _ _ hs => hs
      exact Triple.modify fun s hs => hs.logged _
  refine Triple.bind (Q := fun _ s => AllResumed arch s ∧ s.debugger.selectedTid = tid)
    (Triple.modify fun s hs => ⟨hs.change rfl id, rfl⟩) fun _ => ?_
  cases status with
  | exited code => exact hend _
  | signaled signal => exact hend _
  | continued => exact Triple.pure fun _ hs => AllResumed.attended hs.1
  | stopped signal event =>
      refine Triple.bind (handleStop_attended tid signal event) fun _ => ?_
      refine Triple.doIf (fun _ => ?_) fun _ _ hs => hs
      exact Recorded.triple_of_does _ (does_reportStop (Environment.leavesText_empty env) tid)
        (by decide)

theorem waitAndReport_attended (report : Bool) :
    Triple (AllResumed arch) (waitAndReport arch env report) (fun _ => Attended arch)
      (fun _ => Attended arch) := by
  have hwait : Triple (AllResumed arch) (waitForEvent env) (fun _ => AllResumed arch)
      (fun _ => AllResumed arch) :=
    Recorded.triple_of_does [.enter, .take]
      (does_waitForEvent (by decide) (by decide)) (by decide)
  refine Triple.bind (hwait.conseq (fun _ hs => hs) (fun _ _ hs => hs)
    fun _ _ hs => AllResumed.attended hs) fun event => ?_
  refine Triple.bind (Q := fun _ => AllResumed arch) ?_ fun _ =>
    handleEvent_attended event.1 event.2 report
  exact Triple.get_bind fun s => Triple.modify fun t ht => ht.2.logged _

end Waiting

/-! ### Stepping over a breakpoint -/

section StepOver

variable {K : Tid → List Tid} {tid : Tid}

theorem recordRunning_keeps (tid : Tid) :
    Within (Keeps (Recorded arch K)) (recordRunning (R := R) (D := D) tid) := by
  refine Within.get_bind fun s => Within.ite (fun _ => ?_) (fun _ => .throw _) s
  refine Within.modify fun t ht => ht.change rfl fun hstopped => ?_
  exact StoppedWithin.modify (hstopped.mono (List.subset_cons_self _ _)) fun _ => rfl

theorem stepThread_keeps (tid : Tid) :
    Within (Keeps (Recorded arch K)) (stepThread env tid) := by
  refine Within.bind (within_of_triple (resume_recorded tid .singlestep)) fun _ => ?_
  refine Within.bind (recordRunning_keeps tid) fun _ => ?_
  exact Recorded.of_does [.enter, .take] (does_waitForEvent (by decide) (by decide))
    (by decide)

/-- The thread that is stepped is recorded as running by the time there is an event. -/
theorem stepThread_marks (tid : Tid) :
    Triple (Recorded arch fun _ => [tid]) (stepThread env tid) (fun _ => AllResumed arch)
      (fun _ _ => True) := by
  refine Triple.bind ((resume_recorded tid .singlestep).conseq (fun _ hs => hs)
    (fun _ _ ht => ht) fun _ _ _ => trivial) fun _ => ?_
  refine Triple.bind (Q := fun _ => AllResumed arch) (Triple.get_bind fun s => ?_) fun _ => ?_
  · split
    · exact Triple.modify fun t ht => ht.2.change rfl fun hstopped => hstopped.modify fun _ => rfl
    · exact Triple.throw fun _ _ => trivial
  · have hwait : Triple (AllResumed arch) (waitForEvent env) (fun _ => AllResumed arch)
        (fun _ => AllResumed arch) :=
      Recorded.triple_of_does [.enter, .take]
        (does_waitForEvent (by decide) (by decide)) (by decide)
    exact hwait.conseq (fun _ hs => hs) (fun _ _ ht => ht) fun _ _ _ => trivial

theorem stepOffTrap_attended (address : Address) :
    Triple (Attended arch) (stepOffTrap env address) (fun _ => AllResumed arch)
      (fun _ => Attended arch) := by
  have hdisable : Triple (Attended arch) (disable env address) (fun _ => Attended arch)
      (fun _ => Attended arch) :=
    Recorded.triple_of_does _ (does_disable (Environment.leavesText_empty env) address) (by decide)
  refine Triple.bind hdisable fun _ => Triple.get_bind fun s => ?_
  refine Triple.bind (Q := fun _ t => Attended arch t ∧ t.debugger.selectedTid = s.debugger.selectedTid)
    (Triple.modify fun t ht => ?_) fun _ => ?_
  · obtain ⟨rfl, ht⟩ := ht
    exact ⟨ht.logged _, rfl⟩
  have hkeeps : Within (Keeps (Attended arch)) (stepThread env s.debugger.selectedTid) :=
    stepThread_keeps _
  refine Triple.onThrow (((stepThread_marks _).frame hkeeps fun _ _ hst => hst).conseq ?_
    (fun _ _ ht => ht.1) fun _ _ ht => ht.2) fun halt t ht => ?_
  · rintro t ⟨ht, hselected⟩
    exact ⟨⟨ht.formed, hselected ▸ ht.stopped⟩, ht⟩
  · cases halt with
    | thrown exception => exact ht.logged _
    | blocked => exact ht

theorem reinsert_recorded (arch : Architecture R D) (env : Environment R D) (tid : Tid)
    (address : Address) {K : Tid → List Tid} :
    Triple (Recorded arch K) (reinsert arch env tid address) (fun _ => Recorded arch K)
      (fun _ => Recorded arch K) :=
  Recorded.triple_of_does _ (does_reinsert (Environment.leavesText_empty env) tid address) (by decide)

/-- If putting the trap back fails after the stop of another thread, the step-over has strayed. -/
theorem reinsert_strays (address : Address) :
    Triple (fun s => Recorded arch (fun _ => [tid]) s ∧ tid ≠ s.debugger.selectedTid)
      (reinsert arch env tid address) (fun _ => Recorded arch fun _ => [tid])
      (fun _ => Attended arch) := by
  rintro s ⟨hs, hne⟩
  have hkept := reinsert_recorded arch env tid address s hs
  rw [reinsert, get_bind_apply] at hkept ⊢
  unfold onThrow at hkept ⊢
  cases hrun : enable arch env address s with
  | ok a t =>
      rw [hrun] at hkept
      exact hkept
  | error halt t =>
      rw [hrun] at hkept
      exact ⟨hkept.formed, Or.inl ⟨tid, _, List.mem_cons_self, hne⟩⟩

theorem handleStepEvent_attended (address : Address) (tid : Tid) (status : WaitStatus) :
    Triple (AllResumed arch) (handleStepEvent arch env address tid status) (fun _ => Attended arch)
      (fun _ => Attended arch) := by
  refine Triple.bind (Q := fun _ => Recorded arch fun _ => if status.isStopped then [tid] else [])
    (Triple.modify fun s hs => hs.change rfl fun hstopped => ?_) fun _ => ?_
  · refine (hstopped.mono (List.nil_subset _)).insert fun hflag => ?_
    rw [show status.isStopped = true from hflag, if_pos rfl]
    exact List.mem_singleton_self _
  refine Triple.doIf (fun hflag => ?_) fun hflag s hs => ?_
  · simp only [hflag, if_true]
    refine Triple.get_bind fun s => ?_
    split
    · rename_i hown
      refine (reinsert_recorded arch env tid address).conseq ?_ (fun _ _ ht => ht) fun _ _ ht => ht
      rintro t ⟨rfl, ht⟩
      exact ⟨ht.formed, hown ▸ ht.stopped⟩
    · rename_i hother
      refine Triple.bind ((reinsert_strays address).conseq ?_ (fun _ _ ht => ht) fun _ _ ht => ht)
        fun _ => ?_
      · rintro t ⟨rfl, ht⟩
        exact ⟨ht, hother⟩
      refine Triple.bind (Q := fun _ => Attended arch)
        (Triple.modify fun t ht => ht.change rfl id) fun _ => ?_
      exact Recorded.triple_of_does _ (does_printStop (Environment.leavesText_empty env) tid)
        (by decide)
  · simp only [hflag] at hs
    exact AllResumed.attended hs

theorem stepOverBreakpoint_attended :
    Triple (Attended arch) (stepOverBreakpoint arch env) (fun _ => Attended arch)
      (fun _ => Attended arch) := by
  refine Triple.get_bind fun s => Triple.bind (Q := fun _ => Attended arch) ?_ fun address => ?_
  · have hpc : Triple (Attended arch) (pc arch env s.debugger.selectedTid) (fun _ => Attended arch)
        (fun _ => Attended arch) :=
      Recorded.triple_of_does [.enter] (does_pc (by decide) _) (by decide)
    exact hpc.conseq (fun _ hs => hs.2) (fun _ _ ht => ht) fun _ _ ht => ht
  refine Triple.get_bind fun t => ?_
  cases t.debugger.breakpoints.find? address with
  | none => exact Triple.pure fun _ ht => ht.2
  | some r =>
      dsimp only
      split
      · refine Triple.bind ((stepOffTrap_attended address).conseq (fun _ ht => ht.2)
          (fun _ _ ht => ht) fun _ _ ht => ht) fun event => ?_
        refine Triple.bind (Q := fun _ => AllResumed arch) ?_ fun _ =>
          handleStepEvent_attended address event.1 event.2
        exact Triple.get_bind fun u => Triple.modify fun v hv => hv.2.logged _
      · exact Triple.pure fun _ ht => ht.2

end StepOver

/-! ### Whole sessions -/

theorem attended_of_does {kinds : List Kind} {m : Dbg R D α} (hm : Does arch env ∅ kinds m)
    (hkinds : Kind.threads ∉ kinds) : Within (Keeps (Attended arch)) m :=
  Recorded.of_does kinds hm hkinds

theorem continueExecution_attended : Within (Keeps (Attended arch)) (continueExecution arch env) := by
  refine within_of_triple (Triple.get_bind fun s => ?_)
  split
  · have hrun : Triple (Attended arch)
        ((do
          let t ← get
          resumeStopped env t.debugger.threads.entries) >>= fun _ => waitAndReport arch env true)
        (fun _ => Attended arch) (fun _ => Attended arch) :=
      Triple.bind resumeAll_attended fun _ => waitAndReport_attended true
    exact Triple.bind (stepOverBreakpoint_attended.conseq (fun _ hs => hs.2) (fun _ _ ht => ht)
      fun _ _ ht => ht) fun _ => hrun
  · exact Triple.modify fun t ht => ht.2.logged _

theorem instructionStep_attended (report : Bool) :
    Within (Keeps (Attended arch)) (instructionStep arch env report) := by
  refine within_of_triple (Triple.get_bind fun s => ?_)
  split
  · have hrun : Triple (Attended arch)
        ((do
          let t ← get
          resumeThread env t.debugger.selectedTid .singlestep) >>= fun _ =>
            waitAndReport arch env report)
        (fun _ => Attended arch) (fun _ => Attended arch) :=
      Triple.bind resumeSelected_attended fun _ => waitAndReport_attended report
    exact Triple.bind (stepOverBreakpoint_attended.conseq (fun _ hs => hs.2) (fun _ _ ht => ht)
      fun _ _ ht => ht) fun _ => hrun
  · exact Triple.pure fun t ht => ht.2

/-- A thread that can be selected is the selected one already, unless a step-over has strayed. -/
theorem selectThread_attended (tid : Tid) :
    Within (Keeps (Attended arch)) (selectThread arch env tid) := by
  refine within_of_triple (Triple.get_bind fun s => ?_)
  cases hfind : s.debugger.threads.find? tid with
  | none => exact Triple.modify fun t ht => ht.2.logged _
  | some state =>
      dsimp only
      split
      · rename_i hflag
        refine Triple.bind (Q := fun _ => Attended arch) (Triple.modify fun t ht => ?_) fun _ => ?_
        · obtain ⟨rfl, ht⟩ := ht
          refine ht.change rfl fun hstopped => ?_
          have hown := List.mem_singleton.mp (hstopped tid state hfind hflag)
          exact hown ▸ hstopped
        · exact triple_of_within (attended_of_does
            (does_printStop (Environment.leavesText_empty env) tid) (by decide))
      · exact Triple.modify fun t ht => ht.2.logged _

theorem commandsWithin_attended :
    CommandsWithin arch env ∅ (Keeps (Attended (R := R) (D := D) arch)) where
  session hm := attended_of_does hm (by decide)
  continueExecution := continueExecution_attended
  instructionStep := instructionStep_attended
  reportStop tid := attended_of_does (does_reportStop (Environment.leavesText_empty env) tid)
    (by decide)
  selectThread := selectThread_attended
  writeUserWord address value := attended_of_does (does_writeUserWord address value) (by decide)

/-- `launch` selects the thread it enters. -/
theorem launch_attended :
    Triple (AllResumed arch) (launch arch env) (fun _ => Attended arch) (fun _ => Attended arch) := by
  have hwait : ∀ child, Triple (AllResumed arch) (waitFor env child) (fun _ => AllResumed arch)
      (fun _ => AllResumed arch) := fun child =>
    Recorded.triple_of_does [.enter, .take]
      (does_waitFor (by decide) (by decide) child) (by decide)
  refine Triple.get_bind fun s => Triple.bind ((hwait _).conseq (fun _ hs => hs.2)
    (fun _ _ ht => ht) fun _ _ ht => AllResumed.attended ht) fun status => ?_
  split
  · refine Triple.bind (Q := fun _ => Attended arch) (Triple.modify fun t ht => ?_) fun _ => ?_
    · exact ht.change rfl fun hstopped => (hstopped.mono (List.nil_subset _)).emplace
        fun _ => List.mem_singleton_self _
    · have hrest : Does arch env ∅ session (do
          setOptions env s.debugger.child
          refreshModules env
          resolvePendingBreakpoints arch env) :=
        (does_setOptions _).bind fun _ => (does_refreshModules.mono resolving_subset_session).bind
          fun _ => (does_resolvePendingBreakpoints (Environment.leavesText_empty env)).mono
            resolving_subset_session
      exact Recorded.triple_of_does _ hrest (by decide)
  · exact Triple.throw fun _ ht => AllResumed.attended ht

theorem openSession_attended :
    Triple (AllResumed arch) (openSession arch env) (fun _ => Attended arch)
      (fun _ => Attended arch) := by
  refine Triple.bind launch_attended fun _ => Triple.get_bind fun s => ?_
  have hrest : Does arch env ∅ inspecting (do
      print (.banner arch.name s.debugger.child)
      printStop arch env s.debugger.selectedTid) :=
    (does_print (by decide) _).bind fun _ => does_printStop (Environment.leavesText_empty env) _
  exact (Recorded.triple_of_does _ hrest (by decide)).conseq (fun _ ht => ht.2) (fun _ _ ht => ht)
    fun _ _ ht => ht

theorem Prompt.attended {child : Tid} {target : Target R D} {s : State R D}
    (hs : Prompt arch env (State.initial child target) s) : Attended arch s := by
  induction hs with
  | opened hrun =>
      refine openSession_attended.of_ok ⟨wellFormed_empty, Or.inr fun tid state hfind _ => ?_⟩ hrun
      cases hfind
  | command line _ hrun ih =>
      exact (commandsWithin_attended.dispatch (Environment.leavesText_empty env) line).of_ok hrun ih

theorem Prompt.selected_recorded {child : Tid} {target : Target R D} {s : State R D}
    (hs : Prompt arch env (State.initial child target) s)
    (hkept : ∀ tid selected, Entry.reinsertFailed tid selected ∈ s.log → tid = selected) :
    SelectedRecorded s := by
  rintro - ⟨tid, state, hfind, hflag⟩
  rcases hs.attended.stopped with ⟨tid', selected, hmem, hne⟩ | hstopped
  · exact absurd (hkept tid' selected hmem) hne
  · have hown := List.mem_singleton.mp (hstopped tid state hfind hflag)
    exact ⟨state, hown ▸ hfind, hflag⟩

/-! ### A thread that stays selected -/

/-- Whether a step-over failed to put its trap back after the stop of another thread. -/
def Entry.isStray : Entry → Bool
  | .reinsertFailed tid selected => tid ≠ selected
  | _ => false

theorem eq_of_not_isStray {log : List Entry} (hlog : log.any Entry.isStray = false)
    (tid selected : Tid) (hmem : Entry.reinsertFailed tid selected ∈ log) : tid = selected := by
  have hentry := List.any_eq_false.mp hlog _ hmem
  simpa [Entry.isStray] using hentry

/-- The thread is stepped over one breakpoint and stops at another. -/
theorem Prompt.selected_recorded_nops :
    ∃ s, Prompt x86_64 (runningMachine 4) (State.initial 1 (nopTarget 1)) s ∧
      s.debugger.threads.find? 1 = some ⟨1, true, sigtrap⟩ ∧ SelectedRecorded s := by
  obtain ⟨s, hs, hcheck⟩ := Prompt.exists_of_runBatch x86_64 (runningMachine 4)
    (State.initial 1 (nopTarget 1)) ["b *0x1000".toList, "b *0x1003".toList, "c".toList]
    (p := fun s => decide (s.debugger.threads.find? 1 = some ⟨1, true, sigtrap⟩) &&
      !s.log.any Entry.isStray) (by decide +kernel)
  simp only [Bool.and_eq_true, decide_eq_true_eq, Bool.not_eq_true'] at hcheck
  exact ⟨s, hs, hcheck.1, Prompt.selected_recorded hs (eq_of_not_isStray hcheck.2)⟩

/-- The first thread is recorded as stopped, and the second one, which runs, is selected: its step
was cut short by the stop of the first. -/
theorem running_thread_selected :
    ∃ s, Prompt x86_64 signalledMachine (State.initial 1 (nopTarget 1)) s ∧
      s.debugger.threads.find? 1 = some ⟨1, true, 10⟩ ∧
      s.debugger.threads.find? s.debugger.selectedTid = some ⟨2, false, sigstop⟩ ∧
      ¬ SelectedRecorded s := by
  obtain ⟨s, hs, hcheck⟩ := Prompt.exists_of_runBatch x86_64 signalledMachine
    (State.initial 1 (nopTarget 1))
    ["b *0x1003".toList, "c".toList, "c".toList, "b *0x1000".toList, "c".toList]
    (p := fun s => s.debugger.alive &&
      decide (s.debugger.threads.find? 1 = some ⟨1, true, 10⟩) &&
      decide (s.debugger.threads.find? s.debugger.selectedTid = some ⟨2, false, sigstop⟩))
    (by decide +kernel)
  simp only [Bool.and_eq_true, decide_eq_true_eq] at hcheck
  obtain ⟨⟨halive, hstopped⟩, hrunning⟩ := hcheck
  refine ⟨s, hs, hstopped, hrunning, fun hselected => ?_⟩
  obtain ⟨state, hfind, hflag⟩ := hselected halive ⟨1, _, hstopped, rfl⟩
  rw [hrunning] at hfind
  obtain rfl := Option.some.inj hfind
  cases hflag

end Cosy
