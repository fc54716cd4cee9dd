import Cosy.Keeping
import Cosy.Reports

/-!
# Events during a source step

A source step is many single steps, and each may be answered by something else that happened. The
loop looks at the line of the thread that is selected afterwards. An event that leaves the line as it
was goes by without a word, and so does everything that the step over a breakpoint consumes.
-/

namespace Cosy

open ByteMemory Effect

variable {R D α : Type} {arch : Architecture R D} {env : Environment R D} {s t u : State R D}
  {tid : Tid} {status : WaitStatus}

/-! ### What the log says about an event -/

/-- The thread that was resumed last was to make a step, and since then nothing but its end has
stopped that thread. -/
def stepCompleted (tid : Tid) : List Entry → Bool
  | [] => false
  | .resumed other request _ :: _ => other = tid && request = .singlestep
  | .target (.trapped other _) :: older | .target (.exec other) :: older
  | .target (.other other) :: older => other ≠ tid && stepCompleted tid older
  | _ :: older => stepCompleted tid older

/-- The event is the completion of the step that the thread was resumed for, and no more. -/
def completesStep (tid : Tid) (status : WaitStatus) (older : List Entry) : Bool :=
  decide (status = .stopped sigtrap 0) && stepCompleted tid older

/-- The user is told of the event. -/
def Entry.reports (tid : Tid) : WaitStatus → Entry → Bool
  | .stopped signal _, .reporting other (some shown) _ _ => other = tid && shown = signal
  | .exited code, .out (.exited other shown) => other = tid && shown = code
  | .signaled signal, .out (.terminated other shown) => other = tid && shown = signal
  | _, _ => false

/-- If an event is consumed that is more than the end of a step, no thread is resumed any more, and
the user is told. -/
def Entry.attended (later older : List Entry) : Entry → Bool
  | .consumed _ tid status _ =>
      completesStep tid status older ||
        (!later.any Entry.isResumed && later.any (Entry.reports tid status))
  | _ => true

/-- This is so of each of the newer entries of the log. -/
def SwallowsNothing (base newer : List Entry) : Prop :=
  ∀ later entry earlier, newer = later ++ entry :: earlier →
    entry.attended later (earlier ++ base) = true

/-- An entry that neither consumes an event nor resumes a thread. -/
def Entry.isIdle : Entry → Bool
  | .consumed _ _ _ _ | .resumed _ _ _ => false
  | _ => true

def Entry.isConsumed : Entry → Bool
  | .consumed _ _ _ _ => true
  | _ => false

theorem Entry.not_isConsumed_of_isIdle {entry : Entry} (hidle : entry.isIdle = true) :
    entry.isConsumed = false := by
  cases entry <;> first | rfl | cases hidle

theorem Entry.not_isResumed_of_isIdle {entry : Entry} (hidle : entry.isIdle = true) :
    entry.isResumed = false := by
  cases entry <;> first | rfl | cases hidle

theorem Entry.isIdle_of_isPatch (entry : Entry) (hentry : entry.isPatch = true) :
    entry.isIdle = true := by
  cases entry <;> first | rfl | cases hentry

theorem Entry.isIdle_of_isShown {entry : Entry} (hentry : entry.isShown = true) :
    entry.isIdle = true := by
  cases entry <;> first | rfl | cases hentry

theorem Entry.isIdle_of_isMark {entry : Entry} (hentry : entry.isMark = true) :
    entry.isIdle = true := by
  cases entry <;> first | rfl | cases hentry

theorem Entry.attended_of_not_isConsumed {entry : Entry} (hother : entry.isConsumed = false)
    (later older : List Entry) : entry.attended later older = true := by
  cases entry <;> first | rfl | cases hother

/-- An entry of a list in two parts is one of the first part, or it is one of the second. -/
theorem mem_or_of_append_eq {newest newer later earlier : List Entry} {entry : Entry}
    (heq : newest ++ newer = later ++ entry :: earlier) :
    entry ∈ newest ∨ ∃ between, later = newest ++ between ∧ newer = between ++ entry :: earlier := by
  rcases List.append_eq_append_iff.mp heq with ⟨between, hlater, hnewer⟩ | ⟨between, rfl, hrest⟩
  · exact Or.inr ⟨between, hlater, hnewer⟩
  · cases between with
    | nil => exact Or.inr ⟨[], by simp, hrest.symm⟩
    | cons first between =>
        obtain ⟨rfl, -⟩ := List.cons.inj hrest
        exact Or.inl (List.mem_append_right _ List.mem_cons_self)

/-- Only steps have ended so far. -/
def StepsOnly (base newer : List Entry) : Prop :=
  ∀ later site tid status pc earlier, newer = later ++ .consumed site tid status pc :: earlier →
    completesStep tid status (earlier ++ base) = true

variable {base newer : List Entry}

theorem StepsOnly.swallowsNothing (hsteps : StepsOnly base newer) : SwallowsNothing base newer := by
  intro later entry earlier heq
  cases entry with
  | consumed site tid status pc =>
      rw [Entry.attended, hsteps later site tid status pc earlier heq, Bool.true_or]
  | _ => rfl

theorem StepsOnly.append {newest : List Entry} (hsteps : StepsOnly base newer)
    (hnewest : ∀ entry ∈ newest, entry.isConsumed = false) : StepsOnly base (newest ++ newer) := by
  intro later site tid status pc earlier heq
  rcases mem_or_of_append_eq heq with hmem | ⟨between, -, hnewer⟩
  · cases hnewest _ hmem
  · exact hsteps between site tid status pc earlier hnewer

theorem StepsOnly.cons {site : Site} {pc : Option Address} (hsteps : StepsOnly base newer)
    (hcompletes : completesStep tid status (newer ++ base) = true) :
    StepsOnly base (.consumed site tid status pc :: newer) := by
  intro later site' tid' status' pc' earlier heq
  cases later with
  | nil =>
      obtain ⟨hentry, rfl⟩ := List.cons.inj heq
      cases hentry
      exact hcompletes
  | cons entry later =>
      obtain ⟨-, hrest⟩ := List.cons.inj heq
      exact hsteps later site' tid' status' pc' earlier hrest

/-- After the last event no thread is resumed, and the event is reported. -/
theorem StepsOnly.attended {site : Site} {pc : Option Address} {newest : List Entry}
    (hsteps : StepsOnly base newer) (hnewest : ∀ entry ∈ newest, entry.isIdle = true)
    (hreports : newest.any (Entry.reports tid status) = true) :
    SwallowsNothing base (newest ++ .consumed site tid status pc :: newer) := by
  intro later entry earlier heq
  rcases mem_or_of_append_eq heq with hmem | ⟨between, rfl, hnewer⟩
  · exact Entry.attended_of_not_isConsumed (Entry.not_isConsumed_of_isIdle (hnewest _ hmem)) _ _
  cases between with
  | nil =>
      obtain ⟨rfl, rfl⟩ := List.cons.inj hnewer
      have hresumed : newest.any Entry.isResumed = false := by
        rw [List.any_eq_false]
        intro entry hmem
        rw [Entry.not_isResumed_of_isIdle (hnewest entry hmem)]
        exact Bool.false_ne_true
      rw [Entry.attended, List.append_nil, hresumed, hreports, Bool.not_false, Bool.and_self,
        Bool.or_true]
  | cons first between =>
      obtain ⟨-, hearlier⟩ := List.cons.inj hnewer
      cases entry with
      | consumed site' tid' status' pc' =>
          rw [Entry.attended, hsteps between site' tid' status' pc' earlier hearlier, Bool.true_or]
      | _ => rfl

/-! ### What is done without resuming a thread -/

/-- No event is consumed and no thread is resumed, and the threads that are recorded stay so. -/
structure Idles (s t : State R D) : Prop where
  log : Appends (fun entry => entry.isIdle = true) s t
  alive : t.debugger.alive = s.debugger.alive
  selected : t.debugger.selectedTid = s.debugger.selectedTid
  threads : ∀ tid state, s.debugger.threads.find? tid = some state →
    t.debugger.threads.find? tid = some state

instance : IsPreorder (State R D) Idles where
  refl s := ⟨refl_of (Appends _) s, rfl, rfl, fun _ _ hstate => hstate⟩
  trans _ _ _ hst htu :=
    ⟨trans_of (Appends _) hst.log htu.log, htu.alive.trans hst.alive,
      htu.selected.trans hst.selected, fun tid state hstate => htu.threads tid state (hst.threads tid state hstate)⟩

theorem idles_of_sameDebugger (hlog : Appends (fun entry => entry.isIdle = true) s t)
    (hsame : t.debugger = s.debugger) : Idles s t :=
  ⟨hlog, by rw [hsame], by rw [hsame], fun _ _ hstate => by rw [hsame, hstate]⟩

theorem tolerates_idles (env : Environment R D) :
    Tolerates env (fun entry => entry.isIdle = true) (Idles (R := R) (D := D)) where
  request hmaps s := idles_of_sameDebugger
    ((tolerates_appends env fun _ => rfl).request hmaps s) ((sameDebugger env).request hmaps s)
  note _ hentry := Within.modify fun _ => idles_of_sameDebugger (.cons rfl hentry) rfl

theorem idles_modify {change : Debugger → Debugger}
    (hchange : ∀ d, (change d).alive = d.alive ∧ (change d).selectedTid = d.selectedTid ∧
      ∀ tid state, d.threads.find? tid = some state → (change d).threads.find? tid = some state) :
    Within Idles (modifyDebugger (R := R) (D := D) change) :=
  Within.modify fun _ => ⟨.of_eq rfl, (hchange _).1, (hchange _).2.1, (hchange _).2.2⟩

theorem idles_modifyBreakpoint (key : Address) (change : Breakpoint → Breakpoint) :
    Within Idles (modifyBreakpoint (R := R) (D := D) key change) :=
  idles_modify fun _ => ⟨rfl, rfl, fun _ _ hstate => hstate⟩

theorem idles_disable (key : Address) : Within Idles (disable env key : Dbg R D Unit) :=
  (tolerates_idles env).disable Entry.isIdle_of_isPatch (idles_modifyBreakpoint key)

theorem idles_tends : TendsWithin arch env (Idles (R := R) (D := D)) :=
  have htolerates := tolerates_idles (R := R) (D := D) env
  have hmodify : ∀ key change, Within Idles (modifyBreakpoint (R := R) (D := D) key change) :=
    idles_modifyBreakpoint
  have herase : ∀ key, Within Idles (eraseBreakpoint (R := R) (D := D) key) :=
    fun _ => idles_modify fun _ => ⟨rfl, rfl, fun _ _ hstate => hstate⟩
  { htolerates.peeks with
    note := fun hentry => htolerates.note _ (Entry.isIdle_of_isShown hentry)
    setRegs := fun _ _ => htolerates.request fun _ _ => rfl
    enter := Within.modify fun s => idles_of_sameDebugger (appends_enter (fun _ => rfl) s) rfl
    mark := fun hentry => htolerates.note _ (Entry.isIdle_of_isMark hentry)
    aside := fun hchange => idles_modify fun d =>
      ⟨(hchange d).alive, (hchange d).selectedTid, fun _ _ hstate => by rwa [(hchange d).threads]⟩
    enable := fun key => htolerates.enable Entry.isIdle_of_isPatch (hmodify key)
    disable := idles_disable
    insert := fun _ _ _ _ _ => ⟨.of_eq rfl, rfl, rfl, fun _ _ hstate => hstate⟩
    drop := fun key => htolerates.dropBreakpoint Entry.isIdle_of_isPatch (hmodify key) (herase key)
    noteUserEnabled := fun key => Within.get_bind fun s => by
      cases s.debugger.breakpoints.find? key with
      | none => exact .pure _
      | some r => exact Within.doIf (fun _ => htolerates.note _ rfl) s }

theorem idles_attendToStop (tid : Tid) (signal event : Nat) :
    Within Idles (attendToStop arch env tid signal event) := by
  have htends : TendsWithin arch env (Idles (R := R) (D := D)) := idles_tends
  have htolerates := tolerates_idles (R := R) (D := D) env
  have hemplace : ∀ key state, Within Idles
      (modifyThreads (R := R) (D := D) fun threads => threads.emplace key state) := by
    refine fun key state => idles_modify fun d => ⟨rfl, rfl, fun tid found hfound => ?_⟩
    rw [SortedMap.find?_emplace, if_neg, hfound]
    rintro ⟨rfl, hnone⟩
    cases hfound.symm.trans hnone
  refine Within.bind (Within.doIf fun _ => ?_) fun _ => ?_
  · exact Within.bind (htolerates.request fun _ _ => rfl) fun _ => hemplace _ _
  refine Within.bind (Within.doIf fun _ => htends.refreshTarget) fun _ => ?_
  exact Within.bind (Within.doIf fun _ => htolerates.prepareThread tid) fun _ => htends.refreshTarget

/-! ### One iteration -/

/-- The state after a run that returns. -/
def returned (m : Dbg R D α) (s : State R D) : Option (α × State R D) :=
  match m s with
  | .ok a t => some (a, t)
  | .error _ _ => none

theorem returned_of_ok {m : Dbg R D α} {a : α} (hrun : m s = .ok a t) :
    returned m s = some (a, t) := by
  rw [returned, hrun]

theorem ok_of_returned {m : Dbg R D α} {a : α} (hreturned : returned m s = some (a, t)) :
    m s = .ok a t := by
  unfold returned at hreturned
  split at hreturned
  · rename_i hrun
    obtain ⟨rfl, rfl⟩ := Prod.mk.inj (Option.some.inj hreturned)
    exact hrun
  · cases hreturned

/-- What the step over a breakpoint consumes at the beginning of an iteration, and when. -/
def overConsumed (arch : Architecture R D) (env : Environment R D) (s : State R D) :
    Option ((Tid × WaitStatus) × State R D) := do
  let (address, t) ← returned (pc arch env s.debugger.selectedTid) s
  let r ← t.debugger.breakpoints.find? address
  if r.enabled then returned (stepOffTrap env address) t else none

/-- What answers the single step of an iteration, and when. -/
def waitConsumed (arch : Architecture R D) (env : Environment R D) (s : State R D) :
    Option ((Tid × WaitStatus) × State R D) := do
  let (_, t) ← returned (stepOverBreakpoint arch env) s
  let (_, u) ← returned (resumeThread env t.debugger.selectedTid .singlestep) t
  returned (waitForEvent env) u

/-- The line that the loop finds after the iteration, if it gets there. -/
def lineFound (arch : Architecture R D) (env : Environment R D) (s : State R D) :
    Option (SourceLocation × State R D) := do
  let (_, t) ← returned (instructionStep arch env false) s
  if t.debugger.alive then returned (selectedLocation arch env) t else none

theorem of_lineFound {after : SourceLocation} (hfound : lineFound arch env s = some (after, u)) :
    ∃ t, instructionStep arch env false s = .ok ⟨⟩ t ∧ t.debugger.alive = true ∧
      selectedLocation arch env t = .ok after u := by
  unfold lineFound at hfound
  obtain ⟨⟨_, t⟩, hreturned, hfound⟩ := Option.bind_eq_some_iff.mp hfound
  dsimp only at hfound
  split_ifs at hfound with halive
  exact ⟨t, ok_of_returned hreturned, halive, ok_of_returned hfound⟩

/-- The loop goes on with the next iteration. -/
def SourceLocation.staysOn (after before : SourceLocation) : Bool :=
  after.valid && after.sameLine before

/-- The states in which the iterations begin. -/
inductive Iterating (arch : Architecture R D) (env : Environment R D) (before : SourceLocation)
    (s : State R D) : Nat → State R D → Prop
  | first : Iterating arch env before s 0 s
  | next {n : Nat} {t u : State R D} {after : SourceLocation}
      (ht : Iterating arch env before s n t) (hfound : lineFound arch env t = some (after, u))
      (hstays : after.staysOn before = true) : Iterating arch env before s (n + 1) u

/-- Nothing but the end of a step is consumed by the step over a breakpoint. The event that answers
the single step is the end of that step, or a stop after which another line is found, or none. -/
structure StepAttended (arch : Architecture R D) (env : Environment R D) (before : SourceLocation)
    (s : State R D) : Prop where
  stepOver : s.debugger.alive = true → ∀ event t, overConsumed arch env s = some (event, t) →
    completesStep event.1 event.2 t.log = true
  wait : s.debugger.alive = true → ∀ event t, waitConsumed arch env s = some (event, t) →
    completesStep event.1 event.2 t.log = true ∨
      event.2.isStopped = true ∧
        ∃ after u, lineFound arch env s = some (after, u) ∧ after.staysOn before = false

/-! ### Runs of steps -/

/-- No event is consumed. -/
def NoneConsumed (s t : State R D) : Prop := Appends (fun entry => entry.isConsumed = false) s t

instance : IsPreorder (State R D) NoneConsumed :=
  inferInstanceAs (IsPreorder (State R D) (Appends fun entry => entry.isConsumed = false))

theorem tolerates_noneConsumed (env : Environment R D) :
    Tolerates env (fun entry => entry.isConsumed = false) (NoneConsumed (R := R) (D := D)) :=
  tolerates_appends env fun _ => rfl

theorem noneConsumed_modify (change : Debugger → Debugger) :
    Within NoneConsumed (modifyDebugger (R := R) (D := D) change) := appends_modifyDebugger change

/-- Since the log was `base`, only steps have ended. -/
def Stepped (base : List Entry) (s : State R D) : Prop :=
  ∃ newer, s.log = newer ++ base ∧ StepsOnly base newer

theorem Stepped.appends (hs : Stepped base s) (hst : NoneConsumed s t) : Stepped base t := by
  obtain ⟨newer, hlog, hsteps⟩ := hs
  obtain ⟨newest, hlog', hnewest⟩ := hst
  exact ⟨newest ++ newer, by rw [hlog', hlog, List.append_assoc], hsteps.append hnewest⟩

theorem Idles.appends (hst : Idles s t) : NoneConsumed s t :=
  hst.log.mono fun _ => Entry.not_isConsumed_of_isIdle

theorem Stepped.idles (hs : Stepped base s) (hst : Idles s t) : Stepped base t :=
  hs.appends hst.appends

theorem Stepped.consumed {site : Site} {pc : Option Address} (hs : Stepped base s)
    (hcompletes : completesStep tid status s.log = true) :
    Stepped base (s.logged (.consumed site tid status pc)) := by
  obtain ⟨newer, hlog, hsteps⟩ := hs
  rw [hlog] at hcompletes
  exact ⟨.consumed site tid status pc :: newer, congrArg (List.cons _) hlog, hsteps.cons hcompletes⟩

theorem noneConsumed_waitForEvent :
    Within NoneConsumed (waitForEvent env : Dbg R D (Tid × WaitStatus)) := by
  intro s
  rcases waitForEvent_cases env s with ⟨tid, status, rest, -, hrun⟩ | ⟨-, halt, hrun⟩
  · rw [WithinAt, endState_of_ok hrun]
    exact appends_enter (fun _ => rfl) s
  · rw [WithinAt, endState_of_error hrun]
    exact appends_enter (fun _ => rfl) s

theorem noneConsumed_resume (tid : Tid) (request : ResumeRequest) (signal : Nat) :
    Within NoneConsumed (resume env tid request signal : Dbg R D Unit) := by
  have htolerates := tolerates_noneConsumed (R := R) (D := D) env
  exact Within.bind (htolerates.request fun _ _ => rfl) fun _ => htolerates.note _ rfl

theorem noneConsumed_resumeThread (tid : Tid) (request : ResumeRequest) :
    Within NoneConsumed (resumeThread env tid request : Dbg R D Unit) := by
  refine Within.get_bind fun s => ?_
  cases s.debugger.threads.find? tid with
  | none => exact .pure _
  | some state =>
      refine Within.ite (fun _ => ?_) (fun _ => .pure _) s
      exact Within.bind (noneConsumed_resume _ _ _) fun _ => noneConsumed_modify _

theorem noneConsumed_stepOffTrap (address : Address) :
    Within NoneConsumed (stepOffTrap env address : Dbg R D (Tid × WaitStatus)) := by
  refine Within.bind ((idles_disable address).mono fun _ _ => Idles.appends) fun _ => ?_
  refine Within.get_bind fun s =>
    Within.bind ((tolerates_noneConsumed env).note _ rfl) (fun _ t => ?_) s
  have hstep : Within NoneConsumed (stepThread env s.debugger.selectedTid) := by
    refine Within.bind (noneConsumed_resume _ _ _) fun _ => Within.bind ?_ fun _ =>
      noneConsumed_waitForEvent
    refine Within.get_bind fun u => Within.ite (fun _ => ?_) (fun _ => .throw _) u
    exact noneConsumed_modify _
  refine WithinAt.onThrow (hstep t) fun halt u _ => ?_
  cases halt with
  | thrown exception => exact .cons rfl rfl
  | blocked => exact .of_eq rfl

theorem noneConsumed_handleStepEvent (address : Address) (tid : Tid) (status : WaitStatus) :
    Within NoneConsumed (handleStepEvent arch env address tid status) := by
  have htends : TendsWithin arch env (Idles (R := R) (D := D)) := idles_tends
  have hidles : ∀ {β : Type} {m : Dbg R D β}, Within Idles m → Within NoneConsumed m :=
    fun hm => hm.mono fun _ _ => Idles.appends
  have hreinsert : Within NoneConsumed (reinsert arch env tid address) := by
    refine Within.get_bind fun s => WithinAt.onThrow (hidles (htends.enable address) s) ?_
    exact fun _ _ _ => .cons rfl rfl
  refine Within.bind (noneConsumed_modify _) fun _ => Within.doIf fun _ => ?_
  refine Within.get_bind fun s => Within.ite (fun _ => hreinsert) (fun _ => ?_) s
  refine Within.bind hreinsert fun _ => Within.bind (noneConsumed_modify _) fun _ => ?_
  exact hidles (htends.printStop tid)

theorem keeps_stepped {m : Dbg R D α} (hm : Within NoneConsumed m) :
    Within (Keeps (Stepped (R := R) (D := D) base)) m :=
  hm.mono fun _ _ hst hs => hs.appends hst

/-- The step over a breakpoint, if it consumes nothing but the end of a step. -/
theorem Stepped.stepOverBreakpoint (hs : Stepped base s)
    (hover : ∀ event t, overConsumed arch env s = some (event, t) →
      completesStep event.1 event.2 t.log = true) :
    Stepped base (endState (stepOverBreakpoint arch env) s) := by
  have htends : TendsWithin arch env (Idles (R := R) (D := D)) := idles_tends
  have hpc : Within Idles (pc arch env s.debugger.selectedTid) := htends.pc _
  rw [endState, Cosy.stepOverBreakpoint, get_bind_apply, ← endState]
  cases hrun : pc arch env s.debugger.selectedTid s with
  | error halt t =>
      rw [endState_bind_error hrun]
      exact hs.idles (hpc.of_error hrun)
  | ok address t =>
      rw [endState_bind_ok hrun, endState, get_bind_apply, ← endState]
      have ht : Stepped base t := hs.idles (hpc.of_ok hrun)
      cases hr : t.debugger.breakpoints.find? address with
      | none => exact ht
      | some r =>
          dsimp only
          by_cases henabled : r.enabled = true
          · rw [if_pos henabled]
            cases hstep : stepOffTrap env address t with
            | error halt u =>
                rw [endState_bind_error hstep]
                exact ht.appends ((noneConsumed_stepOffTrap address).of_error hstep)
            | ok event u =>
                rw [endState_bind_ok hstep]
                have hu : Stepped base u := ht.appends ((noneConsumed_stepOffTrap address).of_ok hstep)
                have hconsumed : overConsumed arch env s = some (event, u) := by
                  simp only [overConsumed, returned_of_ok hrun, Option.bind_eq_bind, Option.bind_some,
                    hr, henabled, if_true, returned_of_ok hstep]
                exact keeps_stepped (noneConsumed_handleStepEvent address event.1 event.2) _
                  (hu.consumed (hover event u hconsumed))
          · rw [if_neg henabled]
            exact ht

/-- What is consumed and reported last may be anything. -/
structure LastReported (base : List Entry) (tid : Tid) (signal : Nat) (s : State R D) : Prop where
  log : ∃ newest site event pc newer,
    s.log = newest ++ .consumed site tid (.stopped signal event) pc :: newer ++ base ∧
      (∀ entry ∈ newest, entry.isIdle = true) ∧ StepsOnly base newer
  selected : s.debugger.selectedTid = tid
  threads : s.debugger.threads.find? tid = some ⟨tid, true, signal⟩

theorem LastReported.idles {signal : Nat} (hs : LastReported base tid signal s) (hst : Idles s t) :
    LastReported base tid signal t := by
  obtain ⟨⟨newest, site, event, pc, newer, hlog, hnewest, hsteps⟩, hselected, hthreads⟩ := hs
  obtain ⟨latest, hlog', hlatest⟩ := hst.log
  refine ⟨⟨latest ++ newest, site, event, pc, newer, ?_, ?_, hsteps⟩,
    hst.selected.trans hselected, hst.threads _ _ hthreads⟩
  · rw [hlog', hlog]
    simp only [List.append_assoc]
  · exact fun entry hmem => (List.mem_append.mp hmem).elim (hlatest entry) (hnewest entry)

/-- The loop reports the stop. -/
theorem LastReported.reportStop {signal : Nat} (hs : LastReported base tid signal s)
    (halive : s.debugger.alive = true) :
    ∃ newer, (endState (reportStop arch env tid) s).log = newer ++ base ∧
      SwallowsNothing base newer := by
  have htends : TendsWithin arch env (Idles (R := R) (D := D)) := idles_tends
  obtain ⟨⟨newest, site, event, pc, newer, hlog, hnewest, hsteps⟩, -, hthreads⟩ := hs
  have hsignal : s.debugger.stopSignal tid = some signal := by
    simp only [Debugger.stopSignal, hthreads, halive, Bool.and_self, if_true]
  let reporting : Entry := .reporting tid (some signal) s.debugger.breakpoints
    (s.target.stoppedAt arch tid)
  have hrest : Within Idles (do
      onThrow (printStop arch env tid) fun _ t => { t with log := .reported tid :: t.log }
      note (.reported tid)) :=
    Within.bind (fun t => WithinAt.onThrow (htends.printStop tid t) fun _ _ _ =>
      idles_of_sameDebugger (.cons rfl rfl) rfl) fun _ => htends.mark rfl
  have hrun : endState (Cosy.reportStop arch env tid) s = endState (do
      onThrow (printStop arch env tid) fun _ t => { t with log := .reported tid :: t.log }
      note (.reported tid)) (s.logged reporting) := by
    rw [endState, Cosy.reportStop, get_bind_apply, hsignal, bind_ok (note_apply _ _)]
    rfl
  obtain ⟨latest, hlatest, hidle⟩ := (hrest (s.logged reporting)).log
  have hreports : Entry.reports tid (.stopped signal event) reporting = true := by
    simp [reporting, Entry.reports]
  refine ⟨(latest ++ reporting :: newest) ++ .consumed site tid (.stopped signal event) pc :: newer,
    ?_, hsteps.attended ?_ ?_⟩
  · rw [hrun, hlatest, State.logged, hlog]
    simp only [List.append_assoc, List.cons_append]
  · intro entry hmem
    rcases List.mem_append.mp hmem with hlater | hmem
    · exact hidle entry hlater
    rcases List.mem_cons.mp hmem with rfl | hearlier
    · rfl
    · exact hnewest entry hearlier
  · rw [List.any_append, List.any_cons, hreports, Bool.true_or, Bool.or_true]

/-- A stop is entered in the table, and the thread is selected. -/
theorem lastReported_handleEvent {site : Site} {pc : Option Address} {signal event : Nat}
    (hs : Stepped base s)
    (hrun : handleEvent arch env tid (.stopped signal event) false
      (s.logged (.consumed site tid (.stopped signal event) pc)) = .ok ⟨⟩ t) :
    LastReported base tid signal t := by
  obtain ⟨newer, hlog, hsteps⟩ := hs
  let consumed := s.logged (.consumed site tid (.stopped signal event) pc)
  let entered := consumed.withDebugger
    { s.debugger with
      selectedTid := tid
      threads := s.debugger.threads.insert tid ⟨tid, true, signal⟩ }
  have hentered : LastReported base tid signal entered :=
    ⟨⟨[], site, event, pc, newer, congrArg (List.cons _) hlog, by simp, hsteps⟩, rfl,
      SortedMap.find?_insert_self _ _ _⟩
  have hstop : attendToStop arch env tid signal event entered = .ok ⟨⟩ t := by
    obtain ⟨_, u, hselect, hstop⟩ := of_bind_ok hrun
    cases hselect
    obtain ⟨_, v, hstop, hreport⟩ := of_bind_ok hstop
    cases hreport
    exact hstop
  exact hentered.idles ((idles_attendToStop tid signal event).of_ok hstop)

theorem noneConsumed_handleEvent (tid : Tid) (status : WaitStatus) :
    Within NoneConsumed (handleEvent arch env tid status false) := by
  have hidles : ∀ {β : Type} {m : Dbg R D β}, Within Idles m → Within NoneConsumed m :=
    fun hm => hm.mono fun _ _ => Idles.appends
  have hend : ∀ message, Within NoneConsumed (do
      handleEnd (R := R) (D := D) tid
      doIf (false = true) (print message)) := fun message =>
    Within.bind (noneConsumed_modify _) fun _ =>
      Within.doIf fun hfalse => absurd hfalse Bool.false_ne_true
  refine Within.bind (noneConsumed_modify _) fun _ => ?_
  cases status with
  | exited code => exact hend _
  | signaled signal => exact hend _
  | continued => exact .pure _
  | stopped signal event =>
      refine Within.bind (Within.bind (noneConsumed_modify _) fun _ => ?_) fun _ =>
        Within.doIf fun hfalse => absurd hfalse Bool.false_ne_true
      exact hidles (idles_attendToStop tid signal event)

variable (arch env) in
theorem instructionStep_of_alive (halive : s.debugger.alive = true) (report : Bool) :
    instructionStep arch env report s = (do
      stepOverBreakpoint arch env
      let t ← get
      resumeThread env t.debugger.selectedTid .singlestep
      waitAndReport arch env report) s := by
  rw [instructionStep, get_bind_apply, if_pos halive]

theorem waitAndReport_of_ok {event : Tid × WaitStatus} (hwait : waitForEvent env s = .ok event t)
    (report : Bool) :
    waitAndReport arch env report s = handleEvent arch env event.1 event.2 report
      (t.logged (.consumed .waitAndReport event.1 event.2 (t.target.stoppedAt arch event.1))) := by
  rw [waitAndReport, bind_ok hwait]
  rfl

/-- One iteration: again only steps have ended, or the loop is going to report what was consumed. -/
theorem StepAttended.instructionStep {before : SourceLocation} (hattended : StepAttended arch env before s)
    (hs : Stepped base s) :
    Stepped base (endState (instructionStep arch env false) s) ∨
      ∃ t tid signal, instructionStep arch env false s = .ok ⟨⟩ t ∧
        LastReported base tid signal t ∧
        ∃ after u, lineFound arch env s = some (after, u) ∧ after.staysOn before = false := by
  by_cases halive : s.debugger.alive = true
  swap
  · refine Or.inl ?_
    rw [endState, Cosy.instructionStep, get_bind_apply, if_neg halive]
    exact hs
  have hbody := instructionStep_of_alive arch env halive false
  have hover := hs.stepOverBreakpoint (hattended.stepOver halive)
  cases hrun : stepOverBreakpoint arch env s with
  | error halt t =>
      refine Or.inl ?_
      rw [endState, hbody, bind_error hrun]
      exact endState_of_error hrun ▸ hover
  | ok _ t =>
      have ht : Stepped base t := endState_of_ok hrun ▸ hover
      rw [bind_ok hrun, get_bind_apply] at hbody
      cases hresume : resumeThread env t.debugger.selectedTid .singlestep t with
      | error halt u =>
          refine Or.inl ?_
          rw [endState, hbody, bind_error hresume]
          exact ht.appends ((noneConsumed_resumeThread _ _).of_error hresume)
      | ok _ u =>
          have hu : Stepped base u := ht.appends ((noneConsumed_resumeThread _ _).of_ok hresume)
          rw [bind_ok hresume] at hbody
          cases hwait : waitForEvent env u with
          | error halt v =>
              refine Or.inl ?_
              rw [endState, hbody, waitAndReport, bind_error hwait]
              exact hu.appends (noneConsumed_waitForEvent.of_error hwait)
          | ok event v =>
              have hv : Stepped base v := hu.appends (noneConsumed_waitForEvent.of_ok hwait)
              rw [waitAndReport_of_ok hwait] at hbody
              have hconsumed : waitConsumed arch env s = some (event, v) := by
                simp only [waitConsumed, returned_of_ok hrun, returned_of_ok hresume,
                  Option.bind_eq_bind, Option.bind_some, returned_of_ok hwait]
              rcases hattended.wait halive event v hconsumed with
                hcompletes | ⟨hstopped, after, w, hfound, hleaves⟩
              · refine Or.inl ?_
                rw [endState, hbody]
                exact keeps_stepped (noneConsumed_handleEvent event.1 event.2) _
                  (hv.consumed hcompletes)
              · obtain ⟨x, hiteration, -, -⟩ := of_lineFound hfound
                obtain ⟨tid, status⟩ := event
                cases status with
                | stopped signal kind =>
                    refine Or.inr ⟨x, tid, signal, hiteration, ?_, after, w, hfound, hleaves⟩
                    exact lastReported_handleEvent hv (hbody.symm.trans hiteration)
                | _ => cases hstopped

/-- The loop, from an iteration on. -/
theorem swallowsNothing_sourceStepFrom {before : SourceLocation} (count : Nat) {n : Nat}
    (hcount : n + count = sourceStepLimit) (hs : Stepped base s)
    (hiterating : Iterating arch env before u n s)
    (hattended : ∀ n t, n < sourceStepLimit → Iterating arch env before u n t →
      StepAttended arch env before t) :
    ∃ newer, (endState (sourceStepFrom arch env before count) s).log = newer ++ base ∧
      SwallowsNothing base newer := by
  have htends : TendsWithin arch env (Idles (R := R) (D := D)) := idles_tends
  have hstepped : ∀ {t : State R D}, Stepped base t →
      ∃ newer, t.log = newer ++ base ∧ SwallowsNothing base newer := by
    rintro t ⟨newer, hlog, hsteps⟩
    exact ⟨newer, hlog, hsteps.swallowsNothing⟩
  induction count generalizing n s with
  | zero => exact hstepped (hs.idles (htends.print _ s))
  | succ count ih =>
      have hlocates : Within Idles (selectedLocation arch env) := htends.selectedLocation
      have hbody : ∀ {t : State R D}, instructionStep arch env false s = .ok ⟨⟩ t →
          t.debugger.alive = true → sourceStepFrom arch env before (count + 1) s = (do
            let after ← selectedLocation arch env
            if after.staysOn before then sourceStepFrom arch env before count
            else do
              let s ← get
              reportStop arch env s.debugger.selectedTid) t := by
        intro t hrun halive
        rw [sourceStepFrom, bind_ok hrun, get_bind_apply, if_pos halive]
        rfl
      rcases (hattended n s (by omega) hiterating).instructionStep hs with
        hstepped' | ⟨t, tid, signal, hrun, hlast, after, w, hfound, hleaves⟩
      · cases hrun : instructionStep arch env false s with
        | error halt t =>
            rw [sourceStepFrom, endState_bind_error hrun]
            exact hstepped (endState_of_error hrun ▸ hstepped')
        | ok _ t =>
            have ht : Stepped base t := endState_of_ok hrun ▸ hstepped'
            by_cases halive : t.debugger.alive = true
            swap
            · rw [sourceStepFrom, endState_bind_ok hrun, endState, get_bind_apply, if_neg halive]
              exact hstepped ht
            rw [endState, hbody hrun halive]
            cases hlocation : selectedLocation arch env t with
            | error halt v =>
                rw [bind_error hlocation]
                exact hstepped (ht.idles (hlocates.of_error hlocation))
            | ok after v =>
                have hv : Stepped base v := ht.idles (hlocates.of_ok hlocation)
                rw [bind_ok hlocation]
                by_cases hstays : after.staysOn before = true
                · rw [if_pos hstays]
                  have hfound : lineFound arch env s = some (after, v) := by
                    simp only [lineFound, returned_of_ok hrun, Option.bind_eq_bind, Option.bind_some,
                      halive, if_true, returned_of_ok hlocation]
                  exact ih (by omega) hv (.next hiterating hfound hstays)
                · rw [if_neg hstays]
                  exact hstepped (hv.idles (htends.reportStop _ v))
      · obtain ⟨t', hrun', halive, hlocation⟩ := of_lineFound hfound
        obtain ⟨-, rfl⟩ := EStateM.Result.ok.inj (hrun.symm.trans hrun')
        have hidles : Idles t w := hlocates.of_ok hlocation
        have hw : LastReported base tid signal w := hlast.idles hidles
        have hnot : ¬ after.staysOn before = true := by simp [hleaves]
        rw [endState, hbody hrun halive, bind_ok hlocation, if_neg hnot, get_bind_apply, hw.selected]
        exact hw.reportStop (hidles.alive.trans halive)

/-- A source step swallows nothing as long as each event is the end of a step, or a stop that answers
a single step and after which the thread is found on another line. -/
theorem sourceStep_swallowsNothing {before : SourceLocation}
    (hlocation : selectedLocation arch env s = .ok before u) (hvalid : before.valid = true)
    (hattended : ∀ n t, n < sourceStepLimit → Iterating arch env before u n t →
      StepAttended arch env before t) :
    SwallowsNothing s.log (s.entriesSince (endState (sourceStep arch env) s)) := by
  have htends : TendsWithin arch env (Idles (R := R) (D := D)) := idles_tends
  have hs : Stepped s.log s := ⟨[], rfl, fun later _ _ _ _ _ heq => by simp at heq⟩
  have hu : Stepped s.log u := hs.idles (htends.selectedLocation.of_ok hlocation)
  have hrun : endState (sourceStep arch env) s
      = endState (sourceStepFrom arch env before sourceStepLimit) u := by
    rw [sourceStep, endState_bind_ok hlocation, if_pos hvalid]
  obtain ⟨newer, hlog, hswallows⟩ :=
    swallowsNothing_sourceStepFrom sourceStepLimit (Nat.zero_add _) hu .first hattended
  rw [hrun, entriesSince_of_append hlog]
  exact hswallows

/-! ### An event on the way -/

/-- The condition on one iteration, computed. -/
def stepAttends (arch : Architecture R D) (env : Environment R D) (before : SourceLocation)
    (s : State R D) : Bool :=
  (overConsumed arch env s).all (fun consumed =>
      completesStep consumed.1.1 consumed.1.2 consumed.2.log) &&
    (waitConsumed arch env s).all fun consumed =>
      completesStep consumed.1.1 consumed.1.2 consumed.2.log ||
        consumed.1.2.isStopped && (lineFound arch env s).any fun found => !found.1.staysOn before

theorem stepAttended_of_stepAttends {before : SourceLocation}
    (hattends : stepAttends arch env before s = true) : StepAttended arch env before s := by
  obtain ⟨hover, hwait⟩ := Bool.and_eq_true_iff.mp hattends
  refine ⟨fun _ event t hconsumed => ?_, fun _ event t hconsumed => ?_⟩
  · exact (Option.all_eq_true _ _).mp hover (event, t) hconsumed
  · have hevent := (Option.all_eq_true _ _).mp hwait (event, t) hconsumed
    rw [Bool.or_eq_true, Bool.and_eq_true, Option.any_eq_true] at hevent
    refine hevent.imp_right fun ⟨hstopped, ⟨after, u⟩, hfound, hleaves⟩ => ⟨hstopped, after, u, hfound, ?_⟩
    rwa [Bool.not_eq_true'] at hleaves

/-- The iterations one after another, up to one after which the line is left. -/
def attendsFrom (arch : Architecture R D) (env : Environment R D) (before : SourceLocation) :
    Nat → State R D → Bool
  | 0, _ => false
  | count + 1, s =>
      stepAttends arch env before s &&
        (lineFound arch env s).all fun found =>
          !found.1.staysOn before || attendsFrom arch env before count found.2

theorem Iterating.attendsFrom {before : SourceLocation} {n : Nat}
    (ht : Iterating arch env before s n t)
    (hs : ∃ count, Cosy.attendsFrom arch env before count s = true) :
    ∃ count, Cosy.attendsFrom arch env before count t = true := by
  induction ht with
  | first => exact hs
  | @next n t u after ht hfound hstays ih =>
      obtain ⟨count, hcount⟩ := ih
      cases count with
      | zero => cases hcount
      | succ count =>
          have hrest := (Option.all_eq_true _ _).mp (Bool.and_eq_true_iff.mp hcount).2 (after, u) hfound
          rw [hstays] at hrest
          exact ⟨count, hrest⟩

theorem stepAttended_of_attendsFrom {before : SourceLocation} {count : Nat}
    (hs : attendsFrom arch env before count s = true) {n : Nat}
    (ht : Iterating arch env before s n t) : StepAttended arch env before t := by
  obtain ⟨left, hleft⟩ := ht.attendsFrom ⟨count, hs⟩
  cases left with
  | zero => cases hleft
  | succ left => exact stepAttended_of_stepAttends (Bool.and_eq_true_iff.mp hleft).1

/-- Line 7 of a file, up to the fourth instruction, and line 8. -/
def nopLines : ModuleManager :=
  { ModuleManager.unloaded with
    location := fun address => ⟨"nops.c".toList, if address.toNat < 0x1004 then 7 else 8, 0, []⟩ }

/-- The thread gets signal 11 at the first instruction of the next line. -/
def signalledLater : Environment UserRegs X86_64.DebugRegisters :=
  nopMachine fun tick => if tick = 31 then [.stop 1 11 0 0 0] else [.run 1]

def Entry.isSignalled : Entry → Bool
  | .consumed .waitAndReport _ (.stopped 11 _) _ => true
  | _ => false

/-- Two instructions of a line are executed, and a third one, which has a breakpoint, by the step over
it. The signal comes when the thread is stepped from there, and ends the loop. -/
theorem sourceStep_swallowsNothing_nops :
    ∃ s, Prompt x86_64 signalledLater (State.initial 1 { nopTarget 1 with maps := some nopLines }) s ∧
      SwallowsNothing s.log (s.entriesSince (endState (sourceStep x86_64 signalledLater) s)) ∧
      (s.entriesSince (endState (sourceStep x86_64 signalledLater) s)).any Entry.isSignalled
        = true := by
  obtain ⟨s, hs, hcheck⟩ := Prompt.exists_of_runBatch x86_64 signalledLater
    (State.initial 1 { nopTarget 1 with maps := some nopLines })
    ["register write rip 0x1001".toList, "break *0x1003".toList]
    (p := fun s =>
      (s.entriesSince (endState (sourceStep x86_64 signalledLater) s)).any Entry.isSignalled &&
      (returned (selectedLocation x86_64 signalledLater) s).any fun found =>
        found.1.valid && attendsFrom x86_64 signalledLater found.1 4 found.2) (by decide +kernel)
  rw [Bool.and_eq_true, Option.any_eq_true] at hcheck
  obtain ⟨hsignalled, ⟨before, u⟩, hlocation, hcheck⟩ := hcheck
  obtain ⟨hvalid, hattends⟩ := Bool.and_eq_true_iff.mp hcheck
  refine ⟨s, hs, sourceStep_swallowsNothing (ok_of_returned hlocation) hvalid ?_, hsignalled⟩
  exact fun n t _ hiterating => stepAttended_of_attendsFrom hattends hiterating

/-- The thread gets signal 11 instead of executing the second instruction. -/
def signalledOnce : Environment UserRegs X86_64.DebugRegisters :=
  nopMachine fun tick => if tick = 14 then [.stop 1 11 0 0 0] else [.run 1]

/-- A violation at one place. -/
theorem not_swallowsNothing {base newer : List Entry} (i : Nat)
    (hswallowed : (newer[i]?).any (fun entry =>
      !entry.attended (newer.take i) (newer.drop (i + 1) ++ base)) = true) :
    ¬ SwallowsNothing base newer := by
  intro hswallows
  obtain ⟨entry, hentry, hviolates⟩ := (Option.any_eq_true _ _).mp hswallowed
  obtain ⟨hlt, rfl⟩ := List.getElem?_eq_some_iff.mp hentry
  have heq : newer = newer.take i ++ newer[i] :: newer.drop (i + 1) := by
    rw [← List.drop_eq_getElem_cons hlt, List.take_append_drop]
  rw [hswallows _ _ _ heq] at hviolates
  cases hviolates

/-- The signal stops the thread on the same line, and the step goes on without a word. -/
theorem signal_swallowed :
    ∃ s, Prompt x86_64 signalledOnce (State.initial 1 { nopTarget 1 with maps := some nopLines }) s ∧
      (∃ before u, selectedLocation x86_64 signalledOnce s = .ok before u ∧ before.valid = true) ∧
      ¬ SwallowsNothing s.log (s.entriesSince (endState (sourceStep x86_64 signalledOnce) s)) := by
  obtain ⟨s, hs, hcheck⟩ := Prompt.exists_of_runBatch x86_64 signalledOnce
    (State.initial 1 { nopTarget 1 with maps := some nopLines }) []
    (p := fun s =>
      let newer := s.entriesSince (endState (sourceStep x86_64 signalledOnce) s)
      (returned (selectedLocation x86_64 signalledOnce) s).any (fun found => found.1.valid) &&
        (newer[12]?).any (fun entry => !entry.attended (newer.take 12) (newer.drop 13 ++ s.log)))
    (by decide +kernel)
  rw [Bool.and_eq_true, Option.any_eq_true] at hcheck
  obtain ⟨⟨⟨before, u⟩, hlocation, hvalid⟩, hviolates⟩ := hcheck
  exact ⟨s, hs, ⟨before, u, ok_of_returned hlocation, hvalid⟩, not_swallowsNothing 12 hviolates⟩

end Cosy
