import Cosy.Lib.Changes
import Cosy.Recording

/-!
# A `watch` that fails

`set_watchpoint` programs one thread after another, each with several requests, and gives up at the
first one that is refused. The record is then not added; what had been written by then stays.
-/

namespace Cosy

open Changes Effect

variable {R D α : Type} {arch : Architecture R D} {env : Environment R D} {s t u : State R D}
  {tid : Tid}

/-! ### The requests of a command -/

/-- The thread, if it is in a ptrace stop. -/
def Target.stopped? (target : Target R D) (tid : Tid) : Option (Task R D) :=
  (target.tasks.find? tid).filter Task.stopped

/-- What is asked for to program a thread: its debug registers are read, then written. -/
def threadRequests (plan : WatchPlan D) (target : Target R D) (tid : Tid) : List (Tid × (D → D)) :=
  (tid, id) ::
    match target.stopped? tid with
    | some task => (plan.writes task.debug).map fun write => (tid, write.2)
    | none => []

/-- What is asked for to program the threads recorded as stopped. -/
def watchRequests (plan : WatchPlan D) (target : Target R D) (entries : List (Tid × ThreadState)) :
    List (Tid × (D → D)) :=
  entries.flatMap fun entry => if entry.2.stopped then threadRequests plan target entry.1 else []

/-- Whether a request to the thread succeeds, as the `n`-th from now on. -/
def State.grants (env : Environment R D) (s : State R D) (n : Nat) (tid : Tid) : Bool :=
  !env.fails (s.tick + n) && (s.target.stopped? tid).isSome

/-- While the command runs, no thread recorded as stopped starts or stops, and the debug registers
that there are change by requests only. -/
structure State.Spared (env : Environment R D) (s : State R D) : Prop where
  steady : ∀ tick (target : Target R D) tid, s.debugger.recordOf tid = some true →
    (env.interfere tick target).2.stopped? tid = target.stopped? tid
  debug : ∀ tick (target : Target R D) tid task', s.target.tasks.contains tid = true →
    (env.interfere tick target).2.tasks.find? tid = some task' →
      ∃ task, target.tasks.find? tid = some task ∧ task'.debug = task.debug

/-- These requests have been carried out since `s`. -/
structure Carried (s : State R D) (changes : List (Tid × (D → D))) (u : State R D) : Prop where
  debugger : u.debugger = s.debugger
  stopped : ∀ tid, s.debugger.recordOf tid = some true → u.target.stopped? tid
    = (s.target.stopped? tid).map fun task =>
      { task with debug := applied changes tid task.debug }
  debug : ∀ tid task', s.target.tasks.contains tid = true → u.target.tasks.find? tid = some task' →
    ∃ task, s.target.tasks.find? tid = some task ∧ task'.debug = applied changes tid task.debug

theorem Carried.refl (s : State R D) : Carried s [] s := by
  refine ⟨rfl, fun tid _ => ?_, fun tid task' _ htask' => ⟨task', htask', rfl⟩⟩
  cases s.target.stopped? tid <;> rfl

theorem Carried.enter {changes : List (Tid × (D → D))} (hspared : s.Spared env)
    (hu : Carried s changes u) : Carried s changes (env.enter u) := by
  refine ⟨hu.debugger, fun tid hrecord => ?_, fun tid task' hthere htask' => ?_⟩
  · exact (hspared.steady u.tick u.target tid hrecord).trans (hu.stopped tid hrecord)
  · obtain ⟨task, htask, hdebug⟩ := hspared.debug u.tick u.target tid task' hthere htask'
    obtain ⟨task₀, htask₀, hdebug₀⟩ := hu.debug tid task hthere htask
    exact ⟨task₀, htask₀, hdebug.trans hdebug₀⟩

/-- These requests have been carried out since `s`, and no others were made. -/
structure Reached (s : State R D) (changes : List (Tid × (D → D))) (u : State R D) : Prop
    extends Carried s changes u where
  tick : u.tick = s.tick + changes.length

/-- Run where `changes` have been carried out, `m` asks for these requests, up to the first one that
is refused; if none is, its result is as `V` says. -/
def PerformsAfter (env : Environment R D) (s : State R D) (changes : List (Tid × (D → D)))
    (m : Dbg R D α) (requests : List (Tid × (D → D))) (V : α → Prop) : Prop :=
  Triple (Reached s changes) m
    (fun a t => V a ∧ granted (s.grants env) changes.length requests = requests ∧
      Reached s (changes ++ requests) t)
    (fun halt t => (∃ exception, halt = .thrown exception) ∧
      granted (s.grants env) changes.length requests ≠ requests ∧
      Carried s (changes ++ granted (s.grants env) changes.length requests) t)

section Performs

variable {β : Type} {changes requests later : List (Tid × (D → D))} {m : Dbg R D α}
  {f : α → Dbg R D β} {V : α → Prop} {W : β → Prop}

theorem PerformsAfter.pure {a : α} (ha : V a) :
    PerformsAfter env s changes (pure a) [] V := by
  refine Triple.pure fun u hu => ⟨ha, rfl, ?_⟩
  rw [List.append_nil]
  exact hu

theorem PerformsAfter.bind (hm : PerformsAfter env s changes m requests V)
    (hf : ∀ a, V a → PerformsAfter env s (changes ++ requests) (f a) later W) :
    PerformsAfter env s changes (m >>= f) (requests ++ later) W := by
  refine Triple.bind (hm.conseq (fun _ hu => hu) (fun _ _ ht => ht) ?_) fun a => ?_
  · rintro halt t ⟨hthrown, hrefused, hcarried⟩
    rw [granted_append_of_refused later hrefused]
    exact ⟨hthrown, granted_ne_append later hrefused, hcarried⟩
  · rintro t ⟨ha, hall, ht⟩
    have hrest := hf a ha
    unfold PerformsAfter at hrest
    rw [List.length_append] at hrest
    rw [granted_append later hall]
    refine hrest.conseq (fun _ hu => hu) ?_ ?_ t ht
    · rintro b u ⟨hb, hall', hu⟩
      rw [List.append_assoc] at hu
      exact ⟨hb, by rw [hall'], hu⟩
    · rintro halt u ⟨hthrown, hrefused, hcarried⟩
      rw [List.append_assoc] at hcarried
      exact ⟨hthrown, fun heq => hrefused (List.append_cancel_left heq), hcarried⟩

theorem Target.stopped?_eq_some_iff {target : Target R D} {task : Task R D} :
    target.stopped? tid = some task ↔ target.tasks.find? tid = some task ∧ task.stopped = true :=
  Option.filter_eq_some_iff

/-- The debug registers of a thread that is stopped are changed once more. -/
theorem Carried.change {change : D → D} {task : Task R D} {target : Target R D}
    (hu : Carried s changes u) (htask : s.target.stopped? tid = some task)
    (hfind : ∀ other, target.tasks.find? other
      = if other = tid then some { task with debug := change (applied changes tid task.debug) }
        else u.target.tasks.find? other) :
    Carried s (changes ++ [(tid, change)]) { u with target } := by
  obtain ⟨hthere, hstopped⟩ := Target.stopped?_eq_some_iff.mp htask
  have hsame := hfind tid
  rw [if_pos rfl] at hsame
  refine ⟨hu.debugger, fun other hother => ?_, fun other task' hother htask' => ?_⟩
  · by_cases heq : other = tid
    · subst heq
      rw [htask, Option.map_some, applied_concat, if_pos rfl]
      exact Target.stopped?_eq_some_iff.mpr ⟨hsame, hstopped⟩
    · have hfound := hfind other
      rw [if_neg heq] at hfound
      simp only [Target.stopped?, hfound, applied_concat, if_neg (Ne.symm heq)]
      exact hu.stopped other hother
  · by_cases heq : other = tid
    · subst heq
      obtain rfl := Option.some.inj (hsame.symm.trans htask')
      refine ⟨task, hthere, ?_⟩
      rw [applied_concat, if_pos rfl]
    · have hfound := hfind other
      rw [if_neg heq] at hfound
      obtain ⟨task₀, htask₀, hdebug⟩ := hu.debug other task' hother (hfound.symm.trans htask')
      refine ⟨task₀, htask₀, ?_⟩
      rw [applied_concat, if_neg (Ne.symm heq), hdebug]

/-- One request, which changes nothing but the debug registers of its thread. -/
theorem performs_ptrace (hspared : s.Spared env) (hrecord : s.debugger.recordOf tid = some true)
    {operation : String} {request : Task R D → Target R D → α × Target R D} {change : D → D}
    (hrequest : ∀ (task : Task R D) (target : Target R D) other,
      target.tasks.find? tid = some task → (request task target).2.tasks.find? other
        = if other = tid then some { task with debug := change task.debug }
          else target.tasks.find? other)
    (hvalue : ∀ (task : Task R D) (target : Target R D), s.target.stopped? tid = some task →
      V (request { task with debug := applied changes tid task.debug } target).1) :
    PerformsAfter env s changes (ptrace env operation tid request) [(tid, change)] V := by
  intro u hu
  have henter : Carried s changes (env.enter u) := hu.toCarried.enter hspared
  have hgiven := henter.stopped tid hrecord
  rcases ptrace_cases env operation tid request u with
    ⟨task, htask, hstopped, hfails, hrun⟩ | ⟨hnone, hrun⟩
  · rw [hrun]
    rw [Target.stopped?_eq_some_iff.mpr ⟨htask, hstopped⟩] at hgiven
    obtain ⟨task₀, htask₀, rfl⟩ := Option.map_eq_some_iff.mp hgiven.symm
    have hgrants : s.grants env changes.length tid = true := by
      rw [State.grants, htask₀, ← hu.tick, hfails]
      rfl
    refine ⟨hvalue task₀ _ htask₀, granted_cons hgrants,
      henter.change htask₀ fun other => hrequest _ _ other htask, ?_⟩
    rw [List.length_append, ← Nat.add_assoc, ← hu.tick]
    rfl
  · rw [hrun]
    have hrefused : ¬ s.grants env changes.length tid = true := by
      intro hgrants
      rw [State.grants, Bool.and_eq_true, Bool.not_eq_true', ← hu.tick] at hgrants
      obtain ⟨task₀, htask₀⟩ := Option.isSome_iff_exists.mp hgrants.2
      rw [htask₀, Option.map_some, Target.stopped?_eq_some_iff] at hgiven
      have hfails := hnone _ hgiven.1 hgiven.2
      rw [hgrants.1] at hfails
      cases hfails
    refine ⟨⟨_, rfl⟩, ?_, ?_⟩
    · rw [granted_cons_of_refused hrefused]
      exact (List.cons_ne_nil _ _).symm
    · rw [granted_cons_of_refused hrefused, List.append_nil]
      exact henter

theorem performs_writes (hspared : s.Spared env) (hrecord : s.debugger.recordOf tid = some true)
    (writes : List (String × (D → D))) :
    PerformsAfter env s changes (writes.forM fun write =>
        ptrace env write.1 tid fun task target =>
          (PUnit.unit, target.setTask tid { task with debug := write.2 task.debug }))
      (writes.map fun write => (tid, write.2)) fun _ => True := by
  induction writes generalizing changes with
  | nil => exact .pure trivial
  | cons write rest ih =>
      have hwrite : PerformsAfter env s changes (ptrace env write.1 tid fun task target =>
          (PUnit.unit, target.setTask tid { task with debug := write.2 task.debug }))
          [(tid, write.2)] fun _ => True := by
        refine performs_ptrace hspared hrecord (fun task target other _ => ?_) fun _ _ _ => trivial
        exact SortedMap.find?_insert _ _ _ _
      exact hwrite.bind fun _ _ => ih

/-- The thread is read, then written to, unless it cannot even be read. -/
theorem performs_configureWatchpoint (hspared : s.Spared env)
    (hrecord : s.debugger.recordOf tid = some true) (hfresh : ∀ change ∈ changes, change.1 ≠ tid)
    {slot : Nat} {address : Address} {watchAccess : WatchAccess} {bytes : Nat} {plan : WatchPlan D}
    (hplan : arch.configureWatchpoint slot address watchAccess bytes = .ok plan) :
    PerformsAfter env s changes (configureWatchpoint arch env tid slot address watchAccess bytes)
      (threadRequests plan s.target tid) fun _ => True := by
  rw [configureWatchpoint, hplan, threadRequests]
  have hread : PerformsAfter env s changes
      (ptrace env plan.readOperation tid fun task target => (task.debug, target)) [(tid, id)]
      fun debug => ∃ task, s.target.stopped? tid = some task ∧ debug = task.debug := by
    refine performs_ptrace hspared hrecord (fun task target other htask => ?_) fun task _ htask => ?_
    · split
      · rename_i heq
        rw [heq]
        exact htask
      · rfl
    · exact ⟨task, htask, applied_of_notMem hfresh _⟩
  refine hread.bind ?_
  rintro debug ⟨task, htask, rfl⟩
  rw [htask]
  exact performs_writes hspared hrecord _

variable (changes) in
theorem performs_loop (hspared : s.Spared env)
    {slot : Nat} {address : Address} {watchAccess : WatchAccess} {bytes : Nat} {plan : WatchPlan D}
    (hplan : arch.configureWatchpoint slot address watchAccess bytes = .ok plan)
    {entries : List (Tid × ThreadState)} (hkeys : (entries.map Prod.fst).Nodup)
    (hentries : ∀ entry ∈ entries, entry.2.stopped = true → s.debugger.recordOf entry.1 = some true)
    (hfresh : ∀ entry ∈ entries, ∀ change ∈ changes, change.1 ≠ entry.1) :
    PerformsAfter env s changes (entries.forM (onStopped fun tid =>
        configureWatchpoint arch env tid slot address watchAccess bytes))
      (watchRequests plan s.target entries) fun _ => True := by
  induction entries generalizing changes with
  | nil => exact .pure trivial
  | cons entry rest ih =>
      rw [List.map_cons, List.nodup_cons] at hkeys
      have hrest : ∀ requests : List (Tid × (D → D)), (∀ change ∈ requests, change.1 = entry.1) →
          PerformsAfter env s (changes ++ requests) (rest.forM (onStopped fun tid =>
            configureWatchpoint arch env tid slot address watchAccess bytes))
            (watchRequests plan s.target rest) fun _ => True := by
        intro requests hrequests
        refine ih _ hkeys.2 (fun other hmem => hentries other (List.mem_cons_of_mem _ hmem)) ?_
        intro other hmem change hchange
        rcases List.mem_append.mp hchange with hearlier | hlater
        · exact hfresh other (List.mem_cons_of_mem _ hmem) change hearlier
        · rw [hrequests change hlater]
          rintro heq
          exact hkeys.1 (heq ▸ List.mem_map_of_mem hmem)
      have hrequests : watchRequests plan s.target (entry :: rest)
          = (if entry.2.stopped then threadRequests plan s.target entry.1 else [])
            ++ watchRequests plan s.target rest := List.flatMap_cons
      rw [hrequests]
      refine PerformsAfter.bind (m := onStopped _ entry) (V := fun _ => True) ?_ fun _ _ => ?_
      · unfold onStopped
        split
        · rename_i hstopped
          exact performs_configureWatchpoint hspared (hentries entry List.mem_cons_self hstopped)
            (hfresh entry List.mem_cons_self) hplan
        · exact .pure trivial
      · refine hrest _ ?_
        split
        · intro change hchange
          unfold threadRequests at hchange
          rcases List.mem_cons.mp hchange with rfl | hwrite
          · rfl
          · split at hwrite
            · obtain ⟨write, -, rfl⟩ := List.mem_map.mp hwrite
              rfl
            · cases hwrite
        · exact fun change hmem => absurd hmem List.not_mem_nil

end Performs

/-! ### A command that fails -/

section Failing

variable {address : Address} {watchAccess : WatchAccess} {bytes : Nat}

/-- What `set_watchpoint` does to the threads. -/
def programThreads (arch : Architecture R D) (env : Environment R D) (s : State R D)
    (address : Address) (watchAccess : WatchAccess) (bytes : Nat) : Dbg R D Unit :=
  s.debugger.threads.entries.forM (onStopped fun tid =>
    configureWatchpoint arch env tid s.debugger.nextSlot address watchAccess bytes)

/-- There is a slot, and `configure_watchpoint` throws for one of the threads. -/
def WatchFails (arch : Architecture R D) (env : Environment R D) (s : State R D)
    (address : Address) (watchAccess : WatchAccess) (bytes : Nat) : Prop :=
  ¬ 4 ≤ s.debugger.nextSlot ∧
    ∃ halt t, programThreads arch env s address watchAccess bytes s = .error halt t

/-- The debug registers, the records and the number of the next one are what they were. -/
structure Untouched (s t : State R D) : Prop where
  debug : ∀ tid task task', s.target.tasks.find? tid = some task →
    t.target.tasks.find? tid = some task' → task'.debug = task.debug
  watchpoints : t.debugger.watchpoints = s.debugger.watchpoints
  next : t.debugger.nextWatchpointId = s.debugger.nextWatchpointId

/-- What is carried out of the requests for this watchpoint. -/
def answeredRequests (arch : Architecture R D) (env : Environment R D) (s : State R D)
    (address : Address) (watchAccess : WatchAccess) (bytes : Nat) : List (Tid × (D → D)) :=
  match arch.configureWatchpoint s.debugger.nextSlot address watchAccess bytes with
  | .ok plan =>
      granted (s.grants env) 0 (watchRequests plan s.target s.debugger.threads.entries)
  | .error _ => []

/-- The requests that are carried out write what is there. -/
def WritesNothingNew (arch : Architecture R D) (env : Environment R D) (s : State R D)
    (address : Address) (watchAccess : WatchAccess) (bytes : Nat) : Prop :=
  ∀ tid task, s.target.tasks.find? tid = some task →
    applied (answeredRequests arch env s address watchAccess bytes) tid task.debug = task.debug

theorem recordOf_of_mem {d : Debugger} {entry : Tid × ThreadState} (hmem : entry ∈ d.threads.entries)
    (hstopped : entry.2.stopped = true) : d.recordOf entry.1 = some true := by
  rw [recordOf_eq_true_iff]
  exact ⟨entry.2, hmem, hstopped⟩

theorem recordOf_of_mem_requests {plan : WatchPlan D} {change : Tid × (D → D)}
    (hmem : change ∈ watchRequests plan s.target s.debugger.threads.entries) :
    s.debugger.recordOf change.1 = some true := by
  obtain ⟨entry, hentry, hchange⟩ := List.mem_flatMap.mp hmem
  split at hchange
  · rename_i hstopped
    have hkey : change.1 = entry.1 := by
      unfold threadRequests at hchange
      rcases List.mem_cons.mp hchange with rfl | hwrite
      · rfl
      · split at hwrite
        · obtain ⟨write, -, rfl⟩ := List.mem_map.mp hwrite
          rfl
        · cases hwrite
    rw [hkey]
    exact recordOf_of_mem hentry hstopped
  · cases hchange

/-- The threads after a failure: what was carried out has been carried out. -/
theorem programThreads_carried (hspared : s.Spared env) {halt : Halt}
    (hrun : programThreads arch env s address watchAccess bytes s = .error halt t) :
    (∃ exception, halt = .thrown exception) ∧
      Carried s (answeredRequests arch env s address watchAccess bytes) t := by
  cases hplan : arch.configureWatchpoint s.debugger.nextSlot address watchAccess bytes with
  | error text =>
      rw [answeredRequests, hplan]
      by_cases hsome : ∃ entry ∈ s.debugger.threads.entries, entry.2.stopped = true
      · obtain ⟨tid, rest, hfirst⟩ := forM_onStopped_some (s := s) (fun tid =>
          configureWatchpoint arch env tid s.debugger.nextSlot address watchAccess bytes) hsome
        have hthrows := configureWatchpoint_of_rejects env tid hplan
        rw [programThreads, hfirst, hthrows] at hrun
        obtain ⟨rfl, rfl⟩ := EStateM.Result.error.inj hrun
        exact ⟨⟨_, rfl⟩, .refl s⟩
      · rw [programThreads, forM_onStopped_none _ hsome] at hrun
        cases hrun
  | ok plan =>
      have hperforms := performs_loop [] hspared hplan
        s.debugger.threads.nodup_keys (fun _ hmem => recordOf_of_mem hmem) (fun _ _ _ hmem => by
          cases hmem)
      obtain ⟨hthrown, -, hcarried⟩ := hperforms.of_error ⟨.refl s, rfl⟩ hrun
      rw [answeredRequests, hplan]
      exact ⟨hthrown, hcarried⟩

/-- It fails if the plan is rejected, or one of the requests is refused. -/
theorem watchFails_iff (hspared : s.Spared env) :
    WatchFails arch env s address watchAccess bytes ↔ ¬ 4 ≤ s.debugger.nextSlot ∧
      match arch.configureWatchpoint s.debugger.nextSlot address watchAccess bytes with
      | .error _ => ∃ tid, s.debugger.recordOf tid = some true
      | .ok plan =>
          granted (s.grants env) 0 (watchRequests plan s.target s.debugger.threads.entries)
            ≠ watchRequests plan s.target s.debugger.threads.entries := by
  refine and_congr_right fun _ => ?_
  cases hplan : arch.configureWatchpoint s.debugger.nextSlot address watchAccess bytes with
  | error text =>
      rw [← anyStopped_iff]
      constructor
      · rintro ⟨halt, t, hrun⟩
        by_contra hnone
        rw [programThreads, forM_onStopped_none _ hnone] at hrun
        cases hrun
      · intro hsome
        obtain ⟨tid, rest, hfirst⟩ := forM_onStopped_some (s := s) (fun tid =>
          configureWatchpoint arch env tid s.debugger.nextSlot address watchAccess bytes) hsome
        have hthrows := configureWatchpoint_of_rejects env tid hplan
        rw [programThreads, hfirst, hthrows]
        exact ⟨_, _, rfl⟩
  | ok plan =>
      have hperforms := performs_loop [] hspared hplan
        s.debugger.threads.nodup_keys (fun _ hmem => recordOf_of_mem hmem) (fun _ _ _ hmem => by
          cases hmem)
      constructor
      · rintro ⟨halt, t, hrun⟩
        exact (hperforms.of_error ⟨.refl s, rfl⟩ hrun).2.1
      · intro hrefused
        cases hrun : programThreads arch env s address watchAccess bytes s with
        | ok a t => exact absurd (hperforms.of_ok ⟨.refl s, rfl⟩ hrun).2.1 hrefused
        | error halt t => exact ⟨halt, t, rfl⟩

/-- A `watch` that fails leaves everything as it was exactly if the requests that were carried out
until one was refused wrote what was there. -/
theorem failed_watch_iff {arguments : List Text}
    (hrequest : watchRequest arguments = some (address, watchAccess, bytes))
    (hspared : s.Spared env) (hfails : WatchFails arch env s address watchAccess bytes) :
    ∃ t, setWatchpoint arch env arguments s = .ok ⟨⟩ t ∧
      (Untouched s t ↔ WritesNothingNew arch env s address watchAccess bytes) := by
  obtain ⟨hfree, halt, t, hrun⟩ := hfails
  obtain ⟨⟨exception, rfl⟩, hcarried⟩ := programThreads_carried hspared hrun
  refine ⟨t.logged (.out (.watchpointFailed exception)), ?_, ?_⟩
  · rw [setWatchpoint_of_some hrequest, addWatchpoint_of_free hfree, attempt, rescue]
    have hbody := bind_error (f := fun _ =>
      recordWatchpoint (s.debugger.newWatchpoint address watchAccess bytes)) hrun
    rw [programThreads] at hbody
    rw [hbody]
    rfl
  constructor
  · intro huntouched tid task htask
    by_cases hstopped : s.debugger.recordOf tid = some true ∧ (s.target.stopped? tid).isSome = true
    · obtain ⟨hrecord, hsome⟩ := hstopped
      obtain ⟨task₀, htask₀⟩ := Option.isSome_iff_exists.mp hsome
      have hafter := hcarried.stopped tid hrecord
      obtain rfl : task₀ = task :=
        Option.some.inj ((Target.stopped?_eq_some_iff.mp htask₀).1.symm.trans htask)
      rw [htask₀, Option.map_some, Target.stopped?_eq_some_iff] at hafter
      exact huntouched.debug tid _ _ htask hafter.1
    · refine applied_of_notMem (fun change hmem heq => hstopped ?_) _
      subst heq
      unfold answeredRequests at hmem
      split at hmem
      · obtain ⟨hasked, n, hgrants⟩ := of_mem_granted hmem
        rw [State.grants, Bool.and_eq_true] at hgrants
        exact ⟨recordOf_of_mem_requests hasked, hgrants.2⟩
      · cases hmem
  · intro hnothing
    refine ⟨fun tid task task' htask htask' => ?_, congrArg Debugger.watchpoints hcarried.debugger,
      congrArg Debugger.nextWatchpointId hcarried.debugger⟩
    have hthere := SortedMap.contains_eq_true_iff.mpr ⟨task, htask⟩
    obtain ⟨task₀, htask₀, hdebug⟩ := hcarried.debug tid task' hthere htask'
    obtain rfl : task₀ = task := Option.some.inj (htask₀.symm.trans htask)
    exact hdebug.trans (hnothing tid _ htask)

theorem watchRequests_head (plan : WatchPlan D) (target : Target R D)
    (entries : List (Tid × ThreadState)) {change : Tid × (D → D)}
    (hhead : (watchRequests plan target entries).head? = some change) : change.2 = id := by
  induction entries with
  | nil => cases hhead
  | cons entry rest ih =>
      rw [watchRequests, List.flatMap_cons] at hhead
      split at hhead
      · obtain rfl := Option.some.inj hhead
        rfl
      · exact ih hhead

/-- The first request reads. -/
theorem writesNothingNew_of_first
    (hfirst : (answeredRequests arch env s address watchAccess bytes).length ≤ 1) :
    WritesNothingNew arch env s address watchAccess bytes := by
  intro tid task _
  cases hanswered : answeredRequests arch env s address watchAccess bytes with
  | nil => rfl
  | cons change rest =>
      rw [hanswered, List.length_cons] at hfirst
      have hrest : rest = [] := List.eq_nil_of_length_eq_zero (by omega)
      subst hrest
      have hread : change.2 = id := by
        unfold answeredRequests at hanswered
        split at hanswered
        · rename_i plan _
          refine watchRequests_head plan s.target s.debugger.threads.entries ?_
          cases hrequests : watchRequests plan s.target s.debugger.threads.entries with
          | nil =>
              rw [hrequests] at hanswered
              cases hanswered
          | cons first later =>
              rw [hrequests, granted] at hanswered
              split at hanswered
              · rw [(List.cons.inj hanswered).1]
                rfl
              · cases hanswered
        · cases hanswered
      rw [applied, List.foldl_cons, List.foldl_nil, hread]
      exact ite_self _

end Failing

/-- The program of `nops` at rest, where one system call is refused. -/
def refusing (n : Nat) : Environment UserRegs X86_64.DebugRegisters :=
  Machine.environment
    { program := nops, schedule := fun _ => [], fails := fun tick => tick = n } x86_64

theorem spared_refusing (n : Nat) (s : State UserRegs X86_64.DebugRegisters) :
    s.Spared (refusing n) :=
  ⟨fun _ _ _ _ => rfl, fun _ _ _ task' _ htask' => ⟨task', htask', rfl⟩⟩

def failsAt (n : Nat) (s : State UserRegs X86_64.DebugRegisters) : Bool :=
  !decide (4 ≤ s.debugger.nextSlot) &&
    match programThreads x86_64 (refusing n) s 0x2000 .write 8 s with
    | .ok _ _ => false
    | .error _ _ => true

theorem watchFails_of_failsAt {n : Nat} {s : State UserRegs X86_64.DebugRegisters}
    (hfails : failsAt n s = true) : WatchFails x86_64 (refusing n) s 0x2000 .write 8 := by
  rw [failsAt, Bool.and_eq_true, Bool.not_eq_true', decide_eq_false_iff_not] at hfails
  refine ⟨hfails.1, ?_⟩
  cases hrun : programThreads x86_64 (refusing n) s 0x2000 .write 8 s with
  | ok a t =>
      rw [hrun] at hfails
      cases hfails.2
  | error halt t => exact ⟨halt, t, rfl⟩

theorem watchRequest_0x2000 :
    watchRequest ["watch".toList, "0x2000".toList] = some (0x2000, .write, 8) := by
  decide

/-- The first of the two writes is refused. -/
theorem failed_watch_untouched :
    ∃ s t, Prompt x86_64 (refusing 7) (State.initial 1 (nopTarget 1)) s ∧
      WatchFails x86_64 (refusing 7) s 0x2000 .write 8 ∧
      setWatchpoint x86_64 (refusing 7) ["watch".toList, "0x2000".toList] s = .ok ⟨⟩ t ∧
      Untouched s t := by
  obtain ⟨s, hs, hcheck⟩ := Prompt.exists_of_runBatch x86_64 (refusing 7)
    (State.initial 1 (nopTarget 1)) []
    (p := fun s => failsAt 7 s &&
      decide ((answeredRequests x86_64 (refusing 7) s 0x2000 .write 8).length ≤ 1))
    (by decide +kernel)
  rw [Bool.and_eq_true, decide_eq_true_eq] at hcheck
  have hfails := watchFails_of_failsAt hcheck.1
  obtain ⟨t, hrun, huntouched⟩ :=
    failed_watch_iff watchRequest_0x2000 (spared_refusing 7 s) hfails
  exact ⟨s, t, hs, hfails, hrun, huntouched.mpr (writesNothingNew_of_first hcheck.2)⟩

/-- The second write is refused: the address is left in the first debug register. -/
theorem failed_watch_leaves_address :
    ∃ s t, Prompt x86_64 (refusing 8) (State.initial 1 (nopTarget 1)) s ∧
      WatchFails x86_64 (refusing 8) s 0x2000 .write 8 ∧
      setWatchpoint x86_64 (refusing 8) ["watch".toList, "0x2000".toList] s = .ok ⟨⟩ t ∧
      (s.target.tasks.find? 1).map (fun task => task.debug 0) = some 0 ∧
      (t.target.tasks.find? 1).map (fun task => task.debug 0) = some 0x2000 ∧ ¬ Untouched s t := by
  obtain ⟨s, hs, hcheck⟩ := Prompt.exists_of_runBatch x86_64 (refusing 8)
    (State.initial 1 (nopTarget 1)) []
    (p := fun s => failsAt 8 s &&
      match setWatchpoint x86_64 (refusing 8) ["watch".toList, "0x2000".toList] s with
      | .ok _ t => decide ((s.target.tasks.find? 1).map (fun task => task.debug 0) = some 0) &&
          decide ((t.target.tasks.find? 1).map (fun task => task.debug 0) = some 0x2000)
      | .error _ _ => false)
    (by decide +kernel)
  rw [Bool.and_eq_true] at hcheck
  have hfails := watchFails_of_failsAt hcheck.1
  obtain ⟨t, hrun, hbefore, hafter⟩ : ∃ t,
      setWatchpoint x86_64 (refusing 8) ["watch".toList, "0x2000".toList] s = .ok ⟨⟩ t ∧
      (s.target.tasks.find? 1).map (fun task => task.debug 0) = some 0 ∧
      (t.target.tasks.find? 1).map (fun task => task.debug 0) = some 0x2000 := by
    have hafter := hcheck.2
    split at hafter
    · rename_i t hrun
      rw [Bool.and_eq_true, decide_eq_true_eq, decide_eq_true_eq] at hafter
      exact ⟨t, hrun, hafter⟩
    · cases hafter
  refine ⟨s, t, hs, hfails, hrun, hbefore, hafter, fun huntouched => ?_⟩
  obtain ⟨task, htask, hzero⟩ := Option.map_eq_some_iff.mp hbefore
  obtain ⟨task', htask', haddress⟩ := Option.map_eq_some_iff.mp hafter
  have hsame := congrFun (huntouched.debug 1 task task' htask htask') 0
  rw [hzero, haddress] at hsame
  exact absurd hsame (by decide)

end Cosy
