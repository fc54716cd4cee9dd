import Cosy.Announcements
import Cosy.DebugSlots

/-!
# Programming the debug registers

A request to a thread that is stopped succeeds, and leaves the thread stopped. So once the first
request of a plan has succeeded the others do too, and the debug registers of the thread are known
afterwards. That the records have different slots is what lets one plan after another be carried out
in a thread without undoing what was done before.
-/

namespace Cosy

open Effect

variable {R D : Type} {arch : Architecture R D} {env : Environment R D} {s t : State R D}
  {tid : Tid}

/-! ### The free slot -/

theorem freeSlotFrom_spec (occupied : List Nat) (fuel slot : Nat) :
    freeSlotFrom occupied fuel slot ∉ occupied ∨ ∀ i < fuel, slot + i ∈ occupied := by
  induction fuel generalizing slot with
  | zero => exact Or.inr fun i hi => absurd hi (Nat.not_lt_zero i)
  | succ fuel ih =>
      rw [freeSlotFrom]
      by_cases hslot : occupied.contains slot = true
      · rw [if_pos hslot]
        refine (ih (slot + 1)).imp_right fun hall i hi => ?_
        cases i with
        | zero => simpa using hslot
        | succ i =>
            have hnext := hall i (by omega)
            rwa [Nat.add_assoc, Nat.add_comm 1 i] at hnext
      · rw [if_neg hslot]
        exact Or.inl (by simpa using hslot)

/-- No record has the slot that is chosen for the next one. -/
theorem freeSlot_notMem (occupied : List Nat) : freeSlot occupied ∉ occupied := by
  rcases freeSlotFrom_spec occupied (occupied.length + 1) 0 with hfree | hfull
  · exact hfree
  · have hsubset : List.range (occupied.length + 1) ⊆ occupied := by
      intro i hi
      have hmem := hfull i (List.mem_range.mp hi)
      rwa [Nat.zero_add] at hmem
    have hle := (List.nodup_range.subperm hsubset).length_le
    rw [List.length_range] at hle
    omega

/-! ### What the records ask for -/

/-- The architecture has a plan for the watchpoint. -/
def Architecture.Accepts (arch : Architecture R D) (watchpoint : Watchpoint) : Prop :=
  ∃ plan, arch.configureWatchpoint watchpoint.slot watchpoint.address watchpoint.access
    watchpoint.bytes = .ok plan

/-- The slot of the record is armed with its address, for its accesses, over its bytes. -/
def DebugView.Watches (view : DebugView arch) (debug : D) (watchpoint : Watchpoint) : Prop :=
  view.content debug watchpoint.slot
    = view.requested watchpoint.address watchpoint.access watchpoint.bytes

section Records

variable (view : DebugView arch)

/-- Slots that no record of the list has are left alone. -/
theorem content_watchedDebug_of_notMem (records : List Watchpoint) {slot : Nat}
    (hslot : slot ∉ records.map Watchpoint.slot) (debug : D) :
    view.content (watchedDebug arch records debug) slot = view.content debug slot := by
  induction records generalizing debug with
  | nil => rfl
  | cons watchpoint rest ih =>
      rw [List.map_cons, List.mem_cons, not_or] at hslot
      rw [watchedDebug]
      split
      · rfl
      · rename_i plan hplan
        rw [ih hslot.2, view.configured hplan, if_neg hslot.1]

/-- A thread that was given all the records watches for all of them. -/
theorem watches_watchedDebug {records : List Watchpoint}
    (hslots : (records.map Watchpoint.slot).Nodup)
    (haccepted : ∀ watchpoint ∈ records, arch.Accepts watchpoint) (debug : D) :
    ∀ watchpoint ∈ records, view.Watches (watchedDebug arch records debug) watchpoint := by
  induction records generalizing debug with
  | nil => exact fun watchpoint hmem => absurd hmem List.not_mem_nil
  | cons first rest ih =>
      rw [List.map_cons, List.nodup_cons] at hslots
      obtain ⟨plan, hplan⟩ := haccepted first List.mem_cons_self
      rw [watchedDebug, hplan]
      dsimp only
      intro watchpoint hmem
      rcases List.mem_cons.mp hmem with rfl | hrest
      · rw [DebugView.Watches, content_watchedDebug_of_notMem view rest hslots.1,
          view.configured hplan, if_pos rfl]
      · exact ih hslots.2 (fun w hw => haccepted w (List.mem_cons_of_mem _ hw)) _ watchpoint hrest

end Records

/-! ### Carrying out a plan -/

namespace Environment.Reliable

variable (hreliable : env.Reliable)

include hreliable

theorem writeDebug {task : Task R D} (writes : List (String × (D → D)))
    (htask : s.target.tasks.find? tid = some task) (hstopped : task.stopped = true) :
    ∃ t, (writes.forM fun write => Cosy.ptrace env write.1 tid fun task target =>
        (PUnit.unit, target.setTask tid { task with debug := write.2 task.debug })) s = .ok ⟨⟩ t ∧
      t.target.tasks.find? tid = some { task with debug := applyWrites writes task.debug } := by
  induction writes generalizing s task with
  | nil => exact ⟨s, rfl, htask⟩
  | cons write rest ih =>
      let written : State R D := (env.enter s).withTarget
        ((env.enter s).target.setTask tid { task with debug := write.2 task.debug })
      have hwritten : written.target.tasks.find? tid
          = some { task with debug := write.2 task.debug } := SortedMap.find?_insert_self _ _ _
      obtain ⟨t, hrun, ht⟩ := ih hwritten hstopped
      exact ⟨t, (bind_ok (hreliable.ptrace htask hstopped)).trans hrun, ht⟩

theorem configureWatchpoint {task : Task R D} {slot : Nat} {address : Address}
    {watchAccess : WatchAccess} {bytes : Nat} {plan : WatchPlan D}
    (hplan : arch.configureWatchpoint slot address watchAccess bytes = .ok plan)
    (htask : s.target.tasks.find? tid = some task) (hstopped : task.stopped = true) :
    ∃ t, Cosy.configureWatchpoint arch env tid slot address watchAccess bytes s = .ok ⟨⟩ t ∧
      t.target.tasks.find? tid
        = some { task with debug := applyWrites (plan.writes task.debug) task.debug } := by
  have hread : Cosy.ptrace env plan.readOperation tid (fun task target => (task.debug, target)) s
      = .ok task.debug (env.enter s) := hreliable.ptrace htask hstopped
  have henter : (env.enter s).target.tasks.find? tid = some task :=
    hreliable.steady _ _ tid task htask hstopped
  obtain ⟨t, hrun, ht⟩ := hreliable.writeDebug (plan.writes task.debug) henter hstopped
  refine ⟨t, ?_, ht⟩
  rw [Cosy.configureWatchpoint, hplan]
  exact (bind_ok hread).trans hrun

theorem configureAll (records : List Watchpoint)
    (haccepted : ∀ watchpoint ∈ records, arch.Accepts watchpoint) {task : Task R D}
    (htask : s.target.tasks.find? tid = some task) (hstopped : task.stopped = true) :
    ∃ t, (records.forM fun watchpoint => Cosy.configureWatchpoint arch env tid watchpoint.slot
        watchpoint.address watchpoint.access watchpoint.bytes) s = .ok ⟨⟩ t ∧
      t.target.tasks.find? tid
        = some { task with debug := watchedDebug arch records task.debug } := by
  induction records generalizing s task with
  | nil => exact ⟨s, rfl, htask⟩
  | cons first rest ih =>
      obtain ⟨plan, hplan⟩ := haccepted first List.mem_cons_self
      obtain ⟨t, hfirst, ht⟩ := hreliable.configureWatchpoint hplan htask hstopped
      obtain ⟨u, hrest, hu⟩ := ih (fun w hw => haccepted w (List.mem_cons_of_mem _ hw)) ht hstopped
      refine ⟨u, (bind_ok hfirst).trans hrest, ?_⟩
      rw [hu, watchedDebug, hplan]

/-- A thread that is prepared gets all the records, if the architecture accepts them. -/
theorem prepareThread (haccepted : ∀ watchpoint ∈ s.debugger.watchpoints, arch.Accepts watchpoint)
    {task : Task R D} (htask : s.target.tasks.find? tid = some task)
    (hstopped : task.stopped = true) :
    ∃ t task', Cosy.prepareThread arch env tid s = .ok ⟨⟩ t ∧
      t.target.tasks.find? tid = some task' ∧
      task'.debug = watchedDebug arch s.debugger.watchpoints task.debug := by
  let t : State R D := (env.enter s).withTarget
    ((env.enter s).target.setTask tid { task with options := true })
  have hoptions : setOptions env tid s = .ok ⟨⟩ t := hreliable.ptrace htask hstopped
  obtain ⟨u, hrun, hu⟩ := hreliable.configureAll (s := t) s.debugger.watchpoints haccepted
    (SortedMap.find?_insert_self _ _ _) hstopped
  refine ⟨u, _, ?_, hu, rfl⟩
  have hconfigure : configureThreadWatchpoints arch env tid t = .ok ⟨⟩ u := hrun
  simp only [Cosy.prepareThread, attempt, Effect.rescue, bind_ok hoptions, hconfigure]

end Environment.Reliable

/-! ### A slot that stays armed -/

section Armed

variable (view : DebugView arch) (slot : Nat) (address : Address) (watchAccess : WatchAccess)
  (bytes : Nat)

/-- A stopped thread has the slot armed. -/
def DebugView.Armed (tid : Tid) (s : State R D) : Prop :=
  ∃ task, s.target.tasks.find? tid = some task ∧ task.stopped = true ∧
    view.content task.debug slot = view.requested address watchAccess bytes

variable {view slot address watchAccess bytes}

theorem DebugView.Armed.enter (hreliable : env.Reliable)
    (hs : view.Armed slot address watchAccess bytes tid s) :
    view.Armed slot address watchAccess bytes tid (env.enter s) := by
  obtain ⟨task, htask, hstopped, hcontent⟩ := hs
  exact ⟨task, hreliable.steady _ _ tid task htask hstopped, hstopped, hcontent⟩

theorem armed_of_configured (view : DebugView arch) (hreliable : env.Reliable)
    (hrun : configureWatchpoint arch env tid slot address watchAccess bytes s = .ok ⟨⟩ t) :
    view.Armed slot address watchAccess bytes tid t := by
  cases hplan : arch.configureWatchpoint slot address watchAccess bytes with
  | error text =>
      rw [configureWatchpoint, hplan] at hrun
      cases hrun
  | ok plan =>
      have hbody := hrun
      rw [configureWatchpoint, hplan] at hbody
      rcases ptrace_cases env plan.readOperation tid (fun task target => (task.debug, target)) s with
        ⟨task, htask, hstopped, -, hread⟩ | ⟨-, hread⟩
      · have hwrite := (bind_ok hread).symm.trans hbody
        obtain ⟨u, hrest, hu⟩ := hreliable.writeDebug (s := env.enter s) (plan.writes task.debug)
          htask hstopped
        obtain rfl : u = t := (EStateM.Result.ok.inj (hrest.symm.trans hwrite)).2
        refine ⟨_, hu, hstopped, ?_⟩
        rw [view.configured hplan, if_pos rfl]
      · cases (bind_error hread).symm.trans hbody

/-- The same request to any thread leaves the slot armed. -/
theorem armed_configureWatchpoint (view : DebugView arch) (hreliable : env.Reliable)
    (other : Tid) :
    Within (Keeps (view.Armed slot address watchAccess bytes tid))
      (configureWatchpoint arch env other slot address watchAccess bytes) := by
  by_cases hother : other = tid
  · subst hother
    rintro s ⟨task, htask, hstopped, hcontent⟩
    cases hplan : arch.configureWatchpoint slot address watchAccess bytes with
    | error text =>
        rw [configureWatchpoint, hplan]
        exact ⟨task, htask, hstopped, hcontent⟩
    | ok plan =>
        obtain ⟨t, hrun, ht⟩ := hreliable.configureWatchpoint hplan htask hstopped
        rw [endState_of_ok hrun]
        exact armed_of_configured view hreliable hrun
  · have hwrite : ∀ {operation : String} {change : Task R D → Task R D},
        Within (Keeps (view.Armed slot address watchAccess bytes tid))
          (ptrace env operation other fun task target =>
            (PUnit.unit, target.setTask other (change task))) := by
      intro operation change s hs
      rcases ptrace_cases env operation other
          (fun task target => (PUnit.unit, target.setTask other (change task))) s with
        ⟨task, -, -, -, hrun⟩ | ⟨-, hrun⟩
      · rw [endState_of_ok hrun]
        obtain ⟨task', htask', hrest⟩ := hs.enter hreliable
        exact ⟨task', (SortedMap.find?_insert_of_ne _ _ (Ne.symm hother)).trans htask', hrest⟩
      · rw [endState_of_error hrun]
        exact hs.enter hreliable
    unfold configureWatchpoint
    cases arch.configureWatchpoint slot address watchAccess bytes with
    | error text => exact .throw _
    | ok plan =>
        refine Within.bind (fun s hs => ?_) fun debug => Within.forM _ fun write _ => hwrite
        rcases ptrace_cases env plan.readOperation other (fun task target => (task.debug, target)) s
          with ⟨task, -, -, -, hrun⟩ | ⟨-, hrun⟩
        · rw [endState_of_ok hrun]
          exact hs.enter hreliable
        · rw [endState_of_error hrun]
          exact hs.enter hreliable

end Armed

end Cosy
