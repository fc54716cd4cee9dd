import Cosy.Announcements
import Cosy.DebugSlots

/-!
# Debug registers that outlive the debugger

`detach` lifts the traps and lets the threads go. It does not clear a single watchpoint, so each
thread leaves with the debug registers it had when `quit` was given: whether the freed program can
still be stopped by a watchpoint was settled before.
-/

namespace Cosy

open ByteMemory Effect

variable {R D α : Type} {arch : Architecture R D} {env : Environment R D} {s t : State R D}
  {tid : Tid}

/-! ### The threads that are let go -/

/-- `releaseThreads` lets a thread go, which is this task then. -/
inductive LetGo (env : Environment R D) (tid : Tid) (task : Task R D) :
    List (Tid × ThreadState) → State R D → Prop
  | here {state : ThreadState} {rest : List (Tid × ThreadState)} {s : State R D}
      (hrecorded : state.stopped = true) (htask : (env.enter s).target.tasks.find? tid = some task)
      (hstopped : task.stopped = true) (hanswers : env.fails s.tick = false) :
      LetGo env tid task ((tid, state) :: rest) s
  | later {other : Tid} {state : ThreadState} {rest : List (Tid × ThreadState)} {s t : State R D}
      (hrun : doIf state.stopped (releaseThread env other) s = .ok ⟨⟩ t)
      (hrest : LetGo env tid task rest t) : LetGo env tid task ((other, state) :: rest) s

/-- `detach` lets a thread go by `PTRACE_DETACH`. -/
def Released (env : Environment R D) (s : State R D) (tid : Tid) (task : Task R D) : Prop :=
  ¬ (s.debugger.detached = true ∨ s.debugger.child ≤ 0) ∧
    ∃ t, disableAll env s.debugger.breakpoints.entries s = .ok ⟨⟩ t ∧
      LetGo env tid task s.debugger.threads.entries t

/-- The state in which `PTRACE_DETACH` leaves the session. -/
def State.lettingGo (s : State R D) (tid : Tid) : State R D :=
  (s.withTarget { s.target with tasks := s.target.tasks.erase tid }).logged
    (.released tid s.target.memory s.target.image)

/-- One thread of the table is let go, or is passed over; `releaseThread` does not throw. -/
theorem releaseThread_cases (env : Environment R D) (state : ThreadState) (tid : Tid)
    (s : State R D) :
    ∃ t, doIf state.stopped (releaseThread env tid) s = .ok ⟨⟩ t ∧
      (state.stopped = false ∧ t = s ∨
        state.stopped = true ∧ t = env.enter s ∧
          (∀ task, (env.enter s).target.tasks.find? tid = some task → task.stopped = true →
            env.fails s.tick = true) ∨
        state.stopped = true ∧ t = (env.enter s).lettingGo tid ∧
          ∃ task, (env.enter s).target.tasks.find? tid = some task ∧ task.stopped = true ∧
            env.fails s.tick = false) := by
  cases hrecorded : state.stopped with
  | false => exact ⟨s, rfl, Or.inl ⟨rfl, rfl⟩⟩
  | true =>
      rw [doIf, if_pos rfl]
      rcases ptrace_cases env "PTRACE_DETACH" tid
          (fun _ target => (PUnit.unit, { target with tasks := target.tasks.erase tid })) s with
        ⟨task, htask, hstopped, hanswers, hrun⟩ | ⟨hnone, hrun⟩
      · refine ⟨(env.enter s).lettingGo tid, ?_, Or.inr (Or.inr ⟨rfl, rfl, task, htask, hstopped,
          hanswers⟩)⟩
        simp only [releaseThread, attempt, Effect.rescue, bind_ok hrun]
        rfl
      · refine ⟨env.enter s, ?_, Or.inr (Or.inl ⟨rfl, rfl, hnone⟩)⟩
        simp only [releaseThread, attempt, Effect.rescue, bind_error hrun]
        rfl

/-- Letting other threads go does not touch a thread that is stopped. -/
theorem find?_of_releaseThread (hsteady : env.Steady) {state : ThreadState} {other : Tid}
    {task : Task R D} (hrun : doIf state.stopped (releaseThread env other) s = .ok ⟨⟩ t)
    (hother : tid ≠ other) (htask : s.target.tasks.find? tid = some task)
    (hstopped : task.stopped = true) : t.target.tasks.find? tid = some task := by
  have henter : (env.enter s).target.tasks.find? tid = some task :=
    hsteady _ _ tid task htask hstopped
  obtain ⟨t', hrun', hcases⟩ := releaseThread_cases env state other s
  obtain rfl : t' = t := (EStateM.Result.ok.inj (hrun'.symm.trans hrun)).2
  rcases hcases with ⟨-, rfl⟩ | ⟨-, rfl, -⟩ | ⟨-, rfl, -⟩
  · exact htask
  · exact henter
  · calc ((env.enter s).lettingGo other).target.tasks.find? tid
        = (env.enter s).target.tasks.find? tid := by
          rw [State.lettingGo]
          exact (SortedMap.find?_erase _ _ _).trans (if_neg hother)
      _ = some task := henter

/-- Every thread of the table that is recorded as stopped, and is, is let go. -/
theorem letGo_of_stopped (hreliable : env.Reliable) {state : ThreadState} {task : Task R D}
    (hrecorded : state.stopped = true) (hstopped : task.stopped = true)
    {entries : List (Tid × ThreadState)} (hnodup : (entries.map Prod.fst).Nodup)
    (hmem : (tid, state) ∈ entries) (htask : s.target.tasks.find? tid = some task) :
    LetGo env tid task entries s := by
  induction entries generalizing s with
  | nil => exact absurd hmem List.not_mem_nil
  | cons entry rest ih =>
      obtain ⟨other, state'⟩ := entry
      rw [List.map_cons, List.nodup_cons] at hnodup
      rcases List.mem_cons.mp hmem with heq | hrest
      · cases heq
        exact .here hrecorded (hreliable.steady _ _ tid task htask hstopped) hstopped
          (hreliable.answers s.tick)
      · have hother : tid ≠ other := by
          rintro rfl
          exact hnodup.1 (List.mem_map.mpr ⟨_, hrest, rfl⟩)
        obtain ⟨t, hrun, -⟩ := releaseThread_cases env state' other s
        exact .later hrun (ih hnodup.2 hrest
          (find?_of_releaseThread hreliable.steady hrun hother htask hstopped))

theorem LetGo.recorded {task : Task R D} {entries : List (Tid × ThreadState)}
    (hgo : LetGo env tid task entries s) :
    ∃ state, (tid, state) ∈ entries ∧ state.stopped = true := by
  induction hgo with
  | here hrecorded => exact ⟨_, List.mem_cons_self, hrecorded⟩
  | later _ _ ih =>
      obtain ⟨state, hmem, hstopped⟩ := ih
      exact ⟨state, List.mem_cons_of_mem _ hmem, hstopped⟩

def Entry.releases (tid : Tid) : Entry → Bool
  | .released other _ _ => other = tid
  | _ => false

theorem enter_releases (s : State R D) (tid : Tid) :
    ((env.interfere s.tick s.target).1.map Entry.target).any (Entry.releases tid) = false := by
  simp [Entry.releases]

theorem releaseThreads_logged (tid : Tid) (entries : List (Tid × ThreadState)) (s : State R D) :
    ∃ newer, (endState (releaseThreads env entries) s).log = newer ++ s.log ∧
      (newer.any (Entry.releases tid) = true ↔ ∃ task, LetGo env tid task entries s) := by
  induction entries generalizing s with
  | nil =>
      refine ⟨[], rfl, ?_⟩
      constructor
      · intro hany
        cases hany
      · rintro ⟨task, hgo⟩
        cases hgo
  | cons entry rest ih =>
      obtain ⟨other, state⟩ := entry
      obtain ⟨t, hrun, hcases⟩ := releaseThread_cases env state other s
      obtain ⟨newest, hnewest, hgone⟩ := ih t
      have hstate : endState (releaseThreads env ((other, state) :: rest)) s
          = endState (releaseThreads env rest) t := endState_bind_ok hrun
      -- A thread is let go by the rest of the loop, or by this round.
      have hsplit : (∃ task, LetGo env tid task ((other, state) :: rest) s) ↔
          (∃ task, LetGo env tid task rest t) ∨ tid = other ∧ state.stopped = true ∧
            ∃ task, (env.enter s).target.tasks.find? tid = some task ∧ task.stopped = true ∧
              env.fails s.tick = false := by
        constructor
        · rintro ⟨task, hgo⟩
          cases hgo with
          | here hrecorded htask hstopped hanswers =>
              exact Or.inr ⟨rfl, hrecorded, task, htask, hstopped, hanswers⟩
          | later hrun' hrest =>
              obtain rfl := (EStateM.Result.ok.inj (hrun'.symm.trans hrun)).2
              exact Or.inl ⟨task, hrest⟩
        · rintro (⟨task, hgo⟩ | ⟨rfl, hrecorded, task, htask, hstopped, hanswers⟩)
          · exact ⟨task, .later hrun hgo⟩
          · exact ⟨task, .here hrecorded htask hstopped hanswers⟩
      rw [hstate, hsplit, ← hgone]
      rcases hcases with ⟨hflag, rfl⟩ | ⟨-, rfl, hnone⟩ | ⟨hflag, rfl, task, htask, hstopped, hanswers⟩
      · refine ⟨newest, hnewest, ?_⟩
        simp [hflag]
      · refine ⟨newest ++ (env.interfere s.tick s.target).1.map Entry.target, ?_, ?_⟩
        · rw [hnewest, enter_log, List.append_assoc]
        · rw [List.any_append, enter_releases, Bool.or_false]
          refine ⟨Or.inl, fun h => h.resolve_right ?_⟩
          rintro ⟨rfl, -, task, htask, hstopped, hanswers⟩
          rw [hnone task htask hstopped] at hanswers
          cases hanswers
      · let released : Entry := .released other (env.enter s).target.memory (env.enter s).target.image
        have hlog : ((env.enter s).lettingGo other).log
            = (released :: (env.interfere s.tick s.target).1.map Entry.target) ++ s.log := rfl
        refine ⟨newest ++ released :: (env.interfere s.tick s.target).1.map Entry.target, ?_, ?_⟩
        · rw [hnewest, hlog, List.append_assoc]
        · rw [List.any_append, List.any_cons, enter_releases, Bool.or_false, Bool.or_eq_true]
          have hreleased : released.releases tid = true ↔ tid = other := by
            simp [released, Entry.releases, eq_comm]
          rw [hreleased]
          refine or_congr_right ⟨?_, fun h => h.1⟩
          rintro rfl
          exact ⟨rfl, hflag, task, htask, hstopped, hanswers⟩

/-! ### Lifting the traps never waits -/

/-- A function may throw, but it does not wait for an event that never comes. -/
def NeverBlocks (m : Dbg R D α) : Prop := ∀ s t, m s ≠ .error .blocked t

section NeverBlocks

variable {β : Type}

theorem NeverBlocks.pure (a : α) : NeverBlocks (pure a : Dbg R D α) := by
  intro s t hrun
  cases hrun

theorem NeverBlocks.bind {m : Dbg R D α} {f : α → Dbg R D β} (hm : NeverBlocks m)
    (hf : ∀ a, NeverBlocks (f a)) : NeverBlocks (m >>= f) := by
  intro s t hrun
  rw [bind_apply] at hrun
  cases hout : m s with
  | ok a u =>
      rw [hout] at hrun
      exact hf a u t hrun
  | error halt u =>
      rw [hout] at hrun
      obtain ⟨rfl, rfl⟩ := EStateM.Result.error.inj hrun
      exact hm s u hout

theorem NeverBlocks.get_bind {f : State R D → Dbg R D β} (hf : ∀ s, NeverBlocks (f s)) :
    NeverBlocks (get >>= f) := fun s t hrun => hf s s t hrun

theorem NeverBlocks.modify (change : State R D → State R D) :
    NeverBlocks (modify change : Dbg R D PUnit) := by
  intro s t hrun
  cases hrun

theorem NeverBlocks.ptrace (operation : String) (tid : Tid)
    (request : Task R D → Target R D → α × Target R D) :
    NeverBlocks (ptrace env operation tid request) := by
  intro s t hrun
  rcases ptrace_cases env operation tid request s with ⟨task, -, -, -, hok⟩ | ⟨-, herror⟩
  · rw [hok] at hrun
    cases hrun
  · rw [herror] at hrun
    cases hrun

theorem NeverBlocks.forM {γ : Type} {f : γ → Dbg R D PUnit} (xs : List γ)
    (hf : ∀ x, NeverBlocks (f x)) : NeverBlocks (xs.forM f) := by
  induction xs with
  | nil => exact .pure _
  | cons x xs ih => exact (hf x).bind fun _ => ih

theorem neverBlocks_readWord (address : Address) : NeverBlocks (readWord env address) :=
  .get_bind fun _ => .ptrace _ _ _

theorem neverBlocks_gatherWords (bytes : List Byte) :
    ∀ words address, NeverBlocks (gatherWords env words address bytes) := by
  induction bytes with
  | nil => exact fun _ _ => .pure _
  | cons byte rest ih =>
      refine fun words address => NeverBlocks.bind ?_ fun words => ih _ _
      unfold coverWord
      split
      · exact .pure _
      · exact (neverBlocks_readWord _).bind fun _ => .pure _

theorem neverBlocks_disable (key : Address) : NeverBlocks (disable env key) := by
  refine .get_bind fun s => ?_
  cases s.debugger.breakpoints.find? key with
  | none => exact .pure _
  | some r =>
      dsimp only
      split
      · exact .pure _
      · refine NeverBlocks.bind ?_ fun _ => .get_bind fun _ => ?_
        · exact (neverBlocks_gatherWords _ _ _).bind fun words =>
            .forM _ fun _ => .get_bind fun _ => .ptrace _ _ _
        · exact (NeverBlocks.modify _).bind fun _ => (NeverBlocks.modify _).bind fun _ => .modify _

theorem disableAll_returns (env : Environment R D) (entries : List (Address × Breakpoint))
    (s : State R D) : ∃ t, disableAll env entries s = .ok ⟨⟩ t := by
  induction entries generalizing s with
  | nil => exact ⟨s, rfl⟩
  | cons entry rest ih =>
      have hone : ∃ t, (attempt (disable env entry.1) fun _ => pure ⟨⟩) s = .ok ⟨⟩ t := by
        unfold attempt Effect.rescue
        cases hrun : disable env entry.1 s with
        | ok a t => exact ⟨t, rfl⟩
        | error halt t =>
            cases halt with
            | thrown exception => exact ⟨t, rfl⟩
            | blocked => exact absurd hrun (neverBlocks_disable _ s t)
      obtain ⟨t, hrun⟩ := hone
      obtain ⟨u, hrest⟩ := ih t
      exact ⟨u, (bind_ok hrun).trans hrest⟩

end NeverBlocks

/-- What `detach` logs tells which threads are let go. -/
theorem detach_logged (hformed : WellFormed arch s.debugger.breakpoints) (tid : Tid) :
    (s.entriesSince (endState (detach env) s)).any (Entry.releases tid) = true ↔
      ∃ task, Released env s tid task := by
  by_cases hclosed : s.debugger.detached = true ∨ s.debugger.child ≤ 0
  · have hstate : endState (detach env) s = s := by
      rw [endState, detach, get_bind_apply, if_pos hclosed]
      rfl
    rw [hstate, entriesSince_of_append (List.nil_append s.log).symm]
    constructor
    · intro hany
      cases hany
    · rintro ⟨task, hopen, -⟩
      exact absurd hclosed hopen
  · obtain ⟨t, hrun⟩ := disableAll_returns env s.debugger.breakpoints.entries s
    obtain ⟨newest, hnewest, hgone⟩ := @releaseThreads_logged _ _ env tid
      s.debugger.threads.entries t
    have hlog : (endState (detach env) s).log
        = (endState (releaseThreads env s.debugger.threads.entries) t).log := by
      rw [endState, detach, get_bind_apply, if_neg hclosed, bind_ok hrun]
      unfold endState
      rw [bind_apply]
      cases releaseThreads env s.debugger.threads.entries t <;> rfl
    have hsilent : Appends (fun entry => entry.releases tid = false) s t := by
      obtain ⟨hmoves, -⟩ := does_disableAll (Environment.leavesText_empty env)
        s.debugger.breakpoints.entries s hformed
      rw [endState_of_ok hrun] at hmoves
      refine hmoves.relate (Q := Appends fun entry => entry.releases tid = false)
        fun kind hkind u v hmove => ?_
      cases hmove with
      | enter => exact appends_enter (fun _ => rfl) u
      | force => exact ⟨[_, _], rfl, by simp [Entry.releases]⟩
      | liftWild => exact .of_eq rfl
      | _ => exact absurd hkind (by decide)
    obtain ⟨newer, hnewer, hnone⟩ := hsilent
    have hquiet : newer.any (Entry.releases tid) = false := by simpa using hnone
    have happend : (endState (detach env) s).log = (newest ++ newer) ++ s.log := by
      rw [hlog, hnewest, hnewer, List.append_assoc]
    rw [entriesSince_of_append happend, List.any_append, hquiet, Bool.or_false, hgone]
    constructor
    · rintro ⟨task, hgo⟩
      exact ⟨task, hclosed, t, hrun, hgo⟩
    · rintro ⟨task, -, u, hrun', hgo⟩
      obtain rfl := (EStateM.Result.ok.inj (hrun'.symm.trans hrun)).2
      exact ⟨task, hgo⟩

/-! ### Slots -/

section Slots

variable (view : DebugView arch)

/-- The slot of the thread is enabled. -/
def DebugView.ArmedIn (target : Target R D) (tid : Tid) (slot : Nat) : Prop :=
  ∃ task, target.tasks.find? tid = some task ∧ (view.content task.debug slot).enabled = true

/-- No slot is enabled but by a request of the debugger. -/
def DebugView.NeverArms (env : Environment R D) : Prop :=
  ∀ tick target tid slot, view.ArmedIn (env.interfere tick target).2 tid slot →
    view.ArmedIn target tid slot

/-- No further slot has been enabled. -/
def DebugView.Disarming (s t : State R D) : Prop :=
  ∀ tid slot, view.ArmedIn t.target tid slot → view.ArmedIn s.target tid slot

instance : IsPreorder (State R D) view.Disarming where
  refl _ _ _ harmed := harmed
  trans _ _ _ hst htu tid slot harmed := hst tid slot (htu tid slot harmed)

variable {view}

theorem DebugView.NeverArms.enter (hnever : view.NeverArms env) (s : State R D) :
    view.Disarming s (env.enter s) := fun tid slot harmed => hnever _ _ tid slot harmed

theorem DebugView.NeverArms.disableAll (hnever : view.NeverArms env)
    (hformed : WellFormed arch s.debugger.breakpoints) (entries : List (Address × Breakpoint)) :
    WithinAt view.Disarming (disableAll env entries) s := by
  obtain ⟨hmoves, -⟩ := does_disableAll (Environment.leavesText_empty env) entries s hformed
  refine hmoves.relate (Q := view.Disarming) fun kind hkind u v hmove => ?_
  cases hmove with
  | enter => exact hnever.enter u
  | force | liftWild => exact refl_of view.Disarming u
  | _ => exact absurd hkind (by decide)

theorem DebugView.NeverArms.releaseThread (hnever : view.NeverArms env) {state : ThreadState}
    {other : Tid} (hrun : doIf state.stopped (releaseThread env other) s = .ok ⟨⟩ t) :
    view.Disarming s t := by
  obtain ⟨t', hrun', hcases⟩ := releaseThread_cases env state other s
  obtain rfl : t' = t := (EStateM.Result.ok.inj (hrun'.symm.trans hrun)).2
  rcases hcases with ⟨-, rfl⟩ | ⟨-, rfl, -⟩ | ⟨-, rfl, -⟩
  · exact refl_of view.Disarming t'
  · exact hnever.enter s
  · rintro tid slot ⟨task, htask, henabled⟩
    have hfound : ((env.enter s).target.tasks.erase other).find? tid = some task := htask
    rw [SortedMap.find?_erase] at hfound
    split at hfound
    · cases hfound
    · exact hnever.enter s tid slot ⟨task, hfound, henabled⟩

/-- A slot enabled in a thread that is let go was so before. -/
theorem LetGo.armed (hnever : view.NeverArms env) {task : Task R D}
    {entries : List (Tid × ThreadState)} (hgo : LetGo env tid task entries s) {slot : Nat}
    (henabled : (view.content task.debug slot).enabled = true) : view.ArmedIn s.target tid slot := by
  induction hgo with
  | here _ htask => exact hnever.enter _ tid slot ⟨task, htask, henabled⟩
  | later hrun _ ih => exact hnever.releaseThread hrun tid slot ih

variable (view)

/-- None of these slots is enabled in a thread that is recorded as stopped. -/
def DebugView.Disarmed (slots : Tid → Set Nat) (s : State R D) : Prop :=
  ∀ tid, s.debugger.recordOf tid = some true → ∀ slot ∈ slots tid, ¬ view.ArmedIn s.target tid slot

/-- Whatever thread `detach` lets go, none of these slots is enabled in it then. -/
def DebugView.DisarmedByDetach (env : Environment R D) (slots : Tid → Set Nat) (s : State R D) : Prop :=
  ∀ tid task, Released env s tid task → ∀ slot ∈ slots tid,
    (view.content task.debug slot).enabled = false

/-- Every thread that is recorded as stopped is in a ptrace stop. -/
def State.RecordsStops (s : State R D) : Prop :=
  ∀ tid, s.debugger.recordOf tid = some true → s.StoppedThread tid

variable {view} {slots : Tid → Set Nat}

theorem disarmedByDetach_of_disarmed (hnever : view.NeverArms env)
    (hformed : WellFormed arch s.debugger.breakpoints) (hs : view.Disarmed slots s) :
    view.DisarmedByDetach env slots s := by
  rintro tid task ⟨-, t, hrun, hgo⟩ slot hslot
  refine Bool.eq_false_iff.mpr fun henabled => ?_
  have hrecorded : s.debugger.recordOf tid = some true :=
    (recordOf_eq_true_iff s.debugger tid).mpr hgo.recorded
  have hlifted : view.Disarming s t := by
    have hwithin := hnever.disableAll hformed s.debugger.breakpoints.entries
    rwa [WithinAt, endState_of_ok hrun] at hwithin
  exact hs tid hrecorded slot hslot (hlifted tid slot (hgo.armed hnever henabled))

theorem stopsKept_of_lifting (hsteady : env.Steady)
    (hmoves : Moves arch env ∅ [.enter, .force] s t) : StopsKept s.target t.target := by
  refine hmoves.preserve (I := fun u => StopsKept s.target u.target) ?_ fun _ _ htask _ => htask
  intro kind hkind u v hmove hu
  cases hmove with
  | enter => exact fun tid task htask hstopped =>
      hsteady _ _ tid task (hu tid task htask hstopped) hstopped
  | force | liftWild => exact hu
  | _ => exact absurd hkind (by decide)

theorem released_of_stopped (hreliable : env.Reliable)
    (hformed : WellFormed arch s.debugger.breakpoints)
    (hopen : ¬ (s.debugger.detached = true ∨ s.debugger.child ≤ 0))
    (hrecorded : s.debugger.recordOf tid = some true) {task : Task R D}
    (htask : s.target.tasks.find? tid = some task) (hstopped : task.stopped = true) :
    Released env s tid task := by
  obtain ⟨t, hrun⟩ := disableAll_returns env s.debugger.breakpoints.entries s
  obtain ⟨state, hmem, hflag⟩ := (recordOf_eq_true_iff s.debugger tid).mp hrecorded
  have hmoves := (does_disableAll (Environment.leavesText_empty env) s.debugger.breakpoints.entries s
    hformed).1
  rw [endState_of_ok hrun] at hmoves
  have hkept := stopsKept_of_lifting hreliable.steady hmoves
  exact ⟨hopen, t, hrun, letGo_of_stopped hreliable hflag hstopped
    s.debugger.threads.nodup_keys hmem (hkept tid task htask hstopped)⟩

theorem disarmed_of_disarmedByDetach (hreliable : env.Reliable)
    (hformed : WellFormed arch s.debugger.breakpoints)
    (hopen : ¬ (s.debugger.detached = true ∨ s.debugger.child ≤ 0)) (hstops : s.RecordsStops)
    (hs : view.DisarmedByDetach env slots s) : view.Disarmed slots s := by
  rintro tid hrecorded slot hslot ⟨task, htask, henabled⟩
  obtain ⟨task', htask', hstopped⟩ := hstops tid hrecorded
  obtain rfl : task = task' := Option.some.inj (htask.symm.trans htask')
  have hreleased := released_of_stopped hreliable hformed hopen hrecorded htask hstopped
  rw [hs tid task hreleased slot hslot] at henabled
  cases henabled

end Slots

/-! ### Quitting -/

/-- No slot is left enabled in a thread that is let go if none was when the debugger began to
detach; and if the records are right about which threads are stopped, only then. -/
theorem Quitting.detach_disarms (view : DebugView arch) (hnever : view.NeverArms env) {child : Tid}
    {target : Target R D} (hchild : 0 < child)
    (hs : Quitting arch env (State.initial child target) s) (slots : Tid → Set Nat) :
    (view.Disarmed slots s → view.DisarmedByDetach env slots s) ∧
      (env.Reliable → s.RecordsStops → view.DisarmedByDetach env slots s →
        view.Disarmed slots s) := by
  have hmoves := hs.moves (Environment.leavesText_empty env)
  have hformed : WellFormed arch s.debugger.breakpoints := hmoves.wellFormed wellFormed_empty
  have hopen : ¬ (s.debugger.detached = true ∨ s.debugger.child ≤ 0) := by
    rw [hmoves.sameSession.detached, hmoves.sameSession.child]
    rintro (hdetached | hnone)
    · cases hdetached
    · exact absurd hchild (Int.not_lt.mpr hnone)
  exact ⟨disarmedByDetach_of_disarmed hnever hformed, fun hreliable hstops =>
    disarmed_of_disarmedByDetach hreliable hformed hopen hstops⟩

theorem neverArms_still (view : DebugView x86_64) : view.NeverArms (nopMachine fun _ => []) :=
  fun _ _ _ _ harmed => harmed

theorem Quitting.detach_disarms_nops :
    ∃ s, Quitting x86_64 (nopMachine fun _ => []) (State.initial 1 (nopTarget 1)) s ∧
      s.debugger.breakpoints.contains 0x1003 = true ∧
      x86_64View.DisarmedByDetach (nopMachine fun _ => []) (fun _ => Set.univ) s := by
  obtain ⟨s, hs, hcheck⟩ := Prompt.exists_of_runBatch x86_64 (nopMachine fun _ => [])
    (State.initial 1 (nopTarget 1)) ["b *0x1003".toList]
    (p := fun s => s.debugger.breakpoints.contains 0x1003 &&
      s.target.tasks.entries.all fun entry => entry.2.debug 7 = 0) (by decide +kernel)
  rw [Bool.and_eq_true] at hcheck
  refine ⟨s, .prompt hs, hcheck.1, (Quitting.detach_disarms x86_64View
    (neverArms_still x86_64View) (by decide) (.prompt hs) fun _ => Set.univ).1 ?_⟩
  rintro tid - slot - ⟨task, htask, henabled⟩
  have hzero := List.all_eq_true.mp hcheck.2 (tid, task) (SortedMap.mem_entries_iff.mpr htask)
  have hcontrol : task.debug 7 = 0 := by simpa using hzero
  change (X86_64.slotContent task.debug slot).enabled = true at henabled
  rw [X86_64.slotContent] at henabled
  split at henabled
  · simp [X86_64.slotOf, hcontrol] at henabled
  · cases henabled

/-- After `watch` and `quit` the program runs on with its debug registers set. -/
theorem armed_after_quit :
    ∃ s task, Quitting x86_64 (nopMachine fun _ => []) (State.initial 1 (nopTarget 1)) s ∧
      s.debugger.watchpoints.map Watchpoint.slot = [0] ∧
      Released (nopMachine fun _ => []) s 1 task ∧
      x86_64View.content task.debug 0 = x86_64View.requested 0x2000 .write 8 ∧
      ¬ x86_64View.DisarmedByDetach (nopMachine fun _ => []) (fun _ => {0}) s := by
  obtain ⟨s, hs, hcheck⟩ := Prompt.exists_of_runBatch x86_64 (nopMachine fun _ => [])
    (State.initial 1 (nopTarget 1)) ["watch 0x2000".toList]
    (p := fun s =>
      decide (s.debugger.watchpoints.map Watchpoint.slot = [0]) &&
        decide (s.debugger.recordOf 1 = some true) &&
        (s.target.tasks.find? 1).any fun task => task.stopped &&
          decide (X86_64.slotContent task.debug 0 = X86_64.requestedSlot 0x2000 .write 8))
    (by decide +kernel)
  simp only [Bool.and_eq_true, decide_eq_true_eq, Option.any_eq_true] at hcheck
  obtain ⟨⟨hslots, hrecorded⟩, task, htask, hstopped, hcontent⟩ := hcheck
  have hmoves := (Quitting.prompt hs).moves (Environment.leavesText_empty _)
  have hopen : ¬ (s.debugger.detached = true ∨ s.debugger.child ≤ 0) := by
    rw [hmoves.sameSession.detached, hmoves.sameSession.child]
    decide
  have hreleased : Released (nopMachine fun _ => []) s 1 task :=
    released_of_stopped (Machine.reliable fun _ => rfl) hs.wellFormed hopen hrecorded htask hstopped
  refine ⟨s, task, .prompt hs, hslots, hreleased, hcontent, fun hdisarmed => ?_⟩
  have hcleared := hdisarmed 1 task hreleased 0 rfl
  rw [show x86_64View.content task.debug 0 = _ from hcontent] at hcleared
  cases hcleared

end Cosy
