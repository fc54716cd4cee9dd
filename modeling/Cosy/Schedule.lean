import Cosy.Machine
import Cosy.Reliable

/-!
# Machines as environments

What holds of every machine, whatever its schedule: a program that does not write its text leaves it
alone but for replacing the address space, and a stopped thread stays as it is.
-/

namespace Cosy

open ByteMemory

variable {R D : Type} {arch : Architecture R D} {program : Program R} {T : Set Address}

/-- The program writes no byte of `T`. -/
def Program.LeavesText (program : Program R) (T : Set Address) : Prop :=
  ∀ regs memory, Set.EqOn (program.step regs memory).2 memory T

/-! ### The text -/

/-- What a stretch of execution with these events does to the bytes of `T`. -/
structure TextKept (T : Set Address) (target : Target R D)
    (outcome : List TargetEvent × Target R D) : Prop where
  calm : (∀ tid, TargetEvent.exec tid ∉ outcome.1) →
    Set.EqOn outcome.2.memory target.memory T ∧ Set.EqOn outcome.2.image target.image T
  exec : ∀ tid, TargetEvent.exec tid ∈ outcome.1 → Set.EqOn outcome.2.memory outcome.2.image T

theorem TextKept.of_eq {target : Target R D} {outcome : List TargetEvent × Target R D}
    (hmemory : Set.EqOn outcome.2.memory target.memory T)
    (himage : Set.EqOn outcome.2.image target.image T)
    (hexec : ∀ tid, TargetEvent.exec tid ∉ outcome.1) : TextKept T target outcome :=
  ⟨fun _ => ⟨hmemory, himage⟩, fun tid hmem => absurd hmem (hexec tid)⟩

theorem TextKept.append {target moved final : Target R D} {events later : List TargetEvent}
    (hfirst : TextKept T target (events, moved)) (hlater : TextKept T moved (later, final)) :
    TextKept T target (later ++ events, final) := by
  refine ⟨fun hno => ?_, fun tid hmem => ?_⟩
  · have hmoved := hfirst.calm fun tid hmem => hno tid (List.mem_append_right _ hmem)
    have hfinal := hlater.calm fun tid hmem => hno tid (List.mem_append_left _ hmem)
    exact ⟨hfinal.1.trans hmoved.1, hfinal.2.trans hmoved.2⟩
  · by_cases hexec : ∃ tid, TargetEvent.exec tid ∈ later
    · obtain ⟨tid, hmem⟩ := hexec
      exact hlater.exec tid hmem
    · have hcalm := hlater.calm fun tid hmem => hexec ⟨tid, hmem⟩
      have hevents : TargetEvent.exec tid ∈ events :=
        (List.mem_append.mp hmem).resolve_left fun hmem => hexec ⟨tid, hmem⟩
      exact (hcalm.1.trans (hfirst.exec tid hevents)).trans hcalm.2.symm

theorem imageAfter_eqOn {before after image : Memory} (hkept : Set.EqOn after before T) :
    Set.EqOn (imageAfter before after image) image T := fun _ hx => if_pos (hkept hx)

theorem runTask_text (hprogram : program.LeavesText T) (target : Target R D) (tid : Tid)
    (task : Task R D) : TextKept T target (runTask arch program target tid task) := by
  unfold runTask
  dsimp only
  split
  · exact .of_eq (fun _ _ => rfl) (fun _ _ => rfl) (by simp)
  · have hwrites := hprogram task.regs target.memory
    refine .of_eq ?_ ?_ (by simp)
    · intro x hx
      dsimp only
      split <;> exact hwrites hx
    · intro x hx
      dsimp only
      split <;> exact imageAfter_eqOn hwrites hx

theorem perform_text (hprogram : program.LeavesText T) (target : Target R D)
    (action : Action R D) : TextKept T target (perform arch program target action) := by
  have hquiet : ∀ events : List TargetEvent, (∀ tid, TargetEvent.exec tid ∉ events) →
      ∀ target' : Target R D, target'.memory = target.memory → target'.image = target.image →
        TextKept T target (events, target') := fun events hno target' hmemory himage =>
    .of_eq (fun x _ => congrFun hmemory x) (fun x _ => congrFun himage x) hno
  cases action with
  | run tid =>
      rw [perform]
      split
      · exact runTask_text hprogram target tid _
      · exact hquiet _ (by simp) _ rfl rfl
  | exec tid memory =>
      rw [perform]
      split
      · refine ⟨fun hno => absurd List.mem_cons_self (hno tid), fun _ _ _ _ => rfl⟩
      · exact hquiet _ (by simp) _ rfl rfl
  | clone tid newTid debug =>
      rw [perform]
      split
      · refine hquiet _ (by simp) _ ?_ ?_ <;> unfold cloneTask <;> dsimp only <;> split <;> rfl
      · exact hquiet _ (by simp) _ rfl rfl
  | map maps => exact hquiet _ (by simp) _ rfl rfl
  | _ =>
      rw [perform]
      split <;> exact hquiet _ (by simp) _ rfl rfl

theorem performAll_text (hprogram : program.LeavesText T) (actions : List (Action R D)) :
    ∀ target : Target R D, TextKept T target (performAll arch program target actions) := by
  induction actions with
  | nil => exact fun _ => .of_eq (fun _ _ => rfl) (fun _ _ => rfl) (by simp [performAll])
  | cons action rest ih =>
      exact fun target => (perform_text hprogram target action).append (ih _)

theorem Machine.leavesText {machine : Machine R D} (hprogram : machine.program.LeavesText T) :
    (machine.environment arch).LeavesText T where
  calm _ target hno := (performAll_text hprogram _ target).calm hno
  exec _ target tid hmem := (performAll_text hprogram _ target).exec tid hmem

theorem nops_leavesText (T : Set Address) : nops.LeavesText T := fun _ _ _ _ => rfl

/-- Whether an action replaces the address space. -/
def Action.isExec : Action R D → Bool
  | .exec _ _ => true
  | _ => false

theorem perform_noExec (target : Target R D) {action : Action R D} (haction : action.isExec = false)
    (tid : Tid) : TargetEvent.exec tid ∉ (perform arch program target action).1 := by
  cases action with
  | run _ =>
      rw [perform]
      split
      · unfold runTask
        dsimp only
        split <;> simp
      · simp
  | exec _ _ => cases haction
  | map _ => simp [perform]
  | _ =>
      rw [perform]
      split <;> simp

theorem performAll_noExec {actions : List (Action R D)}
    (hactions : ∀ action ∈ actions, action.isExec = false) (tid : Tid) :
    ∀ target : Target R D,
      TargetEvent.exec tid ∉ (performAll arch program target actions).1 := by
  induction actions with
  | nil => exact fun _ => List.not_mem_nil
  | cons action rest ih =>
      intro target hmem
      rcases List.mem_append.mp hmem with hmem | hmem
      · exact ih (fun other hother => hactions other (List.mem_cons_of_mem _ hother)) _ hmem
      · exact perform_noExec target (hactions action List.mem_cons_self) tid hmem

/-- Without an exec, a machine whose program writes nothing leaves all memory alone. -/
theorem Machine.writesNothing {machine : Machine R D}
    (hprogram : machine.program.LeavesText Set.univ)
    (hschedule : ∀ tick, ∀ action ∈ machine.schedule tick, action.isExec = false) (tick : Nat)
    (target : Target R D) :
    ((machine.environment arch).interfere tick target).2.memory = target.memory :=
  funext fun x => ((performAll_text hprogram _ target).calm fun tid =>
    performAll_noExec (hschedule tick) tid target).1 (Set.mem_univ x)

/-! ### Stopped threads -/

theorem stopsKept_insert {target target' : Target R D} {tid : Tid} {task task' : Task R D}
    (hrunning : target.running tid = some task)
    (htasks : target'.tasks = target.tasks.insert tid task') : StopsKept target target' := by
  intro other stopped hother hstopped
  obtain ⟨hfind, hnot⟩ := Option.filter_eq_some_iff.mp hrunning
  have hne : other ≠ tid := by
    rintro rfl
    rw [hfind] at hother
    obtain rfl := Option.some.inj hother
    simp [hstopped] at hnot
  rw [htasks, SortedMap.find?_insert_of_ne _ _ hne]
  exact hother

theorem stopsKept_erase {target target' : Target R D} {tid : Tid} {task : Task R D}
    (hrunning : target.running tid = some task)
    (htasks : target'.tasks = target.tasks.erase tid) : StopsKept target target' := by
  intro other stopped hother hstopped
  obtain ⟨hfind, hnot⟩ := Option.filter_eq_some_iff.mp hrunning
  have hne : other ≠ tid := by
    rintro rfl
    rw [hfind] at hother
    obtain rfl := Option.some.inj hother
    simp [hstopped] at hnot
  rw [htasks, SortedMap.find?_erase, if_neg hne]
  exact hother

theorem runTask_stops {target : Target R D} {tid : Tid} {task : Task R D}
    (hrunning : target.running tid = some task) :
    StopsKept target (runTask arch program target tid task).2 := by
  unfold runTask
  dsimp only
  split
  · exact stopsKept_insert hrunning rfl
  · dsimp only
    split
    · exact stopsKept_insert hrunning rfl
    · exact stopsKept_insert hrunning rfl

theorem cloneTask_stops {target : Target R D} {tid newTid : Tid} {task : Task R D} {debug : D}
    (hrunning : target.running tid = some task) :
    StopsKept target (cloneTask target tid newTid task debug) := by
  unfold cloneTask
  dsimp only
  split
  · exact fun _ _ hother _ => hother
  · rename_i hnew
    intro other stopped hother hstopped
    have hne : other ≠ newTid := by
      rintro rfl
      exact hnew (SortedMap.contains_eq_true_iff.mpr ⟨stopped, hother⟩)
    rw [Target.halt, SortedMap.find?_insert_of_ne _ _ hne]
    exact stopsKept_insert hrunning rfl other stopped hother hstopped

theorem perform_stops (target : Target R D) (action : Action R D) :
    StopsKept target (perform arch program target action).2 := by
  have hrefl : StopsKept target target := fun _ _ hother _ => hother
  cases action with
  | run tid =>
      rw [perform]
      split
      · exact runTask_stops ‹_›
      · exact hrefl
  | clone tid newTid debug =>
      rw [perform]
      split
      · exact cloneTask_stops ‹_›
      · exact hrefl
  | map maps => exact hrefl
  | exit tid code | kill tid signal =>
      rw [perform]
      split
      · exact stopsKept_erase ‹_› rfl
      · exact hrefl
  | _ =>
      rw [perform]
      split
      · exact stopsKept_insert ‹_› rfl
      · exact hrefl

theorem performAll_stops (actions : List (Action R D)) :
    ∀ target : Target R D, StopsKept target (performAll arch program target actions).2 := by
  induction actions with
  | nil => exact fun _ _ _ hother _ => hother
  | cons action rest ih =>
      exact fun target tid task hfind hstopped =>
        ih _ tid task (perform_stops target action tid task hfind hstopped) hstopped

/-- A machine whose requests do not fail is a reliable environment. -/
theorem Machine.reliable {machine : Machine R D} (hfails : ∀ tick, machine.fails tick = false) :
    (machine.environment arch).Reliable where
  steady _ target := performAll_stops _ target
  answers := hfails

/-- What a thread that is not running does not do: it makes no event. -/
theorem perform_ready {target : Target R D} {tid : Tid} {task : Task R D}
    (hfind : target.tasks.find? tid = some task) (hstopped : task.stopped = true)
    (hready : ∀ event ∈ target.ready, event.1 ≠ tid) (action : Action R D) :
    ∀ event ∈ (perform arch program target action).2.ready, event.1 ≠ tid := by
  have hother : ∀ {thread task'}, target.running thread = some task' → thread ≠ tid := by
    rintro thread task' hrunning rfl
    obtain ⟨hfind', hnot⟩ := Option.filter_eq_some_iff.mp hrunning
    rw [hfind] at hfind'
    obtain rfl := Option.some.inj hfind'
    simp [hstopped] at hnot
  have happend : ∀ {thread : Tid} {status : WaitStatus}, thread ≠ tid →
      ∀ event ∈ target.ready ++ [(thread, status)], event.1 ≠ tid := by
    intro thread status hne event hmem
    rcases List.mem_append.mp hmem with hmem | hmem
    · exact hready event hmem
    · rw [List.mem_singleton.mp hmem]
      exact hne
  cases action with
  | map maps => exact hready
  | run thread =>
      rw [perform]
      split
      · unfold runTask
        dsimp only
        split
        · exact happend (hother ‹_›)
        · dsimp only
          split
          · exact happend (hother ‹_›)
          · exact hready
      · exact hready
  | clone thread newTid debug =>
      rw [perform]
      split
      · unfold cloneTask
        dsimp only
        split
        · exact hready
        · rename_i hnew
          have hne : newTid ≠ tid := by
            rintro rfl
            exact hnew (SortedMap.contains_eq_true_iff.mpr ⟨task, hfind⟩)
          intro event hmem
          rcases List.mem_append.mp hmem with hmem | hmem
          · exact happend (hother ‹_›) event hmem
          · rw [List.mem_singleton.mp hmem]
            exact hne
      · exact hready
  | _ =>
      rw [perform]
      split
      · exact happend (hother ‹_›)
      · exact hready

theorem performAll_ready {tid : Tid} {task : Task R D} (hstopped : task.stopped = true)
    (actions : List (Action R D)) :
    ∀ target : Target R D, target.tasks.find? tid = some task →
      (∀ event ∈ target.ready, event.1 ≠ tid) →
        ∀ event ∈ (performAll arch program target actions).2.ready, event.1 ≠ tid := by
  induction actions with
  | nil => exact fun _ _ hready => hready
  | cons action rest ih =>
      exact fun target hfind hready => ih _ (perform_stops target action tid task hfind hstopped)
        (perform_ready hfind hstopped hready action)

end Cosy
