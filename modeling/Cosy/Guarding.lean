import Cosy.Coverage
import Cosy.Rearming
import Cosy.Resolving
import Cosy.SoleThread
import Cosy.Upholding

/-!
# No breakpoint is run past

A trap lies in memory that all threads share, and to step one of them over it the debugger takes it
out. If no other thread runs meanwhile, and the trap is put back, no thread gets past a breakpoint that
the user has enabled but the one that is being stepped over it.
-/

namespace Cosy

open ByteMemory Effect

variable {R D α : Type} {arch : Architecture R D} {env : Environment R D} {T : Set Address}

/-! ### Traps stop threads -/

/-- A trap at this address lies in `T`. -/
def Architecture.TrapWithin (arch : Architecture R D) (T : Set Address) (address : Address) : Prop :=
  address.toNat % arch.breakpointSize = 0 ∧ ∀ x, arch.trapBase x = address → x ∈ T

def Target.isRunning (target : Target R D) (tid : Tid) : Bool := (target.running tid).isSome

theorem Target.isRunning_iff {target : Target R D} {tid : Tid} :
    target.isRunning tid = true ↔ ∃ task, target.tasks.find? tid = some task ∧ task.stopped = false := by
  simp [Target.isRunning, Target.running, Option.any_eq_true]

/-- What a stretch of execution with these events has to do with the traps. -/
structure Heeded (arch : Architecture R D) (T : Set Address) (target : Target R D)
    (outcome : List TargetEvent × Target R D) : Prop where
  running : ∀ tid, outcome.2.isRunning tid = true → target.isRunning tid = true
  executed : ∀ tid address, TargetEvent.executed tid address ∈ outcome.1 →
    target.isRunning tid = true
  trap : ∀ tid address, TargetEvent.executed tid address ∈ outcome.1 →
    (∀ other, TargetEvent.exec other ∉ outcome.1) → arch.TrapWithin T address →
    arch.trapAt target.memory address = false

/-- Only a thread that runs executes an instruction, it does not get past a trap, and no thread begins
to run by itself. -/
structure Environment.HeedsTraps (env : Environment R D) (arch : Architecture R D)
    (T : Set Address) : Prop extends env.LeavesText T where
  steady : env.Steady
  heeded : ∀ tick target, Heeded arch T target (env.interfere tick target)

section Machine

variable {program : Program R} {target target' : Target R D} {tid : Tid} {task task' : Task R D}

theorem isRunning_of_insert (hrunning : target.running tid = some task)
    (htasks : target'.tasks = target.tasks.insert tid task') (other : Tid)
    (hother : target'.isRunning other = true) : target.isRunning other = true := by
  by_cases heq : other = tid
  · rw [heq, Target.isRunning, hrunning, Option.isSome_some]
  · rwa [Target.isRunning, Target.running, htasks, SortedMap.find?_insert_of_ne _ _ heq] at hother

theorem isRunning_of_erase (htasks : target'.tasks = target.tasks.erase tid) (other : Tid)
    (hother : target'.isRunning other = true) : target.isRunning other = true := by
  rw [Target.isRunning, Target.running, htasks, SortedMap.find?_erase] at hother
  split at hother
  · cases hother
  · exact hother

theorem isRunning_of_halt (htasks : target'.tasks = target.tasks.insert tid task')
    (hstopped : task'.stopped = true) (other : Tid) (hother : target'.isRunning other = true) :
    target.isRunning other = true := by
  by_cases heq : other = tid
  · simp [heq, Target.isRunning, Target.running, htasks, SortedMap.find?_insert_self, hstopped] at hother
  · rwa [Target.isRunning, Target.running, htasks, SortedMap.find?_insert_of_ne _ _ heq] at hother

theorem Heeded.of_quiet {events : List TargetEvent}
    (hevents : ∀ tid address, TargetEvent.executed tid address ∉ events)
    (hrunning : ∀ tid, target'.isRunning tid = true → target.isRunning tid = true) :
    Heeded arch T target (events, target') :=
  ⟨hrunning, fun tid address hmem => absurd hmem (hevents tid address),
    fun tid address hmem => absurd hmem (hevents tid address)⟩

theorem runTask_heeded (hrunning : target.running tid = some task) :
    Heeded arch T target (runTask arch program target tid task) := by
  unfold runTask
  dsimp only
  split
  · exact .of_quiet (by simp) (isRunning_of_halt rfl rfl)
  · rename_i htrap
    have hexecuted : ∀ other address,
        TargetEvent.executed other address ∈ [TargetEvent.executed tid (arch.pc task.regs)] →
          other = tid ∧ address = arch.pc task.regs := by simp
    refine ⟨fun other hother => ?_, fun other address hmem => ?_, fun other address hmem _ _ => ?_⟩
    · dsimp only at hother
      split at hother
      · exact isRunning_of_halt rfl rfl other hother
      · exact isRunning_of_insert hrunning rfl other hother
    · rw [(hexecuted other address hmem).1, Target.isRunning, hrunning, Option.isSome_some]
    · rw [(hexecuted other address hmem).2]
      exact Bool.eq_false_iff.mpr htrap

theorem perform_heeded (target : Target R D) (action : Action R D) :
    Heeded arch T target (perform arch program target action) := by
  cases action with
  | run tid =>
      rw [perform]
      split
      · exact runTask_heeded ‹_›
      · exact .of_quiet (by simp) fun _ hother => hother
  | clone tid newTid debug =>
      rw [perform]
      split
      · refine .of_quiet (by simp) fun other hother => ?_
        unfold cloneTask at hother
        dsimp only at hother
        split at hother
        · exact hother
        · exact isRunning_of_halt rfl rfl other (isRunning_of_halt rfl rfl other hother)
      · exact .of_quiet (by simp) fun _ hother => hother
  | map maps => exact .of_quiet (by simp) fun _ hother => hother
  | exit tid code | kill tid signal =>
      rw [perform]
      split
      · exact .of_quiet (by simp) (isRunning_of_erase rfl)
      · exact .of_quiet (by simp) fun _ hother => hother
  | stop tid signal event eventMsg siCode =>
      rw [perform]
      split
      · exact .of_quiet (by simp) (isRunning_of_halt rfl rfl)
      · exact .of_quiet (by simp) fun _ hother => hother
  | exec tid memory =>
      rw [perform]
      split
      · exact .of_quiet (by simp) (isRunning_of_halt rfl rfl)
      · exact .of_quiet (by simp) fun _ hother => hother

/-- Where the text stays as it is, so do the traps in it. -/
theorem trapAt_congr {memory memory' : Memory} {address : Address}
    (hwithin : arch.TrapWithin T address) (hmemory : Set.EqOn memory' memory T) :
    arch.trapAt memory' address = arch.trapAt memory address := by
  unfold Architecture.trapAt
  rw [bytesAt_congr fun i hi => hmemory (hwithin.2 _ (blockOf_add arch.breakpointSize_dvd hwithin.1 hi))]

theorem performAll_heeded (hprogram : program.LeavesText T) (actions : List (Action R D)) :
    ∀ target : Target R D, Heeded arch T target (performAll arch program target actions) := by
  induction actions with
  | nil => exact fun target => .of_quiet (by simp) fun _ hother => hother
  | cons action rest ih =>
      intro target
      have hfirst : Heeded arch T target (perform arch program target action) :=
        perform_heeded target action
      have hlater := ih (perform arch program target action).2
      refine ⟨fun tid htid => hfirst.running tid (hlater.running tid htid), fun tid address hmem => ?_,
        fun tid address hmem hexec hwithin => ?_⟩
      · rcases List.mem_append.mp hmem with hmem | hmem
        · exact hfirst.running tid (hlater.executed tid address hmem)
        · exact hfirst.executed tid address hmem
      · have hcalm := (perform_text hprogram target action).calm fun other hother =>
          hexec other (List.mem_append_right _ hother)
        rcases List.mem_append.mp hmem with hmem | hmem
        · rw [← trapAt_congr hwithin hcalm.1]
          exact hlater.trap tid address hmem
            (fun other hother => hexec other (List.mem_append_left _ hother)) hwithin
        · exact hfirst.trap tid address hmem
            (fun other hother => hexec other (List.mem_append_right _ hother)) hwithin

/-- A machine does so whose program does not write its text. -/
theorem Machine.heedsTraps {machine : Machine R D} (hprogram : machine.program.LeavesText T) :
    (machine.environment arch).HeedsTraps arch T where
  toLeavesText := Machine.leavesText hprogram
  steady _ target := performAll_stops _ target
  heeded _ target := performAll_heeded hprogram _ target

end Machine

/-! ### What the log tells -/

/-- A step-over of this thread has begun, and the target has moved at most since. -/
def beginsStepOver (tid : Tid) (address : Address) : List Entry → Bool
  | .target _ :: older => beginsStepOver tid address older
  | .stepOver stepped start _ :: _ => stepped = tid && start = address
  | _ => false

/-- The debugger has last resumed the thread to step it over the breakpoint at this address. -/
def isSteppedOver (tid : Tid) (address : Address) : List Entry → Bool
  | [] => false
  | .resumed resumed request _ :: older =>
      if resumed = tid then request = .singlestep && beginsStepOver tid address older
      else isSteppedOver tid address older
  | _ :: older => isSteppedOver tid address older

/-- Whoever executed the instruction at a breakpoint of the user was being stepped over it. -/
def NoneRunPast : List Entry → Prop
  | [] => True
  | .target (.executed tid address) :: older =>
      (userEnabled address older = true → isSteppedOver tid address older = true) ∧ NoneRunPast older
  | _ :: older => NoneRunPast older

/-- The part of a step-over that this entry tells of went well: it began while no other thread ran, it
came to a stop, and neither the step nor the trap's return failed. -/
def Entry.isUndisturbed : Entry → Bool
  | .stepOver _ _ alone => alone
  | .consumed .stepOver _ status _ => status.isStopped
  | .stepFailed _ | .reinsertFailed _ _ => false
  | _ => true

def Undisturbed (arch : Architecture R D) (T : Set Address) (log : List Entry) : Prop :=
  Orderly arch T log ∧ log.all Entry.isUndisturbed = true

section Log

variable {log newer : List Entry} {events : List TargetEvent}

theorem Undisturbed.of_suffix (hundisturbed : Undisturbed arch T newer) (hsuffix : log <:+ newer) :
    Undisturbed arch T log := by
  obtain ⟨new, rfl⟩ := hsuffix
  rw [Undisturbed, List.all_append, Bool.and_eq_true] at hundisturbed
  exact ⟨hundisturbed.1.of_append, hundisturbed.2.2⟩

theorem Undisturbed.of_enter {s : State R D} (hundisturbed : Undisturbed arch T (env.enter s).log) :
    Undisturbed arch T s.log := hundisturbed.of_suffix (List.suffix_append _ _)

theorem Undisturbed.head {entry : Entry} (hundisturbed : Undisturbed arch T (entry :: log)) :
    entry.isUndisturbed = true := by
  have hall := hundisturbed.2
  rw [List.all_cons, Bool.and_eq_true] at hall
  exact hall.1

@[simp]
theorem beginsStepOver_target (tid : Tid) (address : Address) :
    beginsStepOver tid address (events.map .target ++ log) = beginsStepOver tid address log := by
  induction events with
  | nil => rfl
  | cons event events ih => exact ih

@[simp]
theorem isSteppedOver_target (tid : Tid) (address : Address) :
    isSteppedOver tid address (events.map .target ++ log) = isSteppedOver tid address log := by
  induction events with
  | nil => rfl
  | cons event events ih => exact ih

@[simp]
theorem userEnabled_target (key : Address) :
    userEnabled key (events.map .target ++ log) = userEnabled key log := by
  induction events with
  | nil => rfl
  | cons event events ih => exact ih

theorem NoneRunPast.append (hlog : NoneRunPast log)
    (hevents : ∀ tid address, TargetEvent.executed tid address ∈ events →
      userEnabled address log = true → isSteppedOver tid address log = true) :
    NoneRunPast (events.map .target ++ log) := by
  induction events with
  | nil => exact hlog
  | cons event events ih =>
      have hrest : NoneRunPast (events.map .target ++ log) :=
        ih fun tid address hmem => hevents tid address (List.mem_cons_of_mem _ hmem)
      cases event with
      | executed tid address =>
          refine ⟨fun huser => (isSteppedOver_target tid address).trans ?_, hrest⟩
          exact hevents tid address List.mem_cons_self ((userEnabled_target address).symm.trans huser)
      | _ => exact hrest

/-- What the debugger itself writes to the log is no such execution. -/
theorem Entry.noneRunPast_cons {entry : Entry} (hentry : ∀ event, entry ≠ .target event) :
    NoneRunPast (entry :: log) ↔ NoneRunPast log := by
  cases entry with
  | target event => exact absurd rfl (hentry event)
  | _ => exact Iff.rfl

end Log

/-! ### Breakpoints in force -/

/-- The trap of the breakpoint at this address is in, and stays until the user takes it out. -/
def Debugger.InForce (d : Debugger) (key : Address) : Prop :=
  ∃ r, d.breakpoints.find? key = some r ∧ r.enabled = true ∧ r.temporary = false

/-- As long as every step-over has gone well, no breakpoint was run past, and the breakpoints of the
user are in force but for those at these addresses. -/
structure Guarded (arch : Architecture R D) (T lifted : Set Address) (s : State R D) : Prop where
  formed : WellFormed arch s.debugger.breakpoints
  sound : Sound arch T s
  runPast : Undisturbed arch T s.log → NoneRunPast s.log
  inForce : Undisturbed arch T s.log → ∀ key ∉ lifted, userEnabled key s.log = true →
    s.debugger.InForce key

section Guarded

variable {s t : State R D} {lifted : Set Address} {kind : Kind}

theorem Guarded.of_disturbed (hformed : WellFormed arch s.debugger.breakpoints) (hsound : Sound arch T s)
    (hdisturbed : ¬ Undisturbed arch T s.log) : Guarded arch T lifted s :=
  ⟨hformed, hsound, fun h => absurd h hdisturbed, fun h => absurd h hdisturbed⟩

/-- Only a step-over takes out the trap of a breakpoint that is in force. -/
theorem Move.inForce (hmove : Move arch env T kind s t) (hkind : kind ≠ .force) {key : Address}
    (hs : Cosy.userEnabled key s.log = true → s.debugger.InForce key)
    (huser : Cosy.userEnabled key t.log = true) : t.debugger.InForce key := by
  cases hmove with
  | enter =>
      rw [userEnabled_enter] at huser
      exact hs huser
  | say _ hentry | report _ hentry | stepping _ hentry =>
      rename_i entry
      cases entry <;> first | exact hs huser | cases hentry
  | book _ hbreakpoints | threads _ hbreakpoints =>
      obtain ⟨r, hr, hin⟩ := hs huser
      exact ⟨r, (congrArg (SortedMap.find? · key) hbreakpoints).trans hr, hin⟩
  | insert _ hfresh =>
      obtain ⟨r, hr, hin⟩ := hs huser
      refine ⟨r, (SortedMap.find?_insert_of_ne _ _ ?_).trans hr, hin⟩
      rintro rfl
      cases hfresh.symm.trans hr
  | erase _ hdisabled =>
      obtain ⟨r, hr, henabled, htemporary⟩ := hs huser
      refine ⟨r, ((SortedMap.find?_erase _ _ _).trans (if_neg ?_)).trans hr, henabled, htemporary⟩
      rintro rfl
      cases henabled.symm.trans (hdisabled r hr)
  | save _ hr' hdisabled | arm _ hr' hdisabled =>
      obtain ⟨r, hr, henabled, htemporary⟩ := hs huser
      refine ⟨r, (SortedMap.find?_modify_of_ne _ _ ?_).trans hr, henabled, htemporary⟩
      rintro rfl
      obtain rfl := Option.some.inj (hr.symm.trans hr')
      cases henabled.symm.trans hdisabled
  | force => exact absurd rfl hkind
  | lift _ hr' _ _ hreason =>
      obtain ⟨r, hr, henabled, htemporary⟩ := hs huser
      refine ⟨r, (SortedMap.find?_modify_of_ne _ _ ?_).trans hr, henabled, htemporary⟩
      rintro rfl
      obtain rfl := Option.some.inj (hr.symm.trans hr')
      rcases hreason with hnot | htemporary'
      · cases huser.symm.trans hnot
      · cases htemporary.symm.trans htemporary'
  | @userEnabled _ key' r hr henabled htemporary =>
      by_cases heq : key' = key
      · exact ⟨r, heq ▸ hr, henabled, htemporary⟩
      · refine hs ?_
        simpa [State.logged, Cosy.userEnabled, heq] using huser
  | userDisabled =>
      refine hs ?_
      simp only [State.logged, Cosy.userEnabled, Bool.and_eq_true] at huser
      exact huser.2
  | _ => exact hs huser

/-- Nothing but the target's own steps tells of executions. -/
theorem Move.noneRunPast (hmove : Move arch env T kind s t) (hkind : kind ≠ .enter)
    (hs : NoneRunPast s.log) : NoneRunPast t.log := by
  cases hmove with
  | enter => exact absurd rfl hkind
  | say _ hentry | report _ hentry | stepping _ hentry =>
      refine (Entry.noneRunPast_cons ?_).mpr hs
      rintro event rfl
      cases hentry
  | _ => exact hs

theorem Guarded.move (hs : Guarded arch T lifted s) (henv : env.LeavesText T)
    (hmove : Move arch env T kind s t) (hkind : kind ≠ .force)
    (henter : kind = .enter → Undisturbed arch T t.log → NoneRunPast t.log) :
    Guarded arch T lifted t := by
  refine ⟨hmove.wellFormed hs.formed, hmove.sound henv hs.formed hs.sound, fun hundisturbed => ?_,
    fun hundisturbed key hkey => ?_⟩
  · by_cases hentered : kind = .enter
    · exact henter hentered hundisturbed
    · exact hmove.noneRunPast hentered (hs.runPast (hundisturbed.of_suffix hmove.log_suffix))
  · exact hmove.inForce hkind (hs.inForce (hundisturbed.of_suffix hmove.log_suffix) key hkey)

/-- No thread gets past a trap. -/
theorem Debugger.InForce.not_executed (hheeds : env.HeedsTraps arch T) (hsound : Sound arch T s)
    (horderly : Orderly arch T (env.enter s).log) {key : Address} (hforce : s.debugger.InForce key)
    (tid : Tid) : TargetEvent.executed tid key ∉ (env.interfere s.tick s.target).1 := by
  intro hmem
  obtain ⟨r, hr, henabled, -⟩ := hforce
  have horderlys : Orderly arch T s.log := orderly_of_enter horderly
  have hpatched := hsound.patched horderlys
  have harmed := hpatched.armed key r hr henabled
  have htrap : arch.trapAt s.target.memory key = true :=
    decide_eq_true (hpatched.trapsPresent horderlys key r hr henabled)
  have hno := (hheeds.heeded s.tick s.target).trap tid key hmem
    (Orderly.no_exec harmed (enter_log env s ▸ horderly)) (horderlys.of_armed harmed)
  cases htrap.symm.trans hno

theorem Guarded.enter (hheeds : env.HeedsTraps arch T) (hs : Guarded arch T ∅ s) :
    Guarded arch T ∅ (env.enter s) := by
  refine hs.move hheeds.toLeavesText (.enter s) (by decide) fun _ hundisturbed => ?_
  have hbefore : Undisturbed arch T s.log := hundisturbed.of_enter
  rw [enter_log]
  refine (hs.runPast hbefore).append fun tid key hmem huser => ?_
  have hforce := hs.inForce hbefore key (Set.notMem_empty key) huser
  exact absurd hmem (hforce.not_executed hheeds hs.sound hundisturbed.1 tid)

/-- The kinds of moves that leave the traps in that are in force. -/
def unforced : List Kind := running ++ [.stepping, .report, .write]

theorem Guarded.of_does (hheeds : env.HeedsTraps arch T) {m : Dbg R D α}
    (hm : Does arch env T unforced m) : Within (Keeps (Guarded arch T ∅)) m := by
  intro s hs
  refine (hm s hs.formed).1.preserve (fun kind hkind u v hmove hu => ?_) hs
  by_cases hentered : kind = .enter
  · obtain rfl := hentered
    exact hmove.of_enter ▸ hu.enter hheeds
  · refine hu.move hheeds.toLeavesText hmove ?_ fun h => absurd h hentered
    rintro rfl
    exact absurd hkind (by decide)

end Guarded

/-! ### While the trap is out -/

/-- The breakpoint at this address is not temporary. -/
def Debugger.Lasting (d : Debugger) (key : Address) : Prop :=
  ∃ r, d.breakpoints.find? key = some r ∧ r.temporary = false

/-- The trap at this address is out; if every step-over has gone well, whoever runs is the thread that is
being stepped over it. -/
structure Opened (arch : Architecture R D) (T : Set Address) (tid : Tid) (address : Address)
    (s : State R D) : Prop where
  guarded : Guarded arch T {address} s
  lasting : Undisturbed arch T s.log → userEnabled address s.log = true → s.debugger.Lasting address
  alone : Undisturbed arch T s.log → ∀ other, s.target.isRunning other = true →
    other = tid ∧ isSteppedOver tid address s.log = true

section Opened

variable {s t : State R D} {tid : Tid} {address : Address} {kind : Kind}

/-- The kinds of moves that are made while the trap is out. -/
def opening : List Kind := [.enter, .stepping, .threads, .take, .arm]

theorem Move.lasting (hmove : Move arch env T kind s t) (hkind : kind ∈ opening)
    (hs : Cosy.userEnabled address s.log = true → s.debugger.Lasting address)
    (huser : Cosy.userEnabled address t.log = true) : t.debugger.Lasting address := by
  cases hmove with
  | enter =>
      rw [userEnabled_enter] at huser
      exact hs huser
  | stepping _ hentry =>
      rename_i entry
      cases entry <;> first | exact hs huser | cases hentry
  | threads _ hbreakpoints =>
      obtain ⟨r, hr, hin⟩ := hs huser
      exact ⟨r, (congrArg (SortedMap.find? · address) hbreakpoints).trans hr, hin⟩
  | @save _ key | @arm _ key =>
      obtain ⟨r, hr, htemporary⟩ := hs huser
      by_cases heq : address = key
      · subst heq
        refine ⟨_, (SortedMap.find?_modify_self _ _ _).trans (congrArg (Option.map _) hr), ?_⟩
        exact htemporary
      · exact ⟨r, (SortedMap.find?_modify_of_ne _ _ heq).trans hr, htemporary⟩
  | take | arming | abandon | armWild | liftWild => exact hs huser
  | _ => exact absurd hkind (by decide)

/-- None of them resumes a thread. -/
theorem Move.alone (hmove : Move arch env T kind s t) (hkind : kind ∈ opening)
    (hheeds : env.HeedsTraps arch T)
    (hs : ∀ other, s.target.isRunning other = true → other = tid ∧ isSteppedOver tid address s.log = true)
    (other : Tid) (hother : t.target.isRunning other = true) :
    other = tid ∧ isSteppedOver tid address t.log = true := by
  cases hmove with
  | enter =>
      rw [enter_log, isSteppedOver_target]
      exact hs other ((hheeds.heeded s.tick s.target).running other hother)
  | stepping _ hentry =>
      rename_i entry
      cases entry <;> first | exact hs other hother | cases hentry
  | threads | take | arming | save | arm | abandon | armWild | liftWild => exact hs other hother
  | _ => exact absurd hkind (by decide)

theorem Opened.enter (hheeds : env.HeedsTraps arch T) (hs : Opened arch T tid address s) :
    Undisturbed arch T (env.enter s).log → NoneRunPast (env.enter s).log := by
  intro hundisturbed
  have hbefore : Undisturbed arch T s.log := hundisturbed.of_enter
  rw [enter_log]
  refine (hs.guarded.runPast hbefore).append fun other key hmem huser => ?_
  have hrunning := (hheeds.heeded s.tick s.target).executed other key hmem
  obtain ⟨rfl, hstepped⟩ := hs.alone hbefore other hrunning
  by_cases heq : key = address
  · exact heq ▸ hstepped
  · have hforce := hs.guarded.inForce hbefore key heq huser
    exact absurd hmem (hforce.not_executed hheeds hs.guarded.sound hundisturbed.1 other)

theorem Opened.move (hheeds : env.HeedsTraps arch T) (hs : Opened arch T tid address s)
    (hmove : Move arch env T kind s t) (hkind : kind ∈ opening) : Opened arch T tid address t := by
  have hback : Undisturbed arch T t.log → Undisturbed arch T s.log := fun hundisturbed =>
    hundisturbed.of_suffix hmove.log_suffix
  refine ⟨?_, fun hundisturbed => hmove.lasting hkind (hs.lasting (hback hundisturbed)),
    fun hundisturbed => hmove.alone hkind hheeds (hs.alone (hback hundisturbed))⟩
  refine hs.guarded.move hheeds.toLeavesText hmove ?_ ?_
  · rintro rfl
    exact absurd hkind (by decide)
  · rintro rfl
    exact hmove.of_enter ▸ hs.enter hheeds

theorem Opened.of_does (hheeds : env.HeedsTraps arch T) {m : Dbg R D α}
    (hm : Does arch env T opening m) : Within (Keeps (Opened arch T tid address)) m := fun s hs =>
  (hm s hs.guarded.formed).1.preserve (fun _ hkind _ _ hmove hu => hu.move hheeds hmove hkind) hs

/-- A trap that is back closes the gap. -/
theorem Opened.close (hs : Opened arch T tid address s) {r : Breakpoint}
    (hr : s.debugger.breakpoints.find? address = some r) (henabled : r.enabled = true) :
    Guarded arch T ∅ s := by
  refine ⟨hs.guarded.formed, hs.guarded.sound, hs.guarded.runPast, fun hundisturbed key _ huser => ?_⟩
  by_cases heq : key = address
  · subst heq
    obtain ⟨r', hr', htemporary⟩ := hs.lasting hundisturbed huser
    obtain rfl := Option.some.inj (hr.symm.trans hr')
    exact ⟨r, hr, henabled, htemporary⟩
  · exact hs.guarded.inForce hundisturbed key heq huser

end Opened

/-! ### A step-over -/

/-- However debugger code ends, no breakpoint has been run past; and if it has thrown, rather than wait
forever, the breakpoints of the user are in force. -/
def NotRunPast (arch : Architecture R D) (T : Set Address) (halt : Halt) (s : State R D) : Prop :=
  (Undisturbed arch T s.log → NoneRunPast s.log) ∧ (halt = .blocked ∨ Guarded arch T ∅ s)

theorem Guarded.notRunPast {s : State R D} (hs : Guarded arch T ∅ s) (halt : Halt) :
    NotRunPast arch T halt s := ⟨hs.runPast, Or.inr hs⟩

abbrev Guards (arch : Architecture R D) (T : Set Address) (m : Dbg R D α) : Prop :=
  Upholds (Guarded arch T ∅) (NotRunPast arch T) m

theorem Guards.of_does (hheeds : env.HeedsTraps arch T) {m : Dbg R D α}
    (hm : Does arch env T unforced m) : Guards arch T m :=
  Triple.of_within (Guarded.of_does hheeds hm) (fun _ _ hst hs _ => hst hs)
    fun _ _ hst hs halt => (hst hs).notRunPast halt

section StepOver

variable {s t : State R D} {tid : Tid} {address : Address} {r : Breakpoint}

/-- The bytes go back at once, and until then only time passes. -/
theorem disable_lifts (henv : env.LeavesText T) (hformed : WellFormed arch s.debugger.breakpoints)
    (hr : s.debugger.breakpoints.find? address = some r) (henabled : r.enabled = true)
    (horderly : Orderly arch T s.log) (harmed : armed address s.log = true) :
    Triple (fun t => t = s) (disable env address)
      (fun _ t => ∃ u memory, Entered arch env T s u ∧ t = u.lifted address r memory)
      (fun _ t => Entered arch env T s t) := by
  rintro s rfl
  obtain ⟨haddress, hpending, hlength⟩ := hformed address r hr
  have hsaved : r.saved.isEmpty = false := by
    have hpos := arch.breakpointSize_pos
    rw [← hlength henabled] at hpos
    exact Bool.eq_false_iff.mpr fun hempty =>
      absurd (List.length_eq_zero_iff.mpr (List.isEmpty_iff.mp hempty)) hpos.ne'
  rw [disable, get_bind_apply, hr]
  simp only [hpending, henabled, hsaved, Bool.not_true, Bool.or_self, Bool.false_eq_true, if_false,
    haddress]
  have hwrite := writeBytes_entered arch henv (hlength henabled) horderly harmed
  rw [bind_apply]
  cases hrun : writeBytes env address r.saved s with
  | error halt t => exact hwrite.of_error rfl hrun
  | ok a t =>
      obtain ⟨u, memory, hu, rfl, -⟩ := hwrite.of_ok rfl hrun
      exact ⟨u, memory, hu, rfl⟩

theorem Entered.guarded (hheeds : env.HeedsTraps arch T) (hentered : Entered arch env T s t)
    (hs : Guarded arch T ∅ s) : Guarded arch T ∅ t :=
  hentered.preserve (fun _ hu => hu.enter hheeds) hs

theorem disable_opens (hheeds : env.HeedsTraps arch T) (hs : Guarded arch T ∅ s)
    (hr : s.debugger.breakpoints.find? address = some r) (henabled : r.enabled = true) :
    Triple (fun t => t = s) (disable env address)
      (fun _ t => Guarded arch T {address} t ∧
        (Undisturbed arch T t.log → userEnabled address t.log = true → t.debugger.Lasting address))
      (fun _ t => Guarded arch T ∅ t) := by
  rintro s rfl
  have henv := hheeds.toLeavesText
  obtain ⟨hmoves, hformed⟩ := does_disable henv address s hs.formed
  have hsound := hmoves.sound henv hs.formed hs.sound
  have hsuffix := hmoves.log_suffix
  -- In an undisturbed session the trap is known to be in.
  have hlifts : Orderly arch T s.log → Triple (fun t => t = s) (disable env address)
      (fun _ t => ∃ u memory, Entered arch env T s u ∧ t = u.lifted address r memory)
      (fun _ t => Entered arch env T s t) := fun horderly =>
    disable_lifts henv hs.formed hr henabled horderly
      ((hs.sound.patched horderly).armed address r hr henabled)
  cases hrun : disable env address s with
  | error halt t =>
      rw [endState_of_error hrun] at hformed hsound hsuffix
      by_cases hundisturbed : Undisturbed arch T t.log
      · exact ((hlifts (hundisturbed.of_suffix hsuffix).1).of_error rfl hrun).guarded hheeds hs
      · exact .of_disturbed hformed hsound hundisturbed
  | ok a t =>
      rw [endState_of_ok hrun] at hformed hsound hsuffix
      by_cases hundisturbed : Undisturbed arch T t.log
      · obtain ⟨u, memory, hentered, rfl⟩ :=
          (hlifts (hundisturbed.of_suffix hsuffix).1).of_ok rfl hrun
        have hu : Guarded arch T ∅ u := hentered.guarded hheeds hs
        have hback : Undisturbed arch T u.log :=
          hundisturbed.of_suffix ((List.suffix_cons _ _).trans (List.suffix_cons _ _))
        have hother : ∀ key, key ≠ address →
            (u.lifted address r memory).debugger.breakpoints.find? key
              = u.debugger.breakpoints.find? key := fun key hne =>
          SortedMap.find?_modify_of_ne _ _ hne
        refine ⟨⟨hformed, hsound, fun _ => hu.runPast hback, fun _ key hkey huser => ?_⟩,
          fun _ huser => ?_⟩
        · obtain ⟨r', hr', hin⟩ := hu.inForce hback key (Set.notMem_empty key) huser
          exact ⟨r', (hother key hkey).trans hr', hin⟩
        · obtain ⟨r', hr', -, htemporary⟩ := hu.inForce hback address (Set.notMem_empty _) huser
          refine ⟨_, (SortedMap.find?_modify_self _ _ _).trans (congrArg (Option.map _) hr'), ?_⟩
          exact htemporary
      · exact ⟨.of_disturbed hformed hsound hundisturbed, fun h => absurd h hundisturbed⟩

/-- A step-over of this thread has just begun; if every step-over has gone well, no thread runs. -/
structure Poised (arch : Architecture R D) (T : Set Address) (tid : Tid) (address : Address)
    (s : State R D) : Prop where
  guarded : Guarded arch T {address} s
  lasting : Undisturbed arch T s.log → userEnabled address s.log = true → s.debugger.Lasting address
  still : Undisturbed arch T s.log → ∀ other, s.target.isRunning other = false
  begins : beginsStepOver tid address s.log = true

theorem resume_opens (hheeds : env.HeedsTraps arch T) :
    Triple (Poised arch T tid address) (resume env tid .singlestep 0)
      (fun _ => Opened arch T tid address) (fun _ => Guarded arch T {address}) := by
  intro s hs
  have henv := hheeds.toLeavesText
  have hrun := fun other hother => (hheeds.heeded s.tick s.target).running other hother
  have hentered : Guarded arch T {address} (env.enter s) := by
    refine hs.guarded.move henv (.enter s) (by decide) fun _ hundisturbed => ?_
    have hbefore : Undisturbed arch T s.log := hundisturbed.of_enter
    rw [enter_log]
    refine (hs.guarded.runPast hbefore).append fun other key hmem => ?_
    have hrunning := (hheeds.heeded s.tick s.target).executed other key hmem
    cases hrunning.symm.trans (hs.still hbefore other)
  rcases ptrace_cases env ResumeRequest.singlestep.operation tid (fun task target =>
      (PUnit.unit, target.setTask tid
        { task with stopped := false, stepping := ResumeRequest.singlestep = .singlestep })) s with
    ⟨task, htask, hstopped, -, hptrace⟩ | ⟨-, hptrace⟩
  · rw [resume, bind_ok hptrace]
    refine ⟨hentered.move henv (.resume (env.enter s) .singlestep htask hstopped) (by decide)
      (fun henter => by cases henter), fun hundisturbed huser => ?_, fun hundisturbed other hother => ?_⟩
    · refine hs.lasting (hundisturbed.of_suffix ?_) ((userEnabled_enter address s).symm.trans huser)
      exact (List.suffix_append _ _).trans (List.suffix_cons _ _)
    · by_cases heq : other = tid
      · refine ⟨heq, ?_⟩
        change isSteppedOver tid address (.resumed tid .singlestep 0 :: (env.enter s).log) = true
        rw [isSteppedOver, if_pos rfl, enter_log, beginsStepOver_target, hs.begins]
        rfl
      · have hbefore : Undisturbed arch T s.log :=
          hundisturbed.of_suffix ((List.suffix_append _ _).trans (List.suffix_cons _ _))
        have hrunning : (env.enter s).target.isRunning other = true := by
          obtain ⟨task', htask', hflag⟩ := Target.isRunning_iff.mp hother
          exact Target.isRunning_iff.mpr
            ⟨task', (SortedMap.find?_insert_of_ne _ _ heq).symm.trans htask', hflag⟩
        cases (hrun other hrunning).symm.trans (hs.still hbefore other)
  · rw [resume, bind_error hptrace]
    exact hentered

theorem stepThread_opens (hheeds : env.HeedsTraps arch T) :
    Triple (Poised arch T tid address) (stepThread env tid) (fun _ => Opened arch T tid address)
      (fun _ => Guarded arch T {address}) := by
  have hkeep : ∀ {β : Type} {m : Dbg R D β}, Does arch env T opening m →
      Triple (Opened arch T tid address) m (fun _ => Opened arch T tid address)
        (fun _ => Guarded arch T {address}) := fun hm =>
    (triple_of_within (Opened.of_does hheeds hm)).conseq (fun _ hs => hs) (fun _ _ hs => hs)
      fun _ _ hs => hs.guarded
  refine Triple.bind (resume_opens hheeds) fun _ => Triple.bind (hkeep ?_) fun _ => hkeep ?_
  · refine Within.get_bind fun s => Within.ite (fun _ => ?_) (fun _ => .throw _) s
    exact does_threads (by decide) fun _ => by simp
  · exact does_waitForEvent (by decide) (by decide)

theorem Guarded.poised (henv : env.LeavesText T) (ht : Guarded arch T {address} t)
    (hlasting : Undisturbed arch T t.log → userEnabled address t.log = true → t.debugger.Lasting address)
    (hstopped : t.StoppedThread tid) :
    Poised arch T tid address (t.logged (.stepOver tid address (t.target.alone tid))) where
  guarded := ht.move henv (.stepping t rfl) (by decide) nofun
  lasting hundisturbed := hlasting (hundisturbed.of_suffix (List.suffix_cons _ _))
  still hundisturbed other := by
    refine Bool.eq_false_iff.mpr fun hrunning => ?_
    obtain ⟨task, htask, hflag⟩ := Target.isRunning_iff.mp hrunning
    have halone := List.all_eq_true.mp hundisturbed.head (other, task) (SortedMap.mem_entries_iff.mpr htask)
    rw [Bool.or_eq_true, decide_eq_true_eq] at halone
    rcases halone with rfl | hother
    · obtain ⟨task', htask', hflag'⟩ := hstopped
      obtain rfl := Option.some.inj (htask.symm.trans htask')
      cases hflag.symm.trans hflag'
    · cases hflag.symm.trans hother
  begins := by simp [State.logged, beginsStepOver]

theorem Guarded.stepFailed (henv : env.LeavesText T) {lifted : Set Address} (ht : Guarded arch T lifted t)
    {entry : Entry} (hstepping : entry.isStepping = true) (hdisturbed : entry.isUndisturbed = false) :
    Guarded arch T ∅ (t.logged entry) := by
  have hlogged := ht.move henv (.stepping t hstepping) (by decide) nofun
  refine .of_disturbed hlogged.formed hlogged.sound fun hundisturbed => ?_
  cases hdisturbed.symm.trans hundisturbed.head

theorem stepOffTrap_opens (hheeds : env.HeedsTraps arch T) (hs : Guarded arch T ∅ s)
    (hselected : s.SelectedStopped) (hr : s.debugger.breakpoints.find? address = some r)
    (henabled : r.enabled = true) :
    Triple (fun t => t = s) (stepOffTrap env address)
      (fun _ => Opened arch T s.debugger.selectedTid address) (NotRunPast arch T) := by
  have henv := hheeds.toLeavesText
  have hdisable : Does arch env ∅ [.enter, .force] (disable env address) :=
    does_disable (Environment.leavesText_empty env) address
  have hruns := hdisable.triple s
  refine Triple.bind (((disable_opens hheeds hs hr henabled).and hruns).conseq (fun _ ht => ⟨ht, ht⟩)
    (fun _ _ ht => ht) fun halt _ ht => ht.1.notRunPast halt) fun _ => Triple.get_bind fun t => ?_
  rintro u ⟨rfl, ⟨hguarded, hlasting⟩, hruns⟩
  obtain ⟨hmoves, -⟩ := hruns hs.formed
  have hsame : u.debugger.selectedTid = s.debugger.selectedTid := by
    refine hmoves.preserve (I := fun v => v.debugger.selectedTid = s.debugger.selectedTid)
      (fun kind hkind _ _ hmove hv => (hmove.sameThreads ?_).2.trans hv) rfl
    rintro rfl
    exact absurd hkind (by decide)
  have hstopped : u.StoppedThread u.debugger.selectedTid := by
    obtain ⟨task, htask, hflag⟩ := hselected
    exact ⟨task, hsame ▸ stopsKept_of_lifting hheeds.steady hmoves _ task htask hflag, hflag⟩
  have hpoised := hguarded.poised henv hlasting hstopped
  rw [← hsame]
  refine Triple.bind (Q := fun _ => Poised arch T u.debugger.selectedTid address)
    (Triple.modify fun v hv => ?_) (fun _ => Triple.onThrow (stepThread_opens hheeds) ?_) u rfl
  · exact hv ▸ hpoised
  · intro halt v hv
    cases halt with
    | blocked => exact ⟨hv.runPast, Or.inl rfl⟩
    | thrown exception => exact (hv.stepFailed henv rfl rfl).notRunPast _

theorem enable_enables {arch : Architecture R D} (hformed : WellFormed arch s.debugger.breakpoints)
    (hr : s.debugger.breakpoints.find? address = some r) (hrun : enable arch env address s = .ok ⟨⟩ t) :
    ∃ r', t.debugger.breakpoints.find? address = some r' ∧ r'.enabled = true := by
  obtain ⟨-, hpending, hlength⟩ := hformed address r hr
  cases henabled : r.enabled with
  | false =>
      obtain ⟨saved, hdebugger⟩ := (enable_debugger hr hpending henabled).of_ok rfl hrun
      refine ⟨r.armedWith saved, ?_, rfl⟩
      rw [hdebugger, Debugger.withRecord, SortedMap.find?_modify_self, hr]
      rfl
  | true =>
      have hsaved : r.saved.isEmpty = false := by
        refine Bool.eq_false_iff.mpr fun hempty => arch.breakpointSize_pos.ne' ?_
        rw [← hlength henabled, List.isEmpty_iff.mp hempty, List.length_nil]
      rw [enable, get_bind_apply, hr] at hrun
      simp only [henabled, hsaved, Bool.not_false, Bool.and_true, Bool.or_true, if_true] at hrun
      cases hrun
      exact ⟨r, hr, henabled⟩

/-- With the trap back the breakpoints are in force again; if it does not come back, this is logged. -/
theorem reinsert_closes (hheeds : env.HeedsTraps arch T) {stepped : Tid} :
    Triple (Opened arch T stepped address) (reinsert arch env tid address)
      (fun _ => Guarded arch T ∅) (NotRunPast arch T) := by
  refine Triple.get_bind fun s => Triple.onThrow (F := fun _ => Opened arch T stepped address) ?_
    fun halt t ht => (ht.guarded.stepFailed hheeds.toLeavesText rfl rfl).notRunPast halt
  rintro t ⟨rfl, ht⟩
  have hdoes : Does arch env T opening (enable arch env address) :=
    (does_enable hheeds.toLeavesText address).mono (by decide)
  have hkeep : Within (Keeps (Opened arch T stepped address)) (enable arch env address) :=
    Opened.of_does hheeds hdoes
  cases hrun : enable arch env address t with
  | error halt u => exact hkeep.of_error hrun ht
  | ok a u =>
      have hu : Opened arch T stepped address u := hkeep.of_ok hrun ht
      by_cases hrecord : ∃ r, t.debugger.breakpoints.find? address = some r
      · obtain ⟨r, hr⟩ := hrecord
        obtain ⟨r', hr', henabled⟩ := enable_enables ht.guarded.formed hr hrun
        exact hu.close hr' henabled
      · -- Without a record nothing is put back, and there is no breakpoint of the user.
        have hnone : t.debugger.breakpoints.find? address = none :=
          Option.eq_none_iff_forall_ne_some.mpr fun r hr => hrecord ⟨r, hr⟩
        rw [enable, get_bind_apply, hnone] at hrun
        cases hrun
        refine ⟨ht.guarded.formed, ht.guarded.sound, ht.guarded.runPast, fun hundisturbed key _ huser => ?_⟩
        by_cases heq : key = address
        · obtain ⟨r, hr, -⟩ := ht.lasting hundisturbed (heq ▸ huser)
          exact absurd ⟨r, hr⟩ hrecord
        · exact ht.guarded.inForce hundisturbed key heq huser

theorem handleStepStop_closes (hheeds : env.HeedsTraps arch T) {stepped : Tid} :
    Triple (Opened arch T stepped address) (handleStepStop arch env address tid)
      (fun _ => Guarded arch T ∅) (NotRunPast arch T) := by
  have hreport : Guards arch T (do
      modifyDebugger fun d => { d with selectedTid := tid }
      printStop arch env tid) := by
    refine Guards.of_does hheeds (Within.bind (does_threads (by decide) fun _ => by simp) fun _ => ?_)
    exact (does_printStop hheeds.toLeavesText tid).mono (by decide)
  refine Triple.get_bind fun s => Triple.pre ?_ fun _ ht => ht.2
  exact Triple.ite (reinsert_closes hheeds) (Triple.bind (reinsert_closes hheeds) fun _ => hreport)

/-- An event of the step-over is dealt with; one that is no stop leaves the trap out, and this is logged. -/
theorem handleStepEvent_closes (hheeds : env.HeedsTraps arch T) {stepped : Tid} (status : WaitStatus) :
    Triple (fun s => Opened arch T stepped address s ∧ (Undisturbed arch T s.log → status.isStopped = true))
      (handleStepEvent arch env address tid status) (fun _ => Guarded arch T ∅) (NotRunPast arch T) := by
  refine Triple.bind (Q := fun _ s => Opened arch T stepped address s ∧
    (Undisturbed arch T s.log → status.isStopped = true)) (Triple.modify fun s hs => ⟨?_, hs.2⟩) fun _ => ?_
  · exact hs.1.move hheeds (.threads s rfl ⟨rfl, rfl⟩) (by decide)
  · refine Triple.doIf (fun _ => (handleStepStop_closes hheeds).pre fun _ hs => hs.1) fun hstopped s hs => ?_
    exact .of_disturbed hs.1.guarded.formed hs.1.guarded.sound fun hundisturbed =>
      hstopped (hs.2 hundisturbed)

theorem pc_stopped (arch : Architecture R D) (env : Environment R D) (s : State R D) (tid : Tid) :
    Triple (fun t => t = s) (pc arch env tid) (fun _ t => t.StoppedThread tid) (fun _ _ => True) := by
  rintro s rfl
  rcases ptrace_cases env arch.getRegsOperation tid (fun task target => (task.regs, target)) s with
    ⟨task, htask, hstopped, -, hrun⟩ | ⟨-, hrun⟩
  · have hregs : getRegs arch env tid s = .ok task.regs (env.enter s) := hrun
    rw [pc, bind_ok hregs]
    exact ⟨task, htask, hstopped⟩
  · have hregs : getRegs arch env tid s = .error _ (env.enter s) := hrun
    rw [pc, bind_error hregs]
    trivial

theorem guards_stepOverBreakpoint (hheeds : env.HeedsTraps arch T) :
    Guards arch T (stepOverBreakpoint arch env) := by
  refine Triple.get_bind fun s => ?_
  have hdoes : Does arch env T unforced (pc arch env s.debugger.selectedTid) := does_pc (by decide) _
  have hsame : Within SameDebugger (pc arch env s.debugger.selectedTid) := (sameDebugger env).peeks.pc _
  refine Triple.bind (Q := fun _ t => Guarded arch T ∅ t ∧ t.SelectedStopped) ?_ fun address => ?_
  · refine (((Guards.of_does hheeds hdoes).and (pc_stopped arch env s _)).and (hsame.triple s)).conseq
      (fun t ht => ⟨⟨ht.2, ht.1⟩, ht.1⟩) (fun _ t ht => ⟨ht.1.1, ?_⟩) fun _ _ ht => ht.1.1
    have hdebugger : t.debugger = s.debugger := ht.2
    rw [State.SelectedStopped, hdebugger]
    exact ht.1.2
  refine Triple.get_bind fun t => ?_
  cases hr : t.debugger.breakpoints.find? address with
  | none => exact Triple.pure fun _ ht => ht.2.1
  | some r =>
      dsimp only
      split
      · rename_i henabled
        rintro u ⟨rfl, hu, hselected⟩
        have hover := stepOffTrap_opens hheeds hu hselected hr henabled
        refine (Triple.bind hover fun event => ?_) u rfl
        refine Triple.bind (Q := fun _ v => Opened arch T u.debugger.selectedTid address v ∧
          (Undisturbed arch T v.log → event.2.isStopped = true)) ?_ fun _ =>
            handleStepEvent_closes hheeds event.2
        refine Triple.get_bind fun v => Triple.modify ?_
        rintro w ⟨rfl, hw⟩
        exact ⟨hw.move hheeds (.stepping w rfl) (by decide), fun hundisturbed => hundisturbed.head⟩
      · exact Triple.pure fun _ ht => ht.2.1

end StepOver

/-! ### Commands -/

section Commands

variable (hheeds : env.HeedsTraps arch T)

theorem does_handleEvent (henv : env.LeavesText T) (tid : Tid) (status : WaitStatus) (report : Bool) :
    Does arch env T unforced (handleEvent arch env tid status report) := by
  have hend : ∀ message, Does arch env T unforced (do
      handleEnd tid
      doIf report (print message)) := fun message =>
    Within.bind ((does_handleEnd tid).mono (by decide)) fun _ =>
      Within.doIf fun _ => does_print (by decide) _
  refine Within.bind (does_threads (by decide) fun _ => by simp) fun _ => ?_
  cases status with
  | exited code => exact hend _
  | signaled signal => exact hend _
  | continued => exact .pure _
  | stopped signal event =>
      exact Within.bind ((does_handleStop henv tid signal event).mono (by decide)) fun _ =>
        Within.doIf fun _ => (does_reportStop henv tid).mono (by decide)

theorem does_waitAndReport (henv : env.LeavesText T) (report : Bool) :
    Does arch env T unforced (waitAndReport arch env report) :=
  Within.bind (does_waitForEvent (by decide) (by decide)) fun event =>
    Within.bind (does_noteConsumed (by decide) event.1 event.2) fun _ =>
      does_handleEvent henv event.1 event.2 report

include hheeds

theorem guards_continueExecution : Guards arch T (continueExecution arch env) := by
  have henv := hheeds.toLeavesText
  have hresume : ∀ entries, Does arch env T unforced (resumeStopped env entries) := by
    intro entries
    induction entries with
    | nil => exact .pure _
    | cons entry rest ih =>
        exact Within.bind ((does_resumeThread entry.1 .cont).mono (by decide)) fun _ => ih
  refine Triple.get_bind fun s => Triple.pre ?_ fun _ ht => ht.2
  refine Triple.ite (Triple.bind (guards_stepOverBreakpoint hheeds) fun _ => ?_)
    (Guards.of_does hheeds (does_print (by decide) _))
  exact Guards.of_does hheeds (Within.get_bind fun t =>
    Within.bind (hresume _) (fun _ => does_waitAndReport henv true) t)

theorem guards_instructionStep (report : Bool) : Guards arch T (instructionStep arch env report) := by
  have henv := hheeds.toLeavesText
  refine Triple.get_bind fun s => Triple.pre ?_ fun _ ht => ht.2
  refine Triple.ite (Triple.bind (guards_stepOverBreakpoint hheeds) fun _ => ?_)
    (Guards.of_does hheeds (.pure _))
  exact Guards.of_does hheeds (Within.get_bind fun t =>
    Within.bind ((does_resumeThread _ _).mono (by decide)) (fun _ => does_waitAndReport henv report) t)

theorem guarded_upheld : UpheldWithin arch env T (Guarded arch T ∅) (NotRunPast arch T) where
  thrown exception s hs := hs.2.resolve_left fun hblocked => by cases hblocked
  answer hm _ := Guards.of_does hheeds (hm.mono (by decide))
  select tid := Guards.of_does hheeds (does_threads (by decide) fun _ => by simp)
  continueExecution := guards_continueExecution hheeds
  instructionStep := guards_instructionStep hheeds

end Commands

/-! ### Sessions -/

theorem guarded_initial {child : Tid} {target : Target R D}
    (himage : Set.EqOn target.memory target.image T) :
    Guarded arch T ∅ (State.initial child target) :=
  ⟨wellFormed_empty, sound_of_empty rfl himage rfl, fun _ => trivial, fun _ _ _ huser => by cases huser⟩

theorem Prompt.guarded (hheeds : env.HeedsTraps arch T) {child : Tid} {target : Target R D}
    (himage : Set.EqOn target.memory target.image T) {s : State R D}
    (hs : Prompt arch env (State.initial child target) s) : Guarded arch T ∅ s := by
  induction hs with
  | opened hrun =>
      exact (Guarded.of_does hheeds ((does_openSession hheeds.toLeavesText).mono (by decide))).of_ok hrun
        (guarded_initial himage)
  | command line _ hrun ih => exact ((guarded_upheld hheeds).dispatch hheeds.toLeavesText line).of_ok ih hrun

/-- However a line ends, no breakpoint has been run past. -/
theorem Guarded.runPast_dispatch (hheeds : env.HeedsTraps arch T) {s : State R D}
    (hs : Guarded arch T ∅ s) (line : Text)
    (hundisturbed : Undisturbed arch T (endState (dispatch arch env line) s).log) :
    NoneRunPast (endState (dispatch arch env line) s).log := by
  have hdispatch := (guarded_upheld hheeds).dispatch hheeds.toLeavesText line
  exact (hdispatch.conseq (fun _ hs => hs) (fun _ _ hs => hs.runPast) fun _ _ hs => hs.1).endState hs
    hundisturbed

/-- As long as every step-over has gone well, the breakpoints that the user has enabled have their traps
in memory whenever the debugger is at its prompt, and whatever the next line is and however it ends, no
thread has ever executed the instruction at one of them but when it was being stepped over it. -/
theorem Prompt.none_run_past (hheeds : env.HeedsTraps arch T) {child : Tid} {target : Target R D}
    (himage : Set.EqOn target.memory target.image T) {s : State R D}
    (hs : Prompt arch env (State.initial child target) s) (line : Text) :
    (Undisturbed arch T s.log → ∀ key, userEnabled key s.log = true → Rearmed arch key s) ∧
      (Undisturbed arch T (endState (dispatch arch env line) s).log →
        NoneRunPast (endState (dispatch arch env line) s).log) := by
  have hguarded := hs.guarded hheeds himage
  refine ⟨fun hundisturbed key huser => ?_, ?_⟩
  · obtain ⟨r, hr, henabled, -⟩ := hguarded.inForce hundisturbed key (Set.notMem_empty key) huser
    have hpatched := hguarded.sound.patched hundisturbed.1
    exact ⟨⟨r, hr, henabled⟩, hpatched.trapsPresent hundisturbed.1 key r hr henabled⟩
  · exact hguarded.runPast_dispatch hheeds line

/-- Whenever the debugger calls the system, each of two threads executes an instruction if it runs. -/
def pairMachine : Environment UserRegs X86_64.DebugRegisters := nopMachine fun _ => [.run 1, .run 2]

def Entry.isTrapped (tid : Tid) (address : Address) : Entry → Bool
  | .target (.trapped trapped found) => trapped = tid && found = address
  | _ => false

/-- The first thread is stepped over the breakpoint, and then the second one runs into it. -/
theorem Prompt.none_run_past_pair :
    ∃ s, Prompt x86_64 pairMachine (State.initial 1 twoThreads) s ∧
      (1, 0x1000) ∈ s.executions ∧ s.log.any (Entry.isTrapped 2 0x1000) = true ∧
      Rearmed x86_64 0x1000 s ∧ NoneRunPast s.log := by
  obtain ⟨s, hs, hcheck⟩ := Prompt.exists_of_runBatch x86_64 pairMachine (State.initial 1 twoThreads)
    ["b *0x1000".toList, "c".toList]
    (p := fun s => decide ((1, 0x1000) ∈ s.executions) && s.log.any (Entry.isTrapped 2 0x1000) &&
      userEnabled 0x1000 s.log && orderlyAnywhere x86_64 s.log && s.log.all Entry.isUndisturbed)
    (by decide +kernel)
  simp only [Bool.and_eq_true, decide_eq_true_eq] at hcheck
  obtain ⟨⟨⟨⟨hexecuted, htrapped⟩, huser⟩, horderly⟩, hall⟩ := hcheck
  have hundisturbed : Undisturbed x86_64 Set.univ s.log := ⟨orderly_of_orderlyAnywhere horderly, hall⟩
  have hheeds : pairMachine.HeedsTraps x86_64 Set.univ := Machine.heedsTraps (nops_leavesText _)
  obtain ⟨hstands, hpast⟩ := Prompt.none_run_past hheeds (fun _ _ => rfl) hs []
  exact ⟨s, hs, hexecuted, htrapped, hstands hundisturbed 0x1000 huser, hpast hundisturbed⟩

/-! ### Hits of other threads -/

/-- A hit of the breakpoint at this address has been announced since the thread has got there. -/
def hitAnnounced (tid : Tid) (address : Address) : List Entry → Bool
  | [] => false
  | .target (.executed other _) :: older => other ≠ tid && hitAnnounced tid address older
  | .target (.exec other) :: older => other ≠ tid && hitAnnounced tid address older
  | .hit other _ found _ :: older =>
      (other = tid && found = address) || hitAnnounced tid address older
  | _ :: older => hitAnnounced tid address older

/-- Whoever executed the instruction at a breakpoint of the user was being stepped over it, or had
been announced there. -/
def noneMissed : List Entry → Bool
  | [] => true
  | .target (.executed tid address) :: older =>
      (!userEnabled address older || isSteppedOver tid address older ||
        hitAnnounced tid address older) && noneMissed older
  | _ :: older => noneMissed older

theorem NoneRunPast.noneMissed {log : List Entry} (hlog : NoneRunPast log) : noneMissed log = true := by
  induction log with
  | nil => rfl
  | cons entry older ih =>
      cases entry with
      | target event =>
          cases event with
          | executed tid address =>
              obtain ⟨hstepped, holder⟩ := hlog
              rw [Cosy.noneMissed, ih holder, Bool.and_true]
              cases huser : userEnabled address older with
              | false => rfl
              | true => simp [hstepped huser]
          | _ => exact ih hlog
      | _ => exact ih hlog

end Cosy
