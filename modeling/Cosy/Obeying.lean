import Cosy.Following
import Cosy.Responding

/-!
# A session obeys

Whole sessions of a process with one thread, from the `exec` on, are compared with runs of the
controller. Where the session comes back to its prompt it has done what the controller may do, and
where there is something the controller may do the session comes back and has done it, provided that
the thread is let run far enough.
-/

namespace Cosy

open ByteMemory Effect Refinement

variable {R D : Type} {arch : Architecture R D} {env : Environment R D} {command line : Text}
  {arguments : List Text} {order : Directive Address}

/-! ### What a command does -/

/-- The function that a command comes to, if it asks for this. -/
def carriesOut (arch : Architecture R D) (env : Environment R D) :
    Directive Address → Dbg R D Unit → Prop
  | .mark place, m => ∃ argument, parseAddress argument = some place ∧
      m = setBreakpoint arch env ('*' :: argument)
  | .remove id, m => m = removeBreakpoint env id
  | .switch id true, m => m = do
      let found ← enableById arch env id
      reportUnknown found
  | .switch id false, m => m = do
      let found ← disableById env id
      reportUnknown found
  | .goOn, m => m = continueExecution arch env
  | .step, m => m = instructionStep arch env true
  | .look, _ => True

theorem carriesOut_withNumber {ask : Address → Directive Address} {usage : String}
    {body : Address → Dbg R D Unit} (hask : numbered arguments ask = some order)
    (hbody : ∀ value, carriesOut arch env (ask value) (body value)) :
    carriesOut arch env order (withNumber arguments usage body) := by
  unfold numbered at hask
  split at hask
  · rename_i argument
    cases hvalue : parseAddress argument with
    | none =>
        rw [hvalue] at hask
        cases hask
        trivial
    | some value =>
        rw [hvalue] at hask
        cases hask
        simp only [withNumber, hvalue]
        exact hbody value
  · cases hask
    trivial

theorem carriesOut_look (hask : some .look = some order) (m : Dbg R D Unit) :
    carriesOut arch env order m := by
  cases hask
  trivial

theorem runCommand_carriesOut (hask : directive command arguments = some order) :
    carriesOut arch env order (runCommand arch env command arguments) := by
  -- The two definitions make the same distinctions, one after the other.
  have hite : ∀ {c : Prop} [Decidable c] {asked asked' : Option (Directive Address)}
      {m m' : Dbg R D Unit}, (if c then asked else asked') = some order →
        (asked = some order → carriesOut arch env order m) →
        (asked' = some order → carriesOut arch env order m') →
          carriesOut arch env order (if c then m else m') := by
    intro c _ asked asked' m m' hasked hm hm'
    split at hasked
    · exact (if_pos ‹c›).symm ▸ hm hasked
    · exact (if_neg ‹¬c›).symm ▸ hm' hasked
  have hnone : ∀ {m : Dbg R D Unit}, none = some order → carriesOut arch env order m :=
    fun hasked => by cases hasked
  unfold directive at hask
  unfold runCommand
  refine hite hask (carriesOut_look · _) fun hask => ?_
  refine hite hask (fun hask => ?_) fun hask => ?_
  · cases hask
    rfl
  refine hite hask (fun hask => ?_) fun hask => ?_
  · cases hask
    rfl
  refine hite hask hnone fun hask => ?_
  refine hite hask hnone fun hask => ?_
  refine hite hask (fun hask => ?_) fun hask => ?_
  · split at hask
    · obtain ⟨place, hplace, rfl⟩ := Option.map_eq_some_iff.mp hask
      exact ⟨_, hplace, rfl⟩
    · exact hnone hask
    · exact carriesOut_look hask _
  refine hite hask (carriesOut_withNumber · fun _ => rfl) fun hask => ?_
  refine hite hask (carriesOut_withNumber · fun _ => rfl) fun hask => ?_
  refine hite hask (carriesOut_withNumber · fun _ => rfl) fun hask => ?_
  refine hite hask hnone fun hask => ?_
  refine hite hask (carriesOut_look · _) fun hask => ?_
  refine hite hask (carriesOut_look · _) fun hask => ?_
  refine hite hask (carriesOut_look · _) fun hask => ?_
  refine hite hask (carriesOut_look · _) fun hask => ?_
  refine hite hask hnone fun hask => ?_
  refine hite hask (fun hask => ?_) fun hask => ?_
  · split at hask
    · exact hnone hask
    · exact carriesOut_look hask _
  exact hite hask hnone fun hask => carriesOut_look hask _

/-! ### What looks returns -/

theorem resumes_of_look (hask : directive command arguments = some .look) :
    resumes command = false := by
  rw [Bool.eq_false_iff]
  intro hresumes
  unfold directive at hask
  have hhelp : ¬ isAlias command ["help".toList, "h".toList] = true := by
    intro hhelp
    have hmem : command ∈ ["help".toList, "h".toList] := List.contains_iff_mem.mp hhelp
    simp only [List.mem_cons, List.not_mem_nil, or_false] at hmem
    rcases hmem with rfl | rfl <;> revert hresumes <;> decide
  rw [if_neg hhelp] at hask
  have hite : ∀ {c : Prop} [Decidable c] {asked asked' : Option (Directive Address)},
      (if c then asked else asked') = some .look → asked ≠ some .look → ¬c ∧ asked' = some .look := by
    intro c _ asked asked' hasked hother
    split at hasked
    · exact absurd hasked hother
    · exact ⟨‹¬c›, hasked⟩
  obtain ⟨hcontinue, hask⟩ := hite hask (by simp)
  obtain ⟨hstepi, hask⟩ := hite hask (by simp)
  obtain ⟨hstep, hask⟩ := hite hask (by simp)
  obtain ⟨hfinish, -⟩ := hite hask (by simp)
  rcases resumes_iff.mp hresumes with hgo | hgo | hgo | hgo
  · exact hcontinue hgo
  · exact hstepi hgo
  · exact hstep hgo
  · exact hfinish hgo

/-! ### What a line asks for -/

/-- What a line asks a controller for, if controllers know it. An empty line asks for nothing. -/
def asks (line : Text) : Option (Directive Address) :=
  match words line with
  | [] => some .look
  | command :: rest => if isQuit command then none else directive command (command :: rest)

/-- What a line may make of a controller. -/
def LineAllows (path : Nat → Address) (line : Text) (c c' : Controller Address) : Prop :=
  ∃ order, asks line = some order ∧ Controller.Allows path order c c'

/-- The line asks for something, and if it asks for a place to be marked, that is one of these. -/
def AsksWithin (spots : Set Address) (line : Text) : Prop :=
  ∃ order, asks line = some order ∧ ∀ place, order = .mark place → place ∈ spots

section Session

variable {machine : Machine R D} {tid : Tid} {regs : R} {memory : Memory} {text spots : Set Address}
  {fetched : Nat → Set Address} {c c' : Controller Address} {s t : State R D}

theorem Tracks.sole (hs : Tracks arch machine tid regs memory c s) :
    ∃ executed task d m, Rests arch machine tid regs memory c task d m ∧
      executed.length = c.position ∧
        Sole machine tid (fun _ => True) executed c.hits task d m s := by
  obtain ⟨task, hrests, hsole⟩ := hs.stands.sole
  rw [hs.hits] at hsole
  exact ⟨_, task, _, _, ⟨hrests, hs.records⟩, hs.executed, hsole⟩

/-- Looking at the target moves nothing the controller knows of. -/
theorem displays_tracks (hmachine : machine.RunsOnly tid fun _ => True) :
    Displays (machine.environment arch) (Keeps (Tracks arch machine tid regs memory c)) where
  peek {_ operation tid' look} := by
    intro s hs
    obtain ⟨executed, task, d, m, hrests, hlength, hsole⟩ := hs.sole
    have hentered := (hsole.enter arch hmachine hrests.1.stopped).tracks hrests hlength
    rcases ptrace_cases (machine.environment arch) operation tid'
        (fun task target => (look task target, target)) s with ⟨task, -, -, -, hrun⟩ | ⟨-, hrun⟩
    · rw [endState_of_ok hrun]
      exact hentered
    · rw [endState_of_error hrun]
      exact hentered
  display {message} hmessage := Within.modify fun s hs => by
    obtain ⟨executed, task, d, m, hrests, hlength, hsole⟩ := hs.sole
    have haside : (Entry.out message).isAside = true := by
      rw [Entry.isAside, hmessage]
      rfl
    exact (hsole.logged haside).tracks hrests hlength

theorem within_selectedFrame (frame : Nat) :
    Within (Keeps (Tracks arch machine tid regs memory c))
      (modifyDebugger (R := R) (D := D) fun d => { d with selectedFrame := frame }) :=
  Within.modify fun s hs => by
    obtain ⟨executed, task, d, m, hrests, hlength, hsole⟩ := hs.sole
    refine (hsole.change fun d => { d with selectedFrame := frame }).tracks ⟨?_, ?_⟩ hlength
    · exact ⟨hrests.1.registers, hrests.1.stopped, hrests.1.overlaid,
        hrests.1.standing.of_eq rfl rfl rfl rfl⟩
    · exact hrests.2.congr rfl rfl rfl rfl

variable (hone : arch.breakpointSize = 1) (hpc : arch.LawfulPc)
  (hmachine : machine.RunsOnly tid fun _ => True)
  (hp : machine.program.Breakable arch regs memory spots text fetched)
  (hc : c.Formed spots)

include hone hpc hmachine hp hc

/-- A command does what it asks for. It fails only where it just looks, and does not come back only
where the thread is to go on and is not let run as far as to the next mark. -/
theorem tracks_runCommand (hask : directive command arguments = some order) :
    Triple (Tracks arch machine tid regs memory c)
      (runCommand arch (machine.environment arch) command arguments)
      (fun _ t => ∃ c', Controller.Allows (machine.program.path arch regs memory) order c c' ∧
        Tracks arch machine tid regs memory c' t)
      (fun halt t => order = .look ∧ halt ≠ .blocked ∧ Tracks arch machine tid regs memory c t ∨
        order = .goOn ∧ halt = .blocked ∧ ∃ tick, ∀ n, c.position < n →
          n < machine.instructions tick →
            c.armed (machine.program.path arch regs memory n) = false) := by
  have hdone : carriesOut arch (machine.environment arch) order
      (runCommand arch (machine.environment arch) command arguments) :=
    runCommand_carriesOut hask
  cases order with
  | mark place =>
      obtain ⟨argument, hargument, hrun⟩ := hdone
      rw [hrun]
      exact ((tracks_setBreakpoint hone hmachine hargument).post fun _ t ht => ⟨_, rfl, ht⟩).never
  | remove id =>
      rw [show runCommand arch (machine.environment arch) command arguments = _ from hdone]
      exact ((tracks_removeBreakpoint hone hmachine hc.unique).post
        fun _ t ht => ⟨_, rfl, ht⟩).never
  | switch id on =>
      cases on with
      | true =>
          rw [show runCommand arch (machine.environment arch) command arguments = _ from hdone]
          exact ((tracks_enable hone hmachine hc.unique).post fun _ t ht => ⟨_, rfl, ht⟩).never
      | false =>
          rw [show runCommand arch (machine.environment arch) command arguments = _ from hdone]
          exact ((tracks_disable hone hmachine hc.unique).post fun _ t ht => ⟨_, rfl, ht⟩).never
  | goOn =>
      rw [show runCommand arch (machine.environment arch) command arguments = _ from hdone]
      exact (tracks_continueExecution hone hpc hmachine hp hc.placed).conseq (fun _ hs => hs)
        (fun _ _ ht => ht) fun halt t ht => Or.inr ⟨rfl, ht⟩
  | step =>
      rw [show runCommand arch (machine.environment arch) command arguments = _ from hdone]
      exact ((tracks_instructionStep hone hpc hmachine hp hc.placed).post
        fun _ t ht => ⟨_, rfl, ht⟩).never
  | look =>
      have hkeeps : Within (Keeps (Tracks arch machine tid regs memory c))
          (runCommand arch (machine.environment arch) command arguments) :=
        (displays_tracks hmachine).runCommand within_selectedFrame hask
      have hreturns : NeverBlocks (runCommand arch (machine.environment arch) command arguments) :=
        neverBlocks_answers.runCommand (resumes_of_look hask)
      intro s hs
      cases hrun : runCommand arch (machine.environment arch) command arguments s with
      | ok a t => exact ⟨c, rfl, hkeeps.of_ok hrun hs⟩
      | error halt t =>
          refine Or.inl ⟨rfl, ?_, hkeeps.of_error hrun hs⟩
          rintro rfl
          exact hreturns s t hrun

/-- So it is with the line. -/
theorem dispatch_tracks (hask : asks line = some order)
    (hs : Tracks arch machine tid regs memory c s) :
    (∃ t c', dispatch arch (machine.environment arch) line s = .ok true t ∧
      Controller.Allows (machine.program.path arch regs memory) order c c' ∧
      Tracks arch machine tid regs memory c' t) ∨
    (order = .goOn ∧ (∃ t, dispatch arch (machine.environment arch) line s = .error .blocked t) ∧
      ∃ tick, ∀ n, c.position < n → n < machine.instructions tick →
        c.armed (machine.program.path arch regs memory n) = false) := by
  unfold asks at hask
  unfold dispatch
  cases hwords : words line with
  | nil =>
      rw [hwords] at hask
      obtain rfl := Option.some.inj hask
      exact Or.inl ⟨s, c, rfl, rfl, hs⟩
  | cons command rest =>
      rw [hwords] at hask
      dsimp only at hask ⊢
      split at hask
      · cases hask
      rename_i hquit
      rw [if_neg hquit]
      have hspec := tracks_runCommand hone hpc hmachine hp hc hask s hs
      cases hrun : runCommand arch (machine.environment arch) command (command :: rest) s with
      | ok a t =>
          rw [hrun] at hspec
          obtain ⟨c', hallowed, ht⟩ := hspec
          exact Or.inl ⟨t, c', bind_ok (attempt_of_ok hrun), hallowed, ht⟩
      | error halt t =>
          rw [hrun] at hspec
          rcases hspec with ⟨rfl, hreturns, ht⟩ | ⟨rfl, rfl, hclear⟩
          · -- The error is shown, which is no hit.
            cases halt with
            | blocked => exact absurd rfl hreturns
            | thrown exception =>
                have hshow : Within (Keeps (Tracks arch machine tid regs memory c))
                    (print (R := R) (D := D) (.error exception)) :=
                  (displays_tracks hmachine).display rfl
                exact Or.inl ⟨_, c, bind_ok (attempt_of_thrown hrun), rfl, hshow t ht⟩
          · exact Or.inr ⟨rfl, ⟨t, bind_error (attempt_of_blocked hrun)⟩, hclear⟩

/-- Where the thread may go on to a mark and is let run as far, it does. -/
theorem dispatch_tracks_allowed (hask : asks line = some order)
    (hs : Tracks arch machine tid regs memory c s)
    (hallowed : Controller.Allows (machine.program.path arch regs memory) order c c')
    (hfar : ∀ tick, c'.position < machine.instructions tick) :
    ∃ t, dispatch arch (machine.environment arch) line s = .ok true t ∧
      Tracks arch machine tid regs memory c' t := by
  rcases dispatch_tracks hone hpc hmachine hp hc hask hs with
    ⟨t, c'', hrun, hallowed', ht⟩ | ⟨rfl, -, tick, hclear⟩
  · rw [hallowed.unique hallowed']
    exact ⟨t, hrun, ht⟩
  · obtain ⟨n, mark, hlater, -, hmark, hon, rfl⟩ := hallowed
    have harmed := hclear n hlater (hfar tick)
    rw [Controller.armed, hmark, Option.any_some, hon] at harmed
    cases harmed

omit hc

/-! ### All lines -/

/-- The prompt a line leads to, if it leads to one. -/
def promptAfter (arch : Architecture R D) (env : Environment R D) (line : Text) (s : State R D) :
    Option (State R D) :=
  match dispatch arch env line s with
  | .ok true t => some t
  | _ => none

omit hone hpc hmachine hp in
theorem commandLoop_eq_feed (s : State R D) (lines : List Text) :
    commandLoop arch env s lines = feed (promptAfter arch env) s lines := by
  induction lines generalizing s with
  | nil => rfl
  | cons line rest ih =>
      rw [commandLoop, feed, promptAfter]
      cases dispatch arch env line s with
      | ok goesOn t =>
          cases goesOn with
          | true => exact ih t
          | false => rfl
      | error halt t => rfl

/-! ### The beginning -/

/-- The process has one thread, with these registers and this memory, which has just stopped after its
`exec`; the memory maps can be read. -/
structure Target.Launched (target : Target R D) (tid : Tid) (regs : R) (memory : Memory) : Prop where
  tasks : ∃ task, target.tasks = SortedMap.empty.insert tid task ∧ task.regs = regs ∧
    task.stopped = true
  memory : target.memory = memory
  ready : target.ready = [(tid, .stopped sigtrap 0)]
  maps : target.maps.isSome = true

section Opening

variable {task : Task R D} {d : Debugger} {m : Memory} {executed : List (Tid × Address)}
  {hits : List (Int × Address)}

omit hone hpc hp

/-- Where there is no record, `print_stop` leaves everything as it is. -/
theorem sole_missPrinted (hstopped : task.stopped = true) (hsignal : d.stopSignal tid = some sigtrap)
    (hnone : d.breakpoints.find? (arch.candidate (arch.pc task.regs)) = none) :
    Triple (Sole machine tid (fun _ => True) executed hits task d m)
      (printStop arch (machine.environment arch) tid)
      (fun _ => Sole machine tid (fun _ => True) executed hits task d m) (fun _ _ => False) := by
  have htrap : Triple (Sole machine tid (fun _ => True) executed hits task d m)
      (inspectTrap arch (machine.environment arch) tid)
      (fun _ => Sole machine tid (fun _ => True) executed hits task d m) (fun _ _ => False) := by
    refine Triple.bind (sole_pc hmachine hstopped) fun value => ?_
    rintro s ⟨rfl, hs⟩
    have hinspect : inspectBreakpoint arch (machine.environment arch) tid
        (arch.candidate (arch.pc task.regs)) s = .ok ⟨⟩ s := by
      rw [inspectBreakpoint, get_bind_apply, hs.debugger, hnone]
      rfl
    rw [bind_ok hinspect, get_bind_apply]
    exact sole_inspectWatchpoints hmachine hstopped _ s hs
  intro s hs
  rw [printStop, get_bind_apply, hs.debugger, hsignal]
  dsimp only [printStopped]
  rw [if_pos rfl]
  refine Triple.bind (Triple.rescue (F := fun _ _ => False) htrap
    (fun _ _ _ _ hfalse => hfalse.elim) fun _ _ _ hfalse => hfalse) (fun _ => ?_) s hs
  exact sole_printLocation hmachine hstopped

theorem sole_setOptions (hstopped : task.stopped = true) :
    Triple (Sole machine tid (fun _ => True) executed hits task d m)
      (setOptions (machine.environment arch) tid)
      (fun _ => Sole machine tid (fun _ => True) executed hits { task with options := true } d m)
      (fun _ _ => False) := by
  intro s hs
  rw [setOptions, hs.ptrace hmachine hstopped]
  exact hs.setTask hmachine hstopped _

variable (arch) in
/-- The wait for the process consumes the event of its `exec`. -/
theorem Target.Launched.waitFor {target : Target R D}
    (htarget : target.Launched tid regs memory) :
    ∃ task s, task.regs = regs ∧ task.stopped = true ∧
      Cosy.waitFor (machine.environment arch) tid (State.initial tid target)
        = .ok (.stopped sigtrap 0) s ∧
      Sole machine tid (fun _ => True) [] [] task (.fresh tid) memory s := by
  obtain ⟨task, htasks, hregs, hstopped⟩ := htarget.tasks
  obtain ⟨modules, hmaps⟩ := Option.isSome_iff_exists.mp htarget.maps
  have hinterfere : ∀ target' : Target R D, target'.tasks = SortedMap.empty.insert tid task →
      (machine.environment arch).interfere 0 target'
        = ([], { target' with maps := mapsAfter target'.maps (machine.schedule 0) }) :=
    fun target' => performAll_stopped arch machine.program (hmachine.only 0) hstopped target'
  -- But for the event, the only thread is all there is to know from the start.
  have hsole : Sole machine tid (fun _ => True) [] [] task (.fresh tid) memory
      ((machine.environment arch).enter (State.initial tid { target with ready := [] })) := by
    have hstart : Sole machine tid (fun _ => True) [] [] task (.fresh tid) memory
        (State.initial tid { target with ready := [] }) :=
      ⟨htasks, rfl, htarget.memory, rfl,
        mapsAfter_some (hmachine.only 0) ⟨modules, trivial, hmaps⟩, rfl, rfl⟩
    exact hstart.enter arch hmachine hstopped
  refine ⟨task, _, hregs, hstopped, ?_, hsole⟩
  simp only [Cosy.waitFor, Environment.enter, State.initial, hinterfere _ htasks,
    hinterfere { target with ready := [] } htasks, htarget.ready]
  simp

variable (arch) in
/-- The session opens with nothing marked. -/
theorem Target.Launched.openSession {target : Target R D}
    (htarget : target.Launched tid regs memory) :
    ∃ s, Cosy.openSession arch (machine.environment arch) (State.initial tid target) = .ok ⟨⟩ s ∧
      Tracks arch machine tid regs memory (Controller.fresh Address) s := by
  obtain ⟨task, s, hregs, hstopped, hwait, hs⟩ := htarget.waitFor arch hmachine
  have hlaunch : Triple (Sole machine tid (fun _ => True) [] [] task (.fresh tid) memory)
      (do
        modifyDebugger fun d =>
          { d with
            threads := d.threads.emplace tid ⟨tid, true, sigtrap⟩
            selectedTid := tid }
        setOptions (machine.environment arch) tid
        refreshModules (machine.environment arch)
        resolvePendingBreakpoints arch (machine.environment arch))
      (fun _ t => ∃ modules, Sole machine tid (fun _ => True) [] [] { task with options := true }
        { (Debugger.fresh tid).recording tid with modules := modules } memory t)
      (fun _ _ => False) := by
    have hrecord : Triple (Sole machine tid (fun _ => True) [] [] task (.fresh tid) memory)
        (modifyDebugger (R := R) (D := D) fun d =>
          { d with
            threads := d.threads.emplace tid ⟨tid, true, sigtrap⟩
            selectedTid := tid })
        (fun _ => Sole machine tid (fun _ => True) [] [] task ((Debugger.fresh tid).recording tid)
          memory) (fun _ _ => False) := Triple.modify fun t ht => ht.change fun d =>
            { d with
              threads := d.threads.emplace tid ⟨tid, true, sigtrap⟩
              selectedTid := tid }
    refine Triple.bind hrecord fun _ => ?_
    refine Triple.bind (sole_setOptions hmachine hstopped) fun _ => ?_
    refine Triple.bind (sole_refreshModules hmachine hstopped) fun _ => ?_
    rintro t ⟨modules, -, ht⟩
    rw [resolvePendingBreakpoints, get_bind_apply, ht.debugger]
    exact ⟨modules, ht⟩
  obtain ⟨_, t, hrun, modules, ht⟩ := hlaunch.exists_ok hs
  have hlaunched : launch arch (machine.environment arch) (State.initial tid target) = .ok ⟨⟩ t := by
    rw [launch, get_bind_apply]
    exact (bind_ok hwait).trans hrun
  -- The thread is at no breakpoint.
  have hshow : Triple (Sole machine tid (fun _ => True) [] [] { task with options := true }
        { (Debugger.fresh tid).recording tid with modules := modules } memory)
      (do
        let s ← get
        print (.banner arch.name s.debugger.child)
        printStop arch (machine.environment arch) s.debugger.selectedTid)
      (fun _ => Sole machine tid (fun _ => True) [] [] { task with options := true }
        { (Debugger.fresh tid).recording tid with modules := modules } memory)
      (fun _ _ => False) := by
    intro u hu
    rw [get_bind_apply, hu.debugger]
    refine Triple.bind (sole_note rfl) (fun _ => ?_) u hu
    exact sole_missPrinted hmachine (by exact hstopped)
      (Debugger.stopSignal_recording _ modules rfl) rfl
  obtain ⟨_, u, hrun', hu⟩ := hshow.exists_ok ht
  have hempty : ∀ key r, (SortedMap.empty : SortedMap Address Breakpoint).find? key ≠ some r :=
    fun _ _ hr => by cases hr
  refine ⟨u, (bind_ok hlaunched).trans hrun',
    hu.tracks (c := Controller.fresh Address) ⟨⟨hregs, hstopped, ?_, ?_⟩, ?_⟩ rfl⟩
  · exact ⟨fun key r hr => absurd hr (hempty key r), fun key r hr => absurd hr (hempty key r),
      fun _ _ => rfl⟩
  · exact ⟨rfl, rfl, ⟨sigtrap, rfl⟩, rfl, rfl⟩
  · exact ⟨wellFormed_empty, fun key r hr => absurd hr (hempty key r), fun _ => rfl, rfl⟩

end Opening

/-! ### Sessions -/

omit hone hpc hmachine hp

theorem lineAllows_unique {path : Nat → Address} {c'' : Controller Address}
    (hallowed : LineAllows path line c c') (hallowed' : LineAllows path line c c'') : c' = c'' := by
  obtain ⟨order, hask, hallowed⟩ := hallowed
  obtain ⟨order', hask', hallowed'⟩ := hallowed'
  obtain rfl := Option.some.inj (hask.symm.trans hask')
  exact hallowed.unique hallowed'

theorem Obeys.position_le {path : Nat → Address} {lines : List Text}
    (hrun : Obeys (LineAllows path) c lines c') : c.position ≤ c'.position := by
  refine hrun.preserve (I := fun other => c.position ≤ other.position) (fun line _ a b hallowed ha => ?_)
    (le_refl _)
  obtain ⟨order, -, hallowed⟩ := hallowed
  exact ha.trans hallowed.position_le

/-- A run that does not get so far in the end has not got so far before. -/
theorem Obeys.bounded {path : Nat → Address} {lines : List Text} {bound : Nat → Nat}
    (hrun : Obeys (LineAllows path) c lines c') (hfar : ∀ tick, c'.position < bound tick) :
    Obeys (fun line a b => LineAllows path line a b ∧ ∀ tick, b.position < bound tick) c lines c' := by
  induction hrun with
  | nil => exact .nil _
  | cons hfirst hrest ih =>
      have hle := Obeys.position_le hrest
      exact .cons ⟨hfirst, fun tick => hle.trans_lt (hfar tick)⟩ (ih hfar)

include hone hpc hmachine hp

variable {target : Target R D} {lines : List Text}

/-- A session does what a controller may do. -/
theorem Target.Launched.sound (htarget : target.Launched tid regs memory)
    (hlines : ∀ line ∈ lines, AsksWithin spots line)
    (hrun : runBatch arch (machine.environment arch) (State.initial tid target) lines = some t) :
    ∃ c, Obeys (LineAllows (machine.program.path arch regs memory)) (.fresh Address) lines c ∧
      Tracks arch machine tid regs memory c t := by
  have hstep : ∀ line c s t, AsksWithin spots line →
      c.Formed spots ∧ Tracks arch machine tid regs memory c s →
      promptAfter arch (machine.environment arch) line s = some t →
        ∃ c', LineAllows (machine.program.path arch regs memory) line c c' ∧
          c'.Formed spots ∧ Tracks arch machine tid regs memory c' t := by
    rintro line c s t hline ⟨hc, hs⟩ hnext
    obtain ⟨order, hask, hplaces⟩ := hline
    rcases dispatch_tracks hone hpc hmachine hp hc hask hs with
      ⟨u, c', hrun, hallowed, hu⟩ | ⟨-, ⟨u, hrun⟩, -⟩
    · rw [promptAfter, hrun] at hnext
      obtain rfl := Option.some.inj hnext
      exact ⟨c', ⟨order, hask, hallowed⟩, hallowed.formed hplaces hc, hu⟩
    · rw [promptAfter, hrun] at hnext
      cases hnext
  obtain ⟨s, hopen, hs⟩ := htarget.openSession arch hmachine
  have hfeed : feed (promptAfter arch (machine.environment arch)) s lines = some t := by
    rw [runBatch, hopen] at hrun
    exact (commandLoop_eq_feed s lines).symm.trans hrun
  obtain ⟨c, hobeys, -, ht⟩ := feed_sound hstep hlines ⟨Controller.Formed.fresh, hs⟩ hfeed
  exact ⟨c, hobeys, ht⟩

/-- What a controller may do, a session does. -/
theorem Target.Launched.complete (htarget : target.Launched tid regs memory)
    (hlines : ∀ line ∈ lines, AsksWithin spots line)
    (hobeys : Obeys (LineAllows (machine.program.path arch regs memory)) (.fresh Address) lines c)
    (hfar : ∀ tick, c.position < machine.instructions tick) :
    ∃ t, runBatch arch (machine.environment arch) (State.initial tid target) lines = some t ∧
      Tracks arch machine tid regs memory c t := by
  have hstep : ∀ line c c' s, AsksWithin spots line →
      c.Formed spots ∧ Tracks arch machine tid regs memory c s →
      LineAllows (machine.program.path arch regs memory) line c c' ∧
        (∀ tick, c'.position < machine.instructions tick) →
        ∃ t, promptAfter arch (machine.environment arch) line s = some t ∧
          c'.Formed spots ∧ Tracks arch machine tid regs memory c' t := by
    rintro line c c' s hline ⟨hc, hs⟩ ⟨⟨order, hask, hallowed⟩, hfar⟩
    obtain ⟨order', hask', hplaces⟩ := hline
    obtain rfl := Option.some.inj (hask.symm.trans hask')
    obtain ⟨t, hrun, ht⟩ := dispatch_tracks_allowed hone hpc hmachine hp hc hask hs hallowed hfar
    refine ⟨t, ?_, hallowed.formed hplaces hc, ht⟩
    rw [promptAfter, hrun]
  obtain ⟨s, hopen, hs⟩ := htarget.openSession arch hmachine
  obtain ⟨t, hfeed, -, ht⟩ := feed_complete hstep hlines (Obeys.bounded hobeys hfar)
    ⟨Controller.Formed.fresh, hs⟩
  refine ⟨t, ?_, ht⟩
  rw [runBatch, hopen]
  exact (commandLoop_eq_feed s lines).trans hfeed

end Session

end Cosy
