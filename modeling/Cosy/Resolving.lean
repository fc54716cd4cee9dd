import Cosy.Attending
import Cosy.Numbers
import Cosy.Responding

/-!
# No breakpoint waits in vain

A breakpoint is pending because its specification stands for nothing in the modules that the debugger
knows. Whenever the debugger has looked for modules again it goes through these specifications, so at
a prompt none of them has come to stand for something; unless an error was in the way, which is
reported, and then it is so again after the next stop.
-/

namespace Cosy

open Effect

variable {R D α : Type} {arch : Architecture R D} {env : Environment R D} {d d' : Debugger}
  {s t : State R D}

/-- None of the pending specifications stands for anything in the modules the debugger knows. -/
def Debugger.Settled (d : Debugger) : Prop :=
  ∀ p ∈ d.pendingBreakpoints, resolveSpecification d.modules p.specification = []

/-- An error is reported that has ended a command. -/
def Entry.complains : Entry → Bool
  | .out (.error _) | .out (.cannotFinish _) => true
  | _ => false

/-- Whether an error has been reported since the last stop. -/
def upset : List Entry → Bool
  | [] => false
  | entry :: older => entry.complains || !entry.isAwaited && upset older

/-- Nothing is pending that need not be, or an error has been reported since the last stop. -/
def State.Composed (s : State R D) : Prop := s.debugger.Settled ∨ upset s.log = true

/-! ### What leaves it so -/

theorem Debugger.Settled.congr (hd : d.Settled)
    (hpending : d'.pendingBreakpoints = d.pendingBreakpoints) (hmodules : d'.modules = d.modules) :
    d'.Settled := by
  intro p hmem
  rw [hmodules]
  exact hd p (hpending ▸ hmem)

/-- The edits that neither defer a breakpoint nor show other modules. -/
def settling : List EditKind :=
  [.aside, .patch, .create false, .create true, .expire, .remove]

theorem Edit.settled {maps : Set ModuleManager} {ids : Set Int} {kind : EditKind}
    (hkind : kind ∈ settling) (hedit : Edit maps ids kind d d') (hd : d.Settled) : d'.Settled := by
  cases hedit with
  | aside _ hpending _ hmodules => exact hd.congr hpending hmodules
  | patch | create | expire | remove => exact hd
  | dismiss => exact fun p hmem => hd p (List.mem_of_mem_filter hmem)
  | _ => exact absurd hkind (by decide)

theorem Makes.settled {m : Dbg R D α} (hm : Makes env Set.univ Set.univ settling m) :
    Within (Keeps fun s : State R D => s.debugger.Settled) m := fun s hs =>
  (hm s).preserve (fun _ hkind _ _ hedit => hedit.settled hkind) (mapsOnly_univ _ _) hs

theorem upset_append {newer older : List Entry} (hnewer : ∀ entry ∈ newer, entry.isAwaited = false)
    (holder : upset older = true) : upset (newer ++ older) = true := by
  induction newer with
  | nil => exact holder
  | cons entry rest ih =>
      have hrest := ih fun other hmem => hnewer other (List.mem_cons_of_mem _ hmem)
      rw [List.cons_append, upset, hnewer entry List.mem_cons_self, hrest]
      simp

theorem Entry.isAwaited_of_isIdle {entry : Entry} (hidle : entry.isIdle = true) :
    entry.isAwaited = false := by
  cases entry <;> first | rfl | cases hidle

/-- Without a stop the last error remains the last. -/
theorem State.Composed.of_eq (hs : s.Composed) (hdebugger : s.debugger.Settled → t.debugger.Settled)
    (hlog : Appends (fun entry => entry.isAwaited = false) s t) : t.Composed := by
  rcases hs with hsettled | hupset
  · exact Or.inl (hdebugger hsettled)
  · obtain ⟨newer, hnewer, hawaited⟩ := hlog
    exact Or.inr (hnewer ▸ upset_append hawaited hupset)

theorem composed_of_settled {m : Dbg R D α}
    (hm : Within (Keeps fun s : State R D => s.debugger.Settled) m) (hrested : Within Rested m) :
    Within (Keeps State.Composed) m := fun s hs =>
  hs.of_eq (hm s) ((hrested s).log.mono fun _ => Entry.isAwaited_of_isIdle)

theorem Makes.composed {m : Dbg R D α} (hm : Makes env Set.univ Set.univ settling m)
    (hrested : Within Rested m) : Within (Keeps State.Composed) m :=
  composed_of_settled hm.settled hrested

theorem keeps_composed {m : Dbg R D α} (hm : Within (Keeps State.Composed) m) :
    Triple State.Composed m (fun _ => State.Composed) fun _ _ => True :=
  Triple.of_within hm (fun _ _ hst hs _ => hst hs) fun _ _ _ _ _ => trivial

/-! ### Parts of execution -/

theorem composed_enter (s : State R D) : Keeps State.Composed s (env.enter s) := fun hs => by
  refine hs.of_eq id ⟨_, enter_log env s, fun entry hmem => ?_⟩
  obtain ⟨event, -, rfl⟩ := List.mem_map.mp hmem
  rfl

theorem composed_ptrace (operation : String) (tid : Tid)
    (request : Task R D → Target R D → α × Target R D) :
    Within (Keeps State.Composed) (ptrace env operation tid request) := fun s => by
  rcases ptrace_cases env operation tid request s with ⟨task, -, -, -, hrun⟩ | ⟨-, hrun⟩
  · rw [WithinAt, endState_of_ok hrun]
    exact composed_enter s
  · rw [WithinAt, endState_of_error hrun]
    exact composed_enter s

theorem handlesWithin_composed : HandlesWithin arch env (Keeps (State.Composed (R := R) (D := D))) where
  peek {_ operation tid look} := composed_ptrace operation tid fun task target =>
    (look task target, target)
  resume tid request := (composed_ptrace _ _ _).bind fun _ => Within.modify fun s hs =>
    hs.of_eq id ⟨[_], rfl, by simp [Entry.isAwaited]⟩
  note entry hentry := Within.modify fun s hs => hs.of_eq id ⟨[entry], rfl, by simpa using hentry⟩
  wait := fun s => by
    rcases waitForEvent_cases env s with ⟨tid, status, rest, -, hrun⟩ | ⟨-, halt, hrun⟩
    · rw [WithinAt, endState_of_ok hrun]
      exact composed_enter s
    · rw [WithinAt, endState_of_error hrun]
      exact composed_enter s
  threads hchange := Within.modify fun s hs => by
    refine hs.of_eq (fun hsettled => ?_) ⟨[], rfl, by simp⟩
    exact hsettled.congr (hchange _).pendingBreakpoints (hchange _).modules
  enable key := (makes_enable (by decide) key).composed (rested_manages.enable key)
  disable key := by
    have hmanages : ManagesWithin arch env (Rested (R := R) (D := D)) := rested_manages
    exact (makes_disable (by decide) key).composed (hmanages.disable key)
  printStop tid := (makes_printStop (by decide) (by decide) tid).composed
    (rested_manages.tends.printStop tid)

/-! ### Looking for modules -/

theorem triple_true {P : State R D → Prop} (m : Dbg R D α) :
    Triple P m (fun _ _ => True) fun _ _ => True := fun s _ => by
  cases m s <;> trivial

/-- What the loop has passed stands for nothing, and what is left of the list it still has to see. -/
theorem resolvePendingFrom_settles (modules : ModuleManager) (pending : List Breakpoint) :
    ∀ kept, Triple
      (fun s => s.debugger.pendingBreakpoints = kept ++ pending ∧ s.debugger.modules = modules ∧
        ∀ p ∈ kept, resolveSpecification modules p.specification = [])
      (resolvePendingFrom arch env kept pending) (fun _ s => s.debugger.Settled)
      (fun _ _ => True) := by
  induction pending with
  | nil =>
      rintro kept s ⟨hpending, hmodules, hkept⟩
      intro p hmem
      rw [hpending, List.append_nil] at hmem
      rw [hmodules]
      exact hkept p hmem
  | cons p rest ih =>
      rintro kept s ⟨hpending, hmodules, hkept⟩
      rw [resolvePendingFrom, get_bind_apply, hmodules]
      cases hresolved : resolveSpecification modules p.specification with
      | nil =>
          refine ih (kept ++ [p]) s ⟨?_, hmodules, fun q hmem => ?_⟩
          · rw [hpending, List.append_assoc, List.singleton_append]
          · rcases List.mem_append.mp hmem with hmem | hmem
            · exact hkept q hmem
            · obtain rfl := List.mem_singleton.mp hmem
              exact hresolved
      | cons address addresses =>
          -- Creating records leaves the modules as they are.
          have hcreated : Makes env Set.univ ∅ [.patch, .create false]
              (announceResolved arch env p.specification (address :: addresses)) :=
            makes_announceResolved (by decide) (by decide) _ _
          have hsame : Triple (fun u => u = s)
              (announceResolved arch env p.specification (address :: addresses))
              (fun _ u => u.debugger.modules = modules) (fun _ _ => True) := by
            refine Triple.of_within hcreated (fun t u htu ht _ => ?_) fun _ _ _ _ _ => trivial
            refine htu.preserve (I := fun d => d.modules = modules) (fun kind hkind _ _ hedit hd => ?_)
              (mapsOnly_univ _ _) (ht ▸ hmodules)
            exact (hedit.samePending (List.mem_of_mem_take (i := 2) hkind)).2.trans hd
          refine Triple.bind hsame (fun _ => Triple.bind (Triple.modify fun u hu => ?_)
            fun _ => ih kept) s rfl
          exact ⟨rfl, hu, hkept⟩

/-- Whatever was the matter before, it is not after the modules have been looked for. -/
theorem refreshTarget_settles :
    Triple (fun _ => True) (refreshTarget arch env) (fun _ s => s.debugger.Settled)
      (fun _ _ => True) := by
  refine Triple.bind (triple_true _) fun _ => Triple.get_bind fun s => ?_
  refine (resolvePendingFrom_settles s.debugger.modules _ []).pre fun t ht => ?_
  rw [ht.1]
  exact ⟨rfl, rfl, by simp⟩

theorem handleStop_settles (tid : Tid) (signal event : Nat) :
    Triple (fun _ => True) (handleStop arch env tid signal event) (fun _ s => s.debugger.Settled)
      (fun _ _ => True) := by
  refine Triple.bind (triple_true _) fun _ => Triple.bind (triple_true _) fun _ => ?_
  exact Triple.bind (triple_true _) fun _ => Triple.bind (triple_true _) fun _ =>
    refreshTarget_settles

/-! ### Execution -/

section Execution

variable (arch env)

theorem waitAndReport_composed (report : Bool) :
    Triple State.Composed (waitAndReport arch env report) (fun _ => State.Composed)
      (fun _ _ => True) := by
  have hhandles : HandlesWithin arch env (Keeps (State.Composed (R := R) (D := D))) :=
    handlesWithin_composed
  refine Triple.bind (keeps_composed hhandles.wait) ?_
  rintro ⟨tid, status⟩
  have hselect : Within (Keeps State.Composed)
      (modifyDebugger (R := R) (D := D) fun d => { d with selectedTid := tid }) :=
    hhandles.threads fun _ => ⟨rfl, rfl, rfl, rfl, rfl, rfl, rfl, rfl⟩
  -- An event that is no stop leaves it as it is, a stop settles it.
  have hother : ∀ message, (∀ tid pc, Entry.isAwaited (.consumed .waitAndReport tid status pc) = false) →
      Triple State.Composed (do
        noteConsumed arch .waitAndReport tid status
        modifyDebugger fun d => { d with selectedTid := tid }
        handleEnd tid
        doIf report (print message)) (fun _ => State.Composed) (fun _ _ => True) := by
    intro message hnone
    have hnote : Within (Keeps State.Composed)
        (noteConsumed (R := R) (D := D) arch .waitAndReport tid status) :=
      .get_bind fun s => hhandles.note _ (hnone _ _) s
    have hend : Within (Keeps State.Composed) (handleEnd (R := R) (D := D) tid) :=
      Within.modify fun s hs => hs.of_eq id (.of_eq rfl)
    exact keeps_composed (hnote.bind fun _ => hselect.bind fun _ =>
      hhandles.announceEnd hend report message)
  cases status with
  | exited code => exact hother _ fun _ _ => rfl
  | signaled signal => exact hother _ fun _ _ => rfl
  | continued =>
      have hnote : Within (Keeps State.Composed)
          (noteConsumed (R := R) (D := D) arch .waitAndReport tid .continued) :=
        .get_bind fun s => hhandles.note _ rfl s
      exact keeps_composed (hnote.bind fun _ => hselect.bind fun _ => .pure _)
  | stopped signal event =>
      have hstop : Triple (fun _ => True) (handleStop arch env tid signal event)
          (fun _ => State.Composed) (fun _ _ => True) :=
        (handleStop_settles tid signal event).post fun _ _ hs => Or.inl hs
      refine Triple.bind (triple_true _) fun _ => Triple.bind (triple_true _) fun _ => ?_
      exact Triple.bind hstop fun _ => keeps_composed (Within.doIf fun _ => hhandles.reportStop tid)

theorem continueExecution_composed :
    Triple State.Composed (continueExecution arch env) (fun _ => State.Composed) (fun _ _ => True) := by
  have hhandles : HandlesWithin arch env (Keeps (State.Composed (R := R) (D := D))) :=
    handlesWithin_composed
  refine Triple.get_bind fun s => (Triple.ite ?_ (keeps_composed (hhandles.note _ rfl))).pre
    fun _ ht => ht.2
  refine Triple.bind (keeps_composed hhandles.stepOverBreakpoint) fun _ => Triple.get_bind fun t => ?_
  exact Triple.bind ((keeps_composed (hhandles.resumeStopped _)).pre fun _ hu => hu.2) fun _ =>
    waitAndReport_composed arch env true

theorem instructionStep_composed (report : Bool) :
    Triple State.Composed (instructionStep arch env report) (fun _ => State.Composed)
      (fun _ _ => True) := by
  have hhandles : HandlesWithin arch env (Keeps (State.Composed (R := R) (D := D))) :=
    handlesWithin_composed
  refine Triple.get_bind fun s => (Triple.ite ?_ (keeps_composed (.pure _))).pre fun _ ht => ht.2
  refine Triple.bind (keeps_composed hhandles.stepOverBreakpoint) fun _ => Triple.get_bind fun t => ?_
  exact Triple.bind ((keeps_composed (hhandles.resumeThread _ _)).pre fun _ hu => hu.2) fun _ =>
    waitAndReport_composed arch env report

theorem sourceStepFrom_composed (before : SourceLocation) (count : Nat) :
    Triple State.Composed (sourceStepFrom arch env before count) (fun _ => State.Composed)
      (fun _ _ => True) := by
  have hhandles : HandlesWithin arch env (Keeps (State.Composed (R := R) (D := D))) :=
    handlesWithin_composed
  induction count with
  | zero => exact keeps_composed (hhandles.note _ rfl)
  | succ count ih =>
      refine Triple.bind (instructionStep_composed arch env false) fun _ => Triple.get_bind fun s => ?_
      refine (Triple.ite ?_ (keeps_composed (.pure _))).pre fun _ ht => ht.2
      refine Triple.bind (keeps_composed hhandles.selectedLocation) fun after => ?_
      exact Triple.ite ih (keeps_composed (.get_bind fun t => hhandles.reportStop _ t))

theorem sourceStep_composed :
    Triple State.Composed (sourceStep arch env) (fun _ => State.Composed) (fun _ _ => True) := by
  have hhandles : HandlesWithin arch env (Keeps (State.Composed (R := R) (D := D))) :=
    handlesWithin_composed
  refine Triple.bind (keeps_composed hhandles.selectedLocation) fun before => ?_
  exact Triple.ite (sourceStepFrom_composed arch env before _) (instructionStep_composed arch env true)

/-- Where `finish` fails it says so. -/
theorem stepOut_composed :
    Triple State.Composed (stepOut arch env) (fun _ => State.Composed) (fun _ _ => True) := by
  have hhandles : HandlesWithin arch env (Keeps (State.Composed (R := R) (D := D))) :=
    handlesWithin_composed
  have hmanages : ManagesWithin arch env (Rested (R := R) (D := D)) := rested_manages
  refine Triple.rescue (F := fun _ _ => True) (Triple.get_bind fun s => ?_)
    (fun _ _ _ => Triple.modify fun _ _ => Or.inr rfl) fun _ _ _ _ => trivial
  refine (Triple.bind (keeps_composed (hhandles.returnAddress _)) fun target => ?_).pre
    fun _ ht => ht.2
  have hcreate : Within (Keeps State.Composed)
      (createBreakpoint arch env target "<finish>".toList true) :=
    (makes_createBreakpoint (by decide) (by decide) _ _).composed
      (hmanages.tends.createBreakpoint _ _ true)
  refine Triple.bind (keeps_composed hcreate) fun id => ?_
  exact Triple.bind (keeps_composed (hhandles.note _ rfl)) fun _ => continueExecution_composed arch env

end Execution

/-! ### The other commands -/

theorem touches_settled :
    Touches arch env (Keeps fun s : State R D => s.debugger.Settled) where
  peek := Makes.settled (tolerates_edits.request fun _ _ => rfl)
  note _ := Within.modify fun _ hs => hs
  setRegs _ _ := Makes.settled (tolerates_edits.request fun _ _ => rfl)

/-- What is deferred stands for nothing at the moment. -/
theorem setBreakpoint_settled (specification : Text) :
    Within (Keeps fun s : State R D => s.debugger.Settled) (setBreakpoint arch env specification) := by
  refine .get_bind fun s hs => ?_
  cases hresolved : resolveSpecification s.debugger.modules specification with
  | nil =>
      intro p hmem
      rcases List.mem_append.mp hmem with hmem | hmem
      · exact hs p hmem
      · obtain rfl := List.mem_singleton.mp hmem
        exact hresolved
  | cons address addresses =>
      exact Makes.settled (makes_announceBreakpoints (by decide) (by decide) _ _) s hs

theorem settled_answers :
    Answers arch env (Within (Keeps fun s : State R D => s.debugger.Settled)) := by
  have htouches : Touches arch env (Keeps fun s : State R D => s.debugger.Settled) := touches_settled
  have haside : ∀ {change : Debugger → Debugger}, (∀ d,
      (change d).pendingBreakpoints = d.pendingBreakpoints ∧ (change d).modules = d.modules) →
      Within (Keeps fun s : State R D => s.debugger.Settled) (modifyDebugger change) :=
    fun hchange => Within.modify fun s hs => hs.congr (hchange _).1 (hchange _).2
  have hreport : ∀ {m : Dbg R D Bool}, Makes env Set.univ Set.univ settling m →
      Within (Keeps fun s : State R D => s.debugger.Settled) (do
        let found ← m
        reportUnknown found) := fun hm =>
    Within.bind hm.settled fun _ => Within.ite (fun _ => .pure _) fun _ => htouches.print _
  exact
  { print := htouches.print
    setBreakpoint := setBreakpoint_settled
    removeBreakpoint := fun _ =>
      Makes.settled (makes_removeBreakpoint (by decide) (by decide) (Set.mem_univ _))
    enableById := fun id => hreport (makes_enableById (by decide) id)
    disableById := fun id => hreport (makes_disableById (by decide) id)
    setWatchpoint := fun arguments => Makes.settled (makes_setWatchpoint (by decide) arguments)
    selectFrame := fun frame => Within.bind (haside fun _ => ⟨rfl, rfl⟩) fun _ =>
      htouches.printBacktrace
    printLocals := htouches.printLocals
    printMemory := htouches.printMemory
    writeMemory := fun arguments => by
      refine Within.ite (fun _ => htouches.print _) fun _ => ?_
      split
      · exact Within.bind (Makes.settled (tolerates_edits.pokeWord _ _)) fun _ =>
          Within.modify fun _ hs => hs
      · exact htouches.print _
    registerCommand := htouches.registerCommand
    selectThread := fun tid => by
      refine .get_bind fun s => ?_
      cases s.debugger.threads.find? tid with
      | none => exact htouches.print _ s
      | some state =>
          refine Within.ite (fun _ => ?_) (fun _ => htouches.print _) s
          exact Within.bind (haside fun _ => ⟨rfl, rfl⟩) fun _ =>
            Makes.settled (makes_printStop (by decide) (by decide) tid)
    infoCommand := htouches.infoCommand }

/-! ### Sessions -/

variable (arch env)

theorem runCommand_composed (command : Text) (arguments : List Text) :
    Triple State.Composed (runCommand arch env command arguments) (fun _ => State.Composed)
      (fun _ _ => True) := by
  cases hresumes : resumes command with
  | false =>
      exact keeps_composed (composed_of_settled (settled_answers.runCommand hresumes)
        (rested_answers.runCommand hresumes))
  | true =>
      have hhandles : HandlesWithin arch env (Keeps (State.Composed (R := R) (D := D))) :=
        handlesWithin_composed
      exact runCommand_of_resumes
        (p := fun m => Triple State.Composed m (fun _ => State.Composed) fun _ _ => True) hresumes
        (keeps_composed (hhandles.note _ rfl))
        (fun _ => continueExecution_composed arch env) (fun _ => instructionStep_composed arch env true)
        (fun _ => sourceStep_composed arch env) (fun _ => stepOut_composed arch env)

/-- A command that an error has ended says so. -/
theorem dispatch_composed (line : Text) :
    Triple State.Composed (dispatch arch env line) (fun _ => State.Composed) (fun _ _ => True) := by
  unfold dispatch
  cases words line with
  | nil => exact Triple.pure fun _ hs => hs
  | cons command rest =>
      refine Triple.ite (Triple.pure fun _ hs => hs) (Triple.bind ?_ fun _ => Triple.pure fun _ hs => hs)
      refine Triple.rescue (F := fun _ _ => True) (runCommand_composed arch env command _) ?_
        fun _ _ _ _ => trivial
      exact fun _ _ _ => Triple.modify fun _ _ => Or.inr rfl

theorem openSession_composed :
    Triple (fun _ => True) (openSession arch env) (fun _ => State.Composed) (fun _ _ => True) := by
  have hhandles : HandlesWithin arch env (Keeps (State.Composed (R := R) (D := D))) :=
    handlesWithin_composed
  have hlaunch : Triple (fun _ => True) (launch arch env) (fun _ => State.Composed)
      (fun _ _ => True) := by
    refine Triple.bind (triple_true _) fun s => Triple.bind (triple_true _) fun status => ?_
    refine Triple.ite ?_ (Triple.throw fun _ _ => trivial)
    refine Triple.bind (triple_true _) fun _ => Triple.bind (triple_true _) fun _ => ?_
    exact refreshTarget_settles.post fun _ _ hs => Or.inl hs
  refine Triple.bind hlaunch fun _ => keeps_composed ?_
  exact .get_bind fun s => Within.bind (hhandles.note _ rfl)
    (fun _ => .get_bind fun t => hhandles.printStop _ t) s

/-- At every prompt of every session, whichever threads there are, whatever they do and whichever
requests fail: unless an error has been reported since the last stop, no pending breakpoint could be
set in the modules the debugger knows. -/
theorem Prompt.pending_settled {start : State R D} (hs : Prompt arch env start s) :
    s.debugger.Settled ∨ upset s.log = true := by
  have hprompt : s.Composed := by
    induction hs with
    | opened hrun => exact (openSession_composed arch env).of_ok trivial hrun
    | command line _ hrun ih => exact (dispatch_composed arch env line).of_ok ih hrun
  exact hprompt

/-- A breakpoint is pending, and no error has been reported. -/
theorem Prompt.pending_settled_loading :
    ∃ s, Prompt x86_64 loading (State.initial 1 (nopTarget 1)) s ∧
      s.debugger.pendingBreakpoints.length = 1 ∧ upset s.log = false ∧
      (s.debugger.Settled ∨ upset s.log = true) := by
  obtain ⟨s, hs, hcheck⟩ := Prompt.exists_of_runBatch x86_64 loading (State.initial 1 (nopTarget 1))
    ["b late".toList] (p := fun s => decide (s.debugger.pendingBreakpoints.length = 1) &&
      !upset s.log) (by decide +kernel)
  rw [Bool.and_eq_true, decide_eq_true_eq, Bool.not_eq_true'] at hcheck
  exact ⟨s, hs, hcheck.1, hcheck.2, Prompt.pending_settled x86_64 loading hs⟩

end Cosy
