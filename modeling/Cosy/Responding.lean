import Cosy.Disarming
import Cosy.Recording
import Cosy.SourceStep

/-!
# Coming back to the prompt

Only the commands that resume the target wait for it. Every other line comes back to the prompt,
whatever the target does meanwhile and whichever requests fail; and once the target has ended, so do
these.
-/

namespace Cosy

open Effect Parallel

variable {R D α : Type} {arch : Architecture R D} {env : Environment R D}

/-! ### What catches an exception -/

section Attempt

variable {m : Dbg R D α} {handler : Exception → Dbg R D α} {s t : State R D}

theorem attempt_of_ok {a : α} (hrun : m s = .ok a t) : attempt m handler s = .ok a t := by
  simp only [attempt, rescue, hrun]

theorem attempt_of_thrown {exception : Exception} (hrun : m s = .error (.thrown exception) t) :
    attempt m handler s = handler exception t := by
  simp only [attempt, rescue, hrun, Halt.exception?]

theorem attempt_of_blocked (hrun : m s = .error .blocked t) :
    attempt m handler s = .error .blocked t := by
  simp only [attempt, rescue, hrun, Halt.exception?]

end Attempt

theorem NeverBlocks.throw (exception : Exception) :
    NeverBlocks (throw (.thrown exception) : Dbg R D α) := by
  intro s t hrun
  cases hrun

theorem NeverBlocks.attempt {m : Dbg R D α} {handler : Exception → Dbg R D α} (hm : NeverBlocks m)
    (hhandler : ∀ exception, NeverBlocks (handler exception)) :
    NeverBlocks (attempt m handler) := by
  intro s t hrun
  cases hout : m s with
  | ok a u =>
      rw [attempt_of_ok hout] at hrun
      cases hrun
  | error halt u =>
      cases halt with
      | thrown exception =>
          rw [attempt_of_thrown hout] at hrun
          exact hhandler exception u t hrun
      | blocked => exact hm s u hout

theorem NeverBlocks.onThrow {m : Dbg R D α} {cleanup : Halt → State R D → State R D}
    (hm : NeverBlocks m) : NeverBlocks (onThrow m cleanup) := by
  intro s t hrun
  unfold Effect.onThrow at hrun
  cases hout : m s with
  | ok a u =>
      rw [hout] at hrun
      cases hrun
  | error halt u =>
      rw [hout] at hrun
      obtain ⟨rfl, -⟩ := EStateM.Result.error.inj hrun
      exact hm s u hout

theorem NeverBlocks.doIf {c : Prop} [Decidable c] {m : Dbg R D PUnit} (hm : NeverBlocks m) :
    NeverBlocks (doIf c m) := by
  unfold Effect.doIf
  split
  · exact hm
  · exact .pure _

theorem NeverBlocks.note (entry : Entry) : NeverBlocks (note (R := R) (D := D) entry) := .modify _

theorem NeverBlocks.print (message : Message) : NeverBlocks (print (R := R) (D := D) message) :=
  .note _

/-! ### Breakpoints -/

theorem neverBlocks_readBytes (n : Nat) : ∀ address, NeverBlocks (readBytes env address n) := by
  induction n with
  | zero => exact fun _ => .pure _
  | succ n ih =>
      exact fun address => (neverBlocks_readWord _).bind fun _ => (ih _).bind fun _ => .pure _

theorem neverBlocks_pokeWord (address value : Address) : NeverBlocks (pokeWord env address value) :=
  .get_bind fun _ => .ptrace _ _ _

theorem neverBlocks_enable (key : Address) : NeverBlocks (enable arch env key) := by
  have hinsert : ∀ address, NeverBlocks (insertTrap arch env key address) := by
    intro address
    refine (neverBlocks_readBytes _ _).bind fun _ => (NeverBlocks.modify _).bind fun _ => ?_
    refine NeverBlocks.bind ?_ fun _ => .modify _
    exact (neverBlocks_gatherWords _ _ _).bind fun _ => .forM _ fun _ => neverBlocks_pokeWord _ _
  refine .get_bind fun s => ?_
  cases s.debugger.breakpoints.find? key with
  | none => exact .pure _
  | some r =>
      dsimp only
      split
      · exact .pure _
      · exact (NeverBlocks.note _).bind fun _ => .onThrow (hinsert _)

theorem neverBlocks_noteUserEnabled (key : Address) :
    NeverBlocks (noteUserEnabled (R := R) (D := D) key) := by
  refine .get_bind fun s => ?_
  cases s.debugger.breakpoints.find? key with
  | none => exact .pure _
  | some r => exact .doIf (.note _)

theorem neverBlocks_dropBreakpoint (key : Address) : NeverBlocks (dropBreakpoint env key) :=
  (neverBlocks_disable key).bind fun _ => .modify _

theorem neverBlocks_createBreakpoint (address : Address) (specification : Text) (temporary : Bool) :
    NeverBlocks (createBreakpoint arch env address specification temporary) := by
  refine .get_bind fun s => ?_
  cases s.debugger.breakpoints.find? address with
  | some existing => exact .pure _
  | none =>
      refine (NeverBlocks.modify _).bind fun _ => (neverBlocks_enable _).bind fun _ => ?_
      exact (neverBlocks_noteUserEnabled _).bind fun _ => .pure _

theorem neverBlocks_setBreakpoint (specification : Text) :
    NeverBlocks (setBreakpoint arch env specification) := by
  have hannounce : ∀ addresses, NeverBlocks (announceBreakpoints arch env specification addresses) := by
    intro addresses
    induction addresses with
    | nil => exact .pure _
    | cons address rest ih =>
        exact (neverBlocks_createBreakpoint _ _ _).bind fun _ => (NeverBlocks.print _).bind fun _ => ih
  refine .get_bind fun s => ?_
  split
  · refine NeverBlocks.bind (.get_bind fun t => ?_) fun _ => .print _
    exact (NeverBlocks.modify _).bind fun _ => .pure _
  · exact hannounce _

theorem neverBlocks_removeBreakpoint (id : Int) : NeverBlocks (removeBreakpoint env id) := by
  refine .get_bind fun s => ?_
  cases keyOfId s.debugger.breakpoints id with
  | none => exact .modify _
  | some key => exact (NeverBlocks.note _).bind fun _ => neverBlocks_dropBreakpoint key

theorem neverBlocks_forEachWithId {id : Int} {change : Address → Dbg R D Unit}
    (hchange : ∀ key, NeverBlocks (change key)) (entries : List (Address × Breakpoint)) :
    NeverBlocks (forEachWithId id change entries) := by
  induction entries with
  | nil => exact .pure _
  | cons entry rest ih =>
      rw [forEachWithId]
      split
      · exact (hchange _).bind fun _ => ih.bind fun _ => .pure _
      · exact ih

theorem neverBlocks_reportUnknown {change : Dbg R D Bool} (hchange : NeverBlocks change) :
    NeverBlocks (do
      let found ← change
      reportUnknown found) := by
  refine hchange.bind fun found => ?_
  unfold Cosy.reportUnknown
  split
  · exact .pure _
  · exact .print _

theorem neverBlocks_enableById (id : Int) : NeverBlocks (enableById arch env id) :=
  .get_bind fun _ => neverBlocks_forEachWithId (fun key =>
    (neverBlocks_enable key).bind fun _ => neverBlocks_noteUserEnabled key) _

theorem neverBlocks_disableById (id : Int) : NeverBlocks (disableById env id) :=
  .get_bind fun _ => neverBlocks_forEachWithId (fun key =>
    (NeverBlocks.note _).bind fun _ => neverBlocks_disable key) _

/-! ### Watchpoints -/

theorem neverBlocks_configureWatchpoint (tid : Tid) (slot : Nat) (address : Address)
    (watchAccess : WatchAccess) (bytes : Nat) :
    NeverBlocks (configureWatchpoint arch env tid slot address watchAccess bytes) := by
  unfold Cosy.configureWatchpoint
  split
  · exact .throw _
  · exact (NeverBlocks.ptrace _ _ _).bind fun _ => .forM _ fun _ => .ptrace _ _ _

theorem neverBlocks_setWatchpoint (arguments : List Text) :
    NeverBlocks (setWatchpoint arch env arguments) := by
  have hadd : ∀ address watchAccess bytes,
      NeverBlocks (addWatchpoint arch env address watchAccess bytes) := by
    refine fun address watchAccess bytes => .get_bind fun s => ?_
    dsimp only
    split
    · exact .print _
    refine NeverBlocks.attempt (NeverBlocks.bind (.forM _ fun entry => ?_) fun _ => ?_) fun _ => .print _
    · split
      · exact neverBlocks_configureWatchpoint _ _ _ _ _
      · exact .pure _
    · exact (NeverBlocks.modify _).bind fun _ => .print _
  unfold Cosy.setWatchpoint
  split
  · exact .print _
  split
  · exact .print _
  split
  · exact .print _
  split
  · exact .print _
  · exact hadd _ _ _

/-! ### Showing a stop -/

theorem neverBlocks_pc (tid : Tid) : NeverBlocks (pc arch env tid) :=
  (NeverBlocks.ptrace _ _ _).bind fun _ => .pure _

theorem neverBlocks_setRegs (tid : Tid) (regs : R) : NeverBlocks (setRegs arch env tid regs) :=
  .ptrace _ _ _

theorem neverBlocks_inspectTrap (tid : Tid) : NeverBlocks (inspectTrap arch env tid) := by
  have hinspect : ∀ candidate, NeverBlocks (inspectBreakpoint arch env tid candidate) := by
    refine fun candidate => .get_bind fun s => ?_
    cases s.debugger.breakpoints.find? candidate with
    | none => exact .pure _
    | some r =>
        refine NeverBlocks.bind ?_ fun _ => ?_
        · exact (NeverBlocks.ptrace _ _ _).bind fun _ =>
            (neverBlocks_setRegs _ _).bind fun _ => .note _
        · refine (NeverBlocks.print _).bind fun _ => (NeverBlocks.note _).bind fun _ => .doIf ?_
          exact (neverBlocks_dropBreakpoint _).bind fun _ => .print _
  have hwatchpoints : ∀ watchpoints, NeverBlocks (inspectWatchpoints env tid watchpoints) := by
    intro watchpoints
    induction watchpoints with
    | nil => exact .pure _
    | cons watchpoint rest ih =>
        rw [inspectWatchpoints]
        refine (NeverBlocks.attempt (.ptrace _ _ _) fun _ => .pure _).bind fun code => ?_
        split
        · exact .print _
        · exact ih
  exact (neverBlocks_pc tid).bind fun _ => (hinspect _).bind fun _ => .get_bind fun _ =>
    hwatchpoints _

theorem neverBlocks_printLocation (tid : Tid) : NeverBlocks (printLocation arch env tid) := by
  refine .get_bind fun s => (neverBlocks_pc tid).bind fun _ => (neverBlocks_pc tid).bind fun _ => ?_
  split
  · exact .print _
  · dsimp only
    split
    · exact (neverBlocks_pc tid).bind fun _ => .print _
    · exact .pure _

theorem neverBlocks_printStop (tid : Tid) : NeverBlocks (printStop arch env tid) := by
  have hlocation : NeverBlocks (attempt (printLocation arch env tid) fun _ => pure ⟨⟩) :=
    .attempt (neverBlocks_printLocation tid) fun _ => .pure _
  refine .get_bind fun s => ?_
  cases s.debugger.stopSignal tid with
  | none => exact .pure _
  | some signal =>
      change NeverBlocks (printStopped arch env tid signal)
      unfold printStopped
      split
      · exact (NeverBlocks.attempt (neverBlocks_inspectTrap tid) fun _ => .print _).bind
          fun _ => hlocation
      · split
        · exact (NeverBlocks.print _).bind fun _ => hlocation
        · exact (NeverBlocks.print _).bind fun _ => hlocation

theorem neverBlocks_selectThread (tid : Tid) : NeverBlocks (selectThread arch env tid) := by
  refine .get_bind fun s => ?_
  split
  · split
    · exact (NeverBlocks.modify _).bind fun _ => neverBlocks_printStop tid
    · exact .print _
  · exact .print _

/-! ### Showing the state -/

theorem neverBlocks_rows {γ : Type} (message : γ → Message) (xs : List γ) :
    NeverBlocks (xs.forM fun x => print (R := R) (D := D) (message x)) :=
  .forM xs fun _ => .print _

theorem neverBlocks_framePointer (tid : Tid) : NeverBlocks (framePointer arch env tid) :=
  (NeverBlocks.ptrace _ _ _).bind fun _ => .pure _

theorem relates_neverBlocks : Relates (M := EStateM Halt (State R D)) (N := EStateM Halt (State R D))
    fun _ m n => m = n ∧ NeverBlocks m :=
  .of_closed .pure .bind

theorem neverBlocks_printBacktrace : NeverBlocks (printBacktrace arch env) := by
  have hcaller : ∀ frame, NeverBlocks (callerWith Halt.exception? (readWord env) frame) := by
    refine fun frame => .attempt ?_ fun _ => .pure _
    exact (neverBlocks_readWord _).bind fun _ => (neverBlocks_readWord _).bind fun _ => .pure _
  have hwalk : ∀ seen current frame depth, NeverBlocks
      (backtraceFromWith (callerWith Halt.exception? (readWord env)) seen current frame depth) :=
    fun _ _ _ _ =>
      (related_backtraceFromWith relates_neverBlocks (fun frame => ⟨rfl, hcaller frame⟩) _ _ _ _).2
  have hrows : ∀ frames index, NeverBlocks (printFrames (R := R) (D := D) index frames) := by
    intro frames
    induction frames with
    | nil => exact fun _ => .pure _
    | cons frame rest ih =>
        exact fun index => .get_bind fun _ => (NeverBlocks.print _).bind fun _ => ih _
  refine NeverBlocks.bind (.get_bind fun s => ?_) fun frames => hrows frames 0
  exact (neverBlocks_pc _).bind fun _ => (neverBlocks_framePointer _).bind fun _ => hwalk _ _ _ _

theorem neverBlocks_selectFrame (frame : Nat) : NeverBlocks (selectFrame arch env frame) :=
  (NeverBlocks.modify _).bind fun _ => neverBlocks_printBacktrace

theorem neverBlocks_printLocals (wanted : Option Text) :
    NeverBlocks (printLocals arch env wanted) := by
  have hlocals : ∀ tid address, NeverBlocks (locals arch env tid address) := fun tid address =>
    .get_bind fun _ => (related_localsWith relates_neverBlocks ⟨rfl, .ptrace _ _ _⟩
      (fun address => ⟨rfl, neverBlocks_readWord address⟩) _ _).2
  refine .get_bind fun s => ?_
  dsimp only
  split
  · exact .print _
  refine (neverBlocks_pc _).bind fun _ => (hlocals _ _).bind fun values => ?_
  refine (neverBlocks_rows _ _).bind fun _ => ?_
  split
  · exact .print _
  · exact .pure _

theorem neverBlocks_printMemory (arguments : List Text) :
    NeverBlocks (printMemory env arguments) := by
  have hwords : ∀ count address, NeverBlocks (printWords env address count) := by
    intro count
    induction count with
    | zero => exact fun _ => .pure _
    | succ count ih =>
        intro address
        refine NeverBlocks.bind (.attempt ?_ fun _ => .pure _) fun value => ?_
        · exact (neverBlocks_readWord _).bind fun _ => .pure _
        · split
          · exact (NeverBlocks.print _).bind fun _ => ih _
          · exact .print _
  unfold printMemory
  split
  · exact .print _
  split
  · exact .print _
  split
  · split
    · exact .print _
    · split
      · exact .print _
      · exact hwords _ _
  · exact hwords _ _

theorem neverBlocks_infoCommand (topic : Text) : NeverBlocks (infoCommand arch env topic) := by
  unfold infoCommand
  split
  · refine .get_bind fun _ => (NeverBlocks.print _).bind fun _ => ?_
    exact (NeverBlocks.forM _ fun _ => .print _).bind fun _ => .forM _ fun _ => .print _
  split
  · exact .get_bind fun _ => .forM _ fun _ => .print _
  split
  · exact .get_bind fun _ => .forM _ fun _ => .print _
  split
  · exact .get_bind fun _ => (NeverBlocks.ptrace _ _ _).bind fun _ => .forM _ fun _ => .print _
  split
  · exact neverBlocks_printLocals none
  · exact .print _

/-! ### Changing the target -/

theorem neverBlocks_writeMemory (arguments : List Text) :
    NeverBlocks (writeMemory env arguments) := by
  unfold writeMemory
  split
  · exact .print _
  split
  · exact (neverBlocks_pokeWord _ _).bind fun _ => .note _
  · exact .print _

theorem neverBlocks_registerCommand (arguments : List Text) :
    NeverBlocks (registerCommand arch env arguments) := by
  unfold registerCommand
  split
  · split
    · exact .get_bind fun _ => (NeverBlocks.ptrace _ _ _).bind fun _ => .print _
    · exact .print _
  · split
    · split
      · exact .print _
      · refine NeverBlocks.bind (.get_bind fun _ => (NeverBlocks.ptrace _ _ _).bind fun _ => ?_)
          fun written => ?_
        · split
          · exact .pure _
          · exact (neverBlocks_setRegs _ _).bind fun _ => .pure _
        · split
          · exact .pure _
          · exact .print _
    · exact .print _
  · exact .print _

/-! ### A line -/

/-- The commands that resume the target. -/
def resumes (command : Text) : Bool :=
  isAlias command ["continue".toList, "c".toList, "stepi".toList, "si".toList, "step".toList,
    "s".toList, "next".toList, "n".toList, "finish".toList]

theorem isAlias_append {command : Text} {names names' : List Text} :
    isAlias command (names ++ names') = (isAlias command names || isAlias command names') := by
  rw [Bool.eq_iff_iff]
  simp [isAlias]

theorem resumes_iff {command : Text} :
    resumes command = true ↔ isAlias command ["continue".toList, "c".toList] = true ∨
      isAlias command ["stepi".toList, "si".toList] = true ∨
      isAlias command ["step".toList, "s".toList, "next".toList, "n".toList] = true ∨
      command = "finish".toList := by
  have hsplit : resumes command
      = (isAlias command ["continue".toList, "c".toList] ||
          (isAlias command ["stepi".toList, "si".toList] ||
            (isAlias command ["step".toList, "s".toList, "next".toList, "n".toList] ||
              isAlias command ["finish".toList]))) := by
    rw [← isAlias_append, ← isAlias_append, ← isAlias_append]
    rfl
  have hfinish : isAlias command ["finish".toList] = true ↔ command = "finish".toList := by
    rw [isAlias, List.contains_iff_mem, List.mem_singleton]
  rw [hsplit, Bool.or_eq_true, Bool.or_eq_true, Bool.or_eq_true, hfinish]

/-- What a command that resumes the target may come to, which depends on the command. -/
theorem runCommand_of_resumes {p : Dbg R D Unit → Prop} {command : Text} {arguments : List Text}
    (hresumes : resumes command = true) (hhelp : p (print (.line "help")))
    (hcontinue : isAlias command ["continue".toList, "c".toList] = true →
      p (continueExecution arch env))
    (hstepi : isAlias command ["stepi".toList, "si".toList] = true → p (instructionStep arch env true))
    (hstep : isAlias command ["step".toList, "s".toList, "next".toList, "n".toList] = true →
      p (sourceStep arch env))
    (hfinish : command = "finish".toList → p (stepOut arch env)) :
    p (runCommand arch env command arguments) := by
  have hite : ∀ {c : Prop} [Decidable c] {m m' : Dbg R D Unit}, (c → p m) → (¬c → p m') →
      p (if c then m else m') := by
    intro c _ m m' hm hm'
    split
    · exact hm ‹_›
    · exact hm' ‹_›
  unfold runCommand
  refine hite (fun _ => hhelp) fun _ => ?_
  refine hite hcontinue fun hnotContinue => ?_
  refine hite hstepi fun hnotStepi => ?_
  refine hite hstep fun hnotStep => ?_
  refine hite hfinish fun hnotFinish => ?_
  rcases resumes_iff.mp hresumes with hgo | hgo | hgo | hgo
  · exact absurd hgo hnotContinue
  · exact absurd hgo hnotStepi
  · exact absurd hgo hnotStep
  · exact absurd hgo hnotFinish

/-- What a command that does not resume the target may come to. -/
structure Answers (arch : Architecture R D) (env : Environment R D) (p : Dbg R D Unit → Prop) :
    Prop where
  print : ∀ message, p (print message)
  setBreakpoint : ∀ specification, p (setBreakpoint arch env specification)
  removeBreakpoint : ∀ id, p (removeBreakpoint env id)
  enableById : ∀ id, p (do
    let found ← enableById arch env id
    reportUnknown found)
  disableById : ∀ id, p (do
    let found ← disableById env id
    reportUnknown found)
  setWatchpoint : ∀ arguments, p (setWatchpoint arch env arguments)
  selectFrame : ∀ frame, p (selectFrame arch env frame)
  printLocals : ∀ wanted, p (printLocals arch env wanted)
  printMemory : ∀ arguments, p (printMemory env arguments)
  writeMemory : ∀ arguments, p (writeMemory env arguments)
  registerCommand : ∀ arguments, p (registerCommand arch env arguments)
  selectThread : ∀ tid, p (selectThread arch env tid)
  infoCommand : ∀ topic, p (infoCommand arch env topic)

section Answers

variable {p : Dbg R D Unit → Prop} (hanswers : Answers arch env p)

include hanswers

theorem Answers.withNumber {arguments : List Text} {usage : String} {body : Address → Dbg R D Unit}
    (hbody : ∀ value, p (body value)) : p (withNumber arguments usage body) := by
  unfold Cosy.withNumber
  split
  · split
    · exact hbody _
    · exact hanswers.print _
  · exact hanswers.print _

theorem Answers.runCommand {command : Text} {arguments : List Text}
    (hcommand : resumes command = false) : p (runCommand arch env command arguments) := by
  have hite : ∀ {c : Prop} [Decidable c] {m m' : Dbg R D Unit}, p m → p m' →
      p (if c then m else m') := by
    intro c _ m m' hm hm'
    split
    · exact hm
    · exact hm'
  obtain ⟨hcontinue, hstepi, hstep, hfinish⟩ : ¬ _ ∧ ¬ _ ∧ ¬ _ ∧ ¬ _ := by
    rw [← Bool.not_eq_true, resumes_iff] at hcommand
    push Not at hcommand
    exact hcommand
  unfold Cosy.runCommand
  apply hite (hanswers.print _)
  rw [if_neg hcontinue, if_neg hstepi, if_neg hstep, if_neg hfinish]
  apply hite
  · split
    · exact hanswers.setBreakpoint _
    · exact hanswers.print _
  apply hite (hanswers.withNumber fun _ => hanswers.removeBreakpoint _)
  apply hite (hanswers.withNumber fun _ => hanswers.enableById _)
  apply hite (hanswers.withNumber fun _ => hanswers.disableById _)
  apply hite (hanswers.setWatchpoint _)
  apply hite (hanswers.selectFrame 0)
  apply hite (hanswers.withNumber fun _ => hanswers.selectFrame _)
  apply hite
  · split
    · exact hanswers.printLocals _
    · exact hanswers.print _
  apply hite (hanswers.printMemory _)
  apply hite (hanswers.writeMemory _)
  apply hite (hanswers.registerCommand _)
  apply hite (hanswers.withNumber fun _ => hanswers.selectThread _)
  exact hite (hanswers.infoCommand _) (hanswers.print _)

end Answers

theorem neverBlocks_answers : Answers arch env (NeverBlocks (R := R) (D := D)) where
  print := .print
  setBreakpoint := neverBlocks_setBreakpoint
  removeBreakpoint := neverBlocks_removeBreakpoint
  enableById id := neverBlocks_reportUnknown (neverBlocks_enableById id)
  disableById id := neverBlocks_reportUnknown (neverBlocks_disableById id)
  setWatchpoint := neverBlocks_setWatchpoint
  selectFrame := neverBlocks_selectFrame
  printLocals := neverBlocks_printLocals
  printMemory := neverBlocks_printMemory
  writeMemory := neverBlocks_writeMemory
  registerCommand := neverBlocks_registerCommand
  selectThread := neverBlocks_selectThread
  infoCommand := neverBlocks_infoCommand

/-! ### While nothing is resumed -/

/-- No thread is resumed and no event consumed, and whether the target is alive has not been found
out anew. -/
structure Rested (s t : State R D) : Prop where
  log : Appends (fun entry => entry.isIdle = true) s t
  alive : t.debugger.alive = s.debugger.alive

instance : IsPreorder (State R D) Rested where
  refl s := ⟨refl_of (Appends _) s, rfl⟩
  trans _ _ _ hst htu := ⟨trans_of (Appends _) hst.log htu.log, htu.alive.trans hst.alive⟩

theorem Rested.of_idles {s t : State R D} (hst : Idles s t) : Rested s t := ⟨hst.log, hst.alive⟩

theorem rested_manages : ManagesWithin arch env (Rested (R := R) (D := D)) :=
  have htends : TendsWithin arch env (Idles (R := R) (D := D)) := idles_tends
  have hrested : ∀ {α : Type} {m : Dbg R D α}, Within Idles m → Within Rested m :=
    fun hm => Within.mono hm fun _ _ => Rested.of_idles
  { peek := hrested htends.peek
    note := fun hentry => hrested (htends.note hentry)
    setRegs := fun tid regs => hrested (htends.setRegs tid regs)
    enter := hrested htends.enter
    mark := fun hentry => hrested (htends.mark hentry)
    aside := fun hchange => Within.modify fun _ => ⟨.of_eq rfl, (hchange _).alive⟩
    enable := fun key => hrested (htends.enable key)
    disable := fun key => hrested (htends.disable key)
    insert := fun _ _ _ _ _ => ⟨.of_eq rfl, rfl⟩
    drop := fun key => hrested (htends.drop key)
    noteUserEnabled := fun key => hrested (htends.noteUserEnabled key) }

theorem rested_answers : Answers arch env (Within (Rested (R := R) (D := D))) := by
  have hmanages : ManagesWithin arch env (Rested (R := R) (D := D)) := rested_manages
  have htends := hmanages.tends
  have htolerates := tolerates_idles (R := R) (D := D) env
  have hreport : ∀ {m : Dbg R D Bool}, Within Rested m → Within Rested (do
      let found ← m
      reportUnknown found) := fun hm =>
    Within.bind hm fun _ => Within.ite (fun _ => .pure _) fun _ => hmanages.print _
  exact
  { print := hmanages.print
    setBreakpoint := htends.setBreakpoint
    removeBreakpoint := htends.removeBreakpoint
    enableById := fun id => hreport (htends.enableById id)
    disableById := fun id => hreport (htends.disableById id)
    setWatchpoint := hmanages.setWatchpoint fun address watchAccess bytes => by
      refine .get_bind fun s => Within.ite (fun _ => hmanages.print _) (fun _ => ?_) s
      refine Within.rescue (Within.bind (.forM _ fun _ _ => ?_) fun _ => ?_) fun _ => hmanages.print _
      · refine Within.ite (fun _ => ?_) fun _ => .pure _
        exact Within.mono (htolerates.configureWatchpoint _ _ _ _ _) fun _ _ => Rested.of_idles
      · exact Within.bind (Within.modify fun _ => ⟨.of_eq rfl, rfl⟩) fun _ => hmanages.print _
    selectFrame := fun frame => Within.bind (Within.modify fun _ => ⟨.of_eq rfl, rfl⟩)
      fun _ => hmanages.printBacktrace
    printLocals := hmanages.printLocals
    printMemory := hmanages.printMemory
    writeMemory := fun arguments => by
      refine Within.ite (fun _ => hmanages.print _) fun _ => ?_
      split
      · refine Within.mono ?_ fun _ _ => Rested.of_idles
        exact (htolerates.pokeWord _ _).bind fun _ => htolerates.note _ rfl
      · exact hmanages.print _
    registerCommand := hmanages.registerCommand
    selectThread := hmanages.selectThread
    infoCommand := hmanages.infoCommand }

/-! ### After the end -/

/-- From this state the program comes to an end of its own, with nothing resumed. -/
structure Settles (m : Dbg R D α) (s : State R D) : Prop where
  rested : WithinAt Rested m s
  returns : ∀ t, m s ≠ .error .blocked t

section Settles

variable {s : State R D} {m : Dbg R D α}

theorem Settles.of_answer (hrested : Within Rested m) (hreturns : NeverBlocks m) : Settles m s :=
  ⟨hrested s, hreturns s⟩

theorem Settles.bind {β : Type} {f : α → Dbg R D β} (hm : Settles m s)
    (hf : ∀ a t, t.debugger.alive = s.debugger.alive → Settles (f a) t) :
    Settles (m >>= f) s := by
  have hnext : ∀ a t, m s = .ok a t → Settles (f a) t := by
    intro a t hrun
    have hst : Rested s t := by simpa only [WithinAt, endState_of_ok hrun] using hm.rested
    exact hf a t hst.alive
  refine ⟨.bind hm.rested fun a t hrun => (hnext a t hrun).rested, fun t hrun => ?_⟩
  cases hout : m s with
  | ok a u => exact (hnext a u hout).returns t ((bind_ok hout).symm.trans hrun)
  | error halt u =>
      obtain ⟨rfl, rfl⟩ := EStateM.Result.error.inj ((bind_error hout).symm.trans hrun)
      exact hm.returns u hout

theorem Settles.get_bind {f : State R D → Dbg R D α} (hf : Settles (f s) s) :
    Settles (get >>= f) s := ⟨hf.rested, hf.returns⟩

theorem Settles.attempt {handler : Exception → Dbg R D α} (hm : Settles m s)
    (hhandler : ∀ exception t, Settles (handler exception) t) :
    Settles (attempt m handler) s := by
  refine ⟨.rescue hm.rested fun exception t => (hhandler exception t).rested, fun t hrun => ?_⟩
  cases hout : m s with
  | ok a u =>
      rw [attempt_of_ok hout] at hrun
      cases hrun
  | error halt u =>
      cases halt with
      | thrown exception =>
          rw [attempt_of_thrown hout] at hrun
          exact (hhandler exception u).returns t hrun
      | blocked => exact hm.returns u hout

theorem Settles.returns_attempt {handler : Exception → Dbg R D α} (hm : Settles m s)
    (hhandler : ∀ exception t, ∃ a u, handler exception t = .ok a u) :
    ∃ a t, Cosy.attempt m handler s = .ok a t := by
  cases hout : m s with
  | ok a t => exact ⟨a, t, attempt_of_ok hout⟩
  | error halt t =>
      cases halt with
      | thrown exception =>
          rw [attempt_of_thrown hout]
          exact hhandler exception t
      | blocked => exact absurd hout (hm.returns t)

theorem settles_print (message : Message) : Settles (print message) s :=
  .of_answer (Within.modify fun _ => ⟨.cons rfl rfl, rfl⟩) (.print message)

/-- There is nothing left to resume. -/
theorem settles_continueExecution (hend : s.debugger.alive = false) :
    Settles (continueExecution arch env) s := by
  have hrun : continueExecution arch env s = print (.line "target has exited") s := by
    rw [continueExecution, get_bind_apply, hend]
    rfl
  have hprint : Settles (print (.line "target has exited")) s := settles_print _
  refine ⟨?_, fun t => hrun ▸ hprint.returns t⟩
  rw [WithinAt, endState, hrun]
  exact hprint.rested

theorem settles_instructionStep {report : Bool} (hend : s.debugger.alive = false) :
    Settles (instructionStep arch env report) s := by
  have hrun : instructionStep arch env report s = .ok ⟨⟩ s := by
    rw [instructionStep, get_bind_apply, hend]
    rfl
  refine ⟨?_, fun t hblocked => ?_⟩
  · rw [WithinAt, endState, hrun]
    exact refl_of Rested s
  · rw [hrun] at hblocked
    cases hblocked

theorem settles_selectedLocation : Settles (selectedLocation arch env) s := by
  have hrested : ManagesWithin arch env (Rested (R := R) (D := D)) := rested_manages
  refine .of_answer hrested.selectedLocation (.get_bind fun _ => ?_)
  exact (neverBlocks_pc _).bind fun _ => .get_bind fun _ => .pure _

theorem settles_sourceStep (hend : s.debugger.alive = false) :
    Settles (sourceStep arch env) s := by
  refine settles_selectedLocation.bind fun before t halive => ?_
  have hend' : t.debugger.alive = false := halive.trans hend
  split
  · -- The loop ends with its first iteration.
    refine (settles_instructionStep hend').bind fun _ u halive' => ?_
    have hdead : ¬ u.debugger.alive = true := by
      rw [halive', hend']
      exact Bool.false_ne_true
    refine Settles.get_bind ?_
    rw [if_neg hdead]
    exact .of_answer (.pure _) (.pure _)
  · exact settles_instructionStep hend'

theorem settles_stepOut (hend : s.debugger.alive = false) : Settles (stepOut arch env) s := by
  have hmanages : ManagesWithin arch env (Rested (R := R) (D := D)) := rested_manages
  have htarget : ∀ tid, Settles (returnAddress arch env tid) s := fun tid =>
    .of_answer (hmanages.returnAddress tid)
      ((NeverBlocks.ptrace _ _ _).bind fun _ => .ptrace _ _ _)
  refine Settles.attempt (Settles.get_bind ?_) fun _ _ => settles_print _
  refine (htarget _).bind fun target t halive => ?_
  have hcreate : Settles (createBreakpoint arch env target "<finish>".toList true) t :=
    .of_answer (hmanages.tends.createBreakpoint _ _ true) (neverBlocks_createBreakpoint _ _ _)
  refine hcreate.bind fun id u halive' => (settles_print _).bind fun _ v halive'' => ?_
  exact settles_continueExecution (halive''.trans (halive'.trans (halive.trans hend)))

/-- A command that finds nothing to resume. -/
theorem settles_runCommand {command : Text} {arguments : List Text}
    (hcommand : resumes command = true → s.debugger.alive = false) :
    Settles (runCommand arch env command arguments) s := by
  cases hresumes : resumes command with
  | false =>
      exact .of_answer (rested_answers.runCommand hresumes) (neverBlocks_answers.runCommand hresumes)
  | true =>
      have hend := hcommand hresumes
      exact runCommand_of_resumes hresumes (p := fun m => Settles m s) (settles_print _)
        (fun _ => settles_continueExecution hend) (fun _ => settles_instructionStep hend)
        (fun _ => settles_sourceStep hend) (fun _ => settles_stepOut hend)

/-- The command of a line, if it has one. -/
def commandIs (p : Text → Bool) (line : Text) : Bool := (words line).head?.any p

theorem dispatch_settles {line : Text} (hquit : commandIs isQuit line = false)
    (hline : commandIs resumes line = true → s.debugger.alive = false) :
    ∃ t, dispatch arch env line s = .ok true t ∧ Rested s t := by
  unfold commandIs at hquit hline
  unfold dispatch
  cases hwords : words line with
  | nil => exact ⟨s, rfl, refl_of Rested s⟩
  | cons command rest =>
      rw [hwords] at hquit hline
      have hsettles : Settles (Cosy.attempt (runCommand arch env command (command :: rest))
          fun exception => print (.error exception)) s :=
        (settles_runCommand hline).attempt fun _ _ => settles_print _
      have hnone : isQuit command = false := hquit
      simp only [hnone, Bool.false_eq_true, if_false]
      have hshown : ∀ exception u, ∃ a v,
          print (R := R) (D := D) (.error exception) u = .ok a v := fun _ _ => ⟨⟨⟩, _, rfl⟩
      obtain ⟨a, t, hrun⟩ := Settles.returns_attempt (settles_runCommand hline) hshown
      refine ⟨t, bind_ok hrun, ?_⟩
      simpa only [WithinAt, endState_of_ok hrun] using hsettles.rested

/-- Whatever the target does and whichever requests fail, the debugger comes back to its prompt from
every line that does not resume a target it takes for alive. It has then resumed nothing, has waited
for nothing, and has not found out that the target has ended. So once the target has ended, this is
so of all lines. -/
theorem commandLoop_comes_back (s : State R D) (lines : List Text)
    (hquit : ∀ line ∈ lines, commandIs isQuit line = false)
    (hlines : ∀ line ∈ lines, commandIs resumes line = true → s.debugger.alive = false) :
    ∃ t, commandLoop arch env s lines = some t ∧ t.debugger.alive = s.debugger.alive ∧
      ∃ newer, t.log = newer ++ s.log ∧
        newer.all (fun entry => !entry.isResumed && !entry.isConsumed) = true := by
  have hloop : ∃ t, commandLoop arch env s lines = some t ∧ Rested s t := by
    induction lines generalizing s with
    | nil => exact ⟨s, rfl, refl_of Rested s⟩
    | cons line rest ih =>
        obtain ⟨u, hfirst, hsu⟩ : ∃ u, dispatch arch env line s = .ok true u ∧ Rested s u :=
          dispatch_settles (hquit line List.mem_cons_self) (hlines line List.mem_cons_self)
        obtain ⟨t, hrest, hut⟩ := ih u (fun other hmem => hquit other (List.mem_cons_of_mem _ hmem))
          fun other hmem hother => hsu.alive.trans (hlines other (List.mem_cons_of_mem _ hmem) hother)
        refine ⟨t, ?_, trans_of Rested hsu hut⟩
        rw [commandLoop, hfirst]
        exact hrest
  obtain ⟨t, hrun, hst⟩ := hloop
  obtain ⟨newer, hnewer, hidle⟩ := hst.log
  refine ⟨t, hrun, hst.alive, newer, hnewer, ?_⟩
  rw [List.all_eq_true]
  intro entry hmem
  rw [Entry.not_isResumed_of_isIdle (hidle entry hmem),
    Entry.not_isConsumed_of_isIdle (hidle entry hmem)]
  rfl

end Settles

/-- After the process has been killed, the commands that would resume it come back too. -/
theorem commandLoop_comes_back_killed :
    ∃ s t, Prompt x86_64 killedEarly (State.initial 1 (nopTarget 1)) s ∧ s.debugger.alive = false ∧
      commandLoop x86_64 killedEarly s ["c".toList, "next".toList, "finish".toList, "b f".toList]
        = some t ∧ t.debugger.alive = s.debugger.alive ∧
      ∃ newer, t.log = newer ++ s.log ∧
        newer.all (fun entry => !entry.isResumed && !entry.isConsumed) = true := by
  obtain ⟨s, hs, hcheck⟩ := Prompt.exists_of_runBatch x86_64 killedEarly
    (State.initial 1 (nopTarget 1)) ["c".toList] (p := fun s => !s.debugger.alive) (by decide +kernel)
  rw [Bool.not_eq_true'] at hcheck
  obtain ⟨t, ht⟩ := commandLoop_comes_back s
    ["c".toList, "next".toList, "finish".toList, "b f".toList] (by decide) fun _ _ _ => hcheck
  exact ⟨s, t, hs, hcheck, ht⟩

end Cosy
