import Cosy.Commands

/-!
# Looking

Most of the debugger only looks: it reads registers and memory, and prints. Whatever relation does
not mind a request that reads, and an entry that shows something, such a function stays within; so
this is proved once, for all of them.
-/

namespace Cosy

open Effect Parallel

variable {R D : Type} {arch : Architecture R D} {env : Environment R D}
  {Q : State R D → State R D → Prop}

/-- `Q` does not mind that the target is looked at. -/
structure Peeks (env : Environment R D) (Q : State R D → State R D → Prop) : Prop where
  peek : ∀ {α : Type} {operation : String} {tid : Tid} {look : Task R D → Target R D → α},
    Within Q (ptrace env operation tid fun task target => (look task target, target))

/-- What is logged of a stop that is shown, or of a command. -/
def Entry.isShown : Entry → Bool
  | .out _ | .hit _ _ _ _ | .setPc _ _ => true
  | _ => false

/-- Nor that something is shown. -/
structure Shows (env : Environment R D) (Q : State R D → State R D → Prop) : Prop
    extends Peeks env Q where
  note : ∀ {entry : Entry}, entry.isShown = true → Within Q (note entry)

/-- Nor that a thread gets other registers. -/
structure Touches (arch : Architecture R D) (env : Environment R D)
    (Q : State R D → State R D → Prop) : Prop extends Shows env Q where
  setRegs : ∀ tid regs, Within Q (setRegs arch env tid regs)

section Peeks

variable (hpeeks : Peeks env Q)

include hpeeks

theorem Peeks.readWord (address : Address) : Within Q (readWord env address) :=
  .get_bind fun s => hpeeks.peek s

theorem Peeks.getRegs (tid : Tid) : Within Q (getRegs arch env tid) := hpeeks.peek

variable [IsPreorder (State R D) Q]

theorem Peeks.readBytes (n : Nat) : ∀ address, Within Q (readBytes env address n) := by
  induction n with
  | zero => exact fun _ => .pure _
  | succ n ih => exact fun address => (hpeeks.readWord _).bind fun _ => (ih _).bind fun _ => .pure _

theorem Peeks.gatherWords (bytes : List Byte) :
    ∀ words address, Within Q (gatherWords env words address bytes) := by
  induction bytes with
  | nil => exact fun _ _ => .pure _
  | cons byte rest ih =>
      refine fun words address => Within.bind ?_ fun words => ih _ _
      unfold coverWord
      exact Within.ite (fun _ => .pure _) fun _ => (hpeeks.readWord _).bind fun _ => .pure _

theorem Peeks.pc (tid : Tid) : Within Q (pc arch env tid) :=
  (hpeeks.getRegs tid).bind fun _ => .pure _

theorem Peeks.returnAddress (tid : Tid) : Within Q (returnAddress arch env tid) :=
  (hpeeks.getRegs tid).bind fun _ => hpeeks.peek

theorem Peeks.framePointer (tid : Tid) : Within Q (framePointer arch env tid) :=
  (hpeeks.getRegs tid).bind fun _ => .pure _

theorem Peeks.selectedLocation : Within Q (selectedLocation arch env) :=
  .get_bind fun s => Within.bind (hpeeks.pc _) (fun _ => .get_bind fun _ => .pure _) s

/-! ### Local variables -/

omit hpeeks in
theorem relates_within : Relates (M := EStateM Halt (State R D)) (N := EStateM Halt (State R D))
    fun _ m n => m = n ∧ Within Q m :=
  .of_closed .pure .bind

theorem Peeks.locals (tid : Tid) (address : Address) : Within Q (locals arch env tid address) :=
  .get_bind fun s => (related_localsWith relates_within ⟨rfl, hpeeks.getRegs tid⟩
    (fun address => ⟨rfl, hpeeks.readWord address⟩) _ _).2 s

/-! ### The frames -/

theorem Peeks.backtrace : Within Q (backtrace arch env) := by
  have hcaller : ∀ frame, Within Q (callerWith Halt.exception? (Cosy.readWord env) frame) := by
    intro frame
    refine Within.rescue ?_ fun _ => .pure _
    exact (hpeeks.readWord _).bind fun _ => (hpeeks.readWord _).bind fun _ => .pure _
  refine .get_bind fun s => Within.bind (hpeeks.pc _) (fun current => ?_) s
  refine (hpeeks.framePointer _).bind fun frame => ?_
  exact (related_backtraceFromWith relates_within (fun frame => ⟨rfl, hcaller frame⟩) 64 _ _ _).2

end Peeks

/-! ### Showing the state -/

section Shows

variable (hshows : Shows env Q)

include hshows

theorem Shows.print (message : Message) : Within Q (print (R := R) (D := D) message) :=
  hshows.note rfl

variable [IsPreorder (State R D) Q]

theorem Shows.printAll {γ : Type} (message : γ → Message) (xs : List γ) :
    Within Q (xs.forM fun x => Cosy.print (R := R) (D := D) (message x)) :=
  .forM xs fun _ _ => hshows.print _

theorem Shows.inspectWatchpoints (tid : Tid) (watchpoints : List Watchpoint) :
    Within Q (inspectWatchpoints env tid watchpoints) := by
  induction watchpoints with
  | nil => exact .pure _
  | cons watchpoint rest ih =>
      refine Within.bind (Within.rescue hshows.peek fun _ => .pure _) fun code => ?_
      exact Within.ite (fun _ => hshows.print _) fun _ => ih

theorem Shows.printLocation (tid : Tid) : Within Q (printLocation arch env tid) := by
  refine .get_bind fun s => Within.bind (hshows.pc tid) (fun current => ?_) s
  refine (hshows.pc tid).bind fun current' => Within.ite (fun _ => hshows.print _) fun _ => ?_
  refine Within.ite (fun _ => ?_) fun _ => .pure _
  exact (hshows.pc tid).bind fun _ => hshows.print _

theorem Shows.printBreakpoints : Within Q (printBreakpoints (R := R) (D := D)) :=
  .get_bind fun s => Within.bind (hshows.print _) (fun _ =>
    Within.bind (hshows.printAll (fun entry : Address × Breakpoint => .breakpointRow entry.2) _)
      fun _ => hshows.printAll .breakpointRow _) s

theorem Shows.printThreads : Within Q (printThreads (R := R) (D := D)) :=
  .get_bind fun s =>
    hshows.printAll (fun entry : Tid × ThreadState => .threadRow _ entry.2) _ s

theorem Shows.printModules : Within Q (printModules (R := R) (D := D)) :=
  .get_bind fun s => hshows.printAll .moduleRow _ s

theorem Shows.printRegisters : Within Q (printRegisters arch env) :=
  .get_bind fun s => Within.bind (hshows.getRegs _)
    (fun _ => hshows.printAll (fun row : Text × Address => .registerRow row.1 row.2) _) s

theorem Shows.printFrames (frames : List (Address × Address)) :
    ∀ index, Within Q (printFrames (R := R) (D := D) index frames) := by
  induction frames with
  | nil => exact fun _ => .pure _
  | cons frame rest ih =>
      exact fun index => .get_bind fun s => Within.bind (hshows.print _) (fun _ => ih _) s

theorem Shows.printBacktrace : Within Q (printBacktrace arch env) :=
  hshows.backtrace.bind fun frames => hshows.printFrames frames 0

theorem Shows.printLocals (wanted : Option Text) : Within Q (printLocals arch env wanted) := by
  refine .get_bind fun s => Within.ite (fun _ => hshows.print _) (fun _ => ?_) s
  refine (hshows.pc _).bind fun current => (hshows.locals _ _).bind fun values => ?_
  refine (hshows.printAll .variableRow _).bind fun _ => ?_
  exact Within.ite (fun _ => hshows.print _) fun _ => .pure _

theorem Shows.printWords (count : Nat) : ∀ address, Within Q (printWords env address count) := by
  induction count with
  | zero => exact fun _ => .pure _
  | succ count ih =>
      intro address
      refine Within.bind (Within.rescue ?_ fun _ => .pure _) fun value => ?_
      · exact (hshows.readWord _).bind fun _ => .pure _
      · cases value with
        | error exception => exact hshows.print _
        | ok value => exact (hshows.print _).bind fun _ => ih _

theorem Shows.printMemory (arguments : List Text) : Within Q (printMemory env arguments) := by
  refine Within.ite (fun _ => hshows.print _) fun _ => ?_
  cases parseAddress (arguments.getD 1 []) with
  | none => exact hshows.print _
  | some address =>
      refine Within.ite (fun _ => ?_) fun _ => hshows.printWords _ _
      cases parseAddress (arguments.getD 2 []) with
      | none => exact hshows.print _
      | some count =>
          exact Within.ite (fun _ => hshows.print _) fun _ => hshows.printWords _ _

theorem Shows.readRegister (name : Text) : Within Q (readRegister arch env name) :=
  .get_bind fun s => Within.bind (hshows.getRegs _) (fun _ => hshows.print _) s

omit [IsPreorder (State R D) Q] in
/-- The arguments of `watch` are read before anything else is done. -/
theorem Shows.setWatchpoint (hadd : ∀ address watchAccess bytes,
    Within Q (addWatchpoint arch env address watchAccess bytes)) (arguments : List Text) :
    Within Q (setWatchpoint arch env arguments) := by
  unfold Cosy.setWatchpoint
  refine Within.ite (fun _ => hshows.print _) fun _ => ?_
  cases parseAddress (arguments.getD 1 []) with
  | none => exact hshows.print _
  | some address =>
      dsimp only
      split
      · exact hshows.print _
      · split
        · exact hshows.print _
        · exact hadd _ _ _

theorem Shows.infoCommand (topic : Text) : Within Q (infoCommand arch env topic) := by
  refine Within.ite (fun _ => hshows.printBreakpoints) fun _ => ?_
  refine Within.ite (fun _ => hshows.printThreads) fun _ => ?_
  refine Within.ite (fun _ => hshows.printModules) fun _ => ?_
  refine Within.ite (fun _ => hshows.printRegisters) fun _ => ?_
  exact Within.ite (fun _ => hshows.printLocals _) fun _ => hshows.print _

end Shows

/-! ### Setting registers -/

section Touches

variable (htouches : Touches arch env Q) [IsPreorder (State R D) Q]

include htouches

theorem Touches.setPc (tid : Tid) (value : Address) : Within Q (setPc arch env tid value) :=
  (htouches.getRegs tid).bind fun _ => (htouches.setRegs tid _).bind fun _ => htouches.note rfl

theorem Touches.writeRegister (name : Text) (value : Address) :
    Within Q (writeRegister arch env name value) := by
  refine .get_bind fun s => Within.bind (htouches.getRegs _) (fun regs => ?_) s
  cases arch.setRegisterValue regs name value with
  | none => exact .pure _
  | some regs => exact (htouches.setRegs _ _).bind fun _ => .pure _

theorem Touches.registerCommand (arguments : List Text) :
    Within Q (registerCommand arch env arguments) := by
  unfold Cosy.registerCommand
  split
  · exact Within.ite (fun _ => htouches.readRegister _) fun _ => htouches.print _
  · refine Within.ite (fun _ => ?_) fun _ => htouches.print _
    split
    · exact htouches.print _
    · exact (htouches.writeRegister _ _).bind fun _ =>
        Within.ite (fun _ => .pure _) fun _ => htouches.print _
  · exact htouches.print _

end Touches

end Cosy
