import Cosy.Controller
import Cosy.Reselecting

/-!
# Having a look

The commands that only look at the target say what they have found, and never that a breakpoint has
been hit. What does not mind a request that reads, a message of that kind, or another frame being
selected, therefore does not mind any number of such commands.
-/

namespace Cosy

open Effect

variable {R D : Type} {arch : Architecture R D} {env : Environment R D}
  {Q : State R D → State R D → Prop}

/-- `Q` does not mind that the target is looked at, and that something other than a hit is shown. -/
structure Displays (env : Environment R D) (Q : State R D → State R D → Prop) : Prop
    extends Peeks env Q where
  display : ∀ {message : Message}, (Entry.out message).announcedHit = none →
    Within Q (print (R := R) (D := D) message)

section Displays

variable (hdisplays : Displays env Q)

include hdisplays

theorem Displays.line (text : String) : Within Q (print (R := R) (D := D) (.line text)) :=
  hdisplays.display rfl

variable [IsPreorder (State R D) Q]

theorem Displays.printBreakpoints : Within Q (printBreakpoints (R := R) (D := D)) := by
  refine .get_bind fun s => Within.bind (hdisplays.line _) (fun _ => Within.bind ?_ fun _ => ?_) s
  · exact .forM _ fun _ _ => hdisplays.display rfl
  · exact .forM _ fun _ _ => hdisplays.display rfl

theorem Displays.printThreads : Within Q (printThreads (R := R) (D := D)) :=
  .get_bind fun s => Within.forM _ (fun _ _ => hdisplays.display rfl) s

theorem Displays.printModules : Within Q (printModules (R := R) (D := D)) :=
  .get_bind fun s => Within.forM _ (fun _ _ => hdisplays.display rfl) s

theorem Displays.printRegisters : Within Q (printRegisters arch env) := by
  refine .get_bind fun s => Within.bind (hdisplays.getRegs _) (fun _ => ?_) s
  exact .forM _ fun _ _ => hdisplays.display rfl

theorem Displays.printFrames (frames : List (Address × Address)) :
    ∀ index, Within Q (printFrames (R := R) (D := D) index frames) := by
  induction frames with
  | nil => exact fun _ => .pure _
  | cons frame rest ih =>
      intro index
      exact .get_bind fun s => Within.bind (hdisplays.display rfl) (fun _ => ih _) s

theorem Displays.printBacktrace : Within Q (printBacktrace arch env) :=
  hdisplays.backtrace.bind fun frames => hdisplays.printFrames frames 0

theorem Displays.printLocals (wanted : Option Text) : Within Q (printLocals arch env wanted) := by
  refine .get_bind fun s => Within.ite (fun _ => hdisplays.line _) (fun _ => ?_) s
  refine (hdisplays.pc _).bind fun current => (hdisplays.locals _ _).bind fun values => ?_
  refine Within.bind (.forM _ fun _ _ => hdisplays.display rfl) fun _ => ?_
  exact Within.ite (fun _ => hdisplays.line _) fun _ => .pure _

theorem Displays.printWords (count : Nat) : ∀ address, Within Q (printWords env address count) := by
  induction count with
  | zero => exact fun _ => .pure _
  | succ count ih =>
      intro address
      refine Within.bind (Within.rescue ?_ fun _ => .pure _) fun value => ?_
      · exact (hdisplays.readWord _).bind fun _ => .pure _
      · cases value with
        | error exception => exact hdisplays.display rfl
        | ok value => exact (hdisplays.display rfl).bind fun _ => ih _

theorem Displays.printMemory (arguments : List Text) : Within Q (printMemory env arguments) := by
  refine Within.ite (fun _ => hdisplays.line _) fun _ => ?_
  cases parseAddress (arguments.getD 1 []) with
  | none => exact hdisplays.line _
  | some address =>
      refine Within.ite (fun _ => ?_) fun _ => hdisplays.printWords _ _
      cases parseAddress (arguments.getD 2 []) with
      | none => exact hdisplays.line _
      | some count =>
          exact Within.ite (fun _ => hdisplays.line _) fun _ => hdisplays.printWords _ _

theorem Displays.readRegister (name : Text) : Within Q (readRegister arch env name) :=
  .get_bind fun s => Within.bind (hdisplays.getRegs _) (fun _ => hdisplays.display rfl) s

theorem Displays.infoCommand (topic : Text) : Within Q (infoCommand arch env topic) := by
  refine Within.ite (fun _ => hdisplays.printBreakpoints) fun _ => ?_
  refine Within.ite (fun _ => hdisplays.printThreads) fun _ => ?_
  refine Within.ite (fun _ => hdisplays.printModules) fun _ => ?_
  refine Within.ite (fun _ => hdisplays.printRegisters) fun _ => ?_
  exact Within.ite (fun _ => hdisplays.printLocals _) fun _ => hdisplays.line _

omit [IsPreorder (State R D) Q] in
theorem Displays.withNumber {arguments : List Text} {usage : String} {body : Address → Dbg R D Unit}
    (hbody : ∀ value, Within Q (body value)) : Within Q (withNumber arguments usage body) := by
  unfold Cosy.withNumber
  split
  · split
    · exact hbody _
    · exact hdisplays.line _
  · exact hdisplays.line _

end Displays

/-! ### What a line asks for -/

/-- A command that takes one number asks for this; with anything else it only says how it is used. -/
def numbered (arguments : List Text) (ask : Address → Directive Address) :
    Option (Directive Address) :=
  match arguments with
  | [_, argument] => some (((parseAddress argument).map ask).getD .look)
  | _ => some .look

/-- What a command asks a controller for, if it is one that controllers know. They do not know steps
to another line, to the caller or to a watched location, other locations than addresses, changes of
the registers or of the memory, and other threads. -/
def directive (command : Text) (arguments : List Text) : Option (Directive Address) :=
  if isAlias command ["help".toList, "h".toList] then some .look
  else if isAlias command ["continue".toList, "c".toList] then some .goOn
  else if isAlias command ["stepi".toList, "si".toList] then some .step
  else if isAlias command ["step".toList, "s".toList, "next".toList, "n".toList] then none
  else if command = "finish".toList then none
  else if isAlias command ["break".toList, "b".toList] then
    match arguments with
    | [_, '*' :: address] => (parseAddress address).map .mark
    | [_, _] => none
    | _ => some .look
  else if command = "delete".toList then numbered arguments fun value => .remove (toPid value)
  else if command = "enable".toList then
    numbered arguments fun value => .switch (toPid value) true
  else if command = "disable".toList then
    numbered arguments fun value => .switch (toPid value) false
  else if command = "watch".toList then none
  else if isAlias command ["backtrace".toList, "bt".toList] then some .look
  else if command = "frame".toList then some .look
  else if command = "print".toList then some .look
  else if command = "x".toList then some .look
  else if command = "set".toList then none
  else if command = "register".toList then
    match arguments with
    | [_, _, _, _] => none
    | _ => some .look
  else if command = "thread".toList then none
  else some .look

section Looking

variable {Q : State R D → State R D → Prop} [IsPreorder (State R D) Q]
  (hdisplays : Displays env Q)
  (hframe : ∀ frame, Within Q
    (modifyDebugger (R := R) (D := D) fun d => { d with selectedFrame := frame }))

include hdisplays

omit [IsPreorder (State R D) Q] in
/-- A number that cannot be read makes a command say how it is used. -/
theorem Displays.unnumbered {arguments : List Text} {usage : String} {body : Address → Dbg R D Unit}
    {ask : Address → Directive Address} (hlook : numbered arguments ask = some .look)
    (hask : ∀ value, ask value ≠ .look) : Within Q (Cosy.withNumber arguments usage body) := by
  unfold Cosy.withNumber
  split
  · rename_i argument
    cases hvalue : parseAddress argument with
    | none => exact hdisplays.line _
    | some value =>
        simp only [numbered, hvalue, Option.map_some, Option.getD_some, Option.some.injEq] at hlook
        exact absurd hlook (hask value)
  · exact hdisplays.line _

include hframe

/-- Another frame is selected, and the frames are shown. -/
theorem Displays.selectFrame (frame : Nat) : Within Q (selectFrame arch env frame) :=
  (hframe frame).bind fun _ => hdisplays.printBacktrace

theorem Displays.runCommand {command : Text} {arguments : List Text}
    (hlook : directive command arguments = some .look) :
    Within Q (runCommand arch env command arguments) := by
  unfold directive at hlook
  unfold Cosy.runCommand
  refine Within.ite (fun _ => hdisplays.line _) fun hhelp => ?_
  rw [if_neg hhelp] at hlook
  refine Within.ite (fun hcontinue => ?_) fun hcontinue => ?_
  · rw [if_pos hcontinue] at hlook
    cases hlook
  rw [if_neg hcontinue] at hlook
  refine Within.ite (fun hstepi => ?_) fun hstepi => ?_
  · rw [if_pos hstepi] at hlook
    cases hlook
  rw [if_neg hstepi] at hlook
  refine Within.ite (fun hstep => ?_) fun hstep => ?_
  · rw [if_pos hstep] at hlook
    cases hlook
  rw [if_neg hstep] at hlook
  refine Within.ite (fun hfinish => ?_) fun hfinish => ?_
  · rw [if_pos hfinish] at hlook
    cases hlook
  rw [if_neg hfinish] at hlook
  refine Within.ite (fun hbreak => ?_) fun hbreak => ?_
  · rw [if_pos hbreak] at hlook
    split at hlook
    · obtain ⟨value, -, hmark⟩ := Option.map_eq_some_iff.mp hlook
      cases hmark
    · cases hlook
    · rename_i hpair
      split
      · exact (hpair _ _ rfl).elim
      · exact hdisplays.line _
  rw [if_neg hbreak] at hlook
  refine Within.ite (fun hdelete => ?_) fun hdelete => ?_
  · rw [if_pos hdelete] at hlook
    exact hdisplays.unnumbered hlook fun _ => by simp
  rw [if_neg hdelete] at hlook
  refine Within.ite (fun henable => ?_) fun henable => ?_
  · rw [if_pos henable] at hlook
    exact hdisplays.unnumbered hlook fun _ => by simp
  rw [if_neg henable] at hlook
  refine Within.ite (fun hdisable => ?_) fun hdisable => ?_
  · rw [if_pos hdisable] at hlook
    exact hdisplays.unnumbered hlook fun _ => by simp
  rw [if_neg hdisable] at hlook
  refine Within.ite (fun hwatch => ?_) fun hwatch => ?_
  · rw [if_pos hwatch] at hlook
    cases hlook
  rw [if_neg hwatch] at hlook
  refine Within.ite (fun _ => hdisplays.selectFrame hframe 0) fun hback => ?_
  rw [if_neg hback] at hlook
  refine Within.ite (fun _ => hdisplays.withNumber fun _ => ?_) fun hselect => ?_
  · exact hdisplays.selectFrame hframe _
  rw [if_neg hselect] at hlook
  refine Within.ite (fun _ => ?_) fun hprint => ?_
  · split
    · exact hdisplays.printLocals _
    · exact hdisplays.line _
  rw [if_neg hprint] at hlook
  refine Within.ite (fun _ => hdisplays.printMemory _) fun hmemory => ?_
  rw [if_neg hmemory] at hlook
  refine Within.ite (fun hset => ?_) fun hset => ?_
  · rw [if_pos hset] at hlook
    cases hlook
  rw [if_neg hset] at hlook
  refine Within.ite (fun hregister => ?_) fun hregister => ?_
  · rw [if_pos hregister] at hlook
    unfold Cosy.registerCommand
    split
    · exact Within.ite (fun _ => hdisplays.readRegister _) fun _ => hdisplays.line _
    · cases hlook
    · exact hdisplays.line _
  rw [if_neg hregister] at hlook
  refine Within.ite (fun hthread => ?_) fun _ => ?_
  · rw [if_pos hthread] at hlook
    cases hlook
  exact Within.ite (fun _ => hdisplays.infoCommand _) fun _ => hdisplays.line _

end Looking

end Cosy
