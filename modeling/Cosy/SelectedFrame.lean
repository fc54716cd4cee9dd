import Cosy.Inspection
import Cosy.Recording
import Cosy.Reselecting

/-!
# The selected frame

`bt`, `frame` and `thread` write the number of the selected frame, and nothing else does. `frame`
writes any number, and the commands that let the target run leave the number of a frame behind that
may be gone.
-/

namespace Cosy

open ByteMemory Effect

variable {R D : Type} {arch : Architecture R D} {env : Environment R D} {s t : State R D}

/-! ### How many frames there are -/

variable (arch env) in
/-- The number of frames that `backtrace` finds. -/
def frameCount (s : State R D) : Option Nat :=
  match backtrace arch env s with
  | .ok frames _ => some frames.length
  | .error _ _ => none

theorem backtraceFromWith_ne_nil {caller : Address → Dbg R D (Option (Address × Address))}
    {seen : List Address} {current frame : Address} {depth : Nat} {frames : List (Address × Address)}
    (hrun : backtraceFromWith caller seen current frame (depth + 1) s = .ok frames t) :
    frames ≠ [] := by
  rw [backtraceFromWith] at hrun
  split at hrun
  · obtain ⟨rfl, -⟩ := EStateM.Result.ok.inj hrun
    exact List.cons_ne_nil _ _
  · obtain ⟨next, u, -, hrest⟩ := of_bind_ok hrun
    cases next with
    | none =>
        obtain ⟨rfl, -⟩ := EStateM.Result.ok.inj hrest
        exact List.cons_ne_nil _ _
    | some next =>
        dsimp only at hrest
        split at hrest
        · obtain ⟨rfl, -⟩ := EStateM.Result.ok.inj hrest
          exact List.cons_ne_nil _ _
        · obtain ⟨rest, v, -, hlast⟩ := of_bind_ok hrest
          obtain ⟨rfl, -⟩ := EStateM.Result.ok.inj hlast
          exact List.cons_ne_nil _ _

/-- There is always the frame the thread stands in. -/
theorem frameCount_pos {n : Nat} (hcount : frameCount arch env s = some n) : 0 < n := by
  unfold frameCount at hcount
  split at hcount
  · rename_i frames u hrun
    obtain rfl := Option.some.inj hcount
    rw [backtrace, get_bind_apply] at hrun
    obtain ⟨current, v, -, hrun⟩ := of_bind_ok hrun
    obtain ⟨frame, w, -, hrun⟩ := of_bind_ok hrun
    exact List.length_pos_of_ne_nil (backtraceFromWith_ne_nil hrun)
  · cases hcount

/-- Where there are frames now, there were at most as many before. -/
def FramesKept (arch : Architecture R D) (env : Environment R D) (s t : State R D) : Prop :=
  ∀ n, frameCount arch env t = some n → ∃ m, frameCount arch env s = some m ∧ m ≤ n

/-- The selected frame is one of those there are. -/
def FrameExists (arch : Architecture R D) (env : Environment R D) (s : State R D) : Prop :=
  ∀ n, frameCount arch env s = some n → s.debugger.selectedFrame < n

theorem frameExists_of_zero (hzero : s.debugger.selectedFrame = 0) : FrameExists arch env s :=
  fun _ hcount => hzero ▸ frameCount_pos hcount

/-! ### Frames of a process that stands still -/

/-- The frames that the registers and the memory show. -/
def framesIn (arch : Architecture R D) (regs : R) (m : Memory) : List (Address × Address) :=
  Id.run (backtraceFromWith (fun frame => pure (some (word m (frame + 8), word m frame))) []
    (arch.pc regs) (arch.framePointer regs) 64)

section Still

variable {m : Memory} {regs : R} {tid : Tid} (henv : env.WritesNothing) (hreliable : env.Reliable)

include henv hreliable

/-- Both words of a frame can be read. -/
theorem finds_caller (frame : Address) : Finds (Inspecting s m tid regs)
    (callerWith Halt.exception? (readWord env) frame)
    (some (word m (frame + 8), word m frame)) := by
  have hboth : Finds (Inspecting s m tid regs)
      (do
        let caller ← readWord env (frame + 8)
        let next ← readWord env frame
        pure (some (caller, next)))
      (some (word m (frame + 8), word m frame)) :=
    (finds_readWord henv hreliable (frame + 8)).bind
      ((finds_readWord henv hreliable frame).bind (.pure _))
  intro t ht
  obtain ⟨u, hrun, hu⟩ := hboth t ht
  exact ⟨u, by rw [callerWith, rescue, hrun], hu⟩

/-- What the command shows is what the registers and the memory show. -/
theorem frameCount_eq (hs : Inspecting s m s.debugger.selectedTid regs s) :
    frameCount arch env s = some (framesIn arch regs m).length := by
  have hfinds : Finds (Inspecting s m s.debugger.selectedTid regs)
      (backtraceWith arch Halt.exception? (getRegs arch env s.debugger.selectedTid) (readWord env))
      (framesIn arch regs m) := by
    refine Finds.bind (a := arch.pc regs) ((finds_getRegs henv hreliable).bind (.pure _)) ?_
    refine (finds_framePointer henv hreliable).bind ?_
    exact related_backtraceFromWith relates_finds (finds_caller henv hreliable) 64 _ _ _
  obtain ⟨t, hrun, -⟩ := hfinds s hs
  rw [frameCount, backtrace, get_bind_apply, hrun]

theorem frameCount_of_stopped {task : Task R D}
    (htask : s.target.tasks.find? s.debugger.selectedTid = some task) (hstopped : task.stopped = true) :
    frameCount arch env s = some (framesIn arch task.regs s.target.memory).length :=
  frameCount_eq henv hreliable
    ⟨Requested.refl _, ⟨task, htask, hstopped⟩, task, htask, hstopped, rfl⟩

/-- The frames are kept where the registers and the memory are. -/
theorem framesKept_of_still {task task' : Task R D}
    (htask : s.target.tasks.find? s.debugger.selectedTid = some task) (hstopped : task.stopped = true)
    (htask' : t.target.tasks.find? t.debugger.selectedTid = some task')
    (hstopped' : task'.stopped = true) (hregs : task'.regs = task.regs)
    (hmemory : t.target.memory = s.target.memory) : FramesKept arch env s t := by
  intro n hcount
  rw [frameCount_of_stopped henv hreliable htask' hstopped', hregs, hmemory] at hcount
  exact ⟨n, (frameCount_of_stopped henv hreliable htask hstopped).trans hcount, le_rfl⟩

end Still

/-! ### What a line selects -/

theorem unconcerned_selectedFrame : Unconcerned Debugger.selectedFrame :=
  fun _ _ hsame => hsame.selectedFrame

/-- The number of a `frame N`. -/
def frameNumber (line : Text) : Option Nat :=
  match words line with
  | [command, argument] =>
      if command = "frame".toList then (parseAddress argument).map BitVec.toNat else none
  | _ => none

def asksBacktrace (line : Text) : Bool :=
  match words line with
  | command :: _ => isAlias command ["backtrace".toList, "bt".toList]
  | [] => false

/-- A line selects a thread that is recorded as stopped. -/
def selectsThread (s : State R D) (line : Text) : Bool :=
  (threadArgument line).any fun tid => decide (s.debugger.recordOf tid = some true)

/-- The frame that is selected after a line. -/
def frameAfter (s : State R D) (line : Text) : Nat :=
  if asksBacktrace line then 0
  else if selectsThread s line then 0
  else (frameNumber line).getD s.debugger.selectedFrame

theorem frameAfter_of_ne_zero {line : Text} (hne : frameAfter s line ≠ 0) :
    frameAfter s line = (frameNumber line).getD s.debugger.selectedFrame := by
  unfold frameAfter at hne ⊢
  by_cases hback : asksBacktrace line = true
  · exact absurd (if_pos hback) hne
  rw [if_neg hback] at hne ⊢
  by_cases hselects : selectsThread s line = true
  · exact absurd (if_pos hselects) hne
  exact if_neg hselects

theorem same_selectFrame (frame : Nat) (s : State R D) :
    (endState (selectFrame arch env frame) s).debugger.selectedFrame = frame := by
  have hserves : ServesBesides arch env Set.univ (Same (R := R) (D := D) Debugger.selectedFrame) :=
    unconcerned_selectedFrame.serves
  let t := s.withDebugger { s.debugger with selectedFrame := frame }
  have hrun : endState (selectFrame arch env frame) s = endState (printBacktrace arch env) t := rfl
  rw [hrun]
  exact hserves.printBacktrace t

/-- A line is handled by its command, and an exception is printed. -/
theorem endState_dispatch {line : Text} {command : Text} {rest : List Text}
    (hline : words line = command :: rest) (hquit : isQuit command = false)
    {I : State R D → Prop} (hI : ∀ message, Within (Keeps I) (print (R := R) (D := D) message))
    (hcommand : I (endState (runCommand arch env command (command :: rest)) s)) :
    I (afterLine arch env line s) := by
  rw [afterLine, dispatch, hline]
  dsimp only
  rw [if_neg (by simp [hquit])]
  exact endState_bind_of (endState_rescue_of hcommand fun _ => hI _) fun _ => .pure _

/-- A command that takes one number. -/
theorem withNumber_number {command argument : Text} {usage : String}
    {body : Address → Dbg R D Unit} {value : Address} (hvalue : parseAddress argument = some value) :
    withNumber [command, argument] usage body = body value := by
  rw [withNumber, hvalue]

/-- The same given something else. -/
theorem withNumber_usage {arguments : List Text} {usage : String} {body : Address → Dbg R D Unit}
    (hnone : ∀ command argument, arguments = [command, argument] → parseAddress argument = none) :
    withNumber arguments usage body = print (.line usage) := by
  unfold withNumber
  split
  · rename_i command argument
    rw [hnone command argument rfl]
  · rfl

theorem selectThread_selectedFrame (tid : Tid) (s : State R D) :
    (endState (selectThread arch env tid) s).debugger.selectedFrame
      = if s.debugger.recordOf tid = some true then 0 else s.debugger.selectedFrame := by
  have htends : TendsWithin arch env (Same (R := R) (D := D) Debugger.selectedFrame) :=
    unconcerned_selectedFrame.tends
  by_cases hrecorded : s.debugger.recordOf tid = some true
  · rw [if_pos hrecorded, endState, selectThread_of_recorded hrecorded]
    exact htends.printStop tid (s.reselect tid)
  · rw [if_neg hrecorded, endState, selectThread, get_bind_apply]
    rw [Debugger.recordOf] at hrecorded
    cases hstate : s.debugger.threads.find? tid with
    | none => rfl
    | some state =>
        rw [hstate, Option.map_some, Option.some.injEq] at hrecorded
        dsimp only
        rw [if_neg hrecorded]
        rfl

theorem same_addWatchpoint (address : Address) (watchAccess : WatchAccess) (bytes : Nat) :
    Within (Same Debugger.selectedFrame) (addWatchpoint arch env address watchAccess bytes) := by
  have hprint : ∀ message, Within (Same Debugger.selectedFrame) (print (R := R) (D := D) message) :=
    fun message => same_note (.out message)
  refine Within.get_bind fun s => Within.ite (fun _ => hprint _) (fun _ => ?_) s
  refine Within.rescue (Within.bind (Within.forM _ fun entry _ => ?_) fun _ => ?_) fun _ => hprint _
  · refine Within.ite (fun _ => ?_) fun _ => .pure _
    exact (tolerates_same env (fun _ => True) _).configureWatchpoint _ _ _ _ _
  · exact Within.bind (Within.modify fun _ => rfl) fun _ => hprint _

/-- What is printed changes no frame. -/
theorem print_selectedFrame (n : Nat) (message : Message) :
    Within (Keeps fun t : State R D => t.debugger.selectedFrame = n) (print message) :=
  Within.modify fun _ hn => hn

section Line

variable {line command : Text} {rest : List Text} (hline : words line = command :: rest)

include hline

theorem selectedFrame_afterLine_backtrace (hback : asksBacktrace line = true) :
    (afterLine arch env line s).debugger.selectedFrame = 0 := by
  have hnamed : isAlias command ["backtrace".toList, "bt".toList] = true := by
    rwa [asksBacktrace, hline] at hback
  have hcommand : runCommand arch env command (command :: rest) = selectFrame arch env 0 := by
    simp only [isAlias, List.contains_cons, List.contains_nil, Bool.or_eq_true, beq_iff_eq,
      Bool.false_eq_true, or_false] at hnamed
    rcases hnamed with rfl | rfl
    · rfl
    · rfl
  have hquit : isQuit command = false := by
    simp only [isAlias, List.contains_cons, List.contains_nil, Bool.or_eq_true, beq_iff_eq,
      Bool.false_eq_true, or_false] at hnamed
    rcases hnamed with rfl | rfl
    · rfl
    · rfl
  refine endState_dispatch hline hquit (I := fun t => t.debugger.selectedFrame = 0)
    (print_selectedFrame 0) ?_
  rw [hcommand]
  exact same_selectFrame 0 s

theorem selectedFrame_afterLine_frame (hcommand : command = "frame".toList) :
    (afterLine arch env line s).debugger.selectedFrame
      = (frameNumber line).getD s.debugger.selectedFrame := by
  subst hcommand
  have hrun : ∀ n, (endState (runCommand arch env "frame".toList ("frame".toList :: rest)) s
      ).debugger.selectedFrame = n → (afterLine arch env line s).debugger.selectedFrame = n :=
    fun n hn => endState_dispatch hline rfl (I := fun t => t.debugger.selectedFrame = n)
      (print_selectedFrame n) hn
  apply hrun
  have hnumber : runCommand arch env "frame".toList ("frame".toList :: rest)
      = withNumber ("frame".toList :: rest) "usage: frame NUMBER" fun value =>
        selectFrame arch env value.toNat := rfl
  rw [hnumber]
  cases hchosen : frameNumber line with
  | some frame =>
      unfold frameNumber at hchosen
      rw [hline] at hchosen
      split at hchosen
      · rename_i argument heq
        obtain ⟨rfl, rfl⟩ := List.cons.inj heq
        rw [if_pos rfl, Option.map_eq_some_iff] at hchosen
        obtain ⟨value, hvalue, rfl⟩ := hchosen
        rw [withNumber_number hvalue]
        exact same_selectFrame value.toNat s
      · cases hchosen
  | none =>
      rw [withNumber_usage fun _ argument heq => ?_]
      · rfl
      · obtain ⟨rfl, rfl⟩ := List.cons.inj heq
        unfold frameNumber at hchosen
        rw [hline] at hchosen
        exact Option.map_eq_none_iff.mp ((if_pos rfl).symm.trans hchosen)

theorem selectedFrame_afterLine_thread (hcommand : command = "thread".toList) :
    (afterLine arch env line s).debugger.selectedFrame
      = if selectsThread s line then 0 else s.debugger.selectedFrame := by
  subst hcommand
  have hrun : ∀ n, (endState (runCommand arch env "thread".toList ("thread".toList :: rest)) s
      ).debugger.selectedFrame = n → (afterLine arch env line s).debugger.selectedFrame = n :=
    fun n hn => endState_dispatch hline rfl (I := fun t => t.debugger.selectedFrame = n)
      (print_selectedFrame n) hn
  apply hrun
  have hnumber : runCommand arch env "thread".toList ("thread".toList :: rest)
      = withNumber ("thread".toList :: rest) "usage: thread TID" fun value =>
        selectThread arch env (toPid value) := rfl
  rw [hnumber, selectsThread]
  cases hchosen : threadArgument line with
  | some tid =>
      unfold threadArgument at hchosen
      rw [hline] at hchosen
      split at hchosen
      · rename_i argument heq
        obtain ⟨rfl, rfl⟩ := List.cons.inj heq
        rw [if_pos rfl, Option.map_eq_some_iff] at hchosen
        obtain ⟨value, hvalue, rfl⟩ := hchosen
        rw [withNumber_number hvalue, selectThread_selectedFrame, Option.any_some]
        simp only [decide_eq_true_eq]
      · cases hchosen
  | none =>
      rw [withNumber_usage fun _ argument heq => ?_]
      · rfl
      · obtain ⟨rfl, rfl⟩ := List.cons.inj heq
        unfold threadArgument at hchosen
        rw [hline] at hchosen
        exact Option.map_eq_none_iff.mp ((if_pos rfl).symm.trans hchosen)

theorem frameNumber_of_ne (hcommand : command ≠ "frame".toList) : frameNumber line = none := by
  rw [frameNumber, hline]
  split
  · rename_i heq
    obtain ⟨rfl, -⟩ := List.cons.inj heq
    exact if_neg hcommand
  · rfl

theorem threadArgument_of_ne (hcommand : command ≠ "thread".toList) : threadArgument line = none := by
  rw [threadArgument, hline]
  split
  · rename_i heq
    obtain ⟨rfl, -⟩ := List.cons.inj heq
    exact if_neg hcommand
  · rfl

end Line

variable (arch env) in
/-- Only `bt`, `frame` and `thread` select a frame. -/
theorem selectedFrame_afterLine (s : State R D) (line : Text) :
    (afterLine arch env line s).debugger.selectedFrame = frameAfter s line := by
  have hserves : ServesBesides arch env Set.univ (Same (R := R) (D := D) Debugger.selectedFrame) :=
    unconcerned_selectedFrame.serves
  rw [frameAfter]
  cases hline : words line with
  | nil =>
      have hstays : afterLine arch env line s = s := by
        rw [afterLine, dispatch, hline]
        rfl
      rw [hstays, asksBacktrace, selectsThread, threadArgument, frameNumber, hline]
      rfl
  | cons command rest =>
      cases hback : asksBacktrace line with
      | true => exact (selectedFrame_afterLine_backtrace hline hback).trans (if_pos rfl).symm
      | false =>
          rw [if_neg Bool.false_ne_true]
          by_cases hthread : command = "thread".toList
          · have hframe : command ≠ "frame".toList := hthread ▸ by decide
            rw [selectedFrame_afterLine_thread hline hthread, frameNumber_of_ne hline hframe,
              Option.getD_none]
          rw [selectsThread, threadArgument_of_ne hline hthread, Option.any_none,
            if_neg Bool.false_ne_true]
          by_cases hframe : command = "frame".toList
          · exact selectedFrame_afterLine_frame hline hframe
          rw [frameNumber_of_ne hline hframe, Option.getD_none]
          refine hserves.dispatch line (fun _ _ => trivial) (fun _ _ => ?_) ?_ s
          · exact hserves.setWatchpoint same_addWatchpoint _
          · intro command' rest' hline' hselects
            obtain ⟨rfl, rfl⟩ := List.cons.inj (hline.symm.trans hline')
            rw [asksBacktrace, hline] at hback
            simp only [selectsFrame, isAlias, List.contains_cons, List.contains_nil, Bool.or_eq_true,
              Bool.or_eq_false_iff, beq_iff_eq, beq_eq_false_iff_ne] at hback hselects
            tauto

/-! ### Sessions -/

/-- The commands that let the target run. -/
def movesLine (line : Text) : Bool :=
  match words line with
  | command :: _ =>
      isAlias command ["continue".toList, "c".toList, "stepi".toList, "si".toList, "step".toList,
        "s".toList, "next".toList, "n".toList, "finish".toList]
  | [] => false

theorem frameAfter_of_movesLine {line : Text} (hmoves : movesLine line = true) :
    frameAfter s line = s.debugger.selectedFrame := by
  unfold movesLine at hmoves
  split at hmoves
  · rename_i command rest hline
    have hback : asksBacktrace line = false := by
      rw [asksBacktrace, hline]
      simp only [isAlias, List.contains_cons, List.contains_nil, Bool.or_eq_true, beq_iff_eq] at hmoves
      rcases hmoves with rfl | rfl | rfl | rfl | rfl | rfl | rfl | rfl | rfl | hfalse
      all_goals first | rfl | cases hfalse
    have hthread : command ≠ "thread".toList := fun heq => by
      rw [heq] at hmoves
      cases hmoves
    have hframe : command ≠ "frame".toList := fun heq => by
      rw [heq] at hmoves
      cases hmoves
    rw [frameAfter, hback, if_neg Bool.false_ne_true, selectsThread,
      threadArgument_of_ne hline hthread, Option.any_none, if_neg Bool.false_ne_true,
      frameNumber_of_ne hline hframe, Option.getD_none]
  · cases hmoves

/-- What a command does to the selected frame: the current one is selected after the thread has moved
or another one was selected, and `frame` selects none that there is not. -/
structure FrameFollows (arch : Architecture R D) (env : Environment R D) (s : State R D)
    (line : Text) : Prop where
  moved : movesLine line = true ∧ s.debugger.alive = true ∨ selectsThread s line = true →
    (afterLine arch env line s).debugger.selectedFrame = 0
  outside : ∀ frame n, frameNumber line = some frame → frameCount arch env s = some n → n ≤ frame →
    (afterLine arch env line s).debugger.selectedFrame = s.debugger.selectedFrame

/-- A command that lets the target run is given while the current frame is selected, `frame` with the
number of a frame, and a frame that is selected by number stays there during the other commands. -/
structure GivenWithin (arch : Architecture R D) (env : Environment R D) (s : State R D)
    (line : Text) : Prop where
  moving : movesLine line = true → s.debugger.alive = true → s.debugger.selectedFrame = 0
  inside : ∀ frame n, frameNumber line = some frame → frameCount arch env s = some n → frame < n
  kept : frameAfter s line ≠ 0 → FramesKept arch env s (afterLine arch env line s)

variable {line : Text}

theorem GivenWithin.follows (hgiven : GivenWithin arch env s line) :
    FrameFollows arch env s line where
  moved hmoved := by
    rw [selectedFrame_afterLine]
    rcases hmoved with ⟨hmoves, halive⟩ | hselects
    · rw [frameAfter_of_movesLine hmoves, hgiven.moving hmoves halive]
    · rw [frameAfter, hselects, if_pos rfl, ite_self]
  outside frame n hnumber hcount hle :=
    absurd (hgiven.inside frame n hnumber hcount) (Nat.not_lt.mpr hle)

/-- One command: the frame that is selected after it exists if the one before did. -/
theorem GivenWithin.frameExists (hgiven : GivenWithin arch env s line)
    (hs : FrameExists arch env s) : FrameExists arch env (afterLine arch env line s) := by
  have hafter := selectedFrame_afterLine arch env s line
  by_cases hzero : frameAfter s line = 0
  · exact frameExists_of_zero (hafter.trans hzero)
  · intro n hcount
    obtain ⟨m, hbefore, hle⟩ := hgiven.kept hzero n hcount
    rw [hafter, frameAfter_of_ne_zero hzero]
    refine lt_of_lt_of_le ?_ hle
    cases hnumber : frameNumber line with
    | some frame => exact hgiven.inside frame m hnumber hbefore
    | none => exact hs m hbefore

/-- In every session whose commands are given within the frames there are, the selected frame exists
at every prompt and follows the selected thread. -/
theorem Session.frame_exists {child : Tid} {target : Target R D} {history : List (State R D × Text)}
    {t : State R D} (ht : Session arch env (State.initial child target) history t)
    (hgiven : ∀ step ∈ history, GivenWithin arch env step.1 step.2) :
    FrameExists arch env t ∧ ∀ step ∈ history, FrameFollows arch env step.1 step.2 := by
  refine ⟨?_, fun step hstep => (hgiven step hstep).follows⟩
  induction ht with
  | opened hrun =>
      exact frameExists_of_zero (unconcerned_selectedFrame.openSession.of_ok hrun)
  | @command earlier s u line hs hrun ih =>
      have hearlier := ih fun step hstep => hgiven step (List.mem_cons_of_mem _ hstep)
      have hafter : afterLine arch env line s = u := endState_of_ok hrun
      exact hafter ▸ (hgiven (s, line) List.mem_cons_self).frameExists hearlier

variable (arch env) in
theorem exists_opened (start : State R D) {p : State R D → Bool}
    (hrun : (runBatch arch env start []).any p = true) :
    ∃ s, openSession arch env start = .ok ⟨⟩ s ∧ p s = true := by
  obtain ⟨s, hs, hp⟩ := (Option.any_eq_true _ _).mp hrun
  unfold runBatch at hs
  split at hs
  · rename_i first hopened
    obtain rfl := Option.some.inj hs
    exact ⟨first, hopened, hp⟩
  · cases hs

/-- The command loop goes on after the line. -/
def goesOn (arch : Architecture R D) (env : Environment R D) (line : Text) (s : State R D) : Bool :=
  match dispatch arch env line s with
  | .ok again _ => again
  | .error _ _ => false

theorem dispatch_of_goesOn (hgoes : goesOn arch env line s = true) :
    dispatch arch env line s = .ok true (afterLine arch env line s) := by
  unfold goesOn at hgoes
  split at hgoes
  · rename_i again t hrun
    rw [hgoes] at hrun
    rw [hrun, afterLine, endState_of_ok hrun]
  · cases hgoes

/-- The frame pointer is set to a place from which two frames can be read, and the second one is
selected. -/
theorem Session.frame_exists_nops :
    ∃ history t, Session x86_64 resting (State.initial 1 (nopTarget 1)) history t ∧
      t.debugger.selectedFrame = 1 ∧ FrameExists x86_64 resting t := by
  obtain ⟨s, hopened, hcheck⟩ := exists_opened x86_64 resting (State.initial 1 (nopTarget 1))
    (p := fun s => goesOn x86_64 resting "register write rbp 0x2000".toList s &&
      goesOn x86_64 resting "frame 1".toList
        (afterLine x86_64 resting "register write rbp 0x2000".toList s) &&
      decide (frameCount x86_64 resting
        (afterLine x86_64 resting "register write rbp 0x2000".toList s) = some 2) &&
      decide (frameCount x86_64 resting (afterLine x86_64 resting "frame 1".toList
        (afterLine x86_64 resting "register write rbp 0x2000".toList s)) = some 2))
    (by decide +kernel)
  simp only [Bool.and_eq_true, decide_eq_true_eq] at hcheck
  obtain ⟨⟨⟨hfirst, hsecond⟩, hbefore⟩, hafter⟩ := hcheck
  let u := afterLine x86_64 resting "register write rbp 0x2000".toList s
  have hs : Session x86_64 resting (State.initial 1 (nopTarget 1)) _ _ :=
    .command _ (.command _ (.opened hopened) (dispatch_of_goesOn hfirst)) (dispatch_of_goesOn hsecond)
  have hselected : (afterLine x86_64 resting "frame 1".toList u).debugger.selectedFrame = 1 :=
    selectedFrame_afterLine x86_64 resting u "frame 1".toList
  refine ⟨_, _, hs, hselected, (Session.frame_exists hs ?_).1⟩
  intro step hstep
  rcases List.mem_cons.mp hstep with rfl | hstep
  · have hstays : movesLine "frame 1".toList ≠ true := by decide
    refine ⟨fun hmoves => absurd hmoves hstays, fun frame n hnumber hcount => ?_, fun _ n hn => ?_⟩
    · obtain rfl : n = 2 := Option.some.inj (hcount.symm.trans hbefore)
      obtain rfl : 1 = frame := Option.some.inj hnumber
      exact Nat.lt_succ_self 1
    · obtain rfl : n = 2 := Option.some.inj (hn.symm.trans hafter)
      exact ⟨2, hbefore, le_rfl⟩
  · obtain rfl := List.mem_singleton.mp hstep
    have hstays : movesLine "register write rbp 0x2000".toList ≠ true := by decide
    refine ⟨fun hmoves => absurd hmoves hstays, fun frame n hnumber => ?_, fun hne => ?_⟩
    · cases hnumber
    · exact absurd (unconcerned_selectedFrame.openSession.of_ok hopened) hne

/-- The process has one frame, and the eighth one is selected. -/
theorem missing_frame_selected :
    ∃ history t, Session x86_64 resting (State.initial 1 (nopTarget 1)) history t ∧
      ¬ (FrameExists x86_64 resting t ∧ ∀ step ∈ history, FrameFollows x86_64 resting step.1 step.2) := by
  obtain ⟨history, t, ht, -, hcheck⟩ := Session.exists_of_runBatch x86_64 resting
    (State.initial 1 (nopTarget 1)) ["frame 7".toList]
    (p := fun t => decide (t.debugger.selectedFrame = 7) &&
      decide (frameCount x86_64 resting t = some 1)) (by decide +kernel)
  rw [Bool.and_eq_true, decide_eq_true_eq, decide_eq_true_eq] at hcheck
  refine ⟨history, t, ht, fun hexists => ?_⟩
  have hlt := hexists.1 1 hcheck.2
  omega

end Cosy
