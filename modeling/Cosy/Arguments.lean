import Cosy.Announcements
import Cosy.Numbers

/-!
# Numbers on the command line

`parse_address` reads 64 bits. The commands that take a number keep 32 of them before they compare
the number with anything, so a number can pass for another one.
-/

namespace Cosy

open ByteMemory Effect

variable {R D α : Type} {arch : Architecture R D} {env : Environment R D} {s t : State R D}

/-! ### The commands -/

/-- The commands that look something up by a number, or take it for a size. -/
inductive NumberCommand where
  | delete
  | enable
  | disable
  | thread
  | watch (address : Address) (watchAccess : WatchAccess)
deriving DecidableEq

/-- The command and the number of a line. -/
def numberArgument (line : Text) : Option (NumberCommand × Address) :=
  match words line with
  | [command, argument] =>
      if command = "delete".toList then (parseAddress argument).map fun value => (.delete, value)
      else if command = "enable".toList then
        (parseAddress argument).map fun value => (.enable, value)
      else if command = "disable".toList then
        (parseAddress argument).map fun value => (.disable, value)
      else if command = "thread".toList then
        (parseAddress argument).map fun value => (.thread, value)
      else none
  | command :: address :: watchAccess :: size :: _ =>
      if command = "watch".toList then
        match parseAddress address, parseAccess watchAccess, parseAddress size with
        | some address, some watchAccess, some size => some (.watch address watchAccess, size)
        | _, _, _ => none
      else none
  | _ => none

/-- What `dispatch` calls for such a line. -/
def NumberCommand.run (arch : Architecture R D) (env : Environment R D) :
    NumberCommand → Address → Dbg R D Unit
  | .delete, value => removeBreakpoint env (toPid value)
  | .enable, value => do
      let found ← enableById arch env (toPid value)
      reportUnknown found
  | .disable, value => do
      let found ← disableById env (toPid value)
      reportUnknown found
  | .thread, value => selectThread arch env (toPid value)
  | .watch address watchAccess, value =>
      addWatchpoint arch env address watchAccess (toUnsigned value)

theorem dispatch_number {line : Text} {command : NumberCommand} {value : Address}
    (hline : numberArgument line = some (command, value)) :
    dispatch arch env line = (do
      attempt (command.run arch env value) fun exception => print (.error exception)
      pure true) := by
  unfold numberArgument at hline
  split at hline
  · rename_i name argument hwords
    rw [dispatch, hwords]
    split_ifs at hline with hdelete henable hdisable hthread
    all_goals
      obtain ⟨value', hvalue, heq⟩ := Option.map_eq_some_iff.mp hline
      obtain ⟨rfl, rfl⟩ := Prod.mk.inj heq
    · subst hdelete
      simp only [runCommand, withNumber, hvalue]
      rfl
    · subst henable
      simp only [runCommand, withNumber, hvalue]
      rfl
    · subst hdisable
      simp only [runCommand, withNumber, hvalue]
      rfl
    · subst hthread
      simp only [runCommand, withNumber, hvalue]
      rfl
  · rename_i name address watchAccess size rest hwords
    split_ifs at hline with hwatch
    subst hwatch
    split at hline
    · rename_i address' watchAccess' size' haddress haccess hsize
      obtain ⟨rfl, rfl⟩ := Prod.mk.inj (Option.some.inj hline)
      have hlength : ¬ ("watch".toList :: address :: watchAccess :: size :: rest).length < 2 := by
        simp
      have hset : setWatchpoint arch env ("watch".toList :: address :: watchAccess :: size :: rest)
          = addWatchpoint arch env address' watchAccess' (toUnsigned size') := by
        rw [setWatchpoint, if_neg hlength]
        simp [haddress, haccess, hsize]
      rw [dispatch, hwords, NumberCommand.run, ← hset]
      rfl
    · cases hline
  · cases hline

/-- The number is that of something the command can work on, or a size that a watchpoint can have. -/
def NumberCommand.Names (d : Debugger) : NumberCommand → Int → Prop
  | .delete, n => d.Live n
  | .enable, n | .disable, n => ∃ key r, d.breakpoints.find? key = some r ∧ r.id = n
  | .thread, n => d.recordOf n = some true
  | .watch _ _, n => n = 1 ∨ n = 2 ∨ n = 4 ∨ n = 8

/-- The command has done nothing but say so; `delete` does not even do that. -/
def NumberCommand.Refused : NumberCommand → State R D → State R D → Prop
  | .delete, s, t => t = s
  | .enable, s, t | .disable, s, t => t = s.logged (.out (.line "unknown breakpoint"))
  | .thread, s, t => t = s.logged (.out (.line "unknown or running thread"))
  | .watch _ _, s, t => ∃ message, t = s.logged (.out message)

/-- Whatever has another number was left alone. -/
def NumberCommand.Spares (n : Int) : NumberCommand → Debugger → Debugger → Prop
  | .delete, d, d' | .enable, d, d' | .disable, d, d' =>
      (∀ key r, d.breakpoints.find? key = some r → r.id ≠ n → d'.breakpoints.find? key = some r) ∧
        ∀ p ∈ d.pendingBreakpoints, p.id ≠ n → p ∈ d'.pendingBreakpoints
  | .thread, d, d' => d'.selectedTid = d.selectedTid ∨ d'.selectedTid = n
  | .watch _ _, d, d' => (n = 1 ∨ n = 2 ∨ n = 4 ∨ n = 8) ∨ d'.watchpoints = d.watchpoints

/-- The number on the line is taken for what it is. -/
structure TakesNumber (arch : Architecture R D) (env : Environment R D) (line : Text)
    (command : NumberCommand) (value : Address) (s : State R D) : Prop where
  spares : command.Spares value.toNat s.debugger (endState (dispatch arch env line) s).debugger
  refused : ¬ command.Names s.debugger value.toNat →
    ∃ t, dispatch arch env line s = .ok true t ∧ command.Refused s t

/-! ### What working on a record leaves alone -/

/-- A message that is the same on every run. -/
def Entry.isLine : Entry → Bool
  | .out (.line _) => true
  | _ => false

/-- What is logged of a trap that goes in or out. -/
def Entry.isPatch : Entry → Bool
  | .arming _ | .disarmed _ | .restored _ _ _ => true
  | _ => false

theorem Entry.isLine_of_isPatch (entry : Entry) (hentry : entry.isPatch = true) :
    entry.isLine = false := by
  cases entry <;> first | rfl | cases hentry

section Records

variable {A : Entry → Prop} {Q : State R D → State R D → Prop} [IsPreorder (State R D) Q]
  {key : Address} (hQ : Tolerates env A Q) (hpatch : ∀ entry : Entry, entry.isPatch = true → A entry)
  (hmodify : ∀ change, Within Q (modifyBreakpoint (R := R) (D := D) key change))

include hQ hmodify

theorem Tolerates.insertTrap (address : Address) :
    Within Q (insertTrap arch env key address) := by
  refine Within.bind (hQ.peeks.readBytes _ _) fun saved => ?_
  refine Within.bind (hmodify _) fun _ => ?_
  exact Within.bind (hQ.writeBytes _ _) fun _ => hmodify _

include hpatch

theorem Tolerates.enable : Within Q (enable arch env key) := by
  refine Within.get_bind fun u => ?_
  cases u.debugger.breakpoints.find? key with
  | none => exact .pure _
  | some r =>
      refine Within.ite (fun _ => .pure _) (fun _ => ?_) u
      refine Within.bind (hQ.note _ (hpatch _ rfl)) fun _ v => ?_
      exact WithinAt.onThrow (hQ.insertTrap hmodify _ v) fun _ w _ =>
        hQ.note (.disarmed key) (hpatch _ rfl) w

theorem Tolerates.disable : Within Q (disable env key) := by
  refine Within.get_bind fun u => ?_
  cases u.debugger.breakpoints.find? key with
  | none => exact .pure _
  | some r =>
      refine Within.ite (fun _ => .pure _) (fun _ => ?_) u
      refine Within.bind (hQ.writeBytes _ _) fun _ => Within.get_bind fun v => ?_
      refine Within.bind (hQ.note _ (hpatch _ rfl)) (fun _ => ?_) v
      exact Within.bind (hmodify _) fun _ => hQ.note _ (hpatch _ rfl)

theorem Tolerates.dropBreakpoint (herase : Within Q (eraseBreakpoint (R := R) (D := D) key)) :
    Within Q (dropBreakpoint env key) :=
  Within.bind (hQ.disable hpatch hmodify) fun _ => herase

end Records

section Reports

variable {Q : State R D → State R D → Prop} [IsPreorder (State R D) Q]
  (hQ : Tolerates env (fun entry => entry.isLine = false) Q)

include hQ

theorem Tolerates.noteUserEnabled (key : Address) :
    Within Q (Cosy.noteUserEnabled (R := R) (D := D) key) := by
  refine Within.get_bind fun u => ?_
  cases u.debugger.breakpoints.find? key with
  | none => exact .pure _
  | some r => exact Within.doIf (fun _ => hQ.note _ rfl) u

theorem Tolerates.printStop
    (hmodify : ∀ key change, Within Q (modifyBreakpoint (R := R) (D := D) key change))
    (herase : ∀ key, Within Q (eraseBreakpoint (R := R) (D := D) key)) (tid : Tid) :
    Within Q (Cosy.printStop arch env tid) := by
  have hlocation : Within Q (attempt (Cosy.printLocation arch env tid) fun _ => pure ⟨⟩) :=
    Within.rescue (hQ.printLocation (fun _ _ => rfl) (fun _ _ => rfl) tid) fun _ => .pure _
  have hinspect : Within Q (inspectTrap arch env tid) := by
    refine Within.bind (hQ.peeks.pc tid) fun stoppedAt => Within.bind ?_ fun _ =>
      Within.get_bind fun u => hQ.inspectWatchpoints (fun _ _ => rfl) tid _ u
    refine Within.get_bind fun u => ?_
    cases u.debugger.breakpoints.find? (arch.candidate stoppedAt) with
    | none => exact .pure _
    | some r =>
        refine Within.bind (hQ.setPc rfl) (fun _ => ?_) u
        refine Within.bind (hQ.print rfl) fun _ => Within.bind (hQ.note _ rfl) fun _ => ?_
        exact Within.doIf fun _ =>
          Within.bind (hQ.dropBreakpoint Entry.isLine_of_isPatch (hmodify _) (herase _)) fun _ =>
            hQ.print rfl
  refine Within.get_bind fun u => ?_
  cases u.debugger.stopSignal tid with
  | none => exact .pure _
  | some signal =>
      dsimp only [printStopped]
      split
      · exact Within.bind (Within.rescue hinspect fun _ => hQ.print rfl) (fun _ => hlocation) u
      · split
        · exact Within.bind (hQ.print rfl) (fun _ => hlocation) u
        · exact Within.bind (hQ.print rfl) (fun _ => hlocation) u

end Reports

/-- Only records at these addresses are different. -/
structure ChangesOnly (keys : Set Address) (s t : State R D) : Prop where
  breakpoints : ∀ key ∉ keys,
    t.debugger.breakpoints.find? key = s.debugger.breakpoints.find? key
  pending : t.debugger.pendingBreakpoints = s.debugger.pendingBreakpoints

instance (keys : Set Address) : IsPreorder (State R D) (ChangesOnly keys) where
  refl _ := ⟨fun _ _ => rfl, rfl⟩
  trans _ _ _ hst htu := ⟨fun key hkey => (htu.breakpoints key hkey).trans (hst.breakpoints key hkey),
    htu.pending.trans hst.pending⟩

theorem Tolerates.of_sameDebugger {A : Entry → Prop} {Q : State R D → State R D → Prop}
    (hsame : ∀ s t : State R D, t.debugger = s.debugger → Q s t) : Tolerates env A Q where
  request hmaps := ((sameDebugger env).request hmaps).mono hsame
  note entry _ := ((sameDebugger env).note entry trivial).mono hsame

theorem tolerates_changesOnly (env : Environment R D) (A : Entry → Prop) (keys : Set Address) :
    Tolerates env A (ChangesOnly keys) :=
  .of_sameDebugger fun _ _ hsame => ⟨fun _ _ => by rw [hsame], by rw [hsame]⟩

theorem changesOnly_modify {keys : Set Address} {key : Address} (hkey : key ∈ keys)
    (change : Breakpoint → Breakpoint) :
    Within (ChangesOnly keys) (modifyBreakpoint (R := R) (D := D) key change) :=
  Within.modify fun u => ⟨fun other hother => SortedMap.find?_modify_of_ne _ _ (by
    rintro rfl
    exact hother hkey), rfl⟩

theorem changesOnly_erase {keys : Set Address} {key : Address} (hkey : key ∈ keys) :
    Within (ChangesOnly keys) (eraseBreakpoint (R := R) (D := D) key) := by
  refine Within.modify fun u => ⟨fun other hother => ?_, rfl⟩
  refine (SortedMap.find?_erase _ _ _).trans (if_neg ?_)
  rintro rfl
  exact hother hkey

/-- No thread but this one has been selected. -/
def SelectsOnly (tid : Tid) (s t : State R D) : Prop :=
  t.debugger.selectedTid = s.debugger.selectedTid ∨ t.debugger.selectedTid = tid

instance (tid : Tid) : IsPreorder (State R D) (SelectsOnly tid) where
  refl _ := Or.inl rfl
  trans _ _ _ hst htu := htu.elim (fun hsame => hst.imp hsame.trans hsame.trans) Or.inr

theorem selectsOnly_selectThread (tid : Tid) :
    Within (SelectsOnly tid) (selectThread arch env tid) := by
  have hQ : ∀ A, Tolerates env A (SelectsOnly (R := R) (D := D) tid) := fun A =>
    .of_sameDebugger fun _ _ hsame => Or.inl (congrArg Debugger.selectedTid hsame)
  have hprint : Within (SelectsOnly tid)
      (print (R := R) (D := D) (.line "unknown or running thread")) := (hQ fun _ => True).print trivial
  refine Within.get_bind fun s => ?_
  cases s.debugger.threads.find? tid with
  | none => exact hprint s
  | some state =>
      refine Within.ite (fun _ => ?_) (fun _ => hprint) s
      exact Within.bind (Within.modify fun _ => Or.inr rfl) fun _ =>
        (hQ _).printStop (fun _ _ => Within.modify fun _ => Or.inl rfl)
          (fun _ => Within.modify fun _ => Or.inl rfl) tid

/-! ### A number that is nobody's -/

theorem forEachWithId_none {id : Int} {change : Address → Dbg R D Unit}
    {entries : List (Address × Breakpoint)} (hnone : ∀ entry ∈ entries, entry.2.id ≠ id) :
    forEachWithId id change entries s = .ok false s := by
  induction entries with
  | nil => rfl
  | cons entry rest ih =>
      obtain ⟨key, breakpoint⟩ := entry
      rw [forEachWithId, if_neg (hnone _ List.mem_cons_self)]
      exact ih fun entry hmem => hnone entry (List.mem_cons_of_mem _ hmem)

theorem dispatch_of_run {line : Text} {command : NumberCommand} {value : Address}
    (hline : numberArgument line = some (command, value))
    (hrun : command.run arch env value s = .ok ⟨⟩ t) : dispatch arch env line s = .ok true t := by
  have hattempt : attempt (command.run arch env value) (fun exception => print (.error exception)) s
      = .ok ⟨⟩ t := by
    rw [attempt, rescue, hrun]
  rw [dispatch_number hline, bind_ok hattempt]
  rfl

/-- A command that is given a number of nothing does nothing. -/
theorem refused_of_not_names {line : Text} {command : NumberCommand} {value : Address}
    (hline : numberArgument line = some (command, value))
    (hwatch : ∀ address watchAccess, command ≠ .watch address watchAccess)
    (hnone : ¬ command.Names s.debugger (toPid value)) :
    ∃ t, dispatch arch env line s = .ok true t ∧ command.Refused s t := by
  have hrecord : (¬ ∃ key r, s.debugger.breakpoints.find? key = some r ∧ r.id = toPid value) →
      ∀ entry ∈ s.debugger.breakpoints.entries, entry.2.id ≠ toPid value :=
    fun hnone entry hmem hid => hnone ⟨_, _, SortedMap.mem_entries_iff.mp hmem, hid⟩
  cases command with
  | delete =>
      rw [NumberCommand.Names, Debugger.Live, not_or] at hnone
      refine ⟨s, dispatch_of_run hline ?_, rfl⟩
      have hkey : keyOfId s.debugger.breakpoints (toPid value) = none := by
        rw [keyOfId, Option.map_eq_none_iff, List.find?_eq_none]
        simpa using hrecord hnone.1
      have hpending : s.debugger.pendingBreakpoints.filter (fun p => p.id ≠ toPid value)
          = s.debugger.pendingBreakpoints := by
        refine List.filter_eq_self.mpr fun p hp => decide_eq_true fun hid => ?_
        exact hnone.2 ⟨p, hp, hid⟩
      rw [NumberCommand.run, removeBreakpoint, get_bind_apply, hkey]
      simp only [modifyDebugger_apply, hpending]
  | enable =>
      refine ⟨_, dispatch_of_run hline ?_, rfl⟩
      have hfound : enableById arch env (toPid value) s = .ok false s :=
        forEachWithId_none (hrecord hnone)
      rw [NumberCommand.run, bind_ok hfound]
      rfl
  | disable =>
      refine ⟨_, dispatch_of_run hline ?_, rfl⟩
      have hfound : disableById env (toPid value) s = .ok false s :=
        forEachWithId_none (hrecord hnone)
      rw [NumberCommand.run, bind_ok hfound]
      rfl
  | thread =>
      refine ⟨_, dispatch_of_run hline ?_, rfl⟩
      rw [NumberCommand.run, selectThread, get_bind_apply]
      cases hfind : s.debugger.threads.find? (toPid value) with
      | none => rfl
      | some state =>
          have hrunning : state.stopped = false := by
            rw [NumberCommand.Names, Debugger.recordOf, hfind] at hnone
            simpa using hnone
          simp only [hrunning]
          rfl
  | watch address watchAccess => exact absurd rfl (hwatch address watchAccess)

/-! ### A number that is somebody's -/

/-- Where the records with this number are. -/
def Debugger.keysOf (d : Debugger) (id : Int) : Set Address :=
  {key | ∃ r, d.breakpoints.find? key = some r ∧ r.id = id}

theorem dispatch_within {Q : State R D → State R D → Prop} [IsPreorder (State R D) Q] {line : Text}
    {command : NumberCommand} {value : Address} (hline : numberArgument line = some (command, value))
    (hprint : ∀ exception, Within Q (print (R := R) (D := D) (.error exception)))
    (hrun : WithinAt Q (command.run arch env value) s) : WithinAt Q (dispatch arch env line) s := by
  rw [dispatch_number hline]
  exact WithinAt.bind (WithinAt.rescue hrun fun _ => hprint _) fun _ _ _ => .pure _

theorem ChangesOnly.spares {id : Int} (hst : ChangesOnly (s.debugger.keysOf id) s t) :
    (∀ key r, s.debugger.breakpoints.find? key = some r → r.id ≠ id →
        t.debugger.breakpoints.find? key = some r) ∧
      ∀ p ∈ s.debugger.pendingBreakpoints, p.id ≠ id → p ∈ t.debugger.pendingBreakpoints := by
  refine ⟨fun key r hr hid => ?_, fun p hp _ => hst.pending ▸ hp⟩
  rw [hst.breakpoints key ?_, hr]
  rintro ⟨r', hr', hid'⟩
  obtain rfl := Option.some.inj (hr.symm.trans hr')
  exact hid hid'

/-- The records with another number are not touched. -/
theorem changesOnly_run {command : NumberCommand} {value : Address}
    (hcommand : command = .enable ∨ command = .disable) :
    WithinAt (ChangesOnly (s.debugger.keysOf (toPid value))) (command.run arch env value) s := by
  have hkey : ∀ entry ∈ s.debugger.breakpoints.entries, entry.2.id = toPid value →
      entry.1 ∈ s.debugger.keysOf (toPid value) :=
    fun entry hmem hid => ⟨entry.2, SortedMap.mem_entries_iff.mp hmem, hid⟩
  have hQ := tolerates_changesOnly env (fun entry => entry.isLine = false)
    (s.debugger.keysOf (toPid value))
  have hprint : Within (ChangesOnly (s.debugger.keysOf (toPid value)))
      (print (.line "unknown breakpoint")) :=
    (tolerates_changesOnly env (fun _ => True) (s.debugger.keysOf (toPid value))).print trivial
  rcases hcommand with rfl | rfl
  · refine WithinAt.bind (WithinAt.get_bind ?_) fun _ t _ =>
      Within.ite (fun _ => .pure _) (fun _ => hprint) t
    exact within_forEachWithId _ (fun entry hmem hid => Within.bind
      (hQ.enable Entry.isLine_of_isPatch (changesOnly_modify (hkey entry hmem hid))) fun _ => hQ.noteUserEnabled _) s
  · refine WithinAt.bind (WithinAt.get_bind ?_) fun _ t _ =>
      Within.ite (fun _ => .pure _) (fun _ => hprint) t
    exact within_forEachWithId _ (fun entry hmem hid => Within.bind (hQ.note _ rfl) fun _ =>
      hQ.disable Entry.isLine_of_isPatch (changesOnly_modify (hkey entry hmem hid))) s

theorem removeBreakpoint_spares (id : Int) (s : State R D) :
    NumberCommand.Spares id .delete s.debugger (endState (removeBreakpoint env id) s).debugger := by
  have hQ := tolerates_changesOnly env (fun entry => entry.isLine = false) (s.debugger.keysOf id)
  cases hkey : keyOfId s.debugger.breakpoints id with
  | none =>
      have hstate : (endState (removeBreakpoint env id) s).debugger
          = { s.debugger with
              pendingBreakpoints := s.debugger.pendingBreakpoints.filter fun p => p.id ≠ id } := by
        rw [endState, removeBreakpoint, get_bind_apply, hkey]
        rfl
      rw [hstate]
      refine ⟨fun key r hr _ => hr, fun p hp hid => List.mem_filter.mpr ⟨hp, ?_⟩⟩
      exact decide_eq_true hid
  | some key =>
      have hmem : key ∈ s.debugger.keysOf id := keyOfId_eq_some hkey
      have hdrop : Within (ChangesOnly (s.debugger.keysOf id)) (do
          note (.userDisabled key)
          dropBreakpoint env key) :=
        Within.bind (hQ.note _ rfl) fun _ =>
          hQ.dropBreakpoint Entry.isLine_of_isPatch (changesOnly_modify hmem) (changesOnly_erase hmem)
      have hstate : endState (removeBreakpoint env id) s = endState (do
          note (.userDisabled key)
          dropBreakpoint env key) s := by
        rw [endState, removeBreakpoint, get_bind_apply, hkey]
        rfl
      rw [hstate]
      exact (hdrop s).spares

/-- Whatever becomes of a command, only a message can follow. -/
theorem debugger_attempted (m : Dbg R D Unit) (s : State R D) :
    (endState (do
      attempt m fun exception => print (.error exception)
      pure true : Dbg R D Bool) s).debugger = (endState m s).debugger := by
  unfold endState
  rw [bind_apply, attempt, rescue]
  cases m s with
  | ok a t => rfl
  | error halt t => cases halt <;> rfl

/-- A command works on what has the number it has kept. -/
theorem spares_narrowed {line : Text} {command : NumberCommand} {value : Address}
    (hline : numberArgument line = some (command, value))
    (hwatch : ∀ address watchAccess, command ≠ .watch address watchAccess) :
    command.Spares (toPid value) s.debugger (endState (dispatch arch env line) s).debugger := by
  have hprint : ∀ message, Within SameDebugger (print (R := R) (D := D) message) :=
    fun message => (sameDebugger env).print trivial
  cases command with
  | delete =>
      rw [dispatch_number hline, debugger_attempted]
      exact removeBreakpoint_spares _ s
  | enable =>
      exact (dispatch_within hline (fun _ => (hprint _).mono fun _ _ hsame =>
        ⟨fun _ _ => by rw [hsame], by rw [hsame]⟩) (changesOnly_run (Or.inl rfl))).spares
  | disable =>
      exact (dispatch_within hline (fun _ => (hprint _).mono fun _ _ hsame =>
        ⟨fun _ _ => by rw [hsame], by rw [hsame]⟩) (changesOnly_run (Or.inr rfl))).spares
  | thread =>
      exact dispatch_within (Q := SelectsOnly (toPid value)) hline
        (fun _ => (hprint _).mono fun _ _ hsame =>
          Or.inl (congrArg Debugger.selectedTid hsame)) (selectsOnly_selectThread (toPid value) s)
  | watch address watchAccess => exact absurd rfl (hwatch address watchAccess)

/-! ### Refusals -/

theorem forEachWithId_found {id : Int} {change : Address → Dbg R D Unit}
    {entries : List (Address × Breakpoint)} (hsome : ∃ entry ∈ entries, entry.2.id = id)
    {found : Bool} (hrun : forEachWithId id change entries s = .ok found t) : found = true := by
  induction entries generalizing s with
  | nil =>
      obtain ⟨entry, hmem, -⟩ := hsome
      cases hmem
  | cons entry rest ih =>
      obtain ⟨key, breakpoint⟩ := entry
      rw [forEachWithId] at hrun
      split at hrun
      · obtain ⟨_, u, -, hrest⟩ := of_bind_ok hrun
        obtain ⟨_, v, -, hpure⟩ := of_bind_ok hrest
        exact (EStateM.Result.ok.inj hpure).1.symm
      · rename_i hid
        obtain ⟨entry, hmem, hentry⟩ := hsome
        refine ih ⟨entry, (List.mem_cons.mp hmem).resolve_left ?_, hentry⟩ hrun
        rintro rfl
        exact hid hentry

/-- A command that has found something to work on prints no refusal. -/
theorem appends_of_names {command : NumberCommand} {value : Address}
    (hcommand : command = .enable ∨ command = .disable ∨ command = .thread)
    (hnames : command.Names s.debugger (toPid value)) :
    WithinAt (Appends fun entry => entry.isLine = false) (command.run arch env value) s := by
  have hQ : Tolerates env (fun entry => entry.isLine = false)
      (Appends (R := R) (D := D) fun entry => entry.isLine = false) :=
    tolerates_appends env fun _ => rfl
  have hentries : (∃ key r, s.debugger.breakpoints.find? key = some r ∧ r.id = toPid value) →
      ∃ entry ∈ s.debugger.breakpoints.entries, entry.2.id = toPid value :=
    fun ⟨key, r, hr, hid⟩ => ⟨(key, r), SortedMap.mem_entries_iff.mpr hr, hid⟩
  rcases hcommand with rfl | rfl | rfl
  · refine WithinAt.bind (WithinAt.get_bind ?_) fun found t hrun => ?_
    · exact within_forEachWithId _ (fun entry _ _ => Within.bind
        (hQ.enable Entry.isLine_of_isPatch fun _ => appends_modifyDebugger _) fun _ => hQ.noteUserEnabled _) s
    · obtain rfl := forEachWithId_found (hentries hnames) hrun
      exact .pure _
  · refine WithinAt.bind (WithinAt.get_bind ?_) fun found t hrun => ?_
    · exact within_forEachWithId _ (fun entry _ _ => Within.bind (hQ.note _ rfl) fun _ =>
        hQ.disable Entry.isLine_of_isPatch fun _ => appends_modifyDebugger _) s
    · obtain rfl := forEachWithId_found (hentries hnames) hrun
      exact .pure _
  · rw [NumberCommand.Names, Debugger.recordOf, Option.map_eq_some_iff] at hnames
    obtain ⟨state, hstate, hstopped⟩ := hnames
    refine WithinAt.get_bind ?_
    simp only [hstate, hstopped, if_true]
    exact Within.bind (appends_modifyDebugger _) (fun _ => hQ.printStop
      (fun _ _ => appends_modifyDebugger _) (fun _ => appends_modifyDebugger _) _) s

variable (arch env) in
/-- `delete` of a number that is somebody's leaves a trace. -/
theorem delete_ne_self {line : Text} {value : Address}
    (hline : numberArgument line = some (.delete, value)) (hlive : s.debugger.Live (toPid value)) :
    endState (dispatch arch env line) s ≠ s := by
  intro hsame
  cases hkey : keyOfId s.debugger.breakpoints (toPid value) with
  | none =>
      obtain ⟨key, r, hr, hid⟩ | ⟨p, hp, hid⟩ := hlive
      · exact keyOfId_eq_none hkey hr hid
      · let kept : State R D := s.withDebugger
          { s.debugger with
            pendingBreakpoints := s.debugger.pendingBreakpoints.filter fun p => p.id ≠ toPid value }
        have hrun : removeBreakpoint env (toPid value) s = .ok ⟨⟩ kept := by
          rw [removeBreakpoint, get_bind_apply, hkey]
          rfl
        have hend : endState (dispatch arch env line) s = kept :=
          endState_of_ok (dispatch_of_run hline hrun)
        have hkept : p ∈ kept.debugger.pendingBreakpoints := by
          rw [← hend, hsame]
          exact hp
        exact of_decide_eq_true (List.mem_filter.mp hkept).2 hid
  | some key =>
      have hQ : Tolerates env (fun entry => entry.isLine = false)
          (Appends (R := R) (D := D) fun entry => entry.isLine = false) :=
        tolerates_appends env fun _ => rfl
      have hrun : removeBreakpoint env (toPid value) s
          = dropBreakpoint env key (s.logged (.userDisabled key)) := by
        rw [removeBreakpoint, get_bind_apply, hkey]
        rfl
      have hdispatch : dispatch arch env line s = (do
          attempt (dropBreakpoint env key) fun exception => print (.error exception)
          pure true) (s.logged (.userDisabled key)) := by
        rw [dispatch_number hline, bind_apply, bind_apply, attempt, attempt, rescue, rescue,
          NumberCommand.run, hrun]
      have hrest : Within (Appends (R := R) (D := D) fun entry => entry.isLine = false) (do
          attempt (dropBreakpoint env key) fun exception => print (.error exception)
          pure true) :=
        Within.bind (Within.rescue (hQ.dropBreakpoint Entry.isLine_of_isPatch (fun _ => appends_modifyDebugger _)
          (appends_modifyDebugger _)) fun _ => hQ.print rfl) fun _ => .pure _
      obtain ⟨newer, hnewer, -⟩ := hrest (s.logged (.userDisabled key))
      have hlog : (endState (dispatch arch env line) s).log = newer ++ .userDisabled key :: s.log := by
        rw [endState, hdispatch]
        exact hnewer
      have hlength := congrArg List.length hlog
      rw [hsame, List.length_append, List.length_cons] at hlength
      omega

/-! ### Sizes -/

section Sizes

variable {address : Address} {watchAccess : WatchAccess} {bytes : Nat}

/-- Where the next watchpoint would go. -/
def Debugger.nextSlot (d : Debugger) : Nat := freeSlot (d.watchpoints.map Watchpoint.slot)

theorem addWatchpoint_of_full (hfull : 4 ≤ s.debugger.nextSlot) :
    addWatchpoint arch env address watchAccess bytes s
      = .ok ⟨⟩ (s.logged (.out (.line "no free hardware watchpoint slot"))) := by
  rw [addWatchpoint, get_bind_apply]
  exact congrFun (if_pos hfull) s

/-- What `set_watchpoint` does to each thread of the table. -/
def onStopped (f : Tid → Dbg R D Unit) (entry : Tid × ThreadState) : Dbg R D Unit :=
  if entry.2.stopped then f entry.1 else pure ⟨⟩

/-- The end of a `set_watchpoint` that nothing has gone wrong with. -/
def recordWatchpoint (watchpoint : Watchpoint) : Dbg R D Unit := do
  modifyDebugger fun d =>
    { d with
      nextWatchpointId := watchpoint.id + 1
      watchpoints := d.watchpoints ++ [watchpoint] }
  print (.watchpointAt watchpoint.id watchpoint.address)

/-- The record that `set_watchpoint` would add. -/
def Debugger.newWatchpoint (d : Debugger) (address : Address) (watchAccess : WatchAccess)
    (bytes : Nat) : Watchpoint :=
  ⟨d.nextWatchpointId, d.nextSlot, address, watchAccess, bytes⟩

/-- With a slot free, all that can go wrong is the programming of a thread. -/
theorem addWatchpoint_of_free (hfree : ¬ 4 ≤ s.debugger.nextSlot) :
    addWatchpoint arch env address watchAccess bytes s = attempt (do
      s.debugger.threads.entries.forM (onStopped fun tid =>
        configureWatchpoint arch env tid s.debugger.nextSlot address watchAccess bytes)
      recordWatchpoint (s.debugger.newWatchpoint address watchAccess bytes))
      (fun exception => print (.watchpointFailed exception)) s := by
  rw [addWatchpoint, get_bind_apply]
  exact congrFun (if_neg hfree) s

/-- The architecture rejects the watchpoint before anything is asked of the kernel. -/
def Rejects (arch : Architecture R D) (slot : Nat) (address : Address) (watchAccess : WatchAccess)
    (bytes : Nat) : Prop :=
  ∃ text, arch.configureWatchpoint slot address watchAccess bytes = .error text

variable (env) in
theorem configureWatchpoint_of_rejects {slot : Nat} {text : String} (tid : Tid)
    (hrejects : arch.configureWatchpoint slot address watchAccess bytes = .error text) :
    configureWatchpoint arch env tid slot address watchAccess bytes
      = throw (.thrown (.runtime text)) := by
  rw [configureWatchpoint, hrejects]

/-- Time does not run backwards. -/
theorem tolerates_tick (env : Environment R D) :
    Tolerates env (fun _ => True) (fun u v : State R D => u.tick ≤ v.tick) where
  request {_ operation tid request} _ u := by
    rcases ptrace_cases env operation tid request u with ⟨task, -, -, -, hrun⟩ | ⟨-, hrun⟩
    · rw [WithinAt, endState_of_ok hrun]
      exact Nat.le_succ u.tick
    · rw [WithinAt, endState_of_error hrun]
      exact Nat.le_succ u.tick
  note _ _ := Within.modify fun u => le_refl u.tick

theorem configureWatchpoint_tick_le {slot : Nat} (tid : Tid) :
    Within (fun u v : State R D => u.tick ≤ v.tick)
      (configureWatchpoint arch env tid slot address watchAccess bytes) := by
  unfold configureWatchpoint
  split
  · exact .throw _
  · exact Within.bind ((tolerates_tick env).request fun _ _ => rfl) fun _ =>
      Within.forM _ fun _ _ => (tolerates_tick env).request fun _ _ => rfl

/-- A plan that is not rejected begins with a request. -/
theorem configureWatchpoint_tick_lt {slot : Nat} (tid : Tid)
    (hplan : ¬ Rejects arch slot address watchAccess bytes) :
    s.tick < (endState (configureWatchpoint arch env tid slot address watchAccess bytes) s).tick := by
  unfold configureWatchpoint
  split
  · rename_i text hrejects
    exact absurd ⟨text, hrejects⟩ hplan
  · rename_i plan _
    rcases ptrace_cases env plan.readOperation tid (fun task target => (task.debug, target)) s with
      ⟨task, -, -, -, hrun⟩ | ⟨-, hrun⟩
    · rw [endState_bind_ok hrun]
      have hwrite : ∀ write : String × (D → D),
          Within (fun u v : State R D => u.tick ≤ v.tick) (ptrace env write.1 tid fun task target =>
            (PUnit.unit, target.setTask tid { task with debug := write.2 task.debug })) :=
        fun _ => (tolerates_tick env).request fun _ _ => rfl
      have hwrites := Within.forM (plan.writes task.debug) (fun write _ => hwrite write) (env.enter s)
      exact Nat.lt_of_lt_of_le (Nat.lt_succ_self s.tick) hwrites
    · rw [endState_bind_error hrun]
      exact Nat.lt_succ_self s.tick

theorem anyStopped_iff (d : Debugger) :
    (∃ entry ∈ d.threads.entries, entry.2.stopped = true) ↔ ∃ tid, d.recordOf tid = some true := by
  simp only [recordOf_eq_true_iff, Prod.exists]

theorem forM_onStopped_none (f : Tid → Dbg R D Unit) {entries : List (Tid × ThreadState)}
    (hnone : ¬ ∃ entry ∈ entries, entry.2.stopped = true) :
    entries.forM (onStopped f) s = .ok ⟨⟩ s := by
  induction entries with
  | nil => rfl
  | cons entry rest ih =>
      have hrunning : onStopped f entry = pure ⟨⟩ :=
        if_neg fun hstopped => hnone ⟨entry, List.mem_cons_self, hstopped⟩
      change (onStopped f entry >>= fun _ => rest.forM (onStopped f)) s = _
      rw [hrunning]
      exact ih fun ⟨other, hmem, hstopped⟩ => hnone ⟨other, List.mem_cons_of_mem _ hmem, hstopped⟩

/-- The loop gets as far as the first thread that is recorded as stopped. -/
theorem forM_onStopped_some (f : Tid → Dbg R D Unit) {entries : List (Tid × ThreadState)}
    (hsome : ∃ entry ∈ entries, entry.2.stopped = true) :
    ∃ tid rest, entries.forM (onStopped f) s
      = (f tid >>= fun _ => List.forM rest (onStopped f)) s := by
  induction entries with
  | nil =>
      obtain ⟨entry, hmem, -⟩ := hsome
      cases hmem
  | cons entry rest ih =>
      by_cases hfirst : entry.2.stopped = true
      · have hrun : onStopped f entry = f entry.1 := if_pos hfirst
        refine ⟨entry.1, rest, ?_⟩
        rw [← hrun]
        rfl
      · have hrun : onStopped f entry = pure ⟨⟩ := if_neg hfirst
        obtain ⟨other, hmem, hother⟩ := hsome
        have hmem' : other ∈ rest :=
          (List.mem_cons.mp hmem).resolve_left fun heq => hfirst (heq ▸ hother)
        obtain ⟨tid, rest', hrest⟩ := ih ⟨other, hmem', hother⟩
        refine ⟨tid, rest', ?_⟩
        change (onStopped f entry >>= fun _ => rest.forM (onStopped f)) s = _
        rw [hrun]
        exact hrest

variable (env) in
/-- A refusal needs a full table, or a stopped thread for whose sake the plan is looked at. -/
theorem addWatchpoint_refuses_iff :
    (∃ message, addWatchpoint arch env address watchAccess bytes s = .ok ⟨⟩ (s.logged (.out message)))
      ↔ 4 ≤ s.debugger.nextSlot ∨ (∃ tid, s.debugger.recordOf tid = some true) ∧
        Rejects arch s.debugger.nextSlot address watchAccess bytes := by
  by_cases hfull : 4 ≤ s.debugger.nextSlot
  · exact iff_of_true ⟨_, addWatchpoint_of_full hfull⟩ (Or.inl hfull)
  rw [addWatchpoint_of_free hfull, ← anyStopped_iff, or_iff_right hfull]
  by_cases hsome : ∃ entry ∈ s.debugger.threads.entries, entry.2.stopped = true
  · rw [and_iff_right hsome]
    obtain ⟨tid, rest, hloop⟩ := forM_onStopped_some (s := s) (fun tid =>
      configureWatchpoint arch env tid s.debugger.nextSlot address watchAccess bytes) hsome
    constructor
    · rintro ⟨message, hrun⟩
      by_contra hplan
      -- The first request to the kernel has happened, whatever came of it.
      have hkeeps : ∀ {m : Dbg R D Unit}, Within (fun u v : State R D => u.tick ≤ v.tick) m →
          Within (Keeps fun u => s.tick < u.tick) m :=
        fun hm => hm.mono fun _ _ hle hlt => Nat.lt_of_lt_of_le hlt hle
      have hprint : ∀ message, Within (fun u v : State R D => u.tick ≤ v.tick)
          (print (R := R) (D := D) message) := fun message => (tolerates_tick env).print trivial
      have hfirst : s.tick < (endState (s.debugger.threads.entries.forM (onStopped fun tid =>
          configureWatchpoint arch env tid s.debugger.nextSlot address watchAccess bytes)) s).tick := by
        rw [endState, hloop, ← endState]
        refine endState_bind_of (configureWatchpoint_tick_lt tid hplan) fun _ => hkeeps ?_
        exact Within.forM _ fun entry _ =>
          Within.ite (fun _ => configureWatchpoint_tick_le entry.1) fun _ => .pure _
      have hrecord : ∀ watchpoint : Watchpoint, Within (fun u v : State R D => u.tick ≤ v.tick)
          (recordWatchpoint watchpoint) := fun _ =>
        Within.bind (Within.modify fun u => le_refl u.tick) fun _ => hprint _
      have hbody := endState_bind_of hfirst fun _ : PUnit =>
        hkeeps (hrecord (s.debugger.newWatchpoint address watchAccess bytes))
      have hend : s.tick < (endState (attempt _ fun exception =>
          print (.watchpointFailed exception)) s).tick :=
        endState_rescue_of hbody fun exception => hkeeps (hprint (.watchpointFailed exception))
      rw [endState_of_ok hrun] at hend
      exact Nat.lt_irrefl s.tick hend
    · rintro ⟨text, hrejects⟩
      refine ⟨.watchpointFailed (.runtime text), ?_⟩
      rw [configureWatchpoint_of_rejects env tid hrejects] at hloop
      rw [attempt, rescue, bind_error hloop]
      rfl
  · refine iff_of_false ?_ fun hand => hsome hand.1
    rintro ⟨message, hrun⟩
    rw [attempt, rescue, bind_ok (forM_onStopped_none _ hsome)] at hrun
    have hstate := (EStateM.Result.ok.inj hrun).2
    have hlength := congrArg (fun u : State R D => u.debugger.watchpoints.length) hstate
    simp [State.logged] at hlength

end Sizes

/-! ### Numbers that are taken for what they are -/

/-- The debugger's own numbers are a C++ `int` and a `pid_t`. -/
structure Debugger.IntNumbers (d : Debugger) : Prop where
  breakpoint : ∀ id, d.Live id → id < 2 ^ 31
  thread : ∀ tid stopped, d.recordOf tid = some stopped → tid < 2 ^ 31

/-- The number loses nothing when it is narrowed, or nobody has the number that is left. A size is
only looked at by the architecture, and for the sake of a stopped thread. -/
def NumberCommand.Unmistaken (arch : Architecture R D) (d : Debugger) (value : Address) :
    NumberCommand → Prop
  | .watch address watchAccess =>
      (value.toNat = 1 ∨ value.toNat = 2 ∨ value.toNat = 4 ∨ value.toNat = 8) ∨ 4 ≤ d.nextSlot ∨
        (∃ tid, d.recordOf tid = some true) ∧
          Rejects arch d.nextSlot address watchAccess (toUnsigned value)
  | command => value.toNat < 2 ^ 31 ∨ ¬ command.Names d (toPid value)

theorem toPid_eq_iff (value : Address) : toPid value = value.toNat ↔ value.toNat < 2 ^ 31 := by
  change (value.setWidth 32).toInt = value.toNat ↔ value.toNat < 2 ^ 31
  rw [BitVec.toInt_eq_toNat_cond, BitVec.toNat_setWidth]
  split <;> omega

theorem Debugger.IntNumbers.lt_of_names {d : Debugger} (hd : d.IntNumbers) {command : NumberCommand}
    (hwatch : ∀ address watchAccess, command ≠ .watch address watchAccess) {n : Int}
    (hnames : command.Names d n) : n < 2 ^ 31 := by
  cases command with
  | delete => exact hd.breakpoint n hnames
  | enable | disable => exact hd.breakpoint n (Or.inl hnames)
  | thread => exact hd.thread n true hnames
  | watch address watchAccess => exact absurd rfl (hwatch address watchAccess)

theorem NumberCommand.Refused.sameDebugger {command : NumberCommand} (hst : command.Refused s t) :
    t.debugger = s.debugger := by
  cases command with
  | delete =>
      rw [show t = s from hst]
  | enable | disable | thread =>
      rw [show t = s.logged _ from hst]
      rfl
  | watch address watchAccess =>
      obtain ⟨message, rfl⟩ := hst
      rfl

theorem NumberCommand.spares_self (command : NumberCommand) (n : Int) (d : Debugger) :
    command.Spares n d d := by
  cases command with
  | delete | enable | disable => exact ⟨fun _ _ hr _ => hr, fun _ hp _ => hp⟩
  | thread => exact Or.inl rfl
  | watch address watchAccess => exact Or.inr rfl

theorem TakesNumber.of_refused {line : Text} {command : NumberCommand} {value : Address}
    (hrefused : ∃ t, dispatch arch env line s = .ok true t ∧ command.Refused s t) :
    TakesNumber arch env line command value s := by
  refine ⟨?_, fun _ => hrefused⟩
  obtain ⟨t, hrun, hst⟩ := hrefused
  rw [endState_of_ok hrun, hst.sameDebugger]
  exact command.spares_self _ _

/-- A command that has found something to work on has not refused it. -/
theorem not_refused_of_names {line : Text} {command : NumberCommand} {value : Address}
    (hline : numberArgument line = some (command, value))
    (hwatch : ∀ address watchAccess, command ≠ .watch address watchAccess)
    (hnames : command.Names s.debugger (toPid value)) :
    ¬ ∃ t, dispatch arch env line s = .ok true t ∧ command.Refused s t := by
  rintro ⟨t, hrun, hst⟩
  have hsilent : command = .enable ∨ command = .disable ∨ command = .thread →
      Appends (fun entry => entry.isLine = false) s t := by
    intro hcommand
    rw [← endState_of_ok hrun]
    exact dispatch_within hline (fun exception => appends_note rfl) (appends_of_names hcommand hnames)
  have hcontradiction : ∀ text, t = s.logged (.out (.line text)) →
      ¬ Appends (fun entry => entry.isLine = false) s t := by
    rintro text rfl happends
    have hline := happends.all (List.singleton_append).symm _ List.mem_cons_self
    cases hline
  cases command with
  | delete =>
      refine delete_ne_self arch env hline hnames ?_
      rw [endState_of_ok hrun]
      exact hst
  | enable => exact hcontradiction _ hst (hsilent (by simp))
  | disable => exact hcontradiction _ hst (hsilent (by simp))
  | thread => exact hcontradiction _ hst (hsilent (by simp))
  | watch address watchAccess => exact hwatch address watchAccess rfl

/-! ### Exactly when -/

/-- `set_watchpoint` catches what it throws. -/
theorem addWatchpoint_ne_thrown {address : Address} {watchAccess : WatchAccess} {bytes : Nat}
    {exception : Exception} :
    addWatchpoint arch env address watchAccess bytes s ≠ .error (.thrown exception) t := by
  intro hthrown
  by_cases hfull : 4 ≤ s.debugger.nextSlot
  · rw [addWatchpoint_of_full hfull] at hthrown
    cases hthrown
  · rw [addWatchpoint_of_free hfull, attempt, rescue] at hthrown
    split at hthrown
    · cases hthrown
    · rename_i halt u _
      cases halt with
      | thrown e => cases hthrown
      | blocked => cases hthrown

theorem watch_refused_iff {line : Text} {address : Address} {watchAccess : WatchAccess}
    {value : Address} (hline : numberArgument line = some (.watch address watchAccess, value)) :
    (∃ t, dispatch arch env line s = .ok true t ∧
        NumberCommand.Refused (.watch address watchAccess) s t) ↔
      4 ≤ s.debugger.nextSlot ∨ (∃ tid, s.debugger.recordOf tid = some true) ∧
        Rejects arch s.debugger.nextSlot address watchAccess (toUnsigned value) := by
  rw [← addWatchpoint_refuses_iff env]
  constructor
  · rintro ⟨t, hrun, message, rfl⟩
    refine ⟨message, ?_⟩
    cases hadd : addWatchpoint arch env address watchAccess (toUnsigned value) s with
    | ok a u =>
        rw [dispatch_of_run hline hadd] at hrun
        rw [(EStateM.Result.ok.inj hrun).2]
    | error halt u =>
        cases halt with
        | thrown exception => exact absurd hadd addWatchpoint_ne_thrown
        | blocked =>
            have hattempt : attempt (NumberCommand.run arch env (.watch address watchAccess) value)
                (fun exception => print (.error exception)) s = .error .blocked u := by
              rw [attempt, rescue, NumberCommand.run, hadd]
              rfl
            rw [dispatch_number hline, bind_error hattempt] at hrun
            cases hrun
  · rintro ⟨message, hrun⟩
    exact ⟨_, dispatch_of_run hline hrun, message, rfl⟩

/-- A number on a command line is taken for what it is exactly if nothing has the number it is
narrowed to, unless it is that number. -/
theorem takesNumber_iff {line : Text} {command : NumberCommand} {value : Address}
    (hline : numberArgument line = some (command, value)) (hnumbers : s.debugger.IntNumbers) :
    TakesNumber arch env line command value s ↔ command.Unmistaken arch s.debugger value := by
  by_cases hwatch : ∀ address watchAccess, command ≠ .watch address watchAccess
  · have hunmistaken : command.Unmistaken arch s.debugger value
        ↔ value.toNat < 2 ^ 31 ∨ ¬ command.Names s.debugger (toPid value) := by
      cases command with
      | watch address watchAccess => exact absurd rfl (hwatch address watchAccess)
      | _ => exact Iff.rfl
    rw [hunmistaken]
    constructor
    · intro htakes
      by_contra hmistaken
      rw [not_or, not_not, not_lt] at hmistaken
      have hlarge : ¬ command.Names s.debugger value.toNat := fun hnames =>
        absurd (hnumbers.lt_of_names hwatch hnames) (by omega)
      exact not_refused_of_names hline hwatch hmistaken.2 (htakes.refused hlarge)
    · rintro (hsmall | hnobody)
      · have hpid := (toPid_eq_iff value).mpr hsmall
        refine ⟨hpid ▸ spares_narrowed hline hwatch, fun hnobody => ?_⟩
        exact refused_of_not_names hline hwatch (hpid ▸ hnobody)
      · exact .of_refused (refused_of_not_names hline hwatch hnobody)
  · obtain ⟨address, watchAccess, rfl⟩ : ∃ address watchAccess,
        command = .watch address watchAccess := by simpa using hwatch
    have hlegal : NumberCommand.Names s.debugger (.watch address watchAccess) value.toNat
        ↔ value.toNat = 1 ∨ value.toNat = 2 ∨ value.toNat = 4 ∨ value.toNat = 8 := by
      rw [NumberCommand.Names]
      omega
    have hunmistaken : NumberCommand.Unmistaken arch s.debugger value (.watch address watchAccess)
        ↔ NumberCommand.Names s.debugger (.watch address watchAccess) value.toNat ∨
          ∃ t, dispatch arch env line s = .ok true t ∧
            NumberCommand.Refused (.watch address watchAccess) s t := by
      rw [watch_refused_iff hline, hlegal]
      exact Iff.rfl
    rw [hunmistaken]
    constructor
    · intro htakes
      by_cases hnames : NumberCommand.Names s.debugger (.watch address watchAccess) value.toNat
      · exact Or.inl hnames
      · exact Or.inr (htakes.refused hnames)
    · rintro (hnames | hrefused)
      · exact ⟨Or.inl hnames, fun hnone => absurd hnames hnone⟩
      · exact .of_refused hrefused

instance (d : Debugger) : Decidable d.IntNumbers :=
  decidable_of_iff ((∀ entry ∈ d.breakpoints.entries, entry.2.id < 2 ^ 31) ∧
    (∀ p ∈ d.pendingBreakpoints, p.id < 2 ^ 31) ∧ ∀ entry ∈ d.threads.entries, entry.1 < 2 ^ 31) (by
      constructor
      · rintro ⟨hbreakpoints, hpending, hthreads⟩
        refine ⟨?_, fun tid stopped hrecord => ?_⟩
        · rintro id (⟨key, r, hr, rfl⟩ | ⟨p, hp, rfl⟩)
          · exact hbreakpoints (key, r) (SortedMap.mem_entries_iff.mpr hr)
          · exact hpending p hp
        · obtain ⟨state, hstate, -⟩ := Option.map_eq_some_iff.mp hrecord
          exact hthreads (tid, state) (SortedMap.mem_entries_iff.mpr hstate)
      · rintro ⟨hlive, hthreads⟩
        refine ⟨fun entry hmem => ?_, fun p hp => hlive _ (Or.inr ⟨p, hp, rfl⟩), fun entry hmem => ?_⟩
        · exact hlive _ (Or.inl ⟨entry.1, entry.2, SortedMap.mem_entries_iff.mp hmem, rfl⟩)
        · refine hthreads entry.1 entry.2.stopped ?_
          rw [Debugger.recordOf, SortedMap.mem_entries_iff.mp hmem]
          rfl)

/-- `delete 4294967298`: there is no breakpoint 2. -/
theorem takesNumber_unused :
    ∃ s, Prompt x86_64 (nopMachine fun _ => []) (State.initial 1 (nopTarget 1)) s ∧
      s.debugger.Live 1 ∧ TakesNumber x86_64 (nopMachine fun _ => [])
        "delete 4294967298".toList .delete 4294967298 s := by
  obtain ⟨s, hs, hcheck⟩ := Prompt.exists_of_runBatch x86_64 (nopMachine fun _ => [])
    (State.initial 1 (nopTarget 1)) ["b *0x1003".toList]
    (p := fun s => decide (s.debugger.Live 1) && decide s.debugger.IntNumbers &&
      !decide (s.debugger.Live (toPid 4294967298))) (by decide +kernel)
  simp only [Bool.and_eq_true, decide_eq_true_eq, Bool.not_eq_true', decide_eq_false_iff_not]
    at hcheck
  obtain ⟨⟨hlive, hnumbers⟩, hnobody⟩ := hcheck
  exact ⟨s, hs, hlive, (takesNumber_iff (by decide) hnumbers).mpr (Or.inr hnobody)⟩

/-- `delete 4294967297` deletes breakpoint 1. -/
theorem delete_truncated :
    ∃ s t, Prompt x86_64 (nopMachine fun _ => []) (State.initial 1 (nopTarget 1)) s ∧
      numberArgument "delete 4294967297".toList = some (.delete, 4294967297) ∧
      s.debugger.Live 1 ∧ ¬ s.debugger.Live (4294967297 : Address).toNat ∧
      dispatch x86_64 (nopMachine fun _ => []) "delete 4294967297".toList s = .ok true t ∧
      ¬ t.debugger.Live 1 ∧ ¬ TakesNumber x86_64 (nopMachine fun _ => [])
        "delete 4294967297".toList .delete 4294967297 s := by
  obtain ⟨s, t, u, hs, hrun, -, hcheck⟩ := exists_of_runAround x86_64 (nopMachine fun _ => [])
    (p := fun _ => True) (State.initial 1 (nopTarget 1)) ["b *0x1003".toList]
    "delete 4294967297".toList [] "help".toList (by simp) trivial
    (q := fun (s, t, _) => decide (s.debugger.Live 1) &&
      !decide (s.debugger.Live (4294967297 : Address).toNat) && !decide (t.debugger.Live 1))
    (by decide +kernel)
  simp only [Bool.and_eq_true, decide_eq_true_eq, Bool.not_eq_true', decide_eq_false_iff_not]
    at hcheck
  obtain ⟨⟨hlive, hnobody⟩, hgone⟩ := hcheck
  refine ⟨s, t, hs, by decide, hlive, hnobody, hrun, hgone, fun htakes => hgone ?_⟩
  obtain ⟨t', hrun', hsame⟩ := htakes.refused hnobody
  have heq : t = t' := (EStateM.Result.ok.inj (hrun.symm.trans hrun')).2
  rw [heq, show t' = s from hsame]
  exact hlive

end Cosy
