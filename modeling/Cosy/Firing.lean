import Cosy.Arguments
import Cosy.Rearming

/-!
# Which watchpoint is announced

A hardware watchpoint stops a thread by SIGTRAP, with `TRAP_HWBKPT` as the code of the signal.
`print_stop` asks for that code once for each record, and never for the slot that fired.
-/

namespace Cosy

open Effect

variable {R D α : Type} {arch : Architecture R D} {env : Environment R D} {s t u : State R D}
  {tid : Tid} {records : List Watchpoint}

/-! ### While a stop is reported -/

/-- The selected thread is in the stop of a hardware watchpoint, and these are the records. -/
structure FiredAt (tid : Tid) (records : List Watchpoint) (s : State R D) : Prop where
  selected : s.debugger.selectedTid = tid
  watchpoints : s.debugger.watchpoints = records
  code : ∃ task, s.target.tasks.find? tid = some task ∧ task.stopped = true ∧
    task.siCode = trapHwbkpt

theorem FiredAt.selectedStopped (hs : FiredAt tid records s) : s.SelectedStopped := by
  obtain ⟨task, htask, hstopped, -⟩ := hs.code
  rw [State.SelectedStopped, hs.selected]
  exact ⟨task, htask, hstopped⟩

theorem FiredAt.enter (hreliable : env.Reliable) (hs : FiredAt tid records s) :
    FiredAt tid records (env.enter s) := by
  obtain ⟨task, htask, hstopped, hcode⟩ := hs.code
  exact ⟨hs.selected, hs.watchpoints, task, hreliable.steady _ _ _ _ htask hstopped, hstopped, hcode⟩

/-- A request that changes at most the registers of the thread and the memory. -/
theorem firedAt_request (hreliable : env.Reliable) {operation : String} {other : Tid}
    {request : Task R D → Target R D → α × Target R D}
    (hrequest : ∀ (task : Task R D) (target : Target R D),
      (request task target).2.tasks = target.tasks ∨
        ∃ regs, (request task target).2.tasks = target.tasks.insert other { task with regs := regs }) :
    Within (Keeps (FiredAt tid records)) (ptrace env operation other request) := by
  intro s hs
  have henter := hs.enter hreliable
  rcases ptrace_cases env operation other request s with ⟨task, htask, -, -, hrun⟩ | ⟨-, hrun⟩
  · rw [endState_of_ok hrun]
    refine ⟨hs.selected, hs.watchpoints, ?_⟩
    obtain ⟨fired, hfired, hstopped, hcode⟩ := henter.code
    rcases hrequest task (env.enter s).target with hsame | ⟨regs, hsame⟩
    · exact ⟨fired, hsame ▸ hfired, hstopped, hcode⟩
    · by_cases heq : tid = other
      · subst heq
        obtain rfl := Option.some.inj (hfired.symm.trans htask)
        exact ⟨{ fired with regs := regs }, hsame ▸ SortedMap.find?_insert_self _ _ _, hstopped, hcode⟩
      · exact ⟨fired, hsame ▸ (SortedMap.find?_insert_of_ne _ _ heq).trans hfired, hstopped, hcode⟩
  · rw [endState_of_error hrun]
    exact henter

theorem firedAt_modify {change : Debugger → Debugger}
    (hselected : ∀ d, (change d).selectedTid = d.selectedTid)
    (hwatchpoints : ∀ d, (change d).watchpoints = d.watchpoints) :
    Within (Keeps (FiredAt tid records)) (modifyDebugger (R := R) (D := D) change) :=
  Within.modify fun _ hs =>
    ⟨(hselected _).trans hs.selected, (hwatchpoints _).trans hs.watchpoints, hs.code⟩

theorem firedAt_note (entry : Entry) :
    Within (Keeps (FiredAt tid records)) (note (R := R) (D := D) entry) :=
  Within.modify fun _ hs => ⟨hs.selected, hs.watchpoints, hs.code⟩

/-- What does not throw while a thread is in that stop, and leaves it there. -/
theorem firedAt_of_triple {m : Dbg R D α} {P : State R D → Prop} {Q : α → State R D → Prop}
    (hm : Triple P m Q fun _ _ => False) (hfired : ∀ s, FiredAt tid records s → P s)
    (hkeeps : Within (Keeps (FiredAt tid records)) m) :
    Triple (FiredAt tid records) m (fun _ => FiredAt tid records) (fun _ _ => False) := by
  intro s hs
  have hrun := hm s (hfired s hs)
  cases hout : m s with
  | ok a t => exact hkeeps.of_ok hout hs
  | error e t =>
      rw [hout] at hrun
      exact hrun

variable (arch) in
theorem firedAt_inspectBreakpoint (hreliable : env.Reliable) (candidate : Address) :
    Triple (FiredAt tid records) (inspectBreakpoint arch env tid candidate)
      (fun _ => FiredAt tid records) (fun _ _ => False) := by
  have hpeeks : Peeks env (Keeps (FiredAt (R := R) (D := D) tid records)) :=
    ⟨firedAt_request hreliable fun _ _ => Or.inl rfl⟩
  have hpoke : ∀ address value, Within (Keeps (FiredAt tid records))
      (pokeWord env address value : Dbg R D Unit) := fun address value =>
    Within.get_bind fun u => firedAt_request hreliable (fun _ _ => Or.inl rfl) u
  have hset : Within (Keeps (FiredAt tid records)) (setPc arch env tid candidate) :=
    Within.bind (hpeeks.getRegs tid) fun _ =>
      Within.bind (firedAt_request hreliable fun _ _ => Or.inr ⟨_, rfl⟩) fun _ => firedAt_note _
  have hdisable : Within (Keeps (FiredAt tid records)) (disable env candidate) := by
    refine Within.get_bind fun u => ?_
    cases u.debugger.breakpoints.find? candidate with
    | none => exact .pure _
    | some r =>
        refine Within.ite (fun _ => .pure _) (fun _ => ?_) u
        refine Within.bind (Within.bind (hpeeks.gatherWords _ _ _) fun words =>
          Within.forM _ fun _ _ => hpoke _ _) fun _ => Within.get_bind fun v => ?_
        refine Within.bind (firedAt_note _) (fun _ => ?_) v
        exact Within.bind (firedAt_modify (fun _ => rfl) fun _ => rfl) fun _ => firedAt_note _
  refine Triple.get_bind fun u => ?_
  cases u.debugger.breakpoints.find? candidate with
  | none => exact Triple.pure fun _ hu => hu.2
  | some r =>
      refine Triple.conseq ?_ (fun _ hu => hu.2) (fun _ _ hu => hu) fun _ _ hfalse => hfalse
      refine Triple.bind (firedAt_of_triple (hreliable.setPc candidate) (fun v hv => ?_) hset)
        fun _ => ?_
      · obtain ⟨task, htask, hstopped, -⟩ := hv.code
        exact ⟨task, htask, hstopped⟩
      have hlog : ∀ entry, Triple (FiredAt tid records) (note (R := R) (D := D) entry)
          (fun _ => FiredAt tid records) (fun _ _ => False) := fun entry =>
        Triple.modify fun v hv => ⟨hv.selected, hv.watchpoints, hv.code⟩
      refine Triple.bind (hlog _) fun _ => Triple.bind (hlog _) fun _ => ?_
      refine Triple.doIf (fun _ => ?_) fun _ _ hv => hv
      refine Triple.bind (Triple.bind (firedAt_of_triple (hreliable.disable candidate)
        (fun _ hv => hv.selectedStopped) hdisable) fun _ => ?_) fun _ => hlog _
      exact Triple.modify fun v hv => ⟨hv.selected, hv.watchpoints, hv.code⟩

/-! ### What is announced -/

/-- The watchpoint that is announced to be hit. -/
def Entry.watchHit : Entry → Option (Int × Address)
  | .out (.hitWatchpoint id address) => some (id, address)
  | _ => none

/-- These hits have been announced, the latest first. -/
def Announced (hits : List (Int × Address)) (s t : State R D) : Prop :=
  ∃ newer, t.log = newer ++ s.log ∧ newer.filterMap Entry.watchHit = hits

theorem Announced.trans {hits hits' : List (Int × Address)} (hst : Announced hits s t)
    (htu : Announced hits' t u) : Announced (hits' ++ hits) s u := by
  obtain ⟨newer, hnewer, hfirst⟩ := hst
  obtain ⟨newest, hnewest, hsecond⟩ := htu
  refine ⟨newest ++ newer, by rw [hnewest, hnewer, List.append_assoc], ?_⟩
  rw [List.filterMap_append, hfirst, hsecond]

/-- Nothing about watchpoints is said. -/
theorem Announced.of_silent (hst : Appends (fun entry => entry.watchHit = none) s t) :
    Announced [] s t := by
  obtain ⟨newer, hnewer, hsilent⟩ := hst
  exact ⟨newer, hnewer, List.filterMap_eq_nil_iff.mpr hsilent⟩

theorem inspectWatchpoints_announces (hreliable : env.Reliable) {first : Watchpoint}
    {rest : List Watchpoint} (hs : FiredAt tid records s) :
    ∃ t, inspectWatchpoints env tid (first :: rest) s = .ok ⟨⟩ t ∧
      Announced [(first.id, first.address)] s t := by
  obtain ⟨task, htask, hstopped, hcode⟩ := hs.code
  have hasked : attempt
      (ptrace env "PTRACE_GETSIGINFO" tid fun task target => (some task.siCode, target))
      (fun _ => pure none) s = .ok (some trapHwbkpt) (env.enter s) := by
    rw [attempt, rescue, hreliable.ptrace htask hstopped, hcode]
  refine ⟨(env.enter s).logged (.out (.hitWatchpoint first.id first.address)), ?_, ?_⟩
  · rw [inspectWatchpoints, bind_ok hasked, if_pos rfl]
    rfl
  · refine ⟨.out (.hitWatchpoint first.id first.address)
      :: (env.interfere s.tick s.target).1.map Entry.target, rfl, ?_⟩
    have hsilent : ((env.interfere s.tick s.target).1.map Entry.target).filterMap Entry.watchHit
        = [] := by simp [Entry.watchHit]
    rw [List.filterMap_cons, hsilent]
    rfl

variable (arch) in
/-- Reporting such a stop announces the first record, and only that. -/
theorem printStop_announces (hreliable : env.Reliable) {first : Watchpoint}
    {rest : List Watchpoint} (hs : FiredAt tid (first :: rest) s)
    (hsignal : s.debugger.stopSignal tid = some sigtrap) :
    Announced [(first.id, first.address)] s (endState (printStop arch env tid) s) := by
  have hquiet : Tolerates env (fun entry => entry.watchHit = none)
      (Appends (R := R) (D := D) fun entry => entry.watchHit = none) :=
    tolerates_appends env fun _ => rfl
  have hbreakpoint : ∀ candidate, Within (Appends fun entry => entry.watchHit = none)
      (inspectBreakpoint arch env tid candidate) := by
    refine fun candidate => Within.get_bind fun u => ?_
    cases u.debugger.breakpoints.find? candidate with
    | none => exact .pure _
    | some r =>
        refine Within.bind (hquiet.setPc rfl) (fun _ => Within.bind (hquiet.print rfl) fun _ => ?_) u
        refine Within.bind (hquiet.note _ rfl) fun _ => Within.doIf fun _ => ?_
        refine Within.bind (hquiet.dropBreakpoint ?_ ?_ ?_) fun _ => hquiet.print rfl
        · intro entry hentry
          cases entry <;> first | rfl | cases hentry
        · exact fun _ => appends_modifyDebugger _
        · exact appends_modifyDebugger _
  have hlocation : Within (Appends fun entry => entry.watchHit = none)
      (attempt (Cosy.printLocation arch env tid) fun _ => pure ⟨⟩) :=
    Within.rescue (hquiet.printLocation (fun _ _ => rfl) (fun _ _ => rfl) tid) fun _ => .pure _
  -- The program counter is read, the breakpoint is looked for, then the watchpoints are.
  obtain ⟨task, htask, hstopped, -⟩ := hs.code
  have hpc : pc arch env tid s = .ok (arch.pc task.regs) (env.enter s) := hreliable.pc htask hstopped
  have hfirst := firedAt_inspectBreakpoint arch hreliable
    (arch.candidate (arch.pc task.regs)) (env.enter s) (hs.enter hreliable)
  cases hinspect : inspectBreakpoint arch env tid (arch.candidate (arch.pc task.regs)) (env.enter s) with
  | error e t =>
      rw [hinspect] at hfirst
      exact hfirst.elim
  | ok a t =>
      rw [hinspect] at hfirst
      obtain ⟨u, hwatch, hannounced⟩ := inspectWatchpoints_announces hreliable hfirst
      have htrap : inspectTrap arch env tid s = .ok ⟨⟩ u := by
        rw [inspectTrap, bind_ok hpc, bind_ok hinspect, get_bind_apply, hfirst.watchpoints]
        exact hwatch
      have hattempt : attempt (inspectTrap arch env tid)
          (fun exception => print (.trapInspectionFailed exception)) s = .ok ⟨⟩ u := by
        rw [attempt, rescue, htrap]
      have hrun : endState (printStop arch env tid) s = endState
          (attempt (Cosy.printLocation arch env tid) fun _ => pure ⟨⟩) u := by
        rw [endState, endState, printStop, get_bind_apply, hsignal]
        dsimp only [printStopped]
        rw [if_pos rfl, bind_ok hattempt]
      have hbefore : Announced [] s t :=
        (Announced.of_silent (appends_enter (fun _ => rfl) s)).trans
          (.of_silent ((hbreakpoint _).of_ok hinspect))
      rw [hrun]
      exact (hbefore.trans hannounced).trans (.of_silent (hlocation u))

/-! ### The record that fired -/

/-- The slot that raised the stop is the one of this record, and of no other record. -/
structure RaisedBy (records : List Watchpoint) (slot : Nat) (fired : Watchpoint) : Prop where
  recorded : fired ∈ records
  slot_eq : fired.slot = slot
  only : ∀ other ∈ records, other.slot = slot → other = fired

/-- On the way to `t`, this watchpoint is announced to be hit, and no other one. -/
structure AnnouncesOnly (fired : Watchpoint) (s t : State R D) : Prop where
  announced : (fired.id, fired.address) ∈ (s.entriesSince t).filterMap Entry.watchHit
  only : ∀ hit ∈ (s.entriesSince t).filterMap Entry.watchHit, hit = (fired.id, fired.address)

theorem Announced.only_iff {hit : Int × Address} {fired : Watchpoint}
    (hst : Announced [hit] s t) : AnnouncesOnly fired s t ↔ hit = (fired.id, fired.address) := by
  obtain ⟨newer, hnewer, hhits⟩ := hst
  have hsince : (s.entriesSince t).filterMap Entry.watchHit = [hit] := by
    rw [entriesSince_of_append hnewer, hhits]
  constructor
  · exact fun honly => honly.only hit (hsince ▸ List.mem_singleton_self hit)
  · intro hhit
    constructor
    · rw [hsince, hhit]
      exact List.mem_singleton_self _
    · intro other hother
      rw [hsince] at hother
      exact (List.mem_singleton.mp hother).trans hhit

/-- The record that fired is the one that is announced exactly when the list begins with its number
    and its address: the slot is not looked at. -/
theorem announcesOnly_iff (hreliable : env.Reliable) (hs : FiredAt tid records s)
    (hsignal : s.debugger.stopSignal tid = some sigtrap) {slot : Nat} {fired : Watchpoint}
    (hraised : RaisedBy records slot fired) :
    AnnouncesOnly fired s (endState (printStop arch env tid) s) ↔
      records.head?.map (fun first => (first.id, first.address)) = some (fired.id, fired.address) := by
  cases records with
  | nil => exact absurd hraised.recorded List.not_mem_nil
  | cons first rest =>
      have hannounced := printStop_announces arch hreliable hs hsignal
      calc AnnouncesOnly fired s (endState (printStop arch env tid) s)
          ↔ (first.id, first.address) = (fired.id, fired.address) := hannounced.only_iff
        _ ↔ _ := (Option.some_inj).symm

/-- Two watchpoints, and the thread stops at one of them after it has been resumed. -/
def meeting : Environment UserRegs X86_64.DebugRegisters :=
  nopMachine fun tick => if tick < 14 then [] else [.stop 1 sigtrap 0 0 trapHwbkpt]

theorem meeting_reliable : meeting.Reliable := Machine.reliable fun _ => rfl

/-- What is recorded when the thread has stopped. -/
def metWatchpoints : List Watchpoint := [⟨1, 0, 0x2000, .write, 8⟩, ⟨2, 1, 0x3000, .write, 8⟩]

theorem meeting_prompt :
    ∃ t, Prompt x86_64 meeting (State.initial 1 (nopTarget 1)) t ∧ FiredAt 1 metWatchpoints t ∧
      t.debugger.stopSignal 1 = some sigtrap ∧
      t.log.filterMap Entry.watchHit = [(1, 0x2000)] := by
  obtain ⟨t, ht, hcheck⟩ := Prompt.exists_of_runBatch x86_64 meeting
    (State.initial 1 (nopTarget 1)) ["watch 0x2000".toList, "watch 0x3000".toList, "c".toList]
    (p := fun t => decide (t.debugger.selectedTid = 1) &&
      decide (t.debugger.watchpoints = metWatchpoints) &&
      (t.target.tasks.find? 1).any (fun task => task.stopped && decide (task.siCode = trapHwbkpt)) &&
      decide (t.debugger.stopSignal 1 = some sigtrap) &&
      decide (t.log.filterMap Entry.watchHit = [(1, 0x2000)])) (by decide +kernel)
  simp only [Bool.and_eq_true, decide_eq_true_eq, Option.any_eq_true] at hcheck
  obtain ⟨⟨⟨⟨hselected, hwatchpoints⟩, task, htask, hstopped, hcode⟩, hsignal⟩, hlog⟩ := hcheck
  exact ⟨t, ht, ⟨hselected, hwatchpoints, task, htask, hstopped, hcode⟩, hsignal, hlog⟩

/-- The stop of the first of the two is announced as such. -/
theorem announcesOnly_first :
    ∃ t, Prompt x86_64 meeting (State.initial 1 (nopTarget 1)) t ∧
      AnnouncesOnly ⟨1, 0, 0x2000, .write, 8⟩ t (endState (printStop x86_64 meeting 1) t) := by
  obtain ⟨t, ht, hs, hsignal, -⟩ := meeting_prompt
  have hraised : RaisedBy metWatchpoints 0 ⟨1, 0, 0x2000, .write, 8⟩ := by
    refine ⟨by decide, rfl, ?_⟩
    decide
  exact ⟨t, ht, (announcesOnly_iff meeting_reliable hs hsignal hraised).mpr rfl⟩

/-- The stop of the second is announced as one of the first. -/
theorem announced_first_of_second :
    ∃ t, Prompt x86_64 meeting (State.initial 1 (nopTarget 1)) t ∧ FiredAt 1 metWatchpoints t ∧
      t.debugger.stopSignal 1 = some sigtrap ∧
      RaisedBy metWatchpoints 1 ⟨2, 1, 0x3000, .write, 8⟩ ∧
      t.log.filterMap Entry.watchHit = [(1, 0x2000)] ∧
      ¬ AnnouncesOnly ⟨2, 1, 0x3000, .write, 8⟩ t
        (endState (printStop x86_64 meeting 1) t) := by
  obtain ⟨t, ht, hs, hsignal, hlog⟩ := meeting_prompt
  have hraised : RaisedBy metWatchpoints 1 ⟨2, 1, 0x3000, .write, 8⟩ := by
    refine ⟨by decide, rfl, ?_⟩
    decide
  refine ⟨t, ht, hs, hsignal, hraised, hlog, fun honly => ?_⟩
  have hannounced := (printStop_announces x86_64 meeting_reliable hs hsignal).only_iff.mp honly
  exact absurd hannounced (by decide)

end Cosy
