import Cosy.Frames
import Cosy.Detach

/-!
# Re-arming after a step-over

Whether the trap that a step-over has lifted is back in place when the step-over is done. What
decides it is the thread whose stop was consumed, and whether the stepped thread is itself stopped
when the trap is to be put back through it.
-/

namespace Cosy

open ByteMemory Effect

variable {R D α : Type} {arch : Architecture R D} {env : Environment R D}

/-- The bytes of the trap at `address`. -/
def trapBytes (arch : Architecture R D) (address : Address) : Set Address :=
  {x | arch.trapBase x = address}

/-- The breakpoint at `address` is enabled and its trap is in memory. -/
def Rearmed (arch : Architecture R D) (address : Address) (s : State R D) : Prop :=
  (∃ r, s.debugger.breakpoints.find? address = some r ∧ r.enabled = true) ∧
    bytesAt s.target.memory address arch.breakpointSize = arch.breakpointInstruction

/-- From this system call on the environment does not write the bytes of `B`. -/
def Environment.SparesFrom (env : Environment R D) (tick : Nat) (B : Set Address) : Prop :=
  ∀ now, tick ≤ now → ∀ target, Set.EqOn (env.interfere now target).2.memory target.memory B

/-- The bytes of `B` are those of `m`, and time has come to `tick`. -/
def Spared (tick : Nat) (B : Set Address) (m : Memory) (s : State R D) : Prop :=
  tick ≤ s.tick ∧ Set.EqOn s.target.memory m B

section Spared

variable {tick : Nat} {B : Set Address} {m : Memory} {s t : State R D}

theorem Spared.enter (henv : env.SparesFrom tick B) (hs : Spared tick B m s) :
    Spared tick B m (env.enter s) :=
  ⟨Nat.le_succ_of_le hs.1, (henv s.tick hs.1 s.target).trans hs.2⟩

theorem Spared.watching (henv : env.SparesFrom tick B) :
    Watching env (Spared tick B m) (fun _ => True) B m where
  enter _ hs := hs.enter henv
  back _ _ _ := trivial
  memory _ hs _ := hs.2

theorem Spared.touching {T : Set Address} (henv : env.SparesFrom tick B)
    (hmoves : Moves arch env T touching s t) (hs : Spared tick B m s) : Spared tick B m t := by
  refine hmoves.preserve (fun kind hkind u v hmove hu => ?_) hs
  cases hmove with
  | enter => exact hu.enter henv
  | say | regs => exact hu
  | liftWild _ hlift => rcases hlift with rfl | rfl <;> exact absurd hkind (by decide)
  | _ => exact absurd hkind (by decide)

/-- Writing one trap's worth of bytes at an aligned address, as far as `B` can tell. -/
theorem Spared.writeBytes (henv : env.SparesFrom tick B) {key : Address} {bytes : List Byte}
    (haligned : key.toNat % arch.breakpointSize = 0) (hlength : bytes.length = arch.breakpointSize) :
    Triple (Spared tick B m) (writeBytes env key bytes)
      (fun _ => Spared tick B fun x =>
        if arch.trapBase x = key then bytes.getD (x.toNat % arch.breakpointSize) 0 else m x)
      (fun _ => Spared tick B m) := by
  refine (writeTrap_spec (Spared.watching henv) haligned hlength).conseq (fun _ hs => hs) ?_
    (fun _ _ hs => hs)
  rintro _ t ⟨u, memory, hu, rfl, hput⟩
  exact ⟨hu.1, hput trivial⟩

/-- `enable` puts the trap in. -/
theorem Spared.insertTrap {key : Address} (henv : env.SparesFrom tick (trapBytes arch key))
    (haligned : key.toNat % arch.breakpointSize = 0) :
    Triple (Spared tick (trapBytes arch key) m) (Cosy.insertTrap arch env key key)
      (fun _ => Spared tick (trapBytes arch key) arch.trapByte) (fun _ _ => True) := by
  have hread := readBytes_spec (Spared.watching (m := m) henv) arch.breakpointSize key True
  refine Triple.bind (hread.conseq (fun _ hs => ⟨hs, fun _ => trivial⟩) (fun _ _ hs => hs.1)
    fun _ _ _ => trivial) fun saved => ?_
  refine Triple.bind (Q := fun _ => Spared tick (trapBytes arch key) m)
    (Triple.modify fun _ hs => hs) fun _ => ?_
  refine Triple.bind ((Spared.writeBytes henv haligned arch.length_breakpointInstruction).conseq
    (fun _ hs => hs) (fun _ _ hs => hs) fun _ _ _ => trivial) fun _ => ?_
  refine Triple.modify fun t ht => ⟨ht.1, fun x hx => ?_⟩
  have hput := ht.2 hx
  simp only [show arch.trapBase x = key from hx, if_true] at hput
  exact hput

theorem Spared.enable {key : Address} {r : Breakpoint}
    (henv : env.SparesFrom tick (trapBytes arch key))
    (haligned : key.toNat % arch.breakpointSize = 0)
    (hr : s.debugger.breakpoints.find? key = some r) (haddress : r.address = key)
    (hpending : r.pending = false) (hdisabled : r.enabled = false)
    (hs : Spared tick (trapBytes arch key) m s) (hrun : Cosy.enable arch env key s = .ok ⟨⟩ t) :
    Spared tick (trapBytes arch key) arch.trapByte t := by
  rw [Cosy.enable, get_bind_apply, hr] at hrun
  simp only [hpending, hdisabled, Bool.false_and, Bool.or_false, Bool.false_eq_true, if_false,
    haddress] at hrun
  obtain ⟨_, u, hnote, hput⟩ := of_bind_ok hrun
  cases hnote
  exact (Spared.insertTrap henv haligned).of_ok (s := s.logged (.arming key)) hs
    (of_onThrow_ok hput)

end Spared

/-! ### A breakpoint that stays -/

/-- Traps are inserted at multiples of their size. -/
def AlignedTable (arch : Architecture R D) (breakpoints : SortedMap Address Breakpoint) : Prop :=
  ∀ key r, breakpoints.find? key = some r → key.toNat % arch.breakpointSize = 0

theorem AlignedTable.modify {breakpoints : SortedMap Address Breakpoint} {key : Address}
    {change : Breakpoint → Breakpoint} (haligned : AlignedTable arch breakpoints) :
    AlignedTable arch (breakpoints.modify key change) := by
  intro key' r hr
  rw [SortedMap.find?_modify] at hr
  split at hr
  · rename_i heq
    obtain ⟨r', hr', -⟩ := Option.map_eq_some_iff.mp hr
    exact heq ▸ haligned key r' hr'
  · exact haligned key' r hr

/-- The breakpoint at `key` is enabled with its trap in memory, in a table in good order. -/
structure Standing (arch : Architecture R D) (tick : Nat) (key : Address) (s : State R D) :
    Prop where
  formed : WellFormed arch s.debugger.breakpoints
  aligned : AlignedTable arch s.debugger.breakpoints
  spared : Spared tick (trapBytes arch key) arch.trapByte s
  enabled : ∃ r, s.debugger.breakpoints.find? key = some r ∧ r.enabled = true

section Standing

variable {tick : Nat} {key : Address} {s t : State R D}

theorem Standing.rearmed (hs : Standing arch tick key s) : Rearmed arch key s := by
  obtain ⟨r, hr, henabled⟩ := hs.enabled
  exact ⟨⟨r, hr, henabled⟩, bytesAt_trap (hs.aligned key r hr) fun _ hx => hs.spared.2 hx⟩

/-- Functions that only touch a thread leave the breakpoint standing. -/
theorem Standing.of_does (henv : env.SparesFrom tick (trapBytes arch key)) {m : Dbg R D α}
    (hm : Does arch env ∅ touching m) : Within (Keeps (Standing arch tick key)) m := by
  intro s hs
  obtain ⟨hmoves, hformed⟩ := hm s hs.formed
  have hdebugger := hmoves.debugger
  exact ⟨hformed, hdebugger ▸ hs.aligned, hs.spared.touching henv hmoves, hdebugger ▸ hs.enabled⟩

/-- Lifting another trap leaves these bytes alone. -/
theorem Spared.disable {m : Memory} (henv : env.SparesFrom tick (trapBytes arch key))
    {other : Address} (hne : other ≠ key) (hformed : WellFormed arch s.debugger.breakpoints)
    (haligned : AlignedTable arch s.debugger.breakpoints)
    (hs : Spared tick (trapBytes arch key) m s) :
    Spared tick (trapBytes arch key) m (endState (Cosy.disable env other) s) := by
  rw [Cosy.disable, endState, get_bind_apply]
  cases hr : s.debugger.breakpoints.find? other with
  | none => exact hs
  | some r =>
      obtain ⟨haddress, -, hlength⟩ := hformed other r hr
      cases hguard : r.pending || !r.enabled || r.saved.isEmpty with
      | true => simpa [hguard] using hs
      | false =>
          have hwrite := (Spared.writeBytes (m := m) henv (haligned other r hr)
            (hlength (by simp_all))) s hs
          simp only [hguard, Bool.false_eq_true, if_false, haddress]
          rw [bind_apply]
          cases hrun : Cosy.writeBytes env other r.saved s with
          | error e t =>
              rw [hrun] at hwrite
              exact hwrite
          | ok a t =>
              rw [hrun] at hwrite
              refine ⟨hwrite.1, fun x hx => (hwrite.2 hx).trans (if_neg ?_)⟩
              exact fun heq => hne (heq.symm.trans hx)

/-- Another record may be disabled. -/
theorem Standing.disable (henv : env.SparesFrom tick (trapBytes arch key)) {other : Address}
    (hne : other ≠ key) : Within (Keeps (Standing arch tick key)) (disable env other) := by
  intro s hs
  have hspared := hs.spared.disable henv hne hs.formed hs.aligned
  have hformed := (does_disable env.leavesText_empty other s hs.formed).2
  have hdebugger : ∀ t, endState (Cosy.disable env other) s = t →
      t.debugger = s.debugger ∨
        t.debugger = s.debugger.withRecord other fun r => { r with enabled := false } := by
    rintro t rfl
    have hspec := disable_debugger env other s s rfl
    unfold endState
    cases hrun : Cosy.disable env other s with
    | ok a t =>
        rw [hrun] at hspec
        exact hspec
    | error e t =>
        rw [hrun] at hspec
        exact Or.inl hspec
  rcases hdebugger _ rfl with hsame | hchanged
  · exact ⟨hformed, hsame ▸ hs.aligned, hspared, hsame ▸ hs.enabled⟩
  · refine ⟨hformed, hchanged ▸ hs.aligned.modify, hspared, ?_⟩
    · obtain ⟨r, hr, henabled⟩ := hs.enabled
      refine ⟨r, ?_, henabled⟩
      rw [hchanged, Debugger.withRecord, SortedMap.find?_modify_of_ne _ _ (Ne.symm hne)]
      exact hr

/-- Another record may be dropped. -/
theorem Standing.dropBreakpoint (henv : env.SparesFrom tick (trapBytes arch key)) {other : Address}
    (hne : other ≠ key) : Within (Keeps (Standing arch tick key)) (dropBreakpoint env other) := by
  refine Within.bind (Standing.disable henv hne) fun _ => Within.modify fun s hs => ?_
  have hfind : ∀ key', (s.debugger.breakpoints.erase other).find? key'
      = if key' = other then none else s.debugger.breakpoints.find? key' :=
    fun key' => SortedMap.find?_erase _ _ _
  refine ⟨fun key' r hr => ?_, fun key' r hr => ?_, hs.spared, ?_⟩
  · have hold := (hfind key').symm.trans hr
    split at hold
    · cases hold
    · exact hs.formed key' r hold
  · have hold := (hfind key').symm.trans hr
    split at hold
    · cases hold
    · exact hs.aligned key' r hold
  · obtain ⟨r, hr, henabled⟩ := hs.enabled
    exact ⟨r, (hfind key).trans ((if_neg (Ne.symm hne)).trans hr), henabled⟩

/-- A hit that does not remove the breakpoint leaves it standing. -/
theorem Standing.inspectBreakpoint (henv : env.SparesFrom tick (trapBytes arch key)) {tid : Tid}
    {candidate : Address} (hs : Standing arch tick key s)
    (hkept : ∀ r, s.debugger.breakpoints.find? key = some r → candidate = key →
      r.temporary = false) :
    Standing arch tick key (endState (inspectBreakpoint arch env tid candidate) s) := by
  have hkeep : WithinAt (Keeps (Standing arch tick key))
      (Cosy.inspectBreakpoint arch env tid candidate) s := by
    refine WithinAt.get_bind ?_
    cases hr : s.debugger.breakpoints.find? candidate with
    | none => exact .pure _
    | some r =>
        refine Within.bind (Standing.of_does henv (does_setPc tid candidate)) (fun _ => ?_) s
        refine Within.bind (Within.modify fun _ ht => ⟨ht.1, ht.2, ht.3, ht.4⟩) fun _ => ?_
        refine Within.bind (Within.modify fun _ ht => ⟨ht.1, ht.2, ht.3, ht.4⟩) fun _ => ?_
        refine Within.doIf fun htemporary => Within.bind (Standing.dropBreakpoint henv ?_)
          fun _ => Within.modify fun _ ht => ⟨ht.1, ht.2, ht.3, ht.4⟩
        rintro rfl
        rw [hkept r hr rfl] at htemporary
        cases htemporary
  exact hkeep hs

/-- Whether `print_stop` of this thread removes the breakpoint at `key`. -/
def State.Removes (arch : Architecture R D) (s : State R D) (tid : Tid) (key : Address) : Prop :=
  s.debugger.stopSignal tid = some sigtrap ∧
    (∃ p, s.target.stoppedAt arch tid = some p ∧ arch.candidate p = key) ∧
    ∃ r, s.debugger.breakpoints.find? key = some r ∧ r.temporary = true

theorem Standing.inspectTrap (henv : env.SparesFrom tick (trapBytes arch key))
    (hreliable : env.Reliable) {tid : Tid} {task : Task R D}
    (htask : s.target.tasks.find? tid = some task) (hstopped : task.stopped = true)
    (hkept : ∀ r, s.debugger.breakpoints.find? key = some r →
      arch.candidate (arch.pc task.regs) = key → r.temporary = false) :
    WithinAt (Keeps (Standing arch tick key)) (Cosy.inspectTrap arch env tid) s := by
  refine WithinAt.bind (Standing.of_does henv (does_pc (by decide) tid) s) fun value t hrun => ?_
  cases (hreliable.pc htask hstopped).symm.trans hrun
  refine WithinAt.bind (fun ht => ht.inspectBreakpoint henv hkept) fun _ u _ => ?_
  exact Within.get_bind (fun v => Standing.of_does henv
    ((does_inspectWatchpoints tid _).mono (by decide)) v) u

/-- Reporting a stop that does not remove the breakpoint leaves it standing. -/
theorem Standing.printStop (henv : env.SparesFrom tick (trapBytes arch key))
    (hreliable : env.Reliable) {tid : Tid} (hstopped : s.StoppedThread tid)
    (hs : Standing arch tick key s) (hkept : ¬ s.Removes arch tid key) :
    Standing arch tick key (endState (printStop arch env tid) s) := by
  obtain ⟨task, htask, hflag⟩ := hstopped
  have hsay : ∀ message, Within (Keeps (Standing arch tick key)) (print (R := R) (D := D) message) :=
    fun message => Standing.of_does henv (does_print (by decide) message)
  have hlocation : Within (Keeps (Standing arch tick key))
      (attempt (printLocation arch env tid) fun _ => pure ⟨⟩) :=
    Within.rescue (Standing.of_does henv ((does_printLocation tid).mono (by decide))) fun _ => .pure _
  have hkeep : WithinAt (Keeps (Standing arch tick key)) (Cosy.printStop arch env tid) s := by
    refine WithinAt.get_bind ?_
    cases hsignal : s.debugger.stopSignal tid with
    | none => exact .pure _
    | some signal =>
        dsimp only
        unfold printStopped
        split
        · rename_i htrap
          refine WithinAt.bind (WithinAt.rescue (Standing.inspectTrap henv hreliable htask hflag ?_)
            fun _ => hsay _) fun _ t _ => hlocation t
          intro r hr hcandidate
          refine Bool.eq_false_iff.mpr fun htemporary => hkept ⟨htrap ▸ hsignal, ?_, r, hr, htemporary⟩
          exact ⟨_, stoppedAt_of_find? htask hflag, hcandidate⟩
        · split
          · exact Within.bind (hsay _) (fun _ => hlocation) s
          · exact Within.bind (hsay _) (fun _ => hlocation) s
  exact hkeep hs

end Standing

/-! ### A breakpoint that is removed -/

section Removal

variable {key : Address} {s t : State R D}

/-- Looking at the target brings no record back. -/
theorem absent_of_same {m : Dbg R D α} (hm : Within SameDebugger m) :
    Within (Keeps fun s : State R D => s.debugger.breakpoints.find? key = none) m :=
  hm.mono fun _ _ hst hs => (congrArg (fun d => d.breakpoints.find? key) hst).trans hs

theorem announceHit_removes (arch : Architecture R D) (hreliable : env.Reliable) (key : Address)
    {tid : Tid} {r : Breakpoint} (htemporary : r.temporary = true) :
    Triple (fun s => s.StoppedThread tid ∧ s.debugger.selectedTid = tid)
      (announceHit arch env tid r key)
      (fun _ s => s.debugger.breakpoints.find? key = none) (fun _ _ => False) := by
  have hset : Triple (fun s => s.StoppedThread tid ∧ s.debugger.selectedTid = tid)
      (setPc arch env tid key)
      (fun _ s => s.StoppedThread tid ∧ s.debugger.selectedTid = tid) (fun _ _ => False) :=
    ((hreliable.setPc key).frame ((sameDebugger env).setPc trivial) fun _ _ hst hs =>
      (congrArg Debugger.selectedTid hst).trans hs).conseq (fun _ hs => hs) (fun _ _ hs => hs)
      fun _ _ hfalse => hfalse.1.elim
  rw [announceHit]
  refine Triple.bind hset fun _ => ?_
  refine Triple.bind (Q := fun _ => State.SelectedStopped)
    (Triple.modify fun u hu => ?_) fun _ => ?_
  · obtain ⟨hstopped, rfl⟩ := hu
    exact hstopped
  refine Triple.bind (Q := fun _ => State.SelectedStopped) (Triple.modify fun _ hu => hu) fun _ => ?_
  rw [doIf, if_pos htemporary]
  refine Triple.bind (Q := fun _ u => u.debugger.breakpoints.find? key = none) ?_
    fun _ => Triple.modify fun _ hu => hu
  refine Triple.bind (hreliable.disable key) fun _ => Triple.modify fun u _ => ?_
  exact (SortedMap.find?_erase _ _ _).trans (if_pos rfl)

/-- Reporting a hit of a temporary breakpoint removes it. -/
theorem printStop_removes (hreliable : env.Reliable) {tid : Tid} (hstopped : s.StoppedThread tid)
    (hselected : s.debugger.selectedTid = tid) (hremoves : s.Removes arch tid key) :
    (endState (printStop arch env tid) s).debugger.breakpoints.find? key = none := by
  obtain ⟨hsignal, ⟨p, hp, hcandidate⟩, r, hr, htemporary⟩ := hremoves
  obtain ⟨task, htask, hflag⟩ := hstopped
  obtain rfl := Option.some.inj ((stoppedAt_of_find? htask hflag).symm.trans hp)
  -- From the hit on, nothing brings the record back.
  let Gone : State R D → Prop := fun u => u.debugger.breakpoints.find? key = none
  have hinspect : Triple (fun u => u = s) (inspectTrap arch env tid) (fun _ => Gone)
      (fun _ => Gone) := by
    rintro s rfl
    have hhit := announceHit_removes arch hreliable key htemporary (env.enter s)
      ⟨⟨task, hreliable.steady _ _ _ _ htask hflag, hflag⟩, hselected⟩
    have hfound : inspectBreakpoint arch env tid key (env.enter s)
        = announceHit arch env tid r key (env.enter s) := by
      rw [inspectBreakpoint, get_bind_apply, enter_debugger, hr]
    rw [inspectTrap, bind_ok (hreliable.pc htask hflag), hcandidate, bind_apply, hfound]
    cases hrun : announceHit arch env tid r key (env.enter s) with
    | error e t =>
        rw [hrun] at hhit
        exact hhit.elim
    | ok a t =>
        rw [hrun] at hhit
        exact triple_of_within (absent_of_same ((sameDebugger env).inspectWatchpoints
          (fun _ _ => trivial) tid t.debugger.watchpoints))
          t hhit
  have hstop : printStop arch env tid s = printStopped arch env tid sigtrap s := by
    rw [printStop, get_bind_apply, hsignal]
  have hreport : Triple (fun u => u = s) (printStopped arch env tid sigtrap) (fun _ => Gone)
      (fun _ => Gone) := by
    unfold printStopped
    rw [if_pos rfl]
    refine Triple.bind (Triple.rescue hinspect ?_ fun _ _ _ hu => hu) fun _ => ?_
    · exact fun _ exception _ => triple_of_within (absent_of_same ((sameDebugger env).note _ trivial))
    · exact triple_of_within
        (Within.rescue (absent_of_same ((sameDebugger env).printLocation
          (fun _ _ => trivial) (fun _ _ => trivial) tid)) fun _ => .pure _)
  rw [endState, hstop]
  exact hreport.endState rfl

end Removal

/-! ### The step-over -/

/-- Breakpoints, the selected thread and the life of the target are the same. -/
structure SameTable (s t : State R D) : Prop where
  breakpoints : t.debugger.breakpoints = s.debugger.breakpoints
  selected : t.debugger.selectedTid = s.debugger.selectedTid
  alive : t.debugger.alive = s.debugger.alive

instance : IsPreorder (State R D) SameTable where
  refl _ := ⟨rfl, rfl, rfl⟩
  trans _ _ _ hst htu := ⟨htu.1.trans hst.1, htu.2.trans hst.2, htu.3.trans hst.3⟩

theorem SameTable.of_same {s t : State R D} (hst : SameDebugger s t) : SameTable s t :=
  ⟨congrArg _ hst, congrArg _ hst, congrArg _ hst⟩

theorem same_waitForEvent : Within SameDebugger (waitForEvent (R := R) (D := D) env) := by
  intro s
  rcases waitForEvent_cases env s with ⟨tid, status, rest, -, hrun⟩ | ⟨-, halt, hrun⟩
  · rw [WithinAt, endState_of_ok hrun]
    rfl
  · rw [WithinAt, endState_of_error hrun]
    rfl

theorem sameTable_stepThread (env : Environment R D) (tid : Tid) :
    Within SameTable (stepThread env tid) := by
  have hresume : Within SameTable (resume (R := R) (D := D) env tid .singlestep 0) :=
    (((sameDebugger env).request fun _ _ => rfl).bind fun _ =>
      (sameDebugger env).note _ trivial).mono fun _ _ => .of_same
  refine Within.bind hresume fun _ => Within.bind (Within.get_bind fun s => ?_) fun _ =>
    same_waitForEvent.mono fun _ _ => .of_same
  exact Within.ite (fun _ => Within.modify fun _ => ⟨rfl, rfl, rfl⟩) (fun _ => .throw _) s

/-- When the step-over comes to its event, its breakpoint is disabled, and nothing else is
different in the table. -/
theorem stepOffTrap_ok {s u : State R D} {address : Address} {event : Tid × WaitStatus}
    {r : Breakpoint} (hformed : WellFormed arch s.debugger.breakpoints)
    (hr : s.debugger.breakpoints.find? address = some r) (henabled : r.enabled = true)
    (hrun : stepOffTrap env address s = .ok event u) :
    u.debugger.breakpoints
        = s.debugger.breakpoints.modify address (fun r => { r with enabled := false }) ∧
      u.debugger.selectedTid = s.debugger.selectedTid ∧ u.debugger.alive = s.debugger.alive := by
  obtain ⟨_, v, hdisable, hrest⟩ := of_bind_ok hrun
  have hgone := ((disable_spec env.leavesText_empty .force address hformed
    fun _ _ => Or.inl rfl).of_ok rfl hdisable).2
  have hdebugger := (disable_debugger env address s).of_ok rfl hdisable
  have hlifted : v.debugger
      = s.debugger.withRecord address fun r => { r with enabled := false } := by
    rcases hdebugger with hsame | hlifted
    · rw [hgone r (hsame ▸ hr)] at henabled
      cases henabled
    · exact hlifted
  have hstep : stepThread env v.debugger.selectedTid
      (v.logged (.stepOver v.debugger.selectedTid address
        (v.target.alone v.debugger.selectedTid))) = .ok event u := of_onThrow_ok hrest
  have hsame := (sameTable_stepThread env v.debugger.selectedTid).of_ok hstep
  have hbreakpoints := congrArg Debugger.breakpoints hlifted
  have hselected := congrArg Debugger.selectedTid hlifted
  have halive := congrArg Debugger.alive hlifted
  exact ⟨hsame.breakpoints.trans hbreakpoints, hsame.selected.trans hselected,
    hsame.alive.trans halive⟩

section StepOver

variable {s s' u : State R D} {address : Address} {tid : Tid} {status : WaitStatus}
  {r : Breakpoint}

/-- The state in which a step-over begins to put its trap back. -/
def State.consumed (arch : Architecture R D) (u : State R D) (tid : Tid) (status : WaitStatus) :
    State R D :=
  let v := u.logged (.consumed .stepOver tid status (u.target.stoppedAt arch tid))
  v.withDebugger
    { v.debugger with
      threads := v.debugger.threads.insert tid ⟨tid, status.isStopped, status.stopSignal⟩ }

def State.select (s : State R D) (tid : Tid) : State R D :=
  s.withDebugger { s.debugger with selectedTid := tid }

/-- After the event a step-over deals with the stop, if it is one. -/
theorem endState_stepOverBreakpoint
    (hpc : pc arch env s.debugger.selectedTid s = .ok address s')
    (hr : s'.debugger.breakpoints.find? address = some r) (henabled : r.enabled = true)
    (hwait : stepOffTrap env address s' = .ok (tid, status) u) :
    endState (stepOverBreakpoint arch env) s
      = endState (doIf status.isStopped (handleStepStop arch env address tid))
        (u.consumed arch tid status) := by
  rw [endState, stepOverBreakpoint, get_bind_apply, bind_ok hpc, get_bind_apply, hr]
  simp only [henabled, if_true]
  rw [bind_ok hwait]
  rfl

theorem endState_handleStepStop_error {v t : State R D} {halt : Halt}
    (hrun : reinsert arch env tid address v = .error halt t) :
    endState (handleStepStop arch env address tid) v = t := by
  rw [handleStepStop, endState, get_bind_apply]
  by_cases hown : tid = v.debugger.selectedTid
  · rw [if_pos hown, hrun]
  · rw [if_neg hown, bind_error hrun]

theorem endState_handleStepStop_own {v t : State R D} (hown : tid = v.debugger.selectedTid)
    (hrun : reinsert arch env tid address v = .ok ⟨⟩ t) :
    endState (handleStepStop arch env address tid) v = t := by
  rw [handleStepStop, endState, get_bind_apply, if_pos hown, hrun]

theorem endState_handleStepStop_other {v t : State R D} (hother : tid ≠ v.debugger.selectedTid)
    (hrun : reinsert arch env tid address v = .ok ⟨⟩ t) :
    endState (handleStepStop arch env address tid) v
      = endState (printStop arch env tid) (t.select tid) := by
  rw [handleStepStop, endState, get_bind_apply, if_neg hother, bind_ok hrun]
  rfl

theorem enable_error (arch : Architecture R D) {v : State R D} {key : Address}
    (hr : v.debugger.breakpoints.find? key = some r) (hpending : r.pending = false)
    (hdisabled : r.enabled = false) (hanswer : ¬ v.Answering env) :
    ∃ halt t, enable arch env key v = .error halt t := by
  cases hrun : enable arch env key v with
  | error halt t => exact ⟨halt, t, rfl⟩
  | ok a t =>
      rw [enable, get_bind_apply, hr] at hrun
      simp only [hpending, hdisabled, Bool.false_and, Bool.or_false, Bool.false_eq_true,
        if_false] at hrun
      obtain ⟨_, w, hnote, hinsert⟩ := of_bind_ok hrun
      cases hnote
      obtain ⟨bytes, x, hread, -⟩ := of_bind_ok (of_onThrow_ok hinsert)
      obtain ⟨n, hn⟩ := Nat.exists_eq_succ_of_ne_zero arch.breakpointSize_pos.ne'
      rw [hn] at hread
      obtain ⟨value, y, hword, -⟩ := of_bind_ok hread
      obtain ⟨halt, herror⟩ := readWord_error (s := v.logged (.arming key)) hanswer
        (aligned r.address)
      cases herror.symm.trans hword

/-- The trap cannot be put back: the record stays disabled. -/
theorem reinsert_error (arch : Architecture R D) (tid : Tid) {v : State R D}
    (hr : v.debugger.breakpoints.find? address = some r)
    (hpending : r.pending = false) (hdisabled : r.enabled = false) (hanswer : ¬ v.Answering env) :
    ∃ halt t, reinsert arch env tid address v = .error halt t ∧
      ∀ r', t.debugger.breakpoints.find? address = some r' → r'.enabled = false := by
  obtain ⟨halt, t, hrun⟩ := enable_error arch hr hpending hdisabled hanswer
  have hdebugger := (enable_debugger hr hpending hdisabled).of_error rfl hrun
  refine ⟨halt, t.logged (.reinsertFailed tid v.debugger.selectedTid), ?_, fun r' hr' => ?_⟩
  · rw [reinsert, get_bind_apply, onThrow, hrun]
    rfl
  · change t.debugger.breakpoints.find? address = some r' at hr'
    rcases hdebugger with hsame | ⟨saved, hsaved⟩
    · rw [hsame, hr] at hr'
      exact Option.some.inj hr' ▸ hdisabled
    · rw [hsaved, Debugger.withRecord, SortedMap.find?_modify_self, hr] at hr'
      exact Option.some.inj hr' ▸ hdisabled

/-- The trap is put back, through the selected thread. -/
theorem reinsert_ok (tid : Tid) {v : State R D} (hreliable : env.Reliable)
    (henv : env.SparesFrom v.tick (trapBytes arch address))
    (hformed : WellFormed arch v.debugger.breakpoints)
    (haligned : AlignedTable arch v.debugger.breakpoints)
    (hr : v.debugger.breakpoints.find? address = some r) (hdisabled : r.enabled = false)
    (hanswer : v.Answering env) :
    ∃ t saved, reinsert arch env tid address v = .ok ⟨⟩ t ∧
      t.debugger = v.debugger.withRecord address (fun r => r.armedWith saved) ∧
      Standing arch v.tick address t ∧ StopsKept v.target t.target := by
  obtain ⟨haddress, hpending, -⟩ := hformed address r hr
  cases hrun : enable arch env address v with
  | error halt t => exact ((hreliable.enable address).of_error hanswer hrun).elim
  | ok a t =>
      obtain ⟨saved, hdebugger⟩ := (enable_debugger hr hpending hdisabled).of_ok rfl hrun
      obtain ⟨hmoves, hformedt⟩ := (does_enable env.leavesText_empty address).of_ok hrun hformed
      have hspared := Spared.enable (m := v.target.memory) henv (haligned address r hr) hr haddress
        hpending hdisabled ⟨le_refl _, fun _ _ => rfl⟩ hrun
      have hfind : t.debugger.breakpoints.find? address = some (r.armedWith saved) := by
        rw [hdebugger, Debugger.withRecord, SortedMap.find?_modify_self, hr]
        rfl
      refine ⟨t, saved, ?_, hdebugger, ⟨hformedt, ?_, hspared, _, hfind, rfl⟩,
        stopsKept_of_arming hreliable hmoves⟩
      · rw [reinsert, get_bind_apply, onThrow, hrun]
      · rw [hdebugger]
        exact haligned.modify

/-- The event is another thread's `SIGTRAP` at the trap of this breakpoint, which is temporary. -/
def RemovedByOther (arch : Architecture R D) (u : State R D) (tid : Tid) (status : WaitStatus)
    (address : Address) (r : Breakpoint) : Prop :=
  tid ≠ u.debugger.selectedTid ∧ u.debugger.alive = true ∧ status.stopSignal = sigtrap ∧
    r.temporary = true ∧ ∃ p, u.target.stoppedAt arch tid = some p ∧ arch.candidate p = address

theorem removes_select_iff {t : State R D} {saved : List Byte} {task : Task R D}
    (hkind : status.isStopped = true) (hother : tid ≠ u.debugger.selectedTid)
    (hr : (u.consumed arch tid status).debugger.breakpoints.find? address
      = some { r with enabled := false })
    (hdebugger : t.debugger
      = (u.consumed arch tid status).debugger.withRecord address fun r => r.armedWith saved)
    (hu : u.target.tasks.find? tid = some task) (ht : t.target.tasks.find? tid = some task)
    (hflag : task.stopped = true) :
    (t.select tid).Removes arch tid address ↔ RemovedByOther arch u tid status address r := by
  have hfind : (t.select tid).debugger.breakpoints.find? address
      = some (Breakpoint.armedWith { r with enabled := false } saved) := by
    change t.debugger.breakpoints.find? address = _
    rw [hdebugger, Debugger.withRecord, SortedMap.find?_modify_self, hr]
    rfl
  have hsignal : (t.select tid).debugger.stopSignal tid
      = if u.debugger.alive then some status.stopSignal else none := by
    have hthreads : t.debugger.threads
        = u.debugger.threads.insert tid ⟨tid, status.isStopped, status.stopSignal⟩ := by
      rw [hdebugger]
      rfl
    have halive : t.debugger.alive = u.debugger.alive := by
      rw [hdebugger]
      rfl
    simp only [Debugger.stopSignal, State.select, State.withDebugger, hthreads,
      SortedMap.find?_insert_self, halive, hkind, Bool.and_true]
  have hat : (t.select tid).target.stoppedAt arch tid = u.target.stoppedAt arch tid :=
    (stoppedAt_of_find? ht hflag).trans (stoppedAt_of_find? hu hflag).symm
  rw [State.Removes, RemovedByOther, hsignal, hat, hfind]
  constructor
  · rintro ⟨htrap, hcandidate, r', hr', htemporary⟩
    cases halive : u.debugger.alive with
    | false => simp [halive] at htrap
    | true =>
        obtain rfl := Option.some.inj hr'
        exact ⟨hother, rfl, by simpa [halive] using htrap, htemporary, hcandidate⟩
  · rintro ⟨-, halive, htrap, htemporary, hcandidate⟩
    exact ⟨by simp [halive, htrap], hcandidate, _, rfl, htemporary⟩

theorem not_rearmed {t : State R D}
    (hdisabled : ∀ r, t.debugger.breakpoints.find? address = some r → r.enabled = false) :
    ¬ Rearmed arch address t := by
  rintro ⟨⟨r, hr, henabled⟩, -⟩
  rw [hdisabled r hr] at henabled
  cases henabled

/-- What reporting another thread's stop does to the breakpoint that was put back. -/
theorem printStop_rearmed_iff {t : State R D} (hreliable : env.Reliable) {tick : Nat}
    (henv : env.SparesFrom tick (trapBytes arch address)) (hstopped : t.StoppedThread tid)
    (hselected : t.debugger.selectedTid = tid) (hs : Standing arch tick address t) :
    Rearmed arch address (endState (printStop arch env tid) t) ↔ ¬ t.Removes arch tid address := by
  constructor
  · intro hrearmed hremoves
    have hgone := printStop_removes hreliable hstopped hselected hremoves
    exact not_rearmed (fun r hr => by rw [hgone] at hr; cases hr) hrearmed
  · exact fun hkept => (hs.printStop henv hreliable hstopped hkept).rearmed

theorem stepOverBreakpoint_rearmed_iff (hreliable : env.Reliable)
    (hformed : WellFormed arch s'.debugger.breakpoints)
    (haligned : AlignedTable arch s'.debugger.breakpoints)
    (hpc : pc arch env s.debugger.selectedTid s = .ok address s')
    (hr : s'.debugger.breakpoints.find? address = some r) (henabled : r.enabled = true)
    (hwait : stepOffTrap env address s' = .ok (tid, status) u)
    (hstop : status.isStopped = true → u.StoppedThread tid)
    (henv : env.SparesFrom u.tick (trapBytes arch address)) :
    Rearmed arch address (endState (stepOverBreakpoint arch env) s) ↔
      status.isStopped = true ∧ (env.enter u).StoppedThread u.debugger.selectedTid ∧
        ¬ RemovedByOther arch u tid status address r := by
  obtain ⟨hbreakpoints, -, -⟩ := stepOffTrap_ok hformed hr henabled hwait
  rw [endState_stepOverBreakpoint hpc hr henabled hwait]
  obtain ⟨-, hpending, -⟩ := hformed address r hr
  -- The state in which the trap is put back: its record is disabled.
  let v := u.consumed arch tid status
  have hrv : v.debugger.breakpoints.find? address = some { r with enabled := false } := by
    change u.debugger.breakpoints.find? address = _
    rw [hbreakpoints, SortedMap.find?_modify_self, hr]
    rfl
  cases hkind : status.isStopped with
  | false =>
      refine ⟨fun hrearmed => absurd hrearmed (not_rearmed fun r' hr' => ?_), fun h => by simp at h⟩
      obtain rfl := Option.some.inj (hrv.symm.trans hr')
      rfl
  | true =>
      rw [doIf, if_pos rfl]
      by_cases hanswer : (env.enter u).StoppedThread u.debugger.selectedTid
      · have hformedv : WellFormed arch v.debugger.breakpoints :=
          hbreakpoints ▸ hformed.modify fun _ _ => ⟨rfl, rfl, by simp⟩
        have halignedv : AlignedTable arch v.debugger.breakpoints :=
          hbreakpoints ▸ haligned.modify
        obtain ⟨t, saved, hrun, hdebugger, hstanding, hkept⟩ := reinsert_ok tid (v := v)
          hreliable henv hformedv halignedv hrv rfl hanswer
        by_cases hown : tid = u.debugger.selectedTid
        · rw [endState_handleStepStop_own (v := v) hown hrun]
          exact ⟨fun _ => ⟨rfl, hanswer, fun hremoved => hremoved.1 hown⟩,
            fun _ => hstanding.rearmed⟩
        · obtain ⟨task, htask, hflag⟩ := hstop hkind
          have htaskt := hkept tid task htask hflag
          have hstanding' : Standing arch v.tick address (t.select tid) :=
            ⟨hstanding.formed, hstanding.aligned, hstanding.spared, hstanding.enabled⟩
          rw [endState_handleStepStop_other (v := v) hown hrun, printStop_rearmed_iff hreliable henv
            (t := t.select tid) ⟨task, htaskt, hflag⟩ rfl hstanding',
            removes_select_iff hkind hown hrv hdebugger htask htaskt hflag]
          exact ⟨fun h => ⟨rfl, hanswer, h⟩, fun h => h.2.2⟩
      · obtain ⟨halt, t, hrun, hdisabled⟩ := reinsert_error arch tid hrv hpending rfl
          hanswer
        rw [endState_handleStepStop_error (v := v) hrun]
        exact ⟨fun hrearmed => absurd hrearmed (not_rearmed hdisabled),
          fun h => absurd h.2.1 hanswer⟩

end StepOver

/-! ### Step-overs that end well and badly -/

theorem x86_64_alignedTable (breakpoints : SortedMap Address Breakpoint) :
    AlignedTable x86_64 breakpoints := fun key _ _ => Nat.mod_one key.toNat

/-- The only thread steps when the number of the system call comes up. -/
def steppingMachine : Environment UserRegs X86_64.DebugRegisters :=
  nopMachine fun now => if now = 13 then [.run 1] else []

theorem steppingMachine_sparesFrom (tick : Nat) (B : Set Address) :
    steppingMachine.SparesFrom tick B := by
  intro now _ target x _
  refine congrFun (Machine.writesNothing (nops_leavesText _) (fun tick action hmem => ?_) now target) x
  dsimp only at hmem
  split at hmem
  · rw [List.mem_singleton.mp hmem]
    rfl
  · cases hmem

/-- What a step-over that comes to a stop of the stepped thread has to pass. -/
def comesBack (address : Address) (s : State UserRegs X86_64.DebugRegisters) : Bool :=
  match pc x86_64 steppingMachine s.debugger.selectedTid s with
  | .ok found s' =>
      decide (found = address) && (s'.debugger.breakpoints.find? address).any Breakpoint.enabled &&
        match stepOffTrap steppingMachine address s' with
        | .ok (tid, status) u =>
            decide (tid = u.debugger.selectedTid) && status.isStopped && u.isStopped tid
        | .error _ _ => false
  | .error _ _ => false

theorem stepOverBreakpoint_rearmed_nops :
    ∃ s, Prompt x86_64 steppingMachine (State.initial 1 (nopTarget 1)) s ∧
      Rearmed x86_64 0x1000 (endState (stepOverBreakpoint x86_64 steppingMachine) s) := by
  obtain ⟨s, hs, hcheck⟩ := Prompt.exists_of_runBatch x86_64 steppingMachine
    (State.initial 1 (nopTarget 1)) ["b *0x1000".toList]
    (p := comesBack 0x1000) (by decide +kernel)
  refine ⟨s, hs, ?_⟩
  have hformed : WellFormed x86_64 s.debugger.breakpoints :=
    (hs.moves (T := ∅) (Environment.leavesText_empty _)).wellFormed wellFormed_empty
  unfold comesBack at hcheck
  split at hcheck
  · rename_i found s' hpc
    simp only [Bool.and_eq_true, decide_eq_true_eq] at hcheck
    obtain ⟨⟨rfl, hrecord⟩, hcheck⟩ := hcheck
    obtain ⟨r, hr, henabled⟩ := (Option.any_eq_true _ _).mp hrecord
    split at hcheck
    · rename_i tid status u hwait
      simp only [Bool.and_eq_true, decide_eq_true_eq] at hcheck
      obtain ⟨⟨hown, hstatus⟩, hstopped⟩ := hcheck
      have hreliable : steppingMachine.Reliable := Machine.reliable fun _ => rfl
      have hformed' : WellFormed x86_64 s'.debugger.breakpoints :=
        (((sameDebugger steppingMachine).peeks.pc s.debugger.selectedTid).of_ok hpc : s'.debugger = s.debugger) ▸ hformed
      have hstop := State.stoppedThread_of_isStopped hstopped
      refine (stepOverBreakpoint_rearmed_iff hreliable hformed' (x86_64_alignedTable _) hpc hr
        henabled hwait (fun _ => hstop) (steppingMachine_sparesFrom _ _)).mpr
          ⟨hstatus, ?_, fun hremoved => hremoved.1 hown⟩
      exact hown ▸ hreliable.enter hstop
    · cases hcheck
  · cases hcheck

def Entry.isStepStop (tid : Tid) : Entry → Bool
  | .consumed .stepOver stopped status _ => decide (stopped = tid) && status.isStopped
  | _ => false

/-- The stop of another thread arrives while the stepped thread still runs: the trap cannot be put
back, and the breakpoint is lost while the target lives on. -/
theorem trap_lost_by_step_over :
    ∃ s, Prompt x86_64 signalledMachine (State.initial 1 (nopTarget 1)) s ∧
      Rearmed x86_64 0x1000 s ∧
      (let t := endState (stepOverBreakpoint x86_64 signalledMachine) s
       t.debugger.alive = true ∧ t.log.any (Entry.isStepStop 1) = true ∧
         ¬ Rearmed x86_64 0x1000 t) := by
  obtain ⟨s, hs, hcheck⟩ := Prompt.exists_of_runBatch x86_64 signalledMachine
    (State.initial 1 (nopTarget 1))
    ["b *0x1003".toList, "c".toList, "c".toList, "b *0x1000".toList]
    (p := fun s =>
      let t := endState (stepOverBreakpoint x86_64 signalledMachine) s
      (s.debugger.breakpoints.find? 0x1000).any Breakpoint.enabled &&
        decide (bytesAt s.target.memory 0x1000 1 = [0xcc#8]) && t.debugger.alive &&
        t.log.any (Entry.isStepStop 1) &&
        (t.debugger.breakpoints.find? 0x1000).all fun r => !r.enabled) (by decide +kernel)
  simp only [Bool.and_eq_true, decide_eq_true_eq] at hcheck
  obtain ⟨⟨⟨⟨hrecord, hbytes⟩, halive⟩, hlog⟩, hgone⟩ := hcheck
  obtain ⟨r, hr, henabled⟩ := (Option.any_eq_true _ _).mp hrecord
  refine ⟨s, hs, ⟨⟨r, hr, henabled⟩, hbytes⟩, halive, hlog, not_rearmed fun r' hr' => ?_⟩
  rw [hr'] at hgone
  simpa using hgone

end Cosy
