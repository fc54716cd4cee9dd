import Cosy.Attending
import Cosy.Coverage
import Cosy.Disarming
import Cosy.Programming
import Cosy.Recording

/-!
# No watchpoint that nobody asked for

A slot of the debug registers that is enabled stops its thread, whether or not the debugger has a
record of it. Unless a `watch` was given up in the middle of its requests, there is a record for
every slot that is enabled in any thread: one thread after another is programmed in several requests,
each of which may fail, and threads are created and prepared in between; but what they leave behind
is the slot of a record or one that does not watch.
-/

namespace Cosy

open Effect

variable {R D α : Type} {arch : Architecture R D} {env : Environment R D} {s t : State R D}
  {tid child : Tid}

/-! ### Slots that are written by and by -/

/-- While a slot is programmed the others stay as they are, and it has its old content, its new one, or
its old one at the new address. -/
def DebugView.Between (view : DebugView arch) (slot : Nat) (address : Address)
    (watchAccess : WatchAccess) (bytes : Nat) (debug debug' : D) : Prop :=
  ∀ other, view.content debug' other = view.content debug other ∨
    other = slot ∧ (view.content debug' other = view.requested address watchAccess bytes ∨
      view.content debug' other = { view.content debug other with address := address })

/-- Whichever request is the last one that succeeds. -/
structure GradualView (arch : Architecture R D) extends DebugView arch where
  requested_address : ∀ address watchAccess bytes,
    (requested address watchAccess bytes).address = address
  gradual : ∀ {slot address watchAccess bytes plan},
    arch.configureWatchpoint slot address watchAccess bytes = .ok plan → ∀ debug writes,
      writes <+: plan.writes debug →
        toDebugView.Between slot address watchAccess bytes debug (applyWrites writes debug)

section Between

variable {view : DebugView arch} {slot bytes : Nat} {address : Address} {watchAccess : WatchAccess}
  {plan : WatchPlan D}

theorem DebugView.Between.refl (debug : D) :
    view.Between slot address watchAccess bytes debug debug := fun _ => Or.inl rfl

theorem DebugView.between_of_all
    (hplan : arch.configureWatchpoint slot address watchAccess bytes = .ok plan) (debug : D) :
    view.Between slot address watchAccess bytes debug
      (applyWrites (plan.writes debug) debug) := by
  intro other
  have hall := view.configured hplan debug other
  by_cases heq : other = slot
  · rw [if_pos heq] at hall
    exact Or.inr ⟨heq, Or.inl hall⟩
  · rw [if_neg heq] at hall
    exact Or.inl hall

end Between

/-- The address register is written first. -/
theorem X86_64.slotContent_update_address (debug : DebugRegisters) {slot : Nat} (hslot : slot < 4)
    (address : Address) (other : Nat) :
    slotContent (Function.update debug slot address) other = slotContent debug other ∨
      other = slot ∧ slotContent (Function.update debug slot address) other
        = { slotContent debug other with address := address } := by
  have hcontrol : Function.update debug slot address 7 = debug 7 := Function.update_of_ne (by omega) _ _
  unfold slotContent
  rw [hcontrol]
  by_cases heq : other = slot
  · rw [heq, if_pos hslot, if_pos hslot, Function.update_self]
    exact Or.inr ⟨rfl, rfl⟩
  · rw [Function.update_of_ne heq]
    exact Or.inl rfl

theorem X86_64.writes_of_plan {slot bytes : Nat} {address : Address} {watchAccess : WatchAccess}
    {plan : WatchPlan DebugRegisters}
    (hplan : configureWatchpoint slot address watchAccess bytes = .ok plan) (debug : DebugRegisters) :
    slot < 4 ∧ ∃ control,
      plan.writes debug = [setDebugRegister slot address, setDebugRegister 7 control] := by
  unfold configureWatchpoint at hplan
  split at hplan
  · cases hplan
  · rename_i hslot
    split at hplan
    · cases hplan
    · split at hplan
      · cases hplan
      · obtain rfl := Except.ok.inj hplan
        exact ⟨by omega, _, rfl⟩

def x86_64Gradual : GradualView x86_64 where
  toDebugView := x86_64View
  requested_address _ _ _ := rfl
  gradual {slot address watchAccess bytes plan} hplan debug writes hwrites := by
    have hall : x86_64View.Between slot address watchAccess bytes debug
        (applyWrites (plan.writes debug) debug) := DebugView.between_of_all hplan debug
    obtain ⟨hslot, control, hplanned⟩ := X86_64.writes_of_plan hplan debug
    rw [hplanned] at hwrites hall
    obtain rfl | ⟨rest, rfl, hrest⟩ := List.prefix_cons_iff.mp hwrites
    · exact .refl debug
    obtain rfl | ⟨last, rfl, hlast⟩ := List.prefix_cons_iff.mp hrest
    · exact fun other => (X86_64.slotContent_update_address debug hslot address other).imp_right
        (And.imp_right Or.inr)
    · obtain rfl := List.prefix_nil.mp hlast
      exact hall

theorem AArch64.writes_of_plan {slot bytes : Nat} {address : Address} {watchAccess : WatchAccess}
    {plan : WatchPlan HardwareDebugState}
    (hplan : configureWatchpoint slot address watchAccess bytes = .ok plan)
    (state : HardwareDebugState) : ∃ write, plan.writes state = [write] := by
  unfold configureWatchpoint at hplan
  split at hplan
  · cases hplan
  · split at hplan
    · cases hplan
    · obtain rfl := Except.ok.inj hplan
      exact ⟨_, rfl⟩

/-- Here there is only one request. -/
def aarch64Gradual : GradualView aarch64 where
  toDebugView := aarch64View
  requested_address _ _ _ := rfl
  gradual {slot address watchAccess bytes plan} hplan debug writes hwrites := by
    have hall : aarch64View.Between slot address watchAccess bytes debug
        (applyWrites (plan.writes debug) debug) := DebugView.between_of_all hplan debug
    obtain ⟨write, hplanned⟩ := AArch64.writes_of_plan hplan debug
    rw [hplanned] at hwrites hall
    obtain rfl | ⟨rest, rfl, hrest⟩ := List.prefix_cons_iff.mp hwrites
    · exact .refl debug
    · obtain rfl := List.prefix_nil.mp hrest
      exact hall

/-- The slots that are enabled in some thread. -/
def DebugView.enabledSlots (view : DebugView arch) (target : Target R D) : Set (Nat × SlotContent) :=
  {p | p.2.enabled = true ∧
    ∃ tid task, target.tasks.find? tid = some task ∧ view.content task.debug p.1 = p.2}

/-- The slots that the records ask for. -/
def DebugView.asked (view : DebugView arch) (records : List Watchpoint) : Set (Nat × SlotContent) :=
  {p | ∃ watchpoint ∈ records, p = (watchpoint.slot,
    view.requested watchpoint.address watchpoint.access watchpoint.bytes)}

/-- A new thread may have the debug registers of another one, and a thread may lose its own; but
only the debugger asks for anything new. -/
def DebugView.Inherits (view : DebugView arch) (env : Environment R D) : Prop :=
  ∀ tick target, view.enabledSlots (env.interfere tick target).2 ⊆ view.enabledSlots target

/-- A `watch` is given up because a request fails. -/
def Entry.isBotch : Entry → Bool
  | .out (.watchpointFailed (.system _)) => true
  | _ => false

def State.Botched (s : State R D) : Prop := s.log.any Entry.isBotch = true

/-! ### What the threads have -/

section Slots

variable {view : DebugView arch} {target target' : Target R D} {task : Task R D}

theorem enabledSlots_mono (htasks : ∀ tid task', target'.tasks.find? tid = some task' →
      ∃ task, target.tasks.find? tid = some task ∧ task'.debug = task.debug) :
    view.enabledSlots target' ⊆ view.enabledSlots target := by
  rintro p ⟨henabled, tid, task', htask', hcontent⟩
  obtain ⟨task, htask, hdebug⟩ := htasks tid task' htask'
  exact ⟨henabled, tid, task, htask, hdebug ▸ hcontent⟩

theorem enabledSlots_of_tasks (htasks : target'.tasks = target.tasks) :
    view.enabledSlots target' ⊆ view.enabledSlots target :=
  enabledSlots_mono fun _ task' htask' => ⟨task', htasks ▸ htask', rfl⟩

theorem enabledSlots_setTask {task' : Task R D} (htask : target.tasks.find? tid = some task)
    (hdebug : task'.debug = task.debug) :
    view.enabledSlots (target.setTask tid task') ⊆ view.enabledSlots target := by
  apply enabledSlots_mono
  intro other found hfound
  rw [Target.setTask, SortedMap.find?_insert] at hfound
  split at hfound
  · rename_i heq
    obtain rfl := Option.some.inj hfound
    exact ⟨task, heq ▸ htask, hdebug⟩
  · exact ⟨found, hfound, rfl⟩

theorem enabledSlots_erase :
    view.enabledSlots { target with tasks := target.tasks.erase tid } ⊆ view.enabledSlots target := by
  apply enabledSlots_mono
  intro other found hfound
  change (target.tasks.erase tid).find? other = some found at hfound
  rw [SortedMap.find?_erase] at hfound
  split at hfound
  · cases hfound
  · exact ⟨found, hfound, rfl⟩

end Slots

/-! ### Programming a thread -/

/-- The records have different slots, and ask for every slot that is enabled. -/
structure ConfinedTo (view : DebugView arch) (records : List Watchpoint) (target : Target R D) :
    Prop where
  slots : (records.map Watchpoint.slot).Nodup
  enabled : view.enabledSlots target ⊆ view.asked records

section Programming

variable {view : DebugView arch} {records : List Watchpoint} {watchpoint : Watchpoint}
  {target target' : Target R D}

theorem ConfinedTo.mono (htarget : ConfinedTo view records target)
    (hslots : view.enabledSlots target' ⊆ view.enabledSlots target) :
    ConfinedTo view records target' := ⟨htarget.slots, hslots.trans htarget.enabled⟩

/-- One slot is asked for by one record. -/
theorem ConfinedTo.eq_requested (htarget : ConfinedTo view records target)
    (hmem : watchpoint ∈ records) {content : SlotContent}
    (hasked : (watchpoint.slot, content) ∈ view.asked records) :
    content = view.requested watchpoint.address watchpoint.access watchpoint.bytes := by
  obtain ⟨other, hother, heq⟩ := hasked
  obtain ⟨hslot, hcontent⟩ := Prod.mk.inj heq
  rw [hcontent, List.inj_on_of_nodup_map htarget.slots hmem hother hslot]

/-- All that is enabled in the debug registers is asked for. -/
def DebugView.Asks (view : DebugView arch) (records : List Watchpoint) (debug : D) : Prop :=
  ∀ slot, (view.content debug slot).enabled = true → (slot, view.content debug slot) ∈ view.asked records

theorem ConfinedTo.asks (htarget : ConfinedTo view records target) {task : Task R D}
    (htask : target.tasks.find? tid = some task) : view.Asks records task.debug :=
  fun _ henabled => htarget.enabled ⟨henabled, tid, task, htask, rfl⟩

theorem ConfinedTo.setTask (htarget : ConfinedTo view records target) {task : Task R D}
    (hasks : view.Asks records task.debug) : ConfinedTo view records (target.setTask tid task) := by
  refine ⟨htarget.slots, ?_⟩
  rintro ⟨slot, content⟩ ⟨henabled, other, found, hfound, hcontent⟩
  rw [Target.setTask, SortedMap.find?_insert] at hfound
  split at hfound
  · obtain rfl := Option.some.inj hfound
    dsimp only at hcontent henabled
    rw [← hcontent] at henabled ⊢
    exact hasks slot henabled
  · exact htarget.enabled ⟨henabled, other, found, hfound, hcontent⟩

theorem SlotContent.withAddress_eq {content : SlotContent} {address : Address}
    (haddress : content.address = address) : { content with address := address } = content := by
  subst haddress
  rfl

/-- However far the programming of a slot for a record has come. -/
theorem GradualView.asks_between (view : GradualView arch)
    (htarget : ConfinedTo view.toDebugView records target) (hmem : watchpoint ∈ records)
    {debug debug' : D} (hasks : view.Asks records debug)
    (hbetween : view.Between watchpoint.slot watchpoint.address watchpoint.access watchpoint.bytes
      debug debug') : view.Asks records debug' := by
  intro slot henabled
  rcases hbetween slot with hsame | ⟨rfl, hrequested | hmoved⟩
  · rw [hsame] at henabled ⊢
    exact hasks slot henabled
  · rw [hrequested]
    exact ⟨watchpoint, hmem, rfl⟩
  · -- The slot was enabled before, so the record has asked for it already.
    have hbefore : (view.content debug watchpoint.slot).enabled = true := by
      rw [hmoved] at henabled
      exact henabled
    have hrequested := htarget.eq_requested hmem (hasks watchpoint.slot hbefore)
    have haddress := view.requested_address watchpoint.address watchpoint.access watchpoint.bytes
    refine ⟨watchpoint, hmem, Prod.ext rfl ?_⟩
    calc view.content debug' watchpoint.slot
        = { view.content debug watchpoint.slot with address := watchpoint.address } := hmoved
      _ = view.requested watchpoint.address watchpoint.access watchpoint.bytes := by
          rw [hrequested]
          exact SlotContent.withAddress_eq haddress

end Programming

/-- One write to the debug registers of a thread. -/
def pokeDebug (env : Environment R D) (tid : Tid) (write : String × (D → D)) : Dbg R D PUnit :=
  ptrace env write.1 tid fun task target =>
    (⟨⟩, target.setTask tid { task with debug := write.2 task.debug })

/-- It is refused, or finds the thread as it was. -/
theorem pokeDebug_cases (hsteady : env.Steady) {task : Task R D}
    (htask : s.target.tasks.find? tid = some task) (hstopped : task.stopped = true)
    (write : String × (D → D)) :
    pokeDebug env tid write s = .ok ⟨⟩ ((env.enter s).withTarget
        ((env.enter s).target.setTask tid { task with debug := write.2 task.debug })) ∨
      ∃ halt, pokeDebug env tid write s = .error halt (env.enter s) := by
  have hfound : (env.enter s).target.tasks.find? tid = some task :=
    hsteady s.tick s.target tid task htask hstopped
  rcases ptrace_cases env write.1 tid (fun task target =>
      (PUnit.unit, target.setTask tid { task with debug := write.2 task.debug })) s with
    ⟨found, hfind, -, -, hrun⟩ | ⟨-, hrun⟩
  · obtain rfl := Option.some.inj (hfound.symm.trans hfind)
    exact Or.inl hrun
  · exact Or.inr ⟨_, hrun⟩

section Requests

variable {view : GradualView arch} {records : List Watchpoint} {watchpoint : Watchpoint}
  (hsteady : env.Steady) (hinherits : view.Inherits env)

include hinherits

theorem ConfinedTo.enter (hs : ConfinedTo view.toDebugView records s.target) :
    ConfinedTo view.toDebugView records (env.enter s).target := hs.mono (hinherits s.tick s.target)

include hsteady

/-- The writes of a plan, of which some have been carried out. -/
theorem confined_writes (hmem : watchpoint ∈ records) {plan : WatchPlan D}
    (hplan : arch.configureWatchpoint watchpoint.slot watchpoint.address watchpoint.access
      watchpoint.bytes = .ok plan) {task : Task R D} (hstopped : task.stopped = true)
    (hasks : view.Asks records task.debug) (rest : List (String × (D → D))) :
    ∀ done, plan.writes task.debug = done ++ rest →
      s.target.tasks.find? tid = some { task with debug := applyWrites done task.debug } →
      ConfinedTo view.toDebugView records s.target →
        ConfinedTo view.toDebugView records (endState (rest.forM (pokeDebug env tid)) s).target := by
  induction rest generalizing s with
  | nil => exact fun _ _ _ hs => hs
  | cons write rest ih =>
      intro done hwrites htask hs
      have henter := hs.enter hinherits
      have hloop : (write :: rest).forM (pokeDebug env tid)
          = (pokeDebug env tid write >>= fun _ => rest.forM (pokeDebug env tid)) := rfl
      rcases pokeDebug_cases hsteady htask hstopped write with hrun | ⟨halt, hrun⟩
      · have hdone : plan.writes task.debug = (done ++ [write]) ++ rest := by
          rw [hwrites, List.append_assoc]
          rfl
        have happlied : write.2 (applyWrites done task.debug)
            = applyWrites (done ++ [write]) task.debug := by
          rw [applyWrites, applyWrites, List.foldl_append]
          rfl
        have hbetween := view.gradual hplan task.debug (done ++ [write]) ⟨rest, hdone.symm⟩
        rw [hloop, endState_bind_ok hrun]
        refine ih (done ++ [write]) hdone ?_ (henter.setTask ?_)
        · rw [← happlied]
          exact SortedMap.find?_insert_self _ _ _
        · change view.Asks records (write.2 (applyWrites done task.debug))
          rw [happlied]
          exact view.asks_between hs hmem hasks hbetween
      · rw [hloop, endState_bind_error hrun]
        exact henter

/-- Whichever request fails, no slot is enabled that no record asks for. -/
theorem confined_configureWatchpoint (hmem : watchpoint ∈ records) (tid : Tid) :
    Within (Keeps fun s => ConfinedTo view.toDebugView records s.target)
      (configureWatchpoint arch env tid watchpoint.slot watchpoint.address watchpoint.access
        watchpoint.bytes) := by
  intro s hs
  have henter := hs.enter hinherits
  cases hplan : arch.configureWatchpoint watchpoint.slot watchpoint.address watchpoint.access
      watchpoint.bytes with
  | error text =>
      rw [configureWatchpoint, hplan]
      exact hs
  | ok plan =>
      rw [configureWatchpoint, hplan]
      dsimp only
      rcases ptrace_cases env plan.readOperation tid (fun task target => (task.debug, target)) s with
        ⟨task, htask, hstopped, -, hread⟩ | ⟨-, hread⟩
      · rw [endState_bind_ok hread]
        exact confined_writes hsteady hinherits hmem hplan hstopped (henter.asks htask) _ [] rfl htask
          henter
      · rw [endState_bind_error hread]
        exact henter

end Requests

/-! ### The invariant -/

/-- Unless a `watch` was botched, the records ask for every slot that is enabled. -/
structure Confined (view : DebugView arch) (s : State R D) : Prop where
  formed : WellFormed arch s.debugger.breakpoints
  confined : s.Botched ∨ ConfinedTo view s.debugger.watchpoints s.target

/-- The kinds of moves that enable no slot and leave the records alone. -/
def unarming : List Kind :=
  [.enter, .say, .report, .stepping, .regs, .resume, .take, .release, .close, .table, .arm, .lift,
    .force, .user, .write]

theorem State.Botched.mono (hs : s.Botched) (hlog : s.log <:+ t.log) : t.Botched := by
  obtain ⟨newer, hnewer⟩ := hlog
  rw [State.Botched, ← hnewer, List.any_append, show s.log.any Entry.isBotch = true from hs, Bool.or_true]

section Confined

variable {view : DebugView arch}

theorem Confined.of_same (hs : Confined view s) (hformed : WellFormed arch t.debugger.breakpoints)
    (hlog : s.log <:+ t.log) (hwatchpoints : t.debugger.watchpoints = s.debugger.watchpoints)
    (hslots : view.enabledSlots t.target ⊆ view.enabledSlots s.target) : Confined view t := by
  refine ⟨hformed, hs.confined.imp (fun hbotched => hbotched.mono hlog) fun hconfined => ?_⟩
  rw [hwatchpoints]
  exact hconfined.mono hslots

theorem Confined.logged (hs : Confined view s) (entry : Entry) : Confined view (s.logged entry) :=
  hs.of_same hs.formed (List.suffix_cons _ _) rfl (enabledSlots_of_tasks rfl)

variable (hinherits : view.Inherits env)

include hinherits

theorem Move.enabledSlots {T : Set Address} {kind : Kind} (hkind : kind ∈ unarming)
    (hmove : Move arch env T kind s t) :
    view.enabledSlots t.target ⊆ view.enabledSlots s.target ∧
      t.debugger.watchpoints = s.debugger.watchpoints := by
  cases hmove with
  | enter => exact ⟨hinherits s.tick s.target, rfl⟩
  | regs _ regs htask => exact ⟨enabledSlots_setTask htask rfl, rfl⟩
  | resume _ request htask => exact ⟨enabledSlots_setTask htask rfl, rfl⟩
  | release => exact ⟨enabledSlots_erase, rfl⟩
  | book | threads | task => exact absurd hkind (by decide)
  | _ => exact ⟨enabledSlots_of_tasks rfl, rfl⟩

theorem confined_of_does (kinds : List Kind) {m : Dbg R D α} (hm : Does arch env ∅ kinds m)
    (hkinds : kinds ⊆ unarming) : Within (Keeps (Confined view)) m := by
  intro s hs
  obtain ⟨hmoves, -⟩ := hm s hs.formed
  refine hmoves.preserve (fun kind hkind u v hmove hu => ?_) hs
  obtain ⟨hslots, hwatchpoints⟩ := hmove.enabledSlots hinherits (hkinds hkind)
  exact hu.of_same (hmove.wellFormed hu.formed) hmove.log_suffix hwatchpoints hslots

omit hinherits

theorem confined_modify {change : Debugger → Debugger}
    (hbreakpoints : ∀ d, (change d).breakpoints = d.breakpoints)
    (hwatchpoints : ∀ d, (change d).watchpoints = d.watchpoints) :
    Within (Keeps (Confined view)) (modifyDebugger (R := R) (D := D) change) :=
  Within.modify fun s hs => hs.of_same (show WellFormed arch (change s.debugger).breakpoints from
    hbreakpoints s.debugger ▸ hs.formed) List.suffix_rfl (hwatchpoints _) (enabledSlots_of_tasks rfl)

include hinherits

theorem confined_manages : ManagesWithin arch env (Keeps (Confined view)) where
  peek := confined_of_does hinherits [.enter] (does_peek (by decide)) (by decide)
  note _ := Within.modify fun _ hs => hs.logged _
  setRegs tid regs := confined_of_does hinherits [.enter, .regs]
    (does_ptrace (by decide) fun s _ hfind hstopped =>
      .single (.regs s regs hfind hstopped) (by decide)) (by decide)
  enter := confined_of_does hinherits [.enter] (Within.modify fun s => runs_enter (by decide) s)
    (by decide)
  mark _ := Within.modify fun _ hs => hs.logged _
  aside hchange := confined_modify (fun d => (hchange d).breakpoints) fun d => (hchange d).watchpoints
  enable key := confined_of_does hinherits _ (does_enable (Environment.leavesText_empty env) key)
    (by decide)
  disable key := confined_of_does hinherits _ (does_disable (Environment.leavesText_empty env) key)
    (by decide)
  insert r s hfresh henabled hpending hs := by
    have hmove : Move arch env ∅ .table s (endState (insertBreakpoint r) s) :=
      .insert s hfresh henabled hpending
    exact hs.of_same (hmove.wellFormed hs.formed) hmove.log_suffix rfl (enabledSlots_of_tasks rfl)
  drop key s hs := by
    have hdrop : WithinAt (Keeps (Confined view)) (dropBreakpoint env key) s := by
      refine withinAt_dropBreakpoint hs.formed ?_ fun t hdisabled ht => ?_
      · exact confined_of_does hinherits _ (does_disable (Environment.leavesText_empty env) key)
          (by decide) s
      · have hmove : Move arch env ∅ .table t (endState (eraseBreakpoint key) t) :=
          .erase t hdisabled
        exact ht.of_same (hmove.wellFormed ht.formed) hmove.log_suffix rfl (enabledSlots_of_tasks rfl)
    exact hdrop hs
  noteUserEnabled key := confined_of_does hinherits [.user] (does_noteUserEnabled (by decide) key)
    (by decide)

end Confined

/-! ### Threads are prepared, watchpoints are added -/

section Watch

variable {view : GradualView arch} (hsteady : env.Steady) (hinherits : view.Inherits env)

include hinherits

theorem setOptions_slots (tid : Tid) (s : State R D) :
    (endState (setOptions env tid) s).debugger = s.debugger ∧
      s.log <:+ (endState (setOptions env tid) s).log ∧
      view.enabledSlots (endState (setOptions env tid) s).target ⊆ view.enabledSlots s.target := by
  have henter : view.enabledSlots (env.enter s).target ⊆ view.enabledSlots s.target :=
    hinherits s.tick s.target
  have hlog : s.log <:+ (env.enter s).log := List.suffix_append _ _
  rcases ptrace_cases env "PTRACE_SETOPTIONS" tid (fun task target =>
      (PUnit.unit, target.setTask tid { task with options := true })) s with
    ⟨task, htask, -, -, hrun⟩ | ⟨-, hrun⟩
  · have hslots : view.enabledSlots ((env.enter s).target.setTask tid { task with options := true })
        ⊆ view.enabledSlots (env.enter s).target := enabledSlots_setTask htask rfl
    rw [setOptions, endState_of_ok hrun]
    exact ⟨rfl, hlog, hslots.trans henter⟩
  · rw [setOptions, endState_of_error hrun]
    exact ⟨rfl, hlog, henter⟩

include hsteady

theorem confined_configureAll (tid : Tid) (records : List Watchpoint)
    (hrecords : ∀ watchpoint ∈ records, watchpoint ∈ s.debugger.watchpoints) :
    WithinAt (Keeps fun s => ConfinedTo view.toDebugView s.debugger.watchpoints s.target)
      (records.forM fun watchpoint => configureWatchpoint arch env tid watchpoint.slot
        watchpoint.address watchpoint.access watchpoint.bytes) s := by
  induction records generalizing s with
  | nil => exact id
  | cons first rest ih =>
      have hsame : Within SameDebugger (configureWatchpoint arch env tid first.slot first.address
          first.access first.bytes) := configureWatchpoint_sameDebugger tid _ _ _ _
      refine WithinAt.bind (fun hs => ?_) fun _ t hrun => ih fun watchpoint hmem => ?_
      · change ConfinedTo _ (endState (configureWatchpoint arch env tid _ _ _ _) s).debugger.watchpoints _
        rw [hsame s]
        exact confined_configureWatchpoint hsteady hinherits (hrecords first List.mem_cons_self) tid s hs
      · rw [hsame.of_ok hrun]
        exact hrecords watchpoint (List.mem_cons_of_mem _ hmem)

theorem confined_prepareThread (tid : Tid) :
    Within (Keeps (Confined view.toDebugView)) (prepareThread arch env tid) := by
  have hkeeps : Within (Keeps fun s => ConfinedTo view.toDebugView s.debugger.watchpoints s.target)
      (prepareThread arch env tid) := by
    refine Within.rescue (Within.bind (fun s hs => ?_) fun _ => .get_bind fun s => ?_) fun _ => .pure _
    · obtain ⟨hdebugger, -, hslots⟩ := setOptions_slots hinherits tid s
      rw [hdebugger]
      exact hs.mono hslots
    · exact confined_configureAll hsteady hinherits tid _ fun _ => id
  intro s hs
  obtain ⟨hmoves, hformed⟩ := does_prepareThread (T := ∅) tid s hs.formed
  exact ⟨hformed, hs.confined.imp (fun hbotched => hbotched.mono hmoves.log_suffix) (hkeeps s)⟩

omit hsteady hinherits

/-- A plan is given up only where the kernel refuses a request. -/
theorem configureWatchpoint_system {slot : Nat} {address : Address} {watchAccess : WatchAccess}
    {bytes : Nat} {plan : WatchPlan D}
    (hplan : arch.configureWatchpoint slot address watchAccess bytes = .ok plan) (tid : Tid) :
    Triple (fun _ => True) (configureWatchpoint arch env tid slot address watchAccess bytes)
      (fun _ _ => True) (fun halt _ => ∃ operation, halt = .thrown (.system operation)) := by
  have hrequest : ∀ {α : Type} (operation : String)
      (request : Task R D → Target R D → α × Target R D),
      Triple (fun _ => True) (ptrace env operation tid request) (fun _ _ => True)
        (fun halt _ => ∃ operation, halt = .thrown (.system operation)) := by
    intro α operation request s _
    rcases ptrace_cases env operation tid request s with ⟨task, -, -, -, hrun⟩ | ⟨-, hrun⟩
    · rw [hrun]
      trivial
    · rw [hrun]
      exact ⟨operation, rfl⟩
  rw [configureWatchpoint, hplan]
  exact Triple.bind (hrequest _ _) fun debug => Triple.forM _ fun write _ => hrequest _ _

/-- With a new record its slot may be enabled, too. -/
theorem ConfinedTo.add {view : DebugView arch} {target : Target R D} {records : List Watchpoint}
    {watchpoint : Watchpoint} (htarget : ConfinedTo view records target)
    (hfree : watchpoint.slot ∉ records.map Watchpoint.slot) :
    ConfinedTo view (records ++ [watchpoint]) target := by
  refine ⟨?_, htarget.enabled.trans ?_⟩
  · rw [List.map_append, List.nodup_append]
    refine ⟨htarget.slots, List.nodup_singleton _, ?_⟩
    rintro slot hslot _ hnew rfl
    rw [List.map_singleton, List.mem_singleton] at hnew
    exact hfree (hnew ▸ hslot)
  · rintro p ⟨other, hmem, hp⟩
    exact ⟨other, List.mem_append_left _ hmem, hp⟩

include hsteady hinherits

/-- A `watch` that succeeds leaves a record for what it has programmed, and one that the architecture
refuses has programmed nothing. -/
theorem confined_addWatchpoint (address : Address) (watchAccess : WatchAccess) (bytes : Nat) :
    Within (Keeps (Confined view.toDebugView)) (addWatchpoint arch env address watchAccess bytes) := by
  intro s hs
  by_cases hfull : 4 ≤ s.debugger.nextSlot
  · rw [endState_of_ok (addWatchpoint_of_full hfull)]
    exact hs.logged _
  have hdoes : Does arch env ∅ session (addWatchpoint arch env address watchAccess bytes) :=
    does_addWatchpoint address watchAccess bytes
  obtain ⟨hmoves, hformed⟩ := hdoes s hs.formed
  refine ⟨hformed, ?_⟩
  rcases hs.confined with hbotched | hconfined
  · exact Or.inl (hbotched.mono hmoves.log_suffix)
  let watchpoint := s.debugger.newWatchpoint address watchAccess bytes
  let configure : Tid → Dbg R D Unit := fun tid =>
    configureWatchpoint arch env tid s.debugger.nextSlot address watchAccess bytes
  have hfree : watchpoint.slot ∉ s.debugger.watchpoints.map Watchpoint.slot := freeSlot_notMem _
  have hsame : Within SameDebugger (s.debugger.threads.entries.forM (onStopped configure)) :=
    Within.forM _ fun entry _ => Within.ite
      (fun _ => configureWatchpoint_sameDebugger entry.1 _ _ _ _) fun _ => .pure _
  have hloop : Within (Keeps fun s' => ConfinedTo view.toDebugView
        (s.debugger.watchpoints ++ [watchpoint]) s'.target)
      (s.debugger.threads.entries.forM (onStopped configure)) := by
    refine Within.forM _ fun entry _ => Within.ite (fun _ => ?_) fun _ => .pure _
    exact confined_configureWatchpoint hsteady hinherits
      (List.mem_append_right _ (List.mem_singleton_self watchpoint)) entry.1
  rw [endState, addWatchpoint_of_free hfull, attempt, rescue, bind_apply]
  cases hrun : s.debugger.threads.entries.forM (onStopped configure) s with
  | ok _ t =>
      have hrecorded : t.debugger.watchpoints = s.debugger.watchpoints :=
        congrArg Debugger.watchpoints (hsame.of_ok hrun)
      refine Or.inr ?_
      change ConfinedTo _ (t.debugger.watchpoints ++ [watchpoint]) t.target
      rw [hrecorded]
      exact hloop.of_ok hrun (hconfined.add hfree)
  | error halt t =>
      cases hplan : arch.configureWatchpoint s.debugger.nextSlot address watchAccess bytes with
      | error text =>
          have hthrows : ∀ tid, configure tid = throw (.thrown (.runtime text)) := fun tid =>
            configureWatchpoint_of_rejects env tid hplan
          by_cases hsome : ∃ entry ∈ s.debugger.threads.entries, entry.2.stopped = true
          · obtain ⟨tid, rest, hfirst⟩ := forM_onStopped_some (s := s) configure hsome
            rw [hfirst, hthrows tid] at hrun
            obtain ⟨rfl, rfl⟩ := EStateM.Result.error.inj hrun
            exact Or.inr hconfined
          · rw [forM_onStopped_none configure hsome] at hrun
            cases hrun
      | ok plan =>
          have hsystem : Triple (fun _ => True) (s.debugger.threads.entries.forM (onStopped configure))
              (fun _ _ => True) (fun halt _ => ∃ operation, halt = .thrown (.system operation)) := by
            refine Triple.forM _ fun entry _ => ?_
            unfold onStopped
            split
            · exact configureWatchpoint_system hplan entry.1
            · exact Triple.pure fun _ _ => trivial
          obtain ⟨operation, rfl⟩ := hsystem.of_error trivial hrun
          exact Or.inl (Bool.true_or _)

/-! ### Sessions -/

theorem confined_attends : AttendsWithin arch env (Keeps (Confined view.toDebugView)) :=
  have hmanages : ManagesWithin arch env (Keeps (Confined view.toDebugView)) :=
    confined_manages hinherits
  { peek := hmanages.peek
    note := fun _ _ => Within.modify fun _ hs => hs.logged _
    await := fun _ => Within.modify fun _ hs => hs.logged _
    handleEnd := fun _ => confined_modify (fun _ => rfl) fun _ => rfl
    resume := fun tid request => confined_of_does hinherits [.enter, .resume]
      (does_resume (by decide) (by decide) tid request) (by decide)
    wait := confined_of_does hinherits [.enter, .take] (does_waitForEvent (by decide) (by decide))
      (by decide)
    threads := fun hchange => confined_modify (fun d => (hchange d).breakpoints)
      fun d => (hchange d).watchpoints
    enable := hmanages.enable
    disable := hmanages.disable
    printStop := hmanages.tends.printStop
    prepareThread := confined_prepareThread hsteady hinherits
    refreshTarget := hmanages.tends.refreshTarget }

theorem confined_serves : ServesWithin arch env Set.univ (Keeps (Confined view.toDebugView)) :=
  have hmanages : ManagesWithin arch env (Keeps (Confined view.toDebugView)) :=
    confined_manages hinherits
  have hexecutes : ExecutesWithin arch env (Keeps (Confined view.toDebugView)) :=
    (confined_attends hsteady hinherits).executes
  { hmanages with
    chooseFrame := fun _ => hmanages.aside fun _ => by constructor <;> rfl
    setBreakpoint := hmanages.tends.setBreakpoint
    removeBreakpoint := fun id _ => hmanages.tends.removeBreakpoint id
    enableById := hmanages.tends.enableById
    disableById := hmanages.tends.disableById
    setWatchpoint := hmanages.setWatchpoint (confined_addWatchpoint hsteady hinherits)
    createTemporary := fun address => hmanages.tends.createBreakpoint address _ true
    continueExecution := hexecutes.continueExecution
    instructionStep := hexecutes.instructionStep
    reportStop := hmanages.tends.reportStop
    selectThread := hmanages.selectThread
    writeUserWord := fun address value => confined_of_does hinherits [.enter, .write]
      (does_writeUserWord address value) (by decide) }

omit hsteady in
theorem confined_opened {target : Target R D} (hnone : view.enabledSlots target = ∅)
    (hrun : openSession arch env (State.initial child target) = .ok ⟨⟩ s) :
    Confined view.toDebugView s := by
  have hmanages : ManagesWithin arch env (Keeps (Confined view.toDebugView)) :=
    confined_manages hinherits
  have hoptions : Within (Keeps (Confined view.toDebugView)) (setOptions env child) := by
    intro u hu
    obtain ⟨hdebugger, hlog, hslots⟩ := setOptions_slots hinherits child u
    exact hu.of_same (hdebugger ▸ hu.formed) hlog (congrArg _ hdebugger) hslots
  obtain ⟨status, t, hwait, hrelated⟩ := openSession_related hoptions hmanages.tends.refreshModules
    hmanages.tends.resolvePendingBreakpoints hmanages.print hmanages.tends.printStop hrun
  obtain ⟨hdebugger, -, htasks, -⟩ := waitFor_ready hwait
  refine hrelated ⟨?_, Or.inr ⟨?_, ?_⟩⟩
  · rw [State.launched, hdebugger]
    exact wellFormed_empty
  · rw [State.launched, hdebugger]
    exact List.nodup_nil
  · have hslots : view.enabledSlots t.target ⊆ view.enabledSlots target :=
      (enabledSlots_of_tasks htasks).trans (hinherits 0 target)
    rw [hnone] at hslots
    exact hslots.trans (Set.empty_subset _)

omit hsteady

/-- What a thread that is let go has enabled, it had before the traps were lifted. -/
theorem LetGo.enabledSlots {task : Task R D} {entries : List (Tid × ThreadState)}
    (hgo : LetGo env tid task entries s) {slot : Nat}
    (henabled : (view.content task.debug slot).enabled = true) :
    (slot, view.content task.debug slot) ∈ view.enabledSlots s.target := by
  induction hgo with
  | @here _ _ s _ htask => exact hinherits s.tick s.target ⟨henabled, tid, task, htask, rfl⟩
  | @later other state _ s t hrun _ ih =>
      have henter : view.enabledSlots (env.enter s).target ⊆ view.enabledSlots s.target :=
        hinherits s.tick s.target
      obtain ⟨u, hrun', hcases⟩ := releaseThread_cases env state other s
      obtain rfl := (EStateM.Result.ok.inj (hrun'.symm.trans hrun)).2
      rcases hcases with ⟨-, rfl⟩ | ⟨-, rfl, -⟩ | ⟨-, rfl, -⟩
      · exact ih
      · exact henter ih
      · exact henter (enabledSlots_erase ih)

theorem Released.enabledSlots (hformed : WellFormed arch s.debugger.breakpoints) {task : Task R D}
    (hreleased : Released env s tid task) {slot : Nat}
    (henabled : (view.content task.debug slot).enabled = true) :
    (slot, view.content task.debug slot) ∈ view.enabledSlots s.target := by
  obtain ⟨-, t, hrun, hgo⟩ := hreleased
  obtain ⟨hmoves, -⟩ := does_disableAll (Environment.leavesText_empty env)
    s.debugger.breakpoints.entries s hformed
  rw [endState_of_ok hrun] at hmoves
  have hslots : view.enabledSlots t.target ⊆ view.enabledSlots s.target := by
    have hkinds : [Kind.enter, .force] ⊆ unarming := by decide
    exact hmoves.preserve (I := fun u => view.enabledSlots u.target ⊆ view.enabledSlots s.target)
      (fun _ hkind _ _ hmove hu => (hmove.enabledSlots hinherits (hkinds hkind)).1.trans hu)
      (subset_refl _)
  exact hslots (hgo.enabledSlots hinherits henabled)

include hsteady

theorem Prompt.confined {target : Target R D} (hnone : view.enabledSlots target = ∅)
    (hs : Prompt arch env (State.initial child target) s) : Confined view.toDebugView s := by
  induction hs with
  | opened hrun => exact confined_opened hinherits hnone hrun
  | command line _ hrun ih =>
      exact ((confined_serves hsteady hinherits).dispatch line fun _ _ => trivial).of_ok hrun ih

/-- As long as no `watch` was botched, every slot that is enabled in a thread is one that a record asks
for, whenever the debugger is at its prompt; and so is every slot with which `quit` lets a thread go. -/
theorem Prompt.none_stray {target : Target R D} (hnone : view.enabledSlots target = ∅)
    (hs : Prompt arch env (State.initial child target) s) (hwhole : ¬ s.Botched) :
    view.enabledSlots s.target ⊆ view.asked s.debugger.watchpoints ∧
      ∀ tid task, Released env s tid task → ∀ slot, (view.content task.debug slot).enabled = true →
        (slot, view.content task.debug slot) ∈ view.asked s.debugger.watchpoints := by
  have hconfined := hs.confined hsteady hinherits hnone
  have hrecords := hconfined.confined.resolve_left hwhole
  refine ⟨hrecords.enabled, fun tid task hreleased slot henabled => ?_⟩
  exact hrecords.enabled (hreleased.enabledSlots hinherits hconfined.formed henabled)

end Watch

theorem enabledSlots_of_unset {target : Target UserRegs X86_64.DebugRegisters}
    (hunset : ∀ entry ∈ target.tasks.entries, entry.2.debug 7 = 0) :
    x86_64View.enabledSlots target = ∅ := by
  refine Set.eq_empty_iff_forall_notMem.mpr ?_
  rintro ⟨slot, content⟩ ⟨henabled, tid, task, htask, hcontent⟩
  have hcontrol : task.debug 7 = 0 := hunset (tid, task) (SortedMap.mem_entries_iff.mpr htask)
  dsimp only at henabled hcontent
  rw [← hcontent] at henabled
  change (X86_64.slotContent task.debug slot).enabled = true at henabled
  rw [X86_64.slotContent] at henabled
  split at henabled
  · simp [X86_64.slotOf, hcontrol] at henabled
  · cases henabled

/-- Two threads, both of which have the watchpoint by now, and nothing else. -/
theorem Prompt.none_stray_twoThreads :
    ∃ s, Prompt x86_64 (nopMachine fun _ => []) (State.initial 1 twoThreads) s ∧
      (∀ tid ∈ [1, 2], x86_64View.ArmedIn s.target tid 0) ∧
      x86_64View.enabledSlots s.target ⊆ x86_64View.asked [⟨1, 0, 0x2000, .write, 8⟩] := by
  obtain ⟨s, hs, hcheck⟩ := Prompt.exists_of_runBatch x86_64 (nopMachine fun _ => [])
    (State.initial 1 twoThreads) ["watch 0x2000".toList, "c".toList]
    (p := fun s => decide (s.debugger.watchpoints = [⟨1, 0, 0x2000, .write, 8⟩]) &&
      !s.log.any Entry.isBotch && [1, 2].all fun tid => (s.target.tasks.find? tid).any fun task =>
        (X86_64.slotContent task.debug 0).enabled) (by decide +kernel)
  simp only [Bool.and_eq_true, decide_eq_true_eq, Bool.not_eq_true', List.all_eq_true,
    Option.any_eq_true] at hcheck
  obtain ⟨⟨hwatchpoints, hwhole⟩, harmed⟩ := hcheck
  have hinherits : x86_64Gradual.toDebugView.Inherits (nopMachine fun _ => []) :=
    fun _ _ => subset_refl _
  refine ⟨s, hs, harmed, ?_⟩
  rw [← hwatchpoints]
  exact (Prompt.none_stray nopMachine_calm.reliable.steady hinherits
    (enabledSlots_of_unset (by decide)) hs
    (fun hbotched => absurd (hwhole.symm.trans hbotched) Bool.false_ne_true)).1

end Cosy
