import Cosy.Moves

/-!
# Inserting and lifting traps

`enable` and `disable` as moves. A trap at a multiple of its size lies in one word, so its bytes
change in one request; where the log does not promise that, nothing is said about the memory.
-/

namespace Cosy

open ByteMemory Effect

variable {R D α : Type} {arch : Architecture R D} {env : Environment R D} {T : Set Address}
  {kinds kinds' : List Kind}

/-- A function makes only moves of these kinds, whatever becomes of it. -/
abbrev Does (arch : Architecture R D) (env : Environment R D) (T : Set Address)
    (kinds : List Kind) (m : Dbg R D α) : Prop := Within (Runs arch env T kinds) m

theorem Does.mono {m : Dbg R D α} (hm : Does arch env T kinds m) (hkinds : kinds ⊆ kinds') :
    Does arch env T kinds' m :=
  Within.mono hm fun _ _ hruns => hruns.mono hkinds

/-- The table may be taken to be well formed. -/
theorem withinAt_of_wellFormed {m : Dbg R D α} {s : State R D}
    (hm : WellFormed arch s.debugger.breakpoints → WithinAt (Runs arch env T kinds) m s) :
    WithinAt (Runs arch env T kinds) m s := fun hformed => hm hformed hformed

theorem Runs.of_move {kind : Kind} {s t : State R D} (hmove : Move arch env T kind s t)
    (hkind : kind ∈ kinds) (hbreakpoints : t.debugger.breakpoints = s.debugger.breakpoints) :
    Runs arch env T kinds s t :=
  fun hformed => ⟨.single hmove hkind, hbreakpoints ▸ hformed⟩

/-! ### Requests -/

theorem runs_enter (hkind : Kind.enter ∈ kinds) (s : State R D) :
    Runs arch env T kinds s (env.enter s) := .of_move (.enter s) hkind rfl

/-- A request makes the moves its effect consists of. -/
theorem does_ptrace (hkind : Kind.enter ∈ kinds) {operation : String} {tid : Tid}
    {request : Task R D → Target R D → α × Target R D}
    (hrequest : ∀ (s : State R D) task, s.target.tasks.find? tid = some task →
      task.stopped = true → Moves arch env T kinds s (s.withTarget (request task s.target).2)) :
    Does arch env T kinds (ptrace env operation tid request) := by
  intro s
  rcases ptrace_cases env operation tid request s with
    ⟨task, htask, hstopped, -, hrun⟩ | ⟨-, hrun⟩
  · rw [WithinAt, endState_of_ok hrun]
    intro hformed
    exact ⟨(Moves.single (.enter s) hkind).trans (hrequest (env.enter s) task htask hstopped),
      hformed⟩
  · rw [WithinAt, endState_of_error hrun]
    exact runs_enter hkind s

/-- A request that only reads. -/
theorem does_peek (hkind : Kind.enter ∈ kinds) {operation : String} {tid : Tid}
    {value : Task R D → Target R D → α} :
    Does arch env T kinds
      (ptrace env operation tid fun task target => (value task target, target)) :=
  does_ptrace hkind fun s _ _ _ => Moves.refl s

/-! ### Time passing -/

section Entered

variable {s t : State R D}

/-- Nothing but time passes from `s` to `t`. -/
abbrev Entered (arch : Architecture R D) (env : Environment R D) (T : Set Address)
    (s t : State R D) : Prop := Moves arch env T [.enter] s t

theorem Move.of_enter (hmove : Move arch env T .enter s t) : t = env.enter s := by
  cases hmove with
  | enter => rfl
  | liftWild _ hkind => rcases hkind with h | h <;> cases h

theorem Entered.preserve {I : State R D → Prop} (hentered : Entered arch env T s t)
    (hstep : ∀ s, I s → I (env.enter s)) (hs : I s) : I t := by
  refine Moves.preserve (fun kind hkind s t hmove => ?_) hentered hs
  obtain rfl := List.mem_singleton.mp hkind
  exact hmove.of_enter ▸ hstep s

theorem Entered.debugger (hentered : Entered arch env T s t) : t.debugger = s.debugger :=
  hentered.preserve (I := fun u => u.debugger = s.debugger) (fun _ hu => hu) rfl

theorem Entered.armed (hentered : Entered arch env T s t) (horderly : Orderly arch T t.log)
    (key : Address) : armed key t.log = armed key s.log :=
  hentered.preserve
    (I := fun u => Orderly arch T u.log → Cosy.armed key u.log = Cosy.armed key s.log)
    (fun _ hu hu' => (armed_enter hu' key).trans (hu (orderly_of_enter hu'))) (fun _ => rfl) horderly

theorem Entered.orderly (hentered : Entered arch env T s t) (horderly : Orderly arch T t.log) :
    Orderly arch T s.log :=
  hentered.preserve (I := fun u => Orderly arch T u.log → Orderly arch T s.log)
    (fun _ hu hu' => hu (orderly_of_enter hu')) id horderly

/-- While a trap is in place the text stays as it is. -/
theorem Entered.eqOn (henv : env.LeavesText T) (hentered : Entered arch env T s t) {key : Address}
    (harmed : Cosy.armed key s.log = true) (horderly : Orderly arch T t.log) :
    Set.EqOn t.target.memory s.target.memory T ∧ Set.EqOn t.target.image s.target.image T := by
  refine (hentered.preserve
    (I := fun u => Orderly arch T u.log → Cosy.armed key u.log = true ∧
      Set.EqOn u.target.memory s.target.memory T ∧ Set.EqOn u.target.image s.target.image T)
    (fun u hu hu' => ?_) (fun _ => ⟨harmed, fun _ _ => rfl, fun _ _ => rfl⟩) horderly).2
  obtain ⟨harmedu, hmemory, himage⟩ := hu (orderly_of_enter hu')
  have hstep := eqOn_enter henv harmedu hu'
  exact ⟨(armed_enter hu' key).trans harmedu, hstep.1.trans hmemory, hstep.2.trans himage⟩

theorem Entered.watching (arch : Architecture R D) (henv : env.LeavesText T) {key : Address}
    (harmed : Cosy.armed key s.log = true) :
    Watching env (Entered arch env T s) (fun u => Orderly arch T u.log) T s.target.memory where
  enter u hu := hu.trans (.single (.enter u) List.mem_cons_self)
  back _ _ hu := orderly_of_enter hu
  memory _ hu horderly := (hu.eqOn henv harmed horderly).1

end Entered

/-! ### Writes the log says nothing about -/

/-- Where `P` holds, and it goes on holding, any write is a move of this kind. -/
structure Wild (arch : Architecture R D) (env : Environment R D) (T : Set Address) (kind : Kind)
    (P : State R D → Prop) : Prop where
  enter : ∀ s, P s → P (env.enter s)
  poke : ∀ s memory, P s → P (s.withMemory memory)
  move : ∀ s memory, P s → Move arch env T kind s (s.withMemory memory)

def Wildly (arch : Architecture R D) (env : Environment R D) (T : Set Address) (kind : Kind)
    (P : State R D → Prop) (s t : State R D) : Prop :=
  P s → Moves arch env T [.enter, kind] s t ∧ t.debugger = s.debugger ∧ P t

instance (kind : Kind) (P : State R D → Prop) :
    IsPreorder (State R D) (Wildly arch env T kind P) where
  refl _ := fun hs => ⟨Moves.refl _, rfl, hs⟩
  trans _ _ _ hst htu := fun hs =>
    have ht := hst hs
    have hu := htu ht.2.2
    ⟨ht.1.trans hu.1, hu.2.1.trans ht.2.1, hu.2.2⟩

section Wildly

variable {kind : Kind} {P : State R D → Prop}

theorem Wild.runs_enter (hwild : Wild arch env T kind P) (s : State R D) :
    Wildly arch env T kind P s (env.enter s) :=
  fun hs => ⟨.single (.enter s) List.mem_cons_self, rfl, hwild.enter s hs⟩

theorem Wild.readWord (hwild : Wild arch env T kind P) (address : Address) :
    Within (Wildly arch env T kind P) (readWord env address) := by
  intro s
  rcases ptrace_cases env "PTRACE_PEEKDATA" s.debugger.selectedTid
      (fun _ target => (word target.memory address, target)) s with
    ⟨task, -, -, -, hrun⟩ | ⟨-, hrun⟩
  · rw [WithinAt, Cosy.readWord, endState, get_bind_apply, hrun]
    exact hwild.runs_enter s
  · rw [WithinAt, Cosy.readWord, endState, get_bind_apply, hrun]
    exact hwild.runs_enter s

theorem Wild.pokeWord (hwild : Wild arch env T kind P) (address value : Address) :
    Within (Wildly arch env T kind P) (pokeWord env address value) := by
  intro s
  rcases ptrace_cases env "PTRACE_POKEDATA" s.debugger.selectedTid
      (fun _ target => (PUnit.unit, { target with memory := setWord target.memory address value }))
      s with ⟨task, -, -, -, hrun⟩ | ⟨-, hrun⟩
  · rw [WithinAt, Cosy.pokeWord, endState, get_bind_apply, hrun]
    intro hs
    have henter := hwild.enter s hs
    exact ⟨(Moves.single (.enter s) List.mem_cons_self).trans
      (.single (hwild.move (env.enter s) _ henter) (by simp)), rfl,
      hwild.poke (env.enter s) _ henter⟩
  · rw [WithinAt, Cosy.pokeWord, endState, get_bind_apply, hrun]
    exact hwild.runs_enter s

theorem Wild.coverWord (hwild : Wild arch env T kind P) (words : SortedMap Address Address)
    (key : Address) : Within (Wildly arch env T kind P) (coverWord env words key) := by
  unfold Cosy.coverWord
  exact Within.ite (fun _ => .pure _) fun _ => (hwild.readWord key).bind fun _ => .pure _

theorem Wild.gatherWords (hwild : Wild arch env T kind P) (bytes : List Byte) :
    ∀ words address, Within (Wildly arch env T kind P) (gatherWords env words address bytes) := by
  induction bytes with
  | nil => exact fun _ _ => .pure _
  | cons byte rest ih =>
      exact fun words address => (hwild.coverWord words _).bind fun words => ih _ _

theorem Wild.writeBytes (hwild : Wild arch env T kind P) (address : Address) (bytes : List Byte) :
    Within (Wildly arch env T kind P) (writeBytes env address bytes) :=
  (hwild.gatherWords bytes _ _).bind fun words =>
    .forM words.entries fun entry _ => hwild.pokeWord entry.1 entry.2

end Wildly

theorem wild_arm (arch : Architecture R D) (T : Set Address) :
    Wild arch env T .arm fun s => ¬ Orderly arch T s.log where
  enter _ hs := fun horderly => hs (orderly_of_enter horderly)
  poke _ _ hs := hs
  move s _ hs := .armWild s hs

@[simp]
theorem userEnabled_enter (key : Address) (s : State R D) :
    userEnabled key (env.enter s).log = userEnabled key s.log := by
  rw [enter_log]
  induction (env.interfere s.tick s.target).1 with
  | nil => rfl
  | cons event events ih => exact ih

/-- Why a trap may be lifted by a move of this kind. -/
def MayLift (kind : Kind) (key : Address) (r : Breakpoint) (log : List Entry) : Prop :=
  kind = .force ∨ kind = .lift ∧ (userEnabled key log = false ∨ r.temporary = true)

theorem MayLift.kind {kind : Kind} {key : Address} {r : Breakpoint} {log : List Entry}
    (hmay : MayLift kind key r log) : kind = .force ∨ kind = .lift := hmay.imp_right And.left

theorem MayLift.enter {kind : Kind} {key : Address} {r : Breakpoint} {s : State R D}
    (hmay : MayLift kind key r s.log) : MayLift kind key r (env.enter s).log := by
  rwa [MayLift, userEnabled_enter]

theorem MayLift.move {kind : Kind} {key : Address} {r : Breakpoint} {s : State R D}
    {memory : Memory} (hmay : MayLift kind key r s.log)
    (hr : s.debugger.breakpoints.find? key = some r) (henabled : r.enabled = true)
    (hput : SavedPut arch T s key r.saved memory) :
    Move arch env T kind s (s.lifted key r memory) := by
  rcases hmay with rfl | ⟨rfl, hreason⟩
  · exact .force s hr henabled hput
  · exact .lift s hr henabled hput hreason

theorem wild_lift (arch : Architecture R D) (T : Set Address) (kind : Kind) (key : Address) {r : Breakpoint} (henabled : r.enabled = true) :
    Wild arch env T kind fun s => s.debugger.breakpoints.find? key = some r ∧
      ¬ (Orderly arch T s.log ∧ armed key s.log = true) ∧ MayLift kind key r s.log where
  enter _ hs :=
    ⟨hs.1, fun h => hs.2.1 ⟨orderly_of_enter h.1, armed_of_enter h.2⟩, hs.2.2.enter⟩
  poke _ _ hs := hs
  move s _ hs := .liftWild s hs.2.2.kind hs.1 henabled hs.2.1

/-! ### Records -/

theorem find?_withRecord (s : State R D) (key key' : Address) (change : Breakpoint → Breakpoint) :
    (s.withRecord key change).debugger.breakpoints.find? key'
      = if key' = key then (s.debugger.breakpoints.find? key).map change
        else s.debugger.breakpoints.find? key' :=
  SortedMap.find?_modify _ _ _ _

theorem WellFormed.insert {breakpoints : SortedMap Address Breakpoint} {r : Breakpoint}
    (hformed : WellFormed arch breakpoints) (henabled : r.enabled = false)
    (hpending : r.pending = false) : WellFormed arch (breakpoints.insert r.address r) := by
  intro key r' hr'
  rw [SortedMap.find?_insert] at hr'
  split at hr'
  · rename_i heq
    obtain rfl := Option.some.inj hr'
    exact ⟨heq.symm, hpending, by simp [henabled]⟩
  · exact hformed key r' hr'

theorem WellFormed.erase {breakpoints : SortedMap Address Breakpoint}
    (hformed : WellFormed arch breakpoints) (key : Address) :
    WellFormed arch (breakpoints.erase key) := by
  intro key' r hr
  rw [SortedMap.find?_erase] at hr
  split at hr
  · cases hr
  · exact hformed key' r hr

theorem WellFormed.modify {breakpoints : SortedMap Address Breakpoint} {key : Address}
    {change : Breakpoint → Breakpoint} (hformed : WellFormed arch breakpoints)
    (hchange : ∀ r, breakpoints.find? key = some r → (change r).address = r.address ∧
      (change r).pending = r.pending ∧
      ((change r).enabled = true → (change r).saved.length = arch.breakpointSize)) :
    WellFormed arch (breakpoints.modify key change) := by
  intro key' r' hr'
  rw [SortedMap.find?_modify] at hr'
  split at hr'
  · rename_i heq
    obtain ⟨r, hr, rfl⟩ := Option.map_eq_some_iff.mp hr'
    have hold := hformed key r hr
    have hnew := hchange r hr
    exact ⟨hnew.1.trans (hold.1.trans heq.symm), hnew.2.1.trans hold.2.1, hnew.2.2⟩
  · exact hformed key' r' hr'

/-! ### Writing a whole trap -/

/-- What `writeBytes` puts on the text when it writes one aligned trap's worth of bytes. -/
theorem writeBytes_entered (arch : Architecture R D) (henv : env.LeavesText T) {s : State R D} {key : Address}
    {bytes : List Byte} (hlength : bytes.length = arch.breakpointSize)
    (horderly : Orderly arch T s.log) (harmed : armed key s.log = true) :
    Triple (fun t => t = s) (writeBytes env key bytes)
      (fun _ t => ∃ u memory, Entered arch env T s u ∧ t = u.withMemory memory ∧
        (Orderly arch T u.log → ∀ x ∈ T, memory x =
          if arch.trapBase x = key then bytes.getD (x.toNat % arch.breakpointSize) 0
          else u.target.memory x))
      (fun _ t => Entered arch env T s t) := by
  obtain ⟨haligned, -⟩ := horderly.of_armed harmed
  refine (writeTrap_spec (Entered.watching arch henv harmed) haligned hlength).conseq ?_ ?_
    (fun _ _ ht => ht)
  · rintro t rfl
    exact Moves.refl _
  · rintro _ t ⟨u, memory, hu, rfl, hput⟩
    refine ⟨u, memory, hu, rfl, fun horderly' x hx => ?_⟩
    rw [hput horderly' x hx, ← (hu.eqOn henv harmed horderly').1 hx]

/-- Nothing is said about the memory where the log is not orderly. -/
theorem wildPut {s : State R D} {key : Address} {saved : List Byte}
    (hwild : ¬ Orderly arch T s.log) : TrapPut arch T s key saved s.target.memory :=
  fun horderly => absurd horderly hwild

/-- Inserting the trap of a record whose bytes are saved. -/
theorem putTrap_spec (henv : env.LeavesText T) {s : State R D} {key : Address} {r : Breakpoint}
    (hr : s.debugger.breakpoints.find? key = some r) (hdisabled : r.enabled = false)
    (hlength : r.saved.length = arch.breakpointSize)
    (harmed : Orderly arch T s.log → armed key s.log = true)
    (hsaved : Orderly arch T s.log →
      r.saved = bytesAt s.target.memory key arch.breakpointSize) :
    Triple (fun t => t = s)
      (do
        writeBytes env key arch.breakpointInstruction
        modifyBreakpoint key fun r => { r with enabled := true })
      (fun _ t => Moves arch env T [.enter, .arm] s t ∧
        t.debugger.breakpoints
          = s.debugger.breakpoints.modify key fun r => { r with enabled := true })
      (fun _ t => Moves arch env T [.enter, .arm] s t ∧ t.debugger = s.debugger) := by
  by_cases horderly : Orderly arch T s.log
  · have harmeds := harmed horderly
    have hwrite := writeBytes_entered arch henv arch.length_breakpointInstruction
      horderly harmeds
    refine Triple.bind (hwrite.conseq (fun _ ht => ht) (fun _ _ ht => ht) ?_) fun _ => ?_
    · exact fun _ t ht => ⟨ht.mono (by simp), ht.debugger⟩
    · rintro t ⟨u, memory, hu, rfl, hput⟩
      have hru : u.debugger.breakpoints.find? key = some r := hu.debugger ▸ hr
      have harmedu : Orderly arch T u.log → armed key u.log = true := fun horderlyu =>
        (hu.armed horderlyu key).trans harmeds
      have htrap : TrapPut arch T u key r.saved memory := by
        intro horderlyu hinserted
        refine ⟨?_, hput horderlyu⟩
        obtain ⟨haligned, htext⟩ := horderlyu.of_armed hinserted
        rw [hsaved horderly]
        refine bytesAt_congr fun i hi => ((hu.eqOn henv harmeds horderlyu).1 (htext _ ?_)).symm
        exact blockOf_add arch.breakpointSize_dvd haligned hi
      refine ⟨(hu.mono (by simp)).trans
        (.single (.arm u hru hdisabled hlength htrap harmedu) (by simp)), ?_⟩
      exact hu.debugger ▸ rfl
  · refine Triple.bind (S := fun _ t => Moves arch env T [.enter, .arm] s t ∧
        t.debugger.breakpoints
          = s.debugger.breakpoints.modify key fun r => { r with enabled := true })
      (Triple.of_within ((wild_arm arch T).writeBytes key arch.breakpointInstruction)
        (Q := fun _ t => Moves arch env T [.enter, .arm] s t ∧ t.debugger = s.debugger ∧
          ¬ Orderly arch T t.log) ?_ ?_) fun _ => ?_
    · rintro _ t hst rfl _
      exact hst horderly
    · rintro _ t hst rfl _
      have ht := hst horderly
      exact ⟨ht.1, ht.2.1⟩
    · rintro t ⟨hmoves, hdebugger, hwild⟩
      have hrt : t.debugger.breakpoints.find? key = some r := hdebugger ▸ hr
      refine ⟨hmoves.trans (.single (.arm t hrt hdisabled hlength (wildPut hwild)
        fun horderlyt => absurd horderlyt hwild) (by simp)), ?_⟩
      exact hdebugger ▸ rfl

theorem insertTrap_spec (henv : env.LeavesText T) {s : State R D} {key : Address}
    {r : Breakpoint} (hr : s.debugger.breakpoints.find? key = some r)
    (hdisabled : r.enabled = false) (hformed : WellFormed arch s.debugger.breakpoints)
    (harmed : armed key s.log = true) :
    Triple (fun t => t = s) (insertTrap arch env key key)
      (fun _ t => Moves arch env T [.enter, .arm] s t ∧ WellFormed arch t.debugger.breakpoints)
      (fun _ t => (Moves arch env T [.enter, .arm] s t ∧ WellFormed arch t.debugger.breakpoints) ∧
        ∃ r', t.debugger.breakpoints.find? key = some r' ∧ r'.enabled = false) := by
  have hread := readBytes_spec (Entered.watching arch henv harmed) arch.breakpointSize key True
  rw [insertTrap]
  refine Triple.bind (hread.conseq ?_ (fun _ _ ht => ht) ?_) fun saved => ?_
  · rintro t rfl
    exact ⟨Moves.refl _, fun _ => trivial⟩
  · exact fun _ t ht =>
      ⟨⟨ht.mono (by simp), ht.debugger ▸ hformed⟩, r, ht.debugger ▸ hr, hdisabled⟩
  rintro t ⟨ht, hlength, hbytes⟩
  rw [modifyBreakpoint, bind_apply, modifyDebugger_apply]
  have hrt : t.debugger.breakpoints.find? key = some r := ht.debugger ▸ hr
  have hformedt : WellFormed arch t.debugger.breakpoints := ht.debugger ▸ hformed
  have harmedt : Orderly arch T t.log → armed key t.log = true := fun horderly =>
    (ht.armed horderly key).trans harmed
  -- The state after the bytes were saved in the record.
  let u := t.withRecord key fun r => { r with saved := saved }
  have hru : u.debugger.breakpoints.find? key = some { r with saved := saved } := by
    rw [find?_withRecord, if_pos rfl, hrt]
    rfl
  have hformedu : WellFormed arch u.debugger.breakpoints :=
    hformedt.modify fun _ _ => ⟨rfl, rfl, fun _ => hlength⟩
  have hmovesu : Moves arch env T [.enter, .arm] s u :=
    (ht.mono (by simp)).trans (.single (.save t hrt hdisabled) (by simp))
  have hsaved : Orderly arch T u.log →
      saved = bytesAt u.target.memory key arch.breakpointSize := by
    intro horderly
    obtain ⟨haligned, htext⟩ := Orderly.of_armed horderly (harmedt horderly)
    apply List.ext_getElem (by rw [hlength, length_bytesAt])
    intro i hi hi'
    have hT : key + BitVec.ofNat 64 i ∈ T :=
      htext _ (blockOf_add arch.breakpointSize_dvd haligned (hlength ▸ hi))
    rw [← List.getD_eq_getElem _ 0 hi, ← List.getD_eq_getElem _ 0 hi',
      getD_bytesAt _ (hlength ▸ hi), (hbytes horderly).2 i (hlength ▸ hi) hT]
    exact ((ht.eqOn henv harmed horderly).1 hT).symm
  have hput := putTrap_spec henv hru hdisabled hlength harmedt hsaved
  refine (hput.conseq (fun _ h => h) ?_ ?_) u rfl
  · rintro _ v ⟨hmoves, hbreakpoints⟩
    refine ⟨hmovesu.trans hmoves, hbreakpoints ▸ hformedu.modify ?_⟩
    intro r' hr'
    obtain rfl := Option.some.inj (hru.symm.trans hr')
    exact ⟨rfl, rfl, fun _ => hlength⟩
  · rintro _ v ⟨hmoves, hdebugger⟩
    exact ⟨⟨hmovesu.trans hmoves, hdebugger ▸ hformedu⟩, { r with saved := saved },
      hdebugger ▸ hru, hdisabled⟩

theorem does_enable (henv : env.LeavesText T) (key : Address) :
    Does arch env T [.enter, .arm] (enable arch env key) := by
  intro s
  refine withinAt_of_wellFormed fun hformed => ?_
  refine WithinAt.get_bind ?_
  cases hr : s.debugger.breakpoints.find? key with
  | none => exact .pure _
  | some r =>
      obtain ⟨haddress, hpending, hlength⟩ := hformed key r hr
      by_cases henabled : r.enabled = true
      · have hsaved : r.saved.isEmpty = false := by
          have hpos := arch.breakpointSize_pos
          rw [← hlength henabled] at hpos
          cases hsaved : r.saved with
          | nil => simp [hsaved] at hpos
          | cons byte rest => rfl
        simp only [henabled, hsaved, Bool.not_false, Bool.and_true, Bool.or_true, if_true]
        exact .pure _
      · have hdisabled : r.enabled = false := by simpa using henabled
        simp only [hpending, hdisabled, Bool.false_and, Bool.or_false, Bool.false_eq_true,
          if_false, haddress]
        have harming : Runs arch env T [.enter, .arm] s (s.logged (.arming key)) :=
          .of_move (.arming s hr hdisabled) (by simp) rfl
        refine WithinAt.modify_bind harming ?_
        have hinsert := insertTrap_spec henv (s := s.logged (.arming key)) hr hdisabled hformed
          (by simp [State.logged, armed])
        refine WithinAt.onThrow (hinsert.conseq (fun _ h => h) ?_ ?_).withinAt ?_
        · exact fun _ _ ht _ => ht
        · exact fun _ _ ht _ => ht.1
        · intro e t hrun
          obtain ⟨-, r', hr', hdisabled'⟩ := hinsert.of_error rfl hrun
          exact .of_move (.abandon t hr' hdisabled') (by simp) rfl

/-! ### Lifting a trap -/

theorem liftTrap_spec (henv : env.LeavesText T) {kind : Kind} {s : State R D} {key : Address}
    {r : Breakpoint} (hr : s.debugger.breakpoints.find? key = some r) (henabled : r.enabled = true)
    (hlength : r.saved.length = arch.breakpointSize) (hmay : MayLift kind key r s.log) :
    Triple (fun t => t = s) (writeBytes env key r.saved)
      (fun _ t => ∃ u memory, Moves arch env T [.enter, kind] s u ∧ u.debugger = s.debugger ∧
        t = u.withMemory memory ∧ MayLift kind key r u.log ∧ SavedPut arch T u key r.saved memory)
      (fun _ t => Moves arch env T [.enter, kind] s t ∧ t.debugger = s.debugger) := by
  by_cases hsettled : Orderly arch T s.log ∧ armed key s.log = true
  · refine (writeBytes_entered arch henv hlength hsettled.1 hsettled.2).conseq
      (fun _ ht => ht) ?_ (fun _ t ht => ⟨ht.mono (by simp), ht.debugger⟩)
    rintro _ t ⟨u, memory, hu, rfl, hput⟩
    refine ⟨u, memory, hu.mono (by simp), hu.debugger, rfl, ?_, fun horderly _ => hput horderly⟩
    exact hu.preserve (I := fun v => MayLift kind key r v.log) (fun _ hv => hv.enter) hmay
  · refine Triple.of_within ((wild_lift arch T kind key henabled).writeBytes key r.saved) ?_ ?_
    · rintro _ t hst rfl _
      have ht := hst ⟨hr, hsettled, hmay⟩
      exact ⟨t, t.target.memory, ht.1, ht.2.1, rfl, ht.2.2.2.2,
        fun horderly harmed => absurd ⟨horderly, harmed⟩ ht.2.2.2.1⟩
    · rintro _ t hst rfl _
      have ht := hst ⟨hr, hsettled, hmay⟩
      exact ⟨ht.1, ht.2.1⟩

theorem disable_spec (henv : env.LeavesText T) (kind : Kind) (key : Address) {s : State R D}
    (hformed : WellFormed arch s.debugger.breakpoints)
    (hmay : ∀ r, s.debugger.breakpoints.find? key = some r → MayLift kind key r s.log) :
    Triple (fun t => t = s) (disable env key)
      (fun _ t => Runs arch env T [.enter, kind] s t ∧
        ∀ r, t.debugger.breakpoints.find? key = some r → r.enabled = false)
      (fun _ t => Runs arch env T [.enter, kind] s t ∧ t.debugger = s.debugger) := by
  rintro s rfl
  rw [disable, get_bind_apply]
  cases hr : s.debugger.breakpoints.find? key with
  | none => exact ⟨refl_of _ s, by simp [hr]⟩
  | some r =>
      obtain ⟨haddress, hpending, hlength⟩ := hformed key r hr
      cases henabled : r.enabled with
      | false =>
          simp only [henabled, Bool.not_false, Bool.or_true, Bool.true_or, if_true]
          exact ⟨refl_of _ s, by simp [hr, henabled]⟩
      | true =>
          have hsaved : r.saved.isEmpty = false := by
            have hpos := arch.breakpointSize_pos
            rw [← hlength henabled] at hpos
            cases hsaved : r.saved with
            | nil => simp [hsaved] at hpos
            | cons byte rest => rfl
          simp only [hpending, henabled, hsaved, Bool.not_true, Bool.or_self, Bool.false_eq_true,
            if_false, haddress]
          have hlift := liftTrap_spec henv hr henabled (hlength henabled) (hmay r hr)
          rw [bind_apply]
          cases hrun : writeBytes env key r.saved s with
          | error e t =>
              have ht := hlift.of_error rfl hrun
              exact ⟨fun _ => ⟨ht.1, ht.2 ▸ hformed⟩, ht.2⟩
          | ok a t =>
              obtain ⟨u, memory, hmoves, hdebugger, rfl, hmayu, hput⟩ := hlift.of_ok rfl hrun
              have hru : u.debugger.breakpoints.find? key = some r := hdebugger ▸ hr
              refine ⟨fun _ => ⟨hmoves.trans
                (.single (hmayu.move hru henabled hput) (by simp)), ?_⟩, ?_⟩
              · exact WellFormed.modify (hdebugger ▸ hformed) fun _ _ => ⟨rfl, rfl, by simp⟩
              · intro r' hr'
                have hfind : (u.debugger.breakpoints.modify key
                    fun r => { r with enabled := false }).find? key = some r' := hr'
                rw [SortedMap.find?_modify_self, hru] at hfind
                exact (Option.some.inj hfind) ▸ rfl

theorem does_disable (henv : env.LeavesText T) (key : Address) :
    Does arch env T [.enter, .force] (disable env key) := by
  intro s
  refine withinAt_of_wellFormed fun hformed => ?_
  refine (disable_spec henv .force key hformed fun _ _ => Or.inl rfl).conseq (fun _ h => h) ?_ ?_ |>.withinAt
  · exact fun _ _ ht => ht.1
  · exact fun _ _ ht => ht.1

end Cosy
