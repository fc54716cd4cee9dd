import Cosy.Keeping

/-!
# What is recorded as a watchpoint

The architecture looks at the size and the address of a watchpoint when a thread is programmed, and
`set_watchpoint` programs the threads that are recorded as stopped. With none there, anything is
recorded.
-/

namespace Cosy

open ByteMemory Effect

variable {R D α : Type} {arch : Architecture R D} {env : Environment R D} {start s t : State R D}

/-! ### Only `watch` records -/

/-- Neither the records nor the number of the next one are different. -/
structure SameWatchpoints (s t : State R D) : Prop where
  watchpoints : t.debugger.watchpoints = s.debugger.watchpoints
  next : t.debugger.nextWatchpointId = s.debugger.nextWatchpointId

/-- The records and the number of the next one. -/
def Debugger.watching (d : Debugger) : List Watchpoint × Int := (d.watchpoints, d.nextWatchpointId)

theorem unconcerned_watching : Unconcerned Debugger.watching :=
  fun _ _ hsame => Prod.ext hsame.watchpoints hsame.nextWatchpointId

theorem sameWatchpoints_of_same {m : Dbg R D α} (hm : Within (Same Debugger.watching) m) :
    Within SameWatchpoints m :=
  Within.mono hm fun _ _ hsame => ⟨congrArg Prod.fst hsame, congrArg Prod.snd hsame⟩

/-- Another frame or another thread is no other watchpoint either. -/
theorem watching_manages : ManagesWithin arch env (Same (R := R) (D := D) Debugger.watching) :=
  have htends : TendsWithin arch env (Same (R := R) (D := D) Debugger.watching) :=
    unconcerned_watching.tends
  { htends with
    aside := fun hchange => Within.modify fun _ =>
      Prod.ext (hchange _).watchpoints (hchange _).nextWatchpointId }

theorem watching_serves :
    ServesApart arch env Set.univ (Same (R := R) (D := D) Debugger.watching) :=
  have hserves : ServesBesides arch env Set.univ (Same (R := R) (D := D) Debugger.watching) :=
    unconcerned_watching.serves
  { hserves with
    chooseFrame := fun _ => Within.modify fun _ => rfl
    selectThread := watching_manages.selectThread }

/-! ### The beginning and the end -/

theorem sameWatchpoints_openSession : Within SameWatchpoints (openSession arch env) :=
  sameWatchpoints_of_same unconcerned_watching.openSession

theorem sameWatchpoints_detach : Within SameWatchpoints (detach env : Dbg R D Unit) :=
  sameWatchpoints_of_same unconcerned_watching.detach

/-! ### What a line asks for -/

/-- The watchpoint that the arguments of `watch` describe, if they do. -/
def watchRequest (arguments : List Text) : Option (Address × WatchAccess × Nat) :=
  if arguments.length < 2 then none
  else
    match parseAddress (arguments.getD 1 []),
      if 3 ≤ arguments.length then parseAccess (arguments.getD 2 []) else some .write,
      if 4 ≤ arguments.length then (parseAddress (arguments.getD 3 [])).map toUnsigned
      else some 8 with
    | some address, some watchAccess, some bytes => some (address, watchAccess, bytes)
    | _, _, _ => none

/-- The watchpoint that a line asks for. -/
def requestedWatchpoint (line : Text) : Option (Address × WatchAccess × Nat) :=
  match words line with
  | command :: rest => if command = "watch".toList then watchRequest (command :: rest) else none
  | [] => none

variable (arch env) in
theorem setWatchpoint_of_none {arguments : List Text} (hnone : watchRequest arguments = none) :
    ∃ message, setWatchpoint arch env arguments = print message := by
  unfold watchRequest at hnone
  unfold setWatchpoint
  split at hnone
  · rename_i hshort
    exact ⟨_, if_pos hshort⟩
  · rename_i hshort
    rw [if_neg hshort]
    split
    · exact ⟨_, rfl⟩
    split
    · exact ⟨_, rfl⟩
    split
    · exact ⟨_, rfl⟩
    · simp_all

theorem setWatchpoint_of_some {arguments : List Text} {address : Address}
    {watchAccess : WatchAccess} {bytes : Nat}
    (hsome : watchRequest arguments = some (address, watchAccess, bytes)) :
    setWatchpoint arch env arguments = addWatchpoint arch env address watchAccess bytes := by
  unfold watchRequest at hsome
  split at hsome
  · cases hsome
  · rename_i hshort
    split at hsome
    · rename_i haddress haccess hbytes
      obtain ⟨rfl, rfl, rfl⟩ : _ ∧ _ ∧ _ := by simpa using hsome
      rw [setWatchpoint, if_neg hshort, haddress]
      dsimp only
      rw [haccess]
      dsimp only
      rw [hbytes]
    · cases hsome

theorem dispatch_watch {line : Text} {rest : List Text} (hline : words line = "watch".toList :: rest) :
    dispatch arch env line = (do
      attempt (setWatchpoint arch env (words line)) fun exception => print (.error exception)
      pure true) := by
  rw [dispatch, hline]
  rfl

/-! ### Legal records -/

/-- What the x86-64 debug registers can watch. -/
def LegalSize (address : Address) (bytes : Nat) : Prop :=
  (bytes = 1 ∨ bytes = 2 ∨ bytes = 4 ∨ bytes = 8) ∧ bytes ∣ address.toNat

instance (address : Address) (bytes : Nat) : Decidable (LegalSize address bytes) :=
  inferInstanceAs (Decidable (_ ∧ _))

structure Debugger.LegalWatchpoints (d : Debugger) : Prop where
  few : d.watchpoints.length ≤ 4
  slots : (d.watchpoints.map Watchpoint.slot).Nodup
  slot_lt : ∀ watchpoint ∈ d.watchpoints, watchpoint.slot < 4
  ids : (d.watchpoints.map Watchpoint.id).Nodup
  sizes : ∀ watchpoint ∈ d.watchpoints, LegalSize watchpoint.address watchpoint.bytes

/-- What holds of the records whatever is asked for. -/
structure Debugger.NumberedWatchpoints (d : Debugger) : Prop where
  slots : (d.watchpoints.map Watchpoint.slot).Nodup
  slot_lt : ∀ watchpoint ∈ d.watchpoints, watchpoint.slot < 4
  ids : (d.watchpoints.map Watchpoint.id).Nodup
  id_lt : ∀ watchpoint ∈ d.watchpoints, watchpoint.id < d.nextWatchpointId

theorem Debugger.NumberedWatchpoints.few {d : Debugger} (hd : d.NumberedWatchpoints) :
    d.watchpoints.length ≤ 4 := by
  have hsubset : d.watchpoints.map Watchpoint.slot ⊆ List.range 4 := by
    intro slot hslot
    obtain ⟨watchpoint, hmem, rfl⟩ := List.mem_map.mp hslot
    exact List.mem_range.mpr (hd.slot_lt watchpoint hmem)
  calc d.watchpoints.length = (d.watchpoints.map Watchpoint.slot).length := (List.length_map _).symm
    _ ≤ (List.range 4).length := (hd.slots.subperm hsubset).length_le
    _ = 4 := List.length_range

/-- Only the sizes can be wrong. -/
theorem Debugger.NumberedWatchpoints.legal_iff_size {d : Debugger} (hd : d.NumberedWatchpoints) :
    d.LegalWatchpoints ↔
      ∀ watchpoint ∈ d.watchpoints, LegalSize watchpoint.address watchpoint.bytes :=
  ⟨fun hlegal => hlegal.sizes, fun hsizes => ⟨hd.few, hd.slots, hd.slot_lt, hd.ids, hsizes⟩⟩

theorem Debugger.NumberedWatchpoints.add {d d' : Debugger} (hd : d.NumberedWatchpoints)
    (hfree : ¬ 4 ≤ d.nextSlot) {address : Address} {watchAccess : WatchAccess} {bytes : Nat}
    (hwatchpoints : d'.watchpoints = d.watchpoints ++ [d.newWatchpoint address watchAccess bytes])
    (hnext : d'.nextWatchpointId = d.nextWatchpointId + 1) : d'.NumberedWatchpoints := by
  refine ⟨?_, fun watchpoint hmem => ?_, ?_, fun watchpoint hmem => ?_⟩
  · rw [hwatchpoints, List.map_append, List.nodup_append']
    refine ⟨hd.slots, List.nodup_singleton _, List.disjoint_singleton.mpr ?_⟩
    exact freeSlot_notMem _
  · rw [hwatchpoints, List.mem_append, List.mem_singleton] at hmem
    rcases hmem with hmem | rfl
    · exact hd.slot_lt watchpoint hmem
    · exact Nat.lt_of_not_le hfree
  · rw [hwatchpoints, List.map_append, List.nodup_append']
    refine ⟨hd.ids, List.nodup_singleton _, List.disjoint_singleton.mpr fun hmem => ?_⟩
    obtain ⟨watchpoint, hmem, heq⟩ := List.mem_map.mp hmem
    exact absurd (hd.id_lt watchpoint hmem) (heq ▸ lt_irrefl _)
  · rw [hwatchpoints, List.mem_append, List.mem_singleton] at hmem
    rw [hnext]
    rcases hmem with hmem | rfl
    · exact (hd.id_lt watchpoint hmem).trans (Int.lt_succ _)
    · exact Int.lt_succ _

/-- x86-64 accepts what is legal, in a slot it has. -/
theorem x86_64_rejects_iff {slot : Nat} (hslot : ¬ 4 ≤ slot) (address : Address)
    (watchAccess : WatchAccess) (bytes : Nat) :
    Rejects x86_64 slot address watchAccess bytes ↔ ¬ LegalSize address bytes := by
  have hplan : x86_64.configureWatchpoint = X86_64.configureWatchpoint := rfl
  rw [Rejects, hplan, X86_64.configureWatchpoint, if_neg hslot, LegalSize]
  cases hlength : X86_64.watchLength bytes with
  | none =>
      refine iff_of_true ⟨_, rfl⟩ fun hlegal => ?_
      rcases hlegal.1 with rfl | rfl | rfl | rfl <;> cases hlength
  | some length =>
      have hbytes : bytes = 1 ∨ bytes = 2 ∨ bytes = 4 ∨ bytes = 8 := by
        unfold X86_64.watchLength at hlength
        split at hlength <;> simp_all
      rw [and_iff_right hbytes, Nat.dvd_iff_mod_eq_zero]
      by_cases haligned : address.toNat % bytes = 0
      · simp [haligned]
      · simp [haligned]

/-! ### What a line does to the records -/

section Adding

variable {address : Address} {watchAccess : WatchAccess} {bytes : Nat}

/-- The record was added, and no stopped thread would have kept it from that. -/
structure AddsWatchpoint (arch : Architecture R D) (s t : State R D) (watchpoint : Watchpoint) : Prop where
  free : ¬ 4 ≤ s.debugger.nextSlot
  watchpoints : t.debugger.watchpoints = s.debugger.watchpoints ++ [watchpoint]
  next : t.debugger.nextWatchpointId = s.debugger.nextWatchpointId + 1
  accepted : (∃ tid, s.debugger.recordOf tid = some true) →
    ¬ Rejects arch watchpoint.slot watchpoint.address watchpoint.access watchpoint.bytes

variable (arch env s) in
theorem addWatchpoint_cases (address : Address) (watchAccess : WatchAccess) (bytes : Nat) :
    SameWatchpoints s (endState (addWatchpoint arch env address watchAccess bytes) s) ∧
        (4 ≤ s.debugger.nextSlot ∨ ∃ tid, s.debugger.recordOf tid = some true) ∨
      AddsWatchpoint arch s (endState (addWatchpoint arch env address watchAccess bytes) s)
        (s.debugger.newWatchpoint address watchAccess bytes) := by
  by_cases hfull : 4 ≤ s.debugger.nextSlot
  · rw [endState_of_ok (addWatchpoint_of_full hfull)]
    exact Or.inl ⟨⟨rfl, rfl⟩, Or.inl hfull⟩
  let configure : Tid → Dbg R D Unit := fun tid =>
    configureWatchpoint arch env tid s.debugger.nextSlot address watchAccess bytes
  have hloop : Within SameDebugger (s.debugger.threads.entries.forM (onStopped configure)) :=
    Within.forM _ fun entry _ => Within.ite
      (fun _ => configureWatchpoint_sameDebugger entry.1 _ _ _ _) fun _ => .pure _
  rw [endState, addWatchpoint_of_free hfull, attempt, rescue, bind_apply]
  cases hrun : s.debugger.threads.entries.forM (onStopped configure) s with
  | ok a t =>
      have hsame : t.debugger = s.debugger := hloop.of_ok hrun
      refine Or.inr ⟨hfull, ?_, rfl, fun hsome hrejects => ?_⟩
      · change t.debugger.watchpoints ++ _ = _
        rw [hsame]
      · obtain ⟨text, htext⟩ := hrejects
        obtain ⟨tid, rest, hfirst⟩ := forM_onStopped_some (s := s) configure
          ((anyStopped_iff _).mpr hsome)
        rw [hfirst] at hrun
        have hthrows : configure tid = throw (.thrown (.runtime text)) :=
          configureWatchpoint_of_rejects env tid htext
        rw [hthrows] at hrun
        cases hrun
  | error halt t =>
      have hsame : t.debugger = s.debugger := hloop.of_error hrun
      refine Or.inl ⟨?_, Or.inr ((anyStopped_iff _).mp ?_)⟩
      · cases halt <;> exact ⟨congrArg Debugger.watchpoints hsame,
          congrArg Debugger.nextWatchpointId hsame⟩
      · by_contra hnone
        rw [forM_onStopped_none configure hnone] at hrun
        cases hrun

end Adding

/-- A watchpoint that could not be watched is only asked for while a thread is recorded as stopped,
or no slot is free. -/
def WatchesLegally (s : State R D) (line : Text) : Prop :=
  ∀ address watchAccess bytes, requestedWatchpoint line = some (address, watchAccess, bytes) →
    4 ≤ s.debugger.nextSlot ∨ (∃ tid, s.debugger.recordOf tid = some true) ∨
      LegalSize address bytes

variable (arch env) in
/-- A line records nothing, or what it asks for. -/
theorem dispatch_watchpoints (line : Text) (s : State R D) :
    SameWatchpoints s (endState (dispatch arch env line) s) ∧
        (∀ address watchAccess bytes, requestedWatchpoint line = some (address, watchAccess, bytes) →
          4 ≤ s.debugger.nextSlot ∨ ∃ tid, s.debugger.recordOf tid = some true) ∨
      ∃ address watchAccess bytes, requestedWatchpoint line = some (address, watchAccess, bytes) ∧
        AddsWatchpoint arch s (endState (dispatch arch env line) s)
          (s.debugger.newWatchpoint address watchAccess bytes) := by
  by_cases hwatch : ∃ rest, words line = "watch".toList :: rest
  · obtain ⟨rest, hline⟩ := hwatch
    have hrequested : requestedWatchpoint line = watchRequest (words line) := by
      rw [requestedWatchpoint, hline]
      exact if_pos rfl
    have hdebugger : (endState (dispatch arch env line) s).debugger
        = (endState (setWatchpoint arch env (words line)) s).debugger := by
      rw [dispatch_watch hline, debugger_attempted]
    rw [hrequested]
    cases hrequest : watchRequest (words line) with
    | none =>
        obtain ⟨message, hprint⟩ := setWatchpoint_of_none arch env hrequest
        rw [hprint] at hdebugger
        exact Or.inl ⟨⟨congrArg Debugger.watchpoints hdebugger,
          congrArg Debugger.nextWatchpointId hdebugger⟩, nofun⟩
    | some request =>
        obtain ⟨address, watchAccess, bytes⟩ := request
        rw [setWatchpoint_of_some hrequest] at hdebugger
        rcases addWatchpoint_cases arch env s address watchAccess bytes with
          ⟨hsame, hreason⟩ | hadded
        · refine Or.inl ⟨⟨?_, ?_⟩, fun _ _ _ _ => hreason⟩
          · exact (congrArg Debugger.watchpoints hdebugger).trans hsame.watchpoints
          · exact (congrArg Debugger.nextWatchpointId hdebugger).trans hsame.next
        · refine Or.inr ⟨address, watchAccess, bytes, rfl, hadded.free, ?_, ?_, hadded.accepted⟩
          · exact (congrArg Debugger.watchpoints hdebugger).trans hadded.watchpoints
          · exact (congrArg Debugger.nextWatchpointId hdebugger).trans hadded.next
  · refine Or.inl ⟨?_, fun address watchAccess bytes hsome => ?_⟩
    · exact sameWatchpoints_of_same (watching_serves.dispatch line (fun _ _ => trivial)
        fun rest hline => absurd ⟨rest, hline⟩ hwatch) s
    · unfold requestedWatchpoint at hsome
      split at hsome
      · rename_i command rest hline
        split_ifs at hsome with hcommand
        exact absurd ⟨rest, hcommand ▸ hline⟩ hwatch
      · cases hsome

/-! ### Sessions -/

/-- A session up to a prompt, with the lines that were given, the latest first, each with the state
it was given in. -/
inductive Session (arch : Architecture R D) (env : Environment R D) (start : State R D) :
    List (State R D × Text) → State R D → Prop
  | opened {s : State R D} (hrun : openSession arch env start = .ok ⟨⟩ s) :
      Session arch env start [] s
  | command {history : List (State R D × Text)} {s t : State R D} (line : Text)
      (hs : Session arch env start history s) (hrun : dispatch arch env line s = .ok true t) :
      Session arch env start ((s, line) :: history) t

/-- The states a session visits, with the lines that led there. -/
inductive Visits (arch : Architecture R D) (env : Environment R D) (start : State R D) :
    List (State R D × Text) → State R D → Prop
  | opening : Visits arch env start [] (endState (openSession arch env) start)
  | aborted {s : State R D} {exception : Exception}
      (hrun : openSession arch env start = .error (.thrown exception) s) :
      Visits arch env start [] (endState (detach env) s)
  | command {history : List (State R D × Text)} {s : State R D} (line : Text)
      (hs : Session arch env start history s) :
      Visits arch env start ((s, line) :: history) (endState (dispatch arch env line) s)
  | quit {history : List (State R D × Text)} {s : State R D}
      (hs : Session arch env start history s) : Visits arch env start history (endState (detach env) s)

theorem prompt_iff : Prompt arch env start s ↔ ∃ history, Session arch env start history s := by
  constructor
  · intro hs
    induction hs with
    | opened hrun => exact ⟨[], .opened hrun⟩
    | command line _ hrun ih =>
        obtain ⟨history, hs⟩ := ih
        exact ⟨_, .command line hs hrun⟩
  · rintro ⟨history, hs⟩
    induction hs with
    | opened hrun => exact .opened hrun
    | command line _ hrun ih => exact .command line ih hrun

/-- Every state that is visited is visited in some session. -/
theorem visited_iff : Visited arch env start t ↔ ∃ history, Visits arch env start history t := by
  constructor
  · intro ht
    cases ht with
    | opening => exact ⟨[], .opening⟩
    | aborted hrun => exact ⟨[], .aborted hrun⟩
    | command line hs =>
        obtain ⟨history, hs⟩ := prompt_iff.mp hs
        exact ⟨_, .command line hs⟩
    | quit hs =>
        obtain ⟨history, hs⟩ := prompt_iff.mp hs
        exact ⟨history, .quit hs⟩
  · rintro ⟨history, ht⟩
    cases ht with
    | opening => exact .opening
    | aborted hrun => exact .aborted hrun
    | command line hs => exact .command line (prompt_iff.mpr ⟨_, hs⟩)
    | quit hs => exact .quit (prompt_iff.mpr ⟨_, hs⟩)

/-- The records are numbered right, and legal exactly if every line so far has met the condition. -/
def WatchedLegally (history : List (State R D × Text)) (t : State R D) : Prop :=
  t.debugger.NumberedWatchpoints ∧ (t.debugger.LegalWatchpoints ↔
    ∀ step ∈ history, WatchesLegally step.1 step.2)

theorem WatchedLegally.of_same {history : List (State R D × Text)} (hs : WatchedLegally history s)
    (hst : SameWatchpoints s t) : WatchedLegally history t := by
  have hnumbered : t.debugger.NumberedWatchpoints := by
    obtain ⟨hslots, hslot_lt, hids, hid_lt⟩ := hs.1
    constructor
    · rwa [hst.watchpoints]
    · rwa [hst.watchpoints]
    · rwa [hst.watchpoints]
    · rwa [hst.watchpoints, hst.next]
  refine ⟨hnumbered, ?_⟩
  rw [← hs.2, hnumbered.legal_iff_size, hs.1.legal_iff_size, hst.watchpoints]

theorem watchedLegally_initial {child : Tid} {target : Target R D} :
    WatchedLegally [] (State.initial child target) :=
  ⟨⟨List.nodup_nil, nofun, List.nodup_nil, nofun⟩,
    iff_of_true ⟨Nat.zero_le 4, List.nodup_nil, nofun, List.nodup_nil, nofun⟩ nofun⟩

theorem WatchedLegally.dispatch {env : Environment UserRegs X86_64.DebugRegisters}
    {s : State UserRegs X86_64.DebugRegisters}
    {history : List (State UserRegs X86_64.DebugRegisters × Text)} (hs : WatchedLegally history s)
    (line : Text) :
    WatchedLegally ((s, line) :: history) (endState (dispatch x86_64 env line) s) := by
  rcases dispatch_watchpoints x86_64 env line s with
    ⟨hsame, hreason⟩ | ⟨address, watchAccess, bytes, hrequested, hadded⟩
  · have hline : WatchesLegally s line := fun address watchAccess bytes hrequested =>
      (hreason address watchAccess bytes hrequested).imp id Or.inl
    refine ⟨(hs.of_same hsame).1, (hs.of_same hsame).2.trans ?_⟩
    rw [List.forall_mem_cons, and_iff_right hline]
  · have hnumbered := hs.1.add hadded.free hadded.watchpoints hadded.next
    refine ⟨hnumbered, ?_⟩
    have hline : WatchesLegally s line ↔ LegalSize address bytes := by
      constructor
      · intro hlegally
        rcases hlegally address watchAccess bytes hrequested with hfull | hsome | hlegal
        · exact absurd hfull hadded.free
        · by_contra hillegal
          exact hadded.accepted hsome ((x86_64_rejects_iff hadded.free _ _ _).mpr hillegal)
        · exact hlegal
      · intro hlegal address' watchAccess' bytes' hrequested'
        obtain ⟨rfl, -, rfl⟩ : address = address' ∧ watchAccess = watchAccess' ∧ bytes = bytes' := by
          simpa using hrequested.symm.trans hrequested'
        exact Or.inr (Or.inr hlegal)
    rw [List.forall_mem_cons, hline, ← hs.2, hnumbered.legal_iff_size, hs.1.legal_iff_size,
      hadded.watchpoints, List.forall_mem_append, List.forall_mem_singleton, and_comm]
    exact Iff.rfl

/-- The records are legal exactly as long as no watchpoint that could not be watched is asked for
while a slot is free and no thread is recorded as stopped. -/
theorem Visits.legal_iff {env : Environment UserRegs X86_64.DebugRegisters} {child : Tid}
    {target : Target UserRegs X86_64.DebugRegisters}
    {history : List (State UserRegs X86_64.DebugRegisters × Text)}
    {t : State UserRegs X86_64.DebugRegisters}
    (ht : Visits x86_64 env (State.initial child target) history t) :
    t.debugger.LegalWatchpoints ↔ ∀ step ∈ history, WatchesLegally step.1 step.2 := by
  have hsession : ∀ {history s}, Session x86_64 env (State.initial child target) history s →
      WatchedLegally history s := by
    intro history s hs
    induction hs with
    | opened hrun => exact watchedLegally_initial.of_same (sameWatchpoints_openSession.of_ok hrun)
    | command line _ hrun ih => exact endState_of_ok hrun ▸ ih.dispatch line
  cases ht with
  | opening => exact (watchedLegally_initial.of_same (sameWatchpoints_openSession _)).2
  | aborted hrun =>
      have hopened := watchedLegally_initial.of_same (sameWatchpoints_openSession.of_error hrun)
      exact (hopened.of_same (sameWatchpoints_detach _)).2
  | command line hs => exact ((hsession hs).dispatch line).2
  | quit hs => exact ((hsession hs).of_same (sameWatchpoints_detach _)).2

theorem Session.of_commandLoop {history : List (State R D × Text)} {lines : List Text}
    (hs : Session arch env start history s) (hrun : commandLoop arch env s lines = some t) :
    ∃ later, Session arch env start later t ∧
      later.map Prod.snd = lines.reverse ++ history.map Prod.snd := by
  induction lines generalizing s history with
  | nil =>
      obtain rfl := Option.some.inj hrun
      exact ⟨history, hs, rfl⟩
  | cons line rest ih =>
      rw [commandLoop] at hrun
      split at hrun
      · rename_i next hline
        obtain ⟨later, hlater, hlines⟩ := ih (.command line hs hline) hrun
        exact ⟨later, hlater, by simpa using hlines⟩
      · cases hrun

variable (arch env start) in
theorem Session.exists_of_runBatch (lines : List Text) {p : State R D → Bool}
    (hrun : (runBatch arch env start lines).any p = true) :
    ∃ history s, Session arch env start history s ∧ history.map Prod.snd = lines.reverse ∧
      p s = true := by
  obtain ⟨s, hs, hp⟩ := (Option.any_eq_true _ _).mp hrun
  unfold runBatch at hs
  split at hs
  · rename_i first hopen
    obtain ⟨history, hsession, hlines⟩ := Session.of_commandLoop (.opened hopen) hs
    exact ⟨history, s, hsession, by simpa using hlines, hp⟩
  · cases hs

/-- `watch 0x2000` while the thread is stopped. -/
theorem Visits.legal_nops :
    ∃ history t, Visits x86_64 (nopMachine fun _ => []) (State.initial 1 (nopTarget 1)) history t ∧
      t.debugger.watchpoints = [⟨1, 0, 0x2000, .write, 8⟩] ∧ t.debugger.LegalWatchpoints := by
  obtain ⟨history, s, hs, hlines, hcheck⟩ := Session.exists_of_runBatch x86_64
    (nopMachine fun _ => []) (State.initial 1 (nopTarget 1))
    ["watch 0x2000".toList]
    (p := fun s => decide ((endState (detach (nopMachine fun _ => [])) s).debugger.watchpoints
      = [⟨1, 0, 0x2000, .write, 8⟩])) (by decide +kernel)
  refine ⟨history, _, .quit hs, of_decide_eq_true hcheck, (Visits.legal_iff (.quit hs)).mpr ?_⟩
  intro step hstep address watchAccess bytes hrequested
  have hline : step.2 = "watch 0x2000".toList := by
    have hmem := List.mem_map_of_mem (f := Prod.snd) hstep
    rw [hlines] at hmem
    exact List.mem_singleton.mp hmem
  have hrequest : requestedWatchpoint "watch 0x2000".toList = some (0x2000, .write, 8) := by decide
  rw [hline, hrequest] at hrequested
  obtain ⟨rfl, -, rfl⟩ : _ ∧ _ ∧ _ := by simpa using hrequested
  exact Or.inr (Or.inr (by decide))

/-- The process is killed before it executes its first instruction. -/
def killedEarly : Environment UserRegs X86_64.DebugRegisters :=
  nopMachine fun tick => if tick < 6 then [] else [.kill 1 9]

/-- Three bytes at 0x1001 are recorded as a watchpoint when the process is gone. -/
theorem recorded_unwatchable :
    ∃ t, Prompt x86_64 killedEarly (State.initial 1 (nopTarget 1)) t ∧ t.debugger.alive = false ∧
      t.debugger.watchpoints = [⟨1, 0, 0x1001, .write, 3⟩] ∧ ¬ t.debugger.LegalWatchpoints := by
  obtain ⟨t, ht, hcheck⟩ := Prompt.exists_of_runBatch x86_64 killedEarly
    (State.initial 1 (nopTarget 1)) ["c".toList, "watch 0x1001 w 3".toList]
    (p := fun t => !t.debugger.alive &&
      decide (t.debugger.watchpoints = [⟨1, 0, 0x1001, .write, 3⟩])) (by decide +kernel)
  simp only [Bool.and_eq_true, decide_eq_true_eq, Bool.not_eq_true'] at hcheck
  refine ⟨t, ht, hcheck.1, hcheck.2, fun hlegal => ?_⟩
  have hsize := hlegal.sizes ⟨1, 0, 0x1001, .write, 3⟩ (hcheck.2 ▸ List.mem_singleton_self _)
  exact absurd hsize (by decide)

end Cosy
