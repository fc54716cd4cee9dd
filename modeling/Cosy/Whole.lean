import Cosy.Lib.Layers
import Cosy.Frames
import Cosy.Restoration

/-!
# Traps written as a whole

A trap at an arbitrary address may lie in two words, and then it takes two requests to write it. As
long as the second one does not fail after the first, a trap goes in or comes out as a whole or not
at all, and this is all there is to know about `enable` and `disable`: what they leave in memory, in
the table and in the log.
-/

namespace Cosy

open ByteMemory Effect

variable {R D α : Type} {arch : Architecture R D} {env : Environment R D} {s t : State R D}
  {m : Memory}

/-- Nothing but the debugger writes memory, and a trap is a single byte or else no request to a
stopped thread fails. -/
structure Environment.Atomic (arch : Architecture R D) (env : Environment R D) : Prop where
  still : env.WritesNothing
  whole : arch.breakpointSize = 1 ∨ env.Reliable

/-- Requests were made since `s`, after which the memory is `m`. -/
structure Requested (s : State R D) (m : Memory) (t : State R D) : Prop where
  memory : t.target.memory = m
  debugger : t.debugger = s.debugger
  log : ∃ events : List TargetEvent, t.log = events.map Entry.target ++ s.log

theorem Requested.refl (s : State R D) : Requested s s.target.memory s := ⟨rfl, rfl, [], rfl⟩

theorem Requested.trans {u : State R D} {m' : Memory} (ht : Requested s m t)
    (hu : Requested t m' u) : Requested s m' u := by
  obtain ⟨events, hevents⟩ := ht.log
  obtain ⟨events', hevents'⟩ := hu.log
  refine ⟨hu.memory, hu.debugger.trans ht.debugger, events' ++ events, ?_⟩
  rw [hevents', hevents, List.map_append, List.append_assoc]

theorem Requested.enter (henv : env.WritesNothing) (ht : Requested s m t) :
    Requested s m (env.enter t) := by
  refine ht.trans ⟨?_, rfl, (env.interfere t.tick t.target).1, enter_log env t⟩
  rw [enter_target, henv.memory]
  exact ht.memory

/-- `A` holds of the memory and the state while requests are made, and of what the debugger has
written afterwards. -/
structure Held (env : Environment R D) (A : Memory → State R D → Prop) : Prop where
  enter : ∀ m s, A m s → A m (env.enter s)
  memory : ∀ m s, A m s → s.target.memory = m
  write : ∀ m m' s, A m s → A m' (s.withMemory m')

theorem requested_held (henv : env.WritesNothing) : Held env (Requested s) where
  enter _ _ ht := ht.enter henv
  memory _ _ ht := ht.memory
  write _ _ _ ht := ⟨rfl, ht.debugger, ht.log⟩

/-! ### Reading and writing -/

section Held

variable {A : Memory → State R D → Prop} (hheld : Held env A)

include hheld

theorem Held.watching (m : Memory) : Watching env (A m) (fun _ => True) Set.univ m where
  enter := hheld.enter m
  back _ _ _ := trivial
  memory _ ht _ _ _ := congrFun (hheld.memory _ _ ht) _

theorem Held.readBytes (address : Address) (n : Nat) :
    Triple (A m) (readBytes env address n) (fun bytes t => A m t ∧ bytes = bytesAt m address n)
      (fun _ => A m) := by
  refine (readBytes_spec (hheld.watching m) n address True).conseq
    (fun _ ht => ⟨ht, fun _ => trivial⟩) ?_ (fun _ _ ht => ht)
  rintro bytes t ⟨ht, hlength, hbytes⟩
  refine ⟨ht, List.ext_getElem (hlength.trans (length_bytesAt m n address).symm) fun i hi hi' => ?_⟩
  have hlt : i < n := hlength ▸ hi
  rw [← List.getD_eq_getElem _ 0 hi, ← List.getD_eq_getElem _ 0 hi', getD_bytesAt m hlt]
  exact (hbytes trivial).2 i hlt trivial

theorem Held.pokeWord (hreliable : env.Reliable) (address value : Address) :
    Triple (fun t => A m t ∧ t.SelectedStopped) (pokeWord env address value)
      (fun _ t => A (setWord m address value) t ∧ t.SelectedStopped) (fun _ _ => False) := by
  rintro t ⟨ht, htask⟩
  obtain ⟨task, hfind, hstopped⟩ := id htask
  have hentered := hheld.enter _ _ ht
  rw [Cosy.pokeWord, get_bind_apply, hreliable.ptrace hfind hstopped]
  refine ⟨?_, hreliable.enter htask⟩
  rw [← hheld.memory _ _ hentered]
  exact hheld.write _ _ _ hentered

theorem Held.pokeWords (hreliable : env.Reliable) (words : List (Address × Address)) :
    ∀ m, Triple (fun t => A m t ∧ t.SelectedStopped) (pokeWords env words)
      (fun _ t => A (setWords m words) t ∧ t.SelectedStopped) (fun _ _ => False) := by
  induction words with
  | nil => exact fun m => Triple.pure fun _ ht => ht
  | cons entry rest ih =>
      exact fun m => Triple.bind (hheld.pokeWord hreliable entry.1 entry.2) fun _ => ih _

/-- Through a thread that answers, bytes are written wherever they are. -/
theorem Held.writeBytes (hreliable : env.Reliable) {bytes : List Byte} (hbytes : bytes ≠ [])
    (hlength : bytes.length < 2 ^ 64) (address : Address) :
    Triple (fun t => A m t ∧ t.Answering env) (writeBytes env address bytes)
      (fun _ t => A (store m address bytes) t ∧ t.SelectedStopped) (fun _ _ => False) := by
  have hgather : Triple (fun t => A m t ∧ t.Answering env)
      (gatherWords env .empty address bytes)
      (fun words t => (A m t ∧ t.SelectedStopped) ∧
        (∀ k, words.contains k = true → aligned k = k) ∧ view words m = store m address bytes)
      (fun _ _ => False) := by
    rintro t ⟨ht, hanswering⟩
    have hspec := gatherWords_spec (hheld.watching m) bytes .empty address m True hlength t
      ⟨ht, fun _ => ⟨trivial, fun _ _ => rfl⟩⟩
    have hstopped := hreliable.gatherTrap hbytes address t hanswering
    cases hrun : gatherWords env .empty address bytes t with
    | error halt u => rwa [hrun] at hstopped
    | ok words u =>
        rw [hrun] at hspec hstopped
        obtain ⟨hu, hgathered, hview⟩ := hspec
        refine ⟨⟨hu, hstopped⟩, fun k hk => ?_, funext fun x => (hview trivial).2 (Set.mem_univ x)⟩
        rcases (hgathered k).mp hk with hempty | ⟨i, -, rfl⟩
        · simp [SortedMap.contains] at hempty
        · exact aligned_aligned _
  refine Triple.bind hgather fun words t ht => ?_
  have hpoke := hheld.pokeWords hreliable words.entries m t ht.1
  rwa [setWords_entries ht.2.1, ht.2.2] at hpoke

end Held

theorem writeBytes_whole (henv : env.Atomic arch) {bytes : List Byte}
    (hlength : bytes.length = arch.breakpointSize) (address : Address) :
    Triple (Requested s m) (writeBytes env address bytes)
      (fun _ => Requested s (store m address bytes)) (fun _ => Requested s m) := by
  have hle : arch.breakpointSize ≤ 8 := Nat.le_of_dvd (by decide) arch.breakpointSize_dvd
  have hbytes : bytes ≠ [] := by
    intro hnil
    have hpos := arch.breakpointSize_pos
    rw [← hlength, hnil] at hpos
    exact absurd hpos (by simp)
  rcases henv.whole with hsize | hreliable
  · have hword : ∀ i < bytes.length, aligned (address + BitVec.ofNat 64 i) = aligned address := by
      intro i hi
      obtain rfl : i = 0 := by omega
      simp
    refine (writeBytes_spec ((requested_held henv.still).watching m) True hbytes (by omega)
      hword).conseq
      (fun _ ht => ⟨ht, fun _ => trivial⟩) ?_ (fun _ _ ht => ht)
    rintro _ t ⟨u, w, hu, rfl, hput⟩
    exact ⟨funext fun x => (hput trivial).2 (Set.mem_univ x), hu.debugger, hu.log⟩
  · intro t ht
    by_cases hanswering : t.Answering env
    · have hwrite := (requested_held henv.still).writeBytes hreliable hbytes (by omega) address t
        ⟨ht, hanswering⟩
      cases hrun : writeBytes env address bytes t with
      | ok _ u =>
          rw [hrun] at hwrite
          exact hwrite.1
      | error halt u =>
          rw [hrun] at hwrite
          exact hwrite.elim
    · obtain ⟨halt, hrun⟩ := writeBytes_error hbytes hanswering address
      rw [hrun]
      exact ht.enter henv.still

/-! ### Records -/

/-- What `enable` or `disable` on a record does. -/
inductive Patching (arch : Architecture R D) (s : State R D) : State R D → Prop
  | requested {t : State R D} (ht : Requested s s.target.memory t) : Patching arch s t
  | enabled {t : State R D} {key : Address} {r : Breakpoint}
      (hr : s.debugger.breakpoints.find? key = some r) (hdisabled : r.enabled = false)
      (hmemory : t.target.memory = store s.target.memory key arch.breakpointInstruction)
      (hdebugger : t.debugger = s.debugger.withRecord key fun r =>
        r.armedWith (bytesAt s.target.memory key arch.breakpointSize))
      (hlog : ∃ events : List TargetEvent,
        t.log = events.map Entry.target ++ .arming key :: s.log) : Patching arch s t
  | abandoned {t : State R D} {key : Address} {r : Breakpoint}
      (hr : s.debugger.breakpoints.find? key = some r) (hdisabled : r.enabled = false)
      (hmemory : t.target.memory = s.target.memory)
      (hdebugger : t.debugger = s.debugger ∨ ∃ saved,
        t.debugger = s.debugger.withRecord key fun r => { r with saved := saved })
      (hlog : ∃ events : List TargetEvent,
        t.log = .disarmed key :: (events.map Entry.target ++ .arming key :: s.log)) :
      Patching arch s t
  | disabled {t : State R D} {key : Address} {r : Breakpoint}
      (hr : s.debugger.breakpoints.find? key = some r) (henabled : r.enabled = true)
      (hmemory : t.target.memory = store s.target.memory key r.saved)
      (hdebugger : t.debugger = s.debugger.withRecord key fun r => { r with enabled := false })
      (hlog : ∃ (events : List TargetEvent) (original : List Byte), t.log
        = .disarmed key :: .restored key r.saved original :: (events.map Entry.target ++ s.log)) :
      Patching arch s t

theorem Patching.log_suffix (hst : Patching arch s t) : s.log <:+ t.log := by
  cases hst with
  | requested ht =>
      obtain ⟨events, hevents⟩ := ht.log
      exact ⟨_, hevents.symm⟩
  | enabled _ _ _ _ hlog =>
      obtain ⟨events, hevents⟩ := hlog
      exact hevents ▸ (List.suffix_cons _ _).trans (List.suffix_append _ _)
  | abandoned _ _ _ _ hlog =>
      obtain ⟨events, hevents⟩ := hlog
      exact hevents ▸ ((List.suffix_cons _ _).trans (List.suffix_append _ _)).trans
        (List.suffix_cons _ _)
  | disabled _ _ _ _ hlog =>
      obtain ⟨events, original, hevents⟩ := hlog
      exact hevents ▸ ((List.suffix_append _ _).trans (List.suffix_cons _ _)).trans
        (List.suffix_cons _ _)

theorem insertTrap_whole (henv : env.Atomic arch) (key : Address) (s : State R D) :
    Triple (fun t => t = s) (insertTrap arch env key key)
      (fun _ t => t.target.memory = store s.target.memory key arch.breakpointInstruction ∧
        t.debugger = s.debugger.withRecord key (fun r =>
          r.armedWith (bytesAt s.target.memory key arch.breakpointSize)) ∧
        ∃ events : List TargetEvent, t.log = events.map Entry.target ++ s.log)
      (fun _ t => t.target.memory = s.target.memory ∧
        (t.debugger = s.debugger ∨ ∃ saved, t.debugger
          = s.debugger.withRecord key fun r => { r with saved := saved }) ∧
        ∃ events : List TargetEvent, t.log = events.map Entry.target ++ s.log) := by
  rw [insertTrap]
  refine Triple.bind (((requested_held henv.still).readBytes key arch.breakpointSize).conseq ?_
    (fun _ _ ht => ht) fun _ t ht => ⟨ht.memory, Or.inl ht.debugger, ht.log⟩) fun saved => ?_
  · rintro t rfl
    exact .refl t
  rintro t ⟨ht, rfl⟩
  rw [modifyBreakpoint, bind_apply, modifyDebugger_apply]
  -- The state after the bytes were saved in the record.
  let u := t.withRecord key fun r =>
    { r with saved := bytesAt s.target.memory key arch.breakpointSize }
  have hu : u.debugger = s.debugger.withRecord key fun r =>
      { r with saved := bytesAt s.target.memory key arch.breakpointSize } :=
    congrArg (fun d => Debugger.withRecord d key _) ht.debugger
  have hwrite := writeBytes_whole (s := u) (m := s.target.memory) henv
    arch.length_breakpointInstruction key
  have hbody : Triple (fun v => v = u) (do
        writeBytes env key arch.breakpointInstruction
        modifyBreakpoint key fun r => { r with enabled := true })
      (fun _ v => v.target.memory = store s.target.memory key arch.breakpointInstruction ∧
        v.debugger = s.debugger.withRecord key (fun r =>
          r.armedWith (bytesAt s.target.memory key arch.breakpointSize)) ∧
        ∃ events : List TargetEvent, v.log = events.map Entry.target ++ s.log)
      (fun _ v => v.target.memory = s.target.memory ∧
        (v.debugger = s.debugger ∨ ∃ saved, v.debugger
          = s.debugger.withRecord key fun r => { r with saved := saved }) ∧
        ∃ events : List TargetEvent, v.log = events.map Entry.target ++ s.log) := by
    have hlogs : ∀ {m v}, Requested u m v →
        ∃ events : List TargetEvent, v.log = events.map Entry.target ++ s.log := by
      intro m v hv
      obtain ⟨events, hevents⟩ := hv.log
      obtain ⟨events', hevents'⟩ := ht.log
      have hlog : u.log = events'.map Entry.target ++ s.log := hevents'
      exact ⟨events ++ events', by rw [hevents, hlog, List.map_append, List.append_assoc]⟩
    refine Triple.bind (hwrite.conseq ?_ (fun _ _ hv => hv) fun _ v hv =>
      ⟨hv.memory, Or.inr ⟨_, hv.debugger.trans hu⟩, hlogs hv⟩) fun _ v hv => ?_
    · rintro v rfl
      exact ⟨ht.memory, rfl, [], rfl⟩
    · refine ⟨hv.memory, ?_, (hlogs hv :)⟩
      change v.debugger.withRecord key _ = _
      rw [hv.debugger, hu, Debugger.withRecord_withRecord]
      rfl
  exact hbody u rfl

/-- A record that has been enabled has bytes to put back. -/
theorem WellFormed.not_isEmpty (hs : WellFormed arch s.debugger.breakpoints) {key : Address}
    {r : Breakpoint} (hr : s.debugger.breakpoints.find? key = some r) (henabled : r.enabled = true) :
    r.saved.isEmpty = false := by
  have hlength := (hs key r hr).2.2 henabled
  have hpos := arch.breakpointSize_pos
  rw [List.isEmpty_eq_false_iff]
  rintro hnil
  rw [hnil] at hlength
  simp at hlength
  omega

theorem enable_patching (henv : env.Atomic arch) (hs : WellFormed arch s.debugger.breakpoints)
    (key : Address) : Patching arch s (endState (enable arch env key) s) := by
  cases hr : s.debugger.breakpoints.find? key with
  | none =>
      rw [endState_of_ok (t := s) (by rw [enable, get_bind_apply, hr]; rfl)]
      exact .requested (.refl s)
  | some r =>
      obtain ⟨haddress, hpending, -⟩ := hs key r hr
      by_cases henabled : r.enabled = true
      · have hsaved := hs.not_isEmpty hr henabled
        have hrun : enable arch env key s = .ok ⟨⟩ s := by
          rw [enable, get_bind_apply, hr]
          simp [henabled, hsaved]
        rw [endState_of_ok hrun]
        exact .requested (.refl s)
      · have hdisabled : r.enabled = false := by simpa using henabled
        have hrun : enable arch env key s = onThrow (insertTrap arch env key key)
            (fun _ t => { t with log := .disarmed key :: t.log }) (s.logged (.arming key)) := by
          rw [enable, get_bind_apply, hr]
          simp only [hpending, hdisabled, Bool.false_and, Bool.or_false, Bool.false_eq_true,
            if_false, haddress]
          rfl
        have hinsert := insertTrap_whole henv key (s.logged (.arming key)) _ rfl
        rw [endState, hrun, onThrow]
        cases hinserted : insertTrap arch env key key (s.logged (.arming key)) with
        | ok a t =>
            rw [hinserted] at hinsert
            exact .enabled hr hdisabled hinsert.1 hinsert.2.1 hinsert.2.2
        | error halt t =>
            rw [hinserted] at hinsert
            obtain ⟨hmemory, hdebugger, events, hevents⟩ := hinsert
            exact .abandoned hr hdisabled hmemory hdebugger ⟨events, congrArg (List.cons _) hevents⟩

theorem disable_patching (henv : env.Atomic arch) (hs : WellFormed arch s.debugger.breakpoints)
    (key : Address) : Patching arch s (endState (disable env key) s) := by
  cases hr : s.debugger.breakpoints.find? key with
  | none =>
      rw [endState_of_ok (t := s) (by rw [disable, get_bind_apply, hr]; rfl)]
      exact .requested (.refl s)
  | some r =>
      obtain ⟨haddress, hpending, hlength⟩ := hs key r hr
      by_cases henabled : r.enabled = true
      · have hsaved := hs.not_isEmpty hr henabled
        have hrun : disable env key s = (do
            writeBytes env key r.saved
            let s ← get
            note (.restored key r.saved (bytesAt s.target.image key r.saved.length))
            modifyBreakpoint key fun r => { r with enabled := false }
            note (.disarmed key)) s := by
          rw [disable, get_bind_apply, hr]
          simp only [hpending, henabled, hsaved, Bool.not_true, Bool.or_false, Bool.false_eq_true,
            if_false, haddress]
        have hwrite := writeBytes_whole henv (hlength henabled) key s (.refl s)
        rw [endState, hrun]
        cases hwritten : writeBytes env key r.saved s with
        | ok a t =>
            rw [hwritten] at hwrite
            obtain ⟨events, hevents⟩ := hwrite.log
            rw [bind_ok hwritten]
            refine .disabled hr henabled hwrite.memory ?_
              ⟨events, bytesAt t.target.image key r.saved.length, ?_⟩
            · exact congrArg (fun d => Debugger.withRecord d key _) hwrite.debugger
            · rw [← hevents]
              rfl
        | error halt t =>
            rw [hwritten] at hwrite
            rw [bind_error hwritten]
            exact .requested hwrite
      · have hrun : disable env key s = .ok ⟨⟩ s := by
          rw [disable, get_bind_apply, hr]
          simp [henabled]
        rw [endState_of_ok hrun]
        exact .requested (.refl s)

end Cosy
