import Cosy.Consumers
import Cosy.Whole

/-!
# Bytes through words

`read_bytes` and `write_bytes` reach memory one aligned word at a time. Here they are written out
request by request: `write_bytes` reads each word that its bytes lie in once, and then writes each of
them once, as it stands in the memory with the bytes stored.
-/

namespace Cosy

open ByteMemory Effect

variable {R D : Type} {env : Environment R D} {s t : State R D} {m : Memory}

/-- The request that reads a word, for what it does. -/
def peek (env : Environment R D) (key : Address) : Dbg R D Unit := do
  let _ ← readWord env key

/-- The words that `n` bytes from `address` on lie in, byte by byte. -/
def touched (address : Address) (n : Nat) : List Address :=
  (List.range n).map fun i => aligned (address + BitVec.ofNat 64 i)

theorem mem_touched {address key : Address} {n : Nat} :
    key ∈ touched address n ↔ ∃ i < n, aligned (address + BitVec.ofNat 64 i) = key := by
  simp [touched]

theorem touched_succ (address : Address) (n : Nat) :
    touched address (n + 1) = aligned address :: touched (address + 1) n := by
  unfold touched
  rw [List.range_succ_eq_map, List.map_cons, List.map_map]
  congr 1
  · simp
  · exact List.map_congr_left fun i _ => congrArg aligned (add_one_add_ofNat address i).symm

section Still

variable (henv : env.WritesNothing)

include henv

theorem peek_keeps (key : Address) : Within (Keeps fun s => s.target.memory = m) (peek env key) := by
  refine Within.bind (Within.get_bind fun s hs => ?_) fun _ => .pure _
  have henter : (env.enter s).target.memory = m := (henv.memory s.tick s.target).trans hs
  unfold endState
  rcases ptrace_cases env "PTRACE_PEEKDATA" s.debugger.selectedTid
      (fun _ target => (word target.memory key, target)) s with ⟨task, -, -, -, hrun⟩ | ⟨-, hrun⟩
  all_goals
    rw [hrun]
    exact henter

theorem peeks_keep (keys : List Address) :
    Within (Keeps fun s => s.target.memory = m) (keys.forM (peek env)) :=
  .forM keys fun key _ => peek_keeps henv key

theorem readWord_eq (hs : s.target.memory = m) (key : Address) :
    readWord env key s = (peek env key >>= fun _ => pure (word m key)) s := by
  have henter : (env.enter s).target.memory = m := (henv.memory s.tick s.target).trans hs
  unfold peek
  simp only [readWord, bind_apply, get_apply]
  rcases ptrace_cases env "PTRACE_PEEKDATA" s.debugger.selectedTid
      (fun _ target => (word target.memory key, target)) s with ⟨task, -, -, -, hrun⟩ | ⟨-, hrun⟩
  · rw [hrun, henter]
    rfl
  · rw [hrun]

/-- A word is read, and the rest goes on with what stands in memory. -/
theorem readWord_bind_eq {α : Type} (hs : s.target.memory = m) (key : Address)
    (f : Address → Dbg R D α) :
    (readWord env key >>= f) s = (peek env key >>= fun _ => f (word m key)) s := by
  rw [bind_apply, readWord_eq henv hs, ← bind_apply, bind_assoc]
  rfl

theorem readBytes_eq (n : Nat) : ∀ {s : State R D} {address : Address}, s.target.memory = m →
    readBytes env address n s
      = ((touched address n).forM (peek env) >>= fun _ => pure (bytesAt m address n)) s := by
  induction n with
  | zero => exact fun _ => rfl
  | succ n ih =>
      intro s address hs
      have hbyte : byteOf (word m (aligned address)) (offset address) = m address :=
        byteOf_word_aligned m address
      calc readBytes env address (n + 1) s
          = (peek env (aligned address) >>= fun _ => readBytes env (address + 1) n >>= fun rest =>
              pure (m address :: rest)) s := by
            rw [readBytes, readWord_bind_eq henv hs, hbyte]
        _ = (peek env (aligned address) >>= fun _ =>
              ((touched (address + 1) n).forM (peek env) >>= fun _ =>
                pure (bytesAt m (address + 1) n)) >>= fun rest => pure (m address :: rest)) s := by
            refine bind_congr_of_ok fun _ t hpeek => ?_
            rw [bind_apply, ih ((peek_keeps henv _).of_ok hpeek hs), ← bind_apply]
        _ = ((touched address (n + 1)).forM (peek env) >>= fun _ =>
              pure (bytesAt m address (n + 1))) s := by
            rw [touched_succ]
            change _ = ((peek env (aligned address) >>= fun _ =>
              (touched (address + 1) n).forM (peek env)) >>= fun _ => _) s
            rw [bind_assoc]
            simp only [bind_assoc, pure_bind]
            rfl

/-! ### Gathering -/

/-- The words that are read are those among the touched ones that were not there, each once. -/
theorem coverWord_eq (words : SortedMap Address Address) (address : Address) :
    ∃ (reads : List Address) (w : Address),
      (∀ key, key ∈ reads ↔ words.contains key = false ∧ key = aligned address) ∧ reads.Nodup ∧
      (∀ x, aligned x = aligned address → byteOf w (offset x) = view words m x) ∧
      ∃ words', words'.find? (aligned address) = some w ∧
        (∀ w', words'.insert (aligned address) w' = words.insert (aligned address) w') ∧
        ∀ s : State R D, s.target.memory = m → coverWord env words (aligned address) s
          = (reads.forM (peek env) >>= fun _ => pure words') s := by
  cases hfind : words.find? (aligned address) with
  | some w =>
      have hcontains : words.contains (aligned address) = true :=
        SortedMap.contains_eq_true_iff.mpr ⟨w, hfind⟩
      refine ⟨[], w, ?_, List.nodup_nil, ?_, words, hfind, fun _ => rfl, ?_⟩
      · rintro key
        simp only [List.not_mem_nil, false_iff, not_and]
        rintro hnot rfl
        rw [hcontains] at hnot
        cases hnot
      · intro x hx
        simp only [view, hx, hfind]
      · intro s _
        rw [coverWord, if_pos hcontains]
        rfl
  | none =>
      have hcontains : words.contains (aligned address) = false :=
        SortedMap.contains_eq_false_iff.mpr hfind
      refine ⟨[aligned address], word m (aligned address), ?_, List.nodup_singleton _, ?_,
        words.insert (aligned address) (word m (aligned address)),
        SortedMap.find?_insert_self _ _ _, fun w' => SortedMap.insert_insert_self _ _ _ _, ?_⟩
      · intro key
        rw [List.mem_singleton]
        exact ⟨fun heq => ⟨heq ▸ hcontains, heq⟩, fun hkey => hkey.2⟩
      · intro x hx
        simp only [view, hx, hfind]
        rw [← hx]
        exact byteOf_word_aligned m x
      · intro s hs
        rw [coverWord, hcontains, if_neg Bool.false_ne_true, readWord_bind_eq henv hs,
          SortedMap.emplace_of_find?_none _ hfind]
        change _ = ((peek env (aligned address) >>= fun _ => pure PUnit.unit) >>= fun _ => _) s
        rw [bind_assoc]
        rfl

theorem gatherWords_eq (bytes : List Byte) :
    ∀ (words : SortedMap Address Address) (address : Address), bytes.length ≤ 2 ^ 64 →
      ∃ (reads : List Address) (words' : SortedMap Address Address), reads.Nodup ∧
        (∀ key, key ∈ reads ↔
          words.contains key = false ∧ key ∈ touched address bytes.length) ∧
        Gathered words address bytes words' ∧
        view words' m = store (view words m) address bytes ∧
        ∀ s : State R D, s.target.memory = m → gatherWords env words address bytes s
          = (reads.forM (peek env) >>= fun _ => pure words') s := by
  induction bytes with
  | nil =>
      intro words address _
      refine ⟨[], words, List.nodup_nil, ?_, fun key => by simp, (store_nil _ _).symm,
        fun s _ => rfl⟩
      simp [touched]
  | cons byte rest ih =>
      intro words address hlength
      rw [List.length_cons] at hlength
      obtain ⟨first, w, hfirst, hnodup, hbytes, covered, hfind, hinsert, hcover⟩ :=
        coverWord_eq henv (m := m) words address
      have hmodify : covered.modify (aligned address) (fun value =>
          putByte value (offset address) byte)
            = words.insert (aligned address) (putByte w (offset address) byte) := by
        rw [SortedMap.modify_of_find? _ hfind, hinsert]
      obtain ⟨later, words', hnodup', hlater, hgathered, hview, hgather⟩ :=
        ih (words.insert (aligned address) (putByte w (offset address) byte)) (address + 1)
          (by omega)
      have hcontains : ∀ key, (words.insert (aligned address)
          (putByte w (offset address) byte)).contains key = false
            ↔ key ≠ aligned address ∧ words.contains key = false := by
        intro key
        rw [SortedMap.contains_insert, Bool.or_eq_false_iff, decide_eq_false_iff_not]
      refine ⟨first ++ later, words', ?_, ?_, hgathered.cons, ?_, fun s hs => ?_⟩
      · refine List.Nodup.append hnodup hnodup' fun key hkey hkey' => ?_
        exact ((hcontains key).mp ((hlater key).mp hkey').1).1 ((hfirst key).mp hkey).2
      · intro key
        rw [List.mem_append, hfirst, hlater, hcontains, List.length_cons, touched_succ,
          List.mem_cons]
        by_cases hkey : key = aligned address
        · simp [hkey]
        · simp [hkey]
      · rw [hview]
        have hupdate : view (words.insert (aligned address) (putByte w (offset address) byte)) m
            = Function.update (view words m) address byte :=
          funext fun x => view_insert_putByte byte fun hx => hbytes x hx
        rw [hupdate]
        exact store_cons _ _ _ _ hlength
      · calc gatherWords env words address (byte :: rest) s
            = (coverWord env words (aligned address) >>= fun words => gatherWords env
                (words.modify (aligned address) fun value => putByte value (offset address) byte)
                (address + 1) rest) s := rfl
          _ = (first.forM (peek env) >>= fun _ => gatherWords env
                (words.insert (aligned address) (putByte w (offset address) byte))
                (address + 1) rest) s := by
              rw [bind_apply, hcover s hs, ← bind_apply, bind_assoc]
              simp only [pure_bind, hmodify]
          _ = (first.forM (peek env) >>= fun _ =>
                later.forM (peek env) >>= fun _ => pure words') s :=
              bind_congr_of_ok fun _ t hreads =>
                hgather t ((peeks_keep henv first).of_ok hreads hs)
          _ = ((first ++ later).forM (peek env) >>= fun _ => pure words') s := by
              simp only [List.forM_eq_forM, List.forM_append, bind_assoc]

/-! ### Writing -/

theorem pokeWords_ok (words : List (Address × Address)) (hs : s.target.memory = m)
    (hrun : pokeWords env words s = .ok ⟨⟩ t) : t.target.memory = setWords m words := by
  induction words generalizing s m with
  | nil =>
      obtain ⟨-, rfl⟩ := EStateM.Result.ok.inj hrun
      exact hs
  | cons entry rest ih =>
      obtain ⟨_, u, hpoke, hrest⟩ := of_bind_ok hrun
      refine ih ?_ hrest
      have henter : (env.enter s).target.memory = m := (henv.memory s.tick s.target).trans hs
      have hpoke : pokeWord env entry.1 entry.2 s = .ok ⟨⟩ u := hpoke
      rw [pokeWord, get_bind_apply] at hpoke
      rcases ptrace_cases env "PTRACE_POKEDATA" s.debugger.selectedTid (fun _ target =>
          (PUnit.unit, { target with memory := setWord target.memory entry.1 entry.2 })) s with
        ⟨task, -, -, -, hok⟩ | ⟨-, herror⟩
      · obtain ⟨-, rfl⟩ := EStateM.Result.ok.inj (hok.symm.trans hpoke)
        exact congrArg (setWord · entry.1 entry.2) henter
      · cases herror.symm.trans hpoke

end Still

/-- The requests of a `write_bytes`: each word that the bytes lie in is read once and written once. -/
structure WritePlan (address : Address) (bytes : List Byte) where
  reads : List Address
  writes : List Address
  reads_nodup : reads.Nodup
  mem_reads : ∀ key, key ∈ reads ↔ key ∈ touched address bytes.length
  writes_sorted : writes.Pairwise (· < ·)
  mem_writes : ∀ key, key ∈ writes ↔ key ∈ touched address bytes.length

/-- All the reads, and then the words as they stand in the memory with the bytes stored. -/
def WritePlan.run (env : Environment R D) (m : Memory) {address : Address} {bytes : List Byte}
    (plan : WritePlan address bytes) : Dbg R D Unit := do
  plan.reads.forM (peek env)
  plan.writes.forM fun key => pokeWord env key (word (store m address bytes) key)

section Still

variable (henv : env.WritesNothing)

include henv

omit henv in
theorem pokeWords_eq {value : Address → Address} {words : List (Address × Address)}
    (hvalue : ∀ entry ∈ words, entry.2 = value entry.1) :
    pokeWords env words = (words.map Prod.fst).forM fun key => pokeWord env key (value key) := by
  induction words with
  | nil => rfl
  | cons entry rest ih =>
      obtain ⟨hentry, hrest⟩ := List.forall_mem_cons.mp hvalue
      calc pokeWords env (entry :: rest)
          = (pokeWord env entry.1 entry.2 >>= fun _ => pokeWords env rest) := rfl
        _ = _ := by
            rw [hentry, ih hrest]
            rfl

theorem exists_writePlan {address : Address} {bytes : List Byte} (hlength : bytes.length ≤ 2 ^ 64)
    (m : Memory) : ∃ plan : WritePlan address bytes, ∀ s : State R D, s.target.memory = m →
      writeBytes env address bytes s = plan.run env m s ∧
      ∀ t, writeBytes env address bytes s = .ok ⟨⟩ t →
        t.target.memory = store m address bytes := by
  obtain ⟨reads, words, hnodup, hreads, hgathered, hview, hgather⟩ :=
    gatherWords_eq henv (m := m) bytes .empty address hlength
  have hcontains : ∀ key, words.contains key = true ↔ key ∈ touched address bytes.length := by
    intro key
    rw [hgathered key, mem_touched]
    simp [SortedMap.contains_empty, eq_comm]
  have haligned : ∀ key, words.contains key = true → aligned key = key := by
    intro key hkey
    obtain ⟨i, -, rfl⟩ := mem_touched.mp ((hcontains key).mp hkey)
    exact aligned_aligned _
  have hword : ∀ entry ∈ words.entries, entry.2 = word (store m address bytes) entry.1 := by
    intro entry hentry
    have hfind := SortedMap.mem_entries_iff.mp hentry
    rw [← hview.trans (congrArg (store · address bytes) (view_empty m))]
    exact eq_word_view hfind
      (haligned _ (SortedMap.contains_eq_true_iff.mpr ⟨entry.2, hfind⟩)) m
  refine ⟨{ reads, writes := words.entries.map Prod.fst, reads_nodup := hnodup
            mem_reads := fun key => by simp [hreads, SortedMap.contains_empty]
            writes_sorted := List.pairwise_map.mpr words.sorted
            mem_writes := fun key => ?_ }, fun s hs => ⟨?_, fun t hrun => ?_⟩⟩
  · rw [← hcontains, SortedMap.contains_eq_true_iff, List.mem_map]
    simp [SortedMap.mem_entries_iff]
  · calc writeBytes env address bytes s
        = (reads.forM (peek env) >>= fun _ => pokeWords env words.entries) s := by
          rw [writeBytes, bind_apply, hgather s hs, ← bind_apply, bind_assoc]
          simp only [pure_bind]
      _ = _ := by rw [pokeWords_eq hword, WritePlan.run]
  · obtain ⟨words', u, hgathers, hpoke⟩ := of_bind_ok hrun
    rw [hgather s hs] at hgathers
    obtain ⟨_, v, hread, hpure⟩ := of_bind_ok hgathers
    obtain ⟨rfl, rfl⟩ := EStateM.Result.ok.inj hpure
    have hv : v.target.memory = m := (peeks_keep henv reads).of_ok hread hs
    rw [pokeWords_ok henv _ hv hpoke, setWords_entries haligned, hview, view_empty]

/-- Bytes that were written are read back and no other byte is changed; each word that they lie in is
read once, before any is written, and written once. A read that fails changes nothing. And what is
read is what stands in memory. -/
theorem byte_access (address : Address) {bytes : List Byte} (hlength : bytes.length ≤ 2 ^ 64)
    (s : State R D) :
    (∃ plan : WritePlan address bytes,
      writeBytes env address bytes s = plan.run env s.target.memory s ∧
      ∀ halt t, (plan.reads.forM (peek env)) s = .error halt t →
        writeBytes env address bytes s = .error halt t ∧ t.target.memory = s.target.memory) ∧
    (∀ t, writeBytes env address bytes s = .ok ⟨⟩ t →
      (∀ x, bytes.length ≤ (x - address).toNat → t.target.memory x = s.target.memory x) ∧
      readBytes env address bytes.length t
        = ((touched address bytes.length).forM (peek env) >>= fun _ => pure bytes) t) ∧
    ∀ n, ∃ read : List Byte, read.length = n ∧
      (∀ i < n, read[i]? = some (s.target.memory (address + BitVec.ofNat 64 i))) ∧
      readBytes env address n s = ((touched address n).forM (peek env) >>= fun _ => pure read) s := by
  obtain ⟨plan, hplan⟩ := exists_writePlan henv hlength s.target.memory
  obtain ⟨heq, hmemory⟩ := hplan s rfl
  refine ⟨⟨plan, heq, fun halt t hread => ?_⟩, fun t hrun => ⟨fun x hx => ?_, ?_⟩, fun n => ?_⟩
  · rw [heq, WritePlan.run, bind_apply, hread]
    exact ⟨rfl, (peeks_keep henv plan.reads).of_error hread rfl⟩
  · rw [hmemory t hrun, store, if_neg (Nat.not_lt_of_le hx)]
  · rw [readBytes_eq henv _ rfl, hmemory t hrun, bytesAt_store _ _ _ hlength]
  · refine ⟨bytesAt s.target.memory address n, length_bytesAt _ _ _, fun i hi => ?_,
      readBytes_eq henv n rfl⟩
    have hi' : i < (bytesAt s.target.memory address n).length := by rwa [length_bytesAt]
    rw [List.getElem?_eq_getElem hi', ← List.getD_eq_getElem _ 0 hi', getD_bytesAt _ hi]

end Still

/-- Four bytes in two words, the last two of them at the bottom of memory. -/
theorem byte_access_wraps :
    let s := (State.initial 1 (nopTarget 1)).withDebugger { Debugger.fresh 1 with selectedTid := 1 }
    ∃ t, writeBytes (nopMachine fun _ => []) 0xfffffffffffffffe [1, 2, 3, 4] s = .ok ⟨⟩ t ∧
      (∀ x, 4 ≤ (x - 0xfffffffffffffffe).toNat → t.target.memory x = s.target.memory x) ∧
      readBytes (nopMachine fun _ => []) 0xfffffffffffffffe 4 t
        = ((touched 0xfffffffffffffffe 4).forM (peek (nopMachine fun _ => [])) >>= fun _ =>
            pure [1, 2, 3, 4]) t := by
  intro s
  have hquiet : (nopMachine fun _ => []).WritesNothing :=
    ⟨fun _ _ => rfl, fun _ _ => rfl, fun _ _ _ hmem => by cases hmem⟩
  have hthread : s.SelectedStopped := ⟨stoppedTask 0x1000, rfl, rfl⟩
  have hreliable := nopMachine_calm.reliable
  obtain ⟨_, t, hrun, -⟩ := ((requested_held hquiet).writeBytes hreliable
    (List.cons_ne_nil 1 [2, 3, 4]) (by decide) 0xfffffffffffffffe).exists_ok
    ⟨Requested.refl s, hreliable.answering hthread⟩
  exact ⟨t, hrun, (byte_access hquiet _ (by decide) s).2.1 t hrun⟩

end Cosy
