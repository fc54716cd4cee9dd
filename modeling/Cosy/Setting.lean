import Cosy.Atomicity
import Cosy.Whole

/-!
# Setting a breakpoint

`create_breakpoint` puts the record into the table first and its trap into memory afterwards. Two
things follow. When the trap cannot be inserted the record is there all the same, and when there is
a record already its number is handed out again without a look at whether it is armed.
-/

namespace Cosy

open ByteMemory Effect

variable {R D : Type} {arch : Architecture R D} {env : Environment R D}

/-! ### What has been written is there -/

/-- The words say that the byte at `x` is `byte`. -/
def Carries (words : SortedMap Address Address) (x : Address) (byte : Byte) : Prop :=
  ∃ w, words.find? (aligned x) = some w ∧ byteOf w (offset x) = byte

/-- Putting a byte into its word changes no other byte that is carried. -/
theorem Carries.putByte {words : SortedMap Address Address} {a w x : Address} {byte byte' : Byte}
    (hw : words.find? (aligned a) = some w) (hx : Carries words x byte) (hne : x ≠ a) :
    Carries (words.modify (aligned a) fun value => putByte value (offset a) byte') x byte := by
  obtain ⟨w', hw', hbyte⟩ := hx
  by_cases haligned : aligned x = aligned a
  · rw [haligned, hw] at hw'
    obtain rfl := Option.some.inj hw'
    refine ⟨_, by rw [haligned, SortedMap.find?_modify_self, hw]; rfl, ?_⟩
    rw [byteOf_putByte _ _ (offset_lt a) (offset_lt x), if_neg, hbyte]
    exact fun hoffset => hne (eq_of_aligned_of_offset haligned hoffset)
  · exact ⟨w', by rw [SortedMap.find?_modify_of_ne _ _ haligned, hw'], hbyte⟩

theorem carries_putByte {words : SortedMap Address Address} {a w : Address} (byte : Byte)
    (hw : words.find? (aligned a) = some w) :
    Carries (words.modify (aligned a) fun value => putByte value (offset a) byte) a byte := by
  refine ⟨_, by rw [SortedMap.find?_modify_self, hw]; rfl, ?_⟩
  rw [byteOf_putByte _ _ (offset_lt a) (offset_lt a), if_pos rfl]

theorem coverWord_carries (words : SortedMap Address Address) (key : Address) {s t : State R D}
    {words' : SortedMap Address Address} (hrun : coverWord env words key s = .ok words' t) :
    (∃ w, words'.find? key = some w) ∧ ∀ x byte, Carries words x byte → Carries words' x byte := by
  unfold coverWord at hrun
  split at hrun
  · rename_i hcontains
    injection hrun with hwords
    subst hwords
    exact ⟨SortedMap.contains_eq_true_iff.mp hcontains, fun _ _ hx => hx⟩
  · rename_i hcontains
    have hnone : words.find? key = none :=
      SortedMap.contains_eq_false_iff.mp (Bool.eq_false_iff.mpr hcontains)
    obtain ⟨value, u, -, hpure⟩ := of_bind_ok hrun
    injection hpure with hwords
    subst hwords
    rw [SortedMap.emplace_of_find?_none value hnone]
    refine ⟨⟨value, SortedMap.find?_insert_self _ _ _⟩, ?_⟩
    rintro x byte ⟨w, hw, hbyte⟩
    have hne : aligned x ≠ key := by
      rintro rfl
      rw [hnone] at hw
      cases hw
    exact ⟨w, by rw [SortedMap.find?_insert_of_ne _ _ hne, hw], hbyte⟩

theorem add_ofNat_ne {a x : Address} {i : Nat} (hi : i + 1 < 2 ^ 64)
    (hx : x = a + 1 + BitVec.ofNat 64 i) : x ≠ a := by
  rw [add_one_add_ofNat] at hx
  rintro rfl
  have hdiff := add_sub_toNat x hi
  rw [← hx, BitVec.sub_self] at hdiff
  exact absurd hdiff (by simp)

/-- The words gathered carry the bytes that are to be written, and whatever other bytes they carried
before. -/
theorem gatherWords_carries (bytes : List Byte) :
    ∀ (words words' : SortedMap Address Address) (a : Address) (s t : State R D),
      bytes.length < 2 ^ 64 → gatherWords env words a bytes s = .ok words' t →
      (∀ x byte, Carries words x byte → (∀ i < bytes.length, x ≠ a + BitVec.ofNat 64 i) →
        Carries words' x byte) ∧
      ∀ i (hi : i < bytes.length), Carries words' (a + BitVec.ofNat 64 i) bytes[i] := by
  induction bytes with
  | nil =>
      intro words words' a s t _ hrun
      injection hrun with hwords
      subst hwords
      exact ⟨fun _ _ hx _ => hx, fun i hi => absurd hi (Nat.not_lt_zero i)⟩
  | cons byte rest ih =>
      intro words words' a s t hlength hrun
      rw [List.length_cons] at hlength
      obtain ⟨covered, u, hcover, hrest⟩ := of_bind_ok hrun
      obtain ⟨⟨w, hw⟩, hkept⟩ := coverWord_carries words (aligned a) hcover
      obtain ⟨hothers, hwritten⟩ := ih _ words' (a + 1) u t (by omega) hrest
      constructor
      · intro x byte' hx hne
        have hxa : x ≠ a := by simpa using hne 0 (Nat.zero_lt_succ _)
        refine hothers x byte' ((hkept x byte' hx).putByte hw hxa) fun i hi => ?_
        rw [add_one_add_ofNat]
        exact hne (i + 1) (Nat.succ_lt_succ hi)
      · intro i hi
        cases i with
        | zero =>
            have hfirst := hothers a byte (carries_putByte byte hw) fun i hi heq =>
              add_ofNat_ne (by omega) heq rfl
            simpa using hfirst
        | succ i =>
            rw [← add_one_add_ofNat, List.getElem_cons_succ]
            exact hwritten i (Nat.lt_of_succ_lt_succ hi)

/-- The environment leaves the byte at `x` as it is. -/
def Environment.LeavesByte (env : Environment R D) (x : Address) : Prop :=
  ∀ tick target, (env.interfere tick target).2.memory x = target.memory x

theorem pokeWord_memory {key value : Address} {s t : State R D}
    (hrun : pokeWord env key value s = .ok ⟨⟩ t) :
    t.target.memory = setWord (env.enter s).target.memory key value := by
  rw [pokeWord, get_bind_apply] at hrun
  rcases ptrace_cases env "PTRACE_POKEDATA" s.debugger.selectedTid
      (fun _ target => (PUnit.unit, { target with memory := setWord target.memory key value })) s with
    ⟨task, -, -, -, hok⟩ | ⟨-, herror⟩
  · rw [hok] at hrun
    injection hrun with _ hstate
    rw [← hstate]
  · rw [herror] at hrun
    cases hrun

/-- Words written one after the other leave alone a byte that is in none of them. -/
theorem pokeWords_apart {x : Address} (hleaves : env.LeavesByte x) (words : List (Address × Address)) :
    ∀ s t : State R D, (∀ entry ∈ words, aligned entry.1 = entry.1 ∧ aligned x ≠ entry.1) →
      pokeWords env words s = .ok ⟨⟩ t → t.target.memory x = s.target.memory x := by
  induction words with
  | nil =>
      intro s t _ hrun
      injection hrun with _ hstate
      rw [hstate]
  | cons entry rest ih =>
      intro s t hwords hrun
      obtain ⟨_, u, hpoke, hrest⟩ := of_bind_ok hrun
      obtain ⟨haligned, hapart⟩ := hwords entry List.mem_cons_self
      calc t.target.memory x
          = u.target.memory x := ih u t (fun entry hmem => hwords entry (List.mem_cons_of_mem _ hmem)) hrest
        _ = (env.enter s).target.memory x := by
          rw [pokeWord_memory hpoke, setWord_apply _ haligned, if_neg hapart]
        _ = s.target.memory x := hleaves _ _

/-- Among words written one after the other, a byte is that of its own word; the later words are
written while the environment leaves it alone, if there are any. -/
theorem pokeWords_byte {x w : Address} (words : List (Address × Address)) :
    ∀ s t : State R D, words.Pairwise (fun entry entry' => entry.1 < entry'.1) →
      (∀ entry ∈ words, aligned entry.1 = entry.1) → (aligned x, w) ∈ words →
      (words.length = 1 ∨ env.LeavesByte x) → pokeWords env words s = .ok ⟨⟩ t →
      t.target.memory x = byteOf w (offset x) := by
  induction words with
  | nil => exact fun s t _ _ hmem => absurd hmem List.not_mem_nil
  | cons entry rest ih =>
      intro s t hsorted haligned hmem hquiet hrun
      obtain ⟨_, u, hpoke, hrest⟩ := of_bind_ok hrun
      obtain ⟨hfirst, hsorted⟩ := List.pairwise_cons.mp hsorted
      have hrestAligned : ∀ entry ∈ rest, aligned entry.1 = entry.1 :=
        fun entry hmem => haligned entry (List.mem_cons_of_mem _ hmem)
      rcases List.mem_cons.mp hmem with rfl | hmem
      · have hu : u.target.memory x = byteOf w (offset x) := by
          rw [pokeWord_memory hpoke, setWord_apply _ (aligned_aligned x), if_pos rfl]
        rcases hquiet with hone | hleaves
        · obtain rfl : rest = [] := by simpa using hone
          injection hrest with _ hstate
          rw [← hstate, hu]
        · rw [pokeWords_apart hleaves rest u t (fun entry hmem => ⟨hrestAligned entry hmem, ?_⟩) hrest, hu]
          exact (hfirst entry hmem).ne
      · refine ih u t hsorted hrestAligned hmem ?_ hrest
        rcases hquiet with hone | hleaves
        · obtain rfl : rest = [] := by simpa using hone
          cases hmem
        · exact Or.inr hleaves

/-- The bytes from `address` lie in one word, or nothing but the debugger writes them. -/
def Environment.Spares (env : Environment R D) (address : Address) (size : Nat) : Prop :=
  (∀ i < size, aligned (address + BitVec.ofNat 64 i) = aligned address) ∨
    ∀ i < size, env.LeavesByte (address + BitVec.ofNat 64 i)

theorem Environment.spares_one (env : Environment R D) (address : Address) : env.Spares address 1 := by
  refine Or.inl fun i hi => ?_
  obtain rfl : i = 0 := by omega
  simp

/-- `write_bytes` has written what it was to write, if it returns. -/
theorem writeBytes_bytesAt {address : Address} {bytes : List Byte} {s t : State R D}
    (hlength : bytes.length < 2 ^ 64) (hspares : env.Spares address bytes.length)
    (hrun : writeBytes env address bytes s = .ok ⟨⟩ t) :
    bytesAt t.target.memory address bytes.length = bytes := by
  obtain ⟨words, u, hgather, hpoke⟩ := of_bind_ok hrun
  obtain ⟨-, hcarries⟩ := gatherWords_carries bytes _ words address s u hlength hgather
  have hwatch : Watching env (fun _ => True) (fun _ => True) ∅ fun _ => 0 :=
    ⟨fun _ _ => trivial, fun _ _ _ => trivial, fun _ _ _ => Set.eqOn_empty _ _⟩
  have hgathered : Gathered .empty address bytes words :=
    ((gatherWords_spec hwatch bytes .empty address (fun _ => 0) True hlength).of_ok
      ⟨trivial, fun _ => ⟨trivial, Set.eqOn_empty _ _⟩⟩ hgather).2.1
  have hkeys : ∀ entry ∈ words.entries,
      ∃ i < bytes.length, entry.1 = aligned (address + BitVec.ofNat 64 i) := by
    intro entry hmem
    have hcontains : words.contains entry.1 = true :=
      SortedMap.contains_eq_true_iff.mpr ⟨entry.2, SortedMap.mem_entries_iff.mp hmem⟩
    rcases (hgathered entry.1).mp hcontains with hempty | hbyte
    · exact absurd hempty (by simp [SortedMap.contains])
    · exact hbyte
  apply List.ext_getElem (length_bytesAt _ _ _)
  intro i hi hi'
  obtain ⟨w, hw, hbyte⟩ := hcarries i hi'
  rw [← List.getD_eq_getElem _ 0 hi, getD_bytesAt _ hi', ← hbyte]
  refine pokeWords_byte words.entries u t words.sorted (fun entry hmem => ?_)
    (SortedMap.mem_entries_iff.mpr hw) ?_ hpoke
  · obtain ⟨j, -, hj⟩ := hkeys entry hmem
    rw [hj, aligned_aligned]
  · rcases hspares with hword | hleaves
    · refine Or.inl ?_
      rw [hword i hi'] at hw
      rw [SortedMap.entries_eq_singleton hw fun key hkey => ?_]
      · rfl
      · obtain ⟨value, hvalue⟩ := SortedMap.contains_eq_true_iff.mp hkey
        obtain ⟨j, hj, hkey⟩ := hkeys (key, value) (SortedMap.mem_entries_iff.mpr hvalue)
        exact hkey.trans (hword j hj)
    · exact Or.inr (hleaves i hi')

/-! ### A breakpoint that is announced -/

/-- The trap of this address is in memory. -/
def State.TrapAt (arch : Architecture R D) (s : State R D) (address : Address) : Prop :=
  bytesAt s.target.memory address arch.breakpointSize = arch.breakpointInstruction

/-- The record with this number is at this address, it is enabled, and its trap is in memory. -/
def State.ArmedAt (arch : Architecture R D) (s : State R D) (id : Int) (address : Address) : Prop :=
  ∃ r, s.debugger.breakpoints.find? address = some r ∧ r.id = id ∧ r.enabled = true ∧
    s.TrapAt arch address

theorem insertTrap_trapAt {key address : Address} {s t : State R D}
    (hspares : env.Spares address arch.breakpointSize)
    (hrun : insertTrap arch env key address s = .ok ⟨⟩ t) : t.TrapAt arch address := by
  obtain ⟨saved, u, -, hrun⟩ := of_bind_ok hrun
  obtain ⟨_, v, -, hrun⟩ := of_bind_ok hrun
  obtain ⟨_, w, hwrite, hflag⟩ := of_bind_ok hrun
  injection hflag with _ hstate
  subst hstate
  have hle : arch.breakpointSize ≤ 8 := Nat.le_of_dvd (by decide) arch.breakpointSize_dvd
  have hlength := arch.length_breakpointInstruction
  have hwritten := writeBytes_bytesAt (by omega) (hlength.symm ▸ hspares) hwrite
  rw [hlength] at hwritten
  exact hwritten

/-- `enable` arms a record that is disabled, unless it throws. -/
theorem enable_armed {key : Address} {r : Breakpoint} {s t : State R D}
    (hspares : env.Spares key arch.breakpointSize)
    (hr : s.debugger.breakpoints.find? key = some r) (haddress : r.address = key)
    (hpending : r.pending = false) (hdisabled : r.enabled = false)
    (hrun : enable arch env key s = .ok ⟨⟩ t) : t.ArmedAt arch r.id key := by
  obtain ⟨saved, hdebugger⟩ := (enable_debugger hr hpending hdisabled).of_ok rfl hrun
  rw [enable, get_bind_apply, hr] at hrun
  simp only [hpending, hdisabled, Bool.false_and, Bool.or_false, Bool.false_eq_true, if_false,
    haddress] at hrun
  obtain ⟨_, u, -, hinsert⟩ := of_bind_ok hrun
  refine ⟨r.armedWith saved, ?_, rfl, rfl, insertTrap_trapAt hspares (of_onThrow_ok hinsert)⟩
  rw [hdebugger, Debugger.withRecord, SortedMap.find?_modify_self, hr]
  rfl

theorem noteUserEnabled_armedAt {key address : Address} {id : Int} {s t : State R D}
    (hs : s.ArmedAt arch id address) (hrun : noteUserEnabled key s = .ok ⟨⟩ t) :
    t.ArmedAt arch id address := by
  rw [noteUserEnabled, get_bind_apply] at hrun
  cases hfind : s.debugger.breakpoints.find? key with
  | none =>
      rw [hfind] at hrun
      injection hrun with _ hstate
      exact hstate ▸ hs
  | some r =>
      rw [hfind] at hrun
      dsimp only [doIf] at hrun
      split at hrun <;> injection hrun with _ hstate <;> subst hstate <;> exact hs

/-- A number that `create_breakpoint` returns is that of an armed breakpoint exactly if there was no
record at the address, or else one that was armed already. -/
theorem createBreakpoint_armed_iff {address : Address} {specification : Text} {temporary : Bool}
    {id : Int} {s t : State R D} (hspares : env.Spares address arch.breakpointSize)
    (hrun : createBreakpoint arch env address specification temporary s = .ok id t) :
    (s.debugger.Tabled → keyOfId t.debugger.breakpoints id = some address) ∧
      (t.ArmedAt arch id address ↔
        ∀ r, s.debugger.breakpoints.find? address = some r →
          r.enabled = true ∧ s.TrapAt arch address) := by
  constructor
  · intro htabled
    obtain ⟨r, hr, hid⟩ := createBreakpoint_record hrun
    have hedits : Edits env Set.univ ∅ [.patch, .create temporary] s t :=
      (makes_createBreakpoint (by simp) (by simp) address specification).of_ok hrun
    have ht : t.debugger.Tabled :=
      hedits.preserve (fun _ _ _ _ hedit hd => hedit.tabled hd) (mapsOnly_univ s t) htabled
    cases hkey : keyOfId t.debugger.breakpoints id with
    | none => exact absurd hid (keyOfId_eq_none hkey hr)
    | some key =>
        obtain ⟨r', hr', hid'⟩ := keyOfId_eq_some hkey
        rw [ht.records key address r' r hr' hr (hid'.trans hid.symm)]
  · rw [createBreakpoint, get_bind_apply] at hrun
    cases hfind : s.debugger.breakpoints.find? address with
    | some r =>
        rw [hfind] at hrun
        injection hrun with hid hstate
        subst hstate
        constructor
        · rintro ⟨r', hr', -, harmed⟩ r'' hr''
          rw [hfind] at hr'
          obtain rfl := Option.some.inj hr'
          exact Option.some.inj hr'' ▸ harmed
        · exact fun harmed => ⟨r, hfind, hid, harmed r rfl⟩
    | none =>
        rw [hfind] at hrun
        refine iff_of_true ?_ fun r hr => by cases hr
        obtain ⟨_, u, hinsert, hrun⟩ := of_bind_ok hrun
        obtain ⟨_, v, henable, hrun⟩ := of_bind_ok hrun
        obtain ⟨_, w, hnote, hrun⟩ := of_bind_ok hrun
        injection hrun with hid hstate
        injection hinsert with _ hinserted
        subst hid hstate hinserted
        have harmed := enable_armed hspares (SortedMap.find?_insert_self _ _ _) rfl rfl rfl henable
        exact noteUserEnabled_armedAt harmed hnote

instance (arch : Architecture R D) (s : State R D) (address : Address) :
    Decidable (s.TrapAt arch address) :=
  inferInstanceAs (Decidable (_ = _))

instance (arch : Architecture R D) (s : State R D) (id : Int) (address : Address) :
    Decidable (s.ArmedAt arch id address) :=
  decidable_of_iff ((s.debugger.breakpoints.find? address).any
      (fun r => r.id = id && r.enabled && s.TrapAt arch address) = true) (by
    simp [State.ArmedAt, Option.any_eq_true, and_assoc])

/-- The user's breakpoint as `break` and the resolution of a pending record create it. -/
def created (arch : Architecture R D) (env : Environment R D) (address : Address) (s : State R D) :
    Option (Int × State R D) :=
  match createBreakpoint arch env address [] false s with
  | .ok id t => some (id, t)
  | .error _ _ => none

theorem of_created {address : Address} {s t : State R D} {id : Int}
    (hcreated : created arch env address s = some (id, t)) :
    createBreakpoint arch env address [] false s = .ok id t := by
  unfold created at hcreated
  split at hcreated
  · rename_i hrun
    cases hcreated
    exact hrun
  · cases hcreated

/-- There was no record at the address. -/
theorem createBreakpoint_armed_nops :
    ∃ s t, Prompt x86_64 (runningMachine 4) (State.initial 1 (nopTarget 1)) s ∧
      createBreakpoint x86_64 (runningMachine 4) 0x1003 [] false s = .ok 1 t ∧
      t.ArmedAt x86_64 1 0x1003 := by
  obtain ⟨s, hs, hcheck⟩ := Prompt.exists_of_runBatch x86_64 (runningMachine 4)
    (State.initial 1 (nopTarget 1)) []
    (p := fun s => (s.debugger.breakpoints.find? 0x1003).isNone &&
      ((created x86_64 (runningMachine 4) 0x1003 s).any fun result => result.1 = 1))
    (by decide +kernel)
  rw [Bool.and_eq_true, Option.isNone_iff_eq_none] at hcheck
  obtain ⟨⟨id, t⟩, hcreated, hid⟩ := (Option.any_eq_true _ _).mp hcheck.2
  obtain rfl : id = 1 := of_decide_eq_true hid
  have hrun := of_created hcreated
  refine ⟨s, t, hs, hrun, ?_⟩
  refine (createBreakpoint_armed_iff (Environment.spares_one _ _) hrun).2.mpr fun r hr => ?_
  rw [hcheck.1] at hr
  cases hr

/-- The breakpoint was disabled, and is announced again. -/
theorem announced_unarmed :
    ∃ s t, Prompt x86_64 (runningMachine 4) (State.initial 1 (nopTarget 1)) s ∧
      createBreakpoint x86_64 (runningMachine 4) 0x1003 [] false s = .ok 1 t ∧
      ¬ t.ArmedAt x86_64 1 0x1003 := by
  obtain ⟨s, hs, hcheck⟩ := Prompt.exists_of_runBatch x86_64 (runningMachine 4)
    (State.initial 1 (nopTarget 1)) ["break *0x1003".toList, "disable 1".toList]
    (p := fun s => (created x86_64 (runningMachine 4) 0x1003 s).any
      fun result : Int × State UserRegs X86_64.DebugRegisters =>
        decide (result.1 = 1) && !decide (result.2.ArmedAt x86_64 1 0x1003)) (by decide +kernel)
  obtain ⟨⟨id, t⟩, hcreated, hresult⟩ := (Option.any_eq_true _ _).mp hcheck
  rw [Bool.and_eq_true, Bool.not_eq_true', decide_eq_false_iff_not] at hresult
  obtain rfl : id = 1 := of_decide_eq_true hresult.1
  exact ⟨s, t, hs, of_created hcreated, hresult.2⟩

/-! ### A breakpoint that cannot be inserted -/

/-- The two tables and the memory are what they were. -/
structure NoTrace (s t : State R D) : Prop where
  breakpoints : t.debugger.breakpoints = s.debugger.breakpoints
  pending : t.debugger.pendingBreakpoints = s.debugger.pendingBreakpoints
  memory : t.target.memory = s.target.memory

/-- From `s` to `t` a disabled record has appeared at this address. -/
def LeftBehind (s t : State R D) (address : Address) : Prop :=
  s.debugger.breakpoints.find? address = none ∧
    ∃ r, t.debugger.breakpoints.find? address = some r ∧ r.enabled = false

theorem LeftBehind.not_noTrace {s t : State R D} {address : Address}
    (hleft : LeftBehind s t address) : ¬ NoTrace s t := by
  intro hnone
  obtain ⟨hs, r, hr, -⟩ := hleft
  rw [hnone.breakpoints, hs] at hr
  cases hr

theorem noteUserEnabled_ok (key : Address) (s : State R D) :
    ∃ t, noteUserEnabled key s = .ok ⟨⟩ t := by
  rw [noteUserEnabled, get_bind_apply]
  cases s.debugger.breakpoints.find? key with
  | none => exact ⟨_, rfl⟩
  | some r =>
      dsimp only [doIf]
      split <;> exact ⟨_, rfl⟩

/-- All that can throw is the insertion of the trap, and by then the record is in the table. -/
theorem createBreakpoint_error {address : Address} {specification : Text} {temporary : Bool}
    {halt : Halt} {s t : State R D}
    (hrun : createBreakpoint arch env address specification temporary s = .error halt t) :
    LeftBehind s t address := by
  rw [createBreakpoint, get_bind_apply] at hrun
  cases hfind : s.debugger.breakpoints.find? address with
  | some r =>
      rw [hfind] at hrun
      cases hrun
  | none =>
      rw [hfind] at hrun
      dsimp only at hrun
      rw [insertBreakpoint, bind_apply, modifyDebugger_apply] at hrun
      dsimp only at hrun
      refine ⟨hfind, ?_⟩
      rw [bind_apply] at hrun
      split at hrun
      · rename_i u _
        obtain ⟨v, hnote⟩ := noteUserEnabled_ok address u
        rw [bind_ok hnote] at hrun
        cases hrun
      · rename_i henable
        injection hrun with _ hstate
        subst hstate
        have hdebugger := (enable_debugger (SortedMap.find?_insert_self _ _ _) rfl rfl).of_error rfl
          henable
        rcases hdebugger with hsame | ⟨saved, hsaved⟩
        · rw [hsame]
          exact ⟨_, SortedMap.find?_insert_self _ _ _, rfl⟩
        · rw [hsaved, Debugger.withRecord, SortedMap.find?_modify_self, SortedMap.find?_insert_self]
          exact ⟨_, rfl, rfl⟩

/-- A record that is there stays, so one that is not there after a `create_breakpoint` was not there
before it. -/
theorem createBreakpoint_keeps {address key : Address} {specification : Text} {temporary : Bool}
    {id : Int} {s t : State R D}
    (hrun : createBreakpoint arch env address specification temporary s = .ok id t)
    (ht : t.debugger.breakpoints.find? key = none) : s.debugger.breakpoints.find? key = none := by
  have hedits : Edits env Set.univ ∅ [.patch, .create temporary] s t :=
    (makes_createBreakpoint (by simp) (by simp) address specification).of_ok hrun
  by_contra hs
  refine hedits.preserve (I := fun d => d.breakpoints.find? key ≠ none)
    (fun kind hkind d d' hedit hd => ?_) (mapsOnly_univ s t) hs ht
  cases hedit with
  | patch _ key' hchange =>
      rw [Debugger.withRecord, SortedMap.find?_modify]
      split
      · rename_i heq
        rw [← heq]
        simpa using hd
      · exact hd
  | create _ _ _ _ =>
      rw [SortedMap.find?_insert]
      split
      · exact Option.some_ne_none _
      · exact hd
  | _ => exact absurd hkind (by simp)

theorem announceBreakpoints_error {specification : Text} {halt : Halt} (addresses : List Address) :
    ∀ s t : State R D, announceBreakpoints arch env specification addresses s = .error halt t →
      ∃ address ∈ addresses, LeftBehind s t address := by
  induction addresses with
  | nil => exact fun s t hrun => by cases hrun
  | cons address rest ih =>
      intro s t hrun
      rw [announceBreakpoints, bind_apply] at hrun
      split at hrun
      · rename_i id u hcreate
        rw [bind_apply, print_apply] at hrun
        obtain ⟨key, hmem, hfree, hleft⟩ := ih _ t hrun
        exact ⟨key, List.mem_cons_of_mem _ hmem, createBreakpoint_keeps hcreate hfree, hleft⟩
      · rename_i hcreate
        injection hrun with _ hstate
        subst hstate
        exact ⟨address, List.mem_cons_self, createBreakpoint_error hcreate⟩

/-- A `break` that throws always leaves a trace: a record at an address of its location that had
none, and which is not enabled. -/
theorem failed_break_leaves_record {specification : Text} {halt : Halt} {s t : State R D}
    (hrun : setBreakpoint arch env specification s = .error halt t) :
    ¬ NoTrace s t ∧
      ∃ address ∈ resolveSpecification s.debugger.modules specification, LeftBehind s t address := by
  rw [setBreakpoint, get_bind_apply] at hrun
  cases hresolved : resolveSpecification s.debugger.modules specification with
  | nil =>
      rw [hresolved] at hrun
      cases hrun
  | cons first rest =>
      rw [hresolved] at hrun
      obtain ⟨address, hmem, hleft⟩ := announceBreakpoints_error _ s t hrun
      exact ⟨hleft.not_noTrace, address, hmem, hleft⟩

/-- The state in which a `break` throws. -/
def failedBreak (arch : Architecture R D) (env : Environment R D) (specification : Text)
    (s : State R D) : Option (Halt × State R D) :=
  match setBreakpoint arch env specification s with
  | .ok _ _ => none
  | .error halt t => some (halt, t)

theorem of_failedBreak {specification : Text} {halt : Halt} {s t : State R D}
    (hfailed : failedBreak arch env specification s = some (halt, t)) :
    setBreakpoint arch env specification s = .error halt t := by
  unfold failedBreak at hfailed
  split at hfailed
  · cases hfailed
  · rename_i hrun
    cases hfailed
    exact hrun

/-- The byte under the trap cannot be read. -/
theorem failed_break_leaves_record_nops :
    ∃ s halt t, Prompt x86_64 (refusing 6) (State.initial 1 (nopTarget 1)) s ∧
      setBreakpoint x86_64 (refusing 6) "*0x1003".toList s = .error halt t ∧
      ∃ address ∈ resolveSpecification s.debugger.modules "*0x1003".toList,
        LeftBehind s t address := by
  obtain ⟨s, hs, hcheck⟩ := Prompt.exists_of_runBatch x86_64 (refusing 6)
    (State.initial 1 (nopTarget 1)) []
    (p := fun s => (failedBreak x86_64 (refusing 6) "*0x1003".toList s).isSome)
    (by decide +kernel)
  obtain ⟨⟨halt, t⟩, hfailed⟩ := Option.isSome_iff_exists.mp hcheck
  have hrun := of_failedBreak hfailed
  exact ⟨s, halt, t, hs, hrun, (failed_break_leaves_record hrun).2⟩

/-- The trap cannot be written: the record stays in the table, and no trap is in memory. -/
theorem failed_break_traced :
    ∃ s halt t, Prompt x86_64 (refusing 8) (State.initial 1 (nopTarget 1)) s ∧
      setBreakpoint x86_64 (refusing 8) "*0x1003".toList s = .error halt t ∧ ¬ NoTrace s t := by
  obtain ⟨s, hs, hcheck⟩ := Prompt.exists_of_runBatch x86_64 (refusing 8)
    (State.initial 1 (nopTarget 1)) []
    (p := fun s => (s.debugger.breakpoints.find? 0x1003).isNone &&
      (failedBreak x86_64 (refusing 8) "*0x1003".toList s).any
        fun result : Halt × State UserRegs X86_64.DebugRegisters =>
          (result.2.debugger.breakpoints.find? 0x1003).isSome) (by decide +kernel)
  rw [Bool.and_eq_true, Option.isNone_iff_eq_none] at hcheck
  obtain ⟨⟨halt, t⟩, hfailed, hfound⟩ := (Option.any_eq_true _ _).mp hcheck.2
  refine ⟨s, halt, t, hs, of_failedBreak hfailed, fun hnone => ?_⟩
  rw [hnone.breakpoints, hcheck.1] at hfound
  cases hfound

end Cosy
