import Cosy.Breakpoints
import Mathlib.Data.Set.Function

/-!
# Reading and writing memory word by word

What `read_bytes` and `write_bytes` do while the environment moves between any two of their
requests, and any request may fail. The specifications are relative to a set `T` of addresses on
which the environment leaves the memory alone as long as a condition `C` lasts.
-/

namespace Cosy

open ByteMemory Effect

variable {R D : Type} {env : Environment R D}

def State.withMemory (s : State R D) (memory : Memory) : State R D :=
  { s with target := { s.target with memory := memory } }

/-- `A` outlives every move of the environment, `C` is not regained once it is lost, and while it
lasts the memory is `m` on `T`. -/
structure Watching (env : Environment R D) (A C : State R D → Prop) (T : Set Address)
    (m : Memory) : Prop where
  enter : ∀ s, A s → A (env.enter s)
  back : ∀ s, A s → C (env.enter s) → C s
  memory : ∀ s, A s → C s → Set.EqOn s.target.memory m T

section Watching

variable {A C : State R D → Prop} {T : Set Address} {m : Memory}

theorem readWord_spec (hwatch : Watching env A C T m) (k : Address) (F : Prop) :
    Triple (fun s => A s ∧ (C s → F)) (readWord env k)
      (fun value s => A s ∧
        (C s → F ∧ ∀ x ∈ T, aligned x = k → byteOf value (offset x) = m x))
      (fun _ s => A s) := by
  rintro s ⟨hA, hF⟩
  have henter := hwatch.enter s hA
  rw [readWord, get_bind_apply]
  rcases ptrace_cases env "PTRACE_PEEKDATA" s.debugger.selectedTid
      (fun _ target => (word target.memory k, target)) s with
    ⟨task, htask, hstopped, hfails, hrun⟩ | ⟨hnone, hrun⟩
  · rw [hrun]
    refine ⟨henter, fun hC => ⟨hF (hwatch.back s hA hC), fun x hx hk => ?_⟩⟩
    have hmemory := hwatch.memory _ henter hC hx
    rw [← hmemory, ← hk]
    exact byteOf_word_aligned _ x
  · rw [hrun]
    exact henter

theorem readBytes_spec (hwatch : Watching env A C T m) (n : Nat) :
    ∀ (a : Address) (F : Prop), Triple (fun s => A s ∧ (C s → F)) (readBytes env a n)
      (fun bytes s => A s ∧ bytes.length = n ∧
        (C s → F ∧ ∀ i < n, a + BitVec.ofNat 64 i ∈ T →
          bytes.getD i 0 = m (a + BitVec.ofNat 64 i)))
      (fun _ s => A s) := by
  induction n with
  | zero =>
      intro a F
      exact Triple.pure fun s hs => ⟨hs.1, rfl, fun hC => ⟨hs.2 hC, by simp⟩⟩
  | succ n ih =>
      intro a F
      rw [readBytes]
      refine Triple.bind (readWord_spec hwatch (aligned a) F) fun value => ?_
      refine Triple.bind (ih (a + 1) _) fun rest => ?_
      refine Triple.pure fun s hs => ⟨hs.1, by simp [hs.2.1], fun hC => ?_⟩
      obtain ⟨⟨hF, hvalue⟩, hrest⟩ := hs.2.2 hC
      refine ⟨hF, fun i hi hT => ?_⟩
      cases i with
      | zero =>
          have ha : a ∈ T := by simpa using hT
          simpa using hvalue a ha rfl
      | succ i =>
          rw [← add_one_add_ofNat] at hT ⊢
          exact hrest i (by omega) hT

/-- The words gathered are those the bytes fall in, and those that were there before. -/
def Gathered (words : SortedMap Address Address) (a : Address) (bytes : List Byte)
    (words' : SortedMap Address Address) : Prop :=
  ∀ k, words'.contains k = true ↔
    words.contains k = true ∨ ∃ i < bytes.length, k = aligned (a + BitVec.ofNat 64 i)

theorem Gathered.cons {words words' : SortedMap Address Address} {a w : Address} {byte : Byte}
    {rest : List Byte} (hgathered : Gathered (words.insert (aligned a) w) (a + 1) rest words') :
    Gathered words a (byte :: rest) words' := by
  intro k
  rw [hgathered k, SortedMap.contains_insert, Bool.or_eq_true, decide_eq_true_iff]
  constructor
  · rintro ((rfl | hk) | ⟨i, hi, rfl⟩)
    · exact Or.inr ⟨0, by simp, by simp⟩
    · exact Or.inl hk
    · exact Or.inr ⟨i + 1, by simpa using hi, by rw [add_one_add_ofNat]⟩
  · rintro (hk | ⟨i, hi, rfl⟩)
    · exact Or.inl (Or.inr hk)
    · cases i with
      | zero => exact Or.inl (Or.inl (by simp))
      | succ i => exact Or.inr ⟨i, by simpa using hi, by rw [add_one_add_ofNat]⟩

/-- The word a byte is put into: the gathered one, or else the one read from memory. -/
theorem coverWord_spec (hwatch : Watching env A C T m) (words : SortedMap Address Address)
    (a : Address) (F : Prop) :
    Triple (fun s => A s ∧ (C s → F)) (coverWord env words (aligned a))
      (fun words' s => A s ∧ ∃ w, words'.find? (aligned a) = some w ∧
        (∀ w', words'.insert (aligned a) w' = words.insert (aligned a) w') ∧
        (C s → F ∧ ∀ x ∈ T, aligned x = aligned a → byteOf w (offset x) = view words m x))
      (fun _ s => A s) := by
  cases hfind : words.find? (aligned a) with
  | some w =>
      have hcontains : words.contains (aligned a) = true :=
        SortedMap.contains_eq_true_iff.mpr ⟨w, hfind⟩
      rw [coverWord, if_pos hcontains]
      refine Triple.pure fun s hs => ⟨hs.1, w, hfind, fun _ => rfl, fun hC => ⟨hs.2 hC, ?_⟩⟩
      intro x _ hx
      simp only [view, hx, hfind]
  | none =>
      have hcontains : words.contains (aligned a) = false :=
        SortedMap.contains_eq_false_iff.mpr hfind
      rw [coverWord, hcontains, if_neg Bool.false_ne_true]
      refine Triple.bind (readWord_spec hwatch (aligned a) F) fun value => ?_
      rw [SortedMap.emplace_of_find?_none value hfind]
      refine Triple.pure fun s hs => ⟨hs.1, value, SortedMap.find?_insert_self _ _ _,
        fun w' => SortedMap.insert_insert_self _ _ _ _, fun hC => ?_⟩
      obtain ⟨hF, hvalue⟩ := hs.2 hC
      refine ⟨hF, fun x hx hk => ?_⟩
      simp only [view, hk, hfind]
      exact hvalue x hx hk

theorem gatherWords_spec (hwatch : Watching env A C T m) (bytes : List Byte) :
    ∀ (words : SortedMap Address Address) (a : Address) (g : Memory) (F : Prop),
      bytes.length < 2 ^ 64 →
      Triple (fun s => A s ∧ (C s → F ∧ Set.EqOn (view words m) g T))
        (gatherWords env words a bytes)
        (fun words' s => A s ∧ Gathered words a bytes words' ∧
          (C s → F ∧ Set.EqOn (view words' m) (store g a bytes) T))
        (fun _ s => A s) := by
  induction bytes with
  | nil =>
      intro words a g F _
      refine Triple.pure fun s hs => ⟨hs.1, fun k => by simp, fun hC => ?_⟩
      rw [store_nil]
      exact hs.2 hC
  | cons byte rest ih =>
      intro words a g F hlength
      have hlength' : rest.length + 1 < 2 ^ 64 := by simpa using hlength
      rw [gatherWords]
      refine Triple.bind (coverWord_spec hwatch words a _) fun words' => ?_
      rintro s ⟨hA, w, hfind, hinsert, hword⟩
      rw [SortedMap.modify_of_find? _ hfind, hinsert]
      have hview : C s → F ∧ Set.EqOn
          (view (words.insert (aligned a) (putByte w (offset a) byte)) m)
          (Function.update g a byte) T := by
        intro hC
        obtain ⟨⟨hF, hviewg⟩, hbytes⟩ := hword hC
        refine ⟨hF, fun x hx => ?_⟩
        rw [view_insert_putByte byte fun hx' => hbytes x hx hx']
        by_cases hxa : x = a
        · rw [hxa, Function.update_self, Function.update_self]
        · rw [Function.update_of_ne hxa, Function.update_of_ne hxa, hviewg hx]
      have hrun := ih (words.insert (aligned a) (putByte w (offset a) byte)) (a + 1)
        (Function.update g a byte) F (by omega) s ⟨hA, hview⟩
      cases hout : gatherWords env (words.insert (aligned a) (putByte w (offset a) byte)) (a + 1)
          rest s with
      | ok words'' t =>
          rw [hout] at hrun
          obtain ⟨hAt, hgathered, hstored⟩ := hrun
          refine ⟨hAt, hgathered.cons, fun hC => ?_⟩
          obtain ⟨hF, heq⟩ := hstored hC
          rw [store_cons _ _ _ _ hlength'.le] at heq
          exact ⟨hF, heq⟩
      | error e t =>
          rw [hout] at hrun
          exact hrun

/-- Bytes within one word are written by one request, which puts them in place at once. -/
theorem writeBytes_spec (hwatch : Watching env A C T m) {a : Address} {bytes : List Byte}
    (F : Prop) (hne : bytes ≠ []) (hlength : bytes.length < 2 ^ 64)
    (hword : ∀ i < bytes.length, aligned (a + BitVec.ofNat 64 i) = aligned a) :
    Triple (fun s => A s ∧ (C s → F)) (writeBytes env a bytes)
      (fun _ t => ∃ s w, A s ∧ t = s.withMemory (setWord s.target.memory (aligned a) w) ∧
        (C s → F ∧ Set.EqOn (setWord s.target.memory (aligned a) w) (store m a bytes) T))
      (fun _ s => A s) := by
  have hgather := gatherWords_spec hwatch bytes SortedMap.empty a m F hlength
  rw [writeBytes]
  refine Triple.bind (hgather.conseq ?_ (fun _ _ hs => hs) (fun _ _ hs => hs)) fun words => ?_
  · exact fun s hs => ⟨hs.1, fun hC => ⟨hs.2 hC, fun x _ => rfl⟩⟩
  rintro s ⟨hA, hgathered, hview⟩
  have hkeys : ∀ k, words.contains k = true → k = aligned a := by
    intro k hk
    rcases (hgathered k).mp hk with hempty | ⟨i, hi, rfl⟩
    · simp [SortedMap.contains] at hempty
    · exact hword i hi
  have hkey : words.contains (aligned a) = true :=
    (hgathered _).mpr (Or.inr ⟨0, List.length_pos_of_ne_nil hne, by simp⟩)
  obtain ⟨w, hfind⟩ := SortedMap.contains_eq_true_iff.mp hkey
  rw [SortedMap.entries_eq_singleton hfind hkeys]
  have henter := hwatch.enter s hA
  have hpoke : pokeWords env [(aligned a, w)] s
      = (pokeWord env (aligned a) w >>= fun _ => pure ⟨⟩) s := rfl
  rw [hpoke, pokeWord, bind_apply, get_bind_apply]
  rcases ptrace_cases env "PTRACE_POKEDATA" s.debugger.selectedTid
      (fun _ target => (PUnit.unit, { target with memory := setWord target.memory (aligned a) w })) s with
    ⟨task, htask, hstopped, hfails, hrun⟩ | ⟨hnone, hrun⟩
  · rw [hrun]
    refine ⟨env.enter s, w, henter, rfl, fun hC => ?_⟩
    obtain ⟨hF, heq⟩ := hview (hwatch.back s hA hC)
    refine ⟨hF, fun x hx => ?_⟩
    rw [← heq hx, setWord_apply _ (aligned_aligned a)]
    by_cases hxa : aligned x = aligned a
    · rw [if_pos hxa, view, hxa, hfind]
    · rw [if_neg hxa, view]
      have hnone : words.find? (aligned x) = none :=
        SortedMap.contains_eq_false_iff.mp
          (Bool.eq_false_iff.mpr fun hk => hxa (hkeys _ hk))
      rw [hnone]
      exact hwatch.memory _ henter hC hx
  · rw [hrun]
    exact henter

end Watching

end Cosy
