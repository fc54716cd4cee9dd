import Cosy.Detach
import Cosy.Obeying

/-!
# Debugging leaves no trace

Sessions on x86-64 that set, remove and switch breakpoints, go on, take steps and look around. What
they come to is what the controller comes to; it depends neither on when the thread is let run nor on
the looks; and once the debugger has let the process go, the process is where it would have come to
by itself.
-/

namespace Cosy

open ByteMemory Effect Refinement

/-! ### A program to debug -/

/-- Instructions of two bytes that do nothing. -/
def strides : Program UserRegs where
  step regs memory := ({ regs with rip := regs.rip + 2 }, memory)

/-- Its thread executes twenty instructions in a wait. -/
def striding : Machine UserRegs X86_64.DebugRegisters where
  program := strides
  schedule _ := List.replicate 20 (.run 1)
  fails _ := false

theorem striding_runsOnly : striding.RunsOnly 1 fun _ => True where
  only _ _ hmem := Or.inl (List.eq_of_mem_replicate hmem)
  runs _ := List.mem_cons_self
  answers _ := rfl

def evenAddresses : Set Address := {address | address.toNat % 2 = 0}

theorem strides_after (n : Nat) :
    (strides.after (.startingAt 0x1000) nopText n).2 = nopText ∧
      (strides.after (.startingAt 0x1000) nopText n).1.rip ∈ evenAddresses := by
  have hnext : ∀ address : Address, address ∈ evenAddresses → address + 2 ∈ evenAddresses := by
    intro address (heven : address.toNat % 2 = 0)
    change (address + 2).toNat % 2 = 0
    bv_omega
  induction n with
  | zero => exact ⟨rfl, rfl⟩
  | succ n ih => exact ⟨ih.1, hnext _ ih.2⟩

theorem even_sub_one {address : Address} (heven : address ∈ evenAddresses) :
    address - 1 ∉ evenAddresses := by
  intro (heven' : (address - 1).toNat % 2 = 0)
  change address.toNat % 2 = 0 at heven
  bv_omega

theorem breakable_strides :
    strides.Breakable x86_64 (.startingAt 0x1000) nopText evenAddresses evenAddresses fun n =>
      {(strides.after (.startingAt 0x1000) nopText n).1.rip,
        (strides.after (.startingAt 0x1000) nopText n).1.rip + 1} where
  ordinary breakpoints hspots := {
    reads := fun n memory' hsame => ⟨rfl, fun x hx => hsame x (Or.inl hx)⟩
    writes := fun _ _ _ _ _ => rfl
    quiet := fun n => by
      rw [(strides_after n).1]
      exact trapAt_nopText _
    inText := fun key r hr x hin => by
      rw [eq_of_sub_lt_one hin]
      exact hspots key r hr
    starts := fun key r hr n x hin hfetched => by
      obtain rfl := eq_of_sub_lt_one hin
      rcases hfetched with heq | heq
      · exact heq
      · -- The second byte of an instruction has an odd address.
        have hbefore : x - 1 = (strides.after (.startingAt 0x1000) nopText n).1.rip := by
          rw [heq]
          bv_omega
        exact absurd (hbefore ▸ (strides_after n).2) (even_sub_one (hspots x r hr)) }
  behind n := even_sub_one (strides_after n).2

theorem launched_nopTarget :
    (nopTarget 1).Launched 1 (.startingAt 0x1000) nopText where
  tasks := ⟨stoppedTask 0x1000, rfl, rfl, rfl⟩
  memory := rfl
  ready := rfl
  maps := rfl

def stridingLines : List Text :=
  ["b *0x1004".toList, "c".toList, "info break".toList, "b *0x1008".toList, "disable 1".toList,
    "c".toList, "si".toList, "delete 2".toList]

theorem asksWithin_stridingLines : ∀ line ∈ stridingLines, AsksWithin evenAddresses line := by
  have hall : stridingLines.map asks
      = [some (.mark 0x1004), some .goOn, some .look, some (.mark 0x1008), some (.switch 1 false),
        some .goOn, some .step, some (.remove 2)] := by decide +kernel
  intro line hmem
  have hasked : asks line ∈ stridingLines.map asks := List.mem_map_of_mem hmem
  rw [hall] at hasked
  simp only [List.mem_cons, List.not_mem_nil, or_false] at hasked
  rcases hasked with hask | hask | hask | hask | hask | hask | hask | hask <;>
    refine ⟨_, hask, fun place hplace => ?_⟩ <;> cases hplace <;> rfl

/-! ### The controller and the session -/

section Batch

variable {machine machine' : Machine UserRegs X86_64.DebugRegisters} {tid : Tid} {regs : UserRegs}
  {memory : Memory} {text spots : Set Address} {fetched : Nat → Set Address}
  {target : Target UserRegs X86_64.DebugRegisters} {lines lines' : List Text}
  {c : Controller Address} {t t' : State UserRegs X86_64.DebugRegisters}

/-- Wherever a session gets, a controller has got by the same lines: the thread has come to the same
place by as many steps, the same marks are set and the same hits have been announced. -/
theorem runBatch_obeys (hmachine : machine.RunsOnly tid fun _ => True)
    (hp : machine.program.Breakable x86_64 regs memory spots text fetched)
    (htarget : target.Launched tid regs memory) (hlines : ∀ line ∈ lines, AsksWithin spots line)
    (hrun : runBatch x86_64 (machine.environment x86_64) (State.initial tid target) lines = some t) :
    ∃ c, Obeys (LineAllows (machine.program.path x86_64 regs memory)) (.fresh Address) lines c ∧
      Tracks x86_64 machine tid regs memory c t :=
  htarget.sound rfl x86_64_lawfulPc hmachine hp hlines hrun

theorem runBatch_obeys_strides :
    ∃ t c, runBatch x86_64 (striding.environment x86_64) (State.initial 1 (nopTarget 1)) stridingLines
        = some t ∧
      Obeys (LineAllows (strides.path x86_64 (.startingAt 0x1000) nopText)) (.fresh Address)
        stridingLines c ∧
      Tracks x86_64 striding 1 (.startingAt 0x1000) nopText c t := by
  obtain ⟨t, hrun⟩ := Option.isSome_iff_exists.mp
    (show (runBatch x86_64 (striding.environment x86_64) (State.initial 1 (nopTarget 1))
      stridingLines).isSome = true by decide +kernel)
  obtain ⟨c, hc⟩ := runBatch_obeys striding_runsOnly breakable_strides launched_nopTarget
    asksWithin_stridingLines hrun
  exact ⟨t, c, hrun, hc⟩

/-- Wherever a controller may get, a session gets by the same lines, if each wait lets the thread run
as far. -/
theorem runBatch_obliges (hmachine : machine.RunsOnly tid fun _ => True)
    (hp : machine.program.Breakable x86_64 regs memory spots text fetched)
    (htarget : target.Launched tid regs memory) (hlines : ∀ line ∈ lines, AsksWithin spots line)
    (hobeys : Obeys (LineAllows (machine.program.path x86_64 regs memory)) (.fresh Address) lines c)
    (hfar : ∀ tick, c.position < machine.instructions tick) :
    ∃ t, runBatch x86_64 (machine.environment x86_64) (State.initial tid target) lines = some t ∧
      Tracks x86_64 machine tid regs memory c t :=
  htarget.complete rfl x86_64_lawfulPc hmachine hp hlines hobeys hfar

/-- To a mark at the third instruction. -/
theorem runBatch_obliges_strides :
    ∃ t, runBatch x86_64 (striding.environment x86_64) (State.initial 1 (nopTarget 1))
        ["b *0x1004".toList, "c".toList] = some t ∧
      t.hits = [(1, 0x1004)] := by
  have hlines : ∀ line ∈ ["b *0x1004".toList, "c".toList], AsksWithin evenAddresses line := by
    intro line hmem
    exact asksWithin_stridingLines line (by simp [stridingLines] at hmem ⊢; tauto)
  have hobeys : Obeys (LineAllows (strides.path x86_64 (.startingAt 0x1000) nopText))
      (.fresh Address) ["b *0x1004".toList, "c".toList]
      (((Controller.fresh Address).mark 0x1004).stopFor
        (strides.path x86_64 (.startingAt 0x1000) nopText) 2 ⟨1, true⟩) := by
    refine .cons ⟨.mark 0x1004, by decide +kernel, rfl⟩ (.single ⟨.goOn, by decide +kernel, 2, _,
      by decide, fun m hpos hlt => ?_, ?_, rfl, rfl⟩)
    · obtain rfl : m = 1 := by
        change 0 < m at hpos
        omega
      rfl
    · rfl
  obtain ⟨t, hrun, ht⟩ := runBatch_obliges striding_runsOnly breakable_strides launched_nopTarget
    hlines hobeys fun _ => show 2 < 20 by decide
  exact ⟨t, hrun, ht.hits⟩

/-! ### Two sessions -/

/-- The thread is at the same place in the same memory, by as many steps, with the same breakpoints
set and the same hits announced. -/
structure Alike (tid : Tid) (t t' : State UserRegs X86_64.DebugRegisters) : Prop where
  thread : ∃ task task', t.target.tasks = SortedMap.empty.insert tid task ∧
    t'.target.tasks = SortedMap.empty.insert tid task' ∧ task'.regs = task.regs
  memory : t'.target.memory = t.target.memory
  steps : t'.executions.length = t.executions.length
  marks : ∀ key, (t'.debugger.breakpoints.find? key).map Breakpoint.mark
    = (t.debugger.breakpoints.find? key).map Breakpoint.mark
  hits : t'.hits = t.hits

/-- Whatever follows the same controller is alike. -/
theorem Tracks.alike (hprogram : machine'.program = machine.program)
    (ht : Tracks x86_64 machine tid regs memory c t)
    (ht' : Tracks x86_64 machine' tid regs memory c t') : Alike tid t t' := by
  have hmarks : ∀ key, (t'.debugger.breakpoints.find? key).map Breakpoint.mark
      = (t.debugger.breakpoints.find? key).map Breakpoint.mark :=
    fun key => (ht'.records.marks key).trans (ht.records.marks key).symm
  have hstands := ht'.stands
  rw [hprogram] at hstands
  refine ⟨?_, ?_, ht'.executed.trans ht.executed.symm, hmarks, ht'.hits.trans ht.hits.symm⟩
  · obtain ⟨task, htasks, hregs, -⟩ := ht.stands.thread
    obtain ⟨task', htasks', hregs', -⟩ := hstands.thread
    exact ⟨task, task', htasks, htasks', hregs'.trans hregs.symm⟩
  · refine hstands.overlaid.unique ht.stands.overlaid fun key => ?_
    calc (t'.debugger.breakpoints.find? key).any Breakpoint.enabled
        = ((t'.debugger.breakpoints.find? key).map Breakpoint.mark).any Mark.on := by
          rw [Option.any_map]
          rfl
      _ = (t.debugger.breakpoints.find? key).any Breakpoint.enabled := by
          rw [hmarks, Option.any_map]
          rfl

/-- The lines that ask for more than a look. -/
def moving (lines : List Text) : List Text := lines.filter fun line => asks line ≠ some .look

/-- A look is nothing to a controller. -/
theorem Obeys.moving {path : Nat → Address} {c c' : Controller Address}
    (hrun : Obeys (LineAllows path) c lines c') : Obeys (LineAllows path) c (moving lines) c' := by
  induction hrun with
  | nil => exact .nil _
  | @cons a b c line rest hfirst _ ih =>
      by_cases hlook : asks line = some .look
      · obtain ⟨order, hask, hallowed⟩ := hfirst
        obtain rfl := Option.some.inj (hask.symm.trans hlook)
        obtain rfl : b = a := hallowed
        simpa [Cosy.moving, hlook] using ih
      · simpa [Cosy.moving, hlook] using Obeys.cons hfirst ih

/-- It matters neither when the thread is let run, nor how often one has a look. -/
theorem runBatch_alike (hmachine : machine.RunsOnly tid fun _ => True)
    (hmachine' : machine'.RunsOnly tid fun _ => True) (hprogram : machine'.program = machine.program)
    (hp : machine.program.Breakable x86_64 regs memory spots text fetched)
    (htarget : target.Launched tid regs memory) (hlines : ∀ line ∈ lines, AsksWithin spots line)
    (hlines' : ∀ line ∈ lines', AsksWithin spots line) (hmoving : moving lines' = moving lines)
    (hrun : runBatch x86_64 (machine.environment x86_64) (State.initial tid target) lines = some t)
    (hrun' : runBatch x86_64 (machine'.environment x86_64) (State.initial tid target) lines'
      = some t') : Alike tid t t' := by
  obtain ⟨c, hobeys, ht⟩ := htarget.sound rfl x86_64_lawfulPc hmachine hp hlines hrun
  obtain ⟨c', hobeys', ht'⟩ := htarget.sound rfl x86_64_lawfulPc hmachine' (hprogram ▸ hp) hlines' hrun'
  have hdet : ∀ line a b c, LineAllows (machine.program.path x86_64 regs memory) line a b →
      LineAllows (machine.program.path x86_64 regs memory) line a c → b = c :=
    fun _ _ _ _ => lineAllows_unique
  rw [hprogram] at hobeys'
  have hmoved' := Obeys.moving hobeys'
  rw [hmoving] at hmoved'
  obtain rfl := Obeys.unique hdet (Obeys.moving hobeys) hmoved'
  exact ht.alike hprogram ht'

end Batch

/-- Its thread executes fewer instructions in a wait, and not always as many. -/
def dawdling : Machine UserRegs X86_64.DebugRegisters where
  program := strides
  schedule tick := List.replicate (5 + tick % 3) (.run 1)
  fails _ := false

/-- The same, with looks here and there. -/
def lookingLines : List Text :=
  ["info registers".toList, "b *0x1004".toList, "bt".toList, "c".toList, "b *0x1008".toList,
    "disable 1".toList, "c".toList, "x 0x1000 4".toList, "si".toList, "info threads".toList,
    "delete 2".toList]

theorem runBatch_alike_strides :
    ∃ t t', runBatch x86_64 (striding.environment x86_64) (State.initial 1 (nopTarget 1))
        stridingLines = some t ∧
      runBatch x86_64 (dawdling.environment x86_64) (State.initial 1 (nopTarget 1))
        lookingLines = some t' ∧ Alike 1 t t' := by
  obtain ⟨t, hrun⟩ := Option.isSome_iff_exists.mp
    (show (runBatch x86_64 (striding.environment x86_64) (State.initial 1 (nopTarget 1))
      stridingLines).isSome = true by decide +kernel)
  obtain ⟨t', hrun'⟩ := Option.isSome_iff_exists.mp
    (show (runBatch x86_64 (dawdling.environment x86_64) (State.initial 1 (nopTarget 1))
      lookingLines).isSome = true by decide +kernel)
  have hdawdling : dawdling.RunsOnly 1 fun _ => True := by
    refine ⟨fun tick action hmem => Or.inl (List.eq_of_mem_replicate hmem), fun tick => ?_,
      fun _ => rfl⟩
    exact List.mem_replicate.mpr ⟨by omega, rfl⟩
  have hmoving : moving lookingLines = moving stridingLines := by decide +kernel
  have hlooking : ∀ line ∈ lookingLines, AsksWithin evenAddresses line := by
    intro line hmem
    by_cases hlook : asks line = some .look
    · exact ⟨_, hlook, fun place hplace => by cases hplace⟩
    · have hmem' : line ∈ moving lookingLines := List.mem_filter.mpr ⟨hmem, by simpa using hlook⟩
      rw [hmoving] at hmem'
      exact asksWithin_stridingLines line (List.mem_filter.mp hmem').1
  exact ⟨t, t', hrun, hrun', runBatch_alike striding_runsOnly hdawdling rfl breakable_strides
    launched_nopTarget asksWithin_stridingLines hlooking hmoving hrun hrun'⟩

/-! ### Afterwards -/

section Leaving

variable {machine : Machine UserRegs X86_64.DebugRegisters} {tid : Tid} {regs : UserRegs}
  {memory original m : Memory} {text spots : Set Address} {fetched : Nat → Set Address}
  {target : Target UserRegs X86_64.DebugRegisters} {lines : List Text} {d : Debugger}
  {c : Controller Address} {t : State UserRegs X86_64.DebugRegisters}
  {task : Task UserRegs X86_64.DebugRegisters} {executed : List (Tid × Address)}
  {hits : List (Int × Address)} {signal : Nat}

/-- The debugger lifts its traps, of which only those at these places are left. -/
structure Debugger.Lifts (tid : Tid) (original : Memory) (keys : List Address) (d : Debugger)
    (m : Memory) : Prop where
  selected : d.selectedTid = tid
  threads : ∃ signal, d.threads = SortedMap.empty.insert tid ⟨tid, true, signal⟩
  formed : WellFormed x86_64 d.breakpoints
  overlaid : Overlaid x86_64 d.breakpoints original m
  within : ∀ key r, d.breakpoints.find? key = some r → r.enabled = true → key ∈ keys

/-- The record at the first place is disabled. -/
theorem Debugger.Lifts.next {key : Address} {rest : List Address} {r : Breakpoint}
    (hd : d.Lifts tid original (key :: rest) m) (hr : d.breakpoints.find? key = some r)
    (henabled : r.enabled = true) :
    (d.withRecord key fun r => { r with enabled := false }).Lifts tid original rest
      (store m key r.saved) where
  selected := hd.selected
  threads := hd.threads
  formed := hd.formed.modify fun _ _ => ⟨rfl, rfl, fun hfalse => by cases hfalse⟩
  overlaid := hd.overlaid.lift (apartFrom_of_size rfl _ _) hr henabled
  within other r' hr' henabled' := by
    by_cases hother : other = key
    · subst hother
      rw [Debugger.withRecord, SortedMap.find?_modify_self, hr] at hr'
      obtain rfl := Option.some.inj hr'
      cases henabled'
    · rw [Debugger.withRecord, SortedMap.find?_modify_of_ne _ _ hother] at hr'
      exact (List.mem_cons.mp (hd.within other r' hr' henabled')).resolve_left hother

theorem Debugger.Lifts.skip {key : Address} {rest : List Address}
    (hd : d.Lifts tid original (key :: rest) m)
    (hdisabled : ∀ r, d.breakpoints.find? key = some r → r.enabled = false) :
    d.Lifts tid original rest m where
  selected := hd.selected
  threads := hd.threads
  formed := hd.formed
  overlaid := hd.overlaid
  within other r hr henabled := by
    refine (List.mem_cons.mp (hd.within other r hr henabled)).resolve_left fun hother => ?_
    rw [hdisabled r (hother ▸ hr)] at henabled
    cases henabled

/-- Without a trap the memory is the program's. -/
theorem Debugger.Lifts.done (hd : d.Lifts tid original [] m) : m = original := by
  funext x
  exact hd.overlaid.rest x fun key r hr henabled => absurd (hd.within key r hr henabled) (by simp)

variable (hmachine : machine.RunsOnly tid fun _ => True)

include hmachine

theorem lifts_disableAll (hstopped : task.stopped = true) (entries : List (Address × Breakpoint)) :
    Triple
      (fun s => ∃ d m, d.Lifts tid original (entries.map Prod.fst) m ∧
        Sole machine tid (fun _ => True) executed hits task d m s)
      (disableAll (machine.environment x86_64) entries)
      (fun _ s => ∃ d m, d.Lifts tid original [] m ∧
        Sole machine tid (fun _ => True) executed hits task d m s) (fun _ _ => False) := by
  induction entries with
  | nil => exact Triple.pure fun s hs => hs
  | cons entry rest ih =>
      refine Triple.bind ?_ fun _ => ih
      refine Triple.rescue (F := fun _ _ => False) ?_ (fun _ _ _ _ hfalse => hfalse.elim)
        fun _ _ _ hfalse => hfalse
      rintro s ⟨d, m, hd, hs⟩
      by_cases henabled : ∃ r, d.breakpoints.find? entry.1 = some r ∧ r.enabled = true
      · obtain ⟨r, hr, henabled⟩ := henabled
        obtain ⟨haddress, hpending, hsaved⟩ := hd.formed _ r hr
        exact (sole_disable hmachine hstopped hd.selected hr haddress hpending henabled
          (hsaved henabled)).post (fun _ _ ht => ⟨_, _, hd.next hr henabled, ht⟩) s hs
      · have hdisabled : ∀ r, d.breakpoints.find? entry.1 = some r → r.enabled = false :=
          fun r hr => Bool.eq_false_iff.mpr fun hr' => henabled ⟨r, hr, hr'⟩
        exact (sole_disable_none hdisabled).post (fun _ _ ht => ⟨d, m, hd.skip hdisabled, ht⟩) s hs

/-- The process is let go with the memory it has. -/
theorem releaseThreads_sole (hstopped : task.stopped = true) {s : State UserRegs X86_64.DebugRegisters}
    (hs : Sole machine tid (fun _ => True) executed hits task d m s) :
    ∃ u, releaseThreads (machine.environment x86_64) [(tid, ⟨tid, true, signal⟩)] s = .ok ⟨⟩ u ∧
      u.target.memory = m ∧ u.target.tasks = SortedMap.empty ∧ u.executions = executed ∧
      u.debugger = d := by
  have henter := hs.enter x86_64 hmachine hstopped
  have hrelease : releaseThread (machine.environment x86_64) tid s = .ok ⟨⟩
      (State.logged
        { (machine.environment x86_64).enter s with
          target := { ((machine.environment x86_64).enter s).target with
            tasks := ((machine.environment x86_64).enter s).target.tasks.erase tid } }
        (.released tid ((machine.environment x86_64).enter s).target.memory
          ((machine.environment x86_64).enter s).target.image)) :=
    attempt_of_ok (bind_ok (hs.ptrace hmachine hstopped _ _))
  refine ⟨_, bind_ok hrelease, henter.memory, ?_, henter.executions, henter.debugger⟩
  change ((machine.environment x86_64).enter s).target.tasks.erase tid = SortedMap.empty
  rw [henter.tasks]
  refine SortedMap.ext_find? fun other => ?_
  rw [SortedMap.find?_erase, SortedMap.find?_empty, SortedMap.find?_insert, SortedMap.find?_empty]
  split <;> rfl

/-- Once the traps are lifted, the process is where the program would have come to by itself. -/
theorem Tracks.detach (hopen : t.debugger.detached = false) (hchild : 0 < t.debugger.child)
    (ht : Tracks x86_64 machine tid regs memory c t) :
    ∃ task u, t.target.tasks = SortedMap.empty.insert tid task ∧
      task.regs = (machine.program.after regs memory t.executions.length).1 ∧
      Cosy.detach (machine.environment x86_64) t = .ok ⟨⟩ u ∧
      u.target.memory = (machine.program.after regs memory t.executions.length).2 ∧
      u.target.tasks = SortedMap.empty ∧ u.executions = t.executions := by
  rw [ht.executed]
  obtain ⟨task, hrests, hs⟩ := ht.stands.sole
  obtain ⟨signal, hthreads⟩ := hrests.standing.threads
  have hlifts : t.debugger.Lifts tid (machine.program.after regs memory c.position).2
      (t.debugger.breakpoints.entries.map Prod.fst) t.target.memory :=
    ⟨hrests.standing.selected, ⟨signal, hthreads⟩, ht.records.formed, hrests.overlaid,
      fun key r hr _ => List.mem_map_of_mem (SortedMap.mem_entries_iff.mpr hr)⟩
  obtain ⟨_, s, hdisable, d, m, hd, hlifted⟩ :=
    (lifts_disableAll hmachine hrests.stopped t.debugger.breakpoints.entries).exists_ok
      ⟨_, _, hlifts, hs⟩
  obtain ⟨u, hrelease, hmemory, htasks, hexecuted, hdebugger⟩ :
      ∃ u, releaseThreads (machine.environment x86_64) [(tid, ⟨tid, true, signal⟩)] s = .ok ⟨⟩ u ∧
        u.target.memory = m ∧ u.target.tasks = SortedMap.empty ∧
        u.executions = t.executions ∧ u.debugger = d :=
    releaseThreads_sole hmachine hrests.stopped hlifted
  have hguard : ¬ (t.debugger.detached = true ∨ t.debugger.child ≤ 0) := by
    rw [hopen]
    rintro (h | h)
    · cases h
    · exact absurd hchild (Int.not_lt.mpr h)
  have hentries : t.debugger.threads.entries = [(tid, ⟨tid, true, signal⟩)] := by
    rw [hthreads]
    rfl
  refine ⟨task, u.withDebugger { u.debugger with detached := true }, hs.tasks, hrests.registers, ?_,
    hmemory.trans hd.done, htasks, hexecuted⟩
  rw [Cosy.detach, get_bind_apply, if_neg hguard, bind_ok hdisable, hentries, bind_ok hrelease]
  rfl

/-- When the debugger quits, it leaves the process where it would have come to by itself: with the
registers and the memory after as many steps, and not a trap. -/
theorem runBatch_leaves (hchild : 0 < tid)
    (hp : machine.program.Breakable x86_64 regs memory spots text fetched)
    (htarget : target.Launched tid regs memory) (hlines : ∀ line ∈ lines, AsksWithin spots line)
    (hrun : runBatch x86_64 (machine.environment x86_64) (State.initial tid target) lines = some t) :
    ∃ task u, t.target.tasks = SortedMap.empty.insert tid task ∧
      task.regs = (machine.program.after regs memory t.executions.length).1 ∧
      Cosy.detach (machine.environment x86_64) t = .ok ⟨⟩ u ∧
      u.target.memory = (machine.program.after regs memory t.executions.length).2 ∧
      u.target.tasks = SortedMap.empty ∧ u.executions = t.executions := by
  obtain ⟨c, -, ht⟩ := htarget.sound rfl x86_64_lawfulPc hmachine hp hlines hrun
  have hsession := ((Prompt.of_runBatch x86_64 _ hrun).moves
    (Environment.leavesText_empty _)).sameSession
  exact ht.detach hmachine hsession.detached (by rw [hsession.child]; exact hchild)

end Leaving

theorem runBatch_leaves_strides :
    ∃ t task u, runBatch x86_64 (striding.environment x86_64) (State.initial 1 (nopTarget 1))
        stridingLines = some t ∧
      t.target.tasks = SortedMap.empty.insert 1 task ∧
      task.regs = (strides.after (.startingAt 0x1000) nopText t.executions.length).1 ∧
      Cosy.detach (striding.environment x86_64) t = .ok ⟨⟩ u ∧
      u.target.memory = (strides.after (.startingAt 0x1000) nopText t.executions.length).2 ∧
      u.target.tasks = SortedMap.empty ∧ u.executions = t.executions := by
  obtain ⟨t, hrun⟩ := Option.isSome_iff_exists.mp
    (show (runBatch x86_64 (striding.environment x86_64) (State.initial 1 (nopTarget 1))
      stridingLines).isSome = true by decide +kernel)
  obtain ⟨task, u, hleft⟩ := runBatch_leaves striding_runsOnly (by decide) breakable_strides
    launched_nopTarget asksWithin_stridingLines hrun
  exact ⟨t, task, u, hrun, hleft⟩

end Cosy
