import Cosy.AddressSyntax
import Cosy.CommandLine
import Cosy.FrameBase
import Cosy.Output
import Cosy.Responding
import Cosy.UserWrites

/-!
# A dump that is typed back

`x` writes words the way `set memory` reads them, but for a colon. So what has been shown of one
process can be typed into a session with another one, on whatever machine, and the window that was
shown is there again.
-/

namespace Cosy

open ByteMemory Effect

variable {R D : Type} {arch : Architecture R D} {env : Environment R D} {s : State R D}

/-! ### Words joined by blanks -/

/-- A word that stands on a line as it is. -/
def IsPlain (word : Text) : Prop :=
  word ≠ [] ∧ ∀ ch ∈ word, isSpace ch = false ∧ ¬ IsQuote ch

theorem isPlain_of_all {word : Text} (hne : word ≠ [])
    (hall : word.all fun ch => !isSpace ch && ch ≠ singleQuote && ch ≠ doubleQuote) : IsPlain word := by
  refine ⟨hne, fun ch hch => ?_⟩
  have hch := List.all_eq_true.mp hall ch hch
  simp only [Bool.and_eq_true, Bool.not_eq_true', decide_eq_true_eq] at hch
  exact ⟨hch.1.1, not_or.mpr ⟨hch.1.2, hch.2⟩⟩

def unwords (ws : List Text) : Text := List.intercalate [' '] ws

theorem wordsFrom_run {run : Text} (hrun : ∀ ch ∈ run, isSpace ch = false ∧ ¬ IsQuote ch)
    (current rest : Text) : wordsFrom current none (run ++ rest) = wordsFrom (current ++ run) none rest := by
  induction run generalizing current with
  | nil => rw [List.nil_append, List.append_nil]
  | cons ch run ih =>
      obtain ⟨hspace, hquote⟩ := hrun ch List.mem_cons_self
      rw [List.cons_append, wordsFrom_plain hspace hquote,
        ih fun other hmem => hrun other (List.mem_cons_of_mem _ hmem), List.append_assoc]
      rfl

theorem words_unwords {ws : List Text} (hplain : ∀ word ∈ ws, IsPlain word) : words (unwords ws) = ws := by
  induction ws with
  | nil => rfl
  | cons word rest ih =>
      obtain ⟨hne, hword⟩ := hplain word List.mem_cons_self
      cases rest with
      | nil =>
          have hrun := wordsFrom_run hword [] []
          rw [List.append_nil, List.nil_append, wordsFrom_nil, kept, if_neg hne] at hrun
          simpa [words, unwords, List.intercalate] using hrun
      | cons next rest =>
          have hblank : IsBlanks [' '] := ⟨List.cons_ne_nil _ _, List.forall_mem_singleton.mpr rfl⟩
          have hjoin : unwords (word :: next :: rest) = word ++ ([' '] ++ unwords (next :: rest)) := rfl
          rw [words, hjoin, wordsFrom_run hword, List.nil_append, wordsFrom_blanks hblank, kept,
            if_neg hne]
          exact congrArg (word :: ·) (ih fun other hmem => hplain other (List.mem_cons_of_mem _ hmem))

theorem unwords_last (first second third last : Text) :
    unwords [first, second, third ++ ' ' :: last] = unwords [first, second, third, last] := by
  simp [unwords]

/-- Nothing in a number is a blank, a quote, a colon or the end of a line. -/
theorem ne_of_mem_hex {v : Address} {ch : Char} (hch : ch ∈ hex v) :
    isSpace ch = false ∧ ¬ IsQuote ch ∧ ch ≠ ':' ∧ ch ≠ '\n' := by
  have hdigits : ∀ ch ∈ '0' :: 'x' :: hexDigits,
      isSpace ch = false ∧ ¬ (ch = singleQuote ∨ ch = doubleQuote) ∧ ch ≠ ':' ∧ ch ≠ '\n' :=
    List.all_iff_forall_prop.mp (by decide)
  have hmem : ch ∈ '0' :: 'x' :: hexDigits := by
    rw [hex, List.mem_cons, List.mem_cons] at hch
    rw [List.mem_cons, List.mem_cons]
    exact hch.imp_right fun hch => hch.imp_right mem_hexDigits_of_mem_hexFrom
  exact hdigits ch hmem

theorem isPlain_hex (v : Address) : IsPlain (hex v) :=
  ⟨List.cons_ne_nil _ _, fun _ hch => ⟨(ne_of_mem_hex hch).1, (ne_of_mem_hex hch).2.1⟩⟩

/-! ### The lines -/

def dumpCommand (address : Address) (count : Nat) : Text :=
  unwords ["x".toList, hex address, hex (BitVec.ofNat 64 count)]

/-- The command that writes what a line shows. -/
def retyped (line : Text) : Text :=
  unwords ["set".toList, "memory".toList, line.filter (· ≠ ':')]

theorem filter_colon {shown value : Text} (hshown : ':' ∉ shown) (hvalue : ':' ∉ value) :
    (shown ++ [':', ' '] ++ value).filter (· ≠ ':') = shown ++ ' ' :: value := by
  have hkept : ∀ text : Text, ':' ∉ text → text.filter (· ≠ ':') = text := by
    intro text htext
    apply List.filter_eq_self.mpr
    intro ch hch
    simpa using ne_of_mem_of_not_mem hch htext
  rw [List.filter_append, List.filter_append, hkept shown hshown, hkept value hvalue,
    List.append_assoc]
  rfl

theorem retyped_memoryLine (address value : Address) :
    retyped (memoryLine address value)
      = unwords ["set".toList, "memory".toList, hex address, hex value] := by
  have hcolon : ": ".toList = [':', ' '] := by decide
  have hline : (memoryLine address value).filter (· ≠ ':') = hex address ++ ' ' :: hex value := by
    rw [memoryLine, hcolon]
    exact filter_colon (fun hmem => (ne_of_mem_hex hmem).2.2.1 rfl)
      fun hmem => (ne_of_mem_hex hmem).2.2.1 rfl
  rw [retyped, hline, unwords_last]

theorem words_retyped (address value : Address) :
    words (retyped (memoryLine address value))
      = ["set".toList, "memory".toList, hex address, hex value] := by
  rw [retyped_memoryLine]
  apply words_unwords
  have hset : IsPlain "set".toList := isPlain_of_all (by decide) (by decide)
  have hmemory : IsPlain "memory".toList := isPlain_of_all (by decide) (by decide)
  simpa using ⟨hset, hmemory, isPlain_hex address, isPlain_hex value⟩

theorem words_dumpCommand (address : Address) (count : Nat) :
    words (dumpCommand address count) = ["x".toList, hex address, hex (BitVec.ofNat 64 count)] := by
  apply words_unwords
  have hx : IsPlain "x".toList := isPlain_of_all (by decide) (by decide)
  simpa using ⟨hx, isPlain_hex address, isPlain_hex _⟩

theorem not_mem_memoryLine (address value : Address) : '\n' ∉ memoryLine address value := by
  intro hmem
  rw [memoryLine, List.mem_append, List.mem_append] at hmem
  rcases hmem with (hmem | hmem) | hmem
  · exact (ne_of_mem_hex hmem).2.2.2 rfl
  · revert hmem
    decide
  · exact (ne_of_mem_hex hmem).2.2.2 rfl

/-! ### Showing -/

section Still

variable (henv : env.WritesNothing) (hreliable : env.Reliable)

include henv hreliable

theorem readWord_reads (hs : s.SelectedStopped) (address : Address) :
    readWord env address s = .ok (word s.target.memory address) (env.enter s) := by
  obtain ⟨task, htask, hstopped⟩ := hs
  have hsame : (env.enter s).target.memory = s.target.memory := henv.memory _ _
  rw [readWord, get_bind_apply, hreliable.ptrace htask hstopped, ← hsame]

theorem printWords_rows (quoted : Quoted) (count : Nat) (hs : s.SelectedStopped) (address : Address) :
    ∃ t newer, printWords env address count s = .ok ⟨⟩ t ∧ t.log = newer ++ s.log ∧
      written quoted newer = (wordsAt s.target.memory address count).flatMap fun row =>
        endLine (memoryLine row.1 row.2) := by
  induction count generalizing s address with
  | zero => exact ⟨s, [], rfl, rfl, rfl⟩
  | succ count ih =>
      have hshown : ∃ u newer, (do
            print (.memoryRow address (word s.target.memory address))
            printWords env (address + 8) count) (env.enter s) = .ok ⟨⟩ u ∧ u.log = newer ++ s.log ∧
          written quoted newer = (wordsAt s.target.memory address (count + 1)).flatMap fun row =>
            endLine (memoryLine row.1 row.2) := by
        have hsame : (env.enter s).target.memory = s.target.memory := henv.memory _ _
        obtain ⟨t, newer, hrun, hlog, hwritten⟩ := ih (s := { env.enter s with
          log := .out (.memoryRow address (word s.target.memory address)) :: (env.enter s).log })
          (hreliable.enter hs) (address + 8)
        refine ⟨t, newer ++ .out (.memoryRow address (word s.target.memory address)) ::
          (env.interfere s.tick s.target).1.map Entry.target, ?_, ?_, ?_⟩
        · rw [bind_ok (print_apply _ _)]
          exact hrun
        · rw [hlog, enter_log, List.append_assoc]
          rfl
        · have hsilent : written quoted ((env.interfere s.tick s.target).1.map Entry.target) = [] := by
            rw [written, List.flatMap_eq_nil_iff]
            intro entry hmem
            obtain ⟨event, -, rfl⟩ := List.mem_map.mp (List.mem_reverse.mp hmem)
            rfl
          have hrow : written quoted [.out (.memoryRow address (word s.target.memory address))]
              = endLine (memoryLine address (word s.target.memory address)) := List.append_nil _
          rw [written_append, hwritten, ← List.singleton_append, written_append, hsilent,
            List.nil_append, hrow, hsame, wordsAt, List.flatMap_cons]
      obtain ⟨t, newer, hrun, hlog, hwritten⟩ := hshown
      refine ⟨t, newer, ?_, hlog, hwritten⟩
      have hread : (do
          let value ← readWord env address
          pure (Except.ok value) : Dbg R D (Except Exception Address)) s
            = .ok (.ok (word s.target.memory address)) (env.enter s) := by
        rw [bind_ok (readWord_reads henv hreliable hs address)]
        rfl
      rw [printWords, bind_ok (attempt_of_ok hread)]
      exact hrun

variable (arch) in
theorem commandLoop_dump (quoted : Quoted) {count : Nat} (hcount : count ≤ 1024)
    (hs : s.SelectedStopped) (address : Address) :
    ∃ t, commandLoop arch env s [dumpCommand address count] = some t ∧
      written quoted (s.entriesSince t) = (wordsAt s.target.memory address count).flatMap fun row =>
        endLine (memoryLine row.1 row.2) := by
  obtain ⟨t, newer, hrun, hlog, hwritten⟩ :=
    printWords_rows henv hreliable quoted count hs address
  have hnumber : (BitVec.ofNat 64 count).toNat = count := by
    rw [BitVec.toNat_ofNat]
    omega
  have hprint : runCommand arch env "x".toList
      ["x".toList, hex address, hex (BitVec.ofNat 64 count)] = printWords env address count := by
    have hmemory : printMemory env ["x".toList, hex address, hex (BitVec.ofNat 64 count)]
        = printWords env address count := by
      simp [printMemory, parseAddress_hex, hnumber, Nat.not_lt.mpr hcount]
    rw [← hmemory]
    rfl
  have hline : dispatch arch env (dumpCommand address count) s = .ok true t := by
    rw [dispatch, words_dumpCommand]
    dsimp only
    rw [hprint, if_neg (by decide), bind_ok (attempt_of_ok hrun)]
    rfl
  refine ⟨t, ?_, by rw [entriesSince_of_append hlog, hwritten]⟩
  rw [commandLoop, hline]
  rfl

/-! ### Typing back -/

theorem writeUserWord_writes (hs : s.SelectedStopped) (address value : Address) :
    ∃ t, writeUserWord env address value s = .ok ⟨⟩ t ∧ t.debugger = s.debugger ∧
      t.target.memory = setWord s.target.memory address value ∧ t.SelectedStopped := by
  obtain ⟨task, htask, hstopped⟩ := id hs
  have hsame : (env.enter s).target.memory = s.target.memory := henv.memory _ _
  have hpoke : pokeWord env address value s = .ok ⟨⟩ { env.enter s with
      target := { (env.enter s).target with
        memory := setWord (env.enter s).target.memory address value } } := by
    rw [pokeWord, get_bind_apply]
    exact hreliable.ptrace htask hstopped
  refine ⟨{ env.enter s with
    target := { (env.enter s).target with memory := setWord (env.enter s).target.memory address value }
    log := .userWrote address :: (env.enter s).log }, ?_, rfl, ?_, hreliable.enter hs⟩
  · rw [writeUserWord, bind_ok hpoke]
    rfl
  · exact congrArg (fun m => setWord m address value) hsame

variable (arch) in
theorem dispatch_retyped (hs : s.SelectedStopped) (address value : Address) :
    ∃ t, dispatch arch env (retyped (memoryLine address value)) s = .ok true t ∧
      t.debugger = s.debugger ∧ t.target.memory = setWord s.target.memory address value ∧
      t.SelectedStopped := by
  have hwrite : runCommand arch env "set".toList
      ["set".toList, "memory".toList, hex address, hex value] = writeUserWord env address value := by
    have hmemory : writeMemory env ["set".toList, "memory".toList, hex address, hex value]
        = writeUserWord env address value := by
      simp [writeMemory, parseAddress_hex]
    rw [← hmemory]
    rfl
  obtain ⟨t, hdone, hwritten⟩ := writeUserWord_writes henv hreliable hs address value
  refine ⟨t, ?_, hwritten⟩
  rw [dispatch, words_retyped]
  dsimp only
  rw [hwrite, if_neg (by decide), bind_ok (attempt_of_ok hdone)]
  rfl

variable (arch) in
theorem commandLoop_retyped (rows : List (Address × Address)) (hs : s.SelectedStopped) :
    ∃ t, commandLoop arch env s (rows.map fun row => retyped (memoryLine row.1 row.2)) = some t ∧
      t.debugger = s.debugger ∧ t.target.memory = setWords s.target.memory rows := by
  induction rows generalizing s with
  | nil => exact ⟨s, rfl, rfl, rfl⟩
  | cons row rest ih =>
      obtain ⟨u, hline, hdebugger, hmemory, hu⟩ :=
        dispatch_retyped arch henv hreliable hs row.1 row.2
      obtain ⟨t, hrest, hdebugger', hmemory'⟩ := ih hu
      refine ⟨t, ?_, hdebugger'.trans hdebugger, ?_⟩
      · rw [List.map_cons, commandLoop, hline]
        exact hrest
      · rw [hmemory', hmemory]
        rfl

end Still

/-- What `x` shows of one process, typed into a session with another one, makes the memory of that one
hold the same in the window that was shown, and changes nothing else there. -/
theorem commandLoop_retypes {R' D' : Type} {arch' : Architecture R' D'} {env' : Environment R' D'}
    (henv : env.WritesNothing) (hreliable : env.Reliable) (henv' : env'.WritesNothing)
    (hreliable' : env'.Reliable) (quoted : Quoted) {u : State R' D'} (hs : s.SelectedStopped)
    (hu : u.SelectedStopped) (address : Address) {count : Nat} (hcount : count ≤ 1024) :
    ∃ t v, commandLoop arch env s [dumpCommand address count] = some t ∧
      commandLoop arch' env' u ((getLines (written quoted (s.entriesSince t))).map retyped) = some v ∧
      v.debugger = u.debugger ∧
      v.target.memory = fun x =>
        if (x - address).toNat < 8 * count then s.target.memory x else u.target.memory x := by
  obtain ⟨t, hdump, hwritten⟩ := commandLoop_dump arch henv hreliable quoted hcount hs address
  obtain ⟨v, hretype, hdebugger, hmemory⟩ :=
    commandLoop_retyped arch' henv' hreliable' (wordsAt s.target.memory address count) hu
  refine ⟨t, v, hdump, ?_, hdebugger, ?_⟩
  · rw [hwritten, getLines_flatMap fun row _ => not_mem_memoryLine row.1 row.2, List.map_map]
    exact hretype
  · rw [hmemory, setWords_wordsAt _ (by omega)]

theorem commandLoop_retypes_nops :
    ∃ t v, commandLoop x86_64 (nopMachine fun _ => []) nopStart [dumpCommand 0x1003 2] = some t ∧
      commandLoop aarch64 stillMachine stillStart
        ((getLines (written ⟨fun _ => none, fun _ => [], [], fun _ => none⟩
          (nopStart.entriesSince t))).map retyped) = some v ∧
      v.debugger = stillStart.debugger ∧
      v.target.memory = fun x =>
        if (x - 0x1003).toNat < 8 * 2 then nopText x else stillStart.target.memory x :=
  commandLoop_retypes nopMachine_atomic.still (Machine.reliable fun _ => rfl) stillMachine_atomic.still
    stillMachine_reliable _ ⟨stoppedTask 0x1000, rfl, rfl⟩ ⟨stillTask, rfl, rfl⟩ 0x1003 (by decide)

end Cosy
