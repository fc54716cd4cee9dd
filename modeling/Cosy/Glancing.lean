import Cosy.Obeying

/-!
# Nothing but a look

A line that asks for a look leaves the process alone. Whatever goes on in it meanwhile, with however
many threads, it is what it would have become over as many system calls by itself; and the debugger
remembers nothing but the frame it has shown.
-/

namespace Cosy

open Effect

variable {R D : Type} {arch : Architecture R D} {env : Environment R D} {s t : State R D}

/-- What becomes of the process over a system call that changes nothing. -/
def Environment.pass (env : Environment R D) (now : Nat × Target R D) : Nat × Target R D :=
  (now.1 + 1, (env.interfere now.1 now.2).2)

/-- What the process does, and what is shown that is not a hit. -/
def Entry.isSeen : Entry → Bool
  | .target _ => true
  | .out message => (Entry.out message).announcedHit.isNone
  | _ => false

/-- Nothing has been done but to look. -/
structure Glanced (env : Environment R D) (s t : State R D) : Prop where
  debugger : t.debugger = { s.debugger with selectedFrame := t.debugger.selectedFrame }
  passed : ∃ calls, (t.tick, t.target) = env.pass^[calls] (s.tick, s.target)
  log : ∃ newer, t.log = newer ++ s.log ∧ ∀ entry ∈ newer, entry.isSeen = true

instance : IsPreorder (State R D) (Glanced env) where
  refl s := ⟨rfl, ⟨0, rfl⟩, ⟨[], rfl, by simp⟩⟩
  trans s t u hst htu := by
    refine ⟨?_, ?_, ?_⟩
    · rw [htu.debugger, hst.debugger]
    · obtain ⟨before, hbefore⟩ := hst.passed
      obtain ⟨after, hafter⟩ := htu.passed
      refine ⟨after + before, ?_⟩
      rw [hafter, hbefore, Function.iterate_add_apply]
    · obtain ⟨first, hfirst, hseen⟩ := hst.log
      obtain ⟨later, hlater, hseen'⟩ := htu.log
      refine ⟨later ++ first, by rw [hlater, hfirst, List.append_assoc], fun entry hmem => ?_⟩
      exact (List.mem_append.mp hmem).elim (hseen' entry) (hseen entry)

theorem glanced_enter (s : State R D) : Glanced env s (env.enter s) where
  debugger := rfl
  passed := ⟨1, rfl⟩
  log := by
    refine ⟨_, enter_log env s, fun entry hmem => ?_⟩
    obtain ⟨event, -, rfl⟩ := List.mem_map.mp hmem
    rfl

theorem displays_glanced : Displays env (Glanced (R := R) (D := D) env) where
  peek := by
    intro α operation tid look s
    rcases ptrace_cases env operation tid (fun task target => (look task target, target)) s with
      ⟨task, -, -, -, hrun⟩ | ⟨-, hrun⟩
    · rw [WithinAt, endState_of_ok hrun]
      exact glanced_enter s
    · rw [WithinAt, endState_of_error hrun]
      exact glanced_enter s
  display := by
    intro message hmessage s
    refine ⟨rfl, ⟨0, rfl⟩, ⟨[.out message], rfl, fun entry hmem => ?_⟩⟩
    obtain rfl := List.mem_singleton.mp hmem
    rw [Entry.isSeen, hmessage]
    rfl

theorem glanced_selectFrame (frame : Nat) :
    Within (Glanced env) (modifyDebugger (R := R) (D := D) fun d => { d with selectedFrame := frame }) :=
  Within.modify fun _ => ⟨rfl, ⟨0, rfl⟩, ⟨[], rfl, by simp⟩⟩

/-- Such a line neither quits nor resumes the target. -/
theorem not_commandIs_of_look {line : Text} (hlook : asks line = some .look) :
    commandIs isQuit line = false ∧ commandIs resumes line = false := by
  unfold asks at hlook
  unfold commandIs
  cases hwords : words line with
  | nil => exact ⟨rfl, rfl⟩
  | cons command rest =>
      rw [hwords] at hlook
      dsimp only at hlook
      split at hlook
      · cases hlook
      · rename_i hquit
        exact ⟨Bool.eq_false_iff.mpr hquit, resumes_of_look hlook⟩

theorem within_dispatch_of_look {line : Text} (hlook : asks line = some .look) :
    Within (Glanced env) (dispatch arch env line) := by
  unfold asks at hlook
  unfold dispatch
  cases hwords : words line with
  | nil => exact .pure _
  | cons command rest =>
      rw [hwords] at hlook
      dsimp only at hlook ⊢
      split at hlook
      · cases hlook
      · rename_i hquit
        rw [if_neg hquit]
        have hrun : Within (Glanced env) (runCommand arch env command (command :: rest)) :=
          displays_glanced.runCommand glanced_selectFrame hlook
        exact (Within.rescue hrun fun _ => displays_glanced.display rfl).bind fun _ => .pure _

theorem dispatch_glances {line : Text} (hlook : asks line = some .look) :
    ∃ t, dispatch arch env line s = .ok true t ∧ Glanced env s t := by
  obtain ⟨hquit, hresumes⟩ := not_commandIs_of_look hlook
  obtain ⟨t, hrun, -⟩ : ∃ t, dispatch arch env line s = .ok true t ∧ Rested s t :=
    dispatch_settles hquit fun hresumes' => by rw [hresumes] at hresumes'; cases hresumes'
  exact ⟨t, hrun, (within_dispatch_of_look hlook).of_ok hrun⟩

/-- After any number of looks the process is what it would have become by itself, the debugger has
nothing but another frame selected, and nothing has happened but what the process did and what was
shown, none of it a hit. -/
theorem commandLoop_glances (s : State R D) (lines : List Text)
    (hlook : ∀ line ∈ lines, asks line = some .look) :
    ∃ t, commandLoop arch env s lines = some t ∧ Glanced env s t := by
  induction lines generalizing s with
  | nil => exact ⟨s, rfl, refl_of (Glanced env) s⟩
  | cons line rest ih =>
      obtain ⟨u, hfirst, hsu⟩ : ∃ u, dispatch arch env line s = .ok true u ∧ Glanced env s u :=
        dispatch_glances (hlook line List.mem_cons_self)
      obtain ⟨t, hrest, hut⟩ := ih u fun other hmem => hlook other (List.mem_cons_of_mem _ hmem)
      refine ⟨t, ?_, trans_of (Glanced env) hsu hut⟩
      rw [commandLoop, hfirst]
      exact hrest

/-- A thread creates another one while the debugger waits. -/
def cloningMachine : Environment UserRegs X86_64.DebugRegisters :=
  nopMachine fun now => if now = 11 then [.clone 1 2 fun _ => 0] else []

theorem commandLoop_glances_clone :
    ∃ s t, Prompt x86_64 cloningMachine (State.initial 1 (nopTarget 1)) s ∧
      commandLoop x86_64 cloningMachine s
        ["info threads".toList, "bt".toList, "x 0x1000 4".toList, "frame 3".toList] = some t ∧
      Glanced cloningMachine s t := by
  obtain ⟨s, hs, -⟩ := Prompt.exists_of_runBatch x86_64 cloningMachine
    (State.initial 1 (nopTarget 1)) ["b *0x1003".toList, "c".toList] (p := fun _ => true)
    (by decide +kernel)
  obtain ⟨t, ht⟩ := commandLoop_glances s
    ["info threads".toList, "bt".toList, "x 0x1000 4".toList, "frame 3".toList] (by decide +kernel)
  exact ⟨s, t, hs, ht⟩

end Cosy
