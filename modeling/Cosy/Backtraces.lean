import Cosy.Lib.Climbing
import Cosy.FrameBase
import Cosy.Isolation
import Cosy.SelectedFrame

/-!
# Walking the stack

`backtrace` follows the saved frame pointers. Each must lie above the last one, so the walk cannot go
round in a circle whatever memory holds, and a word that cannot be read ends it. The frame pointer of
the outermost activation is null and lies above nothing: the walk ends before that activation is seen.
-/

namespace Cosy

open ByteMemory Climbing Effect

variable {R D : Type} {arch : Architecture R D} {env : Environment R D} {s t : State R D} {m : Memory}
  {regs : R} {readable : Address → Bool}

/-! ### What a walk finds -/

section Answers

-- What the two words of a frame are found to be: its caller and the frame of that, or nothing.
variable (answers : Address → Option (Address × Address) → Prop)

/-- A frame leads to its caller's, which lies above it. -/
def Leads (frame caller : Address × Address) : Prop :=
  frame.2 ≠ 0 ∧ answers frame.2 (some caller) ∧ frame.2 < caller.2

/-- The reasons for which a frame may be the last one. -/
def Ends (frame : Address × Address) : Prop :=
  frame.2 = 0 ∨ answers frame.2 none ∨
    ∃ caller, answers frame.2 (some caller) ∧ caller.2 ≤ frame.2

/-- The frames of a stack that may be corrupt: they rise, each is found through the one before, and the
last of fewer than 64 is one that the walk cannot go on from. -/
structure SoundFrames (start : Address × Address) (frames : List (Address × Address)) : Prop where
  first : frames.head? = some start
  length_le : frames.length ≤ 64
  rising : (frames.map Prod.snd).Pairwise (· < ·)
  callers : frames.IsChain fun frame caller => answers frame.2 (some caller)
  ends : frames.length < 64 → ∀ last ∈ frames.getLast?, Ends answers last

variable {answers}

theorem soundFrames_of_climb {start : Address × Address} {frames : List (Address × Address)}
    (hclimb : Climb (Leads answers) (Ends answers) 64 start frames) :
    SoundFrames answers start frames where
  first := hclimb.head
  length_le := hclimb.length_le
  rising := hclimb.pairwise fun _ _ hleads => hleads.2.2
  callers := hclimb.linked.imp fun _ _ hleads => hleads.2.1
  ends := hclimb.ends

variable {ε κ σ : Type} {find : Address → EStateM ε σ (Option (Address × Address))} {I : σ → Prop}

/-- One round of the loop after another. The frames passed lie below the one that is looked at, so
that it is none of them. -/
theorem triple_backtraceFromWith
    (hfind : ∀ frame, Triple I (find frame) (fun caller t => I t ∧ answers frame caller)
      fun _ _ => False)
    (depth : Nat) : ∀ (seen : List Address) (current frame : Address), (∀ x ∈ seen, x < frame) →
      Triple I (backtraceFromWith find seen current frame depth)
        (fun frames t => I t ∧ Climb (Leads answers) (Ends answers) depth (current, frame) frames)
        fun _ _ => False := by
  induction depth with
  | zero => exact fun _ _ _ _ => Triple.pure fun _ hs => ⟨hs, .spent _⟩
  | succ depth ih =>
      intro seen current frame hseen
      rw [backtraceFromWith]
      by_cases hzero : frame = 0
      · rw [if_pos (Or.inl hzero)]
        exact Triple.pure fun _ hs => ⟨hs, .stop (Or.inl hzero)⟩
      have hnew : ¬ (frame = 0 ∨ frame ∈ seen) := by
        rintro (hzero' | hmem)
        · exact hzero hzero'
        · exact absurd (hseen frame hmem) (lt_irrefl frame)
      rw [if_neg hnew]
      refine (hfind frame).bind fun caller => ?_
      rintro s ⟨hs, hanswer⟩
      cases caller with
      | none => exact ⟨hs, .stop (Or.inr (Or.inl hanswer))⟩
      | some caller =>
          obtain ⟨current', next⟩ := caller
          dsimp only
          by_cases hle : next ≤ frame
          · rw [if_pos hle]
            exact ⟨hs, .stop (Or.inr (Or.inr ⟨_, hanswer, hle⟩))⟩
          · rw [if_neg hle]
            have hlt : frame < next := lt_of_not_ge hle
            have hbelow : ∀ x ∈ frame :: seen, x < next :=
              List.forall_mem_cons.mpr ⟨hlt, fun x hx => lt_trans (hseen x hx) hlt⟩
            refine ((ih (frame :: seen) current' next hbelow).bind fun rest => ?_) s hs
            exact Triple.pure fun _ ht => ⟨ht.1, .go ⟨hzero, hanswer, hlt⟩ ht.2⟩

/-- The whole walk, from the registers on. -/
theorem backtraceWith_ok {select : ε → Option κ} {read : Address → EStateM ε σ Address}
    (arch : Architecture R D) (regs : EStateM ε σ R)
    (hcaller : ∀ frame, Triple I (callerWith select read frame)
      (fun caller t => I t ∧ answers frame caller) fun _ _ => False)
    {s u v : σ} {current frame : Address}
    (hpc : (do let regs ← regs; pure (arch.pc regs)) s = .ok current u)
    (hframe : framePointerWith arch regs u = .ok frame v) (hv : I v) :
    ∃ frames t, backtraceWith arch select regs read s = .ok frames t ∧
      Climb (Leads answers) (Ends answers) 64 (current, frame) frames := by
  have hwalk := triple_backtraceFromWith hcaller 64 [] current frame fun x hx => by cases hx
  obtain ⟨frames, t, hrun, -, hclimb⟩ := hwalk.exists_ok hv
  refine ⟨frames, t, ?_, hclimb⟩
  rw [backtraceWith, bind_ok hpc, bind_ok hframe]
  exact hrun

end Answers

/-! ### Unreadable addresses -/

/-- `read_word` over the memory `m`, of which some words can be read. -/
def readWordIn (readable : Address → Bool) (m : Memory) (address : Address) :
    EStateM Exception PUnit Address :=
  if readable address then pure (word m address) else throw (.system "PTRACE_PEEKDATA")

/-- The two words of a frame, if both can be read. -/
def frameWords (readable : Address → Bool) (m : Memory) (frame : Address) :
    Option (Address × Address) :=
  if readable (frame + 8) && readable frame then some (word m (frame + 8), word m frame) else none

theorem callerWith_readWordIn (readable : Address → Bool) (m : Memory) (frame : Address) :
    callerWith some (readWordIn readable m) frame = pure (frameWords readable m frame) := by
  funext s
  unfold callerWith readWordIn frameWords
  cases readable (frame + 8) <;> cases readable frame <;> rfl

/-- With its registers at hand the walk returns, whatever cannot be read. -/
theorem backtraceWith_climb (arch : Architecture R D) (regs : R) (readable : Address → Bool)
    (m : Memory) : ∃ frames,
      backtraceWith arch some (pure regs) (readWordIn readable m) ⟨⟩ = .ok frames ⟨⟩ ∧
      Climb (Leads fun frame caller => frameWords readable m frame = caller)
        (Ends fun frame caller => frameWords readable m frame = caller) 64
        (arch.pc regs, arch.framePointer regs) frames := by
  have hcaller : ∀ frame, Triple (fun _ => True) (callerWith some (readWordIn readable m) frame)
      (fun caller _ => True ∧ frameWords readable m frame = caller) fun _ _ => False := by
    intro frame
    rw [callerWith_readWordIn]
    exact Triple.pure fun _ _ => ⟨trivial, rfl⟩
  obtain ⟨frames, t, hrun, hclimb⟩ :=
    backtraceWith_ok arch (pure regs) (s := ⟨⟩) hcaller rfl rfl trivial
  exact ⟨frames, hrun, hclimb⟩

/-! ### Requests that fail -/

/-- Both words of a frame, by requests. -/
def readFrame (env : Environment R D) (frame : Address) : Dbg R D (Address × Address) := do
  let caller ← readWord env (frame + 8)
  let next ← readWord env frame
  pure (caller, next)

/-- What the process answered when it was asked for a frame: the words that stand in memory, or one of
the requests failed. -/
inductive Asked (env : Environment R D) (s : State R D) (frame : Address) :
    Option (Address × Address) → Prop
  | read {u v : State R D} {words : Address × Address} (hu : Requested s s.target.memory u)
      (hread : readFrame env frame u = .ok words v)
      (hwords : words = (word s.target.memory (frame + 8), word s.target.memory frame)) :
      Asked env s frame (some words)
  | unread {u v : State R D} {halt : Halt} (hu : Requested s s.target.memory u)
      (hread : readFrame env frame u = .error halt v) : Asked env s frame none

theorem requested_peeks (henv : env.WritesNothing) : Peeks env (Keeps (Requested s m)) where
  peek {_ operation tid look} t ht := by
    rcases ptrace_cases env operation tid (fun task target => (look task target, target)) t with
      ⟨task, -, -, -, hrun⟩ | ⟨-, hrun⟩
    · rw [endState_of_ok hrun]
      exact ht.enter henv
    · rw [endState_of_error hrun]
      exact ht.enter henv

theorem triple_readWord (henv : env.WritesNothing) (address : Address) :
    Triple (Requested s m) (readWord env address)
      (fun value t => Requested s m t ∧ value = word m address)
      fun halt t => Requested s m t ∧ ∃ exception, halt = .thrown exception := by
  intro t ht
  have hentered := ht.enter henv
  rw [readWord, get_bind_apply]
  rcases ptrace_cases env "PTRACE_PEEKDATA" t.debugger.selectedTid
      (fun _ target => (word target.memory address, target)) t with ⟨task, -, -, -, hok⟩ | ⟨-, herror⟩
  · rw [hok]
    exact ⟨hentered, congrArg (word · address) hentered.memory⟩
  · rw [herror]
    exact ⟨hentered, _, rfl⟩

theorem triple_readFrame (henv : env.WritesNothing) (frame : Address) :
    Triple (Requested s m) (readFrame env frame)
      (fun words t => Requested s m t ∧ words = (word m (frame + 8), word m frame))
      fun halt t => Requested s m t ∧ ∃ exception, halt = .thrown exception := by
  refine (triple_readWord henv (frame + 8)).bind fun caller => ?_
  rintro t ⟨ht, rfl⟩
  refine ((triple_readWord henv frame).bind fun next => ?_) t ht
  exact Triple.pure fun u hu => ⟨hu.1, by rw [hu.2]⟩

theorem callerWith_readWord (frame : Address) :
    callerWith Halt.exception? (readWord env) frame
      = attempt (readFrame env frame >>= fun words => pure (some words)) fun _ => pure none := by
  simp only [callerWith, readFrame, attempt, bind_assoc, pure_bind]

theorem triple_callerWith (henv : env.WritesNothing) (frame : Address) :
    Triple (Requested s s.target.memory) (callerWith Halt.exception? (readWord env) frame)
      (fun caller t => Requested s s.target.memory t ∧ Asked env s frame caller)
      fun _ _ => False := by
  intro u hu
  have hread := triple_readFrame henv frame u hu
  rw [callerWith_readWord, attempt, rescue, bind_apply]
  cases hrun : readFrame env frame u with
  | ok words v =>
      rw [hrun] at hread
      exact ⟨hread.1, .read hu hrun hread.2⟩
  | error halt v =>
      rw [hrun] at hread
      obtain ⟨hv, exception, rfl⟩ := hread
      exact ⟨hv, .unread hu hrun⟩

/-- In a process that stands still the walk returns as soon as the registers can be read, whichever
requests fail after that. -/
theorem backtrace_climb (henv : env.WritesNothing) {u v : State R D} {current frame : Address}
    (hpc : pc arch env s.debugger.selectedTid s = .ok current u)
    (hframe : framePointer arch env s.debugger.selectedTid u = .ok frame v) :
    ∃ frames t, backtrace arch env s = .ok frames t ∧
      Climb (Leads (Asked env s)) (Ends (Asked env s)) 64 (current, frame) frames := by
  have hpeeks := requested_peeks (s := s) (m := s.target.memory) henv
  have hu : Requested s s.target.memory u := (hpeeks.pc _).of_ok hpc (Requested.refl s)
  have hv : Requested s s.target.memory v := (hpeeks.framePointer _).of_ok hframe hu
  rw [backtrace, get_bind_apply]
  exact backtraceWith_ok arch _ (triple_callerWith (s := s) henv) hpc hframe hv

/-- Whatever memory holds and whichever of its words cannot be read, the walk returns, and what it
returns is a stack as far as it can be followed. The same is true of the requests to a process that
stands still, once the registers have been read. -/
theorem backtrace_sound (arch : Architecture R D) :
    (∀ (regs : R) (m : Memory) (readable : Address → Bool), ∃ frames,
      backtraceWith arch some (pure regs) (readWordIn readable m) ⟨⟩ = .ok frames ⟨⟩ ∧
      SoundFrames (fun frame caller => frameWords readable m frame = caller)
        (arch.pc regs, arch.framePointer regs) frames) ∧
    ∀ (env : Environment R D) (s u v : State R D) (current frame : Address), env.WritesNothing →
      pc arch env s.debugger.selectedTid s = .ok current u →
      framePointer arch env s.debugger.selectedTid u = .ok frame v →
      ∃ frames t, backtrace arch env s = .ok frames t ∧
        SoundFrames (Asked env s) (current, frame) frames := by
  constructor
  · intro regs m readable
    obtain ⟨frames, hrun, hclimb⟩ := backtraceWith_climb arch regs readable m
    exact ⟨frames, hrun, soundFrames_of_climb hclimb⟩
  · intro env s u v current frame henv hpc hframe
    obtain ⟨frames, t, hrun, hclimb⟩ := backtrace_climb henv hpc hframe
    exact ⟨frames, t, hrun, soundFrames_of_climb hclimb⟩

/-- The frame at `0x8000` leads to one at `0x8100`, and that to one at `0x8200`, which leads nowhere. -/
def threeFrames : State UserPtRegs AArch64.HardwareDebugState :=
  deepFrame.withMemory (setWord (setWord (setWord (setWord (fun _ => 0) 0x8000 0x8100) 0x8008 0x1004)
    0x8100 0x8200) 0x8108 0x1020)

theorem backtrace_sound_threeFrames : ∃ frames t,
    backtrace aarch64 stillMachine threeFrames = .ok frames t ∧
      frames = [(0x1010, 0x8000), (0x1004, 0x8100), (0x1020, 0x8200)] ∧
      SoundFrames (Asked stillMachine threeFrames) (0x1010, 0x8000) frames := by
  obtain ⟨frames, t, hrun, hsound⟩ := (backtrace_sound aarch64).2 stillMachine threeFrames _ _
    0x1010 0x8000 stillMachine_atomic.still rfl rfl
  have hcheck : (match backtrace aarch64 stillMachine threeFrames with
      | .ok frames _ => decide (frames = [(0x1010, 0x8000), (0x1004, 0x8100), (0x1020, 0x8200)])
      | .error _ _ => false) = true := by decide +kernel
  rw [hrun] at hcheck
  exact ⟨frames, t, hrun, of_decide_eq_true hcheck, hsound⟩

/-! ### Well-formed stacks -/

/-- The activations on a stack, the innermost first. The frame pointer of the outermost is null. -/
inductive Activations (words : Address → Option (Address × Address)) :
    List (Address × Address) → Prop
  | outermost (current : Address) : Activations words [(current, 0)]
  | called {current frame caller next : Address} {rest : List (Address × Address)}
      (hframe : frame ≠ 0) (hwords : words frame = some (caller, next))
      (hrises : next = 0 ∨ frame < next) (hrest : Activations words ((caller, next) :: rest)) :
      Activations words ((current, frame) :: (caller, next) :: rest)

variable {words : Address → Option (Address × Address)} {chain : List (Address × Address)}

/-- The walk ends one activation too early, unless there is only one. -/
theorem Activations.climb (hchain : Activations words chain) : ∀ n, chain.length ≤ n →
    ∀ start ∈ chain.head?, Climb (Leads fun frame caller => words frame = caller)
      (Ends fun frame caller => words frame = caller) n start
        (if chain.length = 1 then chain else chain.dropLast) := by
  induction hchain with
  | outermost current =>
      intro n hlength start hstart
      obtain rfl := Option.some.inj hstart
      obtain ⟨n, rfl⟩ := Nat.exists_eq_succ_of_ne_zero (Nat.one_le_iff_ne_zero.mp hlength)
      exact .stop (Or.inl rfl)
  | @called current frame caller next rest hframe hwords hrises hrest ih =>
      intro n hlength start hstart
      obtain rfl := Option.some.inj hstart
      obtain ⟨n, rfl⟩ : ∃ k, n = k + 1 := Nat.exists_eq_add_of_le' (le_trans (by simp) hlength)
      rw [if_neg (by simp), List.dropLast_cons_cons]
      by_cases hzero : next = 0
      · subst hzero
        cases hrest with
        | outermost => exact .stop (Or.inr (Or.inr ⟨_, hwords, Nat.zero_le _⟩))
        | called hframe' => exact absurd rfl hframe'
      · have hlt : frame < next := hrises.resolve_left hzero
        have habove := ih n (Nat.le_of_succ_le_succ hlength) (caller, next) rfl
        cases hrest with
        | outermost => exact absurd rfl hzero
        | called _ _ _ _ =>
            rw [if_neg (by simp)] at habove
            exact .go ⟨hframe, hwords, hlt⟩ habove

theorem leads_unique (words : Address → Option (Address × Address)) (x y y' : Address × Address)
    (hy : Leads (fun frame caller => words frame = caller) x y)
    (hy' : Leads (fun frame caller => words frame = caller) x y') : y = y' :=
  Option.some.inj (hy.2.1.symm.trans hy'.2.1)

theorem not_ends_of_leads (words : Address → Option (Address × Address)) (x y : Address × Address)
    (hy : Leads (fun frame caller => words frame = caller) x y) :
    ¬ Ends (fun frame caller => words frame = caller) x := by
  obtain ⟨hframe, hwords, hlt⟩ := hy
  rintro (hzero | hnone | ⟨caller, hcaller, hle⟩)
  · exact hframe hzero
  · cases hwords.symm.trans hnone
  · obtain rfl := Option.some.inj (hwords.symm.trans hcaller)
    exact absurd hlt (not_lt_of_ge hle)

/-- What a walk over well-formed activations returns is all of them only where there is one. -/
theorem Activations.eq_iff (hchain : Activations words chain) (hlength : chain.length ≤ 64)
    {start : Address × Address} (hstart : chain.head? = some start)
    {frames : List (Address × Address)}
    (hclimb : Climb (Leads fun frame caller => words frame = caller)
      (Ends fun frame caller => words frame = caller) 64 start frames) :
    frames = chain ↔ chain.length = 1 := by
  have hframes := hclimb.unique (leads_unique words) (not_ends_of_leads words)
    (hchain.climb 64 hlength start hstart)
  rw [hframes]
  by_cases hone : chain.length = 1
  · rw [if_pos hone]
    exact iff_of_true rfl hone
  · rw [if_neg hone]
    refine iff_of_false (fun hsame => ?_) hone
    have hlast := congrArg List.length hsame
    rw [List.length_dropLast] at hlast
    have hpos : 0 < chain.length := by
      cases hchain <;> simp
    omega

theorem frameWords_of_readable {frame : Address} {caller : Address × Address}
    (hwords : frameWords readable m frame = some caller) :
    frameWords (fun _ => true) m frame = some caller := by
  unfold frameWords at hwords ⊢
  split at hwords
  · exact hwords
  · cases hwords

theorem Activations.mono {words' : Address → Option (Address × Address)}
    (hwords : ∀ frame caller, words frame = some caller → words' frame = some caller)
    (hchain : Activations words chain) : Activations words' chain := by
  induction hchain with
  | outermost current => exact .outermost current
  | called hframe hcaller hrises _ ih => exact .called hframe (hwords _ _ hcaller) hrises ih

/-- A process that stands still and answers every request. -/
theorem backtrace_inspecting (arch : Architecture R D) (henv : env.WritesNothing)
    (hreliable : env.Reliable) (hs : Inspecting s m s.debugger.selectedTid regs s) : ∃ frames t,
      backtrace arch env s = .ok frames t ∧
      Climb (Leads fun frame caller => frameWords (fun _ => true) m frame = caller)
        (Ends fun frame caller => frameWords (fun _ => true) m frame = caller) 64
        (arch.pc regs, arch.framePointer regs) frames := by
  have hcaller : ∀ frame, Triple (Inspecting s m s.debugger.selectedTid regs)
      (callerWith Halt.exception? (readWord env) frame)
      (fun caller t => Inspecting s m s.debugger.selectedTid regs t ∧
        frameWords (fun _ => true) m frame = caller) fun _ _ => False := by
    intro frame t ht
    obtain ⟨u, hrun, hu⟩ := finds_caller henv hreliable frame t ht
    rw [hrun]
    exact ⟨hu, rfl⟩
  have hpc : Finds (Inspecting s m s.debugger.selectedTid regs)
      (pc arch env s.debugger.selectedTid) (arch.pc regs) :=
    (finds_getRegs henv hreliable).bind (.pure _)
  obtain ⟨u, hrunPc, hu⟩ := hpc s hs
  obtain ⟨v, hrunFrame, hv⟩ := finds_framePointer henv hreliable u hu
  rw [backtrace, get_bind_apply]
  exact backtraceWith_ok arch _ hcaller hrunPc hrunFrame hv

/-- All activations are shown only if the thread stands in the outermost one. With more of them the
outermost is left out. -/
theorem backtrace_complete_iff (arch : Architecture R D) {regs : R}
    (hchain : Activations (frameWords readable m) chain) (hlength : chain.length ≤ 64)
    (hstart : chain.head? = some (arch.pc regs, arch.framePointer regs)) :
    (backtraceWith arch some (pure regs) (readWordIn readable m) ⟨⟩ = .ok chain ⟨⟩ ↔
      chain.length = 1) ∧
    ∀ (env : Environment R D) (s : State R D), env.WritesNothing → env.Reliable →
      Inspecting s m s.debugger.selectedTid regs s →
        ((∃ t, backtrace arch env s = .ok chain t) ↔ chain.length = 1) := by
  constructor
  · obtain ⟨frames, hrun, hclimb⟩ := backtraceWith_climb arch regs readable m
    rw [hrun, ← hchain.eq_iff hlength hstart hclimb]
    constructor
    · intro hsame
      exact (EStateM.Result.ok.inj hsame).1
    · rintro rfl
      rfl
  · intro env s henv hreliable hs
    obtain ⟨frames, t, hrun, hclimb⟩ := backtrace_inspecting arch henv hreliable hs
    have hchain' := hchain.mono fun frame caller => frameWords_of_readable
    rw [hrun, ← hchain'.eq_iff hlength hstart hclimb]
    constructor
    · rintro ⟨u, hsame⟩
      exact (EStateM.Result.ok.inj hsame).1
    · rintro rfl
      exact ⟨t, rfl⟩

/-- A thread at `0x1010`, in a function that the outermost one called at `0x1000`. -/
def twoDeep : State UserPtRegs AArch64.HardwareDebugState :=
  deepFrame.withMemory (setWord (fun _ => 0) 0x8008 0x1004)

def twoDeepRegs : UserPtRegs := ⟨fun number => if number = 29 then 0x8000 else 0, 0x8000, 0x1010, 0⟩

theorem inspecting_twoDeep : Inspecting twoDeep twoDeep.target.memory 1 twoDeepRegs twoDeep :=
  ⟨Requested.refl _, ⟨_, rfl, rfl⟩, _, rfl, rfl, rfl⟩

/-- The caller is not in the backtrace. -/
theorem backtrace_without_outermost :
    Inspecting twoDeep twoDeep.target.memory 1 twoDeepRegs twoDeep ∧
      Activations (frameWords (fun _ => true) twoDeep.target.memory)
        [(0x1010, 0x8000), (0x1004, 0)] ∧
      (∃ t, backtrace aarch64 stillMachine twoDeep = .ok [(0x1010, 0x8000)] t) ∧
      ¬ ∃ t, backtrace aarch64 stillMachine twoDeep = .ok [(0x1010, 0x8000), (0x1004, 0)] t := by
  have hwords : frameWords (fun _ => true) twoDeep.target.memory 0x8000 = some (0x1004, 0) := by
    decide +kernel
  have hchain : Activations (frameWords (fun _ => true) twoDeep.target.memory)
      [(0x1010, 0x8000), (0x1004, 0)] :=
    .called (by decide) hwords (Or.inl rfl) (.outermost _)
  obtain ⟨frames, t, hrun, hclimb⟩ := backtrace_inspecting aarch64
    stillMachine_atomic.still stillMachine_reliable inspecting_twoDeep
  have hstop : Climb (Leads fun frame caller =>
        frameWords (fun _ => true) twoDeep.target.memory frame = caller)
      (Ends fun frame caller => frameWords (fun _ => true) twoDeep.target.memory frame = caller) 64
      (0x1010, 0x8000) [(0x1010, 0x8000)] :=
    .stop (Or.inr (Or.inr ⟨_, hwords, Nat.zero_le _⟩))
  rw [hclimb.unique (leads_unique _) (not_ends_of_leads _) hstop] at hrun
  refine ⟨inspecting_twoDeep, hchain, ⟨t, hrun⟩, ?_⟩
  rintro ⟨u, hboth⟩
  cases hrun.symm.trans hboth

/-- The outermost activation is shown where the thread stands in it. -/
theorem backtrace_of_outermost :
    ∃ t, backtrace aarch64 stillMachine stillStart = .ok [(0x1000, 0)] t :=
  ((backtrace_complete_iff aarch64
    (.outermost 0x1000 : Activations (frameWords (fun _ => true) stillText) [(0x1000, 0)])
    (by decide) rfl).2 stillMachine stillStart stillMachine_atomic.still stillMachine_reliable
      ⟨Requested.refl _, ⟨_, rfl, rfl⟩, _, rfl, rfl, rfl⟩).mpr rfl

end Cosy
