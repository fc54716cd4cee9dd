import Cosy.Reliable

/-!
# What stays as it is

Functions that work on the target leave the debugger's own fields alone, and `enable` and `disable`
change nothing there but the record they work on.
-/

namespace Cosy

open ByteMemory Effect

variable {R D α : Type} {arch : Architecture R D} {env : Environment R D}

/-- `Q` does not mind requests, which leave the memory maps alone, nor entries in the log of which
`A` holds. -/
structure Tolerates (env : Environment R D) (A : Entry → Prop)
    (Q : State R D → State R D → Prop) : Prop where
  request : ∀ {α : Type} {operation : String} {tid : Tid}
    {request : Task R D → Target R D → α × Target R D},
    (∀ task target, (request task target).2.maps = target.maps) →
      Within Q (Cosy.ptrace env operation tid request)
  note : ∀ entry, A entry → Within Q (Cosy.note entry)

section Tolerates

variable {A : Entry → Prop} {Q : State R D → State R D → Prop} (hQ : Tolerates env A Q)

include hQ

theorem Tolerates.peeks : Peeks env Q where
  peek := hQ.request fun _ _ => rfl

theorem Tolerates.pokeWord (address value : Address) : Within Q (pokeWord env address value) :=
  .get_bind fun s => hQ.request (fun _ _ => rfl) s

theorem Tolerates.print {message : Message} (hmessage : A (.out message)) :
    Within Q (print message) := hQ.note _ hmessage

variable [IsPreorder (State R D) Q]

theorem Tolerates.writeBytes (address : Address) (bytes : List Byte) :
    Within Q (writeBytes env address bytes) :=
  (hQ.peeks.gatherWords bytes _ _).bind fun words =>
    .forM words.entries fun entry _ => hQ.pokeWord entry.1 entry.2

theorem Tolerates.setPc {tid : Tid} {value : Address} (hentry : A (.setPc tid value)) :
    Within Q (setPc arch env tid value) :=
  (hQ.request fun _ _ => rfl).bind fun _ =>
    (hQ.request fun _ _ => rfl).bind fun _ => hQ.note _ hentry

theorem Tolerates.inspectWatchpoints (hhit : ∀ id address, A (.out (.hitWatchpoint id address)))
    (tid : Tid) (watchpoints : List Watchpoint) :
    Within Q (inspectWatchpoints env tid watchpoints) := by
  induction watchpoints with
  | nil => exact .pure _
  | cons watchpoint rest ih =>
      refine Within.bind (Within.rescue (hQ.request fun _ _ => rfl) fun _ => .pure _) fun code => ?_
      exact Within.ite (fun _ => hQ.print (hhit _ _)) fun _ => ih

theorem Tolerates.printLocation (hline : ∀ function location, A (.out (.atLine function location)))
    (hfunction : ∀ function pc, A (.out (.atFunction function pc))) (tid : Tid) :
    Within Q (printLocation arch env tid) := by
  refine Within.get_bind fun s => Within.bind (hQ.peeks.pc tid) (fun _ => ?_) s
  refine Within.bind (hQ.peeks.pc tid) fun _ => Within.ite (fun _ => hQ.print (hline _ _)) fun _ => ?_
  exact Within.ite (fun _ => Within.bind (hQ.peeks.pc tid) fun _ => hQ.print (hfunction _ _))
    fun _ => .pure _

end Tolerates

/-- The debugger's own fields are the same. -/
def SameDebugger (s t : State R D) : Prop := t.debugger = s.debugger

instance : IsPreorder (State R D) SameDebugger where
  refl _ := rfl
  trans _ _ _ hst htu := htu.trans hst

theorem sameDebugger (env : Environment R D) : Tolerates env (fun _ => True) SameDebugger where
  request {_ operation tid request} _ s := by
    rcases ptrace_cases env operation tid request s with ⟨task, -, -, -, hrun⟩ | ⟨-, hrun⟩
    · rw [WithinAt, endState_of_ok hrun]
      rfl
    · rw [WithinAt, endState_of_error hrun]
      rfl
  note _ _ := Within.modify fun _ => rfl

/-! ### Inserting and lifting a trap -/

/-- The debugger with one record changed. -/
def Debugger.withRecord (d : Debugger) (key : Address) (change : Breakpoint → Breakpoint) :
    Debugger :=
  { d with breakpoints := d.breakpoints.modify key change }

/-- A record after `enable` on it. -/
def Breakpoint.armedWith (r : Breakpoint) (saved : List Byte) : Breakpoint :=
  { r with saved := saved, enabled := true }

theorem Debugger.withRecord_withRecord (d : Debugger) (key : Address)
    (first second : Breakpoint → Breakpoint) :
    (d.withRecord key first).withRecord key second = d.withRecord key (second ∘ first) := by
  have hmap : (d.breakpoints.modify key first).modify key second
      = d.breakpoints.modify key (second ∘ first) := by
    refine SortedMap.ext_find? fun key' => ?_
    simp only [SortedMap.find?_modify]
    split <;> simp
  simp only [Debugger.withRecord, hmap]

theorem insertTrap_debugger (key address : Address) (s : State R D) :
    Triple (fun t => t = s) (insertTrap arch env key address)
      (fun _ t => ∃ saved, t.debugger = s.debugger.withRecord key fun r => r.armedWith saved)
      (fun _ t => t.debugger = s.debugger ∨
        ∃ saved, t.debugger = s.debugger.withRecord key fun r => { r with saved := saved }) := by
  rw [insertTrap]
  refine Triple.bind ((((sameDebugger env).peeks.readBytes _ _).triple s).conseq (fun _ ht => ht) (fun _ _ ht => ht)
    fun _ _ ht => Or.inl ht) fun saved => ?_
  refine Triple.bind (Q := fun _ t => t.debugger
      = s.debugger.withRecord key fun r => { r with saved := saved })
    (Triple.modify fun t ht => congrArg (fun d => Debugger.withRecord d key _) ht) fun _ => ?_
  refine Triple.bind (Triple.of_within ((sameDebugger env).writeBytes _ _)
    (Q := fun _ t => t.debugger = s.debugger.withRecord key fun r => { r with saved := saved })
    (fun _ t (ht : t.debugger = _) hs _ => ht.trans hs)
    (fun _ t (ht : t.debugger = _) hs _ => Or.inr ⟨saved, ht.trans hs⟩)) fun _ =>
    Triple.modify fun t ht => ⟨saved, ?_⟩
  change t.debugger.withRecord key _ = _
  rw [ht, Debugger.withRecord_withRecord]
  rfl

/-- `enable` on a disabled record: the record is enabled after a return and disabled after an
exception, and nothing else is different. -/
theorem enable_debugger {key : Address} {s : State R D} {r : Breakpoint}
    (hr : s.debugger.breakpoints.find? key = some r) (hpending : r.pending = false)
    (hdisabled : r.enabled = false) :
    Triple (fun t => t = s) (enable arch env key)
      (fun _ t => ∃ saved, t.debugger = s.debugger.withRecord key fun r => r.armedWith saved)
      (fun _ t => t.debugger = s.debugger ∨
        ∃ saved, t.debugger = s.debugger.withRecord key fun r => { r with saved := saved }) := by
  rintro s rfl
  rw [enable, get_bind_apply, hr]
  simp only [hpending, hdisabled, Bool.false_and, Bool.or_false, Bool.false_eq_true, if_false]
  exact Triple.onThrow (insertTrap_debugger key r.address { s with log := .arming key :: s.log })
    (fun _ _ ht => ht) _ rfl

/-- `disable` changes at most the flag of its record. -/
theorem disable_debugger (env : Environment R D) (key : Address) (s : State R D) :
    Triple (fun t => t = s) (disable env key)
      (fun _ t => t.debugger = s.debugger ∨
        t.debugger = s.debugger.withRecord key fun r => { r with enabled := false })
      (fun _ t => t.debugger = s.debugger) := by
  rintro s rfl
  rw [disable, get_bind_apply]
  cases s.debugger.breakpoints.find? key with
  | none => exact Or.inl rfl
  | some r =>
      dsimp only
      by_cases hguard : (r.pending || !r.enabled || r.saved.isEmpty) = true
      · rw [if_pos hguard]
        exact Or.inl rfl
      · rw [if_neg hguard]
        refine Triple.bind ((((sameDebugger env).writeBytes _ _).triple s).conseq (fun _ ht => ht)
          (fun _ _ ht => ht) fun _ _ ht => ht) (fun _ t ht => ?_) s rfl
        exact Or.inr (congrArg (fun d => Debugger.withRecord d key _) ht)

end Cosy
