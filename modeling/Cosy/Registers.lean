import Cosy.AddressSyntax
import Cosy.DebugControl
import Cosy.Inspection
import Cosy.Layering
import Cosy.Lib.RegisterFile

/-!
# Registers by name

Both back ends read and write registers by name, and by the numbers that DWARF gives them, out of
tables that are written down one by one. They agree: what is written under a name is read under every
name of the same register, and no other register has changed.
-/

namespace Cosy

open Effect RegisterFile

variable {R D C : Type} {arch : Architecture R D} {env : Environment R D} {s t : State R D}

/-! ### Writing and reading -/

/-- Reading and writing by name, where a name says which cell of the register file it means. -/
structure RegisterLens (arch : Architecture R D) (cells : R → C → Address)
    (Names Writes : Text → C → Prop) : Prop where
  oneCell : ∀ name cell other, Names name cell → Names name other → cell = other
  read : ∀ regs name value,
    arch.registerValue regs name = some value ↔ ∃ cell, Names name cell ∧ cells regs cell = value
  accepts : ∀ regs name value,
    (arch.setRegisterValue regs name value).isSome = true ↔ ∃ cell, Writes name cell
  written : ∀ regs name value regs', arch.setRegisterValue regs name value = some regs' →
    ∃ cell, Writes name cell ∧ Names name cell ∧ arch.registerValue regs' name = some value ∧
      (∀ other, other ≠ cell → cells regs' other = cells regs other) ∧
      (∀ name', Names name' cell → arch.registerValue regs' name' = some value) ∧
      (∀ name', ¬ Names name' cell →
        arch.registerValue regs' name' = arch.registerValue regs name') ∧
      ∀ name', Writes name' cell → ∀ later,
        arch.setRegisterValue regs' name' later = arch.setRegisterValue regs name later
  unchanged : ∀ regs name value cell, Writes name cell → arch.registerValue regs name = some value →
    arch.setRegisterValue regs name value = some regs

theorem registerLens_of_access [DecidableEq C] {cells : R ≃ (C → Address)}
    {readable writable : Text → Option C} {Names Writes : Text → C → Prop}
    (haccess : Access cells arch.registerValue arch.setRegisterValue readable writable)
    (hreadable : ∀ name cell, readable name = some cell ↔ Names name cell)
    (hwritable : ∀ name cell, writable name = some cell ↔ Writes name cell) :
    RegisterLens arch cells Names Writes where
  oneCell name cell other hcell hother :=
    Option.some.inj (((hreadable name cell).mpr hcell).symm.trans ((hreadable name other).mpr hother))
  read regs name value := by
    simp only [haccess.read_eq_some_iff, hreadable]
  accepts regs name value := by
    simp only [haccess.isSome_write_iff, hwritable]
  written regs name value regs' hwrite := by
    obtain ⟨cell, hname, rfl⟩ := haccess.exists_put hwrite
    have hread := haccess.readable_of_writable name cell hname
    refine ⟨cell, (hwritable name cell).mp hname, (hreadable name cell).mp hread,
      haccess.read_put hread, ?_, ?_, ?_, ?_⟩
    · intro other hne
      rw [cells_put, Function.update_of_ne hne]
    · intro name' hname'
      exact haccess.read_put ((hreadable name' cell).mpr hname')
    · intro name' hname'
      exact haccess.read_put_of_ne fun hsame => hname' ((hreadable name' cell).mp hsame)
    · intro name' hname' later
      exact haccess.write_put hname ((hwritable name' cell).mpr hname') later
  unchanged regs name value cell hname hread :=
    haccess.write_read ((hwritable name cell).mpr hname) hread

/-! ### In a session -/

/-- What is read and written of the registers of threads that are stopped. -/
structure RegisterCalls (arch : Architecture R D) (env : Environment R D) : Prop where
  read : ∀ (s t : State R D) tid task regs, s.target.tasks.find? tid = some task →
    task.stopped = true → getRegs arch env tid s = .ok regs t → regs = task.regs
  numbered : ∀ (s t : State R D) tid task number value, s.target.tasks.find? tid = some task →
    task.stopped = true → dwarfRegister arch env tid number s = .ok value t →
      value = registerIn arch task.regs number
  written : ∀ (s t : State R D) task name value written,
    s.target.tasks.find? s.debugger.selectedTid = some task → task.stopped = true →
      writeRegister arch env name value s = .ok written t →
      ∃ regs, t.target.tasks.find? s.debugger.selectedTid = some { task with regs := regs } ∧
        (written = true ∧ arch.setRegisterValue task.regs name value = some regs ∨
          written = false ∧ arch.setRegisterValue task.regs name value = none ∧
            regs = task.regs) ∧
        ∀ tid other, tid ≠ s.debugger.selectedTid → s.target.tasks.find? tid = some other →
          other.stopped = true → t.target.tasks.find? tid = some other

theorem registerCalls (hsteady : env.Steady) : RegisterCalls arch env where
  read s t tid task regs htask hstopped hrun :=
    (hsteady.ptrace_ok htask hstopped hrun).1
  numbered s t tid task number value htask hstopped hrun := by
    unfold dwarfRegister dwarfRegisterWith at hrun
    rw [registerIn_eq_bind]
    cases hselect : arch.dwarfRegister number with
    | none =>
        rw [hselect] at hrun
        exact (EStateM.Result.ok.inj hrun).1.symm
    | some select =>
        rw [hselect] at hrun
        obtain ⟨regs, u, hregs, hpure⟩ := of_bind_ok hrun
        obtain ⟨rfl, -⟩ := hsteady.ptrace_ok htask hstopped hregs
        exact (EStateM.Result.ok.inj hpure).1.symm
  written s t task name value written htask hstopped hrun := by
    rw [writeRegister, get_bind_apply] at hrun
    obtain ⟨regs, u, hregs, hrest⟩ := of_bind_ok hrun
    obtain ⟨rfl, hu⟩ := hsteady.ptrace_ok htask hstopped hregs
    have hkept : StopsKept s.target u.target := by
      rw [hu]
      exact hsteady _ _
    cases hset : arch.setRegisterValue task.regs name value with
    | none =>
        rw [hset] at hrest
        obtain ⟨rfl, rfl⟩ := EStateM.Result.ok.inj hrest
        exact ⟨task.regs, hkept _ _ htask hstopped, Or.inr ⟨rfl, rfl, rfl⟩,
          fun tid other _ hother hflag => hkept tid other hother hflag⟩
    | some regs =>
        rw [hset] at hrest
        obtain ⟨_, v, hwrite, hpure⟩ := of_bind_ok hrest
        obtain ⟨rfl, rfl⟩ := EStateM.Result.ok.inj hpure
        obtain ⟨-, hv⟩ := hsteady.ptrace_ok (hkept _ _ htask hstopped) hstopped hwrite
        refine ⟨regs, ?_, Or.inl ⟨rfl, rfl⟩, ?_⟩
        · rw [hv]
          exact SortedMap.find?_insert_self _ _ _
        · intro tid other hne hother hflag
          rw [hv]
          refine (SortedMap.find?_insert_of_ne _ _ hne).trans ?_
          exact hsteady _ _ _ _ (hkept tid other hother hflag) hflag

/-! ### Registers of x86-64 -/

namespace X86_64

/-- The fields of `user_regs_struct`. -/
inductive Register where
  | r15
  | r14
  | r13
  | r12
  | rbp
  | rbx
  | r11
  | r10
  | r9
  | r8
  | rax
  | rcx
  | rdx
  | rsi
  | rdi
  | origRax
  | rip
  | cs
  | eflags
  | rsp
  | ss
  | fsBase
  | gsBase
  | ds
  | es
  | fs
  | gs
deriving DecidableEq

def Register.name : Register → Text
  | r15 => "r15".toList
  | r14 => "r14".toList
  | r13 => "r13".toList
  | r12 => "r12".toList
  | rbp => "rbp".toList
  | rbx => "rbx".toList
  | r11 => "r11".toList
  | r10 => "r10".toList
  | r9 => "r9".toList
  | r8 => "r8".toList
  | rax => "rax".toList
  | rcx => "rcx".toList
  | rdx => "rdx".toList
  | rsi => "rsi".toList
  | rdi => "rdi".toList
  | origRax => "orig_rax".toList
  | rip => "rip".toList
  | cs => "cs".toList
  | eflags => "eflags".toList
  | rsp => "rsp".toList
  | ss => "ss".toList
  | fsBase => "fs_base".toList
  | gsBase => "gs_base".toList
  | ds => "ds".toList
  | es => "es".toList
  | fs => "fs".toList
  | gs => "gs".toList

def cells : UserRegs ≃ (Register → Address) where
  toFun r
    | .r15 => r.r15
    | .r14 => r.r14
    | .r13 => r.r13
    | .r12 => r.r12
    | .rbp => r.rbp
    | .rbx => r.rbx
    | .r11 => r.r11
    | .r10 => r.r10
    | .r9 => r.r9
    | .r8 => r.r8
    | .rax => r.rax
    | .rcx => r.rcx
    | .rdx => r.rdx
    | .rsi => r.rsi
    | .rdi => r.rdi
    | .origRax => r.origRax
    | .rip => r.rip
    | .cs => r.cs
    | .eflags => r.eflags
    | .rsp => r.rsp
    | .ss => r.ss
    | .fsBase => r.fsBase
    | .gsBase => r.gsBase
    | .ds => r.ds
    | .es => r.es
    | .fs => r.fs
    | .gs => r.gs
  invFun values :=
    { r15 := values .r15
      r14 := values .r14
      r13 := values .r13
      r12 := values .r12
      rbp := values .rbp
      rbx := values .rbx
      r11 := values .r11
      r10 := values .r10
      r9 := values .r9
      r8 := values .r8
      rax := values .rax
      rcx := values .rcx
      rdx := values .rdx
      rsi := values .rsi
      rdi := values .rdi
      origRax := values .origRax
      rip := values .rip
      cs := values .cs
      eflags := values .eflags
      rsp := values .rsp
      ss := values .ss
      fsBase := values .fsBase
      gsBase := values .gsBase
      ds := values .ds
      es := values .es
      fs := values .fs
      gs := values .gs }
  left_inv _ := rfl
  right_inv values := by
    funext register
    cases register <;> rfl

/-- The registers that can be read, in the order of `find_register`. -/
def readRegisters : List Register :=
  [.rax, .rbx, .rcx, .rdx, .rsi, .rdi, .rbp, .rsp, .r8, .r9, .r10, .r11, .r12, .r13, .r14, .r15,
    .rip, .eflags, .cs, .ss, .ds, .es, .fs, .gs, .fsBase, .gsBase, .origRax]

/-- The registers that are listed. -/
def listedRegisters : List Register :=
  [.rax, .rbx, .rcx, .rdx, .rsi, .rdi, .rbp, .rsp, .r8, .r9, .r10, .r11, .r12, .r13, .r14, .r15,
    .rip, .eflags, .cs, .ss, .fsBase, .gsBase]

/-- The registers that can be written. -/
def writtenRegisters : List Register :=
  [.rax, .rbx, .rcx, .rdx, .rsi, .rdi, .rbp, .rsp, .r8, .r9, .r10, .r11, .r12, .r13, .r14, .r15,
    .rip, .eflags]

/-- The registers in the order of their DWARF numbers. -/
def dwarfRegisters : List Register :=
  [.rax, .rdx, .rcx, .rbx, .rsi, .rdi, .rbp, .rsp, .r8, .r9, .r10, .r11, .r12, .r13, .r14, .r15,
    .rip]

def named (registers : List Register) : List (Text × Register) :=
  registers.map fun register => (register.name, register)

theorem nodup_readRegisters : (readRegisters.map Register.name).Nodup := by decide +kernel

theorem mem_readRegisters (register : Register) : register ∈ readRegisters := by
  cases register <;> decide

theorem writtenRegisters_sublist : writtenRegisters.Sublist readRegisters := by decide

theorem lookup_named_eq_some_iff {registers : List Register} (hsub : registers.Sublist readRegisters)
    {name : Text} {register : Register} : lookup (named registers) name = some register ↔
      register ∈ registers ∧ register.name = name := by
  have hnodup : ((named registers).map Prod.fst).Nodup := by
    rw [named, List.map_map]
    exact nodup_readRegisters.sublist (hsub.map _)
  rw [lookup_eq_some_iff hnodup, named, List.mem_map]
  constructor
  · rintro ⟨found, hfound, hsame⟩
    obtain ⟨rfl, rfl⟩ := Prod.mk.inj hsame
    exact ⟨hfound, rfl⟩
  · rintro ⟨hmem, rfl⟩
    exact ⟨register, hmem, rfl⟩

theorem findRegister_eq (r : UserRegs) (name : Text) :
    findRegister r name = (lookup (named readRegisters) name).map (cells r) := by
  rw [← find?_map_values]
  rfl

theorem setRegisterValue_eq (r : UserRegs) (name : Text) (value : Address) :
    setRegisterValue r name value
      = (lookup (named writtenRegisters) name).map fun register => put cells r register value := by
  unfold setRegisterValue named writtenRegisters
  simp only [List.map_cons, List.map_nil, map_lookup_cons, lookup_nil, Option.map_none]
  rfl

/-- The name is the register's own. -/
def Names (name : Text) (register : Register) : Prop := register.name = name

def Writes (name : Text) (register : Register) : Prop :=
  register ∈ writtenRegisters ∧ register.name = name

theorem lookup_readRegisters_iff (name : Text) (register : Register) :
    lookup (named readRegisters) name = some register ↔ Names name register :=
  (lookup_named_eq_some_iff (List.Sublist.refl _)).trans
    (and_iff_right (mem_readRegisters register))

theorem access : Access cells findRegister setRegisterValue (lookup (named readRegisters))
    (lookup (named writtenRegisters)) where
  read_eq := findRegister_eq
  write_eq := setRegisterValue_eq
  readable_of_writable name register hwritten := by
    have hname := (lookup_named_eq_some_iff writtenRegisters_sublist).mp hwritten
    exact (lookup_readRegisters_iff name register).mpr hname.2

theorem registerLens : RegisterLens x86_64 cells Names Writes :=
  registerLens_of_access access lookup_readRegisters_iff fun _ _ =>
    lookup_named_eq_some_iff writtenRegisters_sublist

theorem findRegister_name (r : UserRegs) (register : Register) :
    findRegister r register.name = some (cells r register) :=
  (registerLens.read r register.name _).mpr ⟨register, rfl, rfl⟩

theorem registerIn_eq (regs : UserRegs) (number : Nat) :
    registerIn x86_64 regs number = dwarfRegisters[number]?.map (cells regs) := by
  have hnames : dwarfNames = dwarfRegisters.map Register.name := rfl
  rw [registerIn_eq_bind]
  change ((dwarfNames[number]?.map fun name r => findRegister r name).bind fun select =>
    select regs) = _
  rw [hnames, List.getElem?_map]
  cases dwarfRegisters[number]? with
  | none => rfl
  | some register => exact findRegister_name regs register

/-- Every register that is listed can be read, and is shown as it is read. -/
theorem findRegister_of_listed (r : UserRegs) :
    ∀ entry ∈ registers r, findRegister r entry.1 = some entry.2 := by
  have hlist : registers r
      = listedRegisters.map fun register => (register.name, cells r register) := rfl
  rw [hlist]
  intro entry hentry
  obtain ⟨register, -, rfl⟩ := List.mem_map.mp hentry
  exact findRegister_name r register

end X86_64

/-! ### Registers of AArch64 -/

namespace AArch64

variable {name digits : Text} {number : Nat}

/-- The fields of `user_pt_regs`, those of its array one by one. -/
inductive Register where
  | x (number : Nat)
  | sp
  | pc
  | pstate
deriving DecidableEq

def cells : UserPtRegs ≃ (Register → Address) where
  toFun regs
    | .x number => regs.regs number
    | .sp => regs.sp
    | .pc => regs.pc
    | .pstate => regs.pstate
  invFun values :=
    { regs := fun number => values (.x number)
      sp := values .sp
      pc := values .pc
      pstate := values .pstate }
  left_inv _ := rfl
  right_inv values := by
    funext register
    cases register <;> rfl

/-- The names of the registers: two of them have a second one, and a number below 31 may be spelled
in every way that an address may. -/
inductive Names : Text → Register → Prop
  | sp : Names "sp".toList .sp
  | pc : Names "pc".toList .pc
  | fp : Names "fp".toList (.x 29)
  | lr : Names "lr".toList (.x 30)
  | x {digits : Text} {number : Nat} (hdigits : Denotes digits number) (hnumber : number < 31) :
      Names ('x' :: digits) (.x number)

/-- The registers in the order of their DWARF numbers. -/
def dwarfRegisters : List Register := (List.range 31).map .x ++ [.sp]

def cellOf (name : Text) : Option Register :=
  if name = "sp".toList then some .sp
  else if name = "pc".toList then some .pc
  else if name = "fp".toList then some (.x 29)
  else if name = "lr".toList then some (.x 30)
  else (numbered name).map .x

theorem registerValue_eq (regs : UserPtRegs) (name : Text) :
    registerValue regs name = (cellOf name).map (cells regs) := by
  unfold registerValue cellOf
  simp only [apply_ite (Option.map _), Option.map_some, Option.map_map]
  rfl

theorem put_x (regs : UserPtRegs) (number : Nat) (value : Address) :
    put cells regs (.x number) value = setX regs number value := by
  have hregs := Function.update_comp_eq_of_injective (cells regs)
    (fun _ _ hsame => Register.x.inj hsame) number value
  exact congrArg (fun values => ({ regs with regs := values } : UserPtRegs)) hregs

theorem setRegisterValue_eq (regs : UserPtRegs) (name : Text) (value : Address) :
    setRegisterValue regs name value
      = (cellOf name).map fun register => put cells regs register value := by
  unfold setRegisterValue cellOf
  simp only [apply_ite (Option.map _), Option.map_some, Option.map_map, Function.comp_def, put_x]
  rfl

theorem numbered_eq_some_iff :
    numbered name = some number ↔
      ∃ digits, name = 'x' :: digits ∧ Denotes digits number ∧ number < 31 := by
  unfold numbered
  constructor
  · intro hnumbered
    split at hnumbered
    · rename_i digit rest
      split at hnumbered
      · rename_i value hparse
        split at hnumbered
        · rename_i hlt
          obtain rfl := Option.some.inj hnumbered
          exact ⟨digit :: rest, rfl, parseAddress_eq_iff.mp hparse, hlt⟩
        · cases hnumbered
      · cases hnumbered
    · cases hnumbered
  · rintro ⟨digits, rfl, hdigits, hlt⟩
    have hsmall : (BitVec.ofNat 64 number).toNat = number := by
      rw [BitVec.toNat_ofNat]
      omega
    have hparse : parseAddress digits = some (BitVec.ofNat 64 number) :=
      parseAddress_eq_iff.mpr (hsmall.symm ▸ hdigits)
    cases digits with
    | nil => cases hparse
    | cons digit rest =>
        simp only [hparse, hsmall, if_pos hlt]

theorem cellOf_eq_some_iff (name : Text) (register : Register) :
    cellOf name = some register ↔ Names name register := by
  constructor
  · intro hcell
    unfold cellOf at hcell
    split_ifs at hcell with hsp hpc hfp hlr
    · obtain rfl := Option.some.inj hcell
      exact hsp ▸ .sp
    · obtain rfl := Option.some.inj hcell
      exact hpc ▸ .pc
    · obtain rfl := Option.some.inj hcell
      exact hfp ▸ .fp
    · obtain rfl := Option.some.inj hcell
      exact hlr ▸ .lr
    · obtain ⟨number, hnumbered, rfl⟩ := Option.map_eq_some_iff.mp hcell
      obtain ⟨digits, rfl, hdigits, hnumber⟩ := numbered_eq_some_iff.mp hnumbered
      exact .x hdigits hnumber
  · intro hname
    cases hname with
    | sp => rfl
    | pc => rfl
    | fp => rfl
    | lr => rfl
    | @x digits number hdigits hnumber =>
        have hother : ∀ text : Text, text.head? ≠ some 'x' → 'x' :: digits ≠ text := by
          rintro text hhead rfl
          exact hhead rfl
        unfold cellOf
        rw [if_neg (hother "sp".toList (by decide)), if_neg (hother "pc".toList (by decide)),
          if_neg (hother "fp".toList (by decide)), if_neg (hother "lr".toList (by decide)),
          numbered_eq_some_iff.mpr ⟨digits, rfl, hdigits, hnumber⟩, Option.map_some]

theorem access : Access cells registerValue setRegisterValue cellOf cellOf where
  read_eq := registerValue_eq
  write_eq := setRegisterValue_eq
  readable_of_writable _ _ := id

theorem registerLens : RegisterLens aarch64 cells Names Names :=
  registerLens_of_access access cellOf_eq_some_iff cellOf_eq_some_iff

theorem registerIn_eq (regs : UserPtRegs) (number : Nat) :
    registerIn aarch64 regs number = dwarfRegisters[number]?.map (cells regs) := by
  rw [registerIn_eq_bind]
  change ((dwarfRegister number).bind fun select => select regs) = _
  have hlength : ((List.range 31).map Register.x).length = 31 := by
    rw [List.length_map, List.length_range]
  unfold dwarfRegister dwarfRegisters
  by_cases hx : number ≤ 30
  · have hlt : number < 31 := by omega
    rw [if_pos hx, List.getElem?_append_left (by omega), List.getElem?_map,
      List.getElem?_range hlt]
    rfl
  rw [if_neg hx, List.getElem?_append_right (by omega), hlength]
  by_cases hsp : number = 31
  · subst hsp
    rfl
  · rw [if_neg hsp, List.getElem?_eq_none (by simp; omega)]
    rfl

/-- Every register that is listed can be read, the status register apart. -/
theorem registerValue_of_listed (regs : UserPtRegs) : ∀ entry ∈ registers regs,
    registerValue regs entry.1 = if entry.1 = "pstate".toList then none else some entry.2 := by
  have hspelled : ∀ index < 31,
      parseAddress (toString index).toList = some (BitVec.ofNat 64 index) := by decide +kernel
  intro entry hentry
  rcases List.mem_append.mp hentry with hx | hlast
  · obtain ⟨index, hindex, rfl⟩ := List.mem_map.mp hx
    have hlt := List.mem_range.mp hindex
    have hdigits := parseAddress_eq_iff.mp (hspelled index hlt)
    have hsmall : (BitVec.ofNat 64 index).toNat = index := by
      rw [BitVec.toNat_ofNat]
      omega
    rw [hsmall] at hdigits
    have hother : 'x' :: (toString index).toList ≠ "pstate".toList := by
      intro hsame
      have hhead : some 'x' = some 'p' := congrArg List.head? hsame
      exact absurd hhead (by decide)
    rw [if_neg hother]
    exact (registerLens.read regs _ _).mpr ⟨.x index, .x hdigits hlt, rfl⟩
  · rcases List.mem_cons.mp hlast with rfl | hlast
    · rfl
    rcases List.mem_cons.mp hlast with rfl | hlast
    · rfl
    obtain rfl := List.mem_singleton.mp hlast
    rfl

end AArch64

/-! ### Both back ends -/

/-- A register that is written under a name is read back under all of its names, nothing else changes,
and the numbers of DWARF lead to the registers they stand for. -/
theorem registers_lens :
    RegisterLens x86_64 X86_64.cells X86_64.Names X86_64.Writes ∧
    RegisterLens aarch64 AArch64.cells AArch64.Names AArch64.Names ∧
    (∀ regs name value, (aarch64.setRegisterValue regs name value).isSome = true ↔
      (aarch64.registerValue regs name).isSome = true) ∧
    (∀ regs number, registerIn x86_64 regs number
      = X86_64.dwarfRegisters[number]?.map (X86_64.cells regs)) ∧
    (∀ regs number, registerIn aarch64 regs number
      = AArch64.dwarfRegisters[number]?.map (AArch64.cells regs)) ∧
    (∀ env : Environment UserRegs X86_64.DebugRegisters, env.Steady → RegisterCalls x86_64 env) ∧
    ∀ env : Environment UserPtRegs AArch64.HardwareDebugState, env.Steady →
      RegisterCalls aarch64 env := by
  refine ⟨X86_64.registerLens, AArch64.registerLens, ?_, X86_64.registerIn_eq,
    AArch64.registerIn_eq, fun env => registerCalls, fun env => registerCalls⟩
  intro regs name value
  change (AArch64.setRegisterValue regs name value).isSome = true ↔
    (AArch64.registerValue regs name).isSome = true
  rw [AArch64.registerValue_eq, AArch64.setRegisterValue_eq, Option.isSome_map, Option.isSome_map]

/-- `lr` is `x30`, and `x0X1e` is as well. -/
theorem lens_of_link_register :
    RegisterCalls aarch64 stillMachine ∧
      ∃ regs', aarch64.setRegisterValue stillTask.regs "lr".toList 7 = some regs' ∧
        aarch64.registerValue regs' "x0X1e".toList = some 7 := by
  obtain ⟨-, hlens, -, -, -, -, hcalls⟩ := registers_lens
  have hdigits : Denotes "0X1e".toList 30 := (parseAddress_eq_iff (v := 30#64)).mp (by decide)
  have hlt : 30 < 31 := by decide
  refine ⟨hcalls stillMachine fun _ _ _ _ htask _ => htask, _, rfl, ?_⟩
  obtain ⟨cell, -, hname, -, -, hread, -, -⟩ := hlens.written stillTask.regs "lr".toList 7 _ rfl
  obtain rfl := hlens.oneCell _ _ _ hname .lr
  exact hread _ (.x hdigits hlt)

end Cosy
