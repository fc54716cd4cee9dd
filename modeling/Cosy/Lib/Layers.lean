import Cosy.Lib.ByteMemory

/-!
# Layers over a memory

A layer is put over a memory by writing bytes somewhere and keeping the bytes that were there. Taken
off newest first, the layers give back the memory under them. A layer may also be taken off from
between the others, as long as no newer one overlaps it; what the newer one keeps is otherwise a
piece of the layer that is gone.
-/

namespace ByteMemory

/-- Where a layer is, and the bytes that were there when it was put in. -/
structure Layer where
  address : BitVec 64
  saved : List (BitVec 8)

def Layer.covers (layer : Layer) (x : BitVec 64) : Prop :=
  (x - layer.address).toNat < layer.saved.length

/-- The byte a layer keeps of what is under it. -/
def Layer.under (layer : Layer) (x : BitVec 64) : BitVec 8 :=
  layer.saved.getD (x - layer.address).toNat 0

def Layer.lift (layer : Layer) (m : Memory) : Memory := store m layer.address layer.saved

/-- The memory without the layers, the newest of which come first. -/
def unwind : List Layer → Memory → Memory
  | [], m => m
  | layer :: older, m => unwind older (layer.lift m)

/-- The `n` bytes from `a` and those from `b` have none in common. -/
def apart (n : Nat) (a b : BitVec 64) : Bool := n ≤ (a - b).toNat && n ≤ (b - a).toNat

section Apart

variable {n : Nat} {a b x : BitVec 64}

theorem apart_comm : apart n a b = apart n b a := Bool.and_comm _ _

/-- Single bytes are apart unless they are the same. -/
theorem apart_one (hne : a ≠ b) : apart 1 a b = true := by
  rw [apart, Bool.and_eq_true, decide_eq_true_eq, decide_eq_true_eq]
  constructor <;> bv_omega

theorem not_both_of_apart (hapart : apart n a b = true) (ha : (x - a).toNat < n) :
    ¬ (x - b).toNat < n := by
  unfold apart at hapart
  rw [Bool.and_eq_true, decide_eq_true_eq, decide_eq_true_eq] at hapart
  intro hb
  by_cases hle : (x - b).toNat ≤ (x - a).toNat
  · have hsub : (b - a).toNat = (x - a).toNat - (x - b).toNat := by bv_omega
    omega
  · have hsub : (a - b).toNat = (x - b).toNat - (x - a).toNat := by bv_omega
    omega

/-- A write leaves the bytes apart from it as they are. -/
theorem bytesAt_store_of_apart (m : Memory) {bytes : List (BitVec 8)}
    (hapart : apart n a b = true) (hlength : bytes.length = n) (hn : n ≤ 2 ^ 64) :
    bytesAt (store m a bytes) b n = bytesAt m b n := by
  apply bytesAt_congr
  intro i hi
  have hin : (b + BitVec.ofNat 64 i - b).toNat < n := by
    rwa [add_sub_toNat b (hi.trans_le hn)]
  rw [store, hlength, if_neg (not_both_of_apart (apart_comm.trans hapart) hin)]

end Apart

section Layers

variable {layer : Layer} {newer older layers : List Layer} {m : Memory} {x : BitVec 64}

theorem lift_of_covers (hcovers : layer.covers x) : layer.lift m x = layer.under x := if_pos hcovers

theorem lift_of_not_covers (hcovers : ¬ layer.covers x) : layer.lift m x = m x := if_neg hcovers

/-- The bytes that a write replaces are put back. -/
theorem lift_store (m : Memory) (a : BitVec 64) (bytes : List (BitVec 8)) :
    Layer.lift ⟨a, bytesAt m a bytes.length⟩ (store m a bytes) = m := by
  funext x
  by_cases hx : (x - a).toNat < bytes.length
  · have hcovers : Layer.covers ⟨a, bytesAt m a bytes.length⟩ x := by
      rwa [Layer.covers, length_bytesAt]
    rw [lift_of_covers hcovers, Layer.under, getD_bytesAt m hx, add_ofNat_sub_toNat]
  · have hcovers : ¬ Layer.covers ⟨a, bytesAt m a bytes.length⟩ x := by
      rwa [Layer.covers, length_bytesAt]
    rw [lift_of_not_covers hcovers, store, if_neg hx]

/-- A new layer changes nothing of what is under the layers. -/
theorem unwind_put (m : Memory) (a : BitVec 64) (bytes : List (BitVec 8)) :
    unwind (⟨a, bytesAt m a bytes.length⟩ :: layers) (store m a bytes) = unwind layers m := by
  rw [unwind, lift_store]

/-- Layers that do not overlap may be taken off in either order. -/
theorem lift_comm {other : Layer} (hapart : ∀ x, other.covers x → ¬ layer.covers x) (m : Memory) :
    other.lift (layer.lift m) = layer.lift (other.lift m) := by
  funext x
  by_cases hother : other.covers x
  · rw [lift_of_covers hother, lift_of_not_covers (hapart x hother), lift_of_covers hother]
  · rw [lift_of_not_covers hother]
    by_cases hlayer : layer.covers x
    · rw [lift_of_covers hlayer, lift_of_covers hlayer]
    · rw [lift_of_not_covers hlayer, lift_of_not_covers hlayer, lift_of_not_covers hother]

/-- A layer may be taken off from under newer ones that do not overlap it. -/
theorem unwind_lift (hapart : ∀ other ∈ newer, ∀ x, other.covers x → ¬ layer.covers x)
    (m : Memory) : unwind (newer ++ older) (layer.lift m) = unwind (newer ++ layer :: older) m := by
  induction newer generalizing m with
  | nil => rfl
  | cons other newer ih =>
      have hrest := ih fun other hmem => hapart other (List.mem_cons_of_mem _ hmem)
      calc unwind (other :: newer ++ older) (layer.lift m)
          = unwind (newer ++ older) (layer.lift (other.lift m)) := by
            rw [← lift_comm (hapart other List.mem_cons_self)]
            rfl
        _ = unwind (other :: newer ++ layer :: older) m := hrest (other.lift m)

/-- A byte under the layers is what one of them keeps, or else it is in memory. -/
theorem unwind_cases (layers : List Layer) (m : Memory) (x : BitVec 64) :
    (∃ layer ∈ layers, layer.covers x ∧ ∀ m, unwind layers m x = layer.under x) ∨
      (∀ layer ∈ layers, ¬ layer.covers x) ∧ unwind layers m x = m x := by
  induction layers generalizing m with
  | nil => exact Or.inr ⟨fun _ hmem => absurd hmem List.not_mem_nil, rfl⟩
  | cons layer older ih =>
      rcases ih (layer.lift m) with ⟨other, hmem, hcovers, hunder⟩ | ⟨hnone, hsame⟩
      · exact Or.inl ⟨other, List.mem_cons_of_mem _ hmem, hcovers, fun m => hunder (layer.lift m)⟩
      · by_cases hcovers : layer.covers x
        · refine Or.inl ⟨layer, List.mem_cons_self, hcovers, fun m => ?_⟩
          rcases ih (layer.lift m) with ⟨other, hmem, hcovers', -⟩ | ⟨-, hsame⟩
          · exact absurd hcovers' (hnone other hmem)
          · rw [unwind, hsame, lift_of_covers hcovers]
        · refine Or.inr ⟨?_, by rw [unwind, hsame, lift_of_not_covers hcovers]⟩
          rintro other hmem
          rcases List.mem_cons.mp hmem with rfl | hmem
          · exact hcovers
          · exact hnone other hmem

/-- A word written over layers that keep the bytes it writes is written under them. -/
theorem unwind_setWord {a w : BitVec 64} (m : Memory)
    (hunder : ∀ layer ∈ layers, ∀ x, (x - a).toNat < 8 → layer.covers x →
      layer.under x = byteOf w (x - a).toNat) :
    unwind layers (setWord m a w) = setWord (unwind layers m) a w := by
  funext x
  by_cases hx : (x - a).toNat < 8
  · have hword : ∀ m' : Memory, setWord m' a w x = byteOf w (x - a).toNat := fun m' => if_pos hx
    rw [hword]
    rcases unwind_cases layers (setWord m a w) x with ⟨layer, hmem, hcovers, hkeeps⟩ | ⟨-, hsame⟩
    · rw [hkeeps, hunder layer hmem x hx hcovers]
    · rw [hsame, hword]
  · have hword : ∀ m' : Memory, setWord m' a w x = m' x := fun m' => if_neg hx
    rw [hword]
    rcases unwind_cases layers m x with ⟨layer, -, -, hkeeps⟩ | ⟨hnone, hsame⟩
    · rw [hkeeps, hkeeps]
    · rcases unwind_cases layers (setWord m a w) x with ⟨layer, hmem, hcovers, -⟩ | ⟨-, hsame'⟩
      · exact absurd hcovers (hnone layer hmem)
      · rw [hsame, hsame', hword]

end Layers

end ByteMemory
