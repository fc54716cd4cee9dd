import Mathlib.Data.Nat.Bitwise
import Mathlib.Tactic.Common

/-!
# Fields of a word

A control register packs several small fields into one word. A field is rewritten by clearing its
block of bits and putting the new value there, and that leaves alone every field whose block lies
apart from it.
-/

namespace BitFields

variable {w : Nat}

/-- The word with ones in the `n` bits from `start` on. -/
def block (w start n : Nat) : BitVec w := BitVec.ofNat w (2 ^ n - 1) <<< start

theorem getLsbD_block (start n : Nat) {i : Nat} (hi : i < w) :
    (block w start n).getLsbD i = decide (start ≤ i ∧ i < start + n) := by
  rw [block, BitVec.getLsbD_shiftLeft, BitVec.getLsbD_ofNat, Nat.testBit_two_pow_sub_one,
    Bool.eq_iff_iff]
  simp only [Bool.and_eq_true, Bool.not_eq_true', decide_eq_true_eq, decide_eq_false_iff_not]
  omega

theorem getLsbD_clear (word : BitVec w) (start n : Nat) {i : Nat} (hi : i < w) :
    (word &&& ~~~block w start n).getLsbD i
      = (word.getLsbD i && !decide (start ≤ i ∧ i < start + n)) := by
  rw [BitVec.getLsbD_and, BitVec.getLsbD_not, getLsbD_block start n hi]
  simp [hi]

/-- A field of a field. -/
theorem extractLsb'_extractLsb'_of_fits (word : BitVec w) {start n start' n' : Nat}
    (hfits : start' + n' ≤ n) :
    (word.extractLsb' start n).extractLsb' start' n' = word.extractLsb' (start + start') n' := by
  refine BitVec.eq_of_getLsbD_eq fun i hi => ?_
  have hinside : start' + i < n := by omega
  simp [hi, hinside, Nat.add_assoc]

/-- A bit is a field of one bit. -/
theorem getLsbD_eq_of_extractLsb' {word word' : BitVec w} {bit : Nat}
    (hbit : word.extractLsb' bit 1 = word'.extractLsb' bit 1) :
    word.getLsbD bit = word'.getLsbD bit := by
  simpa using congrArg (fun field => field.getLsbD 0) hbit

/-! ### Clearing -/

theorem extractLsb'_clear_self (word : BitVec w) (start n : Nat) :
    (word &&& ~~~block w start n).extractLsb' start n = 0#n := by
  refine BitVec.eq_of_getLsbD_eq fun i hi => ?_
  rw [BitVec.getLsbD_extractLsb', BitVec.getLsbD_zero]
  by_cases hword : start + i < w
  · rw [getLsbD_clear word start n hword]
    have hinside : start ≤ start + i ∧ start + i < start + n := by omega
    simp [hinside.2]
  · rw [BitVec.getLsbD_of_ge _ _ (by omega), Bool.and_false]

theorem extractLsb'_clear_of_apart (word : BitVec w) {start n start' n' : Nat}
    (hapart : start + n ≤ start' ∨ start' + n' ≤ start) :
    (word &&& ~~~block w start' n').extractLsb' start n = word.extractLsb' start n := by
  refine BitVec.eq_of_getLsbD_eq fun i hi => ?_
  rw [BitVec.getLsbD_extractLsb', BitVec.getLsbD_extractLsb']
  by_cases hword : start + i < w
  · rw [getLsbD_clear word start' n' hword]
    have houtside : ¬ (start' ≤ start + i ∧ start + i < start' + n') := by omega
    simp only [houtside, decide_false, Bool.not_false, Bool.and_true]
  · rw [BitVec.getLsbD_of_ge _ _ (by omega), BitVec.getLsbD_of_ge _ _ (by omega)]

/-! ### Putting a value into a field -/

theorem extractLsb'_shiftLeft_self (value : Nat) {start n : Nat} (hfits : start + n ≤ w) :
    (BitVec.ofNat w value <<< start).extractLsb' start n = BitVec.ofNat n value := by
  refine BitVec.eq_of_getLsbD_eq fun i hi => ?_
  rw [BitVec.getLsbD_extractLsb', BitVec.getLsbD_shiftLeft, BitVec.getLsbD_ofNat,
    BitVec.getLsbD_ofNat, Nat.add_sub_cancel_left]
  have hword : start + i < w := by omega
  have hlow : i < w := by omega
  simp [hi, hword, hlow]

theorem extractLsb'_shiftLeft_of_apart {value start n start' n' : Nat} (hvalue : value < 2 ^ n')
    (hapart : start + n ≤ start' ∨ start' + n' ≤ start) :
    (BitVec.ofNat w value <<< start').extractLsb' start n = 0#n := by
  refine BitVec.eq_of_getLsbD_eq fun i hi => ?_
  rw [BitVec.getLsbD_extractLsb', BitVec.getLsbD_shiftLeft, BitVec.getLsbD_ofNat,
    BitVec.getLsbD_zero]
  rcases hapart with hbelow | habove
  · have hshifted : start + i < start' := by omega
    simp [hshifted]
  · have hhigh : value.testBit (start + i - start') = false := by
      apply Nat.testBit_lt_two_pow
      calc value < 2 ^ n' := hvalue
        _ ≤ 2 ^ (start + i - start') := Nat.pow_le_pow_right Nat.two_pos (by omega)
    simp [hhigh]

end BitFields
