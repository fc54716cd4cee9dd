import Mathlib.Tactic.Ring
import Cosy.Common

/-!
# Numbers as they are shown

What `hex` shows of an address is what `parse_address` reads back, so two different addresses are
never shown alike.
-/

namespace Cosy

theorem digitValue_hexDigits {nibble : Nat} (hnibble : nibble < 16) :
    digitValue 16 (hexDigits.getD nibble '0') = some nibble := by
  have hall : ∀ n < 16, digitValue 16 (hexDigits.getD n '0') = some n := by decide
  exact hall nibble hnibble

theorem nibble_eq (value : Address) (n : Nat) :
    ((value >>> (4 * n)) &&& 0xf#64).toNat = value.toNat / 16 ^ n % 16 := by
  have hmask : (0xf#64).toNat = 2 ^ 4 - 1 := rfl
  rw [BitVec.toNat_and, BitVec.toNat_ushiftRight, hmask, Nat.and_two_pow_sub_one_eq_mod,
    Nat.shiftRight_eq_div_pow, Nat.pow_mul]

theorem leadingDigits_digit (nibble : Nat) (hnibble : nibble < 16) (rest : Text) :
    leadingDigits 16 (hexDigits.getD nibble '0' :: rest)
      = (nibble :: (leadingDigits 16 rest).1, (leadingDigits 16 rest).2) := by
  rw [leadingDigits, digitValue_hexDigits hnibble]

/-- The digits stand for the lowest nibbles; zeros in front of them are left out. -/
theorem leadingDigits_hexFrom (value : Address) (n : Nat) :
    ∀ (began : Bool) (front : Nat), began = true ∨ front = 0 →
      (leadingDigits 16 (hexFrom value began n)).2 = [] ∧
        (leadingDigits 16 (hexFrom value began n)).1.foldl (fun value digit => value * 16 + digit) front
          = front * 16 ^ n + value.toNat % 16 ^ n := by
  induction n with
  | zero => intro began front _; exact ⟨rfl, by simp [hexFrom, leadingDigits, Nat.mod_one]⟩
  | succ n ih =>
      intro began front hfront
      have hnibble := nibble_eq value n
      have hlt : value.toNat / 16 ^ n % 16 < 16 := Nat.mod_lt _ (by decide)
      rw [hexFrom, hnibble, Nat.mod_pow_succ, Nat.pow_succ]
      split
      · obtain ⟨hrest, hvalue⟩ := ih true (front * 16 + value.toNat / 16 ^ n % 16) (Or.inl rfl)
        rw [leadingDigits_digit _ hlt]
        refine ⟨hrest, ?_⟩
        rw [List.foldl_cons, hvalue]
        ring
      · rename_i hskip
        obtain ⟨hrest, hvalue⟩ := ih began front hfront
        refine ⟨hrest, ?_⟩
        have hzero : value.toNat / 16 ^ n % 16 = 0 ∧ began = false := by
          simp only [Bool.or_eq_true, decide_eq_true_eq, not_or, not_not] at hskip
          exact ⟨hskip.1.1, by simpa using hskip.1.2⟩
        have hfront : front = 0 := by
          rcases hfront with hbegan | hfront
          · rw [hzero.2] at hbegan
            cases hbegan
          · exact hfront
        rw [hvalue, hzero.1, hfront]
        ring

theorem leadingDigits_hexFrom_ne_nil (value : Address) (began : Bool) (n : Nat) :
    (leadingDigits 16 (hexFrom value began (n + 1))).1 ≠ [] := by
  induction n with
  | zero =>
      have hlt : value.toNat / 16 ^ 0 % 16 < 16 := Nat.mod_lt _ (by decide)
      rw [hexFrom, nibble_eq, if_pos (by simp), leadingDigits_digit _ hlt]
      exact List.cons_ne_nil _ _
  | succ n ih =>
      have hlt : value.toNat / 16 ^ (n + 1) % 16 < 16 := Nat.mod_lt _ (by decide)
      rw [hexFrom, nibble_eq]
      split
      · rw [leadingDigits_digit _ hlt]
        exact List.cons_ne_nil _ _
      · exact ih

theorem fromChars_hexFrom (value : Address) :
    fromChars 16 (hexFrom value false 16) = some (value, []) := by
  obtain ⟨hrest, hvalue⟩ := leadingDigits_hexFrom value 16 false 0 (Or.inr rfl)
  have hnumeral : numeral 16 (leadingDigits 16 (hexFrom value false 16)).1 = value.toNat := by
    rw [numeral, hvalue, Nat.zero_mul, Nat.zero_add]
    exact Nat.mod_eq_of_lt value.isLt
  have hdigits : (leadingDigits 16 (hexFrom value false 16)).1 ≠ [] :=
    leadingDigits_hexFrom_ne_nil value false 15
  have hpair : leadingDigits 16 (hexFrom value false 16)
      = ((leadingDigits 16 (hexFrom value false 16)).1, []) := Prod.ext rfl hrest
  rw [fromChars, hpair]
  dsimp only
  rw [if_neg hdigits, hnumeral, if_pos value.isLt, BitVec.ofNat_toNat, BitVec.setWidth_eq]

theorem parseAddress_hex (value : Address) : parseAddress (hex value) = some value := by
  have hdigits : hex value = '0' :: 'x' :: hexFrom value false 16 := rfl
  rw [hdigits, parseAddress, fromChars_hexFrom]

theorem hex_injective : Function.Injective hex := fun value value' hsame =>
  Option.some.inj (by rw [← parseAddress_hex, hsame, parseAddress_hex])

end Cosy
