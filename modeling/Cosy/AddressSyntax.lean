import Mathlib.Data.Bool.AllAny
import Mathlib.Data.Nat.Digits.Lemmas
import Cosy.Hexadecimal

/-!
# The syntax of addresses

Which texts `parse_address` accepts, by a grammar of its own: decimal digits, or hexadecimal ones
behind a mark. What `hex` shows is the shortest of the texts that mean the same.
-/

namespace Cosy

variable {base digit value : Nat} {ch : Char} {text : Text} {digits : List Nat}

/-! ### The grammar -/

def upperDigits : List Char :=
  ['0', '1', '2', '3', '4', '5', '6', '7', '8', '9', 'A', 'B', 'C', 'D', 'E', 'F']

/-- The character is the digit of that value, in either case. -/
def IsDigit (base : Nat) (ch : Char) (digit : Nat) : Prop :=
  digit < base ∧ (hexDigits[digit]? = some ch ∨ upperDigits[digit]? = some ch)

/-- One or more digits, with the value they have in positional notation. -/
def Spells (base : Nat) (text : Text) (value : Nat) : Prop :=
  text ≠ [] ∧ ∃ digits, List.Forall₂ (IsDigit base) text digits ∧
    Nat.ofDigits base digits.reverse = value

/-- The text is an address as a number of any size. -/
inductive Denotes : Text → Nat → Prop
  | decimal {text : Text} {value : Nat} (htext : Spells 10 text value) : Denotes text value
  | hexadecimal {text : Text} {value : Nat} {mark : Char} (hmark : mark = 'x' ∨ mark = 'X')
      (htext : Spells 16 text value) : Denotes ('0' :: mark :: text) value

/-- The form in which addresses are shown. -/
def IsShownForm (text : Text) : Prop :=
  ∃ digits : Text, text = '0' :: 'x' :: digits ∧ digits ≠ [] ∧ ∀ ch ∈ digits, ch ∈ hexDigits

/-! ### Digits -/

/-- A digit is one in every base above its value. -/
theorem digitValue_of_lt (hvalue : digitValue 16 ch = some digit) (hdigit : digit < base) :
    digitValue base ch = some digit := by
  unfold digitValue at hvalue ⊢
  dsimp only at hvalue ⊢
  split_ifs at hvalue with hdecimal hbound hlower hbound hupper hbound hnone
  · obtain rfl := Option.some.inj hvalue
    rw [if_pos hdecimal, if_pos hdigit]
  · obtain rfl := Option.some.inj hvalue
    rw [if_neg hdecimal, if_pos hlower, if_pos hdigit]
  · obtain rfl := Option.some.inj hvalue
    rw [if_neg hdecimal, if_neg hlower, if_pos hupper, if_pos hdigit]
  · exact absurd hnone (lt_irrefl 16)

theorem digitValue_eq_some_iff (hbase : base ≤ 16) :
    digitValue base ch = some digit ↔ IsDigit base ch digit := by
  have hcode : Char.ofNat ch.toNat = ch := Char.ofNat_toNat ch
  have hlow : ∀ d < 10, hexDigits[d]? = some (Char.ofNat (48 + d)) := by decide
  have hlower : ∀ d < 6, hexDigits[10 + d]? = some (Char.ofNat (97 + d)) := by decide
  have hupper : ∀ d < 6, upperDigits[10 + d]? = some (Char.ofNat (65 + d)) := by decide
  constructor
  · intro hvalue
    simp only [digitValue, Bool.and_eq_true, decide_eq_true_eq] at hvalue
    split_ifs at hvalue with hdecimal hbound hsmall hbound hlarge hbound hnone
    · obtain rfl := Option.some.inj hvalue
      refine ⟨hbound, Or.inl ?_⟩
      rw [hlow _ (by omega), show 48 + (ch.toNat - 48) = ch.toNat by omega, hcode]
    · obtain rfl := Option.some.inj hvalue
      refine ⟨hbound, Or.inl ?_⟩
      rw [Nat.add_comm, hlower _ (by omega), show 97 + (ch.toNat - 97) = ch.toNat by omega, hcode]
    · obtain rfl := Option.some.inj hvalue
      refine ⟨hbound, Or.inr ?_⟩
      rw [Nat.add_comm, hupper _ (by omega), show 65 + (ch.toNat - 65) = ch.toNat by omega, hcode]
    · omega
  · rintro ⟨hdigit, hshown⟩
    have hlower : ∀ d < 16, (hexDigits[d]?).all fun c => digitValue 16 c = some d := by decide
    have hupper : ∀ d < 16, (upperDigits[d]?).all fun c => digitValue 16 c = some d := by decide
    refine digitValue_of_lt ?_ hdigit
    rcases hshown with hshown | hshown
    · simpa [hshown] using hlower digit (by omega)
    · simpa [hshown] using hupper digit (by omega)

/-- What follows the digits is empty or begins with something that is not a digit. -/
theorem leadingDigits_eq_iff (hbase : base ≤ 16) {rest : Text} :
    leadingDigits base text = (digits, rest) ↔
      ∃ front, text = front ++ rest ∧ List.Forall₂ (IsDigit base) front digits ∧
        ∀ ch ∈ rest.head?, digitValue base ch = none := by
  induction text generalizing digits with
  | nil =>
      rw [leadingDigits]
      constructor
      · intro hdigits
        obtain ⟨rfl, rfl⟩ := Prod.mk.inj hdigits
        exact ⟨[], rfl, .nil, by simp⟩
      · rintro ⟨front, htext, hdigits, -⟩
        obtain ⟨rfl, rfl⟩ := List.append_eq_nil_iff.mp htext.symm
        rw [List.forall₂_nil_left_iff.mp hdigits]
  | cons ch tail ih =>
      rw [leadingDigits]
      cases hvalue : digitValue base ch with
      | none =>
          constructor
          · intro hdigits
            obtain ⟨rfl, rfl⟩ := Prod.mk.inj hdigits
            exact ⟨[], rfl, .nil, by simpa using hvalue⟩
          · rintro ⟨front, htext, hdigits, -⟩
            cases hdigits with
            | nil => rw [htext, List.nil_append]
            | cons hdigit _ =>
                obtain ⟨rfl, -⟩ := List.cons.inj htext
                rw [(digitValue_eq_some_iff hbase).mpr hdigit] at hvalue
                cases hvalue
      | some first =>
          have hfirst := (digitValue_eq_some_iff hbase).mp hvalue
          constructor
          · intro hdigits
            obtain ⟨rfl, hrest⟩ := Prod.mk.inj hdigits
            obtain ⟨front, htail, hfront, hnone⟩ := ih.mp (Prod.ext rfl hrest)
            exact ⟨ch :: front, by rw [htail, List.cons_append], .cons hfirst hfront, hnone⟩
          · rintro ⟨front, htext, hdigits, hnone⟩
            cases hdigits with
            | nil =>
                rw [List.nil_append] at htext
                rw [hnone ch (by rw [← htext, List.head?_cons, Option.mem_some])] at hvalue
                cases hvalue
            | cons hdigit hfront =>
                obtain ⟨rfl, htail⟩ := List.cons.inj htext
                rw [(digitValue_eq_some_iff hbase).mpr hdigit] at hvalue
                rw [ih.mpr ⟨_, htail, hfront, hnone⟩, Option.some.inj hvalue]

theorem leadingDigits_eq_nil_iff (hbase : base ≤ 16) :
    leadingDigits base text = (digits, []) ↔ List.Forall₂ (IsDigit base) text digits := by
  rw [leadingDigits_eq_iff hbase]
  simp

theorem numeral_eq_ofDigits (base : Nat) (digits : List Nat) :
    numeral base digits = Nat.ofDigits base digits.reverse := by
  induction digits using List.reverseRecOn with
  | nil => rfl
  | append_singleton digits last ih =>
      rw [numeral, List.foldl_append, List.foldl_cons, List.foldl_nil, ← numeral, ih,
        List.reverse_append, List.reverse_singleton, List.singleton_append, Nat.ofDigits_cons]
      ring

/-! ### What is accepted -/

theorem digits_eq_nil_iff (hdigits : List.Forall₂ (IsDigit base) text digits) :
    digits = [] ↔ text = [] := by
  cases hdigits <;> simp

/-- `from_chars` stops behind the digits. -/
theorem fromChars_of_spells (hbase : base ≤ 16) {v : Address} {rest : Text}
    (htext : Spells base text v.toNat) (hrest : ∀ ch ∈ rest.head?, digitValue base ch = none) :
    fromChars base (text ++ rest) = some (v, rest) := by
  obtain ⟨hne, digits, hdigits, hvalue⟩ := htext
  have hsome : digits ≠ [] := (not_congr (digits_eq_nil_iff hdigits)).mpr hne
  rw [fromChars, (leadingDigits_eq_iff hbase).mpr ⟨text, rfl, hdigits, hrest⟩]
  dsimp only
  rw [if_neg hsome, numeral_eq_ofDigits, hvalue, if_pos v.isLt, BitVec.ofNat_toNat,
    BitVec.setWidth_eq]

theorem fromChars_eq_iff (hbase : base ≤ 16) {v : Address} :
    fromChars base text = some (v, []) ↔ Spells base text v.toNat := by
  have hpair : leadingDigits base text
      = ((leadingDigits base text).1, (leadingDigits base text).2) := rfl
  constructor
  · intro hfound
    rw [fromChars, hpair] at hfound
    dsimp only at hfound
    split_ifs at hfound with hnone hfits
    obtain ⟨hv, hrest⟩ := Prod.mk.inj (Option.some.inj hfound)
    rw [hrest] at hpair
    refine ⟨?_, _, (leadingDigits_eq_nil_iff hbase).mp hpair, ?_⟩
    · rintro rfl
      exact hnone rfl
    · rw [← numeral_eq_ofDigits, ← hv, BitVec.toNat_ofNat, Nat.mod_eq_of_lt hfits]
  · intro htext
    have hrest : ∀ ch ∈ ([] : Text).head?, digitValue base ch = none := by simp
    simpa using fromChars_of_spells hbase htext hrest

/-- `from_chars`, up to the end of the text. -/
theorem fromChars_toEnd_iff (hbase : base ≤ 16) {v : Address} :
    (match fromChars base text with
      | some (value, []) => some value
      | _ => none) = some v ↔ Spells base text v.toNat := by
  rw [← fromChars_eq_iff hbase]
  cases fromChars base text with
  | none => simp
  | some found =>
      obtain ⟨value, rest⟩ := found
      cases rest <;> simp

theorem not_spells_of_mark {mark : Char} (hmark : mark = 'x' ∨ mark = 'X') :
    ¬ Spells 10 ('0' :: mark :: text) value := by
  rintro ⟨-, digits, hdigits, -⟩
  cases hdigits with
  | cons _ hrest =>
      cases hrest with
      | cons hdigit _ =>
          have hnone : digitValue 10 mark = none := by
            rcases hmark with rfl | rfl <;> decide
          rw [(digitValue_eq_some_iff (by decide)).mpr hdigit] at hnone
          cases hnone

theorem denotes_hexadecimal_iff {mark : Char} (hmark : mark = 'x' ∨ mark = 'X') :
    Denotes ('0' :: mark :: text) value ↔ Spells 16 text value := by
  constructor
  · intro hdenotes
    cases hdenotes with
    | decimal htext => exact absurd htext (not_spells_of_mark hmark)
    | hexadecimal _ htext => exact htext
  · exact .hexadecimal hmark

theorem parseAddress_eq_iff {v : Address} : parseAddress text = some v ↔ Denotes text v.toNat := by
  unfold parseAddress
  split
  rename_i base digits hbase
  split at hbase
  · obtain ⟨rfl, rfl⟩ := Prod.mk.inj hbase
    rw [denotes_hexadecimal_iff (Or.inl rfl)]
    exact fromChars_toEnd_iff le_rfl
  · obtain ⟨rfl, rfl⟩ := Prod.mk.inj hbase
    rw [denotes_hexadecimal_iff (Or.inr rfl)]
    exact fromChars_toEnd_iff le_rfl
  · rename_i hlower hupper
    obtain ⟨rfl, rfl⟩ := Prod.mk.inj hbase
    have hten : 10 ≤ 16 := by decide
    refine (fromChars_toEnd_iff hten).trans ⟨.decimal, fun hdenotes => ?_⟩
    cases hdenotes with
    | decimal htext => exact htext
    | hexadecimal hmark htext =>
        rcases hmark with rfl | rfl
        · exact absurd rfl (hlower _)
        · exact absurd rfl (hupper _)

theorem parseAddress_eq_none_iff :
    parseAddress text = none ↔ ∀ value, Denotes text value → 2 ^ 64 ≤ value := by
  constructor
  · intro hnone value hdenotes
    by_contra hfits
    have hvalue : (BitVec.ofNat 64 value).toNat = value := by
      rw [BitVec.toNat_ofNat, Nat.mod_eq_of_lt (Nat.lt_of_not_le hfits)]
    have hsome := parseAddress_eq_iff.mpr (hvalue.symm ▸ hdenotes)
    rw [hnone] at hsome
    cases hsome
  · intro hlarge
    cases hparse : parseAddress text with
    | none => rfl
    | some v =>
        have hle := hlarge _ (parseAddress_eq_iff.mp hparse)
        exact absurd v.isLt (Nat.not_lt_of_le hle)

/-! ### What is shown -/

theorem mem_hexDigits_of_mem_hexFrom {v : Address} {began : Bool} {n : Nat}
    (hch : ch ∈ hexFrom v began n) : ch ∈ hexDigits := by
  have hdigit : ∀ d < 16, hexDigits.getD d '0' ∈ hexDigits := by decide
  induction n generalizing began with
  | zero => cases hch
  | succ n ih =>
      rw [hexFrom, nibble_eq] at hch
      split at hch
      · rcases List.mem_cons.mp hch with rfl | hch
        · exact hdigit _ (Nat.mod_lt _ (by decide))
        · exact ih hch
      · exact ih hch

/-- The first digit is a zero only if it is the only one. -/
theorem hexFrom_ne_zero (v : Address) (n : Nat) :
    ∃ first rest, hexFrom v false (n + 1) = first :: rest ∧ (first = '0' → rest = []) := by
  have hdigit : ∀ d < 16, d ≠ 0 → hexDigits.getD d '0' ≠ '0' := by decide
  induction n with
  | zero =>
      refine ⟨hexDigits.getD ((v >>> (4 * 0)) &&& 0xf#64).toNat '0', [], ?_, fun _ => rfl⟩
      simp [hexFrom]
  | succ n ih =>
      by_cases hnibble : v.toNat / 16 ^ (n + 1) % 16 = 0
      · have hskip : hexFrom v false (n + 1 + 1) = hexFrom v false (n + 1) := by
          rw [hexFrom, nibble_eq, hnibble]
          simp
        rw [hskip]
        exact ih
      · refine ⟨_, hexFrom v true (n + 1), ?_, fun hzero => absurd hzero (hdigit _ ?_ hnibble)⟩
        · rw [hexFrom, nibble_eq, if_pos (by simp [hnibble])]
        · exact Nat.mod_lt _ (by decide)

theorem hex_isShownForm (v : Address) : IsShownForm (hex v) := by
  obtain ⟨first, rest, hdigits, -⟩ := hexFrom_ne_zero v 15
  refine ⟨hexFrom v false 16, rfl, ?_, fun ch => mem_hexDigits_of_mem_hexFrom⟩
  rw [hdigits]
  exact List.cons_ne_nil first rest

theorem spells_hexFrom (v : Address) : Spells 16 (hexFrom v false 16) v.toNat :=
  (fromChars_eq_iff le_rfl).mp (fromChars_hexFrom v)

/-- Lower-case digits are determined by their values. -/
theorem eq_of_lowerDigits {text' : Text} (htext : List.Forall₂ (IsDigit 16) text digits)
    (htext' : List.Forall₂ (IsDigit 16) text' digits) (hlower : ∀ ch ∈ text, ch ∈ hexDigits)
    (hlower' : ∀ ch ∈ text', ch ∈ hexDigits) : text = text' := by
  have hshown : ∀ ch ∈ hexDigits, ∀ d, digitValue 16 ch = some d → hexDigits.getD d '0' = ch := by
    have hall : ∀ ch ∈ hexDigits, (digitValue 16 ch).all fun d => hexDigits.getD d '0' = ch :=
      List.all_iff_forall_prop.mp (by decide)
    intro ch hch d hd
    simpa [hd] using hall ch hch
  have hmap : ∀ {text : Text} {digits : List Nat}, List.Forall₂ (IsDigit 16) text digits →
      (∀ ch ∈ text, ch ∈ hexDigits) → text = digits.map fun d => hexDigits.getD d '0' := by
    intro text digits htext hlower
    induction htext with
    | nil => rfl
    | cons hdigit _ ih =>
        rw [List.map_cons, hshown _ (hlower _ List.mem_cons_self) _
          ((digitValue_eq_some_iff le_rfl).mpr hdigit),
          ← ih fun ch hch => hlower ch (List.mem_cons_of_mem _ hch)]
  rw [hmap htext hlower, hmap htext' hlower']

theorem digits_lt (hdigits : List.Forall₂ (IsDigit base) text digits) : ∀ d ∈ digits, d < base := by
  induction hdigits with
  | nil => simp
  | cons hdigit _ ih => exact List.forall_mem_cons.mpr ⟨hdigit.1, ih⟩

/-- No text of that form is shorter than what is shown, and no other one is as short. -/
theorem hex_shortest {v : Address} (hform : IsShownForm text) (htext : Denotes text v.toNat) :
    text = hex v ∨ (hex v).length < text.length := by
  obtain ⟨digits, rfl, hne, hlower⟩ := hform
  obtain ⟨-, values, hvalues, hvalue⟩ := (denotes_hexadecimal_iff (Or.inl rfl)).mp htext
  obtain ⟨-, shown, hshown, hsame⟩ := spells_hexFrom v
  have hlength : digits.length = values.length := hvalues.length_eq
  have hlength' : (hexFrom v false 16).length = shown.length := hshown.length_eq
  have hbound : ∀ d ∈ values.reverse, d < 16 := fun d hd => digits_lt hvalues d (List.mem_reverse.mp hd)
  have hbound' : ∀ d ∈ shown.reverse, d < 16 := fun d hd => digits_lt hshown d (List.mem_reverse.mp hd)
  have hle : shown.length ≤ values.length := by
    obtain ⟨first, rest, hfirst, hzero⟩ := hexFrom_ne_zero v 15
    rw [hfirst] at hshown
    cases hshown with
    | @cons _ d _ ds hdigit hrest =>
        by_cases hd : d = 0
        · subst hd
          have hfirst' : first = '0' := by
            rcases hdigit.2 with hch | hch <;> exact (Option.some.inj hch).symm
          have hnil : ds = [] := by
            rw [hzero hfirst'] at hrest
            exact List.forall₂_nil_left_iff.mp hrest
          rw [hnil, ← hlength]
          exact List.length_pos_of_ne_nil hne
        · have hlow : 16 ^ (d :: ds).reverse.length ≤ 16 * Nat.ofDigits 16 (d :: ds).reverse := by
            refine Nat.pow_length_le_mul_ofDigits (b := 14) (by simp) ?_
            simpa using hd
          have hhigh : Nat.ofDigits 16 values.reverse < 16 ^ values.reverse.length :=
            Nat.ofDigits_lt_base_pow_length (by decide) hbound
          rw [hsame] at hlow
          rw [hvalue] at hhigh
          rw [List.length_reverse] at hlow hhigh
          have hpow : 16 ^ (d :: ds).length < 16 ^ (values.length + 1) := by
            rw [pow_succ]
            omega
          have hlt := (Nat.pow_lt_pow_iff_right (by decide)).mp hpow
          omega
  rcases Nat.eq_or_lt_of_le hle with heq | hlt
  · left
    have hdigits : values.reverse = shown.reverse := by
      refine Nat.ofDigits_inj_of_len_eq (by decide) (by simp [heq]) hbound hbound' ?_
      rw [hvalue, hsame]
    rw [List.reverse_injective hdigits] at hvalues
    have htexts := eq_of_lowerDigits hvalues hshown hlower fun ch => mem_hexDigits_of_mem_hexFrom
    rw [htexts]
    rfl
  · right
    have hshownLength : (hex v).length = (hexFrom v false 16).length + 2 := rfl
    simp only [hshownLength, List.length_cons]
    omega

/-- The texts that are read as addresses, and the one that an address is shown as. -/
theorem parseAddress_syntax :
    (∀ text (v : Address), parseAddress text = some v ↔ Denotes text v.toNat) ∧
      (∀ text, parseAddress text = none ↔ ∀ value, Denotes text value → 2 ^ 64 ≤ value) ∧
      (∀ v, parseAddress (hex v) = some v ∧ IsShownForm (hex v) ∧
        ∀ text, IsShownForm text → Denotes text v.toNat →
          text = hex v ∨ (hex v).length < text.length) ∧
      Function.Injective hex :=
  ⟨fun _ _ => parseAddress_eq_iff, fun _ => parseAddress_eq_none_iff,
    fun v => ⟨parseAddress_hex v, hex_isShownForm v, fun _ => hex_shortest⟩, hex_injective⟩

end Cosy
