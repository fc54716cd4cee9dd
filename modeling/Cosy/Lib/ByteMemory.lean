import Cosy.Lib.SortedMap
import Mathlib.Data.BitVec
import Mathlib.Data.List.GetD

/-!
# Byte memories accessed by words

A memory is a function from 64-bit addresses to bytes, but what may be read or written in one step
is an eight-byte little-endian word. `store` is the byte-level write that a sequence of word writes
is meant to be, and `view` reads a memory through words that are about to be written to it.
-/

instance instLinearOrderBitVec (w : Nat) : LinearOrder (BitVec w) where
  le := (· ≤ ·)
  lt := (· < ·)
  le_refl a := Nat.le_refl a.toNat
  le_trans a b c := Nat.le_trans (n := a.toNat) (m := b.toNat) (k := c.toNat)
  lt_iff_le_not_ge a b := Nat.lt_iff_le_and_not_ge (m := a.toNat) (n := b.toNat)
  le_antisymm _ _ hab hba := BitVec.eq_of_toNat_eq (Nat.le_antisymm hab hba)
  le_total a b := Nat.le_total a.toNat b.toNat
  toDecidableLE := inferInstance
  toDecidableLT := inferInstance
  toDecidableEq := inferInstance

namespace ByteMemory

abbrev Memory : Type := BitVec 64 → BitVec 8

/-- Byte `i` of a word, the lowest first. -/
def byteOf (w : BitVec 64) (i : Nat) : BitVec 8 := (w >>> (8 * i)).setWidth 8

/-- The little-endian number spelled by the `n` bytes from `a`. -/
def wordFrom (m : Memory) (a : BitVec 64) : Nat → BitVec 64
  | 0 => 0
  | n + 1 => (m a).setWidth 64 ||| (wordFrom m (a + 1) n <<< 8)

/-- The word at `a`. -/
def word (m : Memory) (a : BitVec 64) : BitVec 64 := wordFrom m a 8

/-- The memory after the word `w` was written at `a`. -/
def setWord (m : Memory) (a w : BitVec 64) : Memory := fun x =>
  if (x - a).toNat < 8 then byteOf w (x - a).toNat else m x

/-- The word with byte `i` replaced. -/
def putByte (w : BitVec 64) (i : Nat) (b : BitVec 8) : BitVec 64 :=
  (w &&& ~~~(0xff#64 <<< (8 * i))) ||| (b.setWidth 64 <<< (8 * i))

/-- The address of the word that holds the byte at `a`. -/
def aligned (a : BitVec 64) : BitVec 64 := a &&& ~~~7#64

/-- The position of the byte at `a` in its word. -/
def offset (a : BitVec 64) : Nat := (a &&& 7#64).toNat

/-- The `n` bytes from `a`. -/
def bytesAt (m : Memory) (a : BitVec 64) : Nat → List (BitVec 8)
  | 0 => []
  | n + 1 => m a :: bytesAt m (a + 1) n

/-- The memory after the bytes were written from `a` on. -/
def store (m : Memory) (a : BitVec 64) (bytes : List (BitVec 8)) : Memory := fun x =>
  if (x - a).toNat < bytes.length then bytes.getD (x - a).toNat 0 else m x

/-! ### Bits and bytes -/

theorem getLsbD_wordFrom (m : Memory) (n : Nat) (hn : n ≤ 8) :
    ∀ (a : BitVec 64) (j : Nat), (wordFrom m a n).getLsbD j
      = (decide (j < 8 * n) && (m (a + BitVec.ofNat 64 (j / 8))).getLsbD (j % 8)) := by
  induction n with
  | zero => simp [wordFrom]
  | succ n ih =>
      intro a j
      rw [wordFrom, BitVec.getLsbD_or, BitVec.getLsbD_shiftLeft, ih (by omega),
        BitVec.getLsbD_setWidth]
      by_cases hlow : j < 8
      · have hdiv : j / 8 = 0 := by omega
        have hmod : j % 8 = j := by omega
        simp [hlow, hdiv, hmod, show j < 64 by omega, show j < 8 * (n + 1) by omega]
      · obtain ⟨k, rfl⟩ : ∃ k, j = k + 8 := ⟨j - 8, by omega⟩
        have hdiv : (k + 8) / 8 = k / 8 + 1 := by omega
        have haddr : a + 1 + BitVec.ofNat 64 (k / 8) = a + BitVec.ofNat 64 (k / 8 + 1) := by
          rw [BitVec.ofNat_add, BitVec.add_assoc, BitVec.add_comm 1]
          rfl
        have hbyte : (m a).getLsbD (k + 8) = false := BitVec.getLsbD_of_ge _ _ (by omega)
        have hbound : decide (k + 8 < 64) = true ∨ decide (k < 8 * n) = false := by
          by_cases hk : k < 8 * n
          · exact Or.inl (by simpa using by omega)
          · exact Or.inr (by simpa using hk)
        simp only [Nat.add_sub_cancel, hbyte, haddr, hdiv, Nat.add_mod_right,
          Bool.and_false, Bool.false_or, show ¬ k + 8 < 8 by omega, decide_false, Bool.not_false,
          Bool.and_true, show (k + 8 < 8 * (n + 1)) ↔ k < 8 * n by omega]
        rcases hbound with h | h <;> simp [h]

/-- A word depends on its bytes only. -/
theorem word_congr {m m' : Memory} {a : BitVec 64}
    (hbytes : ∀ i < 8, m (a + BitVec.ofNat 64 i) = m' (a + BitVec.ofNat 64 i)) :
    word m a = word m' a := by
  apply BitVec.eq_of_getLsbD_eq
  intro j hj
  rw [word, word, getLsbD_wordFrom m 8 le_rfl, getLsbD_wordFrom m' 8 le_rfl,
    hbytes (j / 8) (by omega)]

/-- The bytes of the word at `a` are the bytes from `a` on. -/
theorem byteOf_word (m : Memory) (a : BitVec 64) {i : Nat} (hi : i < 8) :
    byteOf (word m a) i = m (a + BitVec.ofNat 64 i) := by
  apply BitVec.eq_of_getLsbD_eq
  intro j hj
  have hdiv : (8 * i + j) / 8 = i := by omega
  have hmod : (8 * i + j) % 8 = j := by omega
  simp only [byteOf, word, BitVec.getLsbD_setWidth, BitVec.getLsbD_ushiftRight,
    getLsbD_wordFrom m 8 le_rfl, hdiv, hmod]
  simp [hj, show 8 * i + j < 64 by omega]

theorem byteOf_putByte (w : BitVec 64) (b : BitVec 8) {i j : Nat} (hi : i < 8) (hj : j < 8) :
    byteOf (putByte w i b) j = if j = i then b else byteOf w j := by
  apply BitVec.eq_of_getLsbD_eq
  intro k hk
  have hff : ∀ n, (0xff#64).getLsbD n = decide (n < 8) := by
    intro n
    by_cases hn : n < 64
    · have hall : ∀ n : Fin 64, (0xff#64).getLsbD n = decide (n.val < 8) := by decide
      exact hall ⟨n, hn⟩
    · rw [BitVec.getLsbD_of_ge _ _ (by omega)]
      simp; omega
  simp only [byteOf, putByte, BitVec.getLsbD_setWidth, BitVec.getLsbD_ushiftRight,
    BitVec.getLsbD_or, BitVec.getLsbD_and, BitVec.getLsbD_not, BitVec.getLsbD_shiftLeft, hff, hk,
    decide_true, Bool.true_and]
  have hin : 8 * j + k < 64 := by omega
  rcases lt_trichotomy j i with hlt | heq | hgt
  · simp [hin, show 8 * j + k < 8 * i by omega, show j ≠ i by omega, hk]
  · subst heq
    simp [hin, hk, show ¬ 8 * j + k < 8 * j by omega, show k < 64 by omega]
  · have hge : ¬ 8 * j + k < 8 * i := by omega
    have hfar : ¬ 8 * j + k - 8 * i < 8 := by omega
    have hbyte : b.getLsbD (8 * j + k - 8 * i) = false := BitVec.getLsbD_of_ge _ _ (by omega)
    simp [hin, hge, hfar, hbyte, hk, show j ≠ i by omega]

theorem toNat_offset (a : BitVec 64) : offset a = a.toNat % 8 := by
  rw [offset, BitVec.toNat_and]
  exact Nat.and_two_pow_sub_one_eq_mod a.toNat 3

theorem offset_lt (a : BitVec 64) : offset a < 8 := by
  rw [toNat_offset]
  omega

theorem aligned_add_offset (a : BitVec 64) : aligned a + BitVec.ofNat 64 (offset a) = a := by
  have hsplit : aligned a + (a &&& 7#64) = (a &&& ~~~7#64) ||| (a &&& 7#64) := by
    rw [aligned]
    apply BitVec.add_eq_or_of_and_eq_zero
    apply BitVec.eq_of_getLsbD_eq
    intro i hi
    simp only [BitVec.getLsbD_and, BitVec.getLsbD_not, BitVec.getLsbD_zero, hi, decide_true,
      Bool.true_and]
    cases a.getLsbD i <;> cases (7#64).getLsbD i <;> rfl
  rw [offset, BitVec.ofNat_toNat, BitVec.setWidth_eq, hsplit]
  apply BitVec.eq_of_getLsbD_eq
  intro i hi
  simp only [BitVec.getLsbD_or, BitVec.getLsbD_and, BitVec.getLsbD_not, hi, decide_true,
    Bool.true_and]
  cases a.getLsbD i <;> cases (7#64).getLsbD i <;> rfl

theorem toNat_aligned (a : BitVec 64) : (aligned a).toNat = a.toNat / 8 * 8 := by
  have hsum := congrArg BitVec.toNat (aligned_add_offset a)
  have hle : (aligned a).toNat ≤ a.toNat := by
    rw [aligned, BitVec.toNat_and]
    exact Nat.and_le_left
  have hoffset := toNat_offset a
  rw [BitVec.toNat_add, BitVec.toNat_ofNat] at hsum
  omega

@[simp]
theorem aligned_aligned (a : BitVec 64) : aligned (aligned a) = aligned a := by
  apply BitVec.eq_of_toNat_eq
  rw [toNat_aligned, toNat_aligned]
  omega

theorem eq_of_aligned_of_offset {x y : BitVec 64} (haligned : aligned x = aligned y)
    (hoffset : offset x = offset y) : x = y := by
  rw [← aligned_add_offset x, ← aligned_add_offset y, haligned, hoffset]

/-- A word holds exactly the bytes whose aligned address is its own. -/
theorem sub_lt_eight_iff {x k : BitVec 64} (hk : aligned k = k) :
    (x - k).toNat < 8 ↔ aligned x = k := by
  have hkNat := congrArg BitVec.toNat hk
  rw [toNat_aligned] at hkNat
  rw [BitVec.toNat_sub, ← BitVec.toNat_inj, toNat_aligned]
  omega

theorem toNat_sub_of_aligned {x k : BitVec 64} (hx : aligned x = k) :
    (x - k).toNat = offset x := by
  have hkNat := congrArg BitVec.toNat hx
  rw [toNat_aligned] at hkNat
  rw [BitVec.toNat_sub, toNat_offset]
  omega

/-- A word is the one that its bytes spell. -/
theorem eq_word_of_byteOf {m : Memory} {a w : BitVec 64}
    (hbytes : ∀ i < 8, byteOf w i = m (a + BitVec.ofNat 64 i)) : w = word m a := by
  apply BitVec.eq_of_getLsbD_eq
  intro j hj
  have hsplit : 8 * (j / 8) + j % 8 = j := Nat.div_add_mod j 8
  have hbit : ∀ v : BitVec 64, v.getLsbD j = (byteOf v (j / 8)).getLsbD (j % 8) := by
    intro v
    rw [byteOf, BitVec.getLsbD_setWidth, BitVec.getLsbD_ushiftRight, hsplit]
    simp [Nat.mod_lt j (by decide : 0 < 8)]
  rw [hbit w, hbit (word m a), hbytes _ (by omega), byteOf_word m a (by omega)]

theorem byteOf_word_aligned (m : Memory) (x : BitVec 64) :
    byteOf (word m (aligned x)) (offset x) = m x := by
  rw [byteOf_word m _ (offset_lt x), aligned_add_offset]

/-- The bytes of the word at `k`. -/
theorem aligned_add_of_lt {k : BitVec 64} (hk : aligned k = k) {i : Nat} (hi : i < 8) :
    aligned (k + BitVec.ofNat 64 i) = k ∧ offset (k + BitVec.ofNat 64 i) = i := by
  have hsub : (k + BitVec.ofNat 64 i - k).toNat = i := by bv_omega
  have haligned : aligned (k + BitVec.ofNat 64 i) = k :=
    (sub_lt_eight_iff hk).mp (by rw [hsub]; exact hi)
  exact ⟨haligned, (toNat_sub_of_aligned haligned).symm.trans hsub⟩

theorem setWord_apply (m : Memory) {k : BitVec 64} (hk : aligned k = k) (w x : BitVec 64) :
    setWord m k w x = if aligned x = k then byteOf w (offset x) else m x := by
  unfold setWord
  by_cases hx : aligned x = k
  · rw [if_pos ((sub_lt_eight_iff hk).mpr hx), if_pos hx, toNat_sub_of_aligned hx]
  · rw [if_neg (mt (sub_lt_eight_iff hk).mp hx), if_neg hx]

/-! ### Ranges -/

theorem add_sub_toNat (a : BitVec 64) {i : Nat} (hi : i < 2 ^ 64) :
    (a + BitVec.ofNat 64 i - a).toNat = i := by
  rw [BitVec.add_comm, BitVec.add_sub_cancel, BitVec.toNat_ofNat, Nat.mod_eq_of_lt hi]

theorem add_one_add_ofNat (a : BitVec 64) (i : Nat) :
    a + 1 + BitVec.ofNat 64 i = a + BitVec.ofNat 64 (i + 1) := by
  rw [BitVec.ofNat_add, BitVec.add_assoc, BitVec.add_comm 1]
  rfl

theorem add_ofNat_sub_toNat (a x : BitVec 64) : a + BitVec.ofNat 64 (x - a).toNat = x := by
  rw [BitVec.ofNat_toNat, BitVec.setWidth_eq, BitVec.add_comm, BitVec.sub_add_cancel]

theorem add_one_sub_toNat {a x : BitVec 64} (hne : x ≠ a) :
    (x - (a + 1)).toNat = (x - a).toNat - 1 := by
  have hpos : (x - a).toNat ≠ 0 := by
    intro hzero
    exact hne (by rw [← add_ofNat_sub_toNat a x, hzero]; simp)
  have hsub : x - (a + 1) = (x - a) - 1 := by bv_omega
  rw [hsub]
  bv_omega

@[simp]
theorem store_nil (m : Memory) (a : BitVec 64) : store m a [] = m := by
  funext x
  simp [store]

/-- Writing a byte and then the bytes after it is one write. -/
theorem store_cons (m : Memory) (a : BitVec 64) (b : BitVec 8) (bytes : List (BitVec 8))
    (hlength : bytes.length + 1 ≤ 2 ^ 64) :
    store (Function.update m a b) (a + 1) bytes = store m a (b :: bytes) := by
  funext x
  by_cases hx : x = a
  · subst hx
    have hfar : ¬ (x - (x + 1)).toNat < bytes.length := by
      have hmax : (x - (x + 1)).toNat = 2 ^ 64 - 1 := by bv_omega
      omega
    have hnear : (x - x).toNat = 0 := by simp
    simp only [store, if_neg hfar, hnear, Function.update_self, List.length_cons, Nat.succ_pos,
      if_true, List.getD_cons_zero]
  · have hpos : (x - a).toNat ≠ 0 := by
      intro hzero
      exact hx (by rw [← add_ofNat_sub_toNat a x, hzero]; simp)
    obtain ⟨d, hd⟩ : ∃ d, (x - a).toNat = d + 1 := ⟨(x - a).toNat - 1, by omega⟩
    simp only [store, add_one_sub_toNat hx, hd, Nat.add_sub_cancel, List.length_cons,
      Nat.add_lt_add_iff_right, List.getD_cons_succ, Function.update_of_ne hx]

theorem length_bytesAt (m : Memory) (n : Nat) :
    ∀ a : BitVec 64, (bytesAt m a n).length = n := by
  induction n with
  | zero => simp [bytesAt]
  | succ n ih => simp [bytesAt, ih]

theorem bytesAt_congr {m m' : Memory} {n : Nat} :
    ∀ {a : BitVec 64}, (∀ i < n, m (a + BitVec.ofNat 64 i) = m' (a + BitVec.ofNat 64 i)) →
      bytesAt m a n = bytesAt m' a n := by
  induction n with
  | zero => intros; rfl
  | succ n ih =>
      intro a hagree
      have hhead : m a = m' a := by simpa using hagree 0 (Nat.succ_pos n)
      have htail : bytesAt m (a + 1) n = bytesAt m' (a + 1) n := by
        refine ih fun i hi => ?_
        rw [add_one_add_ofNat]
        exact hagree (i + 1) (by omega)
      rw [bytesAt, bytesAt, hhead, htail]

theorem getD_bytesAt (m : Memory) {n : Nat} :
    ∀ {a : BitVec 64} {i : Nat}, i < n → (bytesAt m a n).getD i 0 = m (a + BitVec.ofNat 64 i) := by
  induction n with
  | zero => intro a i hi; omega
  | succ n ih =>
      intro a i hi
      cases i with
      | zero => simp [bytesAt]
      | succ i =>
          rw [bytesAt, List.getD_cons_succ, ih (by omega), add_one_add_ofNat]

/-- Bytes just written are read back. -/
theorem bytesAt_store (m : Memory) (a : BitVec 64) (bytes : List (BitVec 8))
    (hlength : bytes.length ≤ 2 ^ 64) : bytesAt (store m a bytes) a bytes.length = bytes := by
  apply List.ext_getElem (length_bytesAt _ _ _)
  intro i hi hi'
  rw [← List.getD_eq_getElem _ 0 hi, getD_bytesAt _ hi', store,
    add_sub_toNat a (hi'.trans_le hlength), if_pos hi', List.getD_eq_getElem _ _ hi']

/-! ### Blocks

Memory divided into blocks of `n` bytes, where `n` divides eight, so that a block lies in one word. -/

/-- The address of the block of `n` bytes that holds the byte at `x`. -/
def blockOf (n : Nat) (x : BitVec 64) : BitVec 64 := BitVec.ofNat 64 (x.toNat / n * n)

section Block

variable {n : Nat} {a x : BitVec 64}

theorem toNat_blockOf (n : Nat) (x : BitVec 64) : (blockOf n x).toNat = x.toNat / n * n := by
  have hle : x.toNat / n * n ≤ x.toNat := Nat.div_mul_le_self _ _
  rw [blockOf, BitVec.toNat_ofNat, Nat.mod_eq_of_lt (hle.trans_lt x.isLt)]

theorem eq_of_dvd_eight (hn : n ∣ 8) : n = 1 ∨ n = 2 ∨ n = 4 ∨ n = 8 := by
  have hlt : n < 9 := Nat.lt_succ_of_le (Nat.le_of_dvd (by decide) hn)
  have hall : ∀ k : Fin 9, k.val ∣ 8 → k.val = 1 ∨ k.val = 2 ∨ k.val = 4 ∨ k.val = 8 := by decide
  exact hall ⟨n, hlt⟩ hn

/-- A block holds exactly the bytes whose block address is its own. -/
theorem sub_lt_iff_blockOf (hn : n ∣ 8) (ha : a.toNat % n = 0) :
    (x - a).toNat < n ↔ blockOf n x = a := by
  rw [← BitVec.toNat_inj, toNat_blockOf, BitVec.toNat_sub]
  rcases eq_of_dvd_eight hn with rfl | rfl | rfl | rfl <;> omega

theorem toNat_sub_of_blockOf (hn : n ∣ 8) (hx : blockOf n x = a) :
    (x - a).toNat = x.toNat % n := by
  have hNat := congrArg BitVec.toNat hx
  rw [toNat_blockOf] at hNat
  rw [BitVec.toNat_sub]
  rcases eq_of_dvd_eight hn with rfl | rfl | rfl | rfl <;> omega

theorem aligned_eq_of_blockOf (hn : n ∣ 8) (hx : blockOf n x = a) : aligned x = aligned a := by
  have hNat := congrArg BitVec.toNat hx
  rw [toNat_blockOf] at hNat
  apply BitVec.eq_of_toNat_eq
  rw [toNat_aligned, toNat_aligned]
  rcases eq_of_dvd_eight hn with rfl | rfl | rfl | rfl <;> omega

theorem blockOf_add (hn : n ∣ 8) (ha : a.toNat % n = 0) {i : Nat} (hi : i < n) :
    blockOf n (a + BitVec.ofNat 64 i) = a := by
  rw [← sub_lt_iff_blockOf hn ha, add_sub_toNat a]
  · exact hi
  · rcases eq_of_dvd_eight hn with rfl | rfl | rfl | rfl <;> omega

theorem mod_add_of_mod (hn : n ∣ 8) (ha : a.toNat % n = 0) {i : Nat} (hi : i < n) :
    (a + BitVec.ofNat 64 i).toNat % n = i := by
  rw [BitVec.toNat_add, BitVec.toNat_ofNat]
  rcases eq_of_dvd_eight hn with rfl | rfl | rfl | rfl <;> omega

/-- Writing a whole block, byte by byte of the block. -/
theorem store_block (m : Memory) (hn : n ∣ 8) (ha : a.toNat % n = 0) {bytes : List (BitVec 8)}
    (hlength : bytes.length = n) (x : BitVec 64) :
    store m a bytes x = if blockOf n x = a then bytes.getD (x.toNat % n) 0 else m x := by
  unfold store
  rw [hlength]
  by_cases hx : blockOf n x = a
  · rw [if_pos ((sub_lt_iff_blockOf hn ha).mpr hx), if_pos hx, toNat_sub_of_blockOf hn hx]
  · rw [if_neg (mt (sub_lt_iff_blockOf hn ha).mp hx), if_neg hx]

theorem getD_bytesAt_block (m : Memory) (hn : n ∣ 8) (hx : blockOf n x = a) :
    (bytesAt m a n).getD (x.toNat % n) 0 = m x := by
  have hpos : 0 < n := Nat.pos_of_dvd_of_pos hn (by decide)
  rw [getD_bytesAt m (Nat.mod_lt _ hpos), ← toNat_sub_of_blockOf hn hx, add_ofNat_sub_toNat]

end Block

/-! ### Reading through words about to be written -/

/-- The memory as it will be once every word of `words` is written. -/
def view (words : SortedMap (BitVec 64) (BitVec 64)) (m : Memory) : Memory := fun x =>
  match words.find? (aligned x) with
  | some w => byteOf w (offset x)
  | none => m x

@[simp]
theorem view_empty (m : Memory) : view SortedMap.empty m = m := rfl

/-- Replacing one byte of the word that covers it, itself read through the view, replaces that
byte of the view and no other. -/
theorem view_insert_putByte {words : SortedMap (BitVec 64) (BitVec 64)} {m : Memory}
    {a w x : BitVec 64} (b : BitVec 8)
    (hw : aligned x = aligned a → byteOf w (offset x) = view words m x) :
    view (words.insert (aligned a) (putByte w (offset a) b)) m x
      = Function.update (view words m) a b x := by
  by_cases haligned : aligned x = aligned a
  · rw [view, haligned, SortedMap.find?_insert_self]
    simp only
    rw [byteOf_putByte w b (offset_lt a) (offset_lt x), hw haligned]
    by_cases hoffset : offset x = offset a
    · have hx := eq_of_aligned_of_offset haligned hoffset
      simp [hx]
    · have hx : x ≠ a := fun heq => hoffset (heq ▸ rfl)
      rw [if_neg hoffset, Function.update_of_ne hx]
  · have hx : x ≠ a := fun heq => haligned (heq ▸ rfl)
    rw [view, SortedMap.find?_insert_of_ne _ _ haligned, Function.update_of_ne hx]
    rfl

/-- The words are those that stand in the memory seen through them. -/
theorem eq_word_view {words : SortedMap (BitVec 64) (BitVec 64)} {k w : BitVec 64}
    (hfind : words.find? k = some w) (hk : aligned k = k) (m : Memory) :
    w = word (view words m) k := by
  refine eq_word_of_byteOf fun i hi => ?_
  obtain ⟨haligned, hoffset⟩ := aligned_add_of_lt hk hi
  rw [view, haligned, hfind, hoffset]

/-! ### Writing words one after another -/

def setWords (m : Memory) (words : List (BitVec 64 × BitVec 64)) : Memory :=
  words.foldl (fun m entry => setWord m entry.1 entry.2) m

section Words

variable {words : List (BitVec 64 × BitVec 64)} {x : BitVec 64}

theorem setWords_of_not_mem (haligned : ∀ entry ∈ words, aligned entry.1 = entry.1)
    (hx : ∀ entry ∈ words, entry.1 ≠ aligned x) (m : Memory) : setWords m words x = m x := by
  induction words generalizing m with
  | nil => rfl
  | cons entry rest ih =>
      calc setWords m (entry :: rest) x
          = setWord m entry.1 entry.2 x :=
            ih (fun other hmem => haligned other (List.mem_cons_of_mem _ hmem))
              (fun other hmem => hx other (List.mem_cons_of_mem _ hmem)) _
        _ = m x := by
            rw [setWord_apply m (haligned entry List.mem_cons_self),
              if_neg (hx entry List.mem_cons_self).symm]

theorem setWords_of_mem (haligned : ∀ entry ∈ words, aligned entry.1 = entry.1)
    (hnodup : (words.map Prod.fst).Nodup) {w : BitVec 64} (hx : (aligned x, w) ∈ words)
    (m : Memory) : setWords m words x = byteOf w (offset x) := by
  induction words generalizing m with
  | nil => cases hx
  | cons entry rest ih =>
      rw [List.map_cons, List.nodup_cons] at hnodup
      have haligned' : ∀ other ∈ rest, aligned other.1 = other.1 :=
        fun other hmem => haligned other (List.mem_cons_of_mem _ hmem)
      rcases List.mem_cons.mp hx with rfl | hx
      · have hrest : ∀ other ∈ rest, other.1 ≠ aligned x :=
          fun other hmem heq => hnodup.1 (List.mem_map.mpr ⟨other, hmem, heq⟩)
        calc setWords m ((aligned x, w) :: rest) x
            = setWord m (aligned x) w x := setWords_of_not_mem haligned' hrest _
          _ = byteOf w (offset x) := by rw [setWord_apply m (aligned_aligned x), if_pos rfl]
      · exact ih haligned' hnodup.2 hx _

/-- Once the words are written, the memory is what it looked like through them. -/
theorem setWords_entries {words : SortedMap (BitVec 64) (BitVec 64)}
    (haligned : ∀ k, words.contains k = true → aligned k = k) (m : Memory) :
    setWords m words.entries = view words m := by
  have haligned' : ∀ entry ∈ words.entries, aligned entry.1 = entry.1 := fun entry hmem =>
    haligned entry.1
      (SortedMap.contains_eq_true_iff.mpr ⟨entry.2, SortedMap.mem_entries_iff.mp hmem⟩)
  funext x
  unfold view
  cases hfind : words.find? (aligned x) with
  | some w => exact setWords_of_mem haligned' words.nodup_keys (SortedMap.mem_entries_iff.mpr hfind) m
  | none =>
      refine setWords_of_not_mem haligned' (fun entry hmem heq => ?_) m
      have hsome : words.find? entry.1 = some entry.2 := SortedMap.mem_entries_iff.mp hmem
      rw [heq, hfind] at hsome
      cases hsome

end Words

/-! ### A window of one memory over another -/

/-- The words from `a` on, each with its address. -/
def wordsAt (m : Memory) (a : BitVec 64) : Nat → List (BitVec 64 × BitVec 64)
  | 0 => []
  | n + 1 => (a, word m a) :: wordsAt m (a + 8) n

theorem setWords_wordsAt (m' : Memory) {n : Nat} (hn : 8 * n ≤ 2 ^ 64) (m : Memory) (a : BitVec 64) :
    setWords m (wordsAt m' a n) = fun x => if (x - a).toNat < 8 * n then m' x else m x := by
  induction n generalizing m a with
  | zero => rfl
  | succ n ih =>
      calc setWords m (wordsAt m' a (n + 1))
          = setWords (setWord m a (word m' a)) (wordsAt m' (a + 8) n) := rfl
        _ = fun x => if (x - a).toNat < 8 * (n + 1) then m' x else m x := ?_
      rw [ih (by omega)]
      funext x
      by_cases hfirst : (x - a).toNat < 8
      · have hbyte : setWord m a (word m' a) x = m' x := by
          rw [setWord, if_pos hfirst, byteOf_word m' a hfirst, add_ofNat_sub_toNat]
        rw [hbyte, ite_self, if_pos (by omega)]
      · have hlater : (x - (a + 8)).toNat = (x - a).toNat - 8 := by bv_omega
        have hkept : setWord m a (word m' a) x = m x := if_neg hfirst
        rw [hkept, hlater]
        congr 1
        exact propext (by omega)

end ByteMemory
