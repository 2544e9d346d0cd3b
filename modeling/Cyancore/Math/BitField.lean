/-
# Fields of a word

Some bits of a register, next to each other, hold a number.  Such a field is read by
shifting and masking, and replaced by clearing its mask and setting the bits of the new
number within the mask.  A replaced field reads as the new number, and the bits outside it
are as they were; so fields that do not overlap can be replaced in any order.
-/

import Cyancore.Math.Bits

namespace Cyancore.Math

variable {w : ℕ}

/-- The number in the `len` bits from bit `lo` on. -/
def field (word : BitVec w) (lo len : ℕ) : ℕ := (word.extractLsb' lo len).toNat

/-- The bits of a field. -/
def fieldMask (w lo len : ℕ) : BitVec w := (BitVec.allOnes len).setWidth w <<< lo

/-- `(word & ~mask) | ((value << lo) & mask)`. -/
def putField (word : BitVec w) (lo len value : ℕ) : BitVec w :=
  word &&& ~~~fieldMask w lo len ||| BitVec.ofNat w value <<< lo &&& fieldMask w lo len

/-- The bit lies in the field. -/
def InField (lo len i : ℕ) : Prop := lo ≤ i ∧ i < lo + len

instance (lo len i : ℕ) : Decidable (InField lo len i) :=
  inferInstanceAs (Decidable (lo ≤ i ∧ i < lo + len))

/-- A field ends before a higher one begins. -/
theorem InField.not_above {lo len lo' len' i : ℕ} (hi : InField lo len i)
    (hle : lo + len ≤ lo') : ¬ InField lo' len' i :=
  fun habove => Nat.not_lt.mpr (Nat.le_trans hle habove.1) hi.2

theorem testBit_field (word : BitVec w) (lo len i : ℕ) :
    (field word lo len).testBit i = (decide (i < len) && word.getLsbD (lo + i)) := by
  rw [field, BitVec.testBit_toNat, BitVec.getLsbD_extractLsb']

theorem getLsbD_fieldMask {lo len i : ℕ} (hi : i < w) :
    (fieldMask w lo len).getLsbD i = decide (InField lo len i) := by
  rw [fieldMask, BitVec.getLsbD_shiftLeft, BitVec.getLsbD_setWidth, BitVec.getLsbD_allOnes]
  by_cases hlo : i < lo
  · simp [hlo, InField, Nat.not_le.mpr hlo]
  · have hlen : i - lo < len ↔ i < lo + len := by omega
    simp [hlo, hi, InField, hlen, Nat.not_lt.mp hlo, show i - lo < w by omega]

/-- A replaced field holds the new bits, and the other bits are kept. -/
theorem getLsbD_putField (word : BitVec w) {lo len value i : ℕ} (hi : i < w) :
    (putField word lo len value).getLsbD i =
      if InField lo len i then value.testBit (i - lo) else word.getLsbD i := by
  rw [putField, BitVec.getLsbD_or, BitVec.getLsbD_and, BitVec.getLsbD_and, BitVec.getLsbD_not,
    getLsbD_fieldMask hi, BitVec.getLsbD_shiftLeft, BitVec.getLsbD_ofNat]
  by_cases hfield : InField lo len i
  · have hlo : ¬ i < lo := Nat.not_lt.mpr hfield.1
    simp [hfield, hi, hlo, show i - lo < w by omega]
  · simp [hfield, hi]

/-- Two words have the same fields where they have the same bits. -/
theorem field_congr {first second : BitVec w} {lo len : ℕ}
    (hsame : ∀ i, InField lo len i → first.getLsbD i = second.getLsbD i) :
    field first lo len = field second lo len := by
  apply Nat.eq_of_testBit_eq
  intro i
  rw [testBit_field, testBit_field]
  by_cases hi : i < len
  · rw [hsame (lo + i) ⟨Nat.le_add_right lo i, Nat.add_lt_add_left hi lo⟩]
  · simp [hi]

/-- The new number is read back. -/
theorem field_putField (word : BitVec w) {lo len value : ℕ} (hw : lo + len ≤ w)
    (hvalue : value < 2 ^ len) : field (putField word lo len value) lo len = value := by
  apply Nat.eq_of_testBit_eq
  intro i
  rw [testBit_field]
  by_cases hi : i < len
  · rw [getLsbD_putField word (by omega), if_pos ⟨Nat.le_add_right lo i, by omega⟩]
    simp [hi]
  · have hhigh : value.testBit i = false :=
      Nat.testBit_lt_two_pow (Nat.lt_of_lt_of_le hvalue
        (Nat.pow_le_pow_right Nat.two_pos (Nat.not_lt.mp hi)))
    simp [hi, hhigh]

/-- A field that does not overlap is kept. -/
theorem field_putField_of_disjoint (word : BitVec w) {lo len lo' len' value : ℕ}
    (hw : lo + len ≤ w) (hdisjoint : ∀ i, InField lo len i → ¬ InField lo' len' i) :
    field (putField word lo' len' value) lo len = field word lo len := by
  apply field_congr
  intro i hi
  rw [getLsbD_putField word (Nat.lt_of_lt_of_le hi.2 hw), if_neg (hdisjoint i hi)]

/-- What is set in a word is set in its fields. -/
theorem field_or (first second : BitVec w) (lo len : ℕ) :
    field (first ||| second) lo len = field first lo len ||| field second lo len := by
  apply Nat.eq_of_testBit_eq
  intro i
  rw [Nat.testBit_or, testBit_field, testBit_field, testBit_field, BitVec.getLsbD_or,
    Bool.and_or_distrib_left]

/-- The mask of a field keeps it. -/
theorem field_and_fieldMask (word : BitVec w) {lo len : ℕ} :
    field (word &&& fieldMask w lo len) lo len = field word lo len := by
  apply field_congr
  intro i hi
  by_cases hw : i < w
  · rw [BitVec.getLsbD_and, getLsbD_fieldMask hw, decide_eq_true hi, Bool.and_true]
  · rw [BitVec.getLsbD_of_ge _ i (Nat.not_lt.mp hw), BitVec.getLsbD_of_ge _ i (Nat.not_lt.mp hw)]

/-- A small number is the lowest field of its word. -/
theorem field_ofNat {len value : ℕ} (hlen : len ≤ w) (hvalue : value < 2 ^ len) :
    field (BitVec.ofNat w value) 0 len = value := by
  have hw : value < 2 ^ w := Nat.lt_of_lt_of_le hvalue (Nat.pow_le_pow_right Nat.two_pos hlen)
  rw [field, BitVec.extractLsb'_toNat, BitVec.toNat_ofNat, Nat.mod_eq_of_lt hw,
    Nat.shiftRight_zero, Nat.mod_eq_of_lt hvalue]

/-- A bit outside the field does not matter. -/
theorem field_clearBit_of_not_inField (word : BitVec w) {lo len n : ℕ}
    (hn : ¬ InField lo len n) : field (clearBit word n) lo len = field word lo len := by
  apply field_congr
  intro i hi
  have hne : i ≠ n := fun heq => hn (heq ▸ hi)
  simp [hne]

end Cyancore.Math
