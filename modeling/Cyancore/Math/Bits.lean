/-
# Single bits of a word

Registers and ownership masks are words whose bits are set and cleared one at a time, as
in `word |= 1 << n` and `word &= ~(1 << n)`.  A shift past the width gives zero, so that
both leave the word alone there.
-/

import Mathlib.Algebra.Group.Nat.Defs
import Mathlib.Tactic.Common

namespace Cyancore.Math

variable {w : ℕ}

/-- The word with one bit, `1 << n`. -/
def bit (w n : ℕ) : BitVec w := 1#w <<< n

/-- `word | 1 << n`. -/
def setBit (word : BitVec w) (n : ℕ) : BitVec w := word ||| bit w n

/-- `word & ~(1 << n)`. -/
def clearBit (word : BitVec w) (n : ℕ) : BitVec w := word &&& ~~~bit w n

@[simp]
theorem getLsbD_bit (n i : ℕ) : (bit w n).getLsbD i = (decide (i = n) && decide (n < w)) := by
  rw [bit, BitVec.getLsbD_shiftLeft, BitVec.getLsbD_one]
  by_cases hi : i = n
  · subst hi
    by_cases hw : i < w
    · simp [hw, show 0 < w by omega]
    · simp [hw]
  · simp only [hi, decide_false, Bool.false_and]
    by_cases hlt : i < n
    · simp [hlt]
    · simp [show ¬ i - n = 0 by omega]

@[simp]
theorem getElem_bit (n i : ℕ) (hi : i < w) :
    (bit w n)[i] = (decide (i = n) && decide (n < w)) := by
  rw [← BitVec.getLsbD_eq_getElem, getLsbD_bit]

@[simp]
theorem getLsbD_setBit (word : BitVec w) (n i : ℕ) :
    (setBit word n).getLsbD i = (word.getLsbD i || (decide (i = n) && decide (n < w))) := by
  rw [setBit, BitVec.getLsbD_or, getLsbD_bit]

@[simp]
theorem getLsbD_clearBit (word : BitVec w) (n i : ℕ) :
    (clearBit word n).getLsbD i = (word.getLsbD i && !decide (i = n)) := by
  rw [clearBit, BitVec.getLsbD_and, BitVec.getLsbD_not, getLsbD_bit]
  by_cases hw : i < w
  · by_cases hi : i = n
    · subst hi
      simp [hw]
    · simp [hw, hi]
  · simp [BitVec.getLsbD_of_ge word i (by omega)]

@[simp]
theorem getElem_setBit (word : BitVec w) (n i : ℕ) (hi : i < w) :
    (setBit word n)[i] = (word[i] || (decide (i = n) && decide (n < w))) := by
  rw [← BitVec.getLsbD_eq_getElem, getLsbD_setBit, BitVec.getLsbD_eq_getElem]

@[simp]
theorem getElem_clearBit (word : BitVec w) (n i : ℕ) (hi : i < w) :
    (clearBit word n)[i] = (word[i] && !decide (i = n)) := by
  rw [← BitVec.getLsbD_eq_getElem, getLsbD_clearBit, BitVec.getLsbD_eq_getElem]

/-! ## Words computed with in a wider type -/

/-- Setting a bit in the wider type and narrowing the result sets it in the word. -/
theorem setWidth_setBit {v : ℕ} (hv : w ≤ v) (word : BitVec w) (n : ℕ) :
    (setBit (word.setWidth v) n).setWidth w = setBit word n := by
  ext i hi
  have hiv : i < v := by omega
  have hn : (decide (i = n) && decide (n < v)) = (decide (i = n) && decide (n < w)) := by
    by_cases hin : i = n
    · subst hin
      simp [hi, hiv]
    · simp [hin]
  simp [hi, hiv, hn]

/-- Clearing a bit in the wider type and narrowing the result clears it in the word. -/
theorem setWidth_clearBit {v : ℕ} (hv : w ≤ v) (word : BitVec w) (n : ℕ) :
    (clearBit (word.setWidth v) n).setWidth w = clearBit word n := by
  ext i hi
  have hiv : i < v := by omega
  simp [hi, hiv]

/-- A bit is tested by masking the others. -/
theorem and_bit_ne_zero_iff (word : BitVec w) (n : ℕ) :
    word &&& bit w n ≠ 0 ↔ word.getLsbD n = true := by
  constructor
  · intro hne
    by_contra hclear
    apply hne
    apply BitVec.eq_of_getLsbD_eq
    intro i _
    rw [BitVec.getLsbD_and, getLsbD_bit]
    by_cases hi : i = n
    · subst hi
      simp [hclear]
    · simp [hi]
  · intro hset heq
    have hn : n < w := BitVec.lt_of_getLsbD hset
    have h : (word &&& bit w n).getLsbD n = (0 : BitVec w).getLsbD n := by rw [heq]
    rw [BitVec.getLsbD_and, getLsbD_bit, hset] at h
    simp [hn] at h

/-- A small word has no high bits. -/
theorem getElem_eq_false_of_lt {word : BitVec w} {n : ℕ} (hlt : word.toNat < 2 ^ n) {i : ℕ}
    (hi : i < w) (hn : n ≤ i) : word[i] = false :=
  Nat.testBit_lt_two_pow (Nat.lt_of_lt_of_le hlt (Nat.pow_le_pow_right Nat.two_pos hn))

/-! ## Words gathered by `|=` -/

/-- What a word holds after `word |= value` for each value, from zero. -/
def gather (values : List (BitVec w)) : BitVec w := values.foldl (· ||| ·) 0

@[simp]
theorem gather_nil : gather ([] : List (BitVec w)) = 0 := rfl

@[simp]
theorem gather_concat (values : List (BitVec w)) (value : BitVec w) :
    gather (values ++ [value]) = gather values ||| value := by
  rw [gather, List.foldl_append, List.foldl_cons, List.foldl_nil, gather]

/-- A union lies within a word exactly when both of its parts do. -/
theorem or_or_eq_iff (first second word : BitVec w) :
    first ||| second ||| word = word ↔ first ||| word = word ∧ second ||| word = word := by
  constructor
  · intro hwithin
    constructor
    · calc first ||| word = first ||| (first ||| second ||| word) := by rw [hwithin]
        _ = first ||| second ||| word := by
            rw [← BitVec.or_assoc, ← BitVec.or_assoc, BitVec.or_self]
        _ = word := hwithin
    · calc second ||| word = second ||| (first ||| second ||| word) := by rw [hwithin]
        _ = first ||| second ||| word := by
            rw [BitVec.or_comm first, ← BitVec.or_assoc, ← BitVec.or_assoc, BitVec.or_self]
        _ = word := hwithin
  · rintro ⟨hfirst, hsecond⟩
    rw [BitVec.or_assoc, hsecond, hfirst]

/-- Gathering one more value gives that value exactly when it covers all the earlier ones. -/
theorem gather_or_eq_iff (values : List (BitVec w)) (value : BitVec w) :
    gather values ||| value = value ↔ ∀ earlier ∈ values, earlier ||| value = value := by
  have hfold : ∀ (start : BitVec w), values.foldl (· ||| ·) start ||| value = value ↔
      start ||| value = value ∧ ∀ earlier ∈ values, earlier ||| value = value := by
    induction values with
    | nil => simp
    | cons first values ih =>
        intro start
        rw [List.foldl_cons, ih, or_or_eq_iff, List.forall_mem_cons, and_assoc]
  rw [gather, hfold]
  exact and_iff_right BitVec.zero_or

end Cyancore.Math
