/-
# Decimal text read within a bound

A reader of decimal text multiplies what it has by ten and adds the next digit, in a type
that ends somewhere.  A value only grows on the way, so the reader stays within its type
exactly when the number does.

Where a key may rub the last digit out, the digits need not be kept: what is left of their
value is a tenth of it, rounded down.
-/

import Mathlib.Algebra.Group.Nat.Defs
import Mathlib.Data.List.Induction
import Mathlib.Tactic.Common

namespace Cyancore.Math

/-- Take one more digit, within the limit. -/
def accumulate (limit value : ℕ) (c : Char) : Option ℕ :=
  let value := value * 10 + (c.toNat - '0'.toNat)
  if value ≤ limit then some value else none

/-- More digits make no smaller a number. -/
theorem le_ofDigitChars (cs : List Char) (value : ℕ) : value ≤ Nat.ofDigitChars 10 cs value := by
  rw [Nat.ofDigitChars_eq_ofDigitChars_zero]
  have hpow : 1 * value ≤ 10 ^ cs.length * value :=
    Nat.mul_le_mul_right _ (Nat.one_le_pow _ _ (by decide))
  omega

/-- The first step of a reading stays within the limit if the whole of it does. -/
theorem accumulate_eq_some {limit value : ℕ} {c : Char} {cs : List Char}
    (hle : Nat.ofDigitChars 10 (c :: cs) value ≤ limit) :
    accumulate limit value c = some (10 * value + (c.toNat - '0'.toNat)) := by
  rw [Nat.ofDigitChars_cons] at hle
  have hfirst := Nat.le_trans (le_ofDigitChars cs _) hle
  rw [accumulate, Nat.mul_comm]
  exact if_pos hfirst

/-- A reading that stays within the limit gives the number. -/
theorem foldlM_accumulate {limit value : ℕ} {cs : List Char}
    (hle : Nat.ofDigitChars 10 cs value ≤ limit) :
    cs.foldlM (accumulate limit) value = some (Nat.ofDigitChars 10 cs value) := by
  induction cs generalizing value with
  | nil => rfl
  | cons c cs ih =>
      rw [List.foldlM_cons, accumulate_eq_some hle, Option.bind_eq_bind, Option.bind_some]
      rw [Nat.ofDigitChars_cons] at hle ⊢
      exact ih hle

/-- A reading of a number past the limit fails. -/
theorem foldlM_accumulate_eq_none {limit value : ℕ} {cs : List Char} (hvalue : value ≤ limit)
    (hlt : limit < Nat.ofDigitChars 10 cs value) :
    cs.foldlM (accumulate limit) value = none := by
  induction cs generalizing value with
  | nil => exact absurd hvalue (Nat.not_le.mpr hlt)
  | cons c cs ih =>
      rw [List.foldlM_cons, accumulate, Nat.mul_comm]
      by_cases hfirst : 10 * value + (c.toNat - '0'.toNat) ≤ limit
      · rw [Nat.ofDigitChars_cons] at hlt
        simp only [hfirst, if_true, Option.bind_eq_bind, Option.bind_some]
        exact ih hfirst hlt
      · simp only [hfirst, if_false, Option.bind_eq_bind, Option.bind_none]

/-! ## Rubbing digits out -/

/-- A key either rubs the last character of the line out or is put after it. -/
def editKey (isRub : Char → Bool) (line : List Char) (c : Char) : List Char :=
  if isRub c then line.dropLast else line ++ [c]

/-- What the keys leave on a line that was empty. -/
def edited (isRub : Char → Bool) (keys : List Char) : List Char := keys.foldl (editKey isRub) []

variable {isRub : Char → Bool} {keys : List Char} {c : Char}

theorem edited_concat : edited isRub (keys ++ [c]) = editKey isRub (edited isRub keys) c :=
  List.foldl_append

/-- Only a key that does not rub out is ever on the line. -/
theorem mem_edited (hc : c ∈ edited isRub keys) : c ∈ keys ∧ isRub c = false := by
  induction keys using List.reverseRecOn with
  | nil => cases hc
  | append_singleton keys k ih =>
      rw [edited_concat, editKey] at hc
      split_ifs at hc with hrub
      · obtain ⟨hmem, hput⟩ := ih (List.dropLast_subset _ hc)
        exact ⟨List.mem_append_left _ hmem, hput⟩
      · rcases List.mem_append.mp hc with hc | hc
        · obtain ⟨hmem, hput⟩ := ih hc
          exact ⟨List.mem_append_left _ hmem, hput⟩
        · rw [List.mem_singleton.mp hc]
          exact ⟨List.mem_append_right _ List.mem_cons_self, Bool.eq_false_iff.mpr hrub⟩

/-- A digit at the end is the units of the number. -/
theorem ofDigitChars_concat (cs : List Char) (c : Char) (value : ℕ) :
    Nat.ofDigitChars 10 (cs ++ [c]) value =
      10 * Nat.ofDigitChars 10 cs value + (c.toNat - '0'.toNat) := by
  rw [Nat.ofDigitChars_append, Nat.ofDigitChars_cons, Nat.ofDigitChars_nil]

/-- So many digits make a number below so high a power of ten. -/
theorem ofDigitChars_lt {cs : List Char} (hdigits : ∀ c ∈ cs, c.toNat - '0'.toNat < 10) :
    Nat.ofDigitChars 10 cs 0 < 10 ^ cs.length := by
  induction cs using List.reverseRecOn with
  | nil => exact Nat.one_pos
  | append_singleton cs c ih =>
      have hdigit := hdigits c (by simp)
      have hrest := ih fun d hd => hdigits d (List.mem_append_left _ hd)
      rw [ofDigitChars_concat, List.length_append, List.length_singleton, Nat.pow_succ]
      omega

/-- A number is zero exactly when all its digits are. -/
theorem ofDigitChars_eq_zero_iff {cs : List Char} :
    Nat.ofDigitChars 10 cs 0 = 0 ↔ ∀ c ∈ cs, c.toNat - '0'.toNat = 0 := by
  induction cs using List.reverseRecOn with
  | nil => simp
  | append_singleton cs c ih =>
      rw [ofDigitChars_concat, Nat.add_eq_zero_iff, List.forall_mem_append,
        List.forall_mem_singleton, ← ih, Nat.mul_eq_zero, or_iff_right (by decide)]

/-- Without its last digit a number is a tenth of what it was; leading zeros do not matter. -/
theorem ofDigitChars_dropLast {cs : List Char} (hdigits : ∀ c ∈ cs, c.toNat - '0'.toNat < 10) :
    Nat.ofDigitChars 10 cs.dropLast 0 = Nat.ofDigitChars 10 cs 0 / 10 := by
  rcases List.eq_nil_or_concat cs with rfl | ⟨cs, c, rfl⟩
  · rfl
  · have hdigit := hdigits c (by simp)
    rw [List.concat_eq_append, List.dropLast_concat, ofDigitChars_concat,
      Nat.mul_add_div (by decide), Nat.div_eq_of_lt hdigit, Nat.add_zero]

/-- The value of the edited line after one more key, from the value before it. -/
theorem ofDigitChars_edited_concat
    (hdigits : ∀ c ∈ keys, isRub c = false → c.toNat - '0'.toNat < 10) (c : Char) :
    Nat.ofDigitChars 10 (edited isRub (keys ++ [c])) 0 =
      if isRub c then Nat.ofDigitChars 10 (edited isRub keys) 0 / 10
      else 10 * Nat.ofDigitChars 10 (edited isRub keys) 0 + (c.toNat - '0'.toNat) := by
  have hline : ∀ d ∈ edited isRub keys, d.toNat - '0'.toNat < 10 := by
    intro d hd
    obtain ⟨hmem, hput⟩ := mem_edited hd
    exact hdigits d hmem hput
  rw [edited_concat, editKey]
  split_ifs with hrub
  · exact ofDigitChars_dropLast hline
  · exact ofDigitChars_concat _ c 0

end Cyancore.Math
