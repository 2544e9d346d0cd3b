/-
# Numbers from text

The integer types of a build, the character classes of `ctype.c` and the integer readers
of `strton.c`.  A string is the list of its characters before the NUL.  A reading that
leaves the range of a signed type has no defined result.
-/

import Cyancore.Math.Decimal
import Mathlib.Algebra.Group.Nat.Defs
import Mathlib.Data.Int.Order.Basic

namespace Cyancore.Libc

open Cyancore.Math

/-! ## Integer types -/

/-- What a build of the library fixes: the widths of its types in bits, and `USE_FLOAT`. -/
structure LibcConfig where
  int : ℕ
  long : ℕ
  /-- The width of `size_t` and of pointers. -/
  size : ℕ
  useFloat : Bool
  int_ge : 16 ≤ int
  int_le_long : int ≤ long
  long_le : long ≤ 64

namespace LibcConfig

/-- `INT_MAX`. -/
def intMax (conf : LibcConfig) : ℕ := 2 ^ (conf.int - 1) - 1

/-- `LONG_MAX`. -/
def longMax (conf : LibcConfig) : ℕ := 2 ^ (conf.long - 1) - 1

theorem sixteen_le_thirtyTwo : 16 ≤ 32 := by decide

/-- The megaAVR: 16-bit `int`, 32-bit `long`. -/
def avr (useFloat : Bool) : LibcConfig :=
  ⟨16, 32, 16, useFloat, by decide, sixteen_le_thirtyTwo, by decide⟩

/-- 32-bit RISC-V. -/
def rv32 (useFloat : Bool) : LibcConfig :=
  ⟨32, 32, 32, useFloat, sixteen_le_thirtyTwo, by decide, by decide⟩

theorem int_pos (conf : LibcConfig) : 0 < conf.int :=
  Nat.lt_of_lt_of_le (by decide) conf.int_ge

theorem long_pos (conf : LibcConfig) : 0 < conf.long :=
  Nat.lt_of_lt_of_le conf.int_pos conf.int_le_long

theorem intMax_le_longMax (conf : LibcConfig) : conf.intMax ≤ conf.longMax := by
  have hpow : 2 ^ (conf.int - 1) ≤ 2 ^ (conf.long - 1) :=
    Nat.pow_le_pow_right Nat.two_pos (Nat.sub_le_sub_right conf.int_le_long 1)
  exact Nat.sub_le_sub_right hpow 1

/-- An `int` holds at least the numbers below 2 to the 15. -/
theorem le_intMax (conf : LibcConfig) : 32767 ≤ conf.intMax := by
  have hpow : 2 ^ 15 ≤ 2 ^ (conf.int - 1) :=
    Nat.pow_le_pow_right Nat.two_pos (by have := conf.int_ge; omega)
  rw [intMax]
  omega

end LibcConfig

/-! ## Character classes -/

/-- `isWhitespace`. -/
def isWhitespace (c : Char) : Bool := c = ' ' || c = '\t'

/-- `isSpace`; the last three are a form feed, a carriage return and a vertical tab. -/
def isSpace (c : Char) : Bool :=
  isWhitespace c || c = '\n' || c = '\x0c' || c = '\x0d' || c = '\x0b'

/-- `isDigit`. -/
def isDigit (c : Char) : Bool := '0'.toNat ≤ c.toNat && c.toNat ≤ '9'.toNat

/-- A digit is not space. -/
theorem isSpace_eq_false_of_isDigit {c : Char} (hdigit : isDigit c = true) :
    isSpace c = false := by
  by_contra hspace
  simp only [isSpace, isWhitespace, Bool.not_eq_false, Bool.or_eq_true, decide_eq_true_eq]
    at hspace
  rcases hspace with ((((rfl | rfl) | rfl) | rfl) | rfl) | rfl <;> exact absurd hdigit (by decide)

theorem digit_lt_ten {c : Char} (hdigit : isDigit c = true) : c.toNat - '0'.toNat < 10 := by
  have hbound : '0'.toNat ≤ c.toNat ∧ c.toNat ≤ '9'.toNat := by simpa [isDigit] using hdigit
  have hzero : '0'.toNat = 48 := rfl
  have hnine : '9'.toNat = 57 := rfl
  omega

/-! ## Readers -/

/-- `isSign`. -/
def isSign (c : Char) : Bool := c = '-' || c = '+'

/-- `trail_whitespace`. -/
def trailWhitespace (s : List Char) : List Char := s.dropWhile isSpace

/-- `set_negative_flag`: the rest of the string and the flag, which was false. -/
def setNegativeFlag (s : List Char) : List Char × Bool :=
  match s with
  | c :: rest => if c ≠ '\x00' ∧ isSign c then (rest, c = '-') else (c :: rest, false)
  | [] => ([], false)

/-- The loop condition of `integer_traverse`. -/
def continuesInteger (c : Char) : Bool := c ≠ '\x00' && c ≠ '.' && !isSpace c && isDigit c

theorem continuesInteger_of_isDigit {c : Char} (hdigit : isDigit c = true) :
    continuesInteger c = true := by
  have hnul : c ≠ '\x00' := by
    rintro rfl
    cases hdigit
  have hdot : c ≠ '.' := by
    rintro rfl
    cases hdigit
  simp [continuesInteger, hnul, hdot, isSpace_eq_false_of_isDigit hdigit, hdigit]

/-- `integer_traverse` into a `long`: the rest of the string and the accumulator. -/
def integerTraverse (conf : LibcConfig) : List Char → ℕ → Option (List Char × ℕ)
  | c :: s, a =>
      if continuesInteger c then (accumulate conf.longMax a c).bind (integerTraverse conf s)
      else some (c :: s, a)
  | [], a => some ([], a)

/-- `atol`. -/
def atol (conf : LibcConfig) (s : List Char) : Option (BitVec conf.long) :=
  let (s, negative) := setNegativeFlag (trailWhitespace s)
  (integerTraverse conf s 0).map fun (_, a) =>
    if negative ∧ a ≠ 0 then -BitVec.ofNat conf.long a else BitVec.ofNat conf.long a

/-- `atoi`: the `long`, cast to `int`. -/
def atoi (conf : LibcConfig) (s : List Char) : Option (BitVec conf.int) :=
  (atol conf s).map fun a => a.setWidth conf.int

/-! ## Reading a numeral -/

variable {conf : LibcConfig}

/-- The loop reads all the digits of a number that fits. -/
theorem integerTraverse_eq {s : List Char} {a : ℕ} (hdigits : ∀ c ∈ s, isDigit c = true)
    (hfits : Nat.ofDigitChars 10 s a ≤ conf.longMax) :
    integerTraverse conf s a = some ([], Nat.ofDigitChars 10 s a) := by
  induction s generalizing a with
  | nil => rfl
  | cons c s ih =>
      have hcontinues := continuesInteger_of_isDigit (hdigits c List.mem_cons_self)
      rw [integerTraverse, hcontinues, if_pos rfl, accumulate_eq_some hfits, Option.bind_some]
      rw [Nat.ofDigitChars_cons] at hfits ⊢
      exact ih (fun c hc => hdigits c (List.mem_cons_of_mem _ hc)) hfits

/-- Digits are read as the number that they write. -/
theorem atol_digits {s : List Char} (hdigits : ∀ c ∈ s, isDigit c = true)
    (hfits : Nat.ofDigitChars 10 s 0 ≤ conf.longMax) :
    atol conf s = some (BitVec.ofNat conf.long (Nat.ofDigitChars 10 s 0)) := by
  have hspace : trailWhitespace s = s := by
    cases s with
    | nil => rfl
    | cons c s =>
        refine List.dropWhile_cons_of_neg ?_
        rw [isSpace_eq_false_of_isDigit (hdigits c List.mem_cons_self)]
        decide
  have hsign : setNegativeFlag s = (s, false) := by
    cases s with
    | nil => rfl
    | cons c s =>
        refine if_neg fun hsigned => ?_
        have hdigit := hdigits c List.mem_cons_self
        have hcase : c = '-' ∨ c = '+' := by simpa [isSign] using hsigned.2
        rcases hcase with rfl | rfl <;> cases hdigit
  rw [atol, hspace, hsign]
  simp only [integerTraverse_eq hdigits hfits, Option.map_some]
  simp

/-- Digits after a minus sign are read as the negated number. -/
theorem atol_minus {s : List Char} (hdigits : ∀ c ∈ s, isDigit c = true)
    (hfits : Nat.ofDigitChars 10 s 0 ≤ conf.longMax) :
    atol conf ('-' :: s) = some (-BitVec.ofNat conf.long (Nat.ofDigitChars 10 s 0)) := by
  have hspace : trailWhitespace ('-' :: s) = '-' :: s :=
    List.dropWhile_cons_of_neg (by decide)
  have hsign : setNegativeFlag ('-' :: s) = (s, true) := by
    rw [setNegativeFlag, if_pos (by decide)]
    rfl
  rw [atol, hspace, hsign]
  simp only [integerTraverse_eq hdigits hfits, Option.map_some, true_and]
  split
  · rfl
  · rename_i hzero
    rw [not_ne_iff.mp hzero]
    simp

end Cyancore.Libc
