/-
# Numbers with a fraction from text

`atof` hands one cursor through four readers: white space, a sign, digits, a fraction and a
power of ten.  The reader of the fraction passes over the point only where the point is white
space as well, which it never is.  So it stops where it starts, and so does the reader of the
power of ten behind it: a number with a point is read up to the point.

A `double` is an exact rational number here.
-/

import Cyancore.Libc.Strton
import Mathlib.Algebra.Order.Field.Power
import Mathlib.Data.Rat.Cast.Order
import Mathlib.Tactic.Linarith
import Mathlib.Tactic.NormNum
import Mathlib.Tactic.Positivity

namespace Cyancore.Libc

open Cyancore.Math

/-! ## The function -/

/-- The loop of `mantissa_traverse`. -/
def mantissaLoop : List Char → ℚ → ℚ → List Char × ℚ × ℚ
  | c :: s, m, e =>
      if continuesInteger c then
        mantissaLoop s (m + e * (1 / 10) * (c.toNat - '0'.toNat : ℕ)) (e * (1 / 10))
      else (c :: s, m, e)
  | [], m, e => ([], m, e)

/-- `mantissa_traverse`: the rest of the string, the mantissa and its scale. -/
def mantissaTraverse (s : List Char) (m e : ℚ) : List Char × ℚ × ℚ :=
  match s with
  | c :: rest =>
      if c = '.' ∧ isSpace c then mantissaLoop rest m e else mantissaLoop (c :: rest) m e
  | [] => mantissaLoop [] m e

/-- The loop of `scientific_notation` over the digits. -/
def exponentDigits (conf : LibcConfig) : List Char → ℕ → Option (List Char × ℕ)
  | c :: s, a =>
      if c ≠ '\x00' && !isSpace c && isDigit c then
        (accumulate conf.longMax a c).bind (exponentDigits conf s)
      else some (c :: s, a)
  | [], a => some ([], a)

/-- The loop of `scientific_notation` that counts the exponent down. -/
def scaleBy : ℕ → ℚ → ℚ → ℚ
  | 0, r, _ => r
  | a + 1, r, e => scaleBy a (r * e) e

/-- `scientific_notation`: the rest of the string and the scaled result. -/
def scientificNotation (conf : LibcConfig) (s : List Char) (r e : ℚ) :
    Option (List Char × ℚ) :=
  match s with
  | c :: sign :: s' =>
      if (c = 'e' ∨ c = 'E') ∧ isSign sign then
        let e := if sign = '-' then 1 / 10 else if sign = '+' then 10 else e
        (exponentDigits conf s' 0).map fun (rest, a) => (rest, scaleBy a r e)
      else some (s, r)
  | _ => some (s, r)

/-- `atof`; none if a `long` overflows. -/
def atof (conf : LibcConfig) (s : List Char) : Option ℚ := do
  let (s, negative) := setNegativeFlag (trailWhitespace s)
  let (s, a) ← integerTraverse conf s 0
  let (s, m, e) := mantissaTraverse s 0 1
  let (_, r) ← scientificNotation conf s (a + m) e
  return if negative ∧ r ≠ 0 then -r else r

/-! ## What a string denotes -/

/-- A power of ten behind a number. -/
structure PowerOfTen where
  letter : Char
  sign : Char
  digits : List Char
  letter_eq : letter = 'e' ∨ letter = 'E'
  sign_isSign : isSign sign = true
  digits_isDigit : ∀ c ∈ digits, isDigit c = true

namespace PowerOfTen

def text (power : PowerOfTen) : List Char := power.letter :: power.sign :: power.digits

def exponent (power : PowerOfTen) : ℤ :=
  if power.sign = '-' then -(Nat.ofDigitChars 10 power.digits 0 : ℤ)
  else Nat.ofDigitChars 10 power.digits 0

end PowerOfTen

/-- A number as it is written: digits before the point, behind it, or on both sides. -/
structure WrittenNumber where
  spaces : List Char
  sign : Option Char
  whole : List Char
  decimals : Option (List Char)
  power : Option PowerOfTen
  spaces_isSpace : ∀ c ∈ spaces, isSpace c = true
  sign_isSign : ∀ c ∈ sign, isSign c = true
  whole_isDigit : ∀ c ∈ whole, isDigit c = true
  decimals_isDigit : ∀ ds ∈ decimals, ∀ c ∈ ds, isDigit c = true
  begins : whole = [] → decimals ≠ none

namespace WrittenNumber

/-- The point and the digits behind it. -/
def fractionText (number : WrittenNumber) : List Char :=
  match number.decimals with
  | none => []
  | some ds => '.' :: ds

def powerText (number : WrittenNumber) : List Char :=
  match number.power with
  | none => []
  | some power => power.text

def text (number : WrittenNumber) : List Char :=
  number.spaces ++ (number.sign.toList ++
    (number.whole ++ (number.fractionText ++ number.powerText)))

/-- The number that the digits before the point write. -/
def wholeValue (number : WrittenNumber) : ℕ := Nat.ofDigitChars 10 number.whole 0

/-- The number that the digits behind the point write. -/
def fraction (number : WrittenNumber) : ℚ :=
  match number.decimals with
  | none => 0
  | some ds => Nat.ofDigitChars 10 ds 0 / 10 ^ ds.length

def exponent (number : WrittenNumber) : ℤ :=
  match number.power with
  | none => 0
  | some power => power.exponent

/-- A number with the sign that is written. -/
def signed (number : WrittenNumber) (value : ℚ) : ℚ :=
  if number.sign = some '-' then -value else value

/-- The number that is denoted. -/
def value (number : WrittenNumber) : ℚ :=
  number.signed ((number.wholeValue + number.fraction) * 10 ^ number.exponent)

/-- The part before the point and the exponent are numbers of a `long`. -/
structure Fits (number : WrittenNumber) (conf : LibcConfig) : Prop where
  whole : number.wholeValue ≤ conf.longMax
  power : ∀ power ∈ number.power, Nat.ofDigitChars 10 power.digits 0 ≤ conf.longMax

/-- The text that follows does not go on with the number. -/
structure EndsAt (number : WrittenNumber) (rest : List Char) : Prop where
  digit : ∀ c ∈ rest.head?, isDigit c = false
  point : number.decimals = none → number.power = none → ∀ c ∈ rest.head?, c ≠ '.'
  letter : number.power = none → ∀ c sign tail, rest = c :: sign :: tail →
    (c = 'e' ∨ c = 'E') → isSign sign = false

end WrittenNumber

/-- `atof` returns the number that the string denotes, whatever text follows. -/
def ReadsNumber (conf : LibcConfig) (number : WrittenNumber) (rest : List Char) : Prop :=
  atof conf (number.text ++ rest) = some number.value

/-! ## The readers -/

section Readers

variable {conf : LibcConfig} {ds rest : List Char} {a : ℕ}

theorem continuesInteger_eq (c : Char) : continuesInteger c = isDigit c := by
  by_cases hdigit : isDigit c = true
  · rw [continuesInteger_of_isDigit hdigit, hdigit]
  · simp [continuesInteger, hdigit]

/-- The two loops over digits are the same. -/
theorem exponentDigits_eq (s : List Char) (a : ℕ) :
    exponentDigits conf s a = integerTraverse conf s a := by
  induction s generalizing a with
  | nil => rfl
  | cons c s ih =>
      have hcondition : (c ≠ '\x00' && !isSpace c && isDigit c) = continuesInteger c := by
        rw [continuesInteger_eq]
        by_cases hdigit : isDigit c = true
        · have hnul : c ≠ '\x00' := by
            rintro rfl
            cases hdigit
          simp [hnul, hdigit, isSpace_eq_false_of_isDigit hdigit]
        · simp [hdigit]
      rw [exponentDigits, integerTraverse, hcondition]
      congr 2
      funext a
      exact ih a

/-- The loop reads digits up to a character that is none. -/
theorem integerTraverse_append (hdigits : ∀ c ∈ ds, isDigit c = true)
    (hfits : Nat.ofDigitChars 10 ds a ≤ conf.longMax)
    (hrest : ∀ c ∈ rest.head?, isDigit c = false) :
    integerTraverse conf (ds ++ rest) a = some (rest, Nat.ofDigitChars 10 ds a) := by
  induction ds generalizing a with
  | nil =>
      cases rest with
      | nil => rfl
      | cons c rest =>
          have hstop : continuesInteger c = false := by
            rw [continuesInteger_eq]
            exact hrest c rfl
          rw [List.nil_append, integerTraverse, hstop]
          rfl
  | cons c ds ih =>
      have hcontinues := continuesInteger_of_isDigit (hdigits c List.mem_cons_self)
      rw [List.cons_append, integerTraverse, hcontinues, if_pos rfl, accumulate_eq_some hfits,
        Option.bind_some]
      rw [Nat.ofDigitChars_cons] at hfits ⊢
      exact ih (fun c hc => hdigits c (List.mem_cons_of_mem _ hc)) hfits

/-- Behind the digits of the whole part, the reader of the fraction stops where it starts. -/
theorem mantissaTraverse_eq {s : List Char} (hstart : ∀ c ∈ s.head?, isDigit c = false)
    (m e : ℚ) : mantissaTraverse s m e = (s, m, e) := by
  cases s with
  | nil => rfl
  | cons c s =>
      have hstop : continuesInteger c = false := by
        rw [continuesInteger_eq]
        exact hstart c rfl
      have hpoint : ¬ (c = '.' ∧ isSpace c = true) := by
        rintro ⟨rfl, hspace⟩
        cases hspace
      rw [mantissaTraverse, if_neg hpoint, mantissaLoop, hstop]
      rfl

theorem scaleBy_eq (a : ℕ) (r e : ℚ) : scaleBy a r e = r * e ^ a := by
  induction a generalizing r with
  | zero => rw [scaleBy, pow_zero, mul_one]
  | succ a ih => rw [scaleBy, ih, pow_succ', mul_assoc]

/-- A power of ten is applied. -/
theorem scientificNotation_power (power : PowerOfTen)
    (hfits : Nat.ofDigitChars 10 power.digits 0 ≤ conf.longMax)
    (hrest : ∀ c ∈ rest.head?, isDigit c = false) (r e : ℚ) :
    scientificNotation conf (power.text ++ rest) r e =
      some (rest, r * 10 ^ power.exponent) := by
  have hsign : power.sign = '-' ∨ power.sign = '+' := by
    simpa [isSign] using power.sign_isSign
  rw [PowerOfTen.text, List.cons_append, List.cons_append, scientificNotation,
    if_pos ⟨power.letter_eq, power.sign_isSign⟩, exponentDigits_eq,
    integerTraverse_append power.digits_isDigit hfits hrest, Option.map_some, PowerOfTen.exponent]
  simp only [scaleBy_eq]
  rcases hsign with hsign | hsign <;> simp [hsign]

/-- White space is passed over up to the first other character. -/
theorem trailWhitespace_append {spaces s : List Char}
    (hspaces : ∀ c ∈ spaces, isSpace c = true) (hs : ∀ c ∈ s.head?, isSpace c = false) :
    trailWhitespace (spaces ++ s) = s := by
  rw [trailWhitespace, List.dropWhile_append_of_pos hspaces]
  cases s with
  | nil => rfl
  | cons c s => exact List.dropWhile_cons_of_neg (by simp [hs c rfl])

theorem isSpace_eq_false_of_isSign {c : Char} (hsign : isSign c = true) : isSpace c = false := by
  simp only [isSign, Bool.or_eq_true, decide_eq_true_eq] at hsign
  rcases hsign with rfl | rfl <;> rfl

/-- A sign is passed over, and told. -/
theorem setNegativeFlag_append {sign : Option Char} {s : List Char}
    (hsign : ∀ c ∈ sign, isSign c = true) (hs : ∀ c ∈ s.head?, isSign c = false) :
    setNegativeFlag (sign.toList ++ s) = (s, decide (sign = some '-')) := by
  cases sign with
  | none =>
      cases s with
      | nil => rfl
      | cons c s => exact if_neg fun hsigned => by simp [hs c rfl] at hsigned
  | some c =>
      have hsigned := hsign c rfl
      have hnul : c ≠ '\x00' := by
        rintro rfl
        cases hsigned
      rw [Option.toList_some, List.singleton_append, setNegativeFlag, if_pos ⟨hnul, hsigned⟩]
      simp

end Readers

/-! ## The whole string -/

namespace WrittenNumber

variable {conf : LibcConfig} {number : WrittenNumber} {rest : List Char}

/-- What comes behind the digits before the point does not begin with a digit. -/
theorem isDigit_head (hends : number.EndsAt rest) :
    ∀ c ∈ (number.fractionText ++ (number.powerText ++ rest)).head?, isDigit c = false := by
  rw [fractionText, powerText]
  cases number.decimals with
  | some ds =>
      rintro c ⟨⟩
      rfl
  | none =>
      cases number.power with
      | some power =>
          rintro c ⟨⟩
          rcases power.letter_eq with hletter | hletter <;> rw [hletter] <;> rfl
      | none => exact hends.digit

/-- Behind white space and the sign there is a digit or the point. -/
theorem exists_first (number : WrittenNumber) (rest : List Char) :
    ∃ c s, number.whole ++ (number.fractionText ++ rest) = c :: s ∧
      isSpace c = false ∧ isSign c = false := by
  cases hwhole : number.whole with
  | nil =>
      obtain ⟨ds, hds⟩ := Option.ne_none_iff_exists'.mp (number.begins hwhole)
      exact ⟨'.', ds ++ rest, by rw [fractionText, hds]; rfl, rfl, rfl⟩
  | cons c s =>
      have hdigit := number.whole_isDigit c (by rw [hwhole]; exact List.mem_cons_self)
      refine ⟨c, s ++ (number.fractionText ++ rest), rfl, isSpace_eq_false_of_isDigit hdigit, ?_⟩
      by_contra hsign
      simp only [isSign, Bool.not_eq_false, Bool.or_eq_true, decide_eq_true_eq] at hsign
      rcases hsign with rfl | rfl <;> cases hdigit

/-- The number that is read: up to the point, if there is one. -/
def readValue (number : WrittenNumber) : ℚ :=
  match number.decimals with
  | none => number.value
  | some _ => number.signed number.wholeValue

/-- The reader of the power of ten finds it only where there is no point. -/
theorem scientificNotation_text (hfits : number.Fits conf) (hends : number.EndsAt rest) (e : ℚ) :
    ∃ rest' r, scientificNotation conf (number.fractionText ++ (number.powerText ++ rest))
        number.wholeValue e = some (rest', r) ∧ number.signed r = number.readValue := by
  rw [readValue, fractionText]
  cases hdecimals : number.decimals with
  | some ds =>
      refine ⟨'.' :: ds ++ (number.powerText ++ rest), number.wholeValue, ?_, rfl⟩
      cases hafter : ds ++ (number.powerText ++ rest) with
      | nil => simp only [List.cons_append, hafter, scientificNotation]
      | cons c s =>
          simp only [List.cons_append, hafter, scientificNotation]
          exact if_neg fun hletter => by simp at hletter
  | none =>
      rw [value, fraction, hdecimals, add_zero, exponent, powerText, List.nil_append]
      cases hpower : number.power with
      | some power =>
          exact ⟨rest, _, scientificNotation_power power (hfits.power power hpower) hends.digit _ e,
            rfl⟩
      | none =>
          refine ⟨rest, number.wholeValue, ?_, by rw [zpow_zero, mul_one]⟩
          rw [List.nil_append]
          match rest, hends with
          | [], _ => rfl
          | [_], _ => rfl
          | c :: sign :: tail, hends =>
              rw [scientificNotation]
              refine if_neg fun hnotation => ?_
              rw [hends.letter hpower c sign tail rfl hnotation.1] at hnotation
              cases hnotation.2

/-- What `atof` returns. -/
theorem atof_text (hfits : number.Fits conf) (hends : number.EndsAt rest) :
    atof conf (number.text ++ rest) = some number.readValue := by
  have htext : number.text ++ rest = number.spaces ++ (number.sign.toList ++
      (number.whole ++ (number.fractionText ++ (number.powerText ++ rest)))) := by
    simp only [text, List.append_assoc]
  obtain ⟨c, s, hfirst, hspace, hsign⟩ := number.exists_first (number.powerText ++ rest)
  have hbody : ∀ d ∈ (number.whole ++
      (number.fractionText ++ (number.powerText ++ rest))).head?, isSign d = false := by
    rw [hfirst]
    rintro d ⟨⟩
    exact hsign
  have hstart : ∀ d ∈ (number.sign.toList ++ (number.whole ++
      (number.fractionText ++ (number.powerText ++ rest)))).head?, isSpace d = false := by
    rw [hfirst]
    cases hnumber : number.sign with
    | none =>
        rintro d ⟨⟩
        exact hspace
    | some sign =>
        rintro d ⟨⟩
        exact isSpace_eq_false_of_isSign (number.sign_isSign _ hnumber)
  obtain ⟨rest', r, hpower, hr⟩ := scientificNotation_text hfits hends 1
  rw [atof, htext, trailWhitespace_append number.spaces_isSpace hstart,
    setNegativeFlag_append number.sign_isSign hbody]
  simp only [integerTraverse_append number.whole_isDigit hfits.whole (isDigit_head hends),
    mantissaTraverse_eq (isDigit_head hends), Option.bind_eq_bind, Option.bind_some, add_zero]
  rw [← wholeValue, hpower, Option.bind_some, ← hr, signed]
  by_cases hminus : number.sign = some '-'
  · by_cases hzero : r = 0
    · simp [hzero]
    · simp [hminus, hzero]
  · simp [hminus]

/-- A scaled number with a fraction is its whole part only if it is so for want of a fraction and
of scaling. -/
theorem scaled_eq_iff {whole : ℕ} {fraction : ℚ} (hlow : 0 ≤ fraction) (hhigh : fraction < 1)
    (exponent : ℤ) :
    (whole + fraction) * 10 ^ exponent = whole ↔
      fraction = 0 ∧ (whole = 0 ∨ exponent = 0) := by
  constructor
  · intro hsame
    have hwhole : (0 : ℚ) ≤ whole := Nat.cast_nonneg whole
    rcases exponent with (_ | k) | k
    · rw [Int.ofNat_eq_natCast, Nat.cast_zero, zpow_zero, mul_one] at hsame
      exact ⟨by linarith, Or.inr rfl⟩
    · -- Scaled up, anything but zero is larger than its whole part.
      have hscale : (10 : ℚ) ≤ 10 ^ (k + 1) := by
        rw [pow_succ']
        exact le_mul_of_one_le_right (by norm_num) (one_le_pow₀ (by norm_num))
      have hgrown := mul_le_mul_of_nonneg_left hscale (add_nonneg hwhole hlow)
      rw [Int.ofNat_eq_natCast, zpow_natCast] at hsame
      have hzero : (whole : ℚ) = 0 := by linarith
      exact ⟨by linarith, Or.inl (Nat.cast_eq_zero.mp hzero)⟩
    · -- Scaled down, a whole part of one or more is smaller than itself.
      have hscale : (10 : ℚ) ≤ 10 ^ (k + 1) := by
        rw [pow_succ']
        exact le_mul_of_one_le_right (by norm_num) (one_le_pow₀ (by norm_num))
      have hgrown := mul_le_mul_of_nonneg_left hscale hwhole
      rw [zpow_negSucc, mul_inv_eq_iff_eq_mul₀ (by positivity)] at hsame
      have hzero : whole = 0 := by
        by_contra hpos
        have hone : (1 : ℚ) ≤ whole := by exact_mod_cast Nat.one_le_iff_ne_zero.mpr hpos
        linarith
      subst hzero
      rw [Nat.cast_zero, zero_mul, zero_add] at hsame
      exact ⟨hsame, Or.inl rfl⟩
  · rintro ⟨rfl, rfl | rfl⟩
    · rw [Nat.cast_zero, add_zero, zero_mul]
    · rw [zpow_zero, mul_one, add_zero]

theorem fraction_nonneg (number : WrittenNumber) : 0 ≤ number.fraction := by
  rw [fraction]
  cases number.decimals with
  | none => exact le_rfl
  | some ds => positivity

theorem fraction_lt_one (number : WrittenNumber) : number.fraction < 1 := by
  rw [fraction]
  cases hdecimals : number.decimals with
  | none => exact zero_lt_one
  | some ds =>
      have hlt := ofDigitChars_lt fun c hc =>
        digit_lt_ten (number.decimals_isDigit ds hdecimals c hc)
      have hscale : (0 : ℚ) < 10 ^ ds.length := by positivity
      simp only [div_lt_one hscale]
      exact_mod_cast hlt

/-- The fraction is zero exactly if all its digits are. -/
theorem fraction_eq_zero_iff (number : WrittenNumber) :
    number.fraction = 0 ↔ ∀ ds ∈ number.decimals, ∀ c ∈ ds, c = '0' := by
  rw [fraction]
  cases hdecimals : number.decimals with
  | none => simp
  | some ds =>
      have hscale : (10 : ℚ) ^ ds.length ≠ 0 := by positivity
      simp only [Option.mem_def, Option.some.injEq, forall_eq', div_eq_zero_iff, hscale, or_false,
        Nat.cast_eq_zero, ofDigitChars_eq_zero_iff]
      refine forall_congr' fun c => forall_congr' fun hc => ?_
      have hdigit := number.decimals_isDigit ds hdecimals c hc
      have hlow : '0'.toNat ≤ c.toNat ∧ c.toNat ≤ '9'.toNat := by simpa [isDigit] using hdigit
      rw [← Char.toNat_inj]
      omega

theorem signed_inj (number : WrittenNumber) {value value' : ℚ} :
    number.signed value = number.signed value' ↔ value = value' := by
  rw [signed, signed]
  split_ifs
  · exact neg_inj
  · exact Iff.rfl

/-- What is read is what is denoted unless a fraction, or a power of ten behind the point, is
missed. -/
theorem readValue_eq_value_iff (number : WrittenNumber) :
    number.readValue = number.value ↔
      number.decimals = none ∨
        (∀ ds ∈ number.decimals, ∀ c ∈ ds, c = '0') ∧
          (number.wholeValue = 0 ∨ number.exponent = 0) := by
  cases hdecimals : number.decimals with
  | none => simp [readValue, hdecimals]
  | some ds =>
      have hread : number.readValue = number.signed number.wholeValue := by
        rw [readValue, hdecimals]
      rw [hread, value, signed_inj, eq_comm,
        scaled_eq_iff number.fraction_nonneg number.fraction_lt_one, fraction_eq_zero_iff,
        hdecimals]
      simp

end WrittenNumber

/-- A number is read as it is written exactly if it has no point, or else only zeros behind the
point, and there a whole part or an exponent that is zero. -/
theorem readsNumber_iff {conf : LibcConfig} {number : WrittenNumber} {rest : List Char}
    (hfits : number.Fits conf) (hends : number.EndsAt rest) :
    ReadsNumber conf number rest ↔
      number.decimals = none ∨
        (∀ ds ∈ number.decimals, ∀ c ∈ ds, c = '0') ∧
          (number.wholeValue = 0 ∨ number.exponent = 0) := by
  rw [ReadsNumber, WrittenNumber.atof_text hfits hends, Option.some.injEq]
  exact number.readValue_eq_value_iff

/-- Twelve, in front of a unit. -/
theorem readsNumber_unit :
    ReadsNumber (.rv32 true) ⟨[' '], some '-', ['1', '2'], none,
      some ⟨'e', '+', ['3'], Or.inl rfl, rfl, by simp [isDigit]⟩, by simp [isSpace, isWhitespace],
      by simp [isSign], by simp [isDigit], by simp, by simp⟩ "mm".toList := by
  refine (readsNumber_iff ⟨by decide, by simp; decide⟩ ⟨?_, by simp, by simp⟩).mpr (Or.inl rfl)
  rintro c ⟨⟩
  rfl

/-- One and a half is read as one. -/
theorem not_readsNumber :
    ∃ number : WrittenNumber, number.text = "1.5".toList ∧ number.value = 3 / 2 ∧
      atof (.rv32 true) "1.5".toList = some 1 ∧ ¬ ReadsNumber (.rv32 true) number [] := by
  let number : WrittenNumber := ⟨[], none, ['1'], some ['5'], none, by simp, by simp,
    by simp [isDigit], by simp [isDigit], by simp⟩
  have hread : atof (.rv32 true) "1.5".toList = some 1 := by decide +kernel
  have hvalue : number.value = 3 / 2 := by
    have hwhole : number.wholeValue = 1 := by decide
    have hfraction : number.fraction = 5 / 10 ^ 1 := rfl
    have hexponent : number.exponent = 0 := rfl
    have hsign : ¬ number.sign = some '-' := by simp [number]
    rw [WrittenNumber.value, WrittenNumber.signed, if_neg hsign, hwhole, hfraction, hexponent]
    norm_num
  refine ⟨number, rfl, hvalue, hread, ?_⟩
  intro hreads
  have hsame : some (1 : ℚ) = some (3 / 2) := hread.symm.trans (hvalue ▸ hreads)
  norm_num at hsame

end Cyancore.Libc
