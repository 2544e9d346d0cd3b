/-
# Fixed-point output

`fltprint` prints the whole part of a number, a point, and then scales the fraction by ten as
often as there are decimals.  A scaling that has not yet reached one is a zero, which is
written on the spot; what is reached in the end is printed as a number.

A `double` is an exact rational number here, and the conversions to `long` are those of the
numbers in its range.
-/

import Cyancore.Libc.Directives
import Mathlib.Data.Rat.Floor

namespace Cyancore.Libc

open Cyancore.Math

variable {conf : LibcConfig}

/-! ## The function -/

/-- `(long) x`. -/
def castLong (conf : LibcConfig) (x : ℚ) : Except PrintStop ℤ :=
  let d := x.num.tdiv x.den
  if -conf.longMax - 1 ≤ d ∧ d ≤ conf.longMax then .ok d else .error .undefined

/-- A `long` as an argument of `unumprint`. -/
def unsignedLong (conf : LibcConfig) (d : ℤ) : ℕ := (BitVec.ofInt conf.long d).toNat

/-- The loop that scales the fraction: the zeros that it writes, and the last `d`. -/
def scaleFraction (conf : LibcConfig) : ℕ → ℚ → ℤ → Except PrintStop (List Char × ℤ)
  | 0, _, d => .ok ([], d)
  | padf + 1, frac, _ => do
      let frac := frac * 10
      let d ← castLong conf frac
      let (zeros, last) ← scaleFraction conf padf frac d
      return ((if d = 0 then ['0'] else []) ++ zeros, last)

/-- `fltprint`: what it returns and what it emits. -/
def fltprint (conf : LibcConfig) (flt : ℚ) (padc : Char) (padd : ℤ) (padf : ℕ) :
    Except PrintStop (ℤ × List Char) := do
  let d ← castLong conf flt
  let frac := flt - d
  let whole ← unumprint (unsignedLong conf d) 10 padc padd
  let (zeros, d) ← scaleFraction conf padf frac d
  let digits ← unumprint (unsignedLong conf d) 10 '0' 0
  -- the zeros are not counted
  let ret : ℤ := whole.length + 1 + digits.length
  if FitsInt conf ret then return (ret, whole ++ '.' :: (zeros ++ digits))
  else throw .undefined

/-! ## Scaling -/

section Scale

variable {x frac : ℚ} {d : ℤ} {padf : ℕ}

theorem castLong_eq (hx : 0 ≤ x) (hfits : ⌊x⌋ ≤ conf.longMax) : castLong conf x = .ok ⌊x⌋ := by
  have hfloor : x.num.tdiv x.den = ⌊x⌋ := by
    rw [Int.tdiv_eq_ediv_of_nonneg (Rat.num_nonneg.mpr hx), Rat.floor_def']
  have hnonneg : 0 ≤ ⌊x⌋ := Int.floor_nonneg.mpr hx
  simp only [castLong, hfloor]
  rw [if_pos ⟨by omega, hfits⟩]

theorem unsignedLong_eq (hd : 0 ≤ d) (hfits : d ≤ conf.longMax) :
    unsignedLong conf d = d.toNat := by
  have hmax : conf.longMax < 2 ^ conf.long :=
    Nat.lt_of_le_of_lt (Nat.sub_le _ _) (Nat.pow_lt_pow_right Nat.one_lt_two
      (Nat.sub_one_lt conf.long_pos.ne'))
  have hlt : d < ((2 ^ conf.long : ℕ) : ℤ) := by omega
  rw [unsignedLong, BitVec.toNat_ofInt, Int.emod_eq_of_lt hd hlt]

/-- A longer scaling reaches at least as much. -/
theorem floor_mul_ten_le (hfrac : 0 ≤ frac) (padf : ℕ) : ⌊frac⌋ ≤ ⌊frac * 10 ^ padf⌋ := by
  have hpow : (1 : ℚ) ≤ 10 ^ padf := one_le_pow₀ (by norm_num)
  exact Int.floor_le_floor (le_mul_of_one_le_right hfrac hpow)

/-- The loop ends with the scaled fraction, and writes a zero unless there is nothing to scale or
its first scaling reaches one. -/
theorem scaleFraction_eq (hfrac : 0 ≤ frac) (hfits : ⌊frac * 10 ^ padf⌋ ≤ conf.longMax) (d : ℤ) :
    ∃ zeros, scaleFraction conf padf frac d =
        .ok (zeros, if padf = 0 then d else ⌊frac * 10 ^ padf⌋) ∧
      (zeros = [] ↔ padf = 0 ∨ 1 ≤ frac * 10) := by
  induction padf generalizing frac d with
  | zero => exact ⟨[], rfl, iff_of_true rfl (.inl rfl)⟩
  | succ padf ih =>
      have hten : 0 ≤ frac * 10 := by positivity
      have hpow : frac * 10 ^ (padf + 1) = frac * 10 * 10 ^ padf := by ring
      rw [hpow] at hfits ⊢
      have hfirst := (floor_mul_ten_le hten padf).trans hfits
      obtain ⟨zeros, hloop, hzeros⟩ := ih hten hfits ⌊frac * 10⌋
      have hone : ⌊frac * 10⌋ = 0 ↔ ¬ 1 ≤ frac * 10 := by
        rw [Int.floor_eq_zero_iff, Set.mem_Ico, and_iff_right hten, not_le]
      refine ⟨(if ⌊frac * 10⌋ = 0 then ['0'] else []) ++ zeros, ?_, ?_⟩
      · rw [scaleFraction, castLong_eq hten hfirst]
        simp only [bind, Except.bind, hloop]
        by_cases hlast : padf = 0
        · subst hlast
          simp
          rfl
        · rw [if_neg hlast, if_neg (Nat.succ_ne_zero padf)]
          rfl
      · by_cases hreached : 1 ≤ frac * 10
        · have hagain : 1 ≤ frac * 10 * 10 := by linarith
          rw [if_neg (mt hone.mp (not_not.mpr hreached)), List.nil_append, hzeros]
          exact iff_of_true (.inr hagain) (.inr hreached)
        · rw [if_pos (hone.mpr hreached)]
          exact iff_of_false (List.cons_ne_nil _ _)
            (not_or.mpr ⟨Nat.succ_ne_zero padf, hreached⟩)

end Scale

/-! ## What is printed -/

section Fixed

variable {flt : ℚ} {padf : ℕ} {out : List Char}

/-- The digits of the whole part, a point, and so many digits of the fraction. -/
def FixedPoint (flt : ℚ) (padf : ℕ) (out : List Char) : Prop :=
  ∃ decimals, out = Nat.toDigits 10 ⌊flt⌋.toNat ++ '.' :: decimals ∧ decimals.length = padf ∧
    (∀ c ∈ decimals, isDigit c = true) ∧
      Nat.ofDigitChars 10 decimals 0 = ⌊Int.fract flt * 10 ^ padf⌋.toNat

/-- `fltprint` prints a number in fixed point and returns the number of its characters. -/
def PrintsFixed (conf : LibcConfig) (flt : ℚ) (padc : Char) (padf : ℕ) : Prop :=
  ∃ ret out, fltprint conf flt padc 0 padf = .ok (ret, out) ∧ FixedPoint flt padf out ∧
    ret = out.length

/-- A number of a `long` without padding. -/
theorem unumprint_long {d : ℤ} (hd : 0 ≤ d) (hfits : d ≤ conf.longMax) (padc : Char) :
    unumprint (unsignedLong conf d) 10 padc 0 = .ok (Nat.toDigits 10 d.toNat) ∧
      (Nat.toDigits 10 d.toNat).length ≤ 20 := by
  have hlt : unsignedLong conf d < 2 ^ 64 := long_lt (BitVec.ofInt conf.long d)
  have hnone : (0 - ((Nat.toDigits 10 (unsignedLong conf d)).length : ℤ)).toNat = 0 := by omega
  rw [unumprint_eq hlt, hnone, List.replicate_zero, List.nil_append, unsignedLong_eq hd hfits]
  rw [unsignedLong_eq hd hfits] at hlt
  exact ⟨rfl, (Nat.length_toDigits_le_iff (by decide) (by decide)).mpr
    (Nat.lt_trans hlt (by decide))⟩

/-- What `fltprint` emits, with the zeros that it does not count. -/
theorem fltprint_eq (hflt : 0 ≤ flt) (hwhole : ⌊flt⌋ ≤ conf.longMax)
    (hfrac : ⌊Int.fract flt * 10 ^ padf⌋ ≤ conf.longMax) (padc : Char) :
    ∃ zeros last, fltprint conf flt padc 0 padf =
        .ok ((Nat.toDigits 10 ⌊flt⌋.toNat).length + 1 + (Nat.toDigits 10 last).length,
          Nat.toDigits 10 ⌊flt⌋.toNat ++ '.' :: (zeros ++ Nat.toDigits 10 last)) ∧
      last = (if padf = 0 then ⌊flt⌋ else ⌊Int.fract flt * 10 ^ padf⌋).toNat ∧
      (zeros = [] ↔ padf = 0 ∨ 1 ≤ Int.fract flt * 10) := by
  have hnonneg : 0 ≤ ⌊flt⌋ := Int.floor_nonneg.mpr hflt
  have hscaled : 0 ≤ ⌊Int.fract flt * 10 ^ padf⌋ :=
    Int.floor_nonneg.mpr (mul_nonneg (Int.fract_nonneg flt) (by positivity))
  obtain ⟨zeros, hloop, hzeros⟩ := scaleFraction_eq (Int.fract_nonneg flt) hfrac ⌊flt⌋
  obtain ⟨hprinted, hlength⟩ := unumprint_long hnonneg hwhole padc
  have hlast : 0 ≤ (if padf = 0 then ⌊flt⌋ else ⌊Int.fract flt * 10 ^ padf⌋) ∧
      (if padf = 0 then ⌊flt⌋ else ⌊Int.fract flt * 10 ^ padf⌋) ≤ conf.longMax := by
    split_ifs
    · exact ⟨hnonneg, hwhole⟩
    · exact ⟨hscaled, hfrac⟩
  obtain ⟨hdigits, hlength'⟩ := unumprint_long hlast.1 hlast.2 '0'
  have hmax := conf.le_intMax
  have hfits : FitsInt conf ((Nat.toDigits 10 ⌊flt⌋.toNat).length + 1 + (Nat.toDigits 10
      (if padf = 0 then ⌊flt⌋ else ⌊Int.fract flt * 10 ^ padf⌋).toNat).length) := by
    constructor <;> omega
  refine ⟨zeros, _, ?_, rfl, hzeros⟩
  rw [fltprint, castLong_eq hflt hwhole]
  simp only [bind, Except.bind, Int.self_sub_floor, hprinted, hloop, hdigits, if_pos hfits]
  rfl

/-- A scaled fraction whose first decimal is not zero has as many digits as it was scaled. -/
theorem length_toDigits_scaled (hpadf : 1 ≤ padf) (hfirst : 1 / 10 ≤ Int.fract flt) :
    (Nat.toDigits 10 ⌊Int.fract flt * 10 ^ padf⌋.toNat).length = padf := by
  obtain ⟨k, rfl⟩ := Nat.exists_eq_add_of_le' hpadf
  have hpow : (0 : ℚ) < 10 ^ k := by positivity
  have hlow : ((10 ^ k : ℕ) : ℤ) ≤ ⌊Int.fract flt * 10 ^ (k + 1)⌋ := by
    rw [Int.le_floor, pow_succ]
    push_cast
    nlinarith
  have hhigh : ⌊Int.fract flt * 10 ^ (k + 1)⌋ < ((10 ^ (k + 1) : ℕ) : ℤ) := by
    rw [Int.floor_lt]
    push_cast
    exact mul_lt_of_lt_one_left (by positivity) (Int.fract_lt_one flt)
  have hle : (Nat.toDigits 10 ⌊Int.fract flt * 10 ^ (k + 1)⌋.toNat).length ≤ k + 1 :=
    (Nat.length_toDigits_le_iff (by decide) (Nat.succ_pos k)).mpr (by omega)
  have hlt : k < (Nat.toDigits 10 ⌊Int.fract flt * 10 ^ (k + 1)⌋.toNat).length := by
    rcases Nat.eq_zero_or_pos k with rfl | hk
    · exact Nat.length_toDigits_pos
    · by_contra hshort
      have hsmall := (Nat.length_toDigits_le_iff (by decide) hk).mp (Nat.not_lt.mp hshort)
      omega
  omega

/-- `fltprint` prints a number in fixed point and counts its characters exactly if it is asked for
decimals and the first of them is not zero. -/
theorem printsFixed_iff (hflt : 0 ≤ flt) (hwhole : ⌊flt⌋ ≤ conf.longMax)
    (hfrac : ⌊Int.fract flt * 10 ^ padf⌋ ≤ conf.longMax) (padc : Char) :
    PrintsFixed conf flt padc padf ↔ 1 ≤ padf ∧ 1 / 10 ≤ Int.fract flt := by
  obtain ⟨zeros, last, hcall, hlast, hzeros⟩ := fltprint_eq hflt hwhole hfrac padc
  have htenth : 1 ≤ Int.fract flt * 10 ↔ 1 / 10 ≤ Int.fract flt := by
    constructor <;> intro h <;> linarith
  rw [htenth] at hzeros
  constructor
  · rintro ⟨ret, out, hprinted, ⟨decimals, rfl, hlength, -, -⟩, hret⟩
    rw [hcall] at hprinted
    simp only [Except.ok.injEq, Prod.mk.injEq, List.append_cancel_left_eq, List.cons.injEq,
      true_and] at hprinted
    obtain ⟨rfl, hdecimals⟩ := hprinted
    have hdigits : 0 < (Nat.toDigits 10 last).length := Nat.length_toDigits_pos
    have hall := congrArg List.length hdecimals
    simp only [List.length_append, List.length_cons] at hret hall
    have hpadf : padf ≠ 0 := by omega
    have hnone : zeros.length = 0 := by omega
    exact ⟨Nat.pos_of_ne_zero hpadf,
      (hzeros.mp (List.length_eq_zero_iff.mp hnone)).resolve_left hpadf⟩
  · rintro ⟨hpadf, hfirst⟩
    rw [if_neg (by omega)] at hlast
    obtain rfl := hzeros.mpr (.inr hfirst)
    refine ⟨_, _, hcall, ⟨Nat.toDigits 10 last, by simp, ?_, ?_, ?_⟩, ?_⟩
    · rw [hlast]
      exact length_toDigits_scaled hpadf hfirst
    · exact isDigit_of_mem_toDigits
    · rw [Nat.ofDigitChars_ten_toDigits, hlast]
    · simp
      omega

end Fixed

/-- Three and a quarter, with two decimals. -/
theorem printsFixed_quarter : PrintsFixed (.avr true) (13 / 4) '0' 2 := by
  have hfloor : ⌊(13 / 4 : ℚ)⌋ = 3 := by norm_num
  have hfract : Int.fract (13 / 4 : ℚ) = 1 / 4 := by norm_num
  have hscaled : ⌊(1 / 4 : ℚ) * 10 ^ 2⌋ = 25 := by norm_num
  refine (printsFixed_iff (by norm_num) ?_ ?_ '0').mpr ⟨by decide, ?_⟩
  · rw [hfloor]
    decide
  · rw [hfract, hscaled]
    decide
  · rw [hfract]
    norm_num

/-- The zero behind the point of one twentieth is not counted. -/
theorem not_printsFixed : ¬ PrintsFixed (.avr true) (1 / 20) '0' 2 := by
  rintro ⟨ret, out, hcall, -, hret⟩
  have hprinted : fltprint (.avr true) (1 / 20) '0' 0 2 = .ok (3, "0.05".toList) := by
    decide +kernel
  rw [hprinted] at hcall
  cases hcall
  exact absurd hret (by decide)

end Cyancore.Libc
