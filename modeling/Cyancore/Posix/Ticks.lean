/-
# Ticks that do not fit

How wide `TickType_t` is and how long a tick lasts are choices of the build.  Whatever they
are, `UTILS_TimespecToTicks` computes in 64 signed bits, checks that the result is not
negative and, for four bytes only, that it fits, and stores it before the checks are
looked at.
-/

import Cyancore.Math.Quotient
import Cyancore.Posix.Timespec

namespace Cyancore.Posix

open Cyancore.Math StatusCode

/-! ## The conversion for every build -/

/-- The choices of a build. -/
structure TickConfig where
  /-- `posixconfigTICK_RATE_HZ`. -/
  tickRateHz : ℕ
  /-- The bits of `TickType_t`. -/
  tickWidth : ℕ
  rate_pos : 0 < tickRateHz
  rate_le : tickRateHz ≤ nanosecondsPerSecond
  width : tickWidth = 16 ∨ tickWidth = 32 ∨ tickWidth = 64

namespace TickConfig

/-- `NANOSECONDS_PER_TICK`. -/
def nanosecondsPerTick (config : TickConfig) : ℕ := nanosecondsPerSecond / config.tickRateHz

/-- `total_ticks`: whole seconds, and nanoseconds rounded up. -/
def totalTicks (config : TickConfig) (pxTimespec : Timespec) : BitVec 64 :=
  let nanoSecs := pxTimespec.tvNsec.tdiv config.nanosecondsPerTick +
    if pxTimespec.tvNsec.tmod config.nanosecondsPerTick ≠ 0 then 1 else 0
  BitVec.ofNat 64 config.tickRateHz * pxTimespec.tvSec + BitVec.ofInt 64 nanoSecs

/-- `UTILS_TimespecToTicks`: the status, and what is in `*pxResult` afterwards.  Either pointer
may be null. -/
def utilsTimespecToTicks (config : TickConfig) (pxTimespec : Option Timespec)
    (pxResult : Option ℕ) : StatusCode × Option ℕ :=
  match pxTimespec, pxResult with
  | some pxTimespec, some old =>
      if utilsValidateTimespec pxTimespec then
        let total := config.totalTicks pxTimespec
        let errStatus :=
          if total.toInt < 0 then errorFuncInvalArg
          else if config.tickWidth = 32 ∧ (uintMax : ℤ) < total.toInt then errorFuncInvalArg
          else success
        (errStatus, some (total.toNat % 2 ^ config.tickWidth))
      else
        (errorFuncInvalArg, some old)
  | _, _ => (errorFuncInvalArg, pxResult)

/-- The default of `cc_posix_config.h`. -/
def default (tickWidth : ℕ) (hwidth : tickWidth = 16 ∨ tickWidth = 32 ∨ tickWidth = 64) :
    TickConfig where
  tickRateHz := Posix.tickRateHz
  tickWidth := tickWidth
  rate_pos := by decide
  rate_le := by decide
  width := hwidth

/-- With the default rate it is the conversion that the timeouts use. -/
theorem utilsTimespecToTicks_default {tickWidth : ℕ}
    (hwidth : tickWidth = 16 ∨ tickWidth = 32 ∨ tickWidth = 64) (pxTimespec : Timespec)
    (old : ℕ) :
    (default tickWidth hwidth).utilsTimespecToTicks (some pxTimespec) (some old) =
      ((Posix.utilsTimespecToTicks tickWidth pxTimespec).1,
        some ((Posix.utilsTimespecToTicks tickWidth pxTimespec).2.getD old)) := by
  rw [utilsTimespecToTicks, Posix.utilsTimespecToTicks]
  split
  · rfl
  · rfl

/-! ## The exact count -/

/-- The ticks that cover a `timespec`. -/
def exactTicks (config : TickConfig) (pxTimespec : Timespec) : ℤ :=
  pxTimespec.tvSec.toInt * config.tickRateHz +
    (pxTimespec.tvNsec.toNat ⌈/⌉ config.nanosecondsPerTick : ℕ)

/-- The count fits `TickType_t`. -/
def Representable (config : TickConfig) (pxTimespec : Timespec) : Prop :=
  0 ≤ config.exactTicks pxTimespec ∧ config.exactTicks pxTimespec < 2 ^ config.tickWidth

instance (config : TickConfig) (pxTimespec : Timespec) :
    Decidable (config.Representable pxTimespec) :=
  inferInstanceAs (Decidable (_ ∧ _))

/-- The count is stored where it fits, and refused without a trace where it does not. -/
structure ExactOrRefused (config : TickConfig) (pxTimespec : Timespec) : Prop where
  exact : config.Representable pxTimespec → ∀ old,
    config.utilsTimespecToTicks (some pxTimespec) (some old) =
      (success, some (config.exactTicks pxTimespec).toNat)
  refused : ¬ config.Representable pxTimespec → ∀ old,
    config.utilsTimespecToTicks (some pxTimespec) (some old) = (errorFuncInvalArg, some old)

variable {config : TickConfig} {pxTimespec : Timespec}

theorem nanosecondsPerTick_pos (config : TickConfig) : 0 < config.nanosecondsPerTick :=
  Nat.div_pos config.rate_le config.rate_pos

/-- The total is the exact count, in 64 bits. -/
theorem totalTicks_eq (hvalid : utilsValidateTimespec pxTimespec = true) :
    config.totalTicks pxTimespec = BitVec.ofInt 64 (config.exactTicks pxTimespec) := by
  simp only [utilsValidateTimespec, Bool.and_eq_true, decide_eq_true_eq] at hvalid
  obtain ⟨nanos, hnanos⟩ := Int.eq_ofNat_of_zero_le hvalid.1
  have hround : pxTimespec.tvNsec.tdiv config.nanosecondsPerTick +
      (if pxTimespec.tvNsec.tmod config.nanosecondsPerTick ≠ 0 then 1 else 0) =
        (pxTimespec.tvNsec.toNat ⌈/⌉ config.nanosecondsPerTick : ℕ) := by
    rw [hnanos, Int.toNat_natCast, ← div_add_rest_eq_ceilDiv _ config.nanosecondsPerTick_pos,
      ← Int.ofNat_tdiv, ← Int.ofNat_tmod]
    simp only [ne_eq, Int.natCast_eq_zero, Nat.cast_add, Nat.cast_ite, Nat.cast_one, Nat.cast_zero]
  rw [totalTicks, exactTicks, hround, BitVec.ofInt_add, BitVec.ofInt_mul, BitVec.ofInt_toInt,
    BitVec.mul_comm]
  rfl

/-- A call with a valid time writes, whatever it returns, and whatever was there before. -/
theorem utilsTimespecToTicks_of_valid (hvalid : utilsValidateTimespec pxTimespec = true)
    (old : ℕ) :
    config.utilsTimespecToTicks (some pxTimespec) (some old) =
      (if (config.totalTicks pxTimespec).toInt < 0 then errorFuncInvalArg
        else if config.tickWidth = 32 ∧ (uintMax : ℤ) < (config.totalTicks pxTimespec).toInt then
          errorFuncInvalArg
        else success,
        some ((config.totalTicks pxTimespec).toNat % 2 ^ config.tickWidth)) := by
  simp only [utilsTimespecToTicks, hvalid, if_true]

/-- A count that fits the type and the signed arithmetic is stored. -/
theorem utilsTimespecToTicks_of_lt (hvalid : utilsValidateTimespec pxTimespec = true)
    (hrep : config.Representable pxTimespec) (hsigned : config.exactTicks pxTimespec < 2 ^ 63)
    (old : ℕ) :
    config.utilsTimespecToTicks (some pxTimespec) (some old) =
      (success, some (config.exactTicks pxTimespec).toNat) := by
  obtain ⟨hnonneg, hfits⟩ := hrep
  have htoInt : (config.totalTicks pxTimespec).toInt = config.exactTicks pxTimespec := by
    rw [totalTicks_eq hvalid]
    exact BitVec.toInt_ofInt_eq_self (by decide) (by omega) (by simpa using hsigned)
  have htoNat : (config.totalTicks pxTimespec).toNat = (config.exactTicks pxTimespec).toNat := by
    rw [totalTicks_eq hvalid, BitVec.toNat_ofInt]
    omega
  have hnarrow : ¬ (config.tickWidth = 32 ∧
      (uintMax : ℤ) < (config.totalTicks pxTimespec).toInt) := by
    rintro ⟨hwidth, hlarge⟩
    rw [hwidth] at hfits
    rw [htoInt] at hlarge
    simp only [uintMax] at hlarge
    omega
  have hstored : (config.exactTicks pxTimespec).toNat < 2 ^ config.tickWidth := by
    rw [← Int.ofNat_lt, Int.toNat_of_nonneg hnonneg]
    simpa using hfits
  rw [utilsTimespecToTicks_of_valid hvalid, if_neg (by omega), if_neg hnarrow, htoNat,
    Nat.mod_eq_of_lt hstored]

/-- A count that fits the type but not the signed arithmetic is refused. -/
theorem utilsTimespecToTicks_of_ge (hvalid : utilsValidateTimespec pxTimespec = true)
    (hrep : config.Representable pxTimespec) (hsigned : 2 ^ 63 ≤ config.exactTicks pxTimespec)
    (old : ℕ) :
    (config.utilsTimespecToTicks (some pxTimespec) (some old)).1 = errorFuncInvalArg := by
  have hmodulus : config.exactTicks pxTimespec < 2 ^ 64 := by
    have hwidth : (2 : ℤ) ^ config.tickWidth ≤ 2 ^ 64 := by
      rcases config.width with hwidth | hwidth | hwidth
      · rw [hwidth]; decide
      · rw [hwidth]; decide
      · rw [hwidth]
    exact lt_of_lt_of_le hrep.2 hwidth
  have htoInt : (config.totalTicks pxTimespec).toInt < 0 := by
    rw [totalTicks_eq hvalid, BitVec.toInt_ofInt, Int.bmod_def]
    split <;> omega
  rw [utilsTimespecToTicks_of_valid hvalid, if_pos htoInt]

/-- For every build and every valid time, the count is exact or refused without a trace exactly
when it fits the type and stays below the end of the signed arithmetic. -/
theorem exactOrRefused_iff (config : TickConfig)
    (hvalid : utilsValidateTimespec pxTimespec = true) :
    ExactOrRefused config pxTimespec ↔
      config.Representable pxTimespec ∧ config.exactTicks pxTimespec < 2 ^ 63 := by
  constructor
  · intro hexact
    have hrep : config.Representable pxTimespec := by
      by_contra hrep
      have hkept (old : ℕ) :
          (config.totalTicks pxTimespec).toNat % 2 ^ config.tickWidth = old := by
        have hold := hexact.refused hrep old
        rw [utilsTimespecToTicks_of_valid hvalid] at hold
        exact Option.some.inj (congrArg Prod.snd hold)
      exact absurd ((hkept 0).symm.trans (hkept 1)) (by decide)
    refine ⟨hrep, ?_⟩
    by_contra hsigned
    have hrefused := utilsTimespecToTicks_of_ge hvalid hrep (not_lt.mp hsigned) 0
    rw [hexact.exact hrep 0] at hrefused
    cases hrefused
  · rintro ⟨hrep, hsigned⟩
    exact {
      exact := fun _ old => utilsTimespecToTicks_of_lt hvalid hrep hsigned old
      refused := fun hnot => absurd hrep hnot }

/-! ## Sixteen bits -/

/-- A build with `posixconfigUSE_16_BIT_TICKS`. -/
def sixteen : TickConfig := default 16 (.inl rfl)

/-- A minute fits. -/
theorem exactOrRefused_minute : ExactOrRefused sixteen ⟨60, 500001⟩ :=
  (exactOrRefused_iff sixteen (by decide)).mpr (by decide)

/-- Sixty-six seconds do not, and are taken for half a second. -/
theorem not_exactOrRefused :
    sixteen.utilsTimespecToTicks (some ⟨66, 0⟩) (some 0) = (success, some 464) ∧
      ¬ ∀ config pxTimespec, utilsValidateTimespec pxTimespec = true →
        ExactOrRefused config pxTimespec := by
  have hreturns (old : ℕ) : sixteen.utilsTimespecToTicks (some ⟨66, 0⟩) (some old) =
      (success, some 464) := by
    rw [utilsTimespecToTicks_of_valid (by decide)]
    decide
  refine ⟨hreturns 0, fun hclaim => ?_⟩
  have hrefused := (hclaim sixteen ⟨66, 0⟩ (by decide)).refused (by decide) 0
  rw [hreturns 0] at hrefused
  exact absurd hrefused (by decide)

end TickConfig

end Cyancore.Posix
