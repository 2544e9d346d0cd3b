/-
# From an absolute time to a delay in ticks

`UTILS_AbsoluteTimespecToDeltaTicks` compares the time with the current one, subtracts with
a borrow and converts the difference, and translates the codes of each stage to those of
the next.  Between times after the epoch nothing can overflow before the conversion.
-/

import Cyancore.Posix.Ticks

namespace Cyancore.Posix

open Cyancore.Math StatusCode

/-! ## Comparison and difference -/

/-- `UTILS_TimespecCompare`. -/
def utilsTimespecCompare : Option Timespec → Option Timespec → ℤ
  | none, none => 0
  | _, none => 1
  | none, _ => -1
  | some x, some y =>
      if x.tvSec.toInt > y.tvSec.toInt then 1
      else if x.tvSec.toInt < y.tvSec.toInt then -1
      else if x.tvNsec > y.tvNsec then 1
      else if x.tvNsec < y.tvNsec then -1
      else 0

/-- `UTILS_TimespecSubtract`: the status, and what is in `*pxResult` afterwards.  Any pointer may
be null. -/
def utilsTimespecSubtract (x y pxResult : Option Timespec) : ℤ × Option Timespec :=
  match x, y, pxResult with
  | some xTime, some yTime, some old =>
      let comp := utilsTimespecCompare x y
      if comp = -1 then (1, some old)
      else if comp = 0 then (0, some ⟨0, 0⟩)
      else
        let tvSec := xTime.tvSec - yTime.tvSec
        let tvNsec := xTime.tvNsec - yTime.tvNsec
        let diff : Timespec :=
          if tvNsec < 0 then ⟨tvSec - 1, tvNsec + nanosecondsPerSecond⟩ else ⟨tvSec, tvNsec⟩
        if diff.tvNsec < 0 then (-1, some diff) else (0, some diff)
  | _, _, _ => (-1, pxResult)

/-- `UTILS_AbsoluteTimespecToDeltaTicks`: the status, and what is in `*pxResult` afterwards. -/
def TickConfig.utilsAbsoluteTimespecToDeltaTicks (config : TickConfig)
    (pxAbsoluteTime pxCurrentTime : Option Timespec) (pxResult : Option ℕ) :
    StatusCode × Option ℕ :=
  match pxAbsoluteTime, pxCurrentTime, pxResult with
  | some _, some _, some _ =>
      let (errStatus, timeDiff) := utilsTimespecSubtract pxAbsoluteTime pxCurrentTime (some ⟨0, 0⟩)
      if errStatus = 1 then (errorNetConTimeout, pxResult)
      else if errStatus = -1 then (errorFuncInvalArg, pxResult)
      else config.utilsTimespecToTicks timeDiff pxResult
  | _, _, _ => (errorFuncInvalArg, pxResult)

/-! ## Times on the clock -/

/-- The nanoseconds since the epoch. -/
def Timespec.nanos (time : Timespec) : ℤ :=
  time.tvSec.toInt * nanosecondsPerSecond + time.tvNsec

/-- A valid time that is not before the epoch. -/
structure Timespec.OnClock (time : Timespec) : Prop where
  sec_nonneg : 0 ≤ time.tvSec.toInt
  nsec_nonneg : 0 ≤ time.tvNsec
  nsec_lt : time.tvNsec < nanosecondsPerSecond

variable {x y : Timespec}

theorem Timespec.OnClock.validate (hx : x.OnClock) : utilsValidateTimespec x = true := by
  simp only [utilsValidateTimespec, Bool.and_eq_true, decide_eq_true_eq]
  exact ⟨hx.nsec_nonneg, hx.nsec_lt⟩

/-- An earlier second is earlier, whatever the nanoseconds. -/
theorem Timespec.OnClock.nanos_lt (hx : x.OnClock) (hy : y.OnClock)
    (hsec : x.tvSec.toInt < y.tvSec.toInt) : x.nanos < y.nanos := by
  have hx' := hx.nsec_lt
  have hy' := hy.nsec_nonneg
  simp only [Timespec.nanos, nanosecondsPerSecond] at *
  omega

/-- Within a second the nanoseconds decide. -/
theorem Timespec.nanos_sub (hsec : x.tvSec.toInt = y.tvSec.toInt) :
    x.nanos - y.nanos = x.tvNsec - y.tvNsec := by
  rw [Timespec.nanos, Timespec.nanos, hsec]
  omega

/-- The comparison is that of the nanoseconds. -/
theorem utilsTimespecCompare_eq (hx : x.OnClock) (hy : y.OnClock) :
    utilsTimespecCompare (some x) (some y) =
      if x.nanos < y.nanos then -1 else if x.nanos = y.nanos then 0 else 1 := by
  rw [utilsTimespecCompare]
  rcases lt_trichotomy x.tvSec.toInt y.tvSec.toInt with hlt | heq | hgt
  · rw [if_neg (not_lt.mpr hlt.le), if_pos hlt, if_pos (hx.nanos_lt hy hlt)]
  · have hsub := Timespec.nanos_sub heq
    rw [if_neg (not_lt.mpr heq.le), if_neg (not_lt.mpr heq.ge)]
    rcases lt_trichotomy x.tvNsec y.tvNsec with hlt | heq' | hgt
    · rw [if_neg (not_lt.mpr hlt.le), if_pos hlt, if_pos (by omega)]
    · rw [if_neg (not_lt.mpr heq'.le), if_neg (not_lt.mpr heq'.ge), if_neg (by omega),
        if_pos (by omega)]
    · rw [if_pos hgt, if_neg (by omega), if_neg (by omega)]
  · have hnanos := hy.nanos_lt hx hgt
    rw [if_pos hgt, if_neg (not_lt.mpr hnanos.le), if_neg hnanos.ne']

/-- A difference of times after the epoch does not overflow. -/
theorem toInt_sub_of_nonneg {a b : BitVec 64} (ha : 0 ≤ a.toInt) (hb : 0 ≤ b.toInt) :
    (a - b).toInt = a.toInt - b.toInt := by
  have ha' := a.toInt_lt
  have hb' := b.toInt_lt
  rw [BitVec.toInt_sub, Int.bmod_eq_of_le]
  · omega
  · omega

/-- A later time less an earlier one is a time again, and as long as they are apart. -/
theorem utilsTimespecSubtract_of_le (hx : x.OnClock) (hy : y.OnClock) (hle : y.nanos ≤ x.nanos)
    (old : Timespec) :
    ∃ diff : Timespec, utilsTimespecSubtract (some x) (some y) (some old) = (0, some diff) ∧
      diff.OnClock ∧ diff.nanos = x.nanos - y.nanos := by
  have hcompare := utilsTimespecCompare_eq hx hy
  rw [if_neg (not_lt.mpr hle)] at hcompare
  by_cases hsame : x.nanos = y.nanos
  · rw [if_pos hsame] at hcompare
    refine ⟨⟨0, 0⟩, ?_, ⟨by decide, by decide, by decide⟩, ?_⟩
    · simp [utilsTimespecSubtract, hcompare]
    · rw [hsame, sub_self]
      rfl
  · rw [if_neg hsame] at hcompare
    have hsec : y.tvSec.toInt ≤ x.tvSec.toInt :=
      not_lt.mp fun hlt => not_lt.mpr hle (hx.nanos_lt hy hlt)
    have hdiff := toInt_sub_of_nonneg hx.sec_nonneg hy.sec_nonneg
    have hx' := hx.nsec_lt
    have hx'' := hx.nsec_nonneg
    have hy' := hy.nsec_nonneg
    have hy'' := hy.nsec_lt
    by_cases hborrow : x.tvNsec - y.tvNsec < 0
    · -- There is a second to borrow, as the seconds are not equal.
      have hsec' : y.tvSec.toInt < x.tvSec.toInt := by
        refine lt_of_le_of_ne hsec fun heq => ?_
        have hsub := Timespec.nanos_sub heq.symm
        omega
      have hone : (0 : ℤ) ≤ (1 : BitVec 64).toInt := by decide
      have hdiff' := toInt_sub_of_nonneg (by omega : 0 ≤ (x.tvSec - y.tvSec).toInt) hone
      have hone' : (1 : BitVec 64).toInt = 1 := by decide
      rw [hdiff, hone'] at hdiff'
      refine ⟨⟨x.tvSec - y.tvSec - 1, x.tvNsec - y.tvNsec + nanosecondsPerSecond⟩, ?_, ?_, ?_⟩
      · have hrepaid : ¬ x.tvNsec - y.tvNsec + nanosecondsPerSecond < 0 := by omega
        simp [utilsTimespecSubtract, hcompare, hborrow, hrepaid]
      · exact ⟨by simp only; omega, by simp only; omega, by simp only; omega⟩
      · simp only [Timespec.nanos, hdiff', nanosecondsPerSecond]
        omega
    · refine ⟨⟨x.tvSec - y.tvSec, x.tvNsec - y.tvNsec⟩, ?_, ?_, ?_⟩
      · simp [utilsTimespecSubtract, hcompare, hborrow]
      · exact ⟨by simp only; omega, by simp only; omega, by simp only; omega⟩
      · simp only [Timespec.nanos, hdiff, nanosecondsPerSecond]
        omega

/-- An earlier time less a later one is refused. -/
theorem utilsTimespecSubtract_of_lt (hx : x.OnClock) (hy : y.OnClock) (hlt : x.nanos < y.nanos)
    (old : Timespec) :
    utilsTimespecSubtract (some x) (some y) (some old) = (1, some old) := by
  have hcompare := utilsTimespecCompare_eq hx hy
  rw [if_pos hlt] at hcompare
  simp [utilsTimespecSubtract, hcompare]

/-! ## The delay -/

variable {config : TickConfig}

/-- Where a second is a whole number of ticks, the ticks that cover a time are those that cover
its nanoseconds. -/
theorem exactTicks_eq (hrate : config.tickRateHz * config.nanosecondsPerTick =
    nanosecondsPerSecond) (hx : x.OnClock) :
    config.exactTicks x = (x.nanos.toNat ⌈/⌉ config.nanosecondsPerTick : ℕ) := by
  obtain ⟨sec, hsec⟩ := Int.eq_ofNat_of_zero_le hx.sec_nonneg
  obtain ⟨nsec, hnsec⟩ := Int.eq_ofNat_of_zero_le hx.nsec_nonneg
  have hnanos : x.nanos.toNat = sec * config.tickRateHz * config.nanosecondsPerTick + nsec := by
    rw [Timespec.nanos, hsec, hnsec, Nat.mul_assoc, hrate]
    omega
  rw [hnanos, mul_add_ceilDiv _ _ config.nanosecondsPerTick_pos, TickConfig.exactTicks, hsec,
    hnsec, Int.toNat_natCast]
  push_cast
  rfl

/-- The conversion never reports a timeout. -/
theorem utilsTimespecToTicks_ne_timeout (pxTimespec : Option Timespec) (pxResult : Option ℕ) :
    (config.utilsTimespecToTicks pxTimespec pxResult).1 ≠ errorNetConTimeout := by
  have hinval : errorFuncInvalArg ≠ errorNetConTimeout := by decide
  have hsuccess : success ≠ errorNetConTimeout := by decide
  cases pxTimespec with
  | none => exact hinval
  | some pxTimespec =>
      cases pxResult with
      | none => exact hinval
      | some old =>
          simp only [TickConfig.utilsTimespecToTicks]
          split_ifs
          · exact hinval
          · exact hinval
          · exact hsuccess
          · exact hinval

/-- With ticks of four bytes and a second of whole ticks, for all times after the epoch: the call
times out, and stores nothing, exactly when the time is past, and otherwise stores the ticks that
cover the difference whenever they fit. -/
theorem deltaTicks_exact (hwidth : config.tickWidth = 32)
    (hrate : config.tickRateHz * config.nanosecondsPerTick = nanosecondsPerSecond)
    (hx : x.OnClock) (hy : y.OnClock) (old : ℕ) :
    (config.utilsAbsoluteTimespecToDeltaTicks (some x) (some y) (some old) =
        (errorNetConTimeout, some old) ↔ x.nanos < y.nanos) ∧
      (¬ x.nanos < y.nanos →
        (x.nanos - y.nanos).toNat ⌈/⌉ config.nanosecondsPerTick < 2 ^ 32 →
          config.utilsAbsoluteTimespecToDeltaTicks (some x) (some y) (some old) =
            (success, some ((x.nanos - y.nanos).toNat ⌈/⌉ config.nanosecondsPerTick))) := by
  by_cases hpast : x.nanos < y.nanos
  · refine ⟨iff_of_true ?_ hpast, fun hnot => absurd hpast hnot⟩
    simp [TickConfig.utilsAbsoluteTimespecToDeltaTicks, utilsTimespecSubtract_of_lt hx hy hpast]
  · obtain ⟨diff, hsubtract, hdiff, hnanos⟩ :=
      utilsTimespecSubtract_of_le hx hy (not_lt.mp hpast) ⟨0, 0⟩
    have hconvert : config.utilsAbsoluteTimespecToDeltaTicks (some x) (some y) (some old) =
        config.utilsTimespecToTicks (some diff) (some old) := by
      simp only [TickConfig.utilsAbsoluteTimespecToDeltaTicks, hsubtract]
      rfl
    rw [hconvert]
    constructor
    · apply iff_of_false _ hpast
      intro htimeout
      exact utilsTimespecToTicks_ne_timeout _ _ (congrArg Prod.fst htimeout)
    · intro _ hfits
      have hticks := exactTicks_eq hrate hdiff
      rw [hnanos] at hticks
      have hrep : config.Representable diff := by
        rw [TickConfig.Representable, hticks, hwidth]
        exact ⟨Int.natCast_nonneg _, by exact_mod_cast hfits⟩
      rw [TickConfig.utilsTimespecToTicks_of_lt hdiff.validate hrep (by omega) old, hticks,
        Int.toNat_natCast]

/-- A second is borrowed, and a hundred and one nanoseconds are one tick. -/
theorem deltaTicks_exact_borrow :
    (TickConfig.default 32 (.inr (.inl rfl))).utilsAbsoluteTimespecToDeltaTicks
      (some ⟨2, 100⟩) (some ⟨1, 999999999⟩) (some 0) = (success, some 1) := by
  have hx : Timespec.OnClock ⟨2, 100⟩ := ⟨by decide, by decide, by decide⟩
  have hy : Timespec.OnClock ⟨1, 999999999⟩ := ⟨by decide, by decide, by decide⟩
  have hexact := (@deltaTicks_exact _ _ (TickConfig.default 32 (.inr (.inl rfl))) rfl (by decide)
    hx hy 0).2 (by decide)
  exact hexact (by decide)

end Cyancore.Posix
