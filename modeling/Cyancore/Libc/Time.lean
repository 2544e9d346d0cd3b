/-
# Delays and the time of day

The functions of `time.c` stand on `get_timestamp`, which reads microseconds or reports an
error and stores zero.  The delays read it again and again until it has passed a deadline,
and look at the status of the last reading only: a reading that fails never passes.

What `get_timestamp` gives is a sequence of results, the one of each call.
-/

import Cyancore.Driver.Attach
import Cyancore.Math.MixedRadix
import Cyancore.Math.Polling
import Mathlib.Algebra.Group.Nat.Defs

namespace Cyancore.Libc

open Cyancore.Math Cyancore.Driver StatusCode

/-! ## What `get_timestamp` gives -/

/-- The result of a call, which is zero if the call fails. -/
structure Timestamp where
  status : StatusCode
  tstamp : BitVec 64
  zero_of_failed : status ≠ success → tstamp = 0
  deriving DecidableEq

/-- A call that fails stores zero. -/
theorem getTimestamp_zero {δ : Type} {readTime : δ → ℕ} {clk : Attachment δ} {status : StatusCode}
    {t : ℕ} (hcall : getTimestamp readTime clk = .done (status, t)) (hfailed : status ≠ success) :
    t = 0 := by
  rw [getTimestamp, guarded] at hcall
  split at hcall
  · split at hcall
    · cases hcall
      exact absurd rfl hfailed
    · cases hcall
  · cases hcall
    rfl

/-- The result of a call of `get_timestamp`. -/
def Timestamp.ofCall {δ : Type} {readTime : δ → ℕ} {clk : Attachment δ} {status : StatusCode}
    {t : ℕ} (hcall : getTimestamp readTime clk = .done (status, t)) : Timestamp where
  status := status
  tstamp := BitVec.ofNat 64 t
  zero_of_failed hfailed := by
    rw [getTimestamp_zero hcall hfailed]
    rfl

/-! ## The delays -/

/-- `delay`, after the first timestamp is added to it. -/
def deadline (unit : BitVec 64) (d : BitVec 16) (results : ℕ → Timestamp) : BitVec 64 :=
  (if d = 0 then unit else d.setWidth 64 * unit) + (results 0).tstamp

/-- A delay of `d` units, for at most `limit` of them; the status comes with the number of the
call of `get_timestamp` that it is from. -/
def delayBy (limit : ℕ) (unit : BitVec 64) (d : BitVec 16) (results : ℕ → Timestamp) (fuel : ℕ) :
    Run (StatusCode × ℕ) :=
  if limit < d.toNat then .done (errorFuncInvalArg, 0)
  else
    let delay := deadline unit d results
    poll (fun call => ¬ (results call).tstamp ≤ delay) (fun call => ((results call).status, call))
      fuel 1

/-- `udelay`. -/
def udelay : BitVec 16 → (ℕ → Timestamp) → ℕ → Run (StatusCode × ℕ) := delayBy 2000 1

/-- `mdelay`. -/
def mdelay : BitVec 16 → (ℕ → Timestamp) → ℕ → Run (StatusCode × ℕ) := delayBy 10000 1000

/-! ## What a delay is for -/

/-- Microseconds or milliseconds. -/
inductive DelayUnit
  | micro
  | milli
  deriving DecidableEq, Repr

namespace DelayUnit

/-- What a call accepts. -/
def limit : DelayUnit → ℕ
  | .micro => 2000
  | .milli => 10000

/-- The unit in microseconds. -/
def micros : DelayUnit → ℕ
  | .micro => 1
  | .milli => 1000

/-- The call. -/
def delay : DelayUnit → BitVec 16 → (ℕ → Timestamp) → ℕ → Run (StatusCode × ℕ)
  | .micro => udelay
  | .milli => mdelay

/-- How long the call has to last, in microseconds. -/
def span (unit : DelayUnit) (d : BitVec 16) : ℕ := max d.toNat 1 * unit.micros

/-- The deadline that the call computes. -/
def deadline (unit : DelayUnit) : BitVec 16 → (ℕ → Timestamp) → BitVec 64 :=
  Libc.deadline (BitVec.ofNat 64 unit.micros)

end DelayUnit

/-- The delay makes this call of `get_timestamp`: no call after the first one and before it has
passed the deadline. -/
def Called (unit : DelayUnit) (d : BitVec 16) (results : ℕ → Timestamp) (call : ℕ) : Prop :=
  ∀ earlier, 0 < earlier → earlier < call → (results earlier).tstamp ≤ unit.deadline d results

/-- One of the calls that the delay makes fails. -/
def MeetsError (unit : DelayUnit) (d : BitVec 16) (results : ℕ → Timestamp) : Prop :=
  ∃ call, Called unit d results call ∧ (results call).status ≠ success

/-- The delay ends, with an error if it met one, and otherwise once it was long enough. -/
structure DelaysRight (unit : DelayUnit) (d : BitVec 16) (results : ℕ → Timestamp) : Prop where
  error : MeetsError unit d results →
    ∃ status call, status ≠ success ∧ Returns (unit.delay d results) (status, call)
  long : (∀ call, (results call).status = success) →
    (Monotone fun call => (results call).tstamp.toNat) →
    (∃ call, (results 0).tstamp.toNat + unit.span d < (results call).tstamp.toNat) →
    (results 0).tstamp.toNat + unit.span d < 2 ^ 64 →
      ∃ call, Returns (unit.delay d results) (success, call) ∧
        (results 0).tstamp.toNat + unit.span d < (results call).tstamp.toNat

variable {unit : DelayUnit} {d : BitVec 16} {results : ℕ → Timestamp}

/-- A delay that accepts its argument returns the status of the first reading past the deadline. -/
theorem returns_delay_iff (hd : d.toNat ≤ unit.limit) {status : StatusCode} {call : ℕ} :
    Returns (unit.delay d results) (status, call) ↔
      FirstReady (fun call => ¬ (results call).tstamp ≤ unit.deadline d results) 1 call ∧
        (results call).status = status := by
  have hpoll : unit.delay d results = fun fuel =>
      poll (fun call => ¬ (results call).tstamp ≤ unit.deadline d results)
        (fun call => ((results call).status, call)) fuel 1 := by
    funext fuel
    cases unit with
    | micro => exact if_neg (Nat.not_lt.mpr hd)
    | milli => exact if_neg (Nat.not_lt.mpr hd)
  rw [hpoll, returns_poll_iff]
  constructor
  · rintro ⟨call', hfirst, hstatus⟩
    cases hstatus
    exact ⟨hfirst, rfl⟩
  · rintro ⟨hfirst, rfl⟩
    exact ⟨call, hfirst, rfl⟩

/-- Zero has not passed any deadline, so what a delay returns is success. -/
theorem eq_success_of_returns (hd : d.toNat ≤ unit.limit) {status : StatusCode} {call : ℕ}
    (hreturns : Returns (unit.delay d results) (status, call)) : status = success := by
  obtain ⟨hfirst, rfl⟩ := (returns_delay_iff hd).mp hreturns
  by_contra hfailed
  apply hfirst.now
  rw [(results call).zero_of_failed hfailed]
  exact BitVec.le_def.mpr (Nat.zero_le _)

/-- What is added to the first timestamp. -/
theorem toNat_delay_eq_span (hd : d.toNat ≤ unit.limit) :
    (if d = 0 then BitVec.ofNat 64 unit.micros else
      d.setWidth 64 * BitVec.ofNat 64 unit.micros).toNat = unit.span d := by
  by_cases hzero : d = 0
  · rw [if_pos hzero, hzero]
    cases unit with
    | micro => rfl
    | milli => rfl
  · have hpos : d.toNat ≠ 0 := fun hnat => hzero (BitVec.eq_of_toNat_eq hnat)
    have hmax : max d.toNat 1 = d.toNat := Nat.max_eq_left (Nat.one_le_iff_ne_zero.mpr hpos)
    have hwidth : d.toNat < 2 ^ 16 := d.isLt
    rw [if_neg hzero, DelayUnit.span, hmax, BitVec.toNat_mul, BitVec.toNat_setWidth,
      BitVec.toNat_ofNat]
    cases unit with
    | micro =>
        simp only [DelayUnit.micros]
        omega
    | milli =>
        simp only [DelayUnit.micros]
        omega

/-- Without overflow the deadline is what it says. -/
theorem deadline_toNat (hd : d.toNat ≤ unit.limit)
    (hfits : (results 0).tstamp.toNat + unit.span d < 2 ^ 64) :
    (unit.deadline d results).toNat = (results 0).tstamp.toNat + unit.span d := by
  rw [DelayUnit.deadline, deadline, BitVec.toNat_add, toNat_delay_eq_span hd, Nat.add_comm]
  exact Nat.mod_eq_of_lt hfits

/-- With a clock that works, a delay ends, and is long enough. -/
theorem delay_long (hd : d.toNat ≤ unit.limit)
    (hworks : ∀ call, (results call).status = success)
    (hpasses : ∃ call, (results 0).tstamp.toNat + unit.span d < (results call).tstamp.toNat)
    (hfits : (results 0).tstamp.toNat + unit.span d < 2 ^ 64) :
    ∃ call, Returns (unit.delay d results) (success, call) ∧
      (results 0).tstamp.toNat + unit.span d < (results call).tstamp.toNat := by
  have hdeadline := deadline_toNat hd hfits
  have hready (call : ℕ) : ¬ (results call).tstamp ≤ unit.deadline d results ↔
      (results 0).tstamp.toNat + unit.span d < (results call).tstamp.toNat := by
    rw [BitVec.le_def, hdeadline, Nat.not_le]
  obtain ⟨call, hcall⟩ := hpasses
  have hstart : 1 ≤ call := by
    rw [Nat.one_le_iff_ne_zero]
    rintro rfl
    omega
  obtain ⟨first, hfirst⟩ :=
    @exists_firstReady (fun call => ¬ (results call).tstamp ≤ unit.deadline d results) _ 1 call
      hstart ((hready call).mpr hcall)
  exact ⟨first, (returns_delay_iff hd).mpr ⟨hfirst, hworks first⟩, (hready first).mp hfirst.now⟩

/-- For every delay that is accepted and every sequence of results, the delay is right exactly
when none of the calls of `get_timestamp` that it makes fails. -/
theorem delaysRight_iff (unit : DelayUnit) {d : BitVec 16} (hd : d.toNat ≤ unit.limit)
    (results : ℕ → Timestamp) :
    DelaysRight unit d results ↔ ¬ MeetsError unit d results := by
  constructor
  · intro hright hmeets
    obtain ⟨status, call, hfailed, hreturns⟩ := hright.error hmeets
    exact hfailed (eq_success_of_returns hd hreturns)
  · intro hmeets
    exact {
      error := fun herror => absurd herror hmeets
      long := fun hworks _ hpasses hfits => delay_long hd hworks hpasses hfits }

/-! ## A clock that ticks and a clock that is missing -/

/-- A clock that is one microsecond further with each reading, up to a hundred. -/
def tickingResults (call : ℕ) : Timestamp :=
  Timestamp.ofCall (show getTimestamp (fun time : ℕ => time) ⟨some (min call 100), true⟩ =
    .done (success, min call 100) from rfl)

theorem tickingResults_toNat (call : ℕ) : (tickingResults call).tstamp.toNat = min call 100 := by
  have hsmall : min call 100 < 2 ^ 64 := lt_of_le_of_lt (Nat.min_le_right call 100) (by decide)
  exact (BitVec.toNat_ofNat _ _).trans (Nat.mod_eq_of_lt hsmall)

/-- A delay of five microseconds takes longer than that. -/
theorem delaysRight_ticking :
    ∃ call, Returns (udelay 5 tickingResults) (success, call) ∧
      5 < (tickingResults call).tstamp.toNat := by
  have hworks (call : ℕ) : (tickingResults call).status = success := rfl
  have hright := (delaysRight_iff .micro (show (5 : BitVec 16).toNat ≤ 2000 by decide)
    tickingResults).mpr (fun ⟨call, _, hfailed⟩ => hfailed (hworks call))
  have hmono : Monotone fun call => (tickingResults call).tstamp.toNat := by
    intro call call' hle
    simp only [tickingResults_toNat]
    omega
  exact hright.long hworks hmono ⟨6, by decide⟩ (by decide)

/-- No driver is attached. -/
def missingResults (_ : ℕ) : Timestamp :=
  Timestamp.ofCall (show getTimestamp (fun time : ℕ => time) .detached =
    .done (errorDriverInitFailed, 0) from rfl)

/-- Without a driver a delay of a microsecond does not come back. -/
theorem not_delaysRight :
    ¬ ∀ unit d results, d.toNat ≤ DelayUnit.limit unit → DelaysRight unit d results := by
  intro hclaim
  have hright := hclaim .micro 1 missingResults (by decide)
  have hmeets : MeetsError .micro 1 missingResults :=
    ⟨0, fun earlier _ hlt => absurd hlt (Nat.not_lt_zero earlier), by decide⟩
  obtain ⟨status, call, hfailed, hreturns⟩ := hright.error hmeets
  exact hfailed (eq_success_of_returns (by decide) hreturns)

/-! ## The time of day -/

/-- `time_t`. -/
structure Time where
  cs : BitVec 8
  s : BitVec 8
  m : BitVec 8
  h : BitVec 8
  dd : BitVec 32
  deriving DecidableEq, Repr

/-- `getTime`: the status, and what it leaves in `*t`. -/
def getTime (result : Timestamp) : StatusCode × Time :=
  if result.status ≠ success then (result.status, ⟨0, 0, 0, 0, 0⟩)
  else
    let tstamp := result.tstamp / 10000
    let cs := (tstamp % 100).setWidth 8
    let tstamp := tstamp / 100
    let s := (tstamp % 60).setWidth 8
    let tstamp := tstamp / 60
    let m := (tstamp % 60).setWidth 8
    let tstamp := tstamp / 60
    let h := (tstamp % 24).setWidth 8
    (result.status, ⟨cs, s, m, h, (tstamp / 24).setWidth 32⟩)

namespace Time

/-- The hundredths of a second that the fields stand for. -/
def centis (time : Time) : ℕ :=
  (((time.dd.toNat * 24 + time.h.toNat) * 60 + time.m.toNat) * 60 + time.s.toNat) * 100 +
    time.cs.toNat

/-- The fields below the days are within their ranges. -/
structure InRange (time : Time) : Prop where
  cs : time.cs.toNat < 100
  s : time.s.toNat < 60
  m : time.m.toNat < 60
  h : time.h.toNat < 24

/-- The fields, to be compared lexicographically. -/
def fields (time : Time) : ℕ ×ₗ ℕ ×ₗ ℕ ×ₗ ℕ ×ₗ ℕ :=
  toLex (time.dd.toNat, toLex (time.h.toNat, toLex (time.m.toNat,
    toLex (time.s.toNat, time.cs.toNat))))

/-- The digits below each field make less than one of it. -/
theorem InRange.lt {time : Time} (hrange : time.InRange) :
    time.s.toNat * 100 + time.cs.toNat < 6000 ∧
      time.m.toNat * 6000 + (time.s.toNat * 100 + time.cs.toNat) < 360000 ∧
      time.h.toNat * 360000 + (time.m.toNat * 6000 + (time.s.toNat * 100 + time.cs.toNat)) <
        8640000 := by
  obtain ⟨hcs, hs, hm, hh⟩ := hrange
  omega

/-- Within their ranges, the fields are in the order of the time they stand for. -/
theorem fields_le_iff {first second : Time} (hfirst : first.InRange) (hsecond : second.InRange) :
    first.fields ≤ second.fields ↔ first.centis ≤ second.centis := by
  have hs := (SameOrder.refl first.cs.toNat second.cs.toNat).cons hfirst.cs hsecond.cs
    first.s.toNat second.s.toNat
  have hm := hs.cons hfirst.lt.1 hsecond.lt.1 first.m.toNat second.m.toNat
  have hh := hm.cons hfirst.lt.2.1 hsecond.lt.2.1 first.h.toNat second.h.toNat
  have hdd := hh.cons hfirst.lt.2.2 hsecond.lt.2.2 first.dd.toNat second.dd.toNat
  rw [fields, fields, hdd.le]
  simp only [centis]
  omega

end Time

/-- A remainder by a small number fits a byte. -/
theorem toNat_umod_byte (word : BitVec 64) {radix : BitVec 64} (hpos : 0 < radix.toNat)
    (hradix : radix.toNat ≤ 256) :
    ((word % radix).setWidth 8).toNat = word.toNat % radix.toNat := by
  rw [BitVec.toNat_setWidth, BitVec.toNat_umod]
  exact Nat.mod_eq_of_lt (Nat.lt_of_lt_of_le (Nat.mod_lt _ hpos) hradix)

/-- What a reading that succeeds leaves in each field. -/
structure Holds (time : Time) (tstamp : ℕ) : Prop where
  cs : time.cs.toNat = tstamp / 10000 % 100
  s : time.s.toNat = tstamp / 1000000 % 60
  m : time.m.toNat = tstamp / 60000000 % 60
  h : time.h.toNat = tstamp / 3600000000 % 24
  dd : time.dd.toNat = tstamp / 86400000000

theorem getTime_holds {result : Timestamp} (hsuccess : result.status = success) :
    (getTime result).1 = success ∧ Holds (getTime result).2 result.tstamp.toNat := by
  have hlt : result.tstamp.toNat < 2 ^ 64 := result.tstamp.isLt
  rw [getTime, if_neg (not_not.mpr hsuccess)]
  refine ⟨hsuccess, ?_, ?_, ?_, ?_, ?_⟩
  · rw [toNat_umod_byte _ (by decide) (by decide)]
    rfl
  · rw [toNat_umod_byte _ (by decide) (by decide)]
    simp only [BitVec.toNat_udiv, Nat.div_div_eq_div_mul]
    rfl
  · rw [toNat_umod_byte _ (by decide) (by decide)]
    simp only [BitVec.toNat_udiv, Nat.div_div_eq_div_mul]
    rfl
  · rw [toNat_umod_byte _ (by decide) (by decide)]
    simp only [BitVec.toNat_udiv, Nat.div_div_eq_div_mul]
    rfl
  · simp only [BitVec.toNat_setWidth, BitVec.toNat_udiv, Nat.div_div_eq_div_mul]
    change result.tstamp.toNat / 86400000000 % 2 ^ 32 = _
    exact Nat.mod_eq_of_lt (by omega)

theorem Holds.inRange {time : Time} {tstamp : ℕ} (hholds : Holds time tstamp) : time.InRange where
  cs := by rw [hholds.cs]; exact Nat.mod_lt _ (by decide)
  s := by rw [hholds.s]; exact Nat.mod_lt _ (by decide)
  m := by rw [hholds.m]; exact Nat.mod_lt _ (by decide)
  h := by rw [hholds.h]; exact Nat.mod_lt _ (by decide)

/-- The fields add up to the timestamp in hundredths of a second. -/
theorem Holds.centis_eq {time : Time} {tstamp : ℕ} (hholds : Holds time tstamp) :
    time.centis = tstamp / 10000 := by
  rw [Time.centis, hholds.cs, hholds.s, hholds.m, hholds.h, hholds.dd]
  omega

/-- For every timestamp that is read, the fields are within their ranges, the days are all there,
the fields add up to the timestamp, and a later timestamp does not give an earlier time. -/
theorem getTime_exact {result : Timestamp} (hsuccess : result.status = success) :
    (getTime result).1 = success ∧ (getTime result).2.InRange ∧
      (getTime result).2.dd.toNat = result.tstamp.toNat / 86400000000 ∧
      (getTime result).2.centis = result.tstamp.toNat / 10000 ∧
      ∀ later : Timestamp, later.status = success →
        result.tstamp.toNat ≤ later.tstamp.toNat →
          (getTime result).2.fields ≤ (getTime later).2.fields := by
  obtain ⟨hstatus, hholds⟩ := getTime_holds hsuccess
  refine ⟨hstatus, hholds.inRange, hholds.dd, hholds.centis_eq, fun later hlater hle => ?_⟩
  have hholds' := (getTime_holds hlater).2
  rw [Time.fields_le_iff hholds.inRange hholds'.inRange, hholds.centis_eq, hholds'.centis_eq]
  exact Nat.div_le_div_right hle

/-- A day, an hour, a minute and a second after the start. -/
def dayResult : Timestamp :=
  Timestamp.ofCall (show getTimestamp (fun time : ℕ => time) ⟨some 90061230000, true⟩ =
    .done (success, 90061230000) from rfl)

theorem getTime_exact_day :
    getTime dayResult = (success, ⟨23, 1, 1, 1, 1⟩) ∧
      (getTime dayResult).2.centis = 90061230000 / 10000 :=
  ⟨by decide, (getTime_exact (show dayResult.status = success from rfl)).2.2.2.1⟩

end Cyancore.Libc
