/-
# The schedule clock of the RISC-V platforms

Time is the counter of the CLINT in microseconds.  A reading multiplies the counter by a
million before it divides by the frequency, both in 64 bits, so that it is exact only while
the product fits.  The drivers for SiFive and for Ibex have the same function.
-/

import Cyancore.Driver.Clint
import Cyancore.Math.Quotient

namespace Cyancore.Driver.SchedclkClint

open Cyancore.Math

/-! ## The driver -/

/-- `plat_read_time`, with a timer clocked at `clk`. -/
def platReadTime (mtime : ℕ → BitVec 64) (clk : BitVec 32) (fuel now : ℕ) :
    Outcome TimerFault (BitVec 64 × ℕ) := do
  let (stamp, later) ← clintReadTime mtime fuel now
  let stamp := stamp * 1000000
  if clk = 0 then .fault .divideByZero else .done (stamp / clk.setWidth 64, later)

/-! ## The conversion -/

/-- The microseconds that `stamp` counts of a timer clocked at `clk` are. -/
def exactMicros (stamp : BitVec 64) (clk : BitVec 32) : ℕ := stamp.toNat * 1000000 / clk.toNat

/-- What the driver makes of a counter. -/
def convert (stamp : BitVec 64) (clk : BitVec 32) : BitVec 64 := stamp * 1000000 / clk.setWidth 64

theorem convert_toNat (stamp : BitVec 64) (clk : BitVec 32) :
    (convert stamp clk).toNat = stamp.toNat * 1000000 % 2 ^ 64 / clk.toNat := by
  have hclk : clk.toNat < 2 ^ 64 := clk.isLt.trans (by decide)
  rw [convert, BitVec.toNat_udiv, BitVec.toNat_mul, BitVec.toNat_setWidth, Nat.mod_eq_of_lt hclk]
  rfl

/-- It is exact while the product fits. -/
theorem convert_eq_iff {stamp : BitVec 64} {clk : BitVec 32} (hclk : clk ≠ 0) :
    (convert stamp clk).toNat = exactMicros stamp clk ↔ stamp.toNat * 1000000 < 2 ^ 64 := by
  have hpos : 0 < clk.toNat := by
    rw [Nat.pos_iff_ne_zero]
    exact fun hzero => hclk (BitVec.eq_of_toNat_eq hzero)
  rw [convert_toNat]
  exact mod_div_eq_iff hpos (clk.isLt.le.trans (by decide))

/-! ## Readings -/

variable {mtime : ℕ → BitVec 64} {clk : BitVec 32}

/-- A call reads the counter and converts it. -/
theorem returns_platReadTime_iff (hclk : clk ≠ 0) {now : ℕ} {time : BitVec 64} {later : ℕ} :
    Returns (fun fuel => platReadTime mtime clk fuel now) (time, later) ↔
      ∃ stamp, Returns (fun fuel => clintReadTime mtime fuel now) (stamp, later) ∧
        convert stamp clk = time := by
  have hconvert : (fun fuel => platReadTime mtime clk fuel now) = fun fuel =>
      clintReadTime mtime fuel now >>= fun ret => .done (convert ret.1 clk, ret.2) := by
    funext fuel
    simp only [platReadTime, if_neg hclk]
    rfl
  rw [hconvert, returns_bind_done_iff]
  constructor
  · rintro ⟨⟨stamp, later'⟩, hread, hret⟩
    cases hret
    exact ⟨stamp, hread, rfl⟩
  · rintro ⟨stamp, hread, rfl⟩
    exact ⟨(stamp, later), hread, rfl⟩

/-- Every reading whose exact time has a representation is the exact time, and none is less than
an earlier one. -/
structure Exact (mtime : ℕ → BitVec 64) (clk : BitVec 32) : Prop where
  exact : ∀ now stamp later, Returns (fun fuel => clintReadTime mtime fuel now) (stamp, later) →
    exactMicros stamp clk < 2 ^ 64 →
      ∃ time, Returns (fun fuel => platReadTime mtime clk fuel now) (time, later) ∧
        time.toNat = exactMicros stamp clk
  ordered : ∀ now time later now' stamp' time' later',
    Returns (fun fuel => platReadTime mtime clk fuel now) (time, later) → later ≤ now' →
      Returns (fun fuel => clintReadTime mtime fuel now') (stamp', later') →
        exactMicros stamp' clk < 2 ^ 64 →
          Returns (fun fuel => platReadTime mtime clk fuel now') (time', later') →
            time.toNat ≤ time'.toNat

/-- A call makes of a reading what `convert` makes of it. -/
theorem eq_convert_of_returns (hclk : clk ≠ 0) {now : ℕ} {stamp time : BitVec 64} {later : ℕ}
    (hread : Returns (fun fuel => clintReadTime mtime fuel now) (stamp, later))
    (htime : Returns (fun fuel => platReadTime mtime clk fuel now) (time, later)) :
    time = convert stamp clk := by
  obtain ⟨stamp', hread', rfl⟩ := (returns_platReadTime_iff hclk).mp htime
  cases Returns.unique (fuelMono_loop _ _) hread hread'
  rfl

theorem exactMicros_mono {stamp stamp' : BitVec 64} (hle : stamp.toNat ≤ stamp'.toNat)
    (clk : BitVec 32) : exactMicros stamp clk ≤ exactMicros stamp' clk :=
  Nat.div_le_div_right (Nat.mul_le_mul_right _ hle)

/-- For every counter that does not go back and every frequency, the time is exact wherever it
has a representation, and does not go back, exactly when no such reading times a million reaches
the end of the 64 bits. -/
theorem platReadTime_exact_iff (hmono : Monotone fun now => (mtime now).toNat) (hclk : clk ≠ 0) :
    Exact mtime clk ↔
      ∀ now stamp later, Returns (fun fuel => clintReadTime mtime fuel now) (stamp, later) →
        exactMicros stamp clk < 2 ^ 64 → stamp.toNat * 1000000 < 2 ^ 64 := by
  constructor
  · intro hexact now stamp later hread hfits
    obtain ⟨time, htime, hvalue⟩ := hexact.exact now stamp later hread hfits
    rw [eq_convert_of_returns hclk hread htime] at hvalue
    exact (convert_eq_iff hclk).mp hvalue
  · intro hproduct
    constructor
    · intro now stamp later hread hfits
      refine ⟨convert stamp clk, (returns_platReadTime_iff hclk).mpr ⟨stamp, hread, rfl⟩, ?_⟩
      exact (convert_eq_iff hclk).mpr (hproduct now stamp later hread hfits)
    · intro now time later now' stamp' time' later' htime hafter hread' hfits' htime'
      obtain ⟨stamp, hread, rfl⟩ := (returns_platReadTime_iff hclk).mp htime
      have hmicros := exactMicros_mono (clintReadTime_le hmono hread hafter hread') clk
      have hproduct' := hproduct now stamp later hread (hmicros.trans_lt hfits')
      rw [eq_convert_of_returns hclk hread' htime', (convert_eq_iff hclk).mpr hproduct',
        (convert_eq_iff hclk).mpr (hproduct now' stamp' later' hread' hfits')]
      exact hmicros

/-! ## A timer of 2 MHz -/

/-- A counter that stands still. -/
def stoppedMtime (stamp : BitVec 64) (_ : ℕ) : BitVec 64 := stamp

theorem monotone_stoppedMtime (stamp : BitVec 64) :
    Monotone fun now => (stoppedMtime stamp now).toNat :=
  fun _ _ _ => le_rfl

/-- A minute after the start all is well. -/
theorem platReadTime_exact_minute : Exact (stoppedMtime 120000000) 2000000 := by
  apply (platReadTime_exact_iff (monotone_stoppedMtime 120000000) (by decide)).mpr
  intro now stamp later hread _
  obtain ⟨turns, -, rfl⟩ := clintReadTime_eq (monotone_stoppedMtime 120000000) hread
  change (120000000 : BitVec 64).toNat * 1000000 < 2 ^ 64
  decide

/-- After 107 days the time starts again from zero. -/
theorem not_platReadTime_exact :
    ¬ ∀ mtime clk, (Monotone fun now => (mtime now).toNat) → clk ≠ 0 → Exact mtime clk := by
  intro hclaim
  have hexact := hclaim (stoppedMtime 18446744073710) 2000000 (monotone_stoppedMtime _) (by decide)
  have hread : Returns (fun fuel => clintReadTime (stoppedMtime 18446744073710) fuel 0)
      (18446744073710, 3) := ⟨1, by decide⟩
  obtain ⟨time, htime, hvalue⟩ := hexact.exact 0 _ _ hread (by decide)
  rw [eq_convert_of_returns (by decide) hread htime] at hvalue
  revert hvalue
  decide

end Cyancore.Driver.SchedclkClint
