/-
# The schedule clock of the megaAVR

Time is counted in timer ticks: every interrupt adds the ticks of the period that is
active when it fires.  A reading converts the count to microseconds with the period that
is active when the reading is made, so a change of the period rescales all the time that
has passed.
-/

import Cyancore.Driver.Prci
import Cyancore.Math.Transition

namespace Cyancore.Driver

open Cyancore.Math

/-- `PSVALUE`. -/
def psValue : BitVec 64 := 256

/-- The static data of the driver, and the compare value of its timer. -/
structure Schedclk where
  /-- The ticks of one period, less one. -/
  ticks : BitVec 64
  /-- The ticks counted so far. -/
  cntr : BitVec 64
  /-- `tport->value`, a `size_t`. -/
  value : BitVec 16
  deriving DecidableEq, Repr

namespace Schedclk

/-- `plat_tmr_isr`, without the callback. -/
def platTmrIsr (clk : Schedclk) : Schedclk := { clk with cntr := clk.cntr + clk.ticks }

/-- `plat_get_timer_ticks_msec`. -/
def platGetTimerTicksMsec (freq : BitVec 64) : BitVec 64 := freq / (2 * psValue) / 1000

/-- `plat_timer_set_period`, for a module clocked at `freq`. -/
def platTimerSetPeriod (freq : BitVec 32) (period : BitVec 16) (clk : Schedclk) : Schedclk :=
  let nt := platGetTimerTicksMsec (freq.setWidth 64)
  let ticks := nt * period.setWidth 64 - 1
  { clk with ticks := ticks, value := ticks.setWidth 16 }

/-- `(tport->value + 1) << 1`. -/
def divisor (clk : Schedclk) : BitVec 16 := (clk.value + 1) <<< 1

/-- `plat_read_time`. -/
def platReadTime (clk : Schedclk) : Outcome ClockFault (BitVec 64) :=
  let stamp := clk.cntr <<< 10
  if clk.divisor = 0 then .fault .divideByZero else .done (stamp / clk.divisor.setWidth 64)

/-- The clock as `plat_timer_setup` leaves it. -/
def platTimerSetup (freq : BitVec 32) : Schedclk := platTimerSetPeriod freq 1 ⟨0, 0, 0⟩

end Schedclk

/-- What happens to the clock. -/
inductive SchedclkEvent
  | /-- The timer interrupt. -/
    isr
  | /-- A call of `plat_timer_set_period`. -/
    setPeriod (period : BitVec 16)
  | /-- A call of `plat_read_time`. -/
    readTime
  deriving DecidableEq, Repr

/-- The clock and the readings made of it. -/
structure SchedclkRun where
  clk : Schedclk
  readings : List (Outcome ClockFault (BitVec 64))
  deriving DecidableEq, Repr

/-- The state after an event. -/
def SchedclkRun.next (freq : BitVec 32) (event : SchedclkEvent) (run : SchedclkRun) :
    SchedclkRun :=
  match event with
  | .isr => { run with clk := run.clk.platTmrIsr }
  | .setPeriod period => { run with clk := run.clk.platTimerSetPeriod freq period }
  | .readTime => { run with readings := run.readings ++ [run.clk.platReadTime] }

/-- A module fast enough for one tick a millisecond, after its setup. -/
def schedclkSystem (freq : BitVec 32) : TransitionSystem SchedclkRun SchedclkEvent :=
  .ofNext
    (fun run => 1 ≤ (Schedclk.platGetTimerTicksMsec (freq.setWidth 64)).toNat ∧
      run = ⟨.platTimerSetup freq, []⟩)
    fun event run => some (run.next freq event)

/-- A period is at least one millisecond, and the shifted counter fits its 64 bits. -/
def ordinaryUse : SchedclkEvent → SchedclkRun → Prop
  | .isr, run => run.clk.cntr.toNat + run.clk.ticks.toNat < 2 ^ 54
  | .setPeriod period, _ => 1 ≤ period.toNat
  | .readTime, _ => True

/-- The divisor of a new period, of which sixteen bits are kept. -/
def periodDivisor (freq : BitVec 32) (period : BitVec 16) : ℕ :=
  2 * ((Schedclk.platGetTimerTicksMsec (freq.setWidth 64)).toNat * period.toNat) % 2 ^ 16

/-- A new period has a divisor, and no larger one than before once time has passed. -/
def keepsScale (freq : BitVec 32) : SchedclkEvent → SchedclkRun → Prop
  | .setPeriod period, run =>
      0 < periodDivisor freq period ∧
        (run.clk.cntr = 0 ∨ periodDivisor freq period ≤ run.clk.divisor.toNat)
  | .isr, _ | .readTime, _ => True

/-- Every reading returns, and none is smaller than one before it. -/
def SchedclkRun.TimeForward (run : SchedclkRun) : Prop :=
  ∃ times : List (BitVec 64), run.readings = times.map .done ∧
    times.Pairwise fun earlier later => earlier.toNat ≤ later.toNat

namespace Schedclk

variable {freq : BitVec 32} {period : BitVec 16} {clk : Schedclk}

/-- The time in microseconds, as a number. -/
def now (clk : Schedclk) : ℕ := clk.cntr.toNat * 1024 / clk.divisor.toNat

/-- A reading returns the time while the shifted counter fits. -/
theorem platReadTime_eq (hdivisor : clk.divisor ≠ 0) (hfits : clk.cntr.toNat < 2 ^ 54) :
    ∃ time, clk.platReadTime = .done time ∧ time.toNat = clk.now := by
  refine ⟨clk.cntr <<< 10 / clk.divisor.setWidth 64, if_neg hdivisor, ?_⟩
  have hlt : clk.divisor.toNat < 2 ^ 64 := by have := clk.divisor.isLt; omega
  have hshift : (clk.cntr <<< 10).toNat = clk.cntr.toNat * 1024 := by
    rw [BitVec.toNat_shiftLeft, Nat.shiftLeft_eq]
    exact Nat.mod_eq_of_lt (by omega)
  rw [BitVec.toNat_udiv, hshift, BitVec.toNat_setWidth, Nat.mod_eq_of_lt hlt, now]

/-- An interrupt takes time forward. -/
theorem now_platTmrIsr (hfits : clk.cntr.toNat + clk.ticks.toNat < 2 ^ 54) :
    clk.now ≤ clk.platTmrIsr.now := by
  have hcntr : clk.platTmrIsr.cntr.toNat = clk.cntr.toNat + clk.ticks.toNat := by
    rw [platTmrIsr, BitVec.toNat_add, Nat.mod_eq_of_lt (by omega)]
  have hdivisor : clk.platTmrIsr.divisor = clk.divisor := rfl
  rw [now, now, hcntr, hdivisor]
  exact Nat.div_le_div_right (by omega)

theorem toNat_divisor_platTimerSetPeriod :
    (clk.platTimerSetPeriod freq period).divisor.toNat = periodDivisor freq period := by
  have hperiod : period.toNat % 2 ^ 64 = period.toNat :=
    Nat.mod_eq_of_lt (Nat.lt_of_lt_of_le period.isLt (by decide))
  simp only [divisor, periodDivisor, platTimerSetPeriod, BitVec.toNat_shiftLeft, Nat.shiftLeft_eq,
    BitVec.toNat_add, BitVec.toNat_setWidth, BitVec.toNat_sub, BitVec.toNat_mul, hperiod,
    BitVec.ofNat_eq_ofNat, BitVec.toNat_ofNat]
  generalize (platGetTimerTicksMsec (BitVec.setWidth 64 freq)).toNat * period.toNat = total
  omega

/-- A period with no larger a divisor takes time forward. -/
theorem now_platTimerSetPeriod (hdivisor : 0 < periodDivisor freq period)
    (hscale : clk.cntr = 0 ∨ periodDivisor freq period ≤ clk.divisor.toNat) :
    clk.now ≤ (clk.platTimerSetPeriod freq period).now := by
  have hcntr : (clk.platTimerSetPeriod freq period).cntr = clk.cntr := rfl
  rw [now, now, hcntr, toNat_divisor_platTimerSetPeriod]
  rcases hscale with hzero | hle
  · simp [hzero]
  · exact Nat.div_le_div_left hle hdivisor

/-- The period of the setup has a divisor. -/
theorem divisor_platTimerSetup
    (hticks : 1 ≤ (platGetTimerTicksMsec (freq.setWidth 64)).toNat) :
    (platTimerSetup freq).divisor ≠ 0 := by
  intro hzero
  have hdivisor : (platTimerSetup freq).divisor.toNat =
      2 * ((platGetTimerTicksMsec (freq.setWidth 64)).toNat * 1) % 2 ^ 16 :=
    @toNat_divisor_platTimerSetPeriod freq 1 ⟨0, 0, 0⟩
  have hfreq := freq.isLt
  have hfew : (platGetTimerTicksMsec (freq.setWidth 64)).toNat < 2 ^ 15 := by
    simp only [platGetTimerTicksMsec, psValue, BitVec.toNat_udiv, BitVec.toNat_setWidth,
      BitVec.toNat_mul, BitVec.ofNat_eq_ofNat, BitVec.toNat_ofNat, Nat.reducePow, Nat.reduceMod,
      Nat.reduceMul]
    omega
  have hnone : (platTimerSetup freq).divisor.toNat = 0 := congrArg BitVec.toNat hzero
  omega

/-- Whether a change of the divisor can take time backward depends on the divisors alone. -/
theorem divisor_le_iff {before after : BitVec 16} (hbefore : before ≠ 0) (hafter : after ≠ 0) :
    (∀ cntr < 2 ^ 54, cntr * 1024 / before.toNat ≤ cntr * 1024 / after.toNat) ↔
      after.toNat ≤ before.toNat := by
  have hpos : ∀ {divisor : BitVec 16}, divisor ≠ 0 → 0 < divisor.toNat := fun hne =>
    Nat.pos_of_ne_zero fun hzero => hne (BitVec.eq_of_toNat_eq hzero)
  constructor
  · intro hforward
    -- The counter that both divisors divide shows the difference in full.
    have hproduct : before.toNat * after.toNat < 2 ^ 54 := by
      calc before.toNat * after.toNat ≤ 2 ^ 16 * 2 ^ 16 :=
            Nat.mul_le_mul (Nat.le_of_lt before.isLt) (Nat.le_of_lt after.isLt)
        _ < 2 ^ 54 := by decide
    have hle := hforward _ hproduct
    rw [Nat.mul_assoc, Nat.mul_div_cancel_left _ (hpos hbefore), Nat.mul_comm before.toNat,
      Nat.mul_assoc, Nat.mul_div_cancel_left _ (hpos hafter)] at hle
    omega
  · exact fun hle cntr _ => Nat.div_le_div_left hle (hpos hafter)

end Schedclk

/-! ## Readings over a run -/

/-- The clock can be read, and no reading was later than now. -/
structure SchedclkRun.Forward (run : SchedclkRun) : Prop where
  divisor_ne : run.clk.divisor ≠ 0
  fits : run.clk.cntr.toNat < 2 ^ 54
  readings : ∃ times : List (BitVec 64), run.readings = times.map .done ∧
    (times.Pairwise fun earlier later => earlier.toNat ≤ later.toNat) ∧
    ∀ time ∈ times, time.toNat ≤ run.clk.now

/-- An event that keeps the scale takes time forward. -/
theorem SchedclkRun.Forward.next {freq : BitVec 32} {event : SchedclkEvent} {run : SchedclkRun}
    (hforward : run.Forward) (huse : ordinaryUse event run) (hscale : keepsScale freq event run) :
    (run.next freq event).Forward := by
  obtain ⟨hdivisor, hfits, times, hreadings, hsorted, hpast⟩ := hforward
  cases event with
  | isr =>
      refine ⟨hdivisor, ?_, times, hreadings, hsorted, fun time htime => ?_⟩
      · refine Nat.lt_of_le_of_lt ?_ huse
        rw [SchedclkRun.next, Schedclk.platTmrIsr, BitVec.toNat_add]
        exact Nat.mod_le _ _
      · exact Nat.le_trans (hpast time htime) (Schedclk.now_platTmrIsr huse)
  | setPeriod period =>
      obtain ⟨hnew, hcase⟩ := hscale
      refine ⟨fun hzero => ?_, hfits, times, hreadings, hsorted, fun time htime => ?_⟩
      · have hdivisor := @Schedclk.toNat_divisor_platTimerSetPeriod freq period run.clk
        rw [show (run.clk.platTimerSetPeriod freq period).divisor = 0 from hzero] at hdivisor
        rw [← hdivisor] at hnew
        exact Nat.lt_irrefl _ hnew
      · exact Nat.le_trans (hpast time htime) (Schedclk.now_platTimerSetPeriod hnew hcase)
  | readTime =>
      obtain ⟨time, hread, hnow⟩ := Schedclk.platReadTime_eq hdivisor hfits
      refine ⟨hdivisor, hfits, times ++ [time], ?_, ?_, ?_⟩
      · rw [SchedclkRun.next, hreadings, hread, List.map_append, List.map_singleton]
      · rw [List.pairwise_append]
        refine ⟨hsorted, List.pairwise_singleton _ _, fun earlier hearlier later hlater => ?_⟩
        rw [List.mem_singleton.mp hlater, hnow]
        exact hpast earlier hearlier
      · intro earlier hearlier
        rcases List.mem_append.mp hearlier with hold | hlast
        · exact hpast earlier hold
        · rw [List.mem_singleton.mp hlast, hnow]
          exact Nat.le_refl _

/-- Where no period has a larger divisor than the one before it once time has passed, time
never runs backwards. -/
theorem timeForward_of_keepsScale {freq : BitVec 32} {run : SchedclkRun}
    (hreach : (schedclkSystem freq).Reachable
      (fun event run => ordinaryUse event run ∧ keepsScale freq event run) run) :
    run.TimeForward := by
  have hforward : run.Forward := by
    refine hreach.invariant SchedclkRun.Forward ?_ ?_
    · rintro _ ⟨hticks, rfl⟩
      have hfits : (0 : BitVec 64).toNat < 2 ^ 54 := by decide
      exact ⟨Schedclk.divisor_platTimerSetup hticks, hfits, [], rfl, .nil, by simp⟩
    · intro event run run' hforward hguard hnext
      cases hnext
      exact hforward.next hguard.1 hguard.2
  obtain ⟨times, hreadings, hsorted, -⟩ := hforward.readings
  exact ⟨times, hreadings, hsorted⟩

instance (event : SchedclkEvent) (run : SchedclkRun) : Decidable (ordinaryUse event run) :=
  match event with
  | .isr => inferInstanceAs (Decidable (run.clk.cntr.toNat + run.clk.ticks.toNat < 2 ^ 54))
  | .setPeriod period => inferInstanceAs (Decidable (1 ≤ period.toNat))
  | .readTime => inferInstanceAs (Decidable True)

instance (freq : BitVec 32) (event : SchedclkEvent) (run : SchedclkRun) :
    Decidable (keepsScale freq event run) :=
  match event with
  | .setPeriod period =>
      inferInstanceAs (Decidable (0 < periodDivisor freq period ∧
        (run.clk.cntr = 0 ∨ periodDivisor freq period ≤ run.clk.divisor.toNat)))
  | .isr | .readTime => inferInstanceAs (Decidable True)

/-- At 16 MHz: a second reading after a shorter period and one more interrupt. -/
theorem timeForward_shorter :
    ∃ run : SchedclkRun, run.readings = [.done 2518, .done 5037, .done 5532] ∧
      run.TimeForward := by
  have hstart : (schedclkSystem 16000000).Reachable
      (fun event run => ordinaryUse event run ∧ keepsScale 16000000 event run)
      ⟨.platTimerSetup 16000000, []⟩ := .start ⟨by decide, rfl⟩
  have htest : (TransitionSystem.replay (fun event run => some (run.next 16000000 event))
      (fun event run => ordinaryUse event run ∧ keepsScale 16000000 event run)
      (.setPeriod 2 :: List.replicate 5 .isr ++
        [.readTime, .setPeriod 1, .readTime, .isr, .readTime])
      (⟨.platTimerSetup 16000000, []⟩ : SchedclkRun)).any
      (fun run => run.readings = [.done 2518, .done 5037, .done 5532]) = true := by
    decide
  obtain ⟨run, hreach, hrun⟩ := hstart.exists_replay htest
  exact ⟨run, of_decide_eq_true hrun, timeForward_of_keepsScale hreach⟩

/-- At 16 MHz: ten interrupts of one millisecond are read as 4954, and as 2477 once the period
is two milliseconds. -/
theorem time_runs_backwards :
    ∃ run : SchedclkRun, (schedclkSystem 16000000).Reachable ordinaryUse run ∧
      run.readings = [.done 4954, .done 2477] ∧ ¬ run.TimeForward := by
  have hstart : (schedclkSystem 16000000).Reachable ordinaryUse
      ⟨.platTimerSetup 16000000, []⟩ := .start ⟨by decide, rfl⟩
  have htest : (TransitionSystem.replay (fun event run => some (run.next 16000000 event))
      ordinaryUse (List.replicate 10 .isr ++ [.readTime, .setPeriod 2, .readTime])
      (⟨.platTimerSetup 16000000, []⟩ : SchedclkRun)).any
      (fun run => run.readings = [.done 4954, .done 2477]) = true := by
    decide
  obtain ⟨run, hreach, hrun⟩ := hstart.exists_replay htest
  have hreadings := of_decide_eq_true hrun
  refine ⟨run, hreach, hreadings, ?_⟩
  rintro ⟨times, htimes, hsorted⟩
  rw [hreadings] at htimes
  obtain ⟨first, rest, rfl, hfirst, hrest⟩ := List.map_eq_cons_iff.mp htimes.symm
  obtain ⟨second, rest, rfl, hsecond, -⟩ := List.map_eq_cons_iff.mp hrest
  cases hfirst
  cases hsecond
  exact absurd (List.rel_of_pairwise_cons hsorted List.mem_cons_self) (by decide)

end Cyancore.Driver
