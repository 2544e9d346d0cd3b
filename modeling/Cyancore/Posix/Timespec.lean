/-
# Timeouts in kernel ticks

`posix_utils.c` turns a `timespec` into ticks of the kernel, whose type is as wide as the
build makes it.  It looks for an overflow only after the fact, so signed arithmetic is
taken to wrap.

The error numbers of `errno.h` are negated status codes, and a function that returns
`-EINVAL` returns the status itself.
-/

import Cyancore.Basic
import Mathlib.Algebra.Group.Nat.Defs

namespace Cyancore.Posix

open StatusCode

/-! ## Configuration -/

/-- `RST_VAL`. -/
def rstVal : ℕ := 0

/-- `posixconfigTICK_RATE_HZ`. -/
def tickRateHz : ℕ := 1000

/-- `NANOSECONDS_PER_SECOND`. -/
def nanosecondsPerSecond : ℕ := 1000000000

/-- `NANOSECONDS_PER_TICK`. -/
def nanosecondsPerTick : ℕ := nanosecondsPerSecond / tickRateHz

/-- `UINT_MAX` of a build whose `TickType_t` has four bytes. -/
def uintMax : ℕ := 2 ^ 32 - 1

/-- `posixconfigMAX_DELAY`. -/
def maxDelay (tickWidth : ℕ) : ℕ := 2 ^ tickWidth - 1

/-- `IS_ISR()`. -/
def isIsr : Bool := true

/-- `struct timespec`. -/
structure Timespec where
  tvSec : BitVec 64
  tvNsec : ℤ
  deriving DecidableEq, Repr

/-! ## Conversion -/

/-- `UTILS_ValidateTimespec`. -/
def utilsValidateTimespec (pxTimespec : Timespec) : Bool :=
  0 ≤ pxTimespec.tvNsec && pxTimespec.tvNsec < nanosecondsPerSecond

/-- `total_ticks` of `UTILS_TimespecToTicks`: whole seconds, and nanoseconds rounded up. -/
def totalTicks (pxTimespec : Timespec) : BitVec 64 :=
  let nanoSecs := pxTimespec.tvNsec.tdiv nanosecondsPerTick +
    if pxTimespec.tvNsec.tmod nanosecondsPerTick ≠ 0 then 1 else 0
  BitVec.ofNat 64 tickRateHz * pxTimespec.tvSec + BitVec.ofInt 64 nanoSecs

/-- `UTILS_TimespecToTicks`: the status, and what is written to `*pxResult`. -/
def utilsTimespecToTicks (tickWidth : ℕ) (pxTimespec : Timespec) : StatusCode × Option ℕ :=
  if utilsValidateTimespec pxTimespec then
    let total := totalTicks pxTimespec
    let errStatus :=
      if total.toInt < 0 then errorFuncInvalArg
      else if tickWidth = 32 ∧ (uintMax : ℤ) < total.toInt then errorFuncInvalArg
      else success
    (errStatus, some (total.toNat % 2 ^ tickWidth))
  else
    (errorFuncInvalArg, none)

/-- How a call with a timeout sets its `abs_ticks`, or the status that it returns. -/
def absTicks (tickWidth : ℕ) : Option Timespec → Except StatusCode ℕ
  | none => .ok (if isIsr then rstVal else maxDelay tickWidth)
  | some abstime =>
      let (status, result) := utilsTimespecToTicks tickWidth abstime
      match result with
      | some ticks => if status = success then .ok ticks else .error errorFuncInvalArg
      | none => .error errorFuncInvalArg

end Cyancore.Posix
