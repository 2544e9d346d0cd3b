/-
# Status codes and faults

The vocabulary that the modelled subsystems share: the members of `status_t`
that their functions return, and the ways in which a call can leave the
behaviour its C text defines.
-/

import Cyancore.Math.Outcome

namespace Cyancore

/-- The members of `status_t` returned by the modelled functions. -/
inductive Status
  | success
  | errorFuncInvalArg
  | errorMemoryLow
  | errorOsInvalidOp
  | errorOsSemGet
  | errorOsMutexLock
  | errorOsMutexUnlock
  deriving DecidableEq, Repr

/-- `status_t` as a number, for the functions that combine results bitwise. -/
abbrev StatusCode := ℕ

namespace StatusCode

def success : StatusCode := 0x0000
def errorGeneric : StatusCode := 0x0001
def errorFuncInval : StatusCode := 0x0002
def errorFuncInvalArg : StatusCode := 0x0003
def errorInvalPointer : StatusCode := 0x0005
def errorDriver : StatusCode := 0x0100
def errorDriverInitDone : StatusCode := 0x0101
def errorDriverInitFailed : StatusCode := 0x0102
def errorDriverBusy : StatusCode := 0x0103
def errorDriverData : StatusCode := 0x0104
def errorDeviceIdInval : StatusCode := 0x0201
def errorDeviceInval : StatusCode := 0x0202
def errorDeviceBusy : StatusCode := 0x0203
def errorFileDesc : StatusCode := 0x0701
def errorFileNotFound : StatusCode := 0x0703
def errorMathInvalArg : StatusCode := 0x0901
def errorSystem : StatusCode := 0x0b00
def errorSystemClkCaliberation : StatusCode := 0x0b03
def errorNetConTimeout : StatusCode := 0x0c01
def errorOsSemGet : StatusCode := 0x0f04
def errorListNodeExists : StatusCode := 0x1101
def errorListNodeNotFound : StatusCode := 0x1102

/-- `ret |= result` for one result after the other, from `success`. -/
def orAll (results : List StatusCode) : StatusCode := results.foldl (· ||| ·) success

/-- The combined result is success exactly when every result is. -/
theorem orAll_eq_success_iff (results : List StatusCode) :
    orAll results = success ↔ ∀ result ∈ results, result = success := by
  have hfold : ∀ start : StatusCode, results.foldl (· ||| ·) start = success ↔
      start = success ∧ ∀ result ∈ results, result = success := by
    induction results with
    | nil => simp
    | cons first results ih =>
        intro start
        have hor : start ||| first = success ↔ start = success ∧ first = success :=
          Nat.or_eq_zero_iff
        rw [List.foldl_cons, ih, hor, List.forall_mem_cons, and_assoc]
  rw [orAll, hfold]
  exact and_iff_right rfl

end StatusCode

/-- How a call can stop without returning. -/
inductive Fault
  | /-- A null pointer was followed. -/
    nullDeref
  | /-- A signed integer left the range of its type. -/
    intOverflow
  | /-- The kernel handed control to `plat_panic_handler`. -/
    panic
  deriving DecidableEq, Repr

/-- A call watched for a bounded number of loop turns. -/
abbrev Run (α : Type) := Math.Outcome Fault α

end Cyancore
