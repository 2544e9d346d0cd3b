/-
# Waiting for a semaphore

`sem_timedwait` asks the kernel for the semaphore, sleeps for a tick, and asks again, until
it is served or its ticks are spent.  The kernel's side of the super call is not part of
the library, so its answers are any sequence.

The countdown ends the loop before the branch that records the timeout is reached.  A call
that starts with ticks to spend and spends them all therefore reports success.
-/

import Cyancore.Posix.Timespec
import Mathlib.Data.List.Count

namespace Cyancore.Posix

open Cyancore.Math StatusCode

/-- `sem_t`; an `id` of zero marks one that is not initialised. -/
structure PosixSem where
  id : ℕ
  deriving DecidableEq, Repr

/-- `s_sem_wait`: the status, and the answers to the super calls that it made. -/
def sSemWait (sem : Option PosixSem) (answer : StatusCode) : StatusCode × List StatusCode :=
  match sem with
  | none => (errorFuncInvalArg, [])
  | some sem => if sem.id ≠ rstVal then (answer, [answer]) else (errorFuncInvalArg, [])

/-- The locals of `sem_timedwait`, and the answers to its super calls so far. -/
structure TimedWait where
  err : StatusCode
  absTicks : ℕ
  answers : List StatusCode
  deriving DecidableEq, Repr

/-- The body of the loop and its condition; `kernel n` answers super call `n`. -/
def semTimedwaitTurn (sem : Option PosixSem) (kernel : ℕ → StatusCode) (wait : TimedWait) :
    Turn TimedWait TimedWait :=
  let (status, answers) := sSemWait sem (kernel wait.answers.length)
  let asked := { wait with answers := wait.answers ++ answers }
  if status = success then
    .exit asked
  else
    let counted :=
      if asked.absTicks = rstVal then { asked with err := errorNetConTimeout }
      else { asked with absTicks := asked.absTicks - 1 }
    if rstVal < counted.absTicks then .next counted else .exit counted

/-- `sem_timedwait`: the status, and the answers to its super calls. -/
def semTimedwait (tickWidth : ℕ) (sem : Option PosixSem) (abstime : Option Timespec)
    (kernel : ℕ → StatusCode) (fuel : ℕ) : Run (StatusCode × List StatusCode) :=
  match sem with
  | none => .done (errorFuncInvalArg, [])
  | some sem =>
      if sem.id ≠ rstVal then
        match absTicks tickWidth abstime with
        | .error status => .done (status, [])
        | .ok ticks => do
            let wait ← loop (fun wait => .done (semTimedwaitTurn (some sem) kernel wait)) fuel
              ⟨success, ticks, []⟩
            return (wait.err, wait.answers)
      else
        .done (errorFuncInvalArg, [])

/-- `sem_trywait`. -/
def semTrywait (tickWidth : ℕ) (sem : Option PosixSem) (kernel : ℕ → StatusCode) (fuel : ℕ) :
    Run (StatusCode × List StatusCode) :=
  semTimedwait tickWidth sem none kernel fuel

/-- `sem_wait`. -/
def semWait (tickWidth : ℕ) (sem : Option PosixSem) (kernel : ℕ → StatusCode) (fuel : ℕ) :
    Run (StatusCode × List StatusCode) :=
  semTimedwait tickWidth sem none kernel fuel

/-! ## The countdown -/

section Countdown

variable {sem : PosixSem} {kernel : ℕ → StatusCode}

theorem sSemWait_of_initialised (hsem : sem.id ≠ rstVal) (answer : StatusCode) :
    sSemWait (some sem) answer = (answer, [answer]) :=
  if_pos hsem

variable {ticks : ℕ} {answers : List StatusCode}

theorem turn_of_success (hsem : sem.id ≠ rstVal) (hhit : kernel answers.length = success) :
    semTimedwaitTurn (some sem) kernel ⟨success, ticks, answers⟩ =
      .exit ⟨success, ticks, answers ++ [success]⟩ := by
  simp only [semTimedwaitTurn, sSemWait_of_initialised hsem, hhit, if_true]

/-- Without ticks the branch is reached that records the timeout. -/
theorem turn_zero (hsem : sem.id ≠ rstVal) (hmiss : kernel answers.length ≠ success) :
    semTimedwaitTurn (some sem) kernel ⟨success, 0, answers⟩ =
      .exit ⟨errorNetConTimeout, 0, answers ++ [kernel answers.length]⟩ := by
  simp only [semTimedwaitTurn, sSemWait_of_initialised hsem, if_neg hmiss, rstVal, if_true,
    Nat.lt_irrefl, if_false]

/-- The last tick ends the loop before it. -/
theorem turn_one (hsem : sem.id ≠ rstVal) (hmiss : kernel answers.length ≠ success) :
    semTimedwaitTurn (some sem) kernel ⟨success, 1, answers⟩ =
      .exit ⟨success, 0, answers ++ [kernel answers.length]⟩ := by
  simp [semTimedwaitTurn, sSemWait_of_initialised hsem, if_neg hmiss, rstVal]

theorem turn_add_two (hsem : sem.id ≠ rstVal) (hmiss : kernel answers.length ≠ success) :
    semTimedwaitTurn (some sem) kernel ⟨success, ticks + 2, answers⟩ =
      .next ⟨success, ticks + 1, answers ++ [kernel answers.length]⟩ := by
  simp [semTimedwaitTurn, sSemWait_of_initialised hsem, if_neg hmiss, rstVal]

/-- Where the loop of `sem_timedwait` ends, however it goes round. -/
def Ends (sem : PosixSem) (kernel : ℕ → StatusCode) (start wait : TimedWait) : Prop :=
  Returns (fun fuel =>
    loop (ε := Fault) (fun wait => .done (semTimedwaitTurn (some sem) kernel wait)) fuel start) wait

theorem ends_of_exit {start wait : TimedWait}
    (hturn : semTimedwaitTurn (some sem) kernel start = .exit wait) :
    Ends sem kernel start wait :=
  (returns_loop_of_exit (by rw [hturn])).mpr rfl

theorem ends_of_next {start middle wait : TimedWait}
    (hturn : semTimedwaitTurn (some sem) kernel start = .next middle)
    (hends : Ends sem kernel middle wait) : Ends sem kernel start wait :=
  (returns_loop_of_next (by rw [hturn])).mpr hends

/-- The answers when the loop ends, after `before`: at most one success, at the end, and one
exactly if the kernel has one among its next `limit` answers. -/
structure Asked (kernel : ℕ → StatusCode) (before : List StatusCode) (limit : ℕ)
    (answers : List StatusCode) : Prop where
  served_iff : success ∈ answers ↔ ∃ k < limit, kernel (before.length + k) = success
  once : answers.count success ≤ 1
  bounded : answers.length ≤ before.length + limit

theorem asked_of_success {limit : ℕ} (hlimit : 0 < limit) (hbefore : success ∉ answers)
    (hhit : kernel answers.length = success) :
    Asked kernel answers limit (answers ++ [success]) where
  served_iff := by
    simp only [List.mem_append, List.mem_singleton, or_true, true_iff]
    exact ⟨0, hlimit, hhit⟩
  once := by
    rw [List.count_append, List.count_eq_zero.mpr hbefore]
    simp
  bounded := by
    simp only [List.length_append, List.length_singleton]
    omega

theorem asked_one_of_failure (hbefore : success ∉ answers)
    (hmiss : kernel answers.length ≠ success) :
    Asked kernel answers 1 (answers ++ [kernel answers.length]) where
  served_iff := by
    simp [hbefore, hmiss, Ne.symm hmiss]
  once := by
    rw [List.count_eq_zero.mpr]
    · omega
    · simp [hbefore, Ne.symm hmiss]
  bounded := by simp

/-- A failure uses up one of the kernel's answers. -/
theorem asked_of_failure {limit : ℕ} {answers' : List StatusCode}
    (hmiss : kernel answers.length ≠ success)
    (hasked : Asked kernel (answers ++ [kernel answers.length]) limit answers') :
    Asked kernel answers (limit + 1) answers' where
  served_iff := by
    rw [hasked.served_iff, List.length_append, List.length_singleton]
    constructor
    · rintro ⟨k, hk, hhit⟩
      exact ⟨k + 1, by omega, by rwa [Nat.add_comm k 1, ← Nat.add_assoc]⟩
    · rintro ⟨k, hk, hhit⟩
      cases k with
      | zero => exact absurd hhit hmiss
      | succ k => exact ⟨k, by omega, by rwa [Nat.add_assoc, Nat.add_comm 1 k]⟩
  once := hasked.once
  bounded := by
    have hbounded := hasked.bounded
    rw [List.length_append, List.length_singleton] at hbounded
    omega

/-- With ticks to spend the countdown reports success whatever the kernel answers. -/
theorem exists_ends_of_ticks (kernel : ℕ → StatusCode) (hsem : sem.id ≠ rstVal) (ticks : ℕ)
    {answers : List StatusCode} (hbefore : success ∉ answers) :
    ∃ wait, Ends sem kernel ⟨success, ticks + 1, answers⟩ wait ∧ wait.err = success ∧
      Asked kernel answers (ticks + 1) wait.answers := by
  induction ticks generalizing answers with
  | zero =>
      by_cases hhit : kernel answers.length = success
      · exact ⟨_, ends_of_exit (turn_of_success hsem hhit), rfl,
          asked_of_success Nat.one_pos hbefore hhit⟩
      · exact ⟨_, ends_of_exit (turn_one hsem hhit), rfl, asked_one_of_failure hbefore hhit⟩
  | succ ticks ih =>
      by_cases hhit : kernel answers.length = success
      · exact ⟨_, ends_of_exit (turn_of_success hsem hhit), rfl,
          asked_of_success (Nat.succ_pos _) hbefore hhit⟩
      · have hafter : success ∉ answers ++ [kernel answers.length] := by
          simp [hbefore, Ne.symm hhit]
        obtain ⟨wait, hends, herr, hasked⟩ := ih hafter
        exact ⟨wait, ends_of_next (turn_add_two hsem hhit) hends, herr,
          asked_of_failure hhit hasked⟩

/-- Without any, it reports what the only answer says. -/
theorem exists_ends_of_no_ticks (kernel : ℕ → StatusCode) (hsem : sem.id ≠ rstVal) :
    ∃ wait, Ends sem kernel ⟨success, 0, []⟩ wait ∧
      wait.err = (if kernel 0 = success then success else errorNetConTimeout) ∧
      Asked kernel [] 1 wait.answers := by
  by_cases hhit : kernel 0 = success
  · refine ⟨_, ends_of_exit (turn_of_success hsem hhit), (if_pos hhit).symm, ?_⟩
    exact asked_of_success Nat.one_pos List.not_mem_nil hhit
  · refine ⟨_, ends_of_exit (turn_zero hsem hhit), (if_neg hhit).symm, ?_⟩
    exact asked_one_of_failure List.not_mem_nil hhit

end Countdown

/-! ## The result -/

/-- The result of a wait with `ticks` to spend says what its super calls came to. -/
structure SaysAnswers (ticks : ℕ) (result : StatusCode × List StatusCode) : Prop where
  zero_iff : result.1 = success ↔ success ∈ result.2
  once : result.2.count success ≤ 1
  timeout : success ∉ result.2 → result.1 = errorNetConTimeout
  bounded : result.2.length ≤ ticks + 1

section Result

variable {tickWidth ticks : ℕ} {sem : PosixSem} {abstime : Option Timespec}
  {kernel : ℕ → StatusCode}

/-- The wait returns exactly what its loop ends with. -/
theorem returns_semTimedwait_iff (hsem : sem.id ≠ rstVal)
    (hticks : absTicks tickWidth abstime = .ok ticks) {result : StatusCode × List StatusCode} :
    Returns (semTimedwait tickWidth (some sem) abstime kernel) result ↔
      ∃ wait, Ends sem kernel ⟨success, ticks, []⟩ wait ∧ (wait.err, wait.answers) = result := by
  have hcode : semTimedwait tickWidth (some sem) abstime kernel = fun fuel =>
      loop (ε := Fault) (fun wait => .done (semTimedwaitTurn (some sem) kernel wait)) fuel
        ⟨success, ticks, []⟩ >>= fun wait => .done (wait.err, wait.answers) := by
    funext fuel
    simp only [semTimedwait, hticks]
    exact if_pos hsem
  rw [hcode]
  exact returns_bind_done_iff

theorem Ends.unique {start wait wait' : TimedWait} (hends : Ends sem kernel start wait)
    (hends' : Ends sem kernel start wait') : wait = wait' :=
  Returns.unique (fuelMono_loop _ _) hends hends'

/-- Whatever the kernel answers, a wait with ticks to spend returns success. -/
theorem returns_of_ticks (kernel : ℕ → StatusCode) (hsem : sem.id ≠ rstVal)
    (hticks : absTicks tickWidth abstime = .ok (ticks + 1)) :
    ∃ answers, Returns (semTimedwait tickWidth (some sem) abstime kernel) (success, answers) ∧
      Asked kernel [] (ticks + 1) answers := by
  obtain ⟨wait, hends, herr, hasked⟩ :=
    exists_ends_of_ticks kernel hsem ticks List.not_mem_nil
  refine ⟨wait.answers, ?_, hasked⟩
  rw [returns_semTimedwait_iff hsem hticks]
  exact ⟨wait, hends, by rw [herr]⟩

/-- A wait without ticks to spend is right whatever the kernel answers. -/
theorem saysAnswers_of_no_ticks (hsem : sem.id ≠ rstVal)
    (hticks : absTicks tickWidth abstime = .ok 0) :
    ∃ result, Returns (semTimedwait tickWidth (some sem) abstime kernel) result ∧
      SaysAnswers 0 result := by
  obtain ⟨wait, hends, herr, hasked⟩ := exists_ends_of_no_ticks kernel hsem
  have hserved : success ∈ wait.answers ↔ kernel 0 = success := by
    rw [hasked.served_iff]
    simp
  refine ⟨_, (returns_semTimedwait_iff hsem hticks).mpr ⟨wait, hends, rfl⟩, ?_⟩
  constructor
  · rw [hserved, herr]
    by_cases hhit : kernel 0 = success
    · exact iff_of_true (if_pos hhit) hhit
    · rw [if_neg hhit]
      exact iff_of_false (show errorNetConTimeout ≠ success by decide) hhit
  · exact hasked.once
  · intro hnone
    rw [herr, if_neg (mt hserved.mpr hnone)]
  · exact hasked.bounded

/-- `IS_ISR` is always true, so that a wait without a timeout never waits. -/
theorem semWait_eq_semTrywait : semWait = semTrywait := rfl

/-- `sem_trywait`, and with it `sem_wait`, has no ticks to spend. -/
theorem saysAnswers_semTrywait (hsem : sem.id ≠ rstVal) :
    ∃ result, Returns (semTrywait tickWidth (some sem) kernel) result ∧ SaysAnswers 0 result :=
  saysAnswers_of_no_ticks hsem rfl

/-- When a wait says what its super calls came to. -/
theorem saysAnswers_semTimedwait_iff (hsem : sem.id ≠ rstVal)
    (hticks : absTicks tickWidth abstime = .ok ticks) :
    (∃ result, Returns (semTimedwait tickWidth (some sem) abstime kernel) result ∧
      SaysAnswers ticks result) ↔ ticks = 0 ∨ ∃ k < ticks, kernel k = success := by
  cases ticks with
  | zero => exact iff_of_true (saysAnswers_of_no_ticks hsem hticks) (.inl rfl)
  | succ ticks =>
      obtain ⟨answers, hreturns, hasked⟩ := returns_of_ticks kernel hsem hticks
      have hserved : success ∈ answers ↔ ∃ k < ticks + 1, kernel k = success := by
        simpa using hasked.served_iff
      constructor
      · rintro ⟨result, hresult, hright⟩
        right
        obtain ⟨wait, hends, rfl⟩ := (returns_semTimedwait_iff hsem hticks).mp hresult
        obtain ⟨wait', hends', hwait'⟩ := (returns_semTimedwait_iff hsem hticks).mp hreturns
        rw [hends.unique hends', hwait'] at hright
        exact hserved.mp (hright.zero_iff.mp rfl)
      · intro hor
        have hmem := hserved.mpr (hor.resolve_left (Nat.succ_ne_zero ticks))
        have hbounded := hasked.bounded
        rw [List.length_nil, Nat.zero_add] at hbounded
        refine ⟨_, hreturns, ?_⟩
        constructor
        · exact iff_of_true rfl hmem
        · exact hasked.once
        · exact fun hnone => absurd hmem hnone
        · exact Nat.le_succ_of_le hbounded

end Result

/-- Two milliseconds are two ticks, and the second answer is a success. -/
theorem saysAnswers_two_ticks :
    ∃ result, Returns (semTimedwait 32 (some ⟨1⟩) (some ⟨0, 2000000⟩)
        fun n => if n = 1 then success else errorOsSemGet) result ∧ SaysAnswers 2 result :=
  (saysAnswers_semTimedwait_iff (by decide) (by decide)).mpr (.inr ⟨1, by decide, rfl⟩)

/-- One millisecond is one tick: the only super call fails, and the wait returns success. -/
theorem not_saysAnswers_one_tick :
    absTicks 32 (some ⟨0, 1000000⟩) = .ok 1 ∧
      Returns (semTimedwait 32 (some ⟨1⟩) (some ⟨0, 1000000⟩) fun _ => errorOsSemGet)
        (success, [errorOsSemGet]) ∧ ¬ SaysAnswers 1 (success, [errorOsSemGet]) := by
  refine ⟨by decide, ⟨1, by decide⟩, ?_⟩
  intro hright
  exact absurd (hright.zero_iff.mp rfl) (by decide)

end Cyancore.Posix
