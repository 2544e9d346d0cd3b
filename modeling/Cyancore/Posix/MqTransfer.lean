/-
# What a transfer reports

`mq_timedsend` and `mq_timedreceive` count their ticks down in the same loop, around the
one attempt that distinguishes them.  An attempt either issues one super call and succeeds
exactly if the kernel does, or, on a queue without the access bit it looks for, fails
without one.

As in the wait for a semaphore, the loop ends when the last tick is spent and before the
branch that records the timeout is reached.  Only a transfer without ticks to spend, or on
a queue opened with `O_NONBLOCK`, gets there.
-/

import Cyancore.Posix.Mqueue
import Mathlib.Data.List.Count

namespace Cyancore.Posix

open Cyancore.Math StatusCode

/-! ## One attempt -/

/-- The super calls in a log. -/
def asked (log : List Event) : ℕ := log.countP Event.isSuperCall

@[simp]
theorem asked_append (log entries : List Event) :
    asked (log ++ entries) = asked log + asked entries :=
  List.countP_append

/-- The attempts of a loop, where `hit k` says that attempt `k` succeeds. -/
structure Attempts (attempt : List Event → StatusCode × List Event) (hit : ℕ → Prop) : Prop where
  success_iff : ∀ log, (attempt log).1 = success ↔ hit (asked log)
  adds : ∀ log, ∃ entries, (attempt log).2 = log ++ entries ∧
    entries.countP Event.transfers = if (attempt log).1 = success then 1 else 0
  later : ∀ log k, ¬ hit (asked log) →
    (hit (asked (attempt log).2 + k) ↔ hit (asked log + (k + 1)))

/-- Attempts without a super call never succeed. -/
theorem attempts_of_refused {attempt : List Event → StatusCode × List Event}
    (hrefused : ∀ log, attempt log = (errorFuncInval, log)) :
    Attempts attempt fun _ => False where
  success_iff log := by
    rw [hrefused]
    exact iff_of_false (show errorFuncInval ≠ success by decide) not_false
  adds log := by
    rw [hrefused]
    exact ⟨[], (List.append_nil log).symm, rfl⟩
  later _ _ _ := Iff.rfl

/-- Attempts with one super call each succeed as their super calls do. -/
theorem attempts_of_asked {attempt : List Event → StatusCode × List Event} {world : World}
    (hstatus : ∀ log, (attempt log).1 = success ↔ (world.kernel (asked log)).status = success)
    (hadds : ∀ log, ∃ entries, (attempt log).2 = log ++ entries ∧ asked entries = 1 ∧
      entries.countP Event.transfers = if (attempt log).1 = success then 1 else 0) :
    Attempts attempt fun k => (world.kernel k).status = success where
  success_iff := hstatus
  adds log := by
    obtain ⟨entries, hlog, -, hcount⟩ := hadds log
    exact ⟨entries, hlog, hcount⟩
  later log k _ := by
    obtain ⟨entries, hlog, hasked, -⟩ := hadds log
    rw [hlog, asked_append, hasked, Nat.add_assoc, Nat.add_comm 1 k]

section Attempt

variable {world : World} {queue : MqdSection} {buff size msgPrio : ℕ}

theorem errorFileDesc_ne : errorFileDesc ≠ success := by decide

theorem sQueueWrite_of_refused (hflags : queue.attr.mqFlags &&& oRdonly = 0) (log : List Event) :
    sQueueWrite world queue buff size msgPrio log = (errorFuncInval, log) :=
  if_neg (not_not.mpr hflags)

theorem sQueueWrite_of_access (hflags : queue.attr.mqFlags &&& oRdonly ≠ 0) (log : List Event) :
    sQueueWrite world queue buff size msgPrio log =
      (if (world.kernel (asked log)).status = success then success else errorFileDesc,
        log ++ [.memcpy queue.kernelBuff buff size,
          .superCall (.mqSend queue.id size msgPrio) (world.kernel (asked log)).status]) := by
  by_cases hhit : (world.kernel (asked log)).status = success <;>
    simp_all [sQueueWrite, superCall, asked, Event.isSuperCall]

theorem sQueueRead_of_refused (hflags : queue.attr.mqFlags &&& oWronly = 0) (log : List Event) :
    sQueueRead world queue buff size log = (errorFuncInval, log) :=
  if_neg (not_not.mpr hflags)

theorem sQueueRead_of_access (hflags : queue.attr.mqFlags &&& oWronly ≠ 0) (log : List Event) :
    sQueueRead world queue buff size log =
      if (world.kernel (asked log)).status = success then
        (success, log ++ [.superCall (.mqReceive queue.id size) success,
          .memcpy buff queue.kernelBuff size])
      else
        (errorFileDesc, log ++ [.superCall (.mqReceive queue.id size)
          (world.kernel (asked log)).status]) := by
  by_cases hhit : (world.kernel (asked log)).status = success <;>
    simp_all [sQueueRead, superCall, asked]

theorem attempts_sQueueWrite (hflags : queue.attr.mqFlags &&& oRdonly ≠ 0) :
    Attempts (sQueueWrite world queue buff size msgPrio) fun k =>
      (world.kernel k).status = success := by
  apply attempts_of_asked
  · intro log
    rw [sQueueWrite_of_access hflags]
    by_cases hhit : (world.kernel (asked log)).status = success <;>
      simp [hhit, errorFileDesc_ne]
  · intro log
    rw [sQueueWrite_of_access hflags]
    refine ⟨_, rfl, rfl, ?_⟩
    by_cases hhit : (world.kernel (asked log)).status = success <;>
      simp [hhit, Event.transfers, errorFileDesc_ne]

theorem attempts_sQueueRead (hflags : queue.attr.mqFlags &&& oWronly ≠ 0) :
    Attempts (sQueueRead world queue buff size) fun k =>
      (world.kernel k).status = success := by
  apply attempts_of_asked
  · intro log
    rw [sQueueRead_of_access hflags]
    by_cases hhit : (world.kernel (asked log)).status = success <;>
      simp [hhit, errorFileDesc_ne]
  · intro log
    rw [sQueueRead_of_access hflags]
    by_cases hhit : (world.kernel (asked log)).status = success
    · rw [if_pos hhit]
      exact ⟨_, rfl, rfl, rfl⟩
    · rw [if_neg hhit]
      refine ⟨_, rfl, rfl, ?_⟩
      simp [Event.transfers, hhit, errorFileDesc_ne]

/-- Whether `s_queue_write` lets a send through; it looks for the bit that allows reading. -/
def Sends (world : World) (mqFlags : BitVec 32) (k : ℕ) : Prop :=
  mqFlags &&& oRdonly ≠ 0 ∧ (world.kernel k).status = success

/-- Whether `s_queue_read` lets a receive through. -/
def Receives (world : World) (mqFlags : BitVec 32) (k : ℕ) : Prop :=
  mqFlags &&& oWronly ≠ 0 ∧ (world.kernel k).status = success

/-- Attempts that make their super calls only if the flags let them. -/
theorem attempts_of_access {attempt : List Event → StatusCode × List Event} {access : Prop}
    {hit : ℕ → Prop} (hrefused : ¬ access → ∀ log, attempt log = (errorFuncInval, log))
    (hattempts : access → Attempts attempt hit) : Attempts attempt fun k => access ∧ hit k := by
  by_cases haccess : access
  · have hkernel : (fun k => access ∧ hit k) = hit := by
      funext k
      exact propext (and_iff_right haccess)
    rw [hkernel]
    exact hattempts haccess
  · have hnone : (fun k => access ∧ hit k) = fun _ => False := by
      funext k
      exact eq_false fun hhit => haccess hhit.1
    rw [hnone]
    exact attempts_of_refused (hrefused haccess)

theorem attempts_sends (world : World) (queue : MqdSection) (buff size msgPrio : ℕ) :
    Attempts (sQueueWrite world queue buff size msgPrio) (Sends world queue.attr.mqFlags) :=
  attempts_of_access (fun hflags => sQueueWrite_of_refused (not_not.mp hflags))
    attempts_sQueueWrite

theorem attempts_receives (world : World) (queue : MqdSection) (buff size : ℕ) :
    Attempts (sQueueRead world queue buff size) (Receives world queue.attr.mqFlags) :=
  attempts_of_access (fun hflags => sQueueRead_of_refused (not_not.mp hflags))
    attempts_sQueueRead

end Attempt

/-! ## The countdown -/

section Countdown

variable {attempt : List Event → StatusCode × List Event} {hit : ℕ → Prop}
  {mqFlags : BitVec 32} {ticks : ℕ} {log : List Event}

/-- The attempts that a loop makes at most. -/
def attemptLimit (mqFlags : BitVec 32) (ticks : ℕ) : ℕ :=
  if mqFlags &&& oNonblock ≠ 0 then 1 else max ticks 1

/-- The loop reaches the branch that records the timeout if its first attempt fails. -/
def RecordsTimeout (mqFlags : BitVec 32) (ticks : ℕ) : Prop :=
  mqFlags &&& oNonblock ≠ 0 ∨ ticks = 0

theorem transferTurn_of_hit (hattempt : Attempts attempt hit) (hhit : hit (asked log)) :
    transferTurn attempt mqFlags ⟨success, ticks, log⟩ =
      .exit ⟨success, ticks, (attempt log).2⟩ := by
  simp only [transferTurn, (hattempt.success_iff log).mpr hhit, if_true]

/-- A failure on a queue that does not block, or without ticks left, is a timeout. -/
theorem transferTurn_timeout (hattempt : Attempts attempt hit) (hmiss : ¬ hit (asked log))
    (htimeout : RecordsTimeout mqFlags ticks) :
    transferTurn attempt mqFlags ⟨success, ticks, log⟩ =
      .exit ⟨errorNetConTimeout, 0, (attempt log).2⟩ := by
  have hstatus := mt (hattempt.success_iff log).mp hmiss
  have hticks : (if mqFlags &&& oNonblock ≠ 0 then rstVal else ticks) = 0 := by
    cases htimeout with
    | inl hflags => exact if_pos hflags
    | inr hticks =>
        rw [hticks]
        exact ite_self _
  simp only [transferTurn, if_neg hstatus, hticks]
  rfl

theorem transferTurn_last (hattempt : Attempts attempt hit) (hmiss : ¬ hit (asked log))
    (hflags : mqFlags &&& oNonblock = 0) :
    transferTurn attempt mqFlags ⟨success, 1, log⟩ =
      .exit ⟨success, 0, (attempt log).2 ++ [.delay delayMinTick]⟩ := by
  have hstatus := mt (hattempt.success_iff log).mp hmiss
  simp [transferTurn, if_neg hstatus, hflags, rstVal]

theorem transferTurn_next (hattempt : Attempts attempt hit) (hmiss : ¬ hit (asked log))
    (hflags : mqFlags &&& oNonblock = 0) :
    transferTurn attempt mqFlags ⟨success, ticks + 2, log⟩ =
      .next ⟨success, ticks + 1, (attempt log).2 ++ [.delay delayMinTick]⟩ := by
  have hstatus := mt (hattempt.success_iff log).mp hmiss
  simp [transferTurn, if_neg hstatus, hflags, rstVal]

/-- Where the loop of a transfer ends. -/
def TransferEnds (attempt : List Event → StatusCode × List Event) (mqFlags : BitVec 32)
    (start transfer : TimedTransfer) : Prop :=
  Returns (fun fuel => loop (ε := Fault)
    (fun transfer => .done (transferTurn attempt mqFlags transfer)) fuel start) transfer

theorem transferEnds_of_exit {start transfer : TimedTransfer}
    (hturn : transferTurn attempt mqFlags start = .exit transfer) :
    TransferEnds attempt mqFlags start transfer :=
  (returns_loop_of_exit (by rw [hturn])).mpr rfl

theorem transferEnds_of_next {start middle transfer : TimedTransfer}
    (hturn : transferTurn attempt mqFlags start = .next middle)
    (hends : TransferEnds attempt mqFlags middle transfer) :
    TransferEnds attempt mqFlags start transfer :=
  (returns_loop_of_next (by rw [hturn])).mpr hends

/-- The loop, started with `log`, has ended: with success and one transfer if an attempt was
served, and with `otherwise` and none if not. -/
structure Spent (served : Prop) (otherwise : StatusCode) (log : List Event)
    (transfer : TimedTransfer) : Prop where
  adds : log <+: transfer.log
  hit : served → transfer.err = success ∧
    transfer.log.countP Event.transfers = log.countP Event.transfers + 1
  miss : ¬ served → transfer.err = otherwise ∧
    transfer.log.countP Event.transfers = log.countP Event.transfers

theorem Attempts.keepsLog (hattempt : Attempts attempt hit) (log : List Event) :
    log <+: (attempt log).2 := by
  obtain ⟨entries, hlog, -⟩ := hattempt.adds log
  exact ⟨entries, hlog.symm⟩

theorem Attempts.count (hattempt : Attempts attempt hit) (log : List Event) :
    (attempt log).2.countP Event.transfers =
      log.countP Event.transfers + if (attempt log).1 = success then 1 else 0 := by
  obtain ⟨entries, hlog, hcount⟩ := hattempt.adds log
  rw [hlog, List.countP_append, hcount]

theorem Attempts.count_of_hit (hattempt : Attempts attempt hit) (hhit : hit (asked log)) :
    (attempt log).2.countP Event.transfers = log.countP Event.transfers + 1 := by
  rw [hattempt.count, if_pos ((hattempt.success_iff log).mpr hhit)]

theorem Attempts.count_of_miss (hattempt : Attempts attempt hit) (hmiss : ¬ hit (asked log)) :
    (attempt log).2.countP Event.transfers = log.countP Event.transfers := by
  rw [hattempt.count, if_neg (mt (hattempt.success_iff log).mp hmiss)]
  rfl

theorem spent_of_hit (hattempt : Attempts attempt hit) (hhit : hit (asked log)) {served : Prop}
    (hserved : served) {otherwise : StatusCode} {ticks : ℕ} :
    Spent served otherwise log ⟨success, ticks, (attempt log).2⟩ where
  adds := hattempt.keepsLog log
  hit _ := ⟨rfl, hattempt.count_of_hit hhit⟩
  miss hnot := absurd hserved hnot

/-- A loop that can wait: nothing but a success ends it with less than all its ticks spent,
and it reports success in any case. -/
theorem exists_spent_of_ticks (hattempt : Attempts attempt hit)
    (hflags : mqFlags &&& oNonblock = 0) (ticks : ℕ) (log : List Event) :
    ∃ transfer, TransferEnds attempt mqFlags ⟨success, ticks + 1, log⟩ transfer ∧
      Spent (∃ k < ticks + 1, hit (asked log + k)) success log transfer := by
  induction ticks generalizing log with
  | zero =>
      by_cases hhit : hit (asked log)
      · exact ⟨_, transferEnds_of_exit (transferTurn_of_hit hattempt hhit),
          spent_of_hit hattempt hhit ⟨0, Nat.one_pos, hhit⟩⟩
      · refine ⟨_, transferEnds_of_exit (transferTurn_last hattempt hhit hflags), ?_⟩
        constructor
        · exact (hattempt.keepsLog log).trans (List.prefix_append _ _)
        · rintro ⟨k, hk, hlater⟩
          cases k with
          | zero => exact absurd hlater hhit
          | succ k => omega
        · intro _
          simp [hattempt.count_of_miss hhit, Event.transfers]
  | succ ticks ih =>
      by_cases hhit : hit (asked log)
      · exact ⟨_, transferEnds_of_exit (transferTurn_of_hit hattempt hhit),
          spent_of_hit hattempt hhit ⟨0, Nat.succ_pos _, hhit⟩⟩
      · obtain ⟨transfer, hends, hspent⟩ := ih ((attempt log).2 ++ [.delay delayMinTick])
        refine ⟨transfer, transferEnds_of_next (transferTurn_next hattempt hhit hflags) hends, ?_⟩
        have hcount : ((attempt log).2 ++ [Event.delay delayMinTick]).countP Event.transfers =
            log.countP Event.transfers := by
          simp [hattempt.count_of_miss hhit, Event.transfers]
        have hserved : (∃ k < ticks + 1 + 1, hit (asked log + k)) ↔ ∃ k < ticks + 1,
            hit (asked ((attempt log).2 ++ [Event.delay delayMinTick]) + k) := by
          rw [asked_append]
          constructor
          · rintro ⟨k, hk, hlater⟩
            cases k with
            | zero => exact absurd hlater hhit
            | succ k => exact ⟨k, by omega, (hattempt.later log k hhit).mpr hlater⟩
          · rintro ⟨k, hk, hlater⟩
            exact ⟨k + 1, by omega, (hattempt.later log k hhit).mp hlater⟩
        constructor
        · exact ((hattempt.keepsLog log).trans (List.prefix_append _ _)).trans hspent.adds
        · intro hor
          rw [← hcount]
          exact hspent.hit (hserved.mp hor)
        · intro hnone
          rw [← hcount]
          exact hspent.miss (mt hserved.mpr hnone)

/-- A loop that cannot makes one attempt. -/
theorem exists_spent_of_timeout (hattempt : Attempts attempt hit)
    (htimeout : RecordsTimeout mqFlags ticks) (log : List Event) :
    ∃ transfer, TransferEnds attempt mqFlags ⟨success, ticks, log⟩ transfer ∧
      Spent (hit (asked log)) errorNetConTimeout log transfer := by
  by_cases hhit : hit (asked log)
  · exact ⟨_, transferEnds_of_exit (transferTurn_of_hit hattempt hhit),
      spent_of_hit hattempt hhit hhit⟩
  · refine ⟨_, transferEnds_of_exit (transferTurn_timeout hattempt hhit htimeout), ?_⟩
    constructor
    · exact hattempt.keepsLog log
    · exact fun hserved => absurd hserved hhit
    · exact fun _ => ⟨rfl, hattempt.count_of_miss hhit⟩

instance : Decidable (RecordsTimeout mqFlags ticks) := inferInstanceAs (Decidable (_ ∨ _))

/-- Every loop ends, and spends what it may. -/
theorem exists_spent (hattempt : Attempts attempt hit) (mqFlags : BitVec 32) (ticks : ℕ)
    (log : List Event) :
    ∃ transfer, TransferEnds attempt mqFlags ⟨success, ticks, log⟩ transfer ∧
      Spent (∃ k < attemptLimit mqFlags ticks, hit (asked log + k))
        (if RecordsTimeout mqFlags ticks then errorNetConTimeout else success) log transfer := by
  by_cases htimeout : RecordsTimeout mqFlags ticks
  · have hlimit : attemptLimit mqFlags ticks = 1 := by
      cases htimeout with
      | inl hflags => exact if_pos hflags
      | inr hticks =>
          rw [hticks]
          exact ite_self _
    have hserved : (∃ k < 1, hit (asked log + k)) ↔ hit (asked log) := by simp
    rw [if_pos htimeout, hlimit, hserved]
    exact exists_spent_of_timeout hattempt htimeout log
  · have hflags : mqFlags &&& oNonblock = 0 := not_not.mp fun hflags => htimeout (.inl hflags)
    obtain ⟨ticks, rfl⟩ := Nat.exists_eq_succ_of_ne_zero fun hticks => htimeout (.inr hticks)
    have hlimit : attemptLimit mqFlags (ticks + 1) = ticks + 1 := by
      rw [attemptLimit, if_neg (not_not.mpr hflags)]
      exact Nat.max_eq_left (Nat.le_add_left 1 ticks)
    rw [if_neg htimeout, hlimit]
    exact exists_spent_of_ticks hattempt hflags ticks log

end Countdown

/-! ## The result -/

/-- Whether the calling thread is left with the mutex. -/
def held (log : List Event) : Bool :=
  log.foldl (fun held event =>
    match event with
    | .pthread .mutexLock => true
    | .pthread .mutexUnlock => false
    | _ => held) false

/-- The result of a transfer says what its super calls came to, where `isError` tells what
counts as an error. -/
structure SaysTransfer (isError : StatusCode → Prop) (result : StatusCode × List Event) :
    Prop where
  zero_iff : result.1 = success ↔ result.2.countP Event.transfers = 1
  error : result.2.countP Event.transfers = 0 → isError result.1
  released : held result.2 = false

/-- A negative number, as the callers of POSIX expect an error to be. -/
def IsNegative (err : StatusCode) : Prop := (err : ℤ) < 0

/-- An error number of `errno.h`, with the sign that the library gives it. -/
def IsErrorCode (err : StatusCode) : Prop := err ≠ success

/-- The mutex does as it should for a caller that does not hold it and then does. -/
structure MutexServes (world : World) : Prop where
  locks : world.pthread .mutexLock = success
  unlocks : world.pthread .mutexUnlock = success

section Result

variable {world : World} {attempt : List Event → StatusCode × List Event} {hit : ℕ → Prop}
  {mqFlags : BitVec 32} {mqdes ticks : ℕ} {log : List Event} {isError : StatusCode → Prop}

theorem held_unlock (log : List Event) : held (log ++ [.pthread .mutexUnlock]) = false := by
  rw [held, List.foldl_append]
  rfl

theorem saysTransfer_iff_of_spent {served : Prop} {otherwise : StatusCode}
    {transfer : TimedTransfer} (hspent : Spent served otherwise log transfer)
    (hlog : log.countP Event.transfers = 0) :
    SaysTransfer isError (transfer.err, transfer.log ++ [.pthread .mutexUnlock]) ↔
      served ∨ otherwise ≠ success ∧ isError otherwise := by
  have hcount : (transfer.log ++ [Event.pthread .mutexUnlock]).countP Event.transfers =
      transfer.log.countP Event.transfers := by
    simp [Event.transfers]
  by_cases hserved : served
  · obtain ⟨herr, hone⟩ := hspent.hit hserved
    rw [hlog, Nat.zero_add, ← hcount] at hone
    refine iff_of_true ?_ (.inl hserved)
    constructor
    · exact iff_of_true herr hone
    · intro hzero
      rw [hzero] at hone
      cases hone
    · exact held_unlock _
  · obtain ⟨herr, hnone⟩ := hspent.miss hserved
    rw [hlog, ← hcount] at hnone
    rw [or_iff_right hserved, herr]
    constructor
    · intro hreports
      refine ⟨fun hsuccess => ?_, hreports.error hnone⟩
      have hone := hreports.zero_iff.mp hsuccess
      rw [hnone] at hone
      cases hone
    · rintro ⟨hfailure, herror⟩
      constructor
      · exact iff_of_false hfailure (by rw [hnone]; exact Nat.zero_ne_one)
      · exact fun _ => herror
      · exact held_unlock _

/-- The call without its intermediate names. -/
theorem transferWithin_eq (world : World) (attempt : List Event → StatusCode × List Event)
    (mqFlags : BitVec 32) (mqdes ticks : ℕ) (log : List Event) (fuel : ℕ) :
    transferWithin world attempt mqFlags mqdes ticks log fuel =
      if world.pthread .mutexLock ≠ success then
        .done (errorDeviceBusy, log ++ [.pthread .mutexLock])
      else
        loop (ε := Fault) (fun transfer => .done (transferTurn attempt mqFlags transfer)) fuel
          ⟨success, ticks, log ++ [.pthread .mutexLock]⟩ >>= fun transfer =>
            if world.pthread .mutexUnlock ≠ success then
              .done (errorDeviceBusy, transfer.log ++ [.pthread .mutexUnlock])
            else .done (transfer.err, transfer.log ++ [.pthread .mutexUnlock]) := rfl

/-- What a transfer adds to its log around its attempts. -/
def Event.IsAround (event : Event) : Prop :=
  event = .pthread .mutexLock ∨ event = .pthread .mutexUnlock ∨ event = .delay delayMinTick

/-- A turn whose attempt keeps something keeps it. -/
theorem transferTurn_invariant {keeps : List Event → Prop}
    (haround : ∀ log event, event.IsAround → keeps log → keeps (log ++ [event]))
    {transfer : TimedTransfer} (hafter : keeps (attempt transfer.log).2) :
    (∀ transfer', transferTurn attempt mqFlags transfer = .next transfer' → keeps transfer'.log) ∧
      ∀ transfer', transferTurn attempt mqFlags transfer = .exit transfer' →
        keeps transfer'.log := by
  have hdelayed := haround _ (.delay delayMinTick) (.inr (.inr rfl)) hafter
  simp only [transferTurn]
  split_ifs <;> constructor <;> intro transfer' hturn <;> cases hturn <;> assumption

/-- What the first attempt brings about and all attempts keep holds at the end. -/
theorem TransferEnds.invariant {keeps : List Event → Prop} {start transfer : TimedTransfer}
    (hends : TransferEnds attempt mqFlags start transfer)
    (haround : ∀ log event, event.IsAround → keeps log → keeps (log ++ [event]))
    (hattempt : ∀ log, keeps log → keeps (attempt log).2)
    (hfirst : keeps (attempt start.log).2) : keeps transfer.log := by
  obtain ⟨fuel, hfuel⟩ := hends
  cases fuel with
  | zero => cases hfuel
  | succ fuel =>
      have hstart := @transferTurn_invariant attempt mqFlags keeps haround start hfirst
      simp only [loop] at hfuel
      cases hturn : transferTurn attempt mqFlags start with
      | exit transfer' =>
          simp only [hturn] at hfuel
          cases hfuel
          exact hstart.2 _ hturn
      | next middle =>
          simp only [hturn] at hfuel
          refine @loop_invariant _ _ _ _ (fun transfer => keeps transfer.log)
            (fun transfer => keeps transfer.log) ?_ ?_ _ (hstart.1 _ hturn) _ _ hfuel
          · intro transfer transfer' hkeeps hturn
            exact (transferTurn_invariant haround (hattempt _ hkeeps)).1 _
              (Outcome.done.inj hturn)
          · intro transfer transfer' hkeeps hturn
            exact (transferTurn_invariant haround (hattempt _ hkeeps)).2 _
              (Outcome.done.inj hturn)

/-- With the mutex, a transfer returns exactly what its loop ends with, unless the mutex is
not released. -/
theorem returns_transferWithin_of_lock (hlock : world.pthread .mutexLock = success) (mqdes : ℕ)
    {result : StatusCode × List Event} :
    Returns (transferWithin world attempt mqFlags mqdes ticks log) result ↔
      ∃ transfer, TransferEnds attempt mqFlags
          ⟨success, ticks, log ++ [.pthread .mutexLock]⟩ transfer ∧
        (if world.pthread .mutexUnlock ≠ success then errorDeviceBusy else transfer.err,
          transfer.log ++ [.pthread .mutexUnlock]) = result := by
  have hcode : transferWithin world attempt mqFlags mqdes ticks log = fun fuel =>
      loop (ε := Fault) (fun transfer => .done (transferTurn attempt mqFlags transfer)) fuel
        ⟨success, ticks, log ++ [.pthread .mutexLock]⟩ >>= fun transfer =>
          .done (if world.pthread .mutexUnlock ≠ success then errorDeviceBusy else transfer.err,
            transfer.log ++ [.pthread .mutexUnlock]) := by
    funext fuel
    rw [transferWithin_eq, if_neg (not_not.mpr hlock)]
    split_ifs <;> rfl
  rw [hcode]
  exact returns_bind_done_iff

/-- A transfer keeps what its attempts keep, whatever the world answers. -/
theorem transferWithin_invariant {keeps : List Event → Prop}
    (haround : ∀ log event, event.IsAround → keeps log → keeps (log ++ [event]))
    (hattempt : ∀ log, keeps log → keeps (attempt log).2) (hlog : keeps log)
    {result : StatusCode × List Event}
    (hresult : Returns (transferWithin world attempt mqFlags mqdes ticks log) result) :
    keeps result.2 := by
  have hlocked : keeps (log ++ [.pthread .mutexLock]) := haround _ _ (.inl rfl) hlog
  by_cases hlock : world.pthread .mutexLock = success
  · obtain ⟨transfer, hends, rfl⟩ := (returns_transferWithin_of_lock hlock mqdes).mp hresult
    exact haround _ _ (.inr (.inl rfl)) (hends.invariant haround hattempt (hattempt _ hlocked))
  · obtain ⟨fuel, hfuel⟩ := hresult
    rw [transferWithin_eq, if_pos hlock] at hfuel
    cases hfuel
    exact hlocked

/-- With a mutex that serves, a transfer returns exactly what its loop ends with. -/
theorem returns_transferWithin_iff (hmutex : MutexServes world) (mqdes : ℕ)
    {result : StatusCode × List Event} :
    Returns (transferWithin world attempt mqFlags mqdes ticks log) result ↔
      ∃ transfer, TransferEnds attempt mqFlags
          ⟨success, ticks, log ++ [.pthread .mutexLock]⟩ transfer ∧
        (transfer.err, transfer.log ++ [.pthread .mutexUnlock]) = result := by
  rw [returns_transferWithin_of_lock hmutex.locks]
  simp only [if_neg (not_not.mpr hmutex.unlocks)]

theorem TransferEnds.unique {start transfer transfer' : TimedTransfer}
    (hends : TransferEnds attempt mqFlags start transfer)
    (hends' : TransferEnds attempt mqFlags start transfer') : transfer = transfer' :=
  Returns.unique (fuelMono_loop _ _) hends hends'

/-- A loop that has ended decides what its transfer says. -/
theorem saysTransfer_iff_of_ends (hmutex : MutexServes world) {served : Prop}
    {otherwise : StatusCode} {transfer : TimedTransfer}
    (hends : TransferEnds attempt mqFlags ⟨success, ticks, log ++ [.pthread .mutexLock]⟩ transfer)
    (hspent : Spent served otherwise (log ++ [.pthread .mutexLock]) transfer)
    (hlog : log.countP Event.transfers = 0) :
    (∃ result, Returns (transferWithin world attempt mqFlags mqdes ticks log) result ∧
      SaysTransfer isError result) ↔ served ∨ otherwise ≠ success ∧ isError otherwise := by
  have hstart : (log ++ [Event.pthread .mutexLock]).countP Event.transfers = 0 := by
    simp [hlog, Event.transfers]
  rw [← saysTransfer_iff_of_spent hspent hstart]
  constructor
  · rintro ⟨result, hresult, hreports⟩
    obtain ⟨transfer', hends', rfl⟩ := (returns_transferWithin_iff hmutex mqdes).mp hresult
    rwa [hends'.unique hends] at hreports
  · intro hreports
    exact ⟨_, (returns_transferWithin_iff hmutex mqdes).mpr ⟨transfer, hends, rfl⟩, hreports⟩

/-- When a transfer says what its super calls came to. -/
theorem saysTransfer_transferWithin_iff (hmutex : MutexServes world)
    (hattempt : Attempts attempt hit) (hasked : asked log = 0)
    (hlog : log.countP Event.transfers = 0) :
    (∃ result, Returns (transferWithin world attempt mqFlags mqdes ticks log) result ∧
      SaysTransfer isError result) ↔
      (∃ k < attemptLimit mqFlags ticks, hit k) ∨
        RecordsTimeout mqFlags ticks ∧ isError errorNetConTimeout := by
  have hstart : asked (log ++ [Event.pthread .mutexLock]) = 0 := by
    rw [asked_append, hasked]
    rfl
  obtain ⟨transfer, hends, hspent⟩ :=
    exists_spent hattempt mqFlags ticks (log ++ [.pthread .mutexLock])
  simp only [hstart, Nat.zero_add] at hspent
  rw [saysTransfer_iff_of_ends hmutex hends hspent hlog]
  by_cases htimeout : RecordsTimeout mqFlags ticks
  · rw [if_pos htimeout, and_iff_right (show errorNetConTimeout ≠ success by decide),
      and_iff_right htimeout]
  · simp [htimeout]

end Result

section Calls

variable {config : MqConfig} {world : World} {sections : Sections}
  {mqdes msgPtr msgLen ticks : ℕ} {abstime : Option Timespec}

theorem mqTimedsend_eq (hqueue : mqdes ≠ 0) (hptr : msgPtr ≠ 0) (hlen : msgLen ≠ 0)
    (hticks : absTicks config.tickWidth abstime = .ok ticks) (msgPrio : ℕ) :
    mqTimedsend config world sections mqdes msgPtr msgLen msgPrio abstime =
      transferWithin world (sQueueWrite world (sections mqdes) msgPtr msgLen msgPrio)
        (sections mqdes).attr.mqFlags mqdes ticks [] := by
  funext fuel
  simp only [mqTimedsend, hqueue, hptr, hlen, or_self, if_false, hticks]

theorem mqTimedreceive_eq (hqueue : mqdes ≠ 0) (hptr : msgPtr ≠ 0) (hlen : msgLen ≠ 0)
    {msgPrio : ℕ} (hprio : msgPrio = 0 → config.nullMapped = true)
    (hticks : absTicks config.tickWidth abstime = .ok ticks) :
    mqTimedreceive config world sections mqdes msgPtr msgLen msgPrio abstime =
      transferWithin world (sQueueRead world (sections mqdes) msgPtr msgLen)
        (sections mqdes).attr.mqFlags mqdes ticks [.reset msgPrio] := by
  have hstored : ¬ (msgPrio = 0 ∧ config.nullMapped = false) := fun hnull =>
    Bool.false_ne_true (hnull.2.symm.trans (hprio hnull.1))
  funext fuel
  simp only [mqTimedreceive, hqueue, hptr, hlen, hstored, or_self, if_false, hticks]

/-- When `mq_timedsend` and `mq_timedreceive` say what their super calls came to: with
`IsNegative` only if the message was transferred, since no error number is negative, and
with `IsErrorCode` also if the branch was reached that records the timeout. -/
theorem saysTransfer_iff (hmutex : MutexServes world) (hqueue : mqdes ≠ 0)
    (hptr : msgPtr ≠ 0) (hlen : msgLen ≠ 0)
    (hticks : absTicks config.tickWidth abstime = .ok ticks) (msgPrio : ℕ)
    {prioPtr : ℕ} (hprio : prioPtr ≠ 0) :
    ((∃ result, Returns (mqTimedsend config world sections mqdes msgPtr msgLen msgPrio abstime)
        result ∧ SaysTransfer IsNegative result) ↔
      ∃ k < attemptLimit (sections mqdes).attr.mqFlags ticks,
        Sends world (sections mqdes).attr.mqFlags k) ∧
    ((∃ result, Returns (mqTimedsend config world sections mqdes msgPtr msgLen msgPrio abstime)
        result ∧ SaysTransfer IsErrorCode result) ↔
      (∃ k < attemptLimit (sections mqdes).attr.mqFlags ticks,
        Sends world (sections mqdes).attr.mqFlags k) ∨
          RecordsTimeout (sections mqdes).attr.mqFlags ticks) ∧
    ((∃ result, Returns (mqTimedreceive config world sections mqdes msgPtr msgLen prioPtr abstime)
        result ∧ SaysTransfer IsNegative result) ↔
      ∃ k < attemptLimit (sections mqdes).attr.mqFlags ticks,
        Receives world (sections mqdes).attr.mqFlags k) ∧
    ((∃ result, Returns (mqTimedreceive config world sections mqdes msgPtr msgLen prioPtr abstime)
        result ∧ SaysTransfer IsErrorCode result) ↔
      (∃ k < attemptLimit (sections mqdes).attr.mqFlags ticks,
        Receives world (sections mqdes).attr.mqFlags k) ∨
          RecordsTimeout (sections mqdes).attr.mqFlags ticks) := by
  have hnegative : ¬ IsNegative errorNetConTimeout := Int.not_lt.mpr (Int.natCast_nonneg _)
  have herror : IsErrorCode errorNetConTimeout := show errorNetConTimeout ≠ success by decide
  rw [mqTimedsend_eq hqueue hptr hlen hticks, mqTimedreceive_eq hqueue hptr hlen
    (fun hnull => absurd hnull hprio) hticks]
  have hsend := attempts_sends world (sections mqdes) msgPtr msgLen msgPrio
  have hreceive := attempts_receives world (sections mqdes) msgPtr msgLen
  refine ⟨?_, ?_, ?_, ?_⟩
  · rw [saysTransfer_transferWithin_iff hmutex hsend rfl rfl]
    exact or_iff_left fun hor => hnegative hor.2
  · rw [saysTransfer_transferWithin_iff hmutex hsend rfl rfl, and_iff_left herror]
  · rw [saysTransfer_transferWithin_iff hmutex hreceive rfl rfl]
    exact or_iff_left fun hor => hnegative hor.2
  · rw [saysTransfer_transferWithin_iff hmutex hreceive rfl rfl, and_iff_left herror]

end Calls

/-- A queue open for reading and writing. -/
def readWriteQueue : MqdSection := ⟨1, [], ⟨oRdwr, mqMaxMessages, mqMaxSize, 0⟩, 0x1000⟩

/-- Two milliseconds are two ticks, and the second super call takes the message. -/
theorem saysTransfer_two_ticks :
    ∃ result, Returns (mqTimedsend ⟨32, true⟩
        ⟨fun _ => success, fun k => ⟨0, 0, if k = 1 then success else errorDeviceBusy⟩⟩
        (fun _ => readWriteQueue) 0x2000 0x3000 5 0 (some ⟨0, 2000000⟩)) result ∧
      SaysTransfer IsNegative result := by
  refine (saysTransfer_iff ⟨rfl, rfl⟩ ?_ ?_ ?_ (show _ = Except.ok 2 by decide) 0
    (show 1 ≠ 0 by decide)).1.mpr ⟨1, by decide, by decide, rfl⟩
  all_goals decide

/-- One millisecond is one tick: the only super call is refused, and the send returns
success. -/
theorem not_saysTransfer_one_tick :
    absTicks 32 (some ⟨0, 1000000⟩) = .ok 1 ∧
      Returns (mqTimedsend ⟨32, true⟩ ⟨fun _ => success, fun _ => ⟨0, 0, errorDeviceBusy⟩⟩
          (fun _ => readWriteQueue) 0x2000 0x3000 5 0 (some ⟨0, 1000000⟩))
        (success, [.pthread .mutexLock, .memcpy 0x1000 0x3000 5,
          .superCall (.mqSend 1 5 0) errorDeviceBusy, .delay 1, .pthread .mutexUnlock]) ∧
      ∀ isError, ¬ SaysTransfer isError (success, [.pthread .mutexLock, .memcpy 0x1000 0x3000 5,
          .superCall (.mqSend 1 5 0) errorDeviceBusy, .delay 1, .pthread .mutexUnlock]) := by
  refine ⟨by decide, ⟨1, by decide⟩, ?_⟩
  intro isError hreports
  exact absurd (hreports.zero_iff.mp rfl) (by decide)

end Cyancore.Posix
