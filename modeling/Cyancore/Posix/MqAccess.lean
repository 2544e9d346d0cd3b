/-
# What a transfer checks

A queue is opened for reading, for writing or for both, and has a message size.  The helper
under `mq_send` looks for the bit that allows reading and the one under `mq_receive` for the
bit that allows writing, so that only a queue with both or with neither is used as it was
opened.  The length of a message is checked for zero and not against the message size.

Whether a call gets as far as its loop depends on its arguments and on the mutex; what it
does there, on the flags and on the answers of the kernel.
-/

import Cyancore.Posix.MqTransfer

namespace Cyancore.Posix

open Cyancore.Math StatusCode

/-! ## Calls -/

/-- Whether a message goes to the kernel or comes from it. -/
inductive Direction
  | send
  | receive
  deriving DecidableEq, Repr

/-- A call of `mq_send`, `mq_receive`, `mq_timedsend` or `mq_timedreceive`.  The first two have
no `timeout`, and the other two may be given a null pointer for theirs. -/
structure TransferCall where
  direction : Direction
  msgPtr : ℕ
  msgLen : ℕ
  msgPrio : ℕ
  timeout : Option (Option Timespec)
  deriving DecidableEq, Repr

namespace Direction

/-- The bit of the flags that allows a direction. -/
def accessBit : Direction → BitVec 32
  | .send => oWronly
  | .receive => oRdonly

/-- The bit that the code looks for. -/
def testedBit : Direction → BitVec 32
  | .send => oRdonly
  | .receive => oWronly

/-- The event is the super call of the direction. -/
def Asks : Direction → Event → Prop
  | .send, .superCall (.mqSend _ _ _) _ => True
  | .receive, .superCall (.mqReceive _ _) _ => True
  | _, _ => False

/-- Whether attempt `k` moves a message. -/
def Serves (world : World) (mqFlags : BitVec 32) : Direction → ℕ → Prop
  | .send => Sends world mqFlags
  | .receive => Receives world mqFlags

end Direction

namespace TransferCall

/-- `abstime`, which is null for a call without a timeout. -/
def abstime (call : TransferCall) : Option Timespec := call.timeout.join

def run (config : MqConfig) (world : World) (sections : Sections) (mqdes : ℕ)
    (call : TransferCall) (fuel : ℕ) : Run (StatusCode × List Event) :=
  match call.direction, call.timeout with
  | .send, none =>
      mqSend config world sections mqdes call.msgPtr call.msgLen call.msgPrio fuel
  | .receive, none =>
      mqReceive config world sections mqdes call.msgPtr call.msgLen call.msgPrio fuel
  | .send, some abstime =>
      mqTimedsend config world sections mqdes call.msgPtr call.msgLen call.msgPrio abstime fuel
  | .receive, some abstime =>
      mqTimedreceive config world sections mqdes call.msgPtr call.msgLen call.msgPrio abstime fuel

/-- The call gets as far as its loop, with so many ticks to spend. -/
structure Starts (config : MqConfig) (world : World) (mqdes : ℕ) (call : TransferCall)
    (ticks : ℕ) : Prop where
  queue : mqdes ≠ 0
  ptr : call.msgPtr ≠ 0
  len : call.msgLen ≠ 0
  prio : call.direction = .receive → call.msgPrio = 0 → config.nullMapped = true
  time : absTicks config.tickWidth call.abstime = .ok ticks
  lock : world.pthread .mutexLock = success

/-- `s_queue_write` or `s_queue_read`. -/
def attempt (world : World) (queue : MqdSection) (call : TransferCall) :
    List Event → StatusCode × List Event :=
  match call.direction with
  | .send => sQueueWrite world queue call.msgPtr call.msgLen call.msgPrio
  | .receive => sQueueRead world queue call.msgPtr call.msgLen

/-- What a call does before it takes the mutex. -/
def before (call : TransferCall) : List Event :=
  match call.direction with
  | .send => []
  | .receive => [.reset call.msgPrio]

/-- The copy between the message and the kernel's buffer. -/
def copy (queue : MqdSection) (call : TransferCall) : Event :=
  match call.direction with
  | .send => .memcpy queue.kernelBuff call.msgPtr call.msgLen
  | .receive => .memcpy call.msgPtr queue.kernelBuff call.msgLen

end TransferCall

/-- The event neither copies nor asks the kernel for anything. -/
def Event.Idle : Event → Prop
  | .memcpy _ _ _ => False
  | .superCall _ _ => False
  | _ => True

/-! ## What a call comes to -/

section Run

variable {config : MqConfig} {world : World} {sections : Sections} {queue : MqdSection}
  {mqdes ticks : ℕ} {call : TransferCall} {log : List Event} {event : Event}
  {result : StatusCode × List Event}

/-- With or without a timeout, a call is one of the timed ones. -/
theorem run_eq (config : MqConfig) (world : World) (sections : Sections) (mqdes : ℕ)
    (call : TransferCall) :
    call.run config world sections mqdes =
      match call.direction with
      | .send => mqTimedsend config world sections mqdes call.msgPtr call.msgLen call.msgPrio
          call.abstime
      | .receive => mqTimedreceive config world sections mqdes call.msgPtr call.msgLen
          call.msgPrio call.abstime := by
  obtain ⟨direction, msgPtr, msgLen, msgPrio, timeout⟩ := call
  cases direction <;> cases timeout <;> rfl

theorem run_of_starts (hstarts : call.Starts config world mqdes ticks) :
    call.run config world sections mqdes =
      transferWithin world (call.attempt world (sections mqdes)) (sections mqdes).attr.mqFlags
        mqdes ticks call.before := by
  have hprio := hstarts.prio
  rw [run_eq]
  unfold TransferCall.attempt TransferCall.before
  cases hdirection : call.direction with
  | send => exact mqTimedsend_eq hstarts.queue hstarts.ptr hstarts.len hstarts.time _
  | receive =>
      exact mqTimedreceive_eq hstarts.queue hstarts.ptr hstarts.len (hprio hdirection)
        hstarts.time

theorem errorFuncInvalArg_ne : errorFuncInvalArg ≠ success := by decide

theorem error_of_absTicks {tickWidth : ℕ} {abstime : Option Timespec} {status : StatusCode}
    (hticks : absTicks tickWidth abstime = .error status) : status = errorFuncInvalArg := by
  cases abstime with
  | none => cases hticks
  | some abstime =>
      simp only [absTicks] at hticks
      split at hticks
      · split_ifs at hticks
        exact (Except.error.inj hticks).symm
      · exact (Except.error.inj hticks).symm

/-- What a call has done that did not get as far as its loop. -/
def Rejected (result : StatusCode × List Event) : Prop :=
  result.1 ≠ success ∧ ∀ event ∈ result.2, event.Idle

theorem rejected_of_no_lock (hlock : world.pthread .mutexLock ≠ success)
    (hlog : ∀ event ∈ log, event.Idle) {attempt : List Event → StatusCode × List Event}
    {mqFlags : BitVec 32} {fuel : ℕ}
    (hresult : transferWithin world attempt mqFlags mqdes ticks log fuel = .done result) :
    Rejected result := by
  rw [transferWithin_eq, if_pos hlock] at hresult
  cases hresult
  refine ⟨show errorDeviceBusy ≠ success by decide, List.forall_mem_append.mpr ⟨hlog, ?_⟩⟩
  exact List.forall_mem_singleton.mpr trivial

/-- A call that does not get as far as its loop has failed without touching a message. -/
theorem rejected_of_not_starts (hstarts : ∀ ticks, ¬ call.Starts config world mqdes ticks)
    (hresult : Returns (call.run config world sections mqdes) result) : Rejected result := by
  obtain ⟨fuel, hfuel⟩ := hresult
  have hlock : ∀ ticks, mqdes ≠ 0 → call.msgPtr ≠ 0 → call.msgLen ≠ 0 →
      (call.direction = .receive → call.msgPrio = 0 → config.nullMapped = true) →
      absTicks config.tickWidth call.abstime = .ok ticks →
      world.pthread .mutexLock ≠ success :=
    fun ticks hqueue hptr hlen hprio htime hlock =>
      hstarts ticks ⟨hqueue, hptr, hlen, hprio, htime, hlock⟩
  have hnone : ∀ event ∈ ([] : List Event), event.Idle := List.forall_mem_nil _
  have hreset : ∀ event ∈ [Event.reset call.msgPrio], event.Idle :=
    List.forall_mem_singleton.mpr trivial
  rw [run_eq] at hfuel
  cases hdirection : call.direction with
  | send =>
      simp only [hdirection] at hfuel
      unfold mqTimedsend at hfuel
      split_ifs at hfuel with hargs
      · cases hfuel
        exact ⟨errorFuncInvalArg_ne, hnone⟩
      · simp only [not_or] at hargs
        split at hfuel
        case _ status hticks =>
          cases hfuel
          rw [error_of_absTicks hticks]
          exact ⟨errorFuncInvalArg_ne, hnone⟩
        case _ ticks hticks =>
          refine rejected_of_no_lock (hlock ticks hargs.1 hargs.2.1 hargs.2.2 ?_ hticks) hnone hfuel
          exact fun hreceive => absurd (hdirection.symm.trans hreceive) (by decide)
  | receive =>
      simp only [hdirection] at hfuel
      unfold mqTimedreceive at hfuel
      split_ifs at hfuel with hargs hprio
      · cases hfuel
        exact ⟨errorFuncInvalArg_ne, hnone⟩
      · simp only [not_or] at hargs
        split at hfuel
        case _ status hticks =>
          cases hfuel
          rw [error_of_absTicks hticks]
          exact ⟨errorFuncInvalArg_ne, hreset⟩
        case _ ticks hticks =>
          refine rejected_of_no_lock (hlock ticks hargs.1 hargs.2.1 hargs.2.2 ?_ hticks) hreset
            hfuel
          intro _ hnull
          by_contra hmapped
          exact hprio ⟨hnull, Bool.not_eq_true _ ▸ hmapped⟩

/-- A send always returns. -/
theorem exists_returns_of_not_starts (hstarts : ∀ ticks, ¬ call.Starts config world mqdes ticks)
    (hsend : call.direction = .send) :
    ∃ result, Returns (call.run config world sections mqdes) result := by
  rw [run_eq]
  simp only [hsend]
  by_cases hargs : mqdes = 0 ∨ call.msgPtr = 0 ∨ call.msgLen = 0
  · exact ⟨(errorFuncInvalArg, []), 0, if_pos hargs⟩
  cases hticks : absTicks config.tickWidth call.abstime with
  | error status =>
      refine ⟨(status, []), 0, ?_⟩
      simp only [mqTimedsend, if_neg hargs, hticks]
  | ok ticks =>
      simp only [not_or] at hargs
      have hlock : world.pthread .mutexLock ≠ success := by
        intro hlock
        refine hstarts ticks ⟨hargs.1, hargs.2.1, hargs.2.2, ?_, hticks, hlock⟩
        exact fun hreceive => absurd (hsend.symm.trans hreceive) (by decide)
      rw [mqTimedsend_eq hargs.1 hargs.2.1 hargs.2.2 hticks]
      refine ⟨(errorDeviceBusy, [] ++ [.pthread .mutexLock]), 0, ?_⟩
      rw [transferWithin_eq, if_pos hlock]

/-! ## What its attempts do -/

theorem attempts_attempt (world : World) (queue : MqdSection) (call : TransferCall) :
    Attempts (call.attempt world queue) (call.direction.Serves world queue.attr.mqFlags) := by
  unfold TransferCall.attempt Direction.Serves
  cases call.direction with
  | send => exact attempts_sends world queue _ _ _
  | receive => exact attempts_receives world queue _ _

theorem attempt_of_refused (hflags : queue.attr.mqFlags &&& call.direction.testedBit = 0)
    (log : List Event) : call.attempt world queue log = (errorFuncInval, log) := by
  unfold TransferCall.attempt
  cases hdirection : call.direction with
  | send =>
      rw [hdirection] at hflags
      exact sQueueWrite_of_refused hflags log
  | receive =>
      rw [hdirection] at hflags
      exact sQueueRead_of_refused hflags log

/-- An attempt that is not refused makes the super call of its direction. -/
theorem asks_of_access (hflags : queue.attr.mqFlags &&& call.direction.testedBit ≠ 0)
    (log : List Event) :
    ∃ event ∈ (call.attempt world queue log).2, call.direction.Asks event := by
  unfold TransferCall.attempt
  cases hdirection : call.direction with
  | send =>
      rw [hdirection] at hflags
      simp only [sQueueWrite_of_access hflags]
      exact ⟨.superCall _ _, List.mem_append_right _ (.tail _ (.head _)), trivial⟩
  | receive =>
      rw [hdirection] at hflags
      simp only [sQueueRead_of_access hflags]
      split
      · exact ⟨.superCall _ _, List.mem_append_right _ (.head _), trivial⟩
      · exact ⟨.superCall _ _, List.mem_append_right _ (.head _), trivial⟩

/-- Whatever a call does besides is its copy or its super call, and only if the bit is set that
the code looks for. -/
def Makes (queue : MqdSection) (call : TransferCall) (event : Event) : Prop :=
  event.Idle ∨ queue.attr.mqFlags &&& call.direction.testedBit ≠ 0 ∧
    (event = call.copy queue ∨ call.direction.Asks event)

theorem makes_attempt (hlog : ∀ event ∈ log, Makes queue call event) :
    ∀ event ∈ (call.attempt world queue log).2, Makes queue call event := by
  by_cases hflags : queue.attr.mqFlags &&& call.direction.testedBit = 0
  · rwa [attempt_of_refused hflags]
  have hcopy : Makes queue call (call.copy queue) := .inr ⟨hflags, .inl rfl⟩
  have hask : ∀ event, call.direction.Asks event → Makes queue call event :=
    fun event hasks => .inr ⟨hflags, .inr hasks⟩
  unfold TransferCall.attempt
  unfold TransferCall.copy at hcopy
  cases hdirection : call.direction with
  | send =>
      rw [hdirection] at hflags hask
      rw [hdirection] at hcopy
      simp only [sQueueWrite_of_access hflags, List.forall_mem_append, List.forall_mem_cons]
      exact ⟨hlog, hcopy, hask _ trivial, List.forall_mem_nil _⟩
  | receive =>
      rw [hdirection] at hflags hask
      rw [hdirection] at hcopy
      simp only [sQueueRead_of_access hflags]
      split
      · simp only [List.forall_mem_append, List.forall_mem_cons]
        exact ⟨hlog, hask _ trivial, hcopy, List.forall_mem_nil _⟩
      · simp only [List.forall_mem_append, List.forall_mem_cons]
        exact ⟨hlog, hask _ trivial, List.forall_mem_nil _⟩

/-- All that a call does. -/
theorem makes_of_returns (hresult : Returns (call.run config world sections mqdes) result) :
    ∀ event ∈ result.2, Makes (sections mqdes) call event := by
  by_cases hstarts : ∃ ticks, call.Starts config world mqdes ticks
  · obtain ⟨_, hstarts⟩ := hstarts
    rw [run_of_starts hstarts] at hresult
    apply @transferWithin_invariant _ _ _ _ _ _
      (fun log => ∀ event ∈ log, Makes (sections mqdes) call event) _ _ _ _ hresult
    · intro log event haround hlog
      obtain rfl | rfl | rfl := haround <;>
        exact List.forall_mem_append.mpr ⟨hlog, List.forall_mem_singleton.mpr (.inl trivial)⟩
    · exact fun log hlog => makes_attempt hlog
    · unfold TransferCall.before
      cases call.direction with
      | send => exact List.forall_mem_nil _
      | receive => exact List.forall_mem_singleton.mpr (.inl trivial)
  · have hrejected := rejected_of_not_starts (not_exists.mp hstarts) hresult
    exact fun event hevent => .inl (hrejected.2 event hevent)

/-- The loop of a call ends, and spends what it may. -/
theorem exists_spent_call (world : World) (queue : MqdSection) (call : TransferCall) (ticks : ℕ) :
    ∃ transfer, TransferEnds (call.attempt world queue) queue.attr.mqFlags
        ⟨success, ticks, call.before ++ [.pthread .mutexLock]⟩ transfer ∧
      Spent (∃ k < attemptLimit queue.attr.mqFlags ticks,
          call.direction.Serves world queue.attr.mqFlags k)
        (if RecordsTimeout queue.attr.mqFlags ticks then errorNetConTimeout else success)
        (call.before ++ [.pthread .mutexLock]) transfer := by
  have hasked : asked (call.before ++ [.pthread .mutexLock]) = 0 := by
    unfold TransferCall.before
    cases call.direction <;> rfl
  have hspent := exists_spent (attempts_attempt world queue call) queue.attr.mqFlags ticks
    (call.before ++ [.pthread .mutexLock])
  simpa only [hasked, Nat.zero_add] using hspent

/-- What a call returns that gets as far as its loop. -/
theorem returns_run_iff (hstarts : call.Starts config world mqdes ticks) :
    Returns (call.run config world sections mqdes) result ↔
      ∃ transfer, TransferEnds (call.attempt world (sections mqdes))
          (sections mqdes).attr.mqFlags
          ⟨success, ticks, call.before ++ [.pthread .mutexLock]⟩ transfer ∧
        (if world.pthread .mutexUnlock ≠ success then errorDeviceBusy else transfer.err,
          transfer.log ++ [.pthread .mutexUnlock]) = result := by
  rw [run_of_starts hstarts]
  exact returns_transferWithin_of_lock hstarts.lock mqdes

/-- All that such a call returns is what its loop has spent. -/
theorem spent_of_returns (hstarts : call.Starts config world mqdes ticks)
    (hresult : Returns (call.run config world sections mqdes) result) :
    ∃ transfer : TimedTransfer,
      (if world.pthread .mutexUnlock ≠ success then errorDeviceBusy else transfer.err,
        transfer.log ++ [.pthread .mutexUnlock]) = result ∧
      Spent (∃ k < attemptLimit (sections mqdes).attr.mqFlags ticks,
          call.direction.Serves world (sections mqdes).attr.mqFlags k)
        (if RecordsTimeout (sections mqdes).attr.mqFlags ticks then errorNetConTimeout
          else success)
        (call.before ++ [.pthread .mutexLock]) transfer := by
  obtain ⟨transfer, hends, hspent⟩ := exists_spent_call world (sections mqdes) call ticks
  obtain ⟨transfer', hends', hresult'⟩ := (returns_run_iff hstarts).mp hresult
  obtain rfl := hends.unique hends'
  exact ⟨transfer, hresult', hspent⟩

/-- What its first attempt brings about and stays in the log is in the log at the end. -/
theorem mem_of_starts (hstarts : call.Starts config world mqdes ticks) {holds : Event → Prop}
    (hfirst : ∀ log, ∃ event ∈ (call.attempt world (sections mqdes) log).2, holds event)
    (hresult : Returns (call.run config world sections mqdes) result) :
    ∃ event ∈ result.2, holds event := by
  obtain ⟨transfer, hends, rfl⟩ := (returns_run_iff hstarts).mp hresult
  have haround : ∀ log event, event.IsAround → (∃ event ∈ log, holds event) →
      ∃ event' ∈ log ++ [event], holds event' := by
    rintro log event - ⟨event', hevent, hholds⟩
    exact ⟨event', List.mem_append_left _ hevent, hholds⟩
  apply haround _ _ (.inr (.inl rfl))
  exact @TransferEnds.invariant _ _ (fun log => ∃ event ∈ log, holds event) _ _ hends haround
    (fun log _ => hfirst log) (hfirst _)

/-! ## The access mode -/

/-- The kernel's buffer is written, or a message sent, only on a queue open for writing, and a
message received only on one open for reading. -/
def Permitted (queue : MqdSection) (event : Event) : Prop :=
  ((∃ src size, event = .memcpy queue.kernelBuff src size) →
    queue.attr.mqFlags &&& oWronly ≠ 0) ∧
  ∀ direction : Direction, direction.Asks event →
    queue.attr.mqFlags &&& direction.accessBit ≠ 0

/-- A call does what the flags permit and nothing else. -/
structure RespectsAccess (config : MqConfig) (world : World) (sections : Sections) (mqdes : ℕ)
    (call : TransferCall) : Prop where
  permitted : ∀ result, Returns (call.run config world sections mqdes) result →
    ∀ event ∈ result.2, Permitted (sections mqdes) event
  attempted : ∀ ticks, call.Starts config world mqdes ticks →
    (sections mqdes).attr.mqFlags &&& call.direction.accessBit ≠ 0 →
      ∃ result, Returns (call.run config world sections mqdes) result ∧
        ∃ event ∈ result.2, call.direction.Asks event

theorem Event.Idle.not_asks (hidle : event.Idle) (direction : Direction) :
    ¬ direction.Asks event := by
  intro hasks
  unfold Event.Idle at hidle
  unfold Direction.Asks at hasks
  split at hidle <;> simp_all

theorem Event.Idle.permitted (hidle : event.Idle) : Permitted queue event := by
  constructor
  · rintro ⟨src, size, rfl⟩
    exact hidle.elim
  · exact fun direction hasks => absurd hasks (hidle.not_asks direction)

/-- The two bits agree exactly if the bit that is looked for does with the one that allows the
direction. -/
theorem tested_iff_access_iff (mqFlags : BitVec 32) (direction : Direction) :
    (mqFlags &&& direction.testedBit ≠ 0 ↔ mqFlags &&& direction.accessBit ≠ 0) ↔
      (mqFlags &&& oRdonly ≠ 0 ↔ mqFlags &&& oWronly ≠ 0) := by
  cases direction with
  | send => exact Iff.rfl
  | receive => exact Iff.comm

theorem permitted_of_makes (hagree : queue.attr.mqFlags &&& oRdonly ≠ 0 ↔
      queue.attr.mqFlags &&& oWronly ≠ 0) (hmakes : Makes queue call event) :
    Permitted queue event := by
  cases hmakes with
  | inl hidle => exact hidle.permitted
  | inr hmakes =>
      have hboth : queue.attr.mqFlags &&& oRdonly ≠ 0 ∧ queue.attr.mqFlags &&& oWronly ≠ 0 := by
        have htested := hmakes.1
        cases hdirection : call.direction with
        | send =>
            rw [hdirection] at htested
            exact ⟨htested, hagree.mp htested⟩
        | receive =>
            rw [hdirection] at htested
            exact ⟨hagree.mpr htested, htested⟩
      refine ⟨fun _ => hboth.2, fun direction _ => ?_⟩
      cases direction with
      | send => exact hboth.2
      | receive => exact hboth.1

/-- A call does what the flags permit exactly if it is turned away before it looks, or the flags
contain both access bits or neither. -/
theorem respectsAccess_iff :
    RespectsAccess config world sections mqdes call ↔
      ∀ ticks, call.Starts config world mqdes ticks →
        ((sections mqdes).attr.mqFlags &&& oRdonly ≠ 0 ↔
          (sections mqdes).attr.mqFlags &&& oWronly ≠ 0) := by
  constructor
  · intro hrespects ticks hstarts
    rw [← tested_iff_access_iff _ call.direction]
    constructor
    · intro htested
      obtain ⟨transfer, hends, -⟩ := exists_spent_call world (sections mqdes) call ticks
      have hresult := (returns_run_iff hstarts).mpr ⟨transfer, hends, rfl⟩
      obtain ⟨event, hevent, hasks⟩ := mem_of_starts hstarts (asks_of_access htested) hresult
      exact (hrespects.permitted _ hresult event hevent).2 _ hasks
    · intro haccess
      obtain ⟨result, hresult, event, hevent, hasks⟩ :=
        hrespects.attempted ticks hstarts haccess
      cases makes_of_returns hresult event hevent with
      | inl hidle => exact absurd hasks (hidle.not_asks _)
      | inr hmakes => exact hmakes.1
  · intro hagree
    constructor
    · intro result hresult event hevent
      by_cases hstarts : ∃ ticks, call.Starts config world mqdes ticks
      · obtain ⟨ticks, hstarts⟩ := hstarts
        exact permitted_of_makes (hagree ticks hstarts) (makes_of_returns hresult event hevent)
      · have hrejected := rejected_of_not_starts (not_exists.mp hstarts) hresult
        exact (hrejected.2 event hevent).permitted
    · intro ticks hstarts haccess
      have htested := ((tested_iff_access_iff _ call.direction).mpr (hagree ticks hstarts)).mpr
        haccess
      obtain ⟨transfer, hends, -⟩ := exists_spent_call world (sections mqdes) call ticks
      have hresult := (returns_run_iff hstarts).mpr ⟨transfer, hends, rfl⟩
      exact ⟨_, hresult, mem_of_starts hstarts (asks_of_access htested) hresult⟩

/-- A queue open for reading only. -/
def readOnlyQueue : MqdSection := ⟨1, [], ⟨oRdonly, mqMaxMessages, mqMaxSize, 0⟩, 0x1000⟩

/-- A message is sent on it. -/
theorem not_respectsAccess :
    ¬ RespectsAccess ⟨32, true⟩ ⟨fun _ => success, fun _ => ⟨0, 0, success⟩⟩
      (fun _ => readOnlyQueue) 0x2000 ⟨.send, 0x3000, 5, 0, none⟩ := by
  intro hrespects
  have hsent : Returns (TransferCall.run ⟨32, true⟩ ⟨fun _ => success, fun _ => ⟨0, 0, success⟩⟩
      (fun _ => readOnlyQueue) 0x2000 ⟨.send, 0x3000, 5, 0, none⟩)
      (success, [.pthread .mutexLock, .memcpy 0x1000 0x3000 5,
        .superCall (.mqSend 1 5 0) success, .pthread .mutexUnlock]) := ⟨1, by decide⟩
  have hpermitted := hrespects.permitted _ hsent (.superCall (.mqSend 1 5 0) success) (by decide)
  exact absurd (hpermitted.2 .send trivial) (by decide)

/-! ## The message size -/

/-- The event reads or writes the byte at `address` of the kernel's buffer. -/
def Event.Touches (kernelBuff address : ℕ) : Event → Prop
  | .memcpy dest src size =>
      (dest = kernelBuff ∨ src = kernelBuff) ∧ kernelBuff ≤ address ∧ address < kernelBuff + size
  | _ => False

/-- A call stays inside the message size, and a send of more fails and copies nothing. -/
structure StaysInside (config : MqConfig) (world : World) (sections : Sections) (mqdes : ℕ)
    (call : TransferCall) : Prop where
  inside : ∀ result, Returns (call.run config world sections mqdes) result →
    ∀ event ∈ result.2, ∀ address, event.Touches (sections mqdes).kernelBuff address →
      (address : ℤ) < (sections mqdes).kernelBuff + (sections mqdes).attr.mqMsgsize.toInt
  refused : call.direction = .send → (sections mqdes).attr.mqMsgsize.toInt < call.msgLen →
    ∃ result, Returns (call.run config world sections mqdes) result ∧ result.1 ≠ success ∧
      ∀ event ∈ result.2, ∀ dest src size, event ≠ .memcpy dest src size

/-- With so many ticks, a message that is too long is neither copied nor reported as sent. -/
def NotMoved (world : World) (mqFlags : BitVec 32) (ticks : ℕ) : Direction → Prop
  | .send => mqFlags &&& oRdonly = 0 ∧
      (world.pthread .mutexUnlock ≠ success ∨ RecordsTimeout mqFlags ticks)
  | .receive => ∀ k < attemptLimit mqFlags ticks, ¬ Receives world mqFlags k

def Event.copies : Event → Bool
  | .memcpy _ _ _ => true
  | _ => false

theorem Event.Idle.not_copies (hidle : event.Idle) : ¬ event.copies := by
  unfold Event.Idle at hidle
  split at hidle <;> simp_all [Event.copies]

theorem Event.Idle.not_transfers (hidle : event.Idle) : ¬ event.transfers := by
  unfold Event.Idle at hidle
  split at hidle <;> simp_all [Event.transfers]

/-- A receive copies as often as the kernel hands it a message. -/
theorem copies_of_receive (hreceive : call.direction = .receive)
    (hresult : Returns (call.run config world sections mqdes) result) :
    result.2.countP Event.copies = result.2.countP Event.transfers := by
  by_cases hstarts : ∃ ticks, call.Starts config world mqdes ticks
  · obtain ⟨ticks, hstarts⟩ := hstarts
    rw [run_of_starts hstarts] at hresult
    apply @transferWithin_invariant _ _ _ _ _ _
      (fun log => log.countP Event.copies = log.countP Event.transfers) _ _ _ _ hresult
    · intro log event haround hlog
      obtain rfl | rfl | rfl := haround <;> simpa [Event.copies, Event.transfers] using hlog
    · intro log hlog
      by_cases hflags : (sections mqdes).attr.mqFlags &&& call.direction.testedBit = 0
      · rwa [attempt_of_refused hflags]
      · rw [hreceive] at hflags
        simp only [TransferCall.attempt, hreceive, sQueueRead_of_access hflags]
        split_ifs with hkernel <;> simp [hlog, hkernel, Event.copies, Event.transfers]
    · simp only [TransferCall.before, hreceive]
      rfl
  · have hidle := (rejected_of_not_starts (not_exists.mp hstarts) hresult).2
    rw [List.countP_eq_zero.mpr fun event hevent => (hidle event hevent).not_copies,
      List.countP_eq_zero.mpr fun event hevent => (hidle event hevent).not_transfers]

/-- The copy of a message that is too long goes beyond the message size. -/
theorem StaysInside.not_copied (hinside : StaysInside config world sections mqdes call)
    (hlong : (sections mqdes).attr.mqMsgsize.toInt < call.msgLen)
    (hstarts : call.Starts config world mqdes ticks)
    (hresult : Returns (call.run config world sections mqdes) result) :
    call.copy (sections mqdes) ∉ result.2 := by
  intro hcopy
  have hlen := hstarts.len
  have htouches : (call.copy (sections mqdes)).Touches (sections mqdes).kernelBuff
      ((sections mqdes).kernelBuff + (call.msgLen - 1)) := by
    unfold TransferCall.copy
    cases call.direction with
    | send => exact ⟨.inl rfl, by omega, by omega⟩
    | receive => exact ⟨.inr rfl, by omega, by omega⟩
  have hlt := hinside.inside result hresult _ hcopy _ htouches
  omega

/-- With the bit that `s_queue_write` looks for, a send copies. -/
theorem copied_of_send (hsend : call.direction = .send)
    (hflags : (sections mqdes).attr.mqFlags &&& oRdonly ≠ 0)
    (hstarts : call.Starts config world mqdes ticks)
    (hresult : Returns (call.run config world sections mqdes) result) :
    call.copy (sections mqdes) ∈ result.2 := by
  have hfirst : ∀ log, ∃ event ∈ (call.attempt world (sections mqdes) log).2,
      event = call.copy (sections mqdes) := by
    intro log
    refine ⟨_, ?_, rfl⟩
    simp only [TransferCall.attempt, TransferCall.copy, hsend, sQueueWrite_of_access hflags]
    exact List.mem_append_right _ (.head _)
  obtain ⟨event, hevent, rfl⟩ := mem_of_starts hstarts hfirst hresult
  exact hevent

/-- A receive copies its message if the kernel hands it one in time. -/
theorem copies_iff_of_receive (hreceive : call.direction = .receive)
    (hstarts : call.Starts config world mqdes ticks)
    (hresult : Returns (call.run config world sections mqdes) result) :
    (∃ event ∈ result.2, event.copies) ↔
      ∃ k < attemptLimit (sections mqdes).attr.mqFlags ticks,
        Receives world (sections mqdes).attr.mqFlags k := by
  have hcopies := copies_of_receive hreceive hresult
  obtain ⟨transfer, rfl, hspent⟩ := spent_of_returns hstarts hresult
  have hbefore : (call.before ++ [Event.pthread .mutexLock]).countP Event.transfers = 0 := by
    simp [TransferCall.before, hreceive, Event.transfers]
  have hafter : (transfer.log ++ [Event.pthread .mutexUnlock]).countP Event.transfers =
      transfer.log.countP Event.transfers := by
    simp [Event.transfers]
  rw [hreceive] at hspent
  rw [← List.countP_pos_iff, hcopies, hafter]
  constructor
  · intro hpos
    by_contra hnone
    rw [(hspent.miss hnone).2, hbefore] at hpos
    exact absurd hpos (Nat.lt_irrefl 0)
  · intro hserved
    rw [(hspent.hit hserved).2]
    exact Nat.succ_pos _

/-- All copies of a call are the one of its message. -/
theorem eq_copy_of_copies (hresult : Returns (call.run config world sections mqdes) result)
    (hevent : event ∈ result.2) (hcopies : event.copies) :
    event = call.copy (sections mqdes) ∧
      (sections mqdes).attr.mqFlags &&& call.direction.testedBit ≠ 0 := by
  cases makes_of_returns hresult event hevent with
  | inl hidle => exact absurd hcopies hidle.not_copies
  | inr hmakes =>
      refine ⟨hmakes.2.resolve_right fun hasks => ?_, hmakes.1⟩
      unfold Direction.Asks at hasks
      split at hasks <;> simp_all [Event.copies]

/-- A message that is not moved is not copied. -/
theorem not_copies_of_notMoved (hstarts : call.Starts config world mqdes ticks)
    (hmoved : NotMoved world (sections mqdes).attr.mqFlags ticks call.direction)
    (hresult : Returns (call.run config world sections mqdes) result) :
    ∀ event ∈ result.2, ¬ event.copies := by
  intro event hevent hcopies
  cases hdirection : call.direction with
  | send =>
      have htested := (eq_copy_of_copies hresult hevent hcopies).2
      rw [hdirection] at hmoved htested
      exact htested hmoved.1
  | receive =>
      rw [hdirection] at hmoved
      obtain ⟨k, hk, hreceives⟩ :=
        (copies_iff_of_receive hdirection hstarts hresult).mp ⟨event, hevent, hcopies⟩
      exact hmoved k hk hreceives

/-- A message that is moved is copied, or reported as sent. -/
theorem StaysInside.notMoved (hinside : StaysInside config world sections mqdes call)
    (hlong : (sections mqdes).attr.mqMsgsize.toInt < call.msgLen)
    (hstarts : call.Starts config world mqdes ticks) :
    NotMoved world (sections mqdes).attr.mqFlags ticks call.direction := by
  obtain ⟨transfer, hends, -⟩ := exists_spent_call world (sections mqdes) call ticks
  have hresult := (returns_run_iff hstarts).mpr ⟨transfer, hends, rfl⟩
  have hcopied := hinside.not_copied hlong hstarts hresult
  cases hdirection : call.direction with
  | send =>
      have hflags : (sections mqdes).attr.mqFlags &&& oRdonly = 0 :=
        not_not.mp fun hflags => hcopied (copied_of_send hdirection hflags hstarts hresult)
      refine ⟨hflags, ?_⟩
      obtain ⟨result, hresult', hfailed, -⟩ := hinside.refused hdirection hlong
      obtain ⟨transfer', rfl, hspent⟩ := spent_of_returns hstarts hresult'
      rw [hdirection] at hspent
      have herr := (hspent.miss fun ⟨k, _, hserves⟩ => hserves.1 hflags).1
      by_contra hneither
      obtain ⟨hunlock, htimeout⟩ := not_or.mp hneither
      simp only [if_neg hunlock, herr, if_neg htimeout] at hfailed
      exact hfailed rfl
  | receive =>
      intro k hk hreceives
      obtain ⟨event, hevent, hcopies⟩ :=
        (copies_iff_of_receive hdirection hstarts hresult).mpr ⟨k, hk, hreceives⟩
      rw [← (eq_copy_of_copies hresult hevent hcopies).1] at hcopied
      exact hcopied hevent

/-- A send that is not moved fails, if the message is too long or not. -/
theorem failed_of_notMoved (hsend : call.direction = .send)
    (hstarts : call.Starts config world mqdes ticks)
    (hmoved : NotMoved world (sections mqdes).attr.mqFlags ticks .send)
    (hresult : Returns (call.run config world sections mqdes) result) : result.1 ≠ success := by
  obtain ⟨transfer, rfl, hspent⟩ := spent_of_returns hstarts hresult
  obtain ⟨hflags, hunlock | htimeout⟩ := hmoved
  · rw [if_pos hunlock]
    exact show errorDeviceBusy ≠ success by decide
  · rw [hsend] at hspent
    rw [(hspent.miss fun ⟨k, _, hserves⟩ => hserves.1 hflags).1, if_pos htimeout]
    split_ifs
    · exact show errorDeviceBusy ≠ success by decide
    · exact show errorNetConTimeout ≠ success by decide

theorem Event.copies_of_touches {kernelBuff address : ℕ}
    (htouches : event.Touches kernelBuff address) : event.copies := by
  unfold Event.Touches at htouches
  split at htouches
  · rfl
  · exact htouches.elim

/-- A call stays inside the message size exactly if its message does, or if it is turned away
before it looks at the queue, or if its message is not moved. -/
theorem staysInside_iff :
    StaysInside config world sections mqdes call ↔
      (call.msgLen : ℤ) ≤ (sections mqdes).attr.mqMsgsize.toInt ∨
        ∀ ticks, call.Starts config world mqdes ticks →
          NotMoved world (sections mqdes).attr.mqFlags ticks call.direction := by
  constructor
  · intro hinside
    by_cases hlong : (sections mqdes).attr.mqMsgsize.toInt < call.msgLen
    · exact .inr fun ticks hstarts => hinside.notMoved hlong hstarts
    · exact .inl (Int.not_lt.mp hlong)
  · rintro (hfits | hmoved)
    · constructor
      · intro result hresult event hevent address htouches
        have hcopies := Event.copies_of_touches htouches
        rw [(eq_copy_of_copies hresult hevent hcopies).1] at htouches
        have hlt : address < (sections mqdes).kernelBuff + call.msgLen := by
          unfold TransferCall.copy at htouches
          cases hdirection : call.direction <;> simp only [hdirection] at htouches
          · exact htouches.2.2
          · exact htouches.2.2
        omega
      · exact fun _ hlong => absurd hfits (Int.not_le.mpr hlong)
    · have hnone : ∀ result, Returns (call.run config world sections mqdes) result →
          ∀ event ∈ result.2, ¬ event.copies := by
        intro result hresult event hevent
        by_cases hstarts : ∃ ticks, call.Starts config world mqdes ticks
        · obtain ⟨ticks, hstarts⟩ := hstarts
          exact not_copies_of_notMoved hstarts (hmoved ticks hstarts) hresult event hevent
        · have hrejected := rejected_of_not_starts (not_exists.mp hstarts) hresult
          exact (hrejected.2 event hevent).not_copies
      constructor
      · exact fun result hresult event hevent address htouches =>
          absurd (Event.copies_of_touches htouches) (hnone result hresult event hevent)
      · intro hsend _
        have hreturns : ∃ result, Returns (call.run config world sections mqdes) result ∧
            result.1 ≠ success := by
          by_cases hstarts : ∃ ticks, call.Starts config world mqdes ticks
          · obtain ⟨ticks, hstarts⟩ := hstarts
            obtain ⟨transfer, hends, -⟩ := exists_spent_call world (sections mqdes) call ticks
            have hresult := (returns_run_iff hstarts).mpr ⟨transfer, hends, rfl⟩
            exact ⟨_, hresult,
              failed_of_notMoved hsend hstarts (hsend ▸ hmoved ticks hstarts) hresult⟩
          · have hstarts' := not_exists.mp hstarts
            obtain ⟨result, hresult⟩ := exists_returns_of_not_starts hstarts' hsend
            exact ⟨result, hresult, (rejected_of_not_starts hstarts' hresult).1⟩
        obtain ⟨result, hresult, hfailed⟩ := hreturns
        refine ⟨result, hresult, hfailed, ?_⟩
        rintro event hevent dest src size rfl
        exact hnone result hresult _ hevent rfl

/-- A message of two hundred bytes is copied over the hundred and twenty-eight of the buffer. -/
theorem not_staysInside :
    1 ≤ readWriteQueue.attr.mqMsgsize.toInt ∧
      ¬ StaysInside ⟨32, true⟩ ⟨fun _ => success, fun _ => ⟨0, 0, success⟩⟩
        (fun _ => readWriteQueue) 0x2000 ⟨.send, 0x3000, 200, 0, some none⟩ := by
  refine ⟨by decide, fun hinside => ?_⟩
  have hsent : Returns (TransferCall.run ⟨32, true⟩ ⟨fun _ => success, fun _ => ⟨0, 0, success⟩⟩
      (fun _ => readWriteQueue) 0x2000 ⟨.send, 0x3000, 200, 0, some none⟩)
      (success, [.pthread .mutexLock, .memcpy 0x1000 0x3000 200,
        .superCall (.mqSend 1 200 0) success, .pthread .mutexUnlock]) := ⟨1, by decide⟩
  have htouches : (Event.memcpy 0x1000 0x3000 200).Touches 0x1000 (0x1000 + 199) :=
    ⟨.inl rfl, by decide, by decide⟩
  exact absurd (hinside.inside _ hsent _ (by decide) _ htouches) (by decide)

end Run

end Cyancore.Posix
