/-
# Reading from the serial console of the megaAVR

A read arms a wait, sleeps until a receive interrupt has ended the wait, and takes the character
that the last such interrupt has left.  Characters that come outside a read are lost, and so are
all but the last of those that come during one; but none is read twice.

Characters are values of an arbitrary type.
-/

import Cyancore.Math.Transition
import Mathlib.Data.List.Basic

namespace Cyancore.Driver

open Cyancore.Math

universe u

variable {β : Type u}

/-- What a reader does next. -/
inductive RxPc
  | /-- Nothing is being read. -/
    idle
  | /-- `wait_lock`. -/
    locking
  | /-- The `sleep` of `arch_wfi`. -/
    dozing
  | /-- Nothing, until there is an interrupt. -/
    asleep
  | /-- The test of the loop of `wait_till_irq`. -/
    testing
  | /-- `*c = con_char`. -/
    fetching
  deriving DecidableEq, Repr

/-- An interrupt ends the sleep. -/
def RxPc.awoken : RxPc → RxPc
  | asleep => testing
  | pc => pc

/-- `uart_rx`, with what `uart_frame_error` looks at: frames are checked only with parity on. -/
def uartRx (upm0 fe : Bool) (udr data : β) : β := if upm0 && fe then data else udr

/-- The reader and the receiver. -/
structure RxRun (β : Type u) where
  pc : RxPc
  /-- `con_read_wait.lock` is 1. -/
  lock : Bool
  conChar : β
  /-- The characters received up to the last `wait_lock`, in order. -/
  before : List β
  /-- The characters received since. -/
  since : List β
  /-- The characters that reads have returned, in order. -/
  returned : List β
  deriving DecidableEq, Repr

/-- What happens at the console. -/
inductive RxEvent (β : Type u)
  | /-- A call of `console_serial_read`. -/
    read
  | waitLock
  | sleep
  | loopTest
  | fetch
  | /-- `console_serial_read_irq_handler`, for a character that has come with or without a frame
    error; the console has no parity. -/
    rxIrq (c : β) (fe : Bool)
  | /-- Any other interrupt. -/
    otherIrq
  deriving DecidableEq, Repr

namespace RxRun

/-- The state after an event, where it applies. -/
def next : RxEvent β → RxRun β → Option (RxRun β)
  | .read, run => if run.pc = .idle then some { run with pc := .locking } else none
  | .waitLock, run =>
      if run.pc = .locking then
        some { run with
          pc := .dozing
          lock := true
          before := run.before ++ run.since
          since := [] }
      else none
  | .sleep, run => if run.pc = .dozing then some { run with pc := .asleep } else none
  | .loopTest, run =>
      if run.pc = .testing then
        some { run with pc := if run.lock then .dozing else .fetching }
      else none
  | .fetch, run =>
      if run.pc = .fetching then
        some { run with pc := .idle, returned := run.returned ++ [run.conChar] }
      else none
  | .rxIrq c fe, run =>
      some { run with
        pc := run.pc.awoken
        lock := false
        conChar := uartRx false fe c run.conChar
        since := run.since ++ [c] }
  | .otherIrq, run => some { run with pc := run.pc.awoken }

/-- The reader is between `wait_lock` and the return. -/
def Reads (run : RxRun β) : Prop := run.pc ≠ .idle ∧ run.pc ≠ .locking

/-- Reads have returned characters from before the wait, and once the wait is over the last
character that has come since is there to be taken. -/
structure Ok (run : RxRun β) : Prop where
  returned : run.returned.Sublist (run.before ++ run.since)
  waiting : run.Reads → run.returned.Sublist run.before
  delivered : run.Reads → run.lock = false → run.since.getLast? = some run.conChar
  fetching : run.pc = .fetching → run.lock = false

end RxRun

/-- The console from its start on. -/
def rxSystem (blank : β) : TransitionSystem (RxRun β) (RxEvent β) :=
  .ofNext (· = ⟨.idle, false, blank, [], [], []⟩) RxRun.next

namespace RxRun

variable {run run' : RxRun β} {event : RxEvent β}

/-- A character comes, whether or not the reader is awake. -/
theorem Ok.rxIrq (hok : run.Ok) (c : β) {pc : RxPc}
    (hpc : pc ≠ .idle ∧ pc ≠ .locking → run.Reads) :
    Ok { run with pc := pc, lock := false, conChar := c, since := run.since ++ [c] } where
  returned := by
    rw [← List.append_assoc]
    exact hok.returned.trans (List.sublist_append_left _ _)
  waiting := fun hreads => hok.waiting (hpc hreads)
  delivered := fun _ _ => List.getLast?_concat
  fetching := fun _ => rfl

theorem Ok.next (hok : run.Ok) (hnext : run.next event = some run') : run'.Ok := by
  have hawoken : run.pc.awoken ≠ .idle ∧ run.pc.awoken ≠ .locking → run.Reads := by
    cases hpc : run.pc <;> simp [RxPc.awoken, Reads, hpc]
  cases event with
  | read =>
      obtain ⟨-, hrun⟩ := Option.ite_none_right_eq_some.mp hnext
      cases hrun
      exact ⟨hok.returned, fun h => absurd rfl h.2, fun h => absurd rfl h.2, nofun⟩
  | waitLock =>
      obtain ⟨-, hrun⟩ := Option.ite_none_right_eq_some.mp hnext
      cases hrun
      exact ⟨by simpa using hok.returned, fun _ => hok.returned, nofun, nofun⟩
  | sleep =>
      obtain ⟨hpc, hrun⟩ := Option.ite_none_right_eq_some.mp hnext
      cases hrun
      have hreads : run.Reads := by simp [Reads, hpc]
      exact ⟨hok.returned, fun _ => hok.waiting hreads, fun _ => hok.delivered hreads, nofun⟩
  | loopTest =>
      obtain ⟨hpc, hrun⟩ := Option.ite_none_right_eq_some.mp hnext
      cases hrun
      have hreads : run.Reads := by simp [Reads, hpc]
      refine ⟨hok.returned, fun _ => hok.waiting hreads, fun _ => hok.delivered hreads, ?_⟩
      cases hlock : run.lock with
      | true => nofun
      | false => exact fun _ => rfl
  | fetch =>
      obtain ⟨hpc, hrun⟩ := Option.ite_none_right_eq_some.mp hnext
      cases hrun
      have hreads : run.Reads := by simp [Reads, hpc]
      obtain ⟨init, hsince⟩ :=
        List.getLast?_eq_some_iff.mp (hok.delivered hreads (hok.fetching hpc))
      refine ⟨?_, fun h => absurd rfl h.1, fun h => absurd rfl h.1, nofun⟩
      rw [hsince, ← List.append_assoc]
      refine List.Sublist.append ?_ (List.Sublist.refl _)
      exact (hok.waiting hreads).trans (List.sublist_append_left _ _)
  | rxIrq c fe =>
      cases hnext
      exact hok.rxIrq c hawoken
  | otherIrq =>
      cases hnext
      refine ⟨hok.returned, fun h => hok.waiting (hawoken h),
        fun h => hok.delivered (hawoken h), ?_⟩
      intro hfetch
      cases hpc : run.pc with
      | fetching => exact hok.fetching hpc
      | _ => simp [hpc, RxPc.awoken] at hfetch

end RxRun

/-- Reads return characters in the order in which they came and none twice; and what a read
returns has come after the read began to wait. -/
theorem console_serial_read_sublist {blank : β} {run : RxRun β}
    {guard : RxEvent β → RxRun β → Prop} (hreach : (rxSystem blank).Reachable guard run) :
    run.returned.Sublist (run.before ++ run.since) ∧
      (run.pc = .fetching → run.returned.Sublist run.before ∧
        run.since.getLast? = some run.conChar) := by
  have hok : run.Ok := by
    apply hreach.invariant RxRun.Ok
    · rintro _ rfl
      exact ⟨.slnil, fun h => absurd rfl h.1, fun h => absurd rfl h.1, nofun⟩
    · exact fun _ _ _ hok _ hnext => hok.next hnext
  refine ⟨hok.returned, fun hfetch => ?_⟩
  have hreads : run.Reads := by simp [RxRun.Reads, hfetch]
  exact ⟨hok.waiting hreads, hok.delivered hreads (hok.fetching hfetch)⟩

/-- Of three characters the first comes too early, and two come during the read. -/
theorem console_serial_read_sublist_three : ∃ run : RxRun (BitVec 8),
    run.before ++ run.since = [5, 7, 9] ∧ run.returned = [9] ∧
      run.returned.Sublist (run.before ++ run.since) := by
  have hstart : (rxSystem (0 : BitVec 8)).Reachable (fun _ _ => True)
      ⟨.idle, false, 0, [], [], []⟩ := .start rfl
  have htest : (TransitionSystem.replay RxRun.next (fun _ _ => True)
      [.rxIrq 5 false, .read, .waitLock, .sleep, .rxIrq 7 false, .rxIrq 9 true, .loopTest, .fetch]
      (⟨.idle, false, 0, [], [], []⟩ : RxRun (BitVec 8))).any
      (fun run => run.before ++ run.since = [5, 7, 9] ∧ run.returned = [9]) = true := by
    decide
  obtain ⟨run, hreach, hrun⟩ := hstart.exists_replay htest
  obtain ⟨hreceived, hreturned⟩ := of_decide_eq_true hrun
  exact ⟨run, hreceived, hreturned, (console_serial_read_sublist hreach).1⟩

end Cyancore.Driver
