/-
# The receive buffer of the serial console

The receive interrupt puts bytes into a buffer of 32 cells and counts them in `occ`; a
read takes one byte out, after it has waited for the interrupt if `occ` was zero.  The
handler never looks at how far the reader has come, and the reader looks at `occ` before
it arms the wait.

Bytes are values of an arbitrary type, so a run may mark each of them with the moment of
its arrival.
-/

import Cyancore.Math.CircularBuffer
import Cyancore.Math.Transition
import Mathlib.Tactic.Common

namespace Cyancore.Driver

open Cyancore.Math

universe u

variable {β : Type u}

/-- The static data of the driver. -/
structure ConsoleSerial (β : Type u) where
  /-- `con_buff`. -/
  conBuff : Vector β 32
  /-- The cell that is read next. -/
  wp : BitVec 8
  /-- The cell that is written next. -/
  rp : BitVec 8
  /-- How many bytes are waiting. -/
  occ : BitVec 8
  /-- `con_read_wait.lock` is 1. -/
  lock : Bool
  wp_lt : wp.toNat < 32
  rp_lt : rp.toNat < 32

/-- The next index into the buffer, as the driver computes it. -/
def nextCell (index : BitVec 8) : BitVec 8 := (index + 1) % 32

@[simp]
theorem toNat_nextCell (index : BitVec 8) : (nextCell index).toNat = (index.toNat + 1) % 32 := by
  simp only [nextCell, BitVec.ofNat_eq_ofNat, BitVec.toNat_umod, BitVec.toNat_add,
    BitVec.toNat_ofNat, Nat.reducePow, Nat.reduceMod]
  omega

theorem nextCell_lt (index : BitVec 8) : (nextCell index).toNat < 32 := by
  rw [toNat_nextCell]
  exact Nat.mod_lt _ (by decide)

namespace ConsoleSerial

/-- Static storage before the first interrupt. -/
def cleared (blank : β) : ConsoleSerial β where
  conBuff := Vector.replicate 32 blank
  wp := 0
  rp := 0
  occ := 0
  lock := false
  wp_lt := by decide
  rp_lt := by decide

/-- One turn of the loop of the handler: `uart_rx` into the cell at `rp`. -/
def receive (con : ConsoleSerial β) (byte : β) : ConsoleSerial β :=
  { con with
    conBuff := con.conBuff.set con.rp.toNat byte con.rp_lt
    rp := nextCell con.rp
    occ := con.occ + 1
    rp_lt := nextCell_lt con.rp }

/-- `wait_lock` on `con_read_wait`. -/
def waitLock (con : ConsoleSerial β) : ConsoleSerial β := { con with lock := true }

/-- `wait_release_on_irq` on `con_read_wait`. -/
def waitReleaseOnIrq (con : ConsoleSerial β) : ConsoleSerial β := { con with lock := false }

/-- `console_serial_irq_handler`, with the bytes that the receiver delivers to it. -/
def irqHandler (pending : List β) (con : ConsoleSerial β) : ConsoleSerial β :=
  match pending with
  | [] => con
  | byte :: pending => (byte :: pending).foldl receive con.waitReleaseOnIrq

/-- `*c = con_buff[wp++]` and the reduction of `wp`. -/
def fetch (con : ConsoleSerial β) : β × ConsoleSerial β :=
  (con.conBuff.get ⟨con.wp.toNat, con.wp_lt⟩,
    { con with wp := nextCell con.wp, wp_lt := nextCell_lt con.wp })

/-- `occ--`. -/
def drop (con : ConsoleSerial β) : ConsoleSerial β := { con with occ := con.occ - 1 }

/-- `console_serial_read`, where it completes: there is a byte. -/
def read (con : ConsoleSerial β) : Option (β × ConsoleSerial β) :=
  if con.occ = 0 then none else some (con.fetch.1, con.fetch.2.drop)

end ConsoleSerial

/-! ## Bytes in the order of their arrival -/

/-- The driver with what has gone in and what has come out. -/
structure SerialRun (β : Type u) where
  con : ConsoleSerial β
  /-- The bytes delivered by interrupts, in order. -/
  received : List β
  /-- The bytes returned by reads, in order. -/
  returned : List β

/-- What happens at the console. -/
inductive SerialEvent (β : Type u)
  | /-- A receive interrupt delivers these bytes. -/
    irq (pending : List β)
  | /-- A read completes. -/
    read
  deriving DecidableEq, Repr

/-- The state after an event; a read needs a byte. -/
def SerialRun.next : SerialEvent β → SerialRun β → Option (SerialRun β)
  | .irq pending, run =>
      some { run with
        con := run.con.irqHandler pending
        received := run.received ++ pending }
  | .read, run =>
      run.con.read.map fun (byte, con) =>
        { run with con := con, returned := run.returned ++ [byte] }

/-- The console from the cleared buffer on. -/
def serialSystem (blank : β) : TransitionSystem (SerialRun β) (SerialEvent β) :=
  .ofNext (fun run => run = ⟨.cleared blank, [], []⟩) SerialRun.next

/-- An interrupt delivers no more bytes than there are free cells. -/
def withinRoom : SerialEvent β → SerialRun β → Prop
  | .irq pending, run => pending.length ≤ 32 - run.con.occ.toNat
  | .read, _ => True

/-- The buffer holds the queue: its bytes lie between the two indices and are counted. -/
structure ConsoleSerial.Holds (con : ConsoleSerial β) (queue : List β) : Prop where
  stored : Stored con.conBuff con.wp.toNat queue
  rp_eq : con.rp.toNat = (con.wp.toNat + queue.length) % 32
  occ_eq : con.occ.toNat = queue.length

namespace ConsoleSerial

variable {con : ConsoleSerial β} {queue : List β}

/-- The cleared buffer holds nothing. -/
theorem holds_cleared (blank : β) : (cleared blank).Holds [] where
  stored := .nil _ _
  rp_eq := rfl
  occ_eq := rfl

/-- A byte that finds a free cell is appended. -/
theorem Holds.receive (hholds : con.Holds queue) (hroom : queue.length < 32) (byte : β) :
    (con.receive byte).Holds (queue ++ [byte]) := by
  constructor
  case stored => exact hholds.stored.append hroom con.rp_lt hholds.rp_eq
  case rp_eq =>
      have hrp := hholds.rp_eq
      simp only [ConsoleSerial.receive, toNat_nextCell, List.length_append, List.length_singleton]
      omega
  case occ_eq =>
      have hocc := hholds.occ_eq
      simp only [ConsoleSerial.receive, BitVec.ofNat_eq_ofNat, BitVec.toNat_add,
        BitVec.toNat_ofNat, List.length_append, List.length_singleton]
      omega

/-- A burst that fits is appended as a whole. -/
theorem Holds.foldl_receive {pending : List β} (hholds : con.Holds queue)
    (hroom : queue.length + pending.length ≤ 32) :
    (pending.foldl ConsoleSerial.receive con).Holds (queue ++ pending) := by
  induction pending generalizing con queue with
  | nil => simpa using hholds
  | cons byte pending ih =>
      rw [List.length_cons] at hroom
      have hfirst := hholds.receive (by omega) byte
      have hrest := ih hfirst (by rw [List.length_append, List.length_singleton]; omega)
      rwa [List.append_assoc, List.singleton_append] at hrest

/-- An interrupt within the room appends what it delivers. -/
theorem Holds.irqHandler {pending : List β} (hholds : con.Holds queue)
    (hroom : queue.length + pending.length ≤ 32) :
    (con.irqHandler pending).Holds (queue ++ pending) := by
  cases pending with
  | nil => simpa [ConsoleSerial.irqHandler] using hholds
  | cons byte pending =>
      have hreleased : con.waitReleaseOnIrq.Holds queue :=
        ⟨hholds.stored, hholds.rp_eq, hholds.occ_eq⟩
      exact hreleased.foldl_receive hroom

/-- A read takes the first byte. -/
theorem Holds.read {byte : β} {con' : ConsoleSerial β} (hholds : con.Holds queue)
    (hread : con.read = some (byte, con')) :
    ∃ rest, queue = byte :: rest ∧ con'.Holds rest := by
  rw [ConsoleSerial.read] at hread
  split at hread
  · cases hread
  · rename_i hocc
    obtain ⟨rfl, rfl⟩ : con.fetch.1 = byte ∧ con.fetch.2.drop = con' := by
      simpa using hread
    have hlength := hholds.occ_eq
    cases queue with
    | nil => exact absurd (BitVec.eq_of_toNat_eq hlength) hocc
    | cons first rest =>
        have hhead := hholds.stored.head
        rw [Nat.mod_eq_of_lt con.wp_lt, Vector.getElem?_eq_getElem con.wp_lt] at hhead
        have hwp := con.wp_lt
        have hrp := hholds.rp_eq
        rw [List.length_cons] at hlength hrp
        refine ⟨rest, ?_, ?_, ?_, ?_⟩
        · rw [← Option.some.inj hhead]
          rfl
        · refine hholds.stored.tail.congr_start ?_
          simp [drop, fetch]
        · simp only [drop, fetch, toNat_nextCell]
          omega
        · simp only [drop, fetch, BitVec.ofNat_eq_ofNat, BitVec.toNat_sub, BitVec.toNat_ofNat]
          omega

end ConsoleSerial

/-- What came in is what came out followed by what the buffer holds. -/
def SerialRun.InOrder (run : SerialRun β) : Prop :=
  ∃ queue, run.received = run.returned ++ queue ∧ run.con.Holds queue

/-- An event that leaves room keeps the order. -/
theorem SerialRun.InOrder.next {event : SerialEvent β} {run run' : SerialRun β}
    (horder : run.InOrder) (hroom : withinRoom event run) (hnext : run.next event = some run') :
    run'.InOrder := by
  obtain ⟨queue, hreceived, hholds⟩ := horder
  cases event with
  | irq pending =>
      cases hnext
      have hocc := hholds.occ_eq
      have hfits := hholds.stored.fits
      have hpending : pending.length ≤ 32 - run.con.occ.toNat := hroom
      exact ⟨queue ++ pending, by rw [hreceived, List.append_assoc],
        hholds.irqHandler (by omega)⟩
  | read =>
      obtain ⟨⟨byte, con⟩, hread, rfl⟩ := Option.map_eq_some_iff.mp hnext
      obtain ⟨rest, rfl, hrest⟩ := hholds.read hread
      exact ⟨rest, by simpa using hreceived, hrest⟩

/-- Where no interrupt delivers more bytes than there are free cells, the bytes are returned
in the order of their arrival, each at most once. -/
theorem returned_sublist_received {blank : β} {run : SerialRun β}
    (hreach : (serialSystem blank).Reachable withinRoom run) :
    run.returned.Sublist run.received := by
  have horder : run.InOrder := by
    refine hreach.invariant SerialRun.InOrder ?_ ?_
    · rintro _ rfl
      exact ⟨[], rfl, ConsoleSerial.holds_cleared blank⟩
    · exact fun _ _ _ horder hroom hnext => horder.next hroom hnext
  obtain ⟨queue, hreceived, -⟩ := horder
  rw [hreceived]
  exact List.sublist_append_left _ _

instance (event : SerialEvent β) (run : SerialRun β) : Decidable (withinRoom event run) :=
  match event with
  | .irq pending => inferInstanceAs (Decidable (pending.length ≤ 32 - run.con.occ.toNat))
  | .read => inferInstanceAs (Decidable True)

/-- Two bytes, one read. -/
theorem returned_sublist_received_two :
    ∃ run : SerialRun (BitVec 8), run.returned = [7] ∧ run.received = [7, 9] ∧
      run.returned.Sublist run.received := by
  have hstart : (serialSystem (0 : BitVec 8)).Reachable withinRoom ⟨.cleared 0, [], []⟩ :=
    .start rfl
  have htest : (TransitionSystem.replay SerialRun.next withinRoom [.irq [7, 9], .read]
      (⟨.cleared 0, [], []⟩ : SerialRun (BitVec 8))).any
      (fun run => run.returned = [7] ∧ run.received = [7, 9]) = true := by
    decide
  obtain ⟨run, hreach, hrun⟩ := hstart.exists_replay htest
  obtain ⟨hreturned, hreceived⟩ := of_decide_eq_true hrun
  exact ⟨run, hreturned, hreceived, returned_sublist_received hreach⟩

/-- A burst of 33 bytes overwrites the first of them with the last, which is then returned
before the second. -/
theorem returned_not_sublist :
    ∃ run : SerialRun (BitVec 8),
      (serialSystem (0 : BitVec 8)).Reachable (fun _ _ => True) run ∧
        run.received = (List.range 33).map (BitVec.ofNat 8) ∧
        run.returned.take 2 = [32, 1] ∧ run.returned.count 32 = 2 ∧
        ¬ run.returned.Sublist run.received := by
  have hstart : (serialSystem (0 : BitVec 8)).Reachable (fun _ _ => True)
      ⟨.cleared 0, [], []⟩ := .start rfl
  have htest : (TransitionSystem.replay SerialRun.next (fun _ _ => True)
      (.irq ((List.range 33).map (BitVec.ofNat 8)) :: List.replicate 33 .read)
      (⟨.cleared 0, [], []⟩ : SerialRun (BitVec 8))).any
      (fun run => run.received = (List.range 33).map (BitVec.ofNat 8) ∧
        run.returned.take 2 = [32, 1] ∧ run.returned.count 32 = 2 ∧
        ¬ run.returned.Sublist run.received) = true := by
    decide
  obtain ⟨run, hreach, hrun⟩ := hstart.exists_replay htest
  exact ⟨run, hreach, of_decide_eq_true hrun⟩

/-! ## The wait for a byte -/

/-- Where the reader is. -/
inductive ReaderPc
  | /-- Before the test of `occ`. -/
    idle
  | /-- Before `wait_lock`. -/
    arming
  | /-- Inside `wait_till_irq`. -/
    waiting
  | /-- Before a byte is fetched. -/
    fetching
  | /-- Before `occ` is counted down. -/
    counting
  deriving DecidableEq, Repr

/-- The driver and its reader. -/
structure WaitRun (β : Type u) where
  con : ConsoleSerial β
  pc : ReaderPc

/-- One statement of the reader, or a whole run of the handler. -/
inductive WaitEvent (β : Type u)
  | /-- `console_serial_irq_handler`, with what the receiver delivers. -/
    irq (pending : List β)
  | /-- `if(!occ)`. -/
    test
  | /-- `wait_lock`. -/
    waitLock
  | /-- The test of the loop of `wait_till_irq`, whatever ended `arch_wfi`. -/
    loopTest
  | /-- `*c = con_buff[wp++]; wp = wp % 32`. -/
    fetch
  | /-- `occ--`. -/
    drop
  deriving DecidableEq, Repr

/-- The state after an event, where it applies. -/
def WaitRun.next : WaitEvent β → WaitRun β → Option (WaitRun β)
  | .irq pending, run => some { run with con := run.con.irqHandler pending }
  | .test, run =>
      if run.pc = .idle then
        some { run with pc := if run.con.occ = 0 then .arming else .fetching }
      else none
  | .waitLock, run =>
      if run.pc = .arming then some { con := run.con.waitLock, pc := .waiting } else none
  | .loopTest, run =>
      if run.pc = .waiting then
        some { run with pc := if run.con.lock then .waiting else .fetching }
      else none
  | .fetch, run =>
      if run.pc = .fetching then some { con := run.con.fetch.2, pc := .counting } else none
  | .drop, run =>
      if run.pc = .counting then some { con := run.con.drop, pc := .idle } else none

/-- The reader and the handler from the cleared buffer on. -/
def waitSystem (blank : β) : TransitionSystem (WaitRun β) (WaitEvent β) :=
  .ofNext (fun run => run = ⟨.cleared blank, .idle⟩) WaitRun.next

/-- The wait is armed with nothing to be read. -/
def armedEmpty : WaitEvent β → WaitRun β → Prop
  | .waitLock, run => run.pc = .arming → run.con.occ = 0
  | _, _ => True

/-- The reader waits for an interrupt only while there is nothing to be read. -/
def WaitRun.Awaited (run : WaitRun β) : Prop :=
  run.pc = .waiting → run.con.lock = true → run.con.occ = 0

/-- An interrupt that delivers a byte releases the wait. -/
theorem ConsoleSerial.lock_irqHandler (byte : β) (pending : List β) (con : ConsoleSerial β) :
    (con.irqHandler (byte :: pending)).lock = false := by
  have hfold : ∀ (bytes : List β) (start : ConsoleSerial β),
      (bytes.foldl receive start).lock = start.lock := by
    intro bytes
    induction bytes with
    | nil => exact fun _ => rfl
    | cons byte bytes ih => exact fun start => ih (start.receive byte)
  exact hfold (byte :: pending) con.waitReleaseOnIrq

/-- What one event can do. -/
theorem WaitRun.next_cases {event : WaitEvent β} {run run' : WaitRun β}
    (hnext : run.next event = some run') :
    (∃ pending, event = .irq pending ∧ run' = { run with con := run.con.irqHandler pending }) ∨
      (event = .test ∧ run.pc = .idle ∧
        run' = { run with pc := if run.con.occ = 0 then .arming else .fetching }) ∨
      (event = .waitLock ∧ run.pc = .arming ∧ run' = ⟨run.con.waitLock, .waiting⟩) ∨
      (event = .loopTest ∧ run.pc = .waiting ∧
        run' = { run with pc := if run.con.lock then .waiting else .fetching }) ∨
      (event = .fetch ∧ run.pc = .fetching ∧ run' = ⟨run.con.fetch.2, .counting⟩) ∨
      (event = .drop ∧ run.pc = .counting ∧ run' = ⟨run.con.drop, .idle⟩) := by
  cases event with
  | irq pending => exact .inl ⟨pending, rfl, (Option.some.inj hnext).symm⟩
  | test | waitLock | loopTest | fetch | drop =>
      obtain ⟨hpc, hrun⟩ := Option.ite_none_right_eq_some.mp hnext
      simp [hpc, (Option.some.inj hrun).symm]

/-- A step that arms the wait with nothing to be read, or does not arm it, keeps this. -/
theorem WaitRun.Awaited.next {event : WaitEvent β} {run run' : WaitRun β}
    (hawaited : run.Awaited) (hempty : armedEmpty event run) (hnext : run.next event = some run') :
    run'.Awaited := by
  intro hpc hlock
  obtain ⟨pending, rfl, rfl⟩ | ⟨rfl, -, rfl⟩ | ⟨rfl, harming, rfl⟩ | ⟨rfl, hwaiting, rfl⟩ |
    ⟨rfl, -, rfl⟩ | ⟨rfl, -, rfl⟩ := next_cases hnext
  case inl =>
      cases pending with
      | nil => exact hawaited hpc hlock
      | cons byte pending =>
          rw [ConsoleSerial.lock_irqHandler] at hlock
          cases hlock
  case inr.inl => split at hpc <;> cases hpc
  case inr.inr.inl => exact hempty harming
  case inr.inr.inr.inl => exact hawaited hwaiting hlock
  case inr.inr.inr.inr.inl => cases hpc
  case inr.inr.inr.inr.inr => cases hpc

/-- Arming the wait is right exactly when there is nothing to be read. -/
theorem WaitRun.awaited_waitLock_iff {run run' : WaitRun β}
    (hnext : run.next .waitLock = some run') : run'.Awaited ↔ run.con.occ = 0 := by
  obtain ⟨-, rfl⟩ : run.pc = .arming ∧ _ = run' := by simpa [WaitRun.next] using hnext
  exact ⟨fun hawaited => hawaited rfl rfl, fun hocc _ _ => hocc⟩

/-- Where the wait is armed only with nothing to be read, no wake-up is lost. -/
theorem awaited_of_armedEmpty {blank : β} {run : WaitRun β}
    (hreach : (waitSystem blank).Reachable armedEmpty run) : run.Awaited := by
  refine hreach.invariant WaitRun.Awaited ?_ ?_
  · rintro _ rfl hpc
    cases hpc
  · exact fun _ _ _ hawaited hempty hnext => hawaited.next hempty hnext

/-- No wake-up is lost in a sequence of events exactly when each `wait_lock` in it is
executed with nothing to be read. -/
theorem awaited_throughout_iff (blank : β) (events : List (WaitEvent β)) :
    (∀ before, before <+: events → ∀ run,
        TransitionSystem.run WaitRun.next before ⟨.cleared blank, .idle⟩ = some run →
          run.Awaited) ↔
      ∀ before, before ++ [.waitLock] <+: events → ∀ run,
        TransitionSystem.run WaitRun.next before ⟨.cleared blank, .idle⟩ = some run →
          run.pc = .arming → run.con.occ = 0 := by
  constructor
  · intro hawaited before hbefore run hrun hpc
    have hnext : run.next .waitLock = some ⟨run.con.waitLock, .waiting⟩ := if_pos hpc
    refine (WaitRun.awaited_waitLock_iff hnext).mp (hawaited _ hbefore _ ?_)
    rw [TransitionSystem.run_append_singleton, hrun]
    exact hnext
  · intro hempty before hbefore run hrun
    have hstart : (waitSystem blank).Reachable armedEmpty ⟨.cleared blank, .idle⟩ := .start rfl
    refine awaited_of_armedEmpty (hstart.run hrun fun earlier event hearlier middle hmiddle => ?_)
    cases event with
    | waitLock => exact hempty earlier (hearlier.trans hbefore) middle hmiddle
    | irq | test | loopTest | fetch | drop => trivial

/-- A byte that arrives after the test of `occ` and before `wait_lock` is waited for again. -/
theorem lost_wakeup :
    ∃ run : WaitRun (BitVec 8),
      TransitionSystem.run WaitRun.next [.test, .irq [7], .waitLock] ⟨.cleared 0, .idle⟩ =
        some run ∧ run.pc = .waiting ∧ run.con.lock = true ∧ run.con.occ = 1 ∧ ¬ run.Awaited := by
  refine ⟨_, rfl, rfl, rfl, rfl, fun hawaited => ?_⟩
  exact absurd (hawaited rfl rfl) (by decide)

/-! ## Quiet between the test and the wait -/

/-- No byte arrives between the test of `occ` and `wait_lock`. -/
def quietWhileArming : WaitEvent β → WaitRun β → Prop
  | .irq pending, run => run.pc = .arming → pending = []
  | _, _ => True

/-- Where it is quiet, the buffer that was found empty is still empty. -/
theorem occ_eq_zero_of_quiet {blank : β} {run : WaitRun β}
    (hreach : (waitSystem blank).Reachable quietWhileArming run) :
    run.pc = .arming → run.con.occ = 0 := by
  refine hreach.invariant (fun run => run.pc = .arming → run.con.occ = 0) ?_ ?_
  · rintro _ rfl _
    rfl
  · intro event run run' hinv hquiet hnext hpc
    obtain ⟨pending, rfl, rfl⟩ | ⟨rfl, -, rfl⟩ | ⟨rfl, -, rfl⟩ | ⟨rfl, -, rfl⟩ |
      ⟨rfl, -, rfl⟩ | ⟨rfl, -, rfl⟩ := WaitRun.next_cases hnext
    case inl =>
        cases hquiet hpc
        exact hinv hpc
    case inr.inl =>
        change (if run.con.occ = 0 then ReaderPc.arming else ReaderPc.fetching) = .arming at hpc
        split at hpc
        · assumption
        · cases hpc
    case inr.inr.inr.inl => split at hpc <;> cases hpc
    all_goals cases hpc

/-- Where it is quiet between the test and the wait, no wake-up is lost. -/
theorem awaited_of_quiet {blank : β} {run : WaitRun β}
    (hreach : (waitSystem blank).Reachable quietWhileArming run) : run.Awaited := by
  have harmed : (waitSystem blank).Reachable armedEmpty run := by
    refine hreach.reguard fun event run hbefore _ => ?_
    cases event with
    | waitLock => exact occ_eq_zero_of_quiet hbefore
    | irq | test | loopTest | fetch | drop => trivial
  exact awaited_of_armedEmpty harmed

end Cyancore.Driver
