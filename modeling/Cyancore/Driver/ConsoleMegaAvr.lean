/-
# Writing to the serial console of the megaAVR

A write arms a wait, gives the character to the transmitter and sleeps until the transmitter
has reported that it is done.  The wait is armed before there is anything to report, so that the
report is never missed; but the writer goes to sleep before it looks whether the report has
come, and then some other interrupt has to wake it up, or the write never returns.

Characters are values of an arbitrary type.
-/

import Cyancore.Math.InfiniteRun
import Mathlib.Data.List.Basic

namespace Cyancore.Driver

open Cyancore.Math

universe u

variable {β : Type u}

/-! ## Writing -/

/-- What a writer does next. -/
inductive WriterPc (β : Type u)
  | /-- Nothing is being written. -/
    idle
  | /-- `wait_lock`. -/
    locking (c : β)
  | /-- A test of `uart_buffer_available`. -/
    polling (c : β)
  | /-- The store to `UDR`. -/
    storing (c : β)
  | /-- The `sleep` of `arch_wfi`. -/
    dozing
  | /-- Nothing, until there is an interrupt. -/
    asleep
  | /-- The test of the loop of `wait_till_irq`. -/
    testing
  deriving DecidableEq, Repr

namespace WriterPc

/-- An interrupt ends the sleep. -/
def awoken : WriterPc β → WriterPc β
  | asleep => testing
  | pc => pc

/-- The character that the transmitter has not been given yet. -/
def held : WriterPc β → List β
  | locking c | polling c | storing c => [c]
  | _ => []

/-- The writer is in `wait_till_irq`. -/
def waits : WriterPc β → Bool
  | dozing | asleep | testing => true
  | _ => false

@[simp]
theorem held_awoken (pc : WriterPc β) : pc.awoken.held = pc.held := by
  cases pc <;> rfl

@[simp]
theorem waits_awoken (pc : WriterPc β) : pc.awoken.waits = pc.waits := by
  cases pc <;> rfl

end WriterPc

/-- The writer and the transmitter. -/
structure TxRun (β : Type u) where
  pc : WriterPc β
  /-- `con_write_wait.lock` is 1. -/
  lock : Bool
  /-- `UDR`; the buffer is available while it is empty. -/
  udr : Option β
  /-- The character that is being shifted out. -/
  shift : Option β
  /-- `TXC`: a character was shifted out and none was left. -/
  txc : Bool
  /-- The characters given to `console_serial_write`, in order. -/
  written : List β
  /-- The characters on the line, in order. -/
  sent : List β
  deriving DecidableEq, Repr

/-- What happens at the console. -/
inductive TxEvent (β : Type u)
  | /-- A call of `console_serial_write`. -/
    write (c : β)
  | waitLock
  | bufferTest
  | store
  | sleep
  | loopTest
  | /-- The transmitter takes the character in `UDR`. -/
    load
  | /-- The transmitter has shifted a character out. -/
    shiftOut
  | /-- `console_serial_write_irq_handler`. -/
    txIrq
  | /-- Any other interrupt. -/
    otherIrq
  deriving DecidableEq, Repr

namespace TxEvent

/-- The writer moves. -/
def OfWriter : TxEvent β → Prop
  | write _ | waitLock | bufferTest | store | sleep | loopTest => True
  | _ => False

instance (event : TxEvent β) : Decidable event.OfWriter :=
  match event with
  | write _ | waitLock | bufferTest | store | sleep | loopTest => .isTrue trivial
  | load | shiftOut | txIrq | otherIrq => .isFalse id

/-- The transmitter moves, or its interrupt is handled. -/
def OfUart : TxEvent β → Prop
  | load | shiftOut | txIrq => True
  | _ => False

instance (event : TxEvent β) : Decidable event.OfUart :=
  match event with
  | load | shiftOut | txIrq => .isTrue trivial
  | write _ | waitLock | bufferTest | store | sleep | loopTest | otherIrq => .isFalse id

/-- An interrupt is handled. -/
def OfIrq : TxEvent β → Prop
  | txIrq | otherIrq => True
  | _ => False

instance (event : TxEvent β) : Decidable event.OfIrq :=
  match event with
  | txIrq | otherIrq => .isTrue trivial
  | write _ | waitLock | bufferTest | store | sleep | loopTest | load | shiftOut => .isFalse id

end TxEvent

namespace TxRun

/-- The state after an event, where it applies. -/
def next : TxEvent β → TxRun β → Option (TxRun β)
  | .write c, run =>
      match run.pc with
      | .idle => some { run with pc := .locking c, written := run.written ++ [c] }
      | _ => none
  | .waitLock, run =>
      match run.pc with
      | .locking c => some { run with pc := .polling c, lock := true }
      | _ => none
  | .bufferTest, run =>
      match run.pc with
      | .polling c => some { run with pc := if run.udr.isNone then .storing c else .polling c }
      | _ => none
  | .store, run =>
      match run.pc with
      | .storing c => some { run with pc := .dozing, udr := some c }
      | _ => none
  | .sleep, run =>
      match run.pc with
      | .dozing => some { run with pc := .asleep }
      | _ => none
  | .loopTest, run =>
      match run.pc with
      | .testing => some { run with pc := if run.lock then .dozing else .idle }
      | _ => none
  | .load, run =>
      match run.udr, run.shift with
      | some c, none => some { run with udr := none, shift := some c }
      | _, _ => none
  | .shiftOut, run =>
      match run.shift with
      | some c =>
          some { run with shift := none, sent := run.sent ++ [c], txc := run.txc || run.udr.isNone }
      | none => none
  | .txIrq, run =>
      if run.txc then some { run with txc := false, lock := false, pc := run.pc.awoken } else none
  | .otherIrq, run => some { run with pc := run.pc.awoken }

/-- Nothing is written, and the transmitter has nothing to do. -/
def start : TxRun β := ⟨.idle, false, none, none, false, [], []⟩

/-- How much the transmitter has to do: to take a character, to shift one out, to report. -/
def work (run : TxRun β) : ℕ :=
  run.udr.toList.length + run.shift.toList.length + run.txc.toNat

/-- The characters are on their way in order, and the transmitter has something to do exactly if
the writer waits for it. -/
structure Ok (run : TxRun β) : Prop where
  order : run.written = run.sent ++ run.shift.toList ++ run.udr.toList ++ run.pc.held
  work_eq : run.work = if run.pc.waits then run.lock.toNat else 0
  armed : ∀ c, run.pc = .polling c ∨ run.pc = .storing c → run.lock = true

end TxRun

/-- The console from its start on. -/
def txSystem (β : Type u) : TransitionSystem (TxRun β) (TxEvent β) :=
  .ofNext (· = .start) TxRun.next

namespace TxRun

variable {run run' : TxRun β} {event : TxEvent β}

theorem Ok.work_le (hok : run.Ok) : run.work ≤ 1 := by
  rw [hok.work_eq]
  split
  · exact Bool.toNat_le _
  · exact Nat.zero_le 1

/-- The writer asks the transmitter for something only when that has nothing to do. -/
theorem Ok.work_eq_zero (hok : run.Ok) (hwaits : run.pc.waits = false) :
    run.udr = none ∧ run.shift = none ∧ run.txc = false := by
  have hwork := hok.work_eq
  rw [work, hwaits] at hwork
  simpa [and_assoc] using hwork

/-- The writer moves. -/
theorem Ok.next_writer (hok : run.Ok) (hwriter : event.OfWriter)
    (hnext : run.next event = some run') : run'.Ok := by
  obtain ⟨pc, lock, udr, shift, txc, written, sent⟩ := run
  cases event with
  | write c =>
      cases pc with
      | idle =>
          cases hnext
          have horder := hok.order
          obtain ⟨rfl, rfl, rfl⟩ := hok.work_eq_zero rfl
          exact ⟨by simpa [WriterPc.held] using horder, rfl, by simp⟩
      | _ => cases hnext
  | waitLock =>
      cases pc with
      | locking c =>
          cases hnext
          exact ⟨hok.order, hok.work_eq, fun _ _ => rfl⟩
      | _ => cases hnext
  | bufferTest =>
      cases pc with
      | polling c =>
          cases hnext
          obtain ⟨rfl, -, -⟩ := hok.work_eq_zero rfl
          exact ⟨hok.order, hok.work_eq, fun _ _ => hok.armed c (.inl rfl)⟩
      | _ => cases hnext
  | store =>
      cases pc with
      | storing c =>
          cases hnext
          obtain rfl : lock = true := hok.armed c (.inr rfl)
          have horder := hok.order
          obtain ⟨rfl, rfl, rfl⟩ := hok.work_eq_zero rfl
          exact ⟨by simpa [WriterPc.held] using horder, rfl, by simp⟩
      | _ => cases hnext
  | sleep =>
      cases pc with
      | dozing =>
          cases hnext
          exact ⟨hok.order, hok.work_eq, by simp⟩
      | _ => cases hnext
  | loopTest =>
      cases pc with
      | testing =>
          cases hnext
          cases lock with
          | true => exact ⟨hok.order, hok.work_eq, by simp⟩
          | false => exact ⟨hok.order, hok.work_eq, by simp⟩
      | _ => cases hnext
  | load | shiftOut | txIrq | otherIrq => cases hwriter

/-- The transmitter and the interrupts. -/
theorem Ok.next_uart (hok : run.Ok) (huart : ¬ event.OfWriter)
    (hnext : run.next event = some run') : run'.Ok := by
  have hwork := hok.work_le
  have hwork_eq := hok.work_eq
  obtain ⟨pc, lock, udr, shift, txc, written, sent⟩ := run
  cases event with
  | write | waitLock | bufferTest | store | sleep | loopTest => exact absurd trivial huart
  | load =>
      cases udr with
      | none => cases hnext
      | some c =>
          cases shift with
          | some d => cases hnext
          | none =>
              cases hnext
              refine ⟨by simpa using hok.order, ?_, hok.armed⟩
              simpa [work, Nat.add_comm] using hwork_eq
  | shiftOut =>
      cases shift with
      | none => cases hnext
      | some c =>
          cases hnext
          obtain ⟨rfl, rfl⟩ : udr = none ∧ txc = false := by
            cases udr <;> cases txc <;> simp_all [work]
          exact ⟨by simpa using hok.order, hwork_eq, hok.armed⟩
  | txIrq =>
      cases txc with
      | false => cases hnext
      | true =>
          cases hnext
          obtain ⟨rfl, rfl⟩ : udr = none ∧ shift = none := by
            cases udr <;> cases shift <;> simp_all [work]
          have hwaits : pc.waits = true := by
            by_contra hidle
            simp [work, hidle] at hwork_eq
          refine ⟨by simpa using hok.order, by simp [work], ?_⟩
          cases pc <;> simp_all [WriterPc.waits, WriterPc.awoken]
  | otherIrq =>
      cases hnext
      refine ⟨by simpa using hok.order, by simpa [work] using hwork_eq, ?_⟩
      have harmed := hok.armed
      cases pc <;> simp_all [WriterPc.awoken]

theorem Ok.next (hok : run.Ok) (hnext : run.next event = some run') : run'.Ok := by
  by_cases hwriter : event.OfWriter
  · exact hok.next_writer hwriter hnext
  · exact hok.next_uart hwriter hnext

end TxRun

theorem ok_of_reachable {run : TxRun β} {guard : TxEvent β → TxRun β → Prop}
    (hreach : (txSystem β).Reachable guard run) : run.Ok := by
  apply hreach.invariant TxRun.Ok
  · rintro _ rfl
    exact ⟨rfl, rfl, by simp [TxRun.start]⟩
  · exact fun _ _ _ hok _ hnext => hok.next hnext

/-- Whenever no write is going on, what has been written has been sent, in order and each
character once; and a writer that waits for the report has not missed it: the transmitter still has
one thing to do, and nothing once the report has come. -/
theorem console_serial_write_sends {run : TxRun β} {guard : TxEvent β → TxRun β → Prop}
    (hreach : (txSystem β).Reachable guard run) :
    (run.pc = .idle → run.sent = run.written) ∧
      (run.pc.waits = true → run.work = run.lock.toNat) ∧
      run.sent <+: run.written := by
  have hok := ok_of_reachable hreach
  refine ⟨fun hidle => ?_, fun hwaits => ?_, ?_⟩
  · have horder := hok.order
    obtain ⟨hudr, hshift, -⟩ := hok.work_eq_zero (by rw [hidle]; rfl)
    simpa [hidle, hudr, hshift, WriterPc.held] using horder.symm
  · rw [hok.work_eq, if_pos hwaits]
  · rw [hok.order, List.append_assoc, List.append_assoc]
    exact List.prefix_append _ _

/-- One character is on the line, and the next in `UDR`. -/
theorem console_serial_write_sends_two : ∃ run : TxRun (BitVec 8),
    run.written = [7, 9] ∧ run.sent = [7] ∧ run.pc = .asleep ∧ run.work = 1 := by
  have hstart : (txSystem (BitVec 8)).Reachable (fun _ _ => True) .start := .start rfl
  have htest : (TransitionSystem.replay TxRun.next (fun _ _ => True)
      [.write 7, .waitLock, .bufferTest, .store, .load, .sleep, .shiftOut, .txIrq, .loopTest,
        .write 9, .waitLock, .bufferTest, .store, .sleep] (.start : TxRun (BitVec 8))).any
      (fun run => run.written = [7, 9] ∧ run.sent = [7] ∧ run.pc = .asleep ∧ run.lock = true) =
        true := by
    decide
  obtain ⟨run, hreach, hrun⟩ := hstart.exists_replay htest
  obtain ⟨hwritten, hsent, hpc, hlock⟩ := of_decide_eq_true hrun
  refine ⟨run, hwritten, hsent, hpc, ?_⟩
  rw [(console_serial_write_sends hreach).2.1 (by rw [hpc]; rfl), hlock]
  rfl

/-! ## Every write returns -/

namespace WriterPc

/-- What the writer does after its next move, with an empty `UDR`. -/
def after (lock : Bool) : WriterPc β → WriterPc β
  | idle => idle
  | locking c => polling c
  | polling c => storing c
  | storing _ => dozing
  | dozing => asleep
  | asleep => asleep
  | testing => if lock then dozing else idle

end WriterPc

namespace TxRun

variable {run run' : TxRun β} {event : TxEvent β}

/-- Only the writer itself changes what a writer that is awake does next. -/
theorem pc_of_not_writer (huart : ¬ event.OfWriter) (hawake : run.pc ≠ .asleep)
    (hnext : run.next event = some run') : run'.pc = run.pc := by
  have hawoken : run.pc.awoken = run.pc := by
    cases hpc : run.pc with
    | asleep => exact absurd hpc hawake
    | _ => rfl
  cases event with
  | write | waitLock | bufferTest | store | sleep | loopTest => exact absurd trivial huart
  | load | shiftOut =>
      simp only [next] at hnext
      split at hnext
      · cases hnext
        rfl
      · cases hnext
  | txIrq =>
      simp only [next] at hnext
      split at hnext
      · cases hnext
        exact hawoken
      · cases hnext
  | otherIrq =>
      cases hnext
      exact hawoken

/-- A writer that is not idle moves on. -/
theorem Ok.pc_of_writer (hok : run.Ok) (hwriter : event.OfWriter) (hbusy : run.pc ≠ .idle)
    (hnext : run.next event = some run') : run'.pc = run.pc.after run.lock := by
  obtain ⟨pc, lock, udr, shift, txc, written, sent⟩ := run
  cases event with
  | write c =>
      cases pc with
      | idle => exact absurd rfl hbusy
      | _ => cases hnext
  | waitLock | store | sleep | loopTest =>
      cases pc <;> cases hnext
      rfl
  | bufferTest =>
      cases pc with
      | polling c =>
          obtain ⟨rfl, -, -⟩ := hok.work_eq_zero rfl
          cases hnext
          rfl
      | _ => cases hnext
  | load | shiftOut | txIrq | otherIrq => cases hwriter

/-- What an event changes while the writer waits. -/
theorem next_of_waits (hwaits : run.pc.waits = true) (hnext : run.next event = some run') :
    (run.lock = true → run'.pc.waits = true) ∧ (run.lock = false → run'.lock = false) ∧
      (¬ event.OfUart → run'.udr = run.udr ∧ run'.shift = run.shift ∧ run'.txc = run.txc) := by
  obtain ⟨pc, lock, udr, shift, txc, written, sent⟩ := run
  cases event with
  | write | waitLock | bufferTest | store => cases pc <;> cases hwaits <;> cases hnext
  | sleep =>
      cases pc with
      | dozing =>
          cases hnext
          exact ⟨fun _ => rfl, id, fun _ => ⟨rfl, rfl, rfl⟩⟩
      | _ => cases hnext
  | loopTest =>
      cases pc with
      | testing =>
          cases hnext
          exact ⟨fun hlock => by rw [if_pos hlock]; rfl, id, fun _ => ⟨rfl, rfl, rfl⟩⟩
      | _ => cases hnext
  | load =>
      simp only [next] at hnext
      split at hnext
      · cases hnext
        exact ⟨fun _ => hwaits, id, fun h => absurd trivial h⟩
      · cases hnext
  | shiftOut =>
      simp only [next] at hnext
      split at hnext
      · cases hnext
        exact ⟨fun _ => hwaits, id, fun h => absurd trivial h⟩
      · cases hnext
  | txIrq =>
      simp only [next] at hnext
      split at hnext
      · cases hnext
        exact ⟨fun _ => by simpa using hwaits, fun _ => rfl, fun h => absurd trivial h⟩
      · cases hnext
  | otherIrq =>
      cases hnext
      exact ⟨fun _ => by simpa using hwaits, id, fun _ => ⟨rfl, rfl, rfl⟩⟩

/-- A sleep ends with an interrupt and not before. -/
theorem pc_of_asleep (hasleep : run.pc = .asleep) (hnext : run.next event = some run') :
    run'.pc = if event.OfIrq then .testing else .asleep := by
  obtain ⟨pc, lock, udr, shift, txc, written, sent⟩ := run
  obtain rfl : pc = .asleep := hasleep
  cases event with
  | write | waitLock | bufferTest | store | sleep | loopTest => cases hnext
  | load =>
      cases udr <;> cases shift <;> cases hnext
      rfl
  | shiftOut =>
      cases shift <;> cases hnext
      rfl
  | txIrq =>
      cases txc <;> cases hnext
      rfl
  | otherIrq =>
      cases hnext
      rfl

/-- The writer goes to sleep. -/
theorem asleep_of_next_sleep (hnext : run.next .sleep = some run') :
    run'.pc = .asleep ∧ run'.lock = run.lock := by
  obtain ⟨pc, lock, udr, shift, txc, written, sent⟩ := run
  cases pc <;> cases hnext
  exact ⟨rfl, rfl⟩

/-- Only its own move puts the writer to sleep, and nothing takes the lock of one that sleeps on. -/
theorem asleep_of_next (hsleep : event ≠ .sleep) (hnext : run.next event = some run')
    (hasleep : run'.pc = .asleep) : run.pc = .asleep ∧ run.lock = run'.lock := by
  obtain ⟨pc, lock, udr, shift, txc, written, sent⟩ := run
  cases event with
  | write | waitLock | store =>
      cases pc <;> cases hnext
      cases hasleep
  | bufferTest | loopTest =>
      cases pc <;> cases hnext
      dsimp only at hasleep
      split at hasleep <;> cases hasleep
  | sleep => exact absurd rfl hsleep
  | load =>
      cases udr <;> cases shift <;> cases hnext
      exact ⟨hasleep, rfl⟩
  | shiftOut =>
      cases shift <;> cases hnext
      exact ⟨hasleep, rfl⟩
  | txIrq =>
      cases txc <;> cases hnext
      cases pc <;> cases hasleep
  | otherIrq =>
      cases hnext
      cases pc <;> cases hasleep

/-- A wait ends with the return. -/
theorem Ok.waits_or_idle (hok : run.Ok) (hwaits : run.pc.waits = true)
    (hnext : run.next event = some run') : run'.pc.waits = true ∨ run'.pc = .idle := by
  by_cases hasleep : run.pc = .asleep
  · left
    rw [pc_of_asleep hasleep hnext]
    split <;> rfl
  · by_cases hwriter : event.OfWriter
    · have hbusy : run.pc ≠ .idle := fun h => by
        rw [h] at hwaits
        cases hwaits
      have hafter := hok.pc_of_writer hwriter hbusy hnext
      cases hpc : run.pc <;> cases hlock : run.lock <;> simp_all [WriterPc.after, WriterPc.waits]
    · exact .inl (by rw [pc_of_not_writer hwriter hasleep hnext, hwaits])

/-- How far the transmitter is from its report. -/
def distance (run : TxRun β) : ℕ :=
  3 * run.udr.toList.length + 2 * run.shift.toList.length + run.txc.toNat

/-- A move of the transmitter, and the handling of its report, bring it nearer. -/
theorem Ok.distance_lt (hok : run.Ok) (huart : event.OfUart)
    (hnext : run.next event = some run') : run'.distance < run.distance := by
  have hwork := hok.work_le
  obtain ⟨pc, lock, udr, shift, txc, written, sent⟩ := run
  cases event with
  | load =>
      cases udr with
      | none => cases hnext
      | some c =>
          cases shift with
          | some d => cases hnext
          | none =>
              cases hnext
              simp [distance]
  | shiftOut =>
      cases shift with
      | none => cases hnext
      | some c =>
          cases hnext
          obtain ⟨rfl, rfl⟩ : udr = none ∧ txc = false := by
            cases udr <;> cases txc <;> simp_all [work]
          simp [distance]
  | txIrq =>
      cases txc with
      | false => cases hnext
      | true =>
          cases hnext
          simp [distance]
  | write | waitLock | bufferTest | store | sleep | loopTest | otherIrq => cases huart

end TxRun

/-- A run of the console without an end. -/
abbrev TxForever (β : Type u) := InfiniteRun (txSystem β) fun _ _ => True

/-- Whoever has something to do does something again: a writer that is awake, and the transmitter
with its interrupt. -/
structure TxForever.Fair (run : TxForever β) : Prop where
  writer : ∀ time, (run.state time).pc ≠ .idle → (run.state time).pc ≠ .asleep →
    ∃ later ≥ time, ∃ event, run.label later = some event ∧ event.OfWriter
  uart : ∀ time, 0 < (run.state time).work →
    ∃ later ≥ time, ∃ event, run.label later = some event ∧ event.OfUart

/-- The writer goes to sleep when the report has come already. -/
def TxForever.SleepsLate (run : TxForever β) (time : ℕ) : Prop :=
  run.label time = some .sleep ∧ (run.state time).lock = false

/-- After every such sleep there is an interrupt, which is none of the transmitter's. -/
def TxForever.Woken (run : TxForever β) : Prop :=
  ∀ time, run.SleepsLate time → ∃ later > time, ∃ event,
    run.label later = some event ∧ event.OfIrq

namespace TxForever

variable {run : TxForever β} {time : ℕ}

theorem ok (run : TxForever β) (time : ℕ) : (run.state time).Ok :=
  ok_of_reachable (run.reachable time)

/-- A writer that is awake moves on. -/
theorem Fair.exists_after (hfair : run.Fair) (hbusy : (run.state time).pc ≠ .idle)
    (hawake : (run.state time).pc ≠ .asleep) :
    ∃ later ≥ time, (run.state later).pc = (run.state time).pc ∧
      (run.state (later + 1)).pc = (run.state later).pc.after (run.state later).lock := by
  let stay : TxRun β → Prop := fun state => state.pc = (run.state time).pc
  have hmoves : ∀ pc : WriterPc β, pc ≠ .idle → pc ≠ .asleep → ∀ lock, pc.after lock ≠ pc := by
    intro pc hidle hasleep lock
    cases pc <;> cases lock <;> simp_all [WriterPc.after]
  have hafter : ∀ later, stay (run.state later) → ∀ event,
      run.label later = some event → event.OfWriter →
      (run.state (later + 1)).pc = (run.state later).pc.after (run.state later).lock := by
    intro later hstay event hlabel hwriter
    have hbusy' : (run.state later).pc ≠ .idle := hstay ▸ hbusy
    exact (run.ok later).pc_of_writer hwriter hbusy' (run.move later event hlabel)
  obtain ⟨later, hlater, hstay, hleaves, event, hlabel, hnext⟩ := run.exists_leaving stay
    TxEvent.OfWriter rfl (fun later _ hstay => hfair.writer later (hstay ▸ hbusy) (hstay ▸ hawake))
    fun later _ event hlabel hstay hwriter hsame => by
      refine hmoves _ (hstay ▸ hbusy) (hstay ▸ hawake) (run.state later).lock ?_
      exact (hafter later hstay event hlabel hwriter).symm.trans (hsame.trans hstay.symm)
  refine ⟨later, hlater, hstay, hafter later hstay event hlabel ?_⟩
  by_contra huart
  exact hleaves ((TxRun.pc_of_not_writer huart (hstay ▸ hawake) hnext).trans hstay)

/-- A write comes to its wait. -/
theorem Fair.exists_waits (hfair : run.Fair) (hbusy : (run.state time).pc ≠ .idle) :
    ∃ later ≥ time, (run.state later).pc.waits = true := by
  have hstep : ∀ time, (run.state time).pc ≠ .idle → (run.state time).pc ≠ .asleep →
      ∃ later ≥ time, ∃ lock, (run.state later).pc = (run.state time).pc.after lock := by
    intro time hidle hasleep
    obtain ⟨later, hlater, hsame, hafter⟩ := hfair.exists_after hidle hasleep
    exact ⟨later + 1, by omega, _, hsame ▸ hafter⟩
  have hstoring : ∀ time c, (run.state time).pc = .storing c →
      ∃ later ≥ time, (run.state later).pc.waits = true := by
    intro time c hpc
    obtain ⟨later, hlater, lock, hafter⟩ := hstep time (by simp [hpc]) (by simp [hpc])
    exact ⟨later, hlater, by rw [hafter, hpc]; rfl⟩
  have hpolling : ∀ time c, (run.state time).pc = .polling c →
      ∃ later ≥ time, (run.state later).pc.waits = true := by
    intro time c hpc
    obtain ⟨middle, hmiddle, lock, hafter⟩ := hstep time (by simp [hpc]) (by simp [hpc])
    obtain ⟨later, hlater, hwaits⟩ := hstoring middle c (by rw [hafter, hpc]; rfl)
    exact ⟨later, by omega, hwaits⟩
  cases hpc : (run.state time).pc with
  | idle => exact absurd hpc hbusy
  | locking c =>
      obtain ⟨middle, hmiddle, lock, hafter⟩ := hstep time hbusy (by simp [hpc])
      obtain ⟨later, hlater, hwaits⟩ := hpolling middle c (by rw [hafter, hpc]; rfl)
      exact ⟨later, by omega, hwaits⟩
  | polling c => exact hpolling time c hpc
  | storing c => exact hstoring time c hpc
  | dozing | asleep | testing => exact ⟨time, Nat.le_refl time, by rw [hpc]; rfl⟩

/-- The report comes. -/
theorem Fair.exists_reported (hfair : run.Fair) (hwaits : (run.state time).pc.waits = true) :
    ∃ later ≥ time, (run.state later).pc.waits = true ∧ (run.state later).lock = false := by
  cases hlock : (run.state time).lock with
  | false => exact ⟨time, Nat.le_refl time, hwaits, hlock⟩
  | true =>
      have hmeasure : ∀ later ≥ time, ∀ event, run.label later = some event →
          (run.state later).pc.waits = true ∧ (run.state later).lock = true →
          (run.state (later + 1)).pc.waits = true ∧ (run.state (later + 1)).lock = true →
            (run.state (later + 1)).distance ≤ (run.state later).distance ∧
              (event.OfUart → (run.state (later + 1)).distance < (run.state later).distance) := by
        intro later _ event hlabel hstay _
        have hnext := run.move later event hlabel
        refine ⟨?_, fun huart => (run.ok later).distance_lt huart hnext⟩
        by_cases huart : event.OfUart
        · exact ((run.ok later).distance_lt huart hnext).le
        · obtain ⟨hudr, hshift, htxc⟩ := (TxRun.next_of_waits hstay.1 hnext).2.2 huart
          rw [TxRun.distance, hudr, hshift, htxc, TxRun.distance]
      let stay : TxRun β → Prop := fun state => state.pc.waits = true ∧ state.lock = true
      obtain ⟨later, hlater, hstay, hleaves⟩ := run.exists_last stay TxRun.distance
        TxEvent.OfUart ⟨hwaits, hlock⟩ (fun later _ hstay => hfair.uart later (by
          rw [(run.ok later).work_eq, if_pos hstay.1, hstay.2]
          decide)) hmeasure
      obtain ⟨event, -, hnext⟩ := run.exists_step stay hstay hleaves
      have hwaits' := (TxRun.next_of_waits hstay.1 hnext).1 hstay.2
      exact ⟨later + 1, by omega, hwaits', by simpa [stay, hwaits'] using hleaves⟩

/-- A writer that is asleep after its report has gone to sleep late, and has not been woken
since. -/
theorem exists_sleepsLate (hasleep : (run.state time).pc = .asleep)
    (hlock : (run.state time).lock = false) :
    ∃ before < time, run.SleepsLate before ∧
      ∀ middle, before < middle → middle ≤ time → (run.state middle).pc = .asleep := by
  induction time with
  | zero =>
      have hstart : run.state 0 = .start := run.init
      rw [hstart] at hasleep
      cases hasleep
  | succ time ih =>
      have hextend : (run.state time).pc = .asleep → (run.state time).lock = false →
          ∃ before < time + 1, run.SleepsLate before ∧
            ∀ middle, before < middle → middle ≤ time + 1 → (run.state middle).pc = .asleep := by
        intro hpc hclear
        obtain ⟨before, hbefore, hlate, hsince⟩ := ih hpc hclear
        refine ⟨before, Nat.lt_succ_of_lt hbefore, hlate, fun middle hmiddle hle => ?_⟩
        rcases Nat.le_succ_iff.mp hle with hle | rfl
        · exact hsince middle hmiddle hle
        · exact hasleep
      cases hlabel : run.label time with
      | none =>
          have hsame := run.rest time hlabel
          exact hextend (hsame ▸ hasleep) (hsame ▸ hlock)
      | some event =>
          have hnext := run.move time event hlabel
          by_cases hsleep : event = .sleep
          · subst hsleep
            refine ⟨time, Nat.lt_succ_self time, ⟨hlabel, ?_⟩, fun middle hmiddle hle => ?_⟩
            · exact (TxRun.asleep_of_next_sleep hnext).2.symm.trans hlock
            · rwa [Nat.le_antisymm hle hmiddle]
          · obtain ⟨hpc, hclear⟩ := TxRun.asleep_of_next hsleep hnext hasleep
            exact hextend hpc (hclear.trans hlock)

/-- A sleep after the report ends. -/
theorem Woken.exists_testing (hwoken : run.Woken) (hasleep : (run.state time).pc = .asleep)
    (hlock : (run.state time).lock = false) :
    ∃ later ≥ time, (run.state later).pc = .testing := by
  let stay : TxRun β → Prop := fun state => state.pc = .asleep ∧ state.lock = false
  have hirq : ∀ later, stay (run.state later) →
      ∃ last ≥ later, ∃ event, run.label last = some event ∧ event.OfIrq := by
    rintro later ⟨hpc, hclear⟩
    obtain ⟨before, hbefore, hlate, hsince⟩ := exists_sleepsLate hpc hclear
    obtain ⟨last, hlast, event, hlabel, hhelps⟩ := hwoken before hlate
    refine ⟨last, ?_, event, hlabel, hhelps⟩
    -- an interrupt before would have ended the sleep
    by_contra hearly
    have hwakes := TxRun.pc_of_asleep (hsince last hlast (by omega)) (run.move last event hlabel)
    rw [if_pos hhelps, hsince (last + 1) (by omega) (by omega)] at hwakes
    cases hwakes
  have hleave : ∀ later event, stay (run.state later) → run.label later = some event →
      (event.OfIrq → (run.state (later + 1)).pc = .testing) ∧
        (¬ event.OfIrq → stay (run.state (later + 1))) := by
    rintro later event ⟨hpc, hclear⟩ hlabel
    have hnext := run.move later event hlabel
    have hafter := TxRun.pc_of_asleep hpc hnext
    refine ⟨fun h => by rw [hafter, if_pos h], fun h => ⟨by rw [hafter, if_neg h], ?_⟩⟩
    exact (TxRun.next_of_waits (by rw [hpc]; rfl) hnext).2.1 hclear
  obtain ⟨later, hlater, hstay, hleaves, event, hlabel, -⟩ := run.exists_leaving stay
    TxEvent.OfIrq ⟨hasleep, hlock⟩ (fun later _ hstay => hirq later hstay)
    fun later _ event hlabel hstay hhelps hsame => by
      have htesting := (hleave later event hstay hlabel).1 hhelps
      rw [hsame.1] at htesting
      cases htesting
  have hhelps : event.OfIrq := by
    by_contra h
    exact hleaves ((hleave later event hstay hlabel).2 h)
  exact ⟨later + 1, by omega, (hleave later event hstay hlabel).1 hhelps⟩

/-- After the report the write returns. -/
theorem Fair.exists_idle (hfair : run.Fair) (hwoken : run.Woken)
    (hwaits : (run.state time).pc.waits = true) (hlock : (run.state time).lock = false) :
    ∃ later ≥ time, (run.state later).pc = .idle := by
  by_contra hnever
  push Not at hnever
  have hkeeps : ∀ later ≥ time,
      (run.state later).pc.waits = true ∧ (run.state later).lock = false := by
    refine run.stays (fun state => state.pc.waits = true ∧ state.lock = false) ⟨hwaits, hlock⟩ ?_
    intro later hlater event hlabel hstay
    have hnext := run.move later event hlabel
    refine ⟨?_, (TxRun.next_of_waits hstay.1 hnext).2.1 hstay.2⟩
    exact ((run.ok later).waits_or_idle hstay.1 hnext).resolve_right (hnever (later + 1) (by omega))
  have htesting : ∀ later ≥ time, (run.state later).pc ≠ .testing := by
    intro later hlater hpc
    obtain ⟨last, hlast, hsame, hafter⟩ :=
      hfair.exists_after (hnever later hlater) (by simp [hpc])
    rw [hsame, hpc, (hkeeps last (by omega)).2] at hafter
    exact hnever (last + 1) (by omega) hafter
  have hasleep : ∀ later ≥ time, (run.state later).pc ≠ .asleep := by
    intro later hlater hpc
    obtain ⟨last, hlast, htest⟩ := hwoken.exists_testing hpc (hkeeps later hlater).2
    exact htesting last (by omega) htest
  obtain ⟨later, hlater, hsame, hafter⟩ :=
    hfair.exists_after (hnever time (Nat.le_refl time)) (hasleep time (Nat.le_refl time))
  refine hasleep (later + 1) (by omega) ?_
  have htime := htesting time (Nat.le_refl time)
  rw [hafter, hsame]
  cases hpc : (run.state time).pc with
  | dozing | asleep => rfl
  | testing => exact absurd hpc htime
  | idle | locking | polling | storing => simp [hpc, WriterPc.waits] at hwaits

/-- Without an interrupt the writer sleeps on. -/
theorem SleepsLate.exists_irq (hlate : run.SleepsLate time) {later : ℕ} (hlater : later > time)
    (hidle : (run.state later).pc = .idle) :
    ∃ later > time, ∃ event, run.label later = some event ∧ event.OfIrq := by
  by_contra hnone
  push Not at hnone
  have hnext := run.move time .sleep hlate.1
  have hasleep : (run.state (time + 1)).pc = .asleep := (TxRun.asleep_of_next_sleep hnext).1
  have hforever : ∀ later ≥ time + 1, (run.state later).pc = .asleep := by
    refine run.stays (fun state => state.pc = .asleep) hasleep ?_
    intro later hlater event hlabel hpc
    have hafter := TxRun.pc_of_asleep hpc (run.move later event hlabel)
    rwa [if_neg (hnone later hlater event hlabel)] at hafter
  rw [hforever later hlater] at hidle
  cases hidle

end TxForever

/-- Where the processor and the transmitter go on, all writes return exactly if an interrupt
follows whenever the writer goes to sleep after its report has come. -/
theorem console_serial_write_returns_iff (run : TxForever β) (hfair : run.Fair) :
    (∀ time, ∃ later ≥ time, (run.state later).pc = .idle) ↔ run.Woken := by
  constructor
  · intro hreturns time hlate
    obtain ⟨later, hlater, hidle⟩ := hreturns (time + 1)
    exact hlate.exists_irq hlater hidle
  · intro hwoken time
    by_cases hidle : (run.state time).pc = .idle
    · exact ⟨time, Nat.le_refl time, hidle⟩
    · obtain ⟨start, hstart, hwaits⟩ := hfair.exists_waits hidle
      obtain ⟨middle, hmiddle, hwaits', hlock⟩ := hfair.exists_reported hwaits
      obtain ⟨later, hlater, hdone⟩ := hfair.exists_idle hwoken hwaits' hlock
      exact ⟨later, by omega, hdone⟩

/-- A write whose report comes before the writer has gone to sleep. -/
def lateSleep : List (TxEvent (BitVec 8)) :=
  [.write 7, .waitLock, .bufferTest, .store, .load, .shiftOut, .txIrq, .sleep]

/-- Some other interrupt wakes the writer up. -/
def lateSleepWoken : List (TxEvent (BitVec 8)) := lateSleep ++ [.otherIrq, .loopTest]

/-- A run that ends with a move of the writer and leaves nothing to do is fair. -/
theorem fair_ofReplay {labels : List (TxEvent (BitVec 8))}
    {hreplay : (TransitionSystem.replay TxRun.next (fun _ _ => True) labels
      (.start : TxRun (BitVec 8))).isSome}
    (hlast : ∃ event ∈ labels.getLast?, event.OfWriter)
    (hend : let final :=
        InfiniteRun.replayed TxRun.next (fun _ _ => True) labels .start labels.length
      (final.pc = .idle ∨ final.pc = .asleep) ∧ final.work = 0)
    (huart : ∀ time < labels.length,
      0 < (InfiniteRun.replayed TxRun.next (fun _ _ => True) labels .start time).work →
        ∃ later < labels.length, time ≤ later ∧ ∃ event ∈ labels[later]?, event.OfUart) :
    TxForever.Fair (.ofReplay labels .start rfl hreplay) := by
  have hrest : ∀ time, labels.length ≤ time →
      InfiniteRun.replayed TxRun.next (fun _ _ => True) labels .start time =
        InfiniteRun.replayed TxRun.next (fun _ _ => True) labels .start labels.length :=
    fun time htime => InfiniteRun.replayed_of_length_le htime
  refine ⟨fun time hbusy hawake => ?_, fun time hwork => ?_⟩
  · have htime : time < labels.length := by
      by_contra hover
      have hstill := hrest time (not_lt.mp hover)
      rcases hend.1 with hidle | hasleep
      · exact hbusy ((congrArg TxRun.pc hstill).trans hidle)
      · exact hawake ((congrArg TxRun.pc hstill).trans hasleep)
    obtain ⟨event, hevent, hwriter⟩ := hlast
    rw [List.getLast?_eq_getElem?] at hevent
    exact ⟨labels.length - 1, by omega, event, hevent, hwriter⟩
  · have htime : time < labels.length := by
      by_contra hover
      have hstill := hrest time (not_lt.mp hover)
      exact hwork.ne' ((congrArg TxRun.work hstill).trans hend.2)
    obtain ⟨later, -, hlater, event, hlabel, hhelps⟩ := huart time htime hwork
    exact ⟨later, hlater, event, hlabel, hhelps⟩

/-- The same write with and without an interrupt after its sleep. -/
theorem console_serial_write_returns_iff_two :
    (∃ run : TxForever (BitVec 8), run.SleepsLate 7 ∧
      ∀ time, ∃ later ≥ time, (run.state later).pc = .idle) ∧
    ∃ run : TxForever (BitVec 8), run.SleepsLate 7 ∧
      ¬ ∀ time, ∃ later ≥ time, (run.state later).pc = .idle := by
  constructor
  · let run : TxForever (BitVec 8) := .ofReplay lateSleepWoken .start rfl (by decide)
    have hfair : run.Fair := fair_ofReplay (by decide) (by decide) (by decide)
    have honly : ∀ time < 10, lateSleepWoken[time]? = some .sleep → time = 7 := by decide
    refine ⟨run, ⟨rfl, by decide⟩, (console_serial_write_returns_iff run hfair).mpr ?_⟩
    rintro time ⟨hlabel, -⟩
    obtain ⟨htime, -⟩ := List.getElem?_eq_some_iff.mp hlabel
    obtain rfl := honly time htime hlabel
    exact ⟨8, by decide, .otherIrq, rfl, trivial⟩
  · let run : TxForever (BitVec 8) := .ofReplay lateSleep .start rfl (by decide)
    have hfair : run.Fair := fair_ofReplay (by decide) (by decide) (by decide)
    have hlate : run.SleepsLate 7 := ⟨rfl, by decide⟩
    refine ⟨run, hlate, fun hreturns => ?_⟩
    obtain ⟨later, hlater, event, hlabel, -⟩ :=
      (console_serial_write_returns_iff run hfair).mp hreturns 7 hlate
    obtain ⟨htime, -⟩ := List.getElem?_eq_some_iff.mp hlabel
    have hlength : lateSleep.length = 8 := rfl
    omega

end Cyancore.Driver
