/-
# The spinlock of the AVR port

`spinlock.S` as code for the instruction-set fragment, and the contexts that use it on
one core.  A context runs until an interrupt takes the core away from it, which can
happen between any two instructions while its interrupt flag is set.  Outside the two
functions a context may do anything to its registers and to memory other than the key.
-/

import Cyancore.Arch.Avr
import Cyancore.Math.Interleaving

namespace Cyancore.Locks

open Cyancore.Avr Cyancore.Math

/-- `spinlock_acquire`; the labels `1:` stand at 7 and 18. -/
def spinlockAcquire : List Instr :=
  [ .push .r31,
    .push .r30,
    .push .r19,
    .push .r18,
    .push .r0,
    .movw .r31 .r30 .r25 .r24,
    .inSreg .r0,
    .cli,
    .ldInc .r18,
    .ld .r19,
    .cpi .r18 0x01,
    .cpc .r19 .r1,
    .brne 18,
    .outSreg .r0,
    .eor .r1 .r1,
    .eor .r1 .r1,
    .eor .r1 .r1,
    .rjmp 7,
    .ldi .r18 0x01,
    .mov .r19 .r1,
    .movw .r31 .r30 .r25 .r24,
    .stInc .r18,
    .st .r19,
    .outSreg .r0,
    .pop .r0,
    .pop .r18,
    .pop .r19,
    .pop .r30,
    .pop .r31,
    .ret ]

/-- `spinlock_release`. -/
def spinlockRelease : List Instr :=
  [ .push .r31,
    .push .r30,
    .push .r0,
    .movw .r31 .r30 .r25 .r24,
    .inSreg .r0,
    .cli,
    .stInc .r1,
    .st .r1,
    .outSreg .r0,
    .pop .r0,
    .pop .r30,
    .pop .r31,
    .ret ]

/-- What a context is doing. -/
inductive Activity
  | outside
  | acquiring (pc : ℕ)
  | holding
  | releasing (pc : ℕ)
  deriving DecidableEq, Repr

/-- A context, with what it has done since it last called `spinlock_acquire`. -/
structure Context where
  activity : Activity
  cpu : Cpu
  trace : List Access

/-- The data space and the context that has the core. -/
structure Core (tid : Type) where
  memory : DataMemory
  running : tid

/-- What happens next. -/
inductive Choice (tid : Type)
  | /-- The next instruction of the function being run. -/
    exec
  | /-- An interrupt that gives the core to another context. -/
    switchTo (next : tid)
  | /-- A call of the function whose turn it is, from code that left the registers so. -/
    call (cpu : Cpu)
  | /-- Other code, which leaves the registers so and writes one byte. -/
    work (cpu : Cpu) (addr : BitVec 16) (value : BitVec 8)

/-- The registers at a call: `r1` is the zero register of the calling convention, and the
argument is in `r25:r24`. -/
def callRegs (key : BitVec 16) (regs : Reg → BitVec 8) : Reg → BitVec 8
  | .r1 => 0
  | .r24 => key.extractLsb' 0 8
  | .r25 => key.extractLsb' 8 8
  | r => regs r

variable {tid : Type}

/-- The next instruction of `code`, or the return from it. -/
def stepCode (code : List Instr) (pc : ℕ) (inside : ℕ → Activity) (after : Activity)
    (core : Core tid) (context : Context) : Option (Core tid × Context) :=
  match code[pc]? with
  | none => none
  | some .ret => some (core, { context with activity := after })
  | some instr =>
      let config := (Config.mk context.cpu core.memory pc context.trace).exec instr
      some ({ core with memory := config.memory },
        { activity := inside config.pc, cpu := config.cpu, trace := config.trace })

/-- A move of context `t`, which must have the core. -/
def spinAct [DecidableEq tid] (key : BitVec 16) (t : tid) (choice : Choice tid) (core : Core tid)
    (context : Context) : Option (Core tid × Context) :=
  if core.running = t then
    match choice, context.activity with
    | .switchTo next, _ =>
        if context.cpu.flagI then some ({ core with running := next }, context) else none
    | .exec, .acquiring pc => stepCode spinlockAcquire pc .acquiring .holding core context
    | .exec, .releasing pc => stepCode spinlockRelease pc .releasing .outside core context
    | .call cpu, .outside =>
        some (core,
          { activity := .acquiring 0
            cpu := { cpu with regs := callRegs key cpu.regs }
            trace := [] })
    | .call cpu, .holding =>
        some (core, { context with
          activity := .releasing 0, cpu := { cpu with regs := callRegs key cpu.regs } })
    | .work cpu addr value, .outside | .work cpu addr value, .holding =>
        if addr = key ∨ addr = key + 1 then none
        else some ({ core with memory := Function.update core.memory addr value },
          { context with cpu := cpu })
    | _, _ => none
  else none

/-- A context before its first call, with interrupts enabled. -/
def Context.start : Context where
  activity := .outside
  cpu := { regs := fun _ => 0, sreg := 0x80, stack := [] }
  trace := []

/-- The contexts on a core whose memory may hold anything. -/
def spinSystem [DecidableEq tid] (key : BitVec 16) :
    TransitionSystem (Pool tid (Core tid) Context) (tid × Choice tid) :=
  Pool.interleaving (fun _ => True) .start (spinAct key)

/-- The last thing done was to find the key with a value other than 1 and to set it to 1, all of
it with interrupts off. -/
def TestAndSet (key : BitVec 16) (trace : List Access) : Prop :=
  ∃ lo hi before, ¬ (lo = 1 ∧ hi = 0) ∧
    trace = .outSreg :: .store (key + 1) 0 :: .store key 1 ::
      .load (key + 1) hi :: .load key lo :: .cli :: before

/-- Every context that returned from `spinlock_acquire` did so after a test-and-set, and no two
contexts hold the lock. -/
structure SpinlockSafe (key : BitVec 16) (pool : Pool tid (Core tid) Context) : Prop where
  returned : ∀ t, (pool.thread t).activity = .holding → TestAndSet key (pool.thread t).trace
  exclusive : ∀ p q, (pool.thread p).activity = .holding → (pool.thread q).activity = .holding →
    p = q

/-- A test that starts at another address than the key finds the value 1 there. -/
def StraysIntoOne (key : BitVec 16) (_t : tid) (choice : Choice tid) (core : Core tid)
    (context : Context) : Prop :=
  choice = .exec → context.activity = .acquiring 8 → context.cpu.z ≠ key →
    core.memory context.cpu.z = 1 ∧ core.memory (context.cpu.z + 1) = 0

end Cyancore.Locks
