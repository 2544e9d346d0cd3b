/-
# The bakery lock

`bakerylock.c` cut at its accesses to the lock, which are volatile and stay in program
order.  A core that is not using the lock starts `bakerylock_acquire`, and one that has
returned from it goes on to `bakerylock_release`; every move in between is one read or
one write of `thread_count` or `protect`.  The two sides of a comparison are read in
either order.
-/

import Cyancore.Math.Interleaving
import Mathlib.Algebra.Group.Nat.Defs
import Mathlib.Data.Fin.Basic

namespace Cyancore.Locks

open Cyancore.Math

/-- `bakerylock_t`, for `n` cores; the counts are `uint8_t`. -/
structure Bakerylock (n : ℕ) where
  threadCount : Fin n → ℕ
  protect : Fin n → Bool

/-- A write to a field of type `uint8_t`. -/
def toUint8 (value : ℕ) : ℕ := value % 2 ^ 8

/-- The two comparisons in the condition of the inner loop. -/
inductive Test
  | less
  | equal
  deriving DecidableEq, Repr

/-- The next access of a core to the lock, with the local variables it still needs. -/
inductive Phase (n : ℕ)
  | /-- Outside; next `protect[tid] = 1`. -/
    idle
  | /-- First loop at `i`; next the read of `thread_count[i]`, or the write of the ticket. -/
    scan (i nMax : ℕ)
  | /-- Next `protect[tid] = 0`. -/
    leaveDoorway
  | /-- Second loop at `i`; next the read of `protect[i]`. -/
    awaitProtect (i : Fin n)
  | /-- Next the read of `thread_count[i]` as a condition. -/
    testTicket (i : Fin n)
  | /-- Next one side of a comparison. -/
    compare (test : Test) (i : Fin n)
  | /-- `thread_count[i]` was read; next `thread_count[tid]`. -/
    readOther (test : Test) (i : Fin n) (other : ℕ)
  | /-- `thread_count[tid]` was read; next `thread_count[i]`. -/
    readOwn (test : Test) (i : Fin n) (own : ℕ)
  | /-- `bakerylock_acquire` has returned; next `thread_count[tid] = 0`. -/
    holding
  deriving DecidableEq, Repr

/-- Which side of a comparison is read first. -/
inductive Side
  | other
  | own
  deriving DecidableEq, Repr

variable {n : ℕ}

namespace Bakerylock

variable (key : Bakerylock n)

/-- `thread_count[i] = value`. -/
def setCount (i : Fin n) (value : ℕ) : Bakerylock n :=
  { key with threadCount := Function.update key.threadCount i (toUint8 value) }

/-- `protect[i] = value`. -/
def setProtect (i : Fin n) (value : Bool) : Bakerylock n :=
  { key with protect := Function.update key.protect i value }

end Bakerylock

/-- The second loop moves on to the next core, or `bakerylock_acquire` returns. -/
def Phase.advance (i : Fin n) : Phase n :=
  if h : i + 1 < n then .awaitProtect ⟨i + 1, h⟩ else .holding

/-- The rest of the condition of the inner loop once both sides of a comparison are read. -/
def Phase.decideTest (test : Test) (tid i : Fin n) (other own : ℕ) : Phase n :=
  match test with
  | .less => if other < own then .testTicket i else .compare .equal i
  | .equal => if other = own ∧ i < tid then .testTicket i else .advance i

/-- One access of core `tid` in `bakerylock_acquire` or `bakerylock_release`. -/
def bakeryAct (tid : Fin n) (side : Side) (key : Bakerylock n) :
    Phase n → Option (Bakerylock n × Phase n)
  | .idle => some (key.setProtect tid true, .scan 0 0)
  | .scan i nMax =>
      if h : i < n then
        let nCust := key.threadCount ⟨i, h⟩
        some (key, .scan (i + 1) (if nMax < nCust then nCust else nMax))
      else some (key.setCount tid (nMax + 1), .leaveDoorway)
  | .leaveDoorway => some (key.setProtect tid false, .awaitProtect ⟨0, tid.pos⟩)
  | .awaitProtect i =>
      if key.protect i then some (key, .awaitProtect i) else some (key, .testTicket i)
  | .testTicket i =>
      if key.threadCount i = 0 then some (key, .advance i) else some (key, .compare .less i)
  | .compare test i =>
      match side with
      | .other => some (key, .readOther test i (key.threadCount i))
      | .own => some (key, .readOwn test i (key.threadCount tid))
  | .readOther test i other =>
      some (key, .decideTest test tid i other (key.threadCount tid))
  | .readOwn test i own =>
      some (key, .decideTest test tid i (key.threadCount i) own)
  | .holding => some (key.setCount tid 0, .idle)

/-- The lock and what every core is doing. -/
abbrev BakeryPool (n : ℕ) := Pool (Fin n) (Bakerylock n) (Phase n)

/-- A lock in zeroed memory. -/
def Bakerylock.zero (n : ℕ) : Bakerylock n := ⟨fun _ => 0, fun _ => false⟩

/-- `n` cores on a lock in zeroed memory. -/
def bakerySystem (n : ℕ) : TransitionSystem (BakeryPool n) (Fin n × Side) :=
  Pool.interleaving (· = Bakerylock.zero n) .idle bakeryAct

/-- The core is not about to store a ticket that `uint8_t` does not hold. -/
def TicketFits (_tid : Fin n) (_side : Side) (_key : Bakerylock n) : Phase n → Prop
  | .scan i nMax => n ≤ i → nMax + 1 ≤ 255
  | _ => True

end Cyancore.Locks
