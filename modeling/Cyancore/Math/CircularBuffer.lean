/-
# Queues kept in a circular buffer

A buffer of `n` cells holds a queue of at most `n` values: the values lie in consecutive
cells from a start index on, counted modulo `n`.  Appending writes the cell after the
last value, and taking moves the start by one.  An index may be reduced modulo `n` at
any time.
-/

import Mathlib.Data.Nat.ModEq
import Mathlib.Data.List.Rotate

namespace Cyancore.Math

universe u

variable {α : Type u} {n : ℕ}

/-- The queue lies in the cells from `start` on. -/
structure Stored (cells : Vector α n) (start : ℕ) (queue : List α) : Prop where
  fits : queue.length ≤ n
  cell : ∀ i < queue.length, cells[(start + i) % n]? = queue[i]?

namespace Stored

variable {cells : Vector α n} {start : ℕ} {queue : List α} {value : α}

/-- Nothing is stored anywhere. -/
theorem nil (cells : Vector α n) (start : ℕ) : Stored cells start [] :=
  ⟨Nat.zero_le n, fun _ hi => absurd hi (Nat.not_lt_zero _)⟩

/-- Only the residue of the start matters. -/
theorem congr_start {start' : ℕ} (hstored : Stored cells start queue)
    (hstart : start' % n = start % n) : Stored cells start' queue := by
  refine ⟨hstored.fits, fun i hi => ?_⟩
  have hindex : (start' + i) % n = (start + i) % n := Nat.ModEq.add_right i hstart
  rw [hindex]
  exact hstored.cell i hi

/-- Two offsets below `n` name the same cell only if they are equal. -/
theorem add_mod_inj {i j : ℕ} (hi : i < n) (hj : j < n)
    (hcell : (start + i) % n = (start + j) % n) : i = j := by
  have hmod : i % n = j % n := Nat.ModEq.add_left_cancel' start hcell
  rwa [Nat.mod_eq_of_lt hi, Nat.mod_eq_of_lt hj] at hmod

/-- A queue with room takes one more value, in the cell after its last one. -/
theorem append (hstored : Stored cells start queue) (hroom : queue.length < n) {index : ℕ}
    (hindex : index < n) (hcell : index = (start + queue.length) % n) :
    Stored (cells.set index value hindex) start (queue ++ [value]) := by
  refine ⟨by simpa using Nat.succ_le_of_lt hroom, fun i hi => ?_⟩
  have hle : i ≤ queue.length := by simpa [Nat.lt_succ_iff] using hi
  rcases Nat.lt_or_eq_of_le hle with hlt | rfl
  · have hne : index ≠ (start + i) % n := by
      rintro hsame
      have heq := add_mod_inj hroom (Nat.lt_of_lt_of_le hlt hstored.fits) (hcell.symm.trans hsame)
      omega
    rw [Vector.getElem?_set_ne hindex hne, List.getElem?_append_left hlt]
    exact hstored.cell i hlt
  · rw [← hcell, Vector.getElem?_set_self hindex]
    simp

/-- The start of a queue that is not empty holds its first value. -/
theorem head (hstored : Stored cells start (value :: queue)) :
    cells[start % n]? = some value := by
  simpa using hstored.cell 0 (by simp)

/-- Without its first value the queue starts one cell later. -/
theorem tail (hstored : Stored cells start (value :: queue)) :
    Stored cells (start + 1) queue := by
  refine ⟨Nat.le_of_succ_le hstored.fits, fun i hi => ?_⟩
  have hcell := hstored.cell (i + 1) (Nat.succ_lt_succ hi)
  rwa [List.getElem?_cons_succ, Nat.add_comm i 1, ← Nat.add_assoc] at hcell

/-- What a stored queue begins with is stored as well. -/
theorem of_prefix {before : List α} (hstored : Stored cells start queue)
    (hbefore : before <+: queue) : Stored cells start before := by
  refine ⟨hbefore.length_le.trans hstored.fits, fun i hi => ?_⟩
  rw [hstored.cell i (Nat.lt_of_lt_of_le hi hbefore.length_le),
    List.prefix_iff_getElem?.mp hbefore i hi, List.getElem?_eq_getElem hi]

/-- In a full buffer the value that comes next takes the place of the first one. -/
theorem push (hstored : Stored cells start queue) (hfull : queue.length = n) {index : ℕ}
    (hindex : index < n) (hcell : index = start % n) :
    Stored (cells.set index value hindex) (start + 1) (queue.tail ++ [value]) := by
  cases queue with
  | nil => exact absurd hfull (Nat.ne_of_lt (Nat.zero_lt_of_lt hindex))
  | cons first queue =>
      rw [List.length_cons] at hfull
      refine hstored.tail.append (by omega) hindex ?_
      rw [hcell, show start + 1 + queue.length = start + n by omega, Nat.add_mod_right]

end Stored

end Cyancore.Math
