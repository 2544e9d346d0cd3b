/-
# Copying bytes

`memcpy` copies the lowest byte first.  `memmove` takes one unsigned difference of the two
pointers, which is large whenever a copy upwards reads every byte before it is overwritten,
and copies the highest byte first otherwise.  Its result is the destination; that of
`memcpy`, which moves its own cursor and returns it, is the end of the destination.

Pointers and `size_t` have the same width.
-/

import Cyancore.Basic
import Cyancore.Math.AddressSpace

namespace Cyancore.Libc

open Cyancore.Math Cyancore.Math.Space

variable {width : ℕ}

/-- The loop of `memcpy`, with so many bytes left. -/
def memcpyLoop (dst src : BitVec width) (mem : Space width UInt8) :
    ℕ → BitVec width × Space width UInt8
  | 0 => (dst, mem)
  | size + 1 => memcpyLoop (dst + 1) (src + 1) (Function.update mem dst (mem src)) size

/-- `memcpy`, with the pointer it returns and the memory it leaves. -/
def memcpy (mem : Space width UInt8) (i j size : BitVec width) :
    BitVec width × Space width UInt8 := memcpyLoop i j mem size.toNat

/-- The cursors of the loop in `memmove`. -/
structure MoveState (width : ℕ) where
  src : BitVec width
  dst : BitVec width
  mem : Space width UInt8

/-- One turn of the loop in `memmove`. -/
def moveTurn (stop : BitVec width) (state : MoveState width) :
    Run (Turn (MoveState width) (Space width UInt8)) :=
  if state.dst ≠ stop then
    let dst := state.dst - 1
    let src := state.src - 1
    .done (.next ⟨src, dst, Function.update state.mem dst (state.mem src)⟩)
  else .done (.exit state.mem)

/-- `memmove`, with the pointer it returns and the memory it leaves. -/
def memmove (mem : Space width UInt8) (i j size : BitVec width) (fuel : ℕ) :
    Run (BitVec width × Space width UInt8) :=
  if size ≤ i - j then .done (i, (memcpy mem i j size).2)
  else do
    let mem ← loop (moveTurn i) fuel ⟨j + size, i + size, mem⟩
    .done (i, mem)

/-! ## The copies -/

section Copies

variable {mem : Space width UInt8} {i j size : BitVec width}

theorem memcpyLoop_eq (mem : Space width UInt8) (dst src : BitVec width) (size : ℕ) :
    memcpyLoop dst src mem size = (offset dst size, copyUp mem dst src size) := by
  induction size generalizing mem dst src with
  | zero => rw [memcpyLoop, offset_zero, copyUp]
  | succ size ih => rw [memcpyLoop, ih, offset_succ, copyUp]

theorem memcpy_eq (mem : Space width UInt8) (i j size : BitVec width) :
    memcpy mem i j size = (i + size, copyUp mem i j size.toNat) := by
  rw [memcpy, memcpyLoop_eq, offset_toNat]

/-- The loop of `memmove` copies downwards. -/
theorem returns_moveTurn (mem : Space width UInt8) (i j : BitVec width) {size : ℕ}
    (hsize : size < 2 ^ width) :
    Returns (fun fuel => loop (moveTurn i) fuel ⟨offset j size, offset i size, mem⟩)
      (copyDown mem i j size) := by
  induction size generalizing mem with
  | zero =>
      rw [offset_zero, offset_zero]
      have hturn : moveTurn i ⟨j, i, mem⟩ = .done (.exit mem) := if_neg (not_not.mpr rfl)
      exact (returns_loop_of_exit hturn).mpr rfl
  | succ size ih =>
      have hgoes : offset i (size + 1) ≠ i := by
        rw [← offset_zero i, offset_offset, ne_eq, offset_inj (by omega) (by omega)]
        omega
      have hturn : moveTurn i ⟨offset j (size + 1), offset i (size + 1), mem⟩ =
          .done (.next ⟨offset j size, offset i size,
            Function.update mem (offset i size) (mem (offset j size))⟩) := by
        rw [moveTurn, if_pos hgoes, offset_succ_sub_one, offset_succ_sub_one]
      rw [returns_loop_of_next hturn]
      exact ih _ (by omega)

/-- On ranges that do not wrap, `memmove` is the simultaneous copy. -/
theorem memmove_returns (mem : Space width UInt8) (hi : i.toNat + size.toNat ≤ 2 ^ width)
    (hj : j.toNat + size.toNat ≤ 2 ^ width) :
    Returns (memmove mem i j size) (i, moved mem i j size.toNat) := by
  have hsize := size.isLt
  by_cases hup : size ≤ i - j
  · have hfar : size.toNat ≤ distance j i := hup
    refine ⟨0, ?_⟩
    rw [memmove, if_pos hup, memcpy_eq, copyUp_eq_moved (by omega) (.inr hfar)]
  · have hnear : distance j i < size.toNat := not_le.mp hup
    have hapart : distance i j = 0 ∨ size.toNat ≤ distance i j := by
      rcases lt_trichotomy i.toNat j.toNat with hbelow | hsame | habove
      · rw [distance_of_lt hbelow] at hnear
        omega
      · exact .inl (distance_eq_zero_iff.mpr (BitVec.eq_of_toNat_eq hsame.symm))
      · rw [distance_of_lt habove]
        omega
    have hloop := returns_moveTurn mem i j hsize
    rw [offset_toNat, offset_toNat, copyDown_eq_moved (by omega) hapart] at hloop
    obtain ⟨fuel, hfuel⟩ := hloop
    refine ⟨fuel, ?_⟩
    dsimp only at hfuel
    rw [memmove, if_neg hup, hfuel, Outcome.done_bind]

/-- `memmove` copies all bytes at once and returns the destination. -/
theorem memmove_spec (mem : Space width UInt8) (i j size : BitVec width)
    (hi : i.toNat + size.toNat ≤ 2 ^ width) (hj : j.toNat + size.toNat ≤ 2 ^ width) :
    ∃ mem', Returns (memmove mem i j size) (i, mem') ∧ Moved mem mem' i j size.toNat :=
  ⟨_, memmove_returns mem hi hj, moved_spec size.isLt.le⟩

/-- Four bytes to where the last two of them are. -/
theorem memmove_spec_overlap :
    (0x102#16).toNat + (4#16).toNat ≤ 2 ^ 16 ∧ (0x100#16).toNat + (4#16).toNat ≤ 2 ^ 16 ∧
      ∃ mem', Returns (memmove (fun addr => UInt8.ofNat addr.toNat) 0x102#16 0x100#16 4#16)
          (0x102#16, mem') ∧
        Moved (fun addr => UInt8.ofNat addr.toNat) mem' 0x102#16 0x100#16 (4#16).toNat :=
  ⟨by decide, by decide, memmove_spec _ _ _ _ (by decide) (by decide)⟩

end Copies

/-! ## The two functions on ranges that do not overlap -/

/-- Both calls return the destination and leave the same memory. -/
def Interchangeable (mem : Space width UInt8) (i j size : BitVec width) : Prop :=
  ∃ mem', memcpy mem i j size = (i, mem') ∧ Returns (memmove mem i j size) (i, mem')

/-- On ranges that do not overlap both calls leave the same memory, and they return the same
pointer exactly when there is nothing to copy. -/
theorem interchangeable_iff (mem : Space width UInt8) (i j size : BitVec width)
    (hi : i.toNat + size.toNat ≤ 2 ^ width) (hj : j.toNat + size.toNat ≤ 2 ^ width)
    (hapart : i.toNat + size.toNat ≤ j.toNat ∨ j.toNat + size.toNat ≤ i.toNat) :
    Returns (memmove mem i j size) (i, (memcpy mem i j size).2) ∧
      (Interchangeable mem i j size ↔ size = 0) := by
  have hfar : distance j i = 0 ∨ size.toNat ≤ distance j i := by
    rcases Nat.lt_or_ge i.toNat j.toNat with hbelow | habove
    · rw [distance_of_lt hbelow]
      omega
    · rw [distance_of_le habove]
      omega
  have hmemory : Returns (memmove mem i j size) (i, (memcpy mem i j size).2) := by
    rw [memcpy_eq, copyUp_eq_moved size.isLt.le hfar]
    exact memmove_returns mem hi hj
  refine ⟨hmemory, ?_, ?_⟩
  · rintro ⟨mem', hcopy, -⟩
    rw [memcpy_eq] at hcopy
    exact add_eq_left.mp (congrArg Prod.fst hcopy)
  · rintro rfl
    refine ⟨_, ?_, hmemory⟩
    rw [memcpy_eq, add_zero]

/-- Of nothing, and of one byte but for the pointers. -/
theorem interchangeable_nothing :
    Interchangeable (fun _ => 7) 0x100#16 0x200#16 0#16 ∧
      Returns (memmove (fun _ => 7) 0x100#16 0x200#16 1#16)
        (0x100#16, (memcpy (fun _ => 7) 0x100#16 0x200#16 1#16).2) :=
  ⟨(interchangeable_iff _ _ _ _ (by decide) (by decide) (by decide)).2.mpr rfl,
    (interchangeable_iff _ _ _ _ (by decide) (by decide) (by decide)).1⟩

/-- A single byte from `0x200` to `0x100`: `memcpy` returns `0x101`. -/
theorem not_interchangeable :
    ¬ Interchangeable (fun _ => 7) 0x100#16 0x200#16 1#16 := by
  rintro ⟨mem', hcopy, -⟩
  have hstart : 0x101#16 = 0x100#16 := congrArg Prod.fst hcopy
  exact absurd hstart (by decide)

end Cyancore.Libc
