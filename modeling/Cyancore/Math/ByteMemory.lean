/-
# Byte-addressed memory

Memory is a byte at every address.  Scalars of any width are stored and loaded
little-endian, one byte per address, so that overlapping and neighbouring
objects are told apart by their addresses alone: a store changes exactly the
bytes of its range, and a load sees exactly the bytes of its own.
-/

import Mathlib.Algebra.Order.Ring.Nat
import Mathlib.Data.UInt
import Mathlib.Logic.Function.Basic
import Mathlib.Tactic.Ring

namespace Cyancore.Math

/-- A byte at every address. -/
abbrev Memory := ℕ → UInt8

theorem exists_byte_ne (byte : UInt8) : ∃ other, other ≠ byte := by
  by_cases hzero : byte = 0
  · exact ⟨1, by rw [hzero]; decide⟩
  · exact ⟨0, Ne.symm hzero⟩

namespace Memory

/-- The little-endian number held by `width` bytes from `addr`. -/
def load (mem : Memory) (addr : ℕ) : ℕ → ℕ
  | 0 => 0
  | width + 1 => (mem addr).toNat + 256 * load mem (addr + 1) width

/-- Write the low `width` bytes of `value` from `addr` upwards. -/
def store (mem : Memory) (addr : ℕ) : ℕ → ℕ → Memory
  | 0, _ => mem
  | width + 1, value =>
      store (Function.update mem addr (UInt8.ofNat value)) (addr + 1) width (value / 256)

/-- Set `width` bytes from `addr` to one value. -/
def fill (mem : Memory) (addr : ℕ) (byte : UInt8) (width : ℕ) : Memory :=
  fun a => if addr ≤ a ∧ a < addr + width then byte else mem a

/-- Copy `width` bytes from `src` to `dst`, the lowest first. -/
def copy (mem : Memory) (dst src : ℕ) : ℕ → Memory
  | 0 => mem
  | width + 1 => copy (Function.update mem dst (mem src)) (dst + 1) (src + 1) width

/-- A load sees only the bytes of its range. -/
theorem load_congr {mem mem' : Memory} {addr width : ℕ}
    (hagree : ∀ a, addr ≤ a → a < addr + width → mem' a = mem a) :
    mem'.load addr width = mem.load addr width := by
  induction width generalizing addr with
  | zero => rfl
  | succ width ih =>
      rw [load, load, hagree addr (by omega) (by omega), ih]
      exact fun a hle hlt => hagree a (by omega) (by omega)

/-- A store changes only the bytes of its range. -/
theorem store_of_outside {mem : Memory} {addr width value a : ℕ}
    (houtside : a < addr ∨ addr + width ≤ a) : mem.store addr width value a = mem a := by
  induction width generalizing mem addr value with
  | zero => rfl
  | succ width ih =>
      rw [store, ih (by omega), Function.update_of_ne (by omega)]

/-- What a store leaves at an address depends on that address alone. -/
theorem store_congr_at {mem mem' : Memory} {addr width value a : ℕ} (hagree : mem' a = mem a) :
    mem'.store addr width value a = mem.store addr width value a := by
  induction width generalizing mem mem' addr value with
  | zero => exact hagree
  | succ width ih =>
      apply ih
      simp only [Function.update_apply, hagree]

/-- Inside its range a store forgets what was there. -/
theorem store_forgets {mem mem' : Memory} {addr width value a : ℕ} (hle : addr ≤ a)
    (hlt : a < addr + width) : mem'.store addr width value a = mem.store addr width value a := by
  induction width generalizing mem mem' addr value with
  | zero => omega
  | succ width ih =>
      rw [store, store]
      by_cases hfirst : a = addr
      · apply store_congr_at
        simp [hfirst]
      · exact ih (by omega) (by omega)

/-- Loads of ranges that differ in their first byte only differ. -/
theorem load_ne_of_first {mem mem' : Memory} {addr width : ℕ} (hwidth : 0 < width)
    (hfirst : mem' addr ≠ mem addr) (hrest : ∀ a, a ≠ addr → mem' a = mem a) :
    mem'.load addr width ≠ mem.load addr width := by
  obtain ⟨width, rfl⟩ : ∃ k, width = k + 1 := ⟨width - 1, by omega⟩
  have hsame : mem'.load (addr + 1) width = mem.load (addr + 1) width :=
    load_congr fun a hle _ => hrest a (by omega)
  have hbyte : (mem' addr).toNat ≠ (mem addr).toNat := fun h => hfirst (UInt8.toNat_inj.mp h)
  rw [load, load, hsame]
  omega

theorem load_lt (mem : Memory) (addr width : ℕ) : mem.load addr width < 256 ^ width := by
  induction width generalizing addr with
  | zero => simp [load]
  | succ width ih =>
      have hbyte := (mem addr).toNat_lt
      have hrest := ih (addr + 1)
      rw [load, pow_succ]
      omega

/-- A load from a range that the store missed is unchanged. -/
theorem load_store_of_disjoint {mem : Memory} {addr width value addr' width' : ℕ}
    (hdisjoint : addr + width ≤ addr' ∨ addr' + width' ≤ addr) :
    (mem.store addr width value).load addr' width' = mem.load addr' width' :=
  load_congr fun _ _ _ => store_of_outside (by omega)

/-- Loading what was stored gives it back, up to the width. -/
theorem load_store (mem : Memory) (addr width value : ℕ) :
    (mem.store addr width value).load addr width = value % 256 ^ width := by
  induction width generalizing mem addr value with
  | zero => simp [load, Nat.mod_one]
  | succ width ih =>
      have hfirst : (mem.store addr (width + 1) value) addr = UInt8.ofNat value := by
        rw [store, store_of_outside (by omega), Function.update_self]
      have hbyte : (UInt8.ofNat value).toNat = value % 256 := UInt8.toNat_ofNat'
      rw [load, hfirst, store, ih, hbyte, pow_succ' 256 width, Nat.mod_mul]

/-- A value that fits its width is loaded back exactly. -/
theorem load_store_of_lt {mem : Memory} {addr width value : ℕ} (hfits : value < 256 ^ width) :
    (mem.store addr width value).load addr width = value := by
  rw [load_store, Nat.mod_eq_of_lt hfits]

theorem fill_of_outside {mem : Memory} {addr width a : ℕ} {byte : UInt8}
    (houtside : a < addr ∨ addr + width ≤ a) : mem.fill addr byte width a = mem a := by
  rw [fill, if_neg (by omega)]

/-- A copy changes only the bytes of its destination. -/
theorem copy_of_outside {mem : Memory} {dst src width a : ℕ}
    (houtside : a < dst ∨ dst + width ≤ a) : mem.copy dst src width a = mem a := by
  induction width generalizing mem dst src with
  | zero => rfl
  | succ width ih =>
      rw [copy, ih (by omega), Function.update_of_ne (by omega)]

/-- A copy reads its source before it is overwritten, unless the destination lies behind the
start of the source and overlaps it. -/
theorem copy_apply {mem : Memory} {dst src width k : ℕ}
    (hapart : dst ≤ src ∨ src + width ≤ dst) (hk : k < width) :
    mem.copy dst src width (dst + k) = mem (src + k) := by
  induction width generalizing mem dst src k with
  | zero => omega
  | succ width ih =>
      rw [copy]
      cases k with
      | zero =>
          rw [copy_of_outside (by omega), Nat.add_zero, Function.update_self, Nat.add_zero]
      | succ k =>
          rw [Nat.add_comm k 1, ← Nat.add_assoc, ih (by omega) (by omega),
            Function.update_of_ne (by omega), Nat.add_assoc]

/-- A copy onto itself changes nothing. -/
theorem copy_self (mem : Memory) (addr width : ℕ) : mem.copy addr addr width = mem := by
  induction width generalizing addr with
  | zero => rfl
  | succ width ih => rw [copy, Function.update_eq_self, ih]

end Memory

end Cyancore.Math
