/-
# Memory in an address space that wraps

Addresses have a fixed number of bits, and arithmetic on them wraps.  How far one address lies
above another is then always defined, and a range is the set of addresses that lie less than
its length above its base.  A copy in either direction is compared with the simultaneous one,
which reads all of its source before it writes.  Values are written one behind the other from
a base upwards.

The module names no program.
-/

import Mathlib.Data.BitVec
import Mathlib.Logic.Function.Basic

namespace Cyancore.Math

universe u

/-- A value at every address of so many bits. -/
abbrev Space (width : ℕ) (α : Type u) := BitVec width → α

namespace Space

variable {width : ℕ} {α : Type u}

/-- The address that lies so far above the base. -/
def offset (base : BitVec width) (k : ℕ) : BitVec width := base + BitVec.ofNat width k

/-- How far an address lies above the base. -/
def distance (base addr : BitVec width) : ℕ := (addr - base).toNat

section Distance

variable {base addr : BitVec width} {k l : ℕ}

theorem distance_lt (base addr : BitVec width) : distance base addr < 2 ^ width :=
  (addr - base).isLt

@[simp]
theorem offset_zero (base : BitVec width) : offset base 0 = base := BitVec.add_zero base

theorem offset_offset (base : BitVec width) (k l : ℕ) :
    offset (offset base k) l = offset base (k + l) := by
  rw [offset, offset, offset, BitVec.ofNat_add, BitVec.add_assoc]

theorem offset_succ (base : BitVec width) (k : ℕ) : offset (base + 1) k = offset base (k + 1) := by
  rw [Nat.add_comm k 1, ← offset_offset]
  rfl

theorem offset_toNat (base k : BitVec width) : offset base k.toNat = base + k := by
  rw [offset, BitVec.ofNat_toNat, BitVec.setWidth_eq]

theorem offset_succ_sub_one (base : BitVec width) (k : ℕ) :
    offset base (k + 1) - 1 = offset base k := by
  rw [← offset_offset, sub_eq_iff_eq_add]
  rfl

@[simp]
theorem offset_distance (base addr : BitVec width) : offset base (distance base addr) = addr := by
  rw [offset, distance, BitVec.ofNat_toNat, BitVec.setWidth_eq, add_sub_cancel]

theorem distance_offset (hk : k < 2 ^ width) : distance base (offset base k) = k := by
  rw [distance, offset, add_sub_cancel_left, BitVec.toNat_ofNat, Nat.mod_eq_of_lt hk]

@[simp]
theorem distance_self (base : BitVec width) : distance base base = 0 := by
  rw [distance, sub_self]
  rfl

theorem distance_eq_iff (hk : k < 2 ^ width) : distance base addr = k ↔ addr = offset base k := by
  constructor
  · rintro rfl
    exact (offset_distance base addr).symm
  · rintro rfl
    exact distance_offset hk

theorem offset_inj (hk : k < 2 ^ width) (hl : l < 2 ^ width) :
    offset base k = offset base l ↔ k = l := by
  rw [← distance_eq_iff hl, distance_offset hk]

/-- Two numbers reach the same address exactly when they differ by whole turns. -/
theorem offset_eq_offset_iff : offset base k = offset base l ↔ k % 2 ^ width = l % 2 ^ width := by
  rw [offset, offset, add_right_inj, ← BitVec.toNat_inj, BitVec.toNat_ofNat, BitVec.toNat_ofNat]

theorem distance_eq_zero_iff : distance base addr = 0 ↔ addr = base := by
  rw [distance_eq_iff (Nat.two_pow_pos width), offset_zero]

theorem distance_succ_succ (base addr : BitVec width) :
    distance (base + 1) (addr + 1) = distance base addr := by
  rw [distance, distance, add_sub_add_right_eq_sub]

theorem distance_of_le (hle : base.toNat ≤ addr.toNat) :
    distance base addr = addr.toNat - base.toNat := BitVec.toNat_sub_of_le hle

theorem distance_of_lt (hlt : addr.toNat < base.toNat) :
    distance base addr = 2 ^ width - (base.toNat - addr.toNat) := by
  rw [distance, BitVec.toNat_sub_of_lt hlt]

/-- From one address further up, an address is one nearer, unless it was the base. -/
theorem distance_succ (hne : addr ≠ base) :
    distance (base + 1) addr = distance base addr - 1 := by
  have hpos : distance base addr ≠ 0 := mt distance_eq_zero_iff.mp hne
  have hlt := distance_lt base addr
  rw [distance_eq_iff (by omega), offset_succ, Nat.sub_add_cancel (by omega), offset_distance]

theorem distance_succ_self (base : BitVec width) : distance (base + 1) base = 2 ^ width - 1 := by
  have hback : base = offset (base + 1) (2 ^ width - 1) := by
    rw [offset_succ, Nat.sub_add_cancel Nat.one_le_two_pow, ← offset_zero base, offset_offset,
      offset_eq_offset_iff, Nat.zero_add, Nat.mod_self, Nat.zero_mod]
  have hlt : 2 ^ width - 1 < 2 ^ width := Nat.sub_lt (Nat.two_pow_pos width) Nat.one_pos
  rw [distance_eq_iff hlt]
  exact hback

/-- From an address further up than `l` places above the base, or from the base itself, fewer
than `l` places do not lead to the one `l` above the base. -/
theorem offset_ne_offset (hkl : k < l) (hl : l < 2 ^ width)
    (hfar : distance base addr = 0 ∨ l < distance base addr) :
    offset addr k ≠ offset base l := by
  have hlt := distance_lt base addr
  rw [ne_eq, ← offset_distance base addr, offset_offset, offset_eq_offset_iff,
    Nat.mod_eq_of_lt hl]
  by_cases hturn : distance base addr + k < 2 ^ width
  · rw [Nat.mod_eq_of_lt hturn]
    omega
  · rw [Nat.mod_eq_sub_mod (by omega), Nat.mod_eq_of_lt (by omega)]
    omega

end Distance

/-! ## Copies -/

/-- The simultaneous copy. -/
def moved (mem : Space width α) (dst src : BitVec width) (n : ℕ) : Space width α := fun addr =>
  if distance dst addr < n then mem (offset src (distance dst addr)) else mem addr

/-- Every place of the range holds the old value of its counterpart, every other place its
own. -/
def Moved (mem mem' : Space width α) (dst src : BitVec width) (n : ℕ) : Prop :=
  (∀ k < n, mem' (offset dst k) = mem (offset src k)) ∧
    ∀ addr, (∀ k < n, addr ≠ offset dst k) → mem' addr = mem addr

/-- Copy the lowest address first. -/
def copyUp (mem : Space width α) (dst src : BitVec width) : ℕ → Space width α
  | 0 => mem
  | n + 1 => copyUp (Function.update mem dst (mem src)) (dst + 1) (src + 1) n

/-- Copy the highest address first. -/
def copyDown (mem : Space width α) (dst src : BitVec width) : ℕ → Space width α
  | 0 => mem
  | n + 1 => copyDown (Function.update mem (offset dst n) (mem (offset src n))) dst src n

section Copy

variable {mem : Space width α} {dst src : BitVec width} {n : ℕ}

theorem moved_spec (hn : n ≤ 2 ^ width) : Moved mem (moved mem dst src n) dst src n := by
  constructor
  · intro k hk
    rw [moved, distance_offset (by omega), if_pos hk]
  · intro addr houtside
    rw [moved, if_neg]
    intro hinside
    exact houtside _ hinside (offset_distance dst addr).symm

/-- A copy upwards is the simultaneous copy unless the destination begins inside the source,
behind its first address. -/
theorem copyUp_eq_moved (hn : n ≤ 2 ^ width)
    (hapart : distance src dst = 0 ∨ n ≤ distance src dst) :
    copyUp mem dst src n = moved mem dst src n := by
  induction n generalizing mem dst src with
  | zero => rfl
  | succ n ih =>
      rw [copyUp, ih (by omega) (by rw [distance_succ_succ]; omega)]
      funext addr
      rw [moved, moved]
      by_cases hfirst : addr = dst
      · subst hfirst
        rw [distance_succ_self, distance_self, if_neg (by omega), if_pos (by omega),
          Function.update_self, offset_zero]
      · have hpos : distance dst addr ≠ 0 := mt distance_eq_zero_iff.mp hfirst
        have hlt := distance_lt dst addr
        rw [distance_succ hfirst, offset_succ, Nat.sub_add_cancel (by omega)]
        by_cases hinside : distance dst addr < n + 1
        · -- The place that was written holds nothing that is still to be read.
          have hunread : offset src (distance dst addr) ≠ dst := by
            rw [ne_comm, ne_eq, ← distance_eq_iff hlt]
            omega
          rw [if_pos (by omega), if_pos hinside, Function.update_of_ne hunread]
        · rw [if_neg (by omega), if_neg hinside, Function.update_of_ne hfirst]

/-- A copy downwards is the simultaneous copy unless the source begins inside the
destination, behind its first address. -/
theorem copyDown_eq_moved (hn : n ≤ 2 ^ width)
    (hapart : distance dst src = 0 ∨ n ≤ distance dst src) :
    copyDown mem dst src n = moved mem dst src n := by
  induction n generalizing mem with
  | zero => rfl
  | succ n ih =>
      rw [copyDown, ih (by omega) (by omega)]
      funext addr
      rw [moved, moved]
      by_cases hlast : addr = offset dst n
      · subst hlast
        rw [distance_offset (by omega), if_neg (by omega), if_pos (by omega),
          Function.update_self]
      · have hne : distance dst addr ≠ n := mt (distance_eq_iff (by omega)).mp hlast
        by_cases hinside : distance dst addr < n
        · have hunread : offset src (distance dst addr) ≠ offset dst n :=
            offset_ne_offset hinside (by omega) hapart
          rw [if_pos hinside, if_pos (by omega), Function.update_of_ne hunread]
        · rw [if_neg hinside, if_neg (by omega), Function.update_of_ne hlast]

end Copy

/-! ## Values written one behind the other -/

/-- Write the values from the base upwards. -/
def write (mem : Space width α) (base : BitVec width) : List α → Space width α
  | [] => mem
  | value :: values => write (Function.update mem base value) (base + 1) values

section Write

variable {mem : Space width α} {base addr : BitVec width} {values : List α}

theorem write_append (mem : Space width α) (base : BitVec width) (first second : List α) :
    mem.write base (first ++ second) =
      (mem.write base first).write (offset base first.length) second := by
  induction first generalizing mem base with
  | nil => rw [List.nil_append, write, List.length_nil, offset_zero]
  | cons value first ih => rw [List.cons_append, write, ih, write, List.length_cons, offset_succ]

theorem write_of_outside (houtside : ∀ k < values.length, addr ≠ offset base k) :
    mem.write base values addr = mem addr := by
  induction values generalizing mem base with
  | nil => rfl
  | cons value values ih =>
      have hbase : addr ≠ base := by
        have hzero := houtside 0 (Nat.zero_lt_succ _)
        rwa [offset_zero] at hzero
      rw [write, ih, Function.update_of_ne hbase]
      intro k hk
      rw [offset_succ]
      exact houtside (k + 1) (Nat.succ_lt_succ hk)

theorem write_apply {k : ℕ} (hk : k < values.length) (hfits : values.length ≤ 2 ^ width) :
    mem.write base values (offset base k) = values[k] := by
  induction values generalizing mem base k with
  | nil => exact absurd hk (Nat.not_lt_zero k)
  | cons value values ih =>
      rw [List.length_cons] at hk hfits
      cases k with
      | zero =>
          rw [offset_zero, write, write_of_outside, Function.update_self, List.getElem_cons_zero]
          intro k hlt
          rw [offset_succ, ne_eq, ← distance_eq_iff (by omega), distance_self]
          omega
      | succ k =>
          rw [write, ← offset_succ, ih (Nat.lt_of_succ_lt_succ hk) (by omega),
            List.getElem_cons_succ]

end Write

end Space

end Cyancore.Math
