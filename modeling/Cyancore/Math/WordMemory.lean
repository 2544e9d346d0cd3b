/-
# Words in byte memory

Memory is a byte at every address of a machine with 32-bit addresses, which wrap around.
A word is four bytes, the lowest first, at any address.
-/

import Mathlib.Tactic.Common

namespace Cyancore.Math

/-- A byte at every address. -/
abbrev ByteSpace := BitVec 32 → BitVec 8

namespace ByteSpace

/-- The word at an address. -/
def loadWord (mem : ByteSpace) (addr : BitVec 32) : BitVec 32 :=
  mem (addr + 3) ++ mem (addr + 2) ++ mem (addr + 1) ++ mem addr

/-- Write a word. -/
def storeWord (mem : ByteSpace) (addr value : BitVec 32) : ByteSpace := fun a =>
  if (a - addr).toNat < 4 then value.extractLsb' (8 * (a - addr).toNat) 8 else mem a

variable {mem mem' : ByteSpace} {addr addr' value : BitVec 32}

/-- A load sees only its four bytes. -/
theorem loadWord_congr
    (hagree : ∀ i < 4, mem' (addr + BitVec.ofNat 32 i) = mem (addr + BitVec.ofNat 32 i)) :
    mem'.loadWord addr = mem.loadWord addr := by
  have h0 : mem' addr = mem addr := by simpa using hagree 0 (by decide)
  have h1 : mem' (addr + 1) = mem (addr + 1) := hagree 1 (by decide)
  have h2 : mem' (addr + 2) = mem (addr + 2) := hagree 2 (by decide)
  have h3 : mem' (addr + 3) = mem (addr + 3) := hagree 3 (by decide)
  rw [loadWord, loadWord, h0, h1, h2, h3]

/-- Each byte of a stored word. -/
theorem storeWord_byte (mem : ByteSpace) (addr value : BitVec 32) {i : ℕ} (hi : i < 4) :
    mem.storeWord addr value (addr + BitVec.ofNat 32 i) = value.extractLsb' (8 * i) 8 := by
  have hoffset : (addr + BitVec.ofNat 32 i - addr).toNat = i := by bv_omega
  rw [storeWord, hoffset, if_pos hi]

/-- Loading what was stored gives it back. -/
@[simp]
theorem loadWord_storeWord (mem : ByteSpace) (addr value : BitVec 32) :
    (mem.storeWord addr value).loadWord addr = value := by
  have h0 : mem.storeWord addr value addr = value.extractLsb' 0 8 := by
    simpa using storeWord_byte mem addr value (i := 0) (by decide)
  have h1 : mem.storeWord addr value (addr + 1) = value.extractLsb' 8 8 :=
    storeWord_byte mem addr value (i := 1) (by decide)
  have h2 : mem.storeWord addr value (addr + 2) = value.extractLsb' 16 8 :=
    storeWord_byte mem addr value (i := 2) (by decide)
  have h3 : mem.storeWord addr value (addr + 3) = value.extractLsb' 24 8 :=
    storeWord_byte mem addr value (i := 3) (by decide)
  rw [loadWord, h0, h1, h2, h3]
  apply BitVec.eq_of_getLsbD_eq
  intro i hi
  simp only [BitVec.getLsbD_append, BitVec.getLsbD_extractLsb']
  grind

/-- The low bits of a word are those of its first byte. -/
theorem getLsbD_loadWord (mem : ByteSpace) (addr : BitVec 32) {i : ℕ} (hi : i < 8) :
    (mem.loadWord addr).getLsbD i = (mem addr).getLsbD i := by
  rw [loadWord, BitVec.getLsbD_append, if_pos hi]

/-- A store changes only its four bytes. -/
theorem storeWord_of_apart {a : BitVec 32} (hapart : 4 ≤ (a - addr).toNat) :
    mem.storeWord addr value a = mem a := by
  rw [storeWord, if_neg (by omega)]

/-- A load from bytes that the store missed is unchanged. -/
theorem loadWord_storeWord_of_apart (hafter : 4 ≤ (addr' - addr).toNat)
    (hbefore : 4 ≤ (addr - addr').toNat) :
    (mem.storeWord addr value).loadWord addr' = mem.loadWord addr' := by
  apply loadWord_congr
  intro i hi
  apply storeWord_of_apart
  bv_omega

end ByteSpace

end Cyancore.Math
