/-
# Arrays of bits in words

Hardware that has a bit for each of many numbers keeps them in an array of words: the bit
of a number is the one at its remainder in the word at its quotient.  Setting and clearing
one of them reads and writes one word, and concerns no other number.
-/

import Cyancore.Math.Bits
import Mathlib.Logic.Function.Basic

namespace Cyancore.Math

variable {w : ℕ}

/-- The bit of a number. -/
def bitAt (words : ℕ → BitVec w) (id : ℕ) : Bool := (words (id / w)).getLsbD (id % w)

/-- Replace the word that holds the bit of a number. -/
def updateAt (words : ℕ → BitVec w) (id : ℕ) (f : BitVec w → ℕ → BitVec w) : ℕ → BitVec w :=
  Function.update words (id / w) (f (words (id / w)) (id % w))

/-- Numbers are equal where they have the same word and the same place in it. -/
theorem eq_iff_div_mod {id id' : ℕ} : id' = id ↔ id' / w = id / w ∧ id' % w = id % w := by
  constructor
  · intro heq
    subst heq
    exact ⟨rfl, rfl⟩
  · intro ⟨hdiv, hmod⟩
    rw [← Nat.div_add_mod id' w, hdiv, hmod, Nat.div_add_mod]

/-- A change that keeps the other bits of a word keeps the bits of all other numbers. -/
theorem bitAt_updateAt (words : ℕ → BitVec w) (id id' : ℕ) {f : BitVec w → ℕ → BitVec w}
    {value : Bool} (hbit : ∀ word, (f word (id % w)).getLsbD (id % w) = value)
    (hothers : ∀ word i, i ≠ id % w → (f word (id % w)).getLsbD i = word.getLsbD i) :
    bitAt (updateAt words id f) id' = if id' = id then value else bitAt words id' := by
  rw [bitAt, updateAt, bitAt]
  by_cases hdiv : id' / w = id / w
  · rw [hdiv, Function.update_self]
    by_cases hmod : id' % w = id % w
    · rw [if_pos (eq_iff_div_mod.mpr ⟨hdiv, hmod⟩), hmod, hbit]
    · rw [if_neg (fun heq => hmod (eq_iff_div_mod.mp heq).2), hothers _ _ hmod]
  · rw [Function.update_of_ne hdiv, if_neg (fun heq => hdiv (eq_iff_div_mod.mp heq).1)]

/-- `words[id / w] |= 1 << id % w`. -/
theorem bitAt_updateAt_setBit (hw : 0 < w) (words : ℕ → BitVec w) (id id' : ℕ) :
    bitAt (updateAt words id setBit) id' = if id' = id then true else bitAt words id' :=
  bitAt_updateAt words id id' (fun word => by simp [Nat.mod_lt _ hw])
    (fun word i hi => by simp [hi])

/-- `words[id / w] &= ~(1 << id % w)`. -/
theorem bitAt_updateAt_clearBit (words : ℕ → BitVec w) (id id' : ℕ) :
    bitAt (updateAt words id clearBit) id' = if id' = id then false else bitAt words id' :=
  bitAt_updateAt words id id' (fun word => by simp)
    (fun word i hi => by simp [hi])

end Cyancore.Math
