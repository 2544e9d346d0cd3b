/-
# Terminated sequences in memory

A sequence in memory that ends with a stop value and holds none before it.  Memory and base
determine it, it is shorter than the address space, and it stays what it is as long as its
own places do.

The module names no program.
-/

import Cyancore.Math.AddressSpace

namespace Cyancore.Math

open Space

universe u

variable {width : ℕ} {α : Type u}

/-- The values from the base upwards, none of them the stop value, which stands behind them. -/
def Terminated (stop : α) (mem : Space width α) (base : BitVec width) : List α → Prop
  | [] => mem base = stop
  | value :: values => mem base = value ∧ value ≠ stop ∧ Terminated stop mem (base + 1) values

instance decidableTerminated [DecidableEq α] (stop : α) (mem : Space width α) :
    ∀ (base : BitVec width) (values : List α), Decidable (Terminated stop mem base values)
  | base, [] => inferInstanceAs (Decidable (mem base = stop))
  | base, value :: values =>
      have := decidableTerminated stop mem (base + 1) values
      inferInstanceAs (Decidable (mem base = value ∧ value ≠ stop ∧ _))

namespace Terminated

variable {stop : α} {mem mem' : Space width α} {base : BitVec width}
  {values values' : List α}

theorem ne_stop (h : Terminated stop mem base values) : ∀ value ∈ values, value ≠ stop := by
  induction values generalizing base with
  | nil => exact List.forall_mem_nil _
  | cons value values ih => exact List.forall_mem_cons.mpr ⟨h.2.1, ih h.2.2⟩

theorem at_getElem (h : Terminated stop mem base values) {k : ℕ} (hk : k < values.length) :
    mem (offset base k) = values[k] := by
  induction values generalizing base k with
  | nil => exact absurd hk (Nat.not_lt_zero k)
  | cons value values ih =>
      cases k with
      | zero => rw [offset_zero, h.1, List.getElem_cons_zero]
      | succ k => rw [← offset_succ, ih h.2.2 (Nat.lt_of_succ_lt_succ hk), List.getElem_cons_succ]

theorem at_ne_stop (h : Terminated stop mem base values) {k : ℕ} (hk : k < values.length) :
    mem (offset base k) ≠ stop := by
  rw [h.at_getElem hk]
  exact h.ne_stop _ (List.getElem_mem hk)

theorem at_length (h : Terminated stop mem base values) :
    mem (offset base values.length) = stop := by
  induction values generalizing base with
  | nil => rwa [List.length_nil, offset_zero]
  | cons value values ih => rw [List.length_cons, ← offset_succ, ih h.2.2]

/-- Memory and base determine the sequence. -/
theorem unique (h : Terminated stop mem base values) (h' : Terminated stop mem base values') :
    values = values' := by
  induction values generalizing base values' with
  | nil =>
      cases values' with
      | nil => rfl
      | cons value values' => exact absurd (h'.1.symm.trans h) h'.2.1
  | cons value values ih =>
      cases values' with
      | nil => exact absurd (h.1.symm.trans h') h.2.1
      | cons value' values' => rw [← h.1, ← h'.1, ih h.2.2 h'.2.2]

/-- A sequence as long as the address space would come back to its own start. -/
theorem length_lt (h : Terminated stop mem base values) : values.length < 2 ^ width := by
  by_contra hle
  have hpos := Nat.two_pow_pos width
  apply h.at_ne_stop (k := values.length % 2 ^ width)
  · exact (Nat.mod_lt _ hpos).trans_le (not_lt.mp hle)
  · rw [offset_eq_offset_iff.mpr (Nat.mod_mod _ _), h.at_length]

/-- There is room for only one sequence that leaves no place of the address space over. -/
theorem base_eq_of_full {base' : BitVec width} (h : Terminated stop mem base values)
    (h' : Terminated stop mem base' values') (hfull : values.length + 1 = 2 ^ width)
    (hfull' : values'.length + 1 = 2 ^ width) : base' = base := by
  by_contra hne
  have hpos : distance base base' ≠ 0 := mt distance_eq_zero_iff.mp hne
  have hlt := distance_lt base base'
  -- The place before the second base ends the second sequence and lies inside the first.
  have hstop := h'.at_length
  rw [← offset_distance base base', offset_offset] at hstop
  have hturn : distance base base' + values'.length = distance base base' - 1 + 2 ^ width := by
    omega
  have hsame : offset base (distance base base' - 1) =
      offset base (distance base base' + values'.length) := by
    rw [offset_eq_offset_iff, hturn, Nat.add_mod_right]
  exact h.at_ne_stop (by omega) (hsame ▸ hstop)

/-- A sequence is kept by memory that agrees at its own places. -/
theorem congr (h : Terminated stop mem base values)
    (hagree : ∀ l ≤ values.length, mem' (offset base l) = mem (offset base l)) :
    Terminated stop mem' base values := by
  induction values generalizing base with
  | nil =>
      have hstop := hagree 0 (Nat.le_refl 0)
      rw [offset_zero] at hstop
      exact hstop.trans h
  | cons value values ih =>
      have hfirst := hagree 0 (Nat.zero_le _)
      rw [offset_zero] at hfirst
      refine ⟨hfirst.trans h.1, h.2.1, ih h.2.2 ?_⟩
      intro l hl
      rw [offset_succ]
      exact hagree (l + 1) (Nat.succ_le_succ hl)

theorem update (h : Terminated stop mem base values) {addr : BitVec width} (value : α)
    (hapart : ∀ l ≤ values.length, addr ≠ offset base l) :
    Terminated stop (Function.update mem addr value) base values :=
  h.congr fun l hl => Function.update_of_ne (hapart l hl).symm _ _

end Terminated

/-- What is written with the stop value behind it can be read back. -/
theorem terminated_write {stop : α} {values : List α} (mem : Space width α) (base : BitVec width)
    (hvalues : ∀ value ∈ values, value ≠ stop) (hfits : values.length < 2 ^ width) :
    Terminated stop (mem.write base (values ++ [stop])) base values := by
  induction values generalizing mem base with
  | nil => exact Function.update_self _ _ _
  | cons value values ih =>
      refine ⟨?_, (List.forall_mem_cons.mp hvalues).1,
        ih _ _ (List.forall_mem_cons.mp hvalues).2 (Nat.lt_of_succ_lt hfits)⟩
      have hfirst : mem.write base (value :: (values ++ [stop])) (offset base 0) = value :=
        write_apply (Nat.zero_lt_succ _) (by rw [List.length_cons, List.length_append]; exact hfits)
      rwa [offset_zero] at hfirst

end Cyancore.Math
