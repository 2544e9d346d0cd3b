/-
# Registers that many share

A device has words at addresses, and code reads a word, changes some bits of it and writes it
back.  Who owns one bit of each register of a device sees a lane of it.  An edit of one register
changes a lane in that place only, and leaves a lane alone if it keeps the bit.

If every call either acts on what an owner sees or leaves that alone, a run does to it what the
owner's calls do.
-/

import Cyancore.Math.Outcome
import Mathlib.Logic.Function.Basic

namespace Cyancore.Math

universe u v w x

/-! ## What one owner sees of a run -/

section Separation

variable {ε : Type u} {σ : Type v} {κ : Type w} {ν : Type x} {step : σ → κ → Outcome ε σ}
  {view : σ → ν} {act : ν → κ → ν} {mine : κ → Bool}

/-- Of a run the owner sees its own calls. -/
theorem view_foldlM {calls : List κ}
    (hmine : ∀ call ∈ calls, ∀ state state', mine call = true → step state call = .done state' →
      view state' = act (view state) call)
    (hother : ∀ call ∈ calls, ∀ state state', mine call = false → step state call = .done state' →
      view state' = view state)
    {state state' : σ} (hrun : calls.foldlM step state = .done state') :
    view state' = (calls.filter mine).foldl act (view state) := by
  induction calls generalizing state with
  | nil => exact congrArg view (Outcome.done.inj hrun).symm
  | cons call calls ih =>
      rw [List.foldlM_cons] at hrun
      obtain ⟨middle, hcall, hrest⟩ := Outcome.bind_eq_done_iff.mp hrun
      have hlater := ih (fun other h => hmine other (List.mem_cons_of_mem call h))
        (fun other h => hother other (List.mem_cons_of_mem call h)) hrest
      cases hown : mine call with
      | true =>
          rw [hlater, List.filter_cons_of_pos hown, List.foldl_cons,
            hmine call List.mem_cons_self state middle hown hcall]
      | false =>
          rw [hlater, List.filter_cons_of_neg (by simp [hown]),
            hother call List.mem_cons_self state middle hown hcall]

/-- A run of calls that return returns. -/
theorem exists_foldlM {calls : List κ}
    (hcalls : ∀ call ∈ calls, ∀ state, ∃ state', step state call = .done state') (state : σ) :
    ∃ state', calls.foldlM step state = .done state' := by
  induction calls generalizing state with
  | nil => exact ⟨state, rfl⟩
  | cons call calls ih =>
      obtain ⟨middle, hcall⟩ := hcalls call List.mem_cons_self state
      obtain ⟨state', hrest⟩ :=
        ih (fun other h => hcalls other (List.mem_cons_of_mem call h)) middle
      exact ⟨state', by rw [List.foldlM_cons, hcall, Outcome.done_bind, hrest]⟩

end Separation

/-! ## Lanes -/

/-- The words of the devices, by their addresses. -/
abbrev Registers (w : ℕ) := ℕ → BitVec w

namespace Registers

variable {n : ℕ} {ρ : Type u} {regs : Registers n} {offset : ρ → ℕ}

/-- Read a word, change it and write it back. -/
def modify (regs : Registers n) (addr : ℕ) (change : BitVec n → BitVec n) : Registers n :=
  Function.update regs addr (change (regs addr))

/-- One bit of each register of the device at `base`. -/
def lane (offset : ρ → ℕ) (base i : ℕ) (regs : Registers n) : ρ → Bool :=
  fun r => (regs (base + offset r)).getLsbD i

theorem modify_of_ne {addr addr' : ℕ} (change : BitVec n → BitVec n) (hne : addr' ≠ addr) :
    regs.modify addr change addr' = regs addr' :=
  Function.update_of_ne hne _ _

/-- An edit of one register of the device. -/
theorem lane_modify [DecidableEq ρ] (hoffset : Function.Injective offset) (base i : ℕ) (r : ρ)
    (change : BitVec n → BitVec n) :
    (regs.modify (base + offset r) change).lane offset base i =
      Function.update (regs.lane offset base i) r
        ((change (regs (base + offset r))).getLsbD i) := by
  funext r'
  by_cases hr : r' = r
  · subst hr
    simp [lane, modify]
  · have hne : base + offset r' ≠ base + offset r :=
      fun h => hr (hoffset (Nat.add_left_cancel h))
    rw [lane, modify_of_ne change hne, Function.update_of_ne hr]
    rfl

/-- An edit that keeps the bit, or is elsewhere. -/
theorem lane_modify_of_keeps {addr base i : ℕ} {change : BitVec n → BitVec n}
    (hkeeps : (∀ r, base + offset r ≠ addr) ∨
      ∀ word, (change word).getLsbD i = word.getLsbD i) :
    (regs.modify addr change).lane offset base i = regs.lane offset base i := by
  funext r
  rw [lane, lane]
  by_cases haddr : base + offset r = addr
  · have hbit := hkeeps.resolve_left fun h => h r haddr
    rw [modify, haddr, Function.update_self, hbit]
  · rw [modify_of_ne change haddr]

/-- Edits of registers of the device at `base`, one after the other. -/
def edit (offset : ρ → ℕ) (base : ℕ) (edits : List (ρ × (BitVec n → BitVec n)))
    (regs : Registers n) : Registers n :=
  edits.foldl (fun regs change => regs.modify (base + offset change.1) change.2) regs

variable {base base' i : ℕ} {edits : List (ρ × (BitVec n → BitVec n))}

/-- Edits that keep the bit, or are those of a device elsewhere. -/
theorem lane_edit_of_keeps
    (hkeeps : (∀ r r', base + offset r ≠ base' + offset r') ∨
      ∀ change ∈ edits, ∀ word, (change.2 word).getLsbD i = word.getLsbD i) :
    (regs.edit offset base' edits).lane offset base i = regs.lane offset base i := by
  induction edits generalizing regs with
  | nil => rfl
  | cons change edits ih =>
      have hrest := @ih (regs.modify (base' + offset change.1) change.2)
        (hkeeps.imp_right fun h other hother => h other (List.mem_cons_of_mem change hother))
      exact hrest.trans (lane_modify_of_keeps
        (hkeeps.imp (fun h r => h r change.1) fun h => h change List.mem_cons_self))

/-- A word that is no register of the device. -/
theorem edit_of_outside {addr : ℕ} (houtside : ∀ r, addr ≠ base + offset r) :
    regs.edit offset base edits addr = regs addr := by
  induction edits generalizing regs with
  | nil => rfl
  | cons change edits ih =>
      exact (@ih (regs.modify (base + offset change.1) change.2)).trans
        (modify_of_ne change.2 (houtside change.1))

/-- Registers are known by the lanes of a device and the words elsewhere. -/
theorem ext_lane {regs' : Registers n}
    (hlane : ∀ i < n, regs.lane offset base i = regs'.lane offset base i)
    (houtside : ∀ addr, (∀ r, addr ≠ base + offset r) → regs addr = regs' addr) : regs = regs' := by
  funext addr
  by_cases hin : ∃ r, addr = base + offset r
  · obtain ⟨r, rfl⟩ := hin
    exact BitVec.eq_of_getLsbD_eq fun i hi => congrFun (hlane i hi) r
  · exact houtside addr fun r h => hin ⟨r, h⟩

end Registers

end Cyancore.Math
