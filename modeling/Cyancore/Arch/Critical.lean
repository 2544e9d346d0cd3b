/-
# Critical sections

`arch_di_save_state` and `arch_ei_restore_state` bracket code that must not be
interrupted.  The pairs nest, each with a variable of its own, so the variables of the
pairs that are open form a stack.
-/

import Cyancore.Arch.Riscv
import Cyancore.Math.Transition

namespace Cyancore.Riscv

open Cyancore.Math TransitionSystem

/-- `arch_di_save_state`: what it stores in `*istate`, before it disables everything. -/
def savedState (status : Csrs) : Word := status .mie &&& enableMask

/-- The accesses of `arch_ei_restore_state`. -/
def archEiRestoreState (istate : Word) : List CsrInstr := .csrs .mie istate :: archEi

/-- The registers, and the variables of the open pairs, innermost first. -/
structure Critical where
  status : Csrs
  saved : List Word

/-- The two functions. -/
inductive CriticalCall
  | /-- `arch_di_save_state`, with a fresh variable. -/
    save
  | /-- `arch_ei_restore_state`, with the variable of the innermost open pair. -/
    restore
  deriving DecidableEq, Repr

/-- The stores to the registers that a call makes; nothing is restored without a save. -/
def CriticalCall.code : CriticalCall → List Word → List CsrInstr
  | .save, _ => archDi
  | .restore, [] => []
  | .restore, istate :: _ => archEiRestoreState istate

/-- A call. -/
def criticalNext : CriticalCall → Critical → Option Critical
  | .save, ⟨status, saved⟩ => some ⟨execCsr archDi status, savedState status :: saved⟩
  | .restore, ⟨_, []⟩ => none
  | .restore, ⟨status, istate :: saved⟩ => some ⟨execCsr (archEiRestoreState istate) status, saved⟩

/-- Properly nested calls from the given registers. -/
def criticalSystem (before : Csrs) : TransitionSystem Critical CriticalCall :=
  .ofNext (· = ⟨before, []⟩) criticalNext

/-- Between the outermost save and the outermost restore nothing is deliverable, between
calls and after each store of a call; outside of them the enables are those from before. -/
structure Critical.Sound (before : Csrs) (critical : Critical) : Prop where
  quiet : critical.saved ≠ [] → critical.status.deliverable = false
  quietWithin : ∀ call critical', criticalNext call critical = some critical' →
    critical'.saved ≠ [] → ∀ status ∈ walk CsrInstr.exec (call.code critical.saved) critical.status,
      status.deliverable = false
  restored : critical.saved = [] → before.SameEnables critical.status

/-- Outside of every pair, or inside: the outermost variable holds the enables from before,
and the inner ones were saved when everything was disabled. -/
inductive Critical.Nested (before : Csrs) : Critical → Prop
  | outside {status : Csrs} (hsame : before.SameEnables status) : Nested before ⟨status, []⟩
  | inside {status : Csrs} {inner : List Word} {outer : Word}
      (hclear : enables (status .mie) = (false, false, false))
      (hinner : ∀ istate ∈ inner, enables istate = (false, false, false))
      (houter : enables outer = enables (before .mie)) : Nested before ⟨status, inner ++ [outer]⟩

/-- Nothing is deliverable while the single enables are clear. -/
theorem deliverable_of_clear {status : Csrs}
    (hclear : enables (status .mie) = (false, false, false)) : status.deliverable = false := by
  simp [Csrs.deliverable, hclear]

/-- Nothing is deliverable while the global enable is clear. -/
theorem deliverable_of_mie {status : Csrs} (hmie : (status .mstatus).getLsbD mieBit = false) :
    status.deliverable = false := by
  simp only [Csrs.deliverable, hmie, Bool.false_and]

/-- A restore leaves the enables that were saved, if everything was disabled before it. -/
theorem enables_execCsr_restore {status : Csrs} {istate : Word}
    (hclear : enables (status .mie) = (false, false, false)) :
    enables (execCsr (archEiRestoreState istate) status .mie) = enables istate :=
  enables_or_of_clear hclear

/-- Every restore sets the global enable, whatever it was when the pair was opened. -/
theorem mie_execCsr_restore (status : Csrs) (istate : Word) :
    (execCsr (archEiRestoreState istate) status .mstatus).getLsbD mieBit = true :=
  execCsr_archEi_mie _

section Nested

variable {before : Csrs} {critical critical' : Critical} {call : CriticalCall}

/-- Calls keep the nesting, if interrupts were enabled before. -/
theorem Critical.Nested.next (hmie : (before .mstatus).getLsbD mieBit = true)
    (hnested : critical.Nested before) (hnext : criticalNext call critical = some critical') :
    critical'.Nested before := by
  cases hnested with
  | outside hsame =>
      cases call with
      | save =>
          cases hnext
          apply @inside before _ [] _ (enables_execCsr_archDi _)
          · intro istate hmem
            cases hmem
          · exact (enables_and_enableMask _).trans hsame.2
      | restore => cases hnext
  | @inside status inner outer hclear hinner houter =>
      cases call with
      | save =>
          cases hnext
          apply @inside before _ (savedState status :: inner) outer (enables_execCsr_archDi _)
          · intro istate hmem
            cases hmem with
            | head => exact (enables_and_enableMask _).trans hclear
            | tail _ hmem => exact hinner istate hmem
          · exact houter
      | restore =>
          cases inner with
          | nil =>
              cases hnext
              apply outside
              constructor
              · rw [mie_execCsr_restore, hmie]
              · rw [enables_execCsr_restore hclear, houter]
          | cons istate inner =>
              cases hnext
              apply inside _ _ houter
              · rw [enables_execCsr_restore hclear]
                exact hinner istate List.mem_cons_self
              · exact fun istate' hmem => hinner istate' (List.mem_cons_of_mem _ hmem)

/-- Nesting is all that soundness takes. -/
theorem Critical.Nested.sound (hnested : critical.Nested before) : critical.Sound before := by
  constructor
  · intro hopen
    cases hnested with
    | outside _ => exact absurd rfl hopen
    | inside hclear _ _ => exact deliverable_of_clear hclear
  · intro call critical' hnext hopen status hmem
    cases call with
    | save =>
        -- the global enable is cleared first, the single ones after it
        rcases List.mem_cons.mp hmem with rfl | hmem
        · apply deliverable_of_mie
          simp [CsrInstr.exec, mieBit]
        · cases List.mem_singleton.mp hmem
          exact deliverable_of_clear (enables_execCsr_archDi _)
    | restore =>
        cases hnested with
        | outside _ => cases hnext
        | @inside status' inner outer hclear hinner _ =>
            cases inner with
            | nil =>
                cases hnext
                exact absurd rfl hopen
            | cons istate inner =>
                have hstill : enables (status' .mie ||| istate) = (false, false, false) := by
                  rw [enables_or_of_clear hclear]
                  exact hinner istate List.mem_cons_self
                rcases List.mem_cons.mp hmem with rfl | hmem
                · exact deliverable_of_clear hstill
                · cases List.mem_singleton.mp hmem
                  exact deliverable_of_clear hstill
  · intro hclosed
    cases hnested with
    | outside hsame => exact hsame
    | inside _ _ _ => simp at hclosed

end Nested

/-- One pair, opened and closed. -/
theorem reachable_pair (before : Csrs) :
    Reachable (criticalSystem before) (fun _ _ => True)
      ⟨execCsr (archEiRestoreState (savedState before)) (execCsr archDi before), []⟩ := by
  have hsave : (criticalSystem before).step .save ⟨before, []⟩
      ⟨execCsr archDi before, [savedState before]⟩ := rfl
  have hrestore : (criticalSystem before).step .restore
      ⟨execCsr archDi before, [savedState before]⟩
      ⟨execCsr (archEiRestoreState (savedState before)) (execCsr archDi before), []⟩ := rfl
  exact ((Reachable.start rfl).step trivial hsave).step trivial hrestore

/-- Critical sections are sound from exactly the states with interrupts enabled: a restore
enables them without asking what they were. -/
theorem critical_sound_iff (before : Csrs) :
    (∀ critical, Reachable (criticalSystem before) (fun _ _ => True) critical →
      critical.Sound before) ↔ (before .mstatus).getLsbD mieBit = true := by
  constructor
  · intro hsound
    have hsame := ((hsound _ (reachable_pair before)).restored rfl).1
    rw [← hsame]
    exact mie_execCsr_restore _ _
  · intro hmie critical hreach
    apply Critical.Nested.sound
    apply hreach.invariant (Critical.Nested before)
    · intro critical hinit
      cases hinit
      exact .outside ⟨rfl, rfl⟩
    · exact fun call critical critical' hnested _ hnext => hnested.next hmie hnext

/-- Inside a trap handler, where the global enable is clear and the single ones are set. -/
def trapStatus : Csrs
  | .mstatus => 0x1880
  | .mie => 0x888
  | _ => 0

/-- A pair that is opened and closed inside a trap handler leaves interrupts enabled. -/
theorem not_critical_sound :
    ¬ ∀ before critical, Reachable (criticalSystem before) (fun _ _ => True) critical →
      critical.Sound before := by
  intro hclaim
  have hsame := ((hclaim trapStatus _ (reachable_pair trapStatus)).restored rfl).1
  revert hsame
  decide

end Cyancore.Riscv
