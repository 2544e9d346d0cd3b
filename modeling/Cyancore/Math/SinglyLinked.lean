/-
# Null-terminated linked lists

Nodes carry one pointer, which may be null.  `Linked next start nodes stop` says that
following the pointers from `start` passes through `nodes`, in this order, and then
stands at `stop`; a list is such a path with `stop` null.  A path is determined by where
it starts, and one that ends at null can therefore not meet a node twice.

The two edits are one pointer write each: hanging a node on the end, and making a node
point past the one that follows it.
-/

import Mathlib.Data.List.Nodup
import Mathlib.Logic.Function.Basic

namespace Cyancore.Math

universe u

variable {α : Type u} {next next' : α → Option α}

/-- From `start` the pointers pass through `nodes` and arrive at `stop`. -/
def Linked (next : α → Option α) : Option α → List α → Option α → Prop
  | start, [], stop => start = stop
  | start, node :: nodes, stop => start = some node ∧ Linked next (next node) nodes stop

@[simp]
theorem linked_nil {start stop : Option α} : Linked next start [] stop ↔ start = stop := Iff.rfl

@[simp]
theorem linked_cons {start stop : Option α} {node : α} {nodes : List α} :
    Linked next start (node :: nodes) stop ↔
      start = some node ∧ Linked next (next node) nodes stop := Iff.rfl

/-- Two paths, one after the other. -/
theorem linked_append {start stop : Option α} {first second : List α} :
    Linked next start (first ++ second) stop ↔
      ∃ middle, Linked next start first middle ∧ Linked next middle second stop := by
  induction first generalizing start with
  | nil => simp
  | cons node nodes ih => simp [ih, and_assoc]

/-- A path that reaches a node leaves it by its pointer. -/
theorem linked_append_cons {start stop : Option α} {first second : List α} {node : α} :
    Linked next start (first ++ node :: second) stop ↔
      Linked next start first (some node) ∧ Linked next (next node) second stop := by
  simp only [linked_append, linked_cons]
  constructor
  · rintro ⟨middle, hfirst, rfl, hsecond⟩
    exact ⟨hfirst, hsecond⟩
  · rintro ⟨hfirst, hsecond⟩
    exact ⟨some node, hfirst, rfl, hsecond⟩

/-- A path reads the pointers of its own nodes only. -/
theorem Linked.congr {start stop : Option α} {nodes : List α}
    (hlinked : Linked next start nodes stop) (hnext : ∀ node ∈ nodes, next' node = next node) :
    Linked next' start nodes stop := by
  induction nodes generalizing start with
  | nil => exact hlinked
  | cons node nodes ih =>
      obtain ⟨hstart, hrest⟩ := hlinked
      refine ⟨hstart, ?_⟩
      rw [hnext node (by simp)]
      exact ih hrest fun other hother => hnext other (by simp [hother])

/-! ## Lists that end -/

/-- Where it starts decides which nodes a list has. -/
theorem Linked.unique {start : Option α} {first second : List α}
    (hfirst : Linked next start first none) (hsecond : Linked next start second none) :
    first = second := by
  induction first generalizing start second with
  | nil =>
      cases second with
      | nil => rfl
      | cons node nodes =>
          rw [linked_nil] at hfirst
          rw [hfirst] at hsecond
          cases hsecond.1
  | cons node nodes ih =>
      cases second with
      | nil =>
          rw [linked_nil] at hsecond
          rw [hsecond] at hfirst
          cases hfirst.1
      | cons node' nodes' =>
          have heq : node = node' := Option.some.inj (hfirst.1.symm.trans hsecond.1)
          subst heq
          rw [ih hfirst.2 hsecond.2]

/-- A path to null meets no node twice: from its second visit on it would have to be as long as
from its first. -/
theorem Linked.nodup {start : Option α} {nodes : List α}
    (hlinked : Linked next start nodes none) : nodes.Nodup := by
  induction nodes generalizing start with
  | nil => exact List.nodup_nil
  | cons node nodes ih =>
      apply List.nodup_cons.mpr
      refine ⟨?_, ih hlinked.2⟩
      intro hmem
      obtain ⟨before, after, hsplit⟩ := List.append_of_mem hmem
      have hagain : Linked next (next node) (before ++ node :: after) none := hsplit ▸ hlinked.2
      have hafter := (linked_append_cons.mp hagain).2
      have hlength := congrArg List.length (hafter.unique hagain)
      simp only [List.length_append, List.length_cons] at hlength
      omega

/-- The last node of a list points to null. -/
theorem Linked.next_last {start : Option α} {nodes : List α} {last : α}
    (hlinked : Linked next start (nodes ++ [last]) none) : next last = none :=
  (linked_append_cons.mp hlinked).2

/-! ## Edits -/

variable [DecidableEq α]

/-- Hang a node on the end. -/
theorem Linked.append_last {start : Option α} {nodes : List α} {last node : α}
    (hlinked : Linked next start (nodes ++ [last]) none) (hfresh : node ∉ nodes ++ [last])
    (hnull : next node = none) :
    Linked (Function.update next last (some node)) start (nodes ++ [last] ++ [node]) none := by
  have hnodup := hlinked.nodup
  have hpath := (linked_append_cons.mp hlinked).1
  have hne : node ≠ last := fun heq => hfresh (by simp [heq])
  rw [List.append_assoc, List.singleton_append, linked_append_cons]
  constructor
  · apply hpath.congr
    intro other hother
    apply Function.update_of_ne
    rintro rfl
    exact List.disjoint_of_nodup_append hnodup hother (by simp)
  · rw [Function.update_self, linked_cons, linked_nil, Function.update_of_ne hne]
    exact ⟨rfl, hnull⟩

/-- Make `before` point past the node that follows it. -/
theorem Linked.unlink {start : Option α} {first second : List α} {before node : α}
    (hlinked : Linked next start (first ++ before :: node :: second) none) :
    Linked (Function.update next before (next node)) start (first ++ before :: second) none := by
  have hnodup := hlinked.nodup
  obtain ⟨hfirst, hrest⟩ := linked_append_cons.mp hlinked
  rw [linked_append_cons]
  constructor
  · apply hfirst.congr
    intro other hother
    apply Function.update_of_ne
    rintro rfl
    exact List.disjoint_of_nodup_append hnodup hother (by simp)
  · rw [Function.update_self]
    apply hrest.2.congr
    intro other hother
    apply Function.update_of_ne
    rintro rfl
    have htail := (List.nodup_append.mp hnodup).2.1
    exact (List.nodup_cons.mp htail).1 (by simp [hother])

end Cyancore.Math
