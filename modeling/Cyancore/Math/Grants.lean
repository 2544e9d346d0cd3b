/-
# Grants over a set of marks

An allocator hands out units and remembers them by marks.  What has been handed out and
not taken back is a list of grants, each over a set of units.  The allocator sees only
its marks: they may track a part of the units, and failed allocations may leave marks
behind that no grant answers for.  The list of grants exists for the observer alone.
-/

import Mathlib.Data.Set.Lattice
import Mathlib.Order.CompletePartialOrder
import Mathlib.Data.List.Pairwise

namespace Cyancore.Math

variable {γ υ : Type*} {covers : γ → Set υ} {tracked marked marked' : Set υ} {grants : List γ}

/-- No two grants of the list share a unit. -/
def Exclusive (covers : γ → Set υ) (grants : List γ) : Prop :=
  grants.Pairwise fun first second => Disjoint (covers first) (covers second)

/-- The marks know the tracked units of every grant, and the grants are exclusive. -/
structure Custody (covers : γ → Set υ) (tracked marked : Set υ) (grants : List γ) : Prop where
  kept : ∀ grant ∈ grants, covers grant ∩ tracked ⊆ marked
  exclusive : Exclusive covers grants

namespace Custody

/-- Nothing has been handed out. -/
theorem nil : Custody covers tracked marked [] where
  kept _ hmem := by cases hmem
  exclusive := List.Pairwise.nil

/-- Further marks do no harm. -/
theorem mark (hcustody : Custody covers tracked marked grants) (hmarked : marked ⊆ marked') :
    Custody covers tracked marked' grants where
  kept grant hmem := (hcustody.kept grant hmem).trans hmarked
  exclusive := hcustody.exclusive

/-- Units whose tracked part is unmarked, and whose untracked part nobody holds, are
nobody's. -/
theorem disjoint_of_unmarked (hcustody : Custody covers tracked marked grants) {new : γ}
    (hunmarked : Disjoint (covers new ∩ tracked) marked)
    (huntracked : ∀ held ∈ grants, Disjoint (covers new \ tracked) (covers held)) :
    ∀ held ∈ grants, Disjoint (covers new) (covers held) := by
  intro held hheld
  rw [Set.disjoint_left]
  intro unit hunit hother
  by_cases htracked : unit ∈ tracked
  · have hmark : unit ∈ marked := hcustody.kept held hheld ⟨hother, htracked⟩
    exact Set.disjoint_left.mp hunmarked ⟨hunit, htracked⟩ hmark
  · exact Set.disjoint_left.mp (huntracked held hheld) ⟨hunit, htracked⟩ hother

/-- Hand out units that are nobody's, and mark the tracked ones. -/
theorem grant (hcustody : Custody covers tracked marked grants) {new : γ}
    (hunmarked : Disjoint (covers new ∩ tracked) marked)
    (huntracked : ∀ held ∈ grants, Disjoint (covers new \ tracked) (covers held))
    (hmarked : marked ∪ covers new ∩ tracked ⊆ marked') :
    Custody covers tracked marked' (new :: grants) where
  kept := by
    intro held hheld
    rcases List.mem_cons.mp hheld with rfl | hold
    · exact Set.subset_union_right.trans hmarked
    · exact (hcustody.kept held hold).trans (Set.subset_union_left.trans hmarked)
  exclusive := by
    apply List.Pairwise.cons _ hcustody.exclusive
    exact hcustody.disjoint_of_unmarked hunmarked huntracked

/-- A grant that is taken back shares no unit with those that stay. -/
theorem disjoint_of_mem_erase [DecidableEq γ] (hcustody : Custody covers tracked marked grants)
    {old held : γ} (hold : old ∈ grants) (hheld : held ∈ grants.erase old) :
    Disjoint (covers old) (covers held) := by
  have hpairwise : (old :: grants.erase old).Pairwise
      fun first second => Disjoint (covers first) (covers second) := by
    apply (List.perm_cons_erase hold).pairwise hcustody.exclusive
    intro first second hdisjoint
    exact hdisjoint.symm
  exact (List.pairwise_cons.mp hpairwise).1 held hheld

/-- Take a grant back, and unmark no unit but its own. -/
theorem release [DecidableEq γ] (hcustody : Custody covers tracked marked grants) {old : γ}
    (hold : old ∈ grants) (hmarked : marked \ covers old ⊆ marked') :
    Custody covers tracked marked' (grants.erase old) where
  kept := by
    intro held hheld unit hunit
    apply hmarked
    constructor
    · exact hcustody.kept held (List.mem_of_mem_erase hheld) hunit
    · intro hshared
      exact Set.disjoint_left.mp (hcustody.disjoint_of_mem_erase hold hheld) hshared hunit.1
  exclusive := hcustody.exclusive.sublist List.erase_sublist

end Custody

end Cyancore.Math
