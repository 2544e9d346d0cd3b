/-
# Sorting by one pass for each key

Going through a list once for every possible key, and taking the entries of that key in
each pass, sorts the list by the key and keeps entries of one key in place: it is the
stable sort by the key.
-/

import Mathlib.Data.List.Pairwise
import Mathlib.Data.List.Sort

namespace Cyancore.Math

universe u v

variable {α : Type u} {κ : Type v} [DecidableEq κ]

/-- The entries in the order in which the passes for the listed keys meet them. -/
def buckets (keys : List κ) (key : α → κ) (entries : List α) : List α :=
  keys.flatMap fun k => entries.filter (key · = k)

variable {keys : List κ} {key : α → κ} {entries : List α}

theorem mem_buckets {a : α} : a ∈ buckets keys key entries ↔ a ∈ entries ∧ key a ∈ keys := by
  simp only [buckets, List.mem_flatMap, List.mem_filter, decide_eq_true_eq]
  constructor
  · rintro ⟨k, hk, ha, rfl⟩
    exact ⟨ha, hk⟩
  · rintro ⟨ha, hk⟩
    exact ⟨key a, hk, ha, rfl⟩

theorem buckets_cons_key (k : κ) (keys : List κ) (key : α → κ) (entries : List α) :
    buckets (k :: keys) key entries = entries.filter (key · = k) ++ buckets keys key entries :=
  List.flatMap_cons

/-- The passes visit the entries by key, and by position within a key. -/
theorem pairwise_buckets {before : κ → κ → Prop} {earlier : α → α → Prop}
    (hkeys : keys.Pairwise before) (hentries : entries.Pairwise earlier) :
    (buckets keys key entries).Pairwise fun a b =>
      before (key a) (key b) ∨ key a = key b ∧ earlier a b := by
  induction keys with
  | nil => exact .nil
  | cons k keys ih =>
      obtain ⟨hk, hkeys⟩ := List.pairwise_cons.mp hkeys
      rw [buckets_cons_key, List.pairwise_append]
      refine ⟨?_, ih hkeys, fun a ha b hb => ?_⟩
      · apply (hentries.filter _).imp_of_mem
        intro a b ha hb hab
        have hka : key a = k := by simpa using (List.mem_filter.mp ha).2
        have hkb : key b = k := by simpa using (List.mem_filter.mp hb).2
        exact .inr ⟨hka.trans hkb.symm, hab⟩
      · have hka : key a = k := by simpa using (List.mem_filter.mp ha).2
        exact .inl (hka ▸ hk (key b) (mem_buckets.mp hb).2)

/-- Two orders of one list agree on its entries, if one of them cannot be reversed. -/
theorem rel_of_pairwise {first second : α → α → Prop}
    (hasymm : ∀ a b, first a b → ¬ first b a) (hfirst : entries.Pairwise first)
    (hsecond : entries.Pairwise second) {a b : α} (ha : a ∈ entries) (hb : b ∈ entries)
    (hab : first a b) : second a b := by
  let agree : α → α → Prop := fun x y => (first x y → second x y) ∧ (first y x → second y x)
  have hsymm : Std.Symm agree := ⟨fun x y h => ⟨h.2, h.1⟩⟩
  have hself : ∀ x ∈ entries, agree x x := fun x _ =>
    ⟨fun h => absurd h (hasymm x x h), fun h => absurd h (hasymm x x h)⟩
  have hpairs : entries.Pairwise agree := by
    apply (hfirst.and hsecond).imp
    rintro x y ⟨hxy, hxy'⟩
    exact ⟨fun _ => hxy', fun hyx => absurd hyx (hasymm x y hxy)⟩
  exact (hpairs.forall_of_forall hself ha hb).1 hab

/-- Entries that must stay in front are passed over by an insertion. -/
theorem orderedInsert_append {r : α → α → Prop} [DecidableRel r] {a : α} {front : List α}
    (hfront : ∀ b ∈ front, ¬ r a b) (back : List α) :
    (front ++ back).orderedInsert r a = front ++ back.orderedInsert r a := by
  induction front with
  | nil => rfl
  | cons b front ih =>
      have hb : ¬ r a b := hfront b List.mem_cons_self
      rw [List.cons_append, List.orderedInsert_of_not_le _ _ hb,
        ih fun c hc => hfront c (List.mem_cons_of_mem b hc), List.cons_append]

/-- An entry whose key comes before those of all others goes to the front. -/
theorem orderedInsert_of_forall {r : α → α → Prop} [DecidableRel r] {a : α} {entries : List α}
    (hentries : ∀ b ∈ entries, r a b) : entries.orderedInsert r a = a :: entries := by
  cases entries with
  | nil => rfl
  | cons b entries => exact List.orderedInsert_cons_of_le _ _ (hentries b List.mem_cons_self)

section Ranks

variable {β : Type v} [LinearOrder β] {ranks : List β} {rank : α → β}

/-- A new first entry is inserted in front of the entries of its key. -/
theorem buckets_cons_entry (hranks : ranks.Pairwise (· < ·)) {a : α} (ha : rank a ∈ ranks)
    (entries : List α) :
    buckets ranks rank (a :: entries) =
      (buckets ranks rank entries).orderedInsert (fun a b => rank a ≤ rank b) a := by
  induction ranks with
  | nil => cases ha
  | cons k ranks ih =>
      obtain ⟨hk, hranks⟩ := List.pairwise_cons.mp hranks
      rw [buckets_cons_key, buckets_cons_key]
      by_cases hrank : rank a = k
      · -- no later pass meets the entry
        have hlater : buckets ranks rank (a :: entries) = buckets ranks rank entries := by
          apply List.flatMap_congr
          intro k' hk'
          have hne : rank a ≠ k' := fun h => (hk k' hk').ne (hrank.symm.trans h)
          simp [hne]
        have hfirst : ∀ b ∈ entries.filter (rank · = k) ++ buckets ranks rank entries,
            rank a ≤ rank b := by
          intro b hb
          rcases List.mem_append.mp hb with hb | hb
          · have hkb : rank b = k := by simpa using (List.mem_filter.mp hb).2
            exact (hrank.trans hkb.symm).le
          · exact hrank ▸ (hk (rank b) (mem_buckets.mp hb).2).le
        rw [hlater, orderedInsert_of_forall hfirst]
        simp [hrank]
      · have hin : rank a ∈ ranks := (List.mem_cons.mp ha).resolve_left hrank
        have hfront : ∀ b ∈ entries.filter (rank · = k), ¬ rank a ≤ rank b := by
          intro b hb
          have hkb : rank b = k := by simpa using (List.mem_filter.mp hb).2
          exact not_le.mpr (hkb ▸ hk (rank a) hin)
        rw [orderedInsert_append hfront, ih hranks hin]
        simp [hrank]

/-- One pass for each key in increasing order is the stable sort by the key. -/
theorem buckets_eq_insertionSort (hranks : ranks.Pairwise (· < ·))
    (hentries : ∀ a ∈ entries, rank a ∈ ranks) :
    buckets ranks rank entries = entries.insertionSort fun a b => rank a ≤ rank b := by
  induction entries with
  | nil => simp [buckets]
  | cons a entries ih =>
      rw [buckets_cons_entry hranks (hentries a List.mem_cons_self),
        ih fun b hb => hentries b (List.mem_cons_of_mem a hb), List.insertionSort_cons]

end Ranks

end Cyancore.Math
