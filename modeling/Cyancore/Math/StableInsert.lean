/-
# Stable insertion by a key

A queue ordered by a key takes a new entry behind the entries of the same key.
Inserting that way keeps the queue in order of the key, and among entries of one
key in order of arrival.
-/

import Mathlib.Data.List.Sort

namespace Cyancore.Math

universe u v

variable {α : Type u} {κ : Type v} [LinearOrder κ] (key : α → κ)

/-- Put `a` before the first entry with a larger key. -/
def insertByKey (a : α) (entries : List α) : List α :=
  entries.orderedInsert (fun a b => key a < key b) a

/-- No entry has a larger key than an entry after it. -/
def KeySorted (entries : List α) : Prop :=
  entries.Pairwise fun a b => key a ≤ key b

theorem insertByKey_eq_append (a : α) {front back : List α}
    (hfront : ∀ b ∈ front, key b ≤ key a) (hback : ∀ b ∈ back.head?, key a < key b) :
    insertByKey key a (front ++ back) = front ++ a :: back := by
  induction front with
  | nil =>
      cases back with
      | nil => rfl
      | cons b back => exact if_pos (hback b rfl)
  | cons b front ih =>
      have hb : ¬ key a < key b := not_lt.mpr (hfront b List.mem_cons_self)
      have hrest := ih fun c hc => hfront c (List.mem_cons_of_mem b hc)
      calc insertByKey key a (b :: front ++ back)
          = b :: insertByKey key a (front ++ back) := if_neg hb
        _ = b :: front ++ a :: back := by rw [hrest, List.cons_append]

theorem insertByKey_perm (a : α) (entries : List α) :
    (insertByKey key a entries).Perm (a :: entries) :=
  List.perm_orderedInsert _ a entries

/-- Every queue splits at its first entry with a larger key. -/
theorem exists_split_key (a : α) (entries : List α) :
    ∃ front back, entries = front ++ back ∧ (∀ b ∈ front, key b ≤ key a) ∧
      ∀ b ∈ back.head?, key a < key b := by
  induction entries with
  | nil => exact ⟨[], [], rfl, by simp, by simp⟩
  | cons b entries ih =>
      by_cases hkey : key b ≤ key a
      · obtain ⟨front, back, rfl, hfront, hback⟩ := ih
        exact ⟨b :: front, back, rfl, by simpa [hkey] using hfront, hback⟩
      · exact ⟨[], b :: entries, rfl, by simp, by simpa using hkey⟩

/-- Where an entry of the queue is inserted once it has been taken out is the place that is
found while it is still in. -/
theorem exists_split_erase [DecidableEq α] (a : α) {entries : List α} (hnodup : entries.Nodup) :
    ∃ front back, entries = front ++ back ∧ (∀ b ∈ front, key b ≤ key a) ∧
      (∀ b ∈ back.head?, key a < key b) ∧ entries.erase a = front.erase a ++ back.erase a ∧
      (back.erase a).head? = back.head? ∧
      insertByKey key a (entries.erase a) = front.erase a ++ a :: back.erase a := by
  obtain ⟨front, back, rfl, hfront, hback⟩ := exists_split_key key a entries
  have herase : (front ++ back).erase a = front.erase a ++ back.erase a := by
    by_cases ha : a ∈ front
    · have ha' : a ∉ back := fun h => List.disjoint_of_nodup_append hnodup ha h
      rw [List.erase_append_left _ ha, List.erase_of_not_mem ha']
    · rw [List.erase_append_right _ ha, List.erase_of_not_mem ha]
  have hplace : (back.erase a).head? = back.head? := by
    cases back with
    | nil => rfl
    | cons b back =>
        have hlarger : key a < key b := hback b rfl
        have hne : b ≠ a := fun h => absurd hlarger (by simp [h])
        rw [List.erase_cons_tail (by simpa using hne), List.head?_cons, List.head?_cons]
  refine ⟨front, back, rfl, hfront, hback, herase, hplace, ?_⟩
  rw [herase]
  exact insertByKey_eq_append key a (fun b hb => hfront b (List.mem_of_mem_erase hb))
    (by rwa [hplace])

variable {key}

/-- A queue in order splits at the place of a new entry. -/
theorem KeySorted.exists_split {entries : List α} (hsorted : KeySorted key entries) (a : α) :
    ∃ front back, entries = front ++ back ∧ (∀ b ∈ front, key b ≤ key a) ∧
      ∀ b ∈ back, key a < key b := by
  obtain ⟨front, back, rfl, hfront, hback⟩ := exists_split_key key a entries
  refine ⟨front, back, rfl, hfront, ?_⟩
  cases back with
  | nil => simp
  | cons b back =>
      have hb : key a < key b := hback b rfl
      obtain ⟨hrest, -⟩ := List.pairwise_cons.mp (List.pairwise_append.mp hsorted).2.1
      intro c hc
      rcases List.mem_cons.mp hc with rfl | hc
      · exact hb
      · exact hb.trans_le (hrest c hc)

/-- Insertion keeps the order of the key. -/
theorem KeySorted.insertByKey {entries : List α} (hsorted : KeySorted key entries) (a : α) :
    KeySorted key (insertByKey key a entries) := by
  obtain ⟨front, back, rfl, hfront, hback⟩ := hsorted.exists_split a
  rw [insertByKey_eq_append key a hfront fun b hb => hback b (List.mem_of_mem_head? hb)]
  obtain ⟨hleft, hright, hcross⟩ := List.pairwise_append.mp hsorted
  refine List.pairwise_append.mpr ⟨hleft, ?_, ?_⟩
  · exact List.pairwise_cons.mpr ⟨fun b hb => (hback b hb).le, hright⟩
  · intro b hb c hc
    rcases List.mem_cons.mp hc with rfl | hc
    · exact hfront b hb
    · exact hcross b hb c hc

/-- Insertion keeps the order of arrival among the entries of each key. -/
theorem KeySorted.filter_insertByKey {entries : List α} (hsorted : KeySorted key entries) (a : α)
    (k : κ) :
    (Math.insertByKey key a entries).filter (fun b => decide (key b = k)) =
      (entries ++ [a]).filter fun b => decide (key b = k) := by
  obtain ⟨front, back, rfl, hfront, hback⟩ := hsorted.exists_split a
  rw [insertByKey_eq_append key a hfront fun b hb => hback b (List.mem_of_mem_head? hb)]
  by_cases hk : key a = k
  · have hnone : back.filter (fun b => decide (key b = k)) = [] := by
      rw [List.filter_eq_nil_iff]
      intro b hb
      simpa [← hk] using (hback b hb).ne'
    simp [List.filter_append, hk, hnone]
  · simp [List.filter_append, hk]

/-- A queue in order of the key and of arrival starts with the entry that arrived last
exactly when every other entry has a larger key. -/
theorem KeySorted.head?_eq_last_iff {queue entries : List α} {a : α}
    (hsorted : KeySorted key queue) (hperm : queue.Perm (entries ++ [a])) (hfresh : a ∉ entries)
    (hstable : ∀ k, queue.filter (fun b => decide (key b = k)) =
      (entries ++ [a]).filter fun b => decide (key b = k)) :
    queue.head? = some a ↔ ∀ b ∈ entries, key a < key b := by
  cases queue with
  | nil =>
      have hlength := hperm.length_eq
      simp at hlength
  | cons head rest =>
      obtain ⟨hhead, -⟩ := List.pairwise_cons.mp hsorted
      rw [List.head?_cons, Option.some_inj]
      constructor
      · rintro rfl b hb
        have hne : b ≠ head := fun h => hfresh (h ▸ hb)
        have hrest : b ∈ rest :=
          (List.mem_cons.mp (hperm.mem_iff.mpr (List.mem_append_left _ hb))).resolve_left hne
        refine lt_of_le_of_ne (hhead b hrest) fun heq => ?_
        -- an entry of the same key arrived earlier, so it comes first among its key
        have hfirst := congrArg List.head? (hstable (key head))
        rw [List.filter_cons_of_pos (by simp), List.head?_cons, List.filter_append,
          List.head?_append_of_ne_nil _
            (List.ne_nil_of_mem (List.mem_filter.mpr ⟨hb, by simp [heq]⟩))] at hfirst
        exact hfresh (List.mem_of_mem_filter (List.mem_of_mem_head? hfirst.symm))
      · intro hlarger
        by_contra hne
        have hhead' : head ∈ entries := by
          have hmem := hperm.mem_iff.mp (List.mem_cons_self (a := head))
          simpa [hne] using hmem
        have ha : a ∈ rest := by
          have hmem := hperm.mem_iff.mpr (List.mem_append_right entries (List.mem_singleton_self a))
          exact (List.mem_cons.mp hmem).resolve_left (Ne.symm hne)
        exact absurd (hhead a ha) (not_le.mpr (hlarger head hhead'))

end Cyancore.Math
