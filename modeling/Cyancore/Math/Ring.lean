/-
# Circular doubly linked lists

Nodes carry a `next` and a `prev` pointer, either of which may be null.  A
`Ring` is a duplicate-free list of nodes whose pointers go round: each node is
joined to the one after it, and the last one to the first.  A ring has no
distinguished start, so every fact is proved for the node that heads the list
and moved to the others by rotation.

The two edits are those of every such list: linking a fresh node in before a
member, and unlinking a member.  Both are stated as pure pointer updates; a
program refines them by performing the same writes in its own order.
-/

import Mathlib.Data.List.Chain
import Mathlib.Data.List.Nodup
import Mathlib.Logic.Function.Basic

namespace Cyancore.Math

universe u

/-- The two pointers of every node. -/
structure Links (α : Type u) where
  /-- The node after this one. -/
  next : α → Option α
  /-- The node before this one. -/
  prev : α → Option α

namespace Links

variable {α : Type u} {links links' : Links α}

/-- `second` follows `first`, and both know it. -/
def Joined (links : Links α) (first second : α) : Prop :=
  links.next first = some second ∧ links.prev second = some first

/-- The listed nodes are joined in order and the last one is joined to the first. -/
structure Ring (links : Links α) (nodes : List α) : Prop where
  nodup : nodes.Nodup
  closed : (nodes ++ nodes.head?.toList).IsChain links.Joined

/-- A chain reads `next` everywhere but at its end and `prev` everywhere but at its start. -/
theorem isChain_joined_congr {nodes : List α}
    (hnext : ∀ a ∈ nodes.dropLast, links'.next a = links.next a)
    (hprev : ∀ a ∈ nodes.tail, links'.prev a = links.prev a)
    (hchain : nodes.IsChain links.Joined) : nodes.IsChain links'.Joined := by
  induction hchain with
  | nil => exact .nil
  | singleton => exact .singleton _
  | @cons_cons a b l hjoined _ ih =>
      refine List.isChain_cons_cons.mpr ⟨⟨?_, ?_⟩, ih ?_ ?_⟩
      · rw [hnext a (by simp), hjoined.1]
      · rw [hprev b (by simp), hjoined.2]
      · exact fun c hc => hnext c (by simp [hc])
      · exact fun c hc => hprev c (by simp [List.mem_of_mem_tail hc])

@[simp]
theorem ring_nil : links.Ring [] := ⟨List.nodup_nil, by simp⟩

/-- Pointers that agree on the members give the same rings. -/
theorem Ring.congr {nodes : List α} (hring : links.Ring nodes)
    (hnext : ∀ a ∈ nodes, links'.next a = links.next a)
    (hprev : ∀ a ∈ nodes, links'.prev a = links.prev a) : links'.Ring nodes := by
  have hmem : ∀ a ∈ nodes ++ nodes.head?.toList, a ∈ nodes := by
    intro a ha
    rcases List.mem_append.mp ha with ha | ha
    · exact ha
    · exact List.mem_of_mem_head? (by simpa using ha)
  refine ⟨hring.nodup, isChain_joined_congr ?_ ?_ hring.closed⟩
  · exact fun a ha => hnext a (hmem a (List.dropLast_subset _ ha))
  · exact fun a ha => hprev a (hmem a (List.mem_of_mem_tail ha))

/-- The last member of a ring is joined to its first. -/
theorem Ring.joined_last {init : List α} {last head : α} (hring : links.Ring (init ++ [last]))
    (hhead : (init ++ [last]).head? = some head) : links.Joined last head := by
  have hclosed := hring.closed
  simp only [hhead, Option.toList_some, List.append_assoc, List.singleton_append,
    List.isChain_append_cons_cons] at hclosed
  exact hclosed.2.1

/-- Neighbouring members are joined. -/
theorem Ring.joined_of_split (before after : List α) {a b : α}
    (hring : links.Ring (before ++ a :: b :: after)) : links.Joined a b := by
  have hclosed := hring.closed
  rw [List.append_assoc, List.cons_append, List.cons_append,
    List.isChain_append_cons_cons] at hclosed
  exact hclosed.2.1

/-- A ring may be read from any of its members. -/
theorem Ring.rotate (front back : List α) (hring : links.Ring (front ++ back)) :
    links.Ring (back ++ front) := by
  induction front generalizing back with
  | nil => simpa using hring
  | cons a front ih =>
      have hmoved : links.Ring (front ++ (back ++ [a])) := by
        refine ⟨?_, ?_⟩
        · have hnodup := hring.nodup
          rw [List.cons_append, ← List.singleton_append] at hnodup
          simpa using List.nodup_append_comm.mp hnodup
        · cases hrest : front ++ back with
          | nil =>
              obtain ⟨rfl, rfl⟩ := List.append_eq_nil_iff.mp hrest
              simpa using hring.closed
          | cons b rest =>
              have hclosed := hring.closed
              rw [List.cons_append, hrest] at hclosed
              simp only [List.head?_cons, Option.toList_some, List.cons_append,
                List.isChain_cons_cons] at hclosed
              rw [← List.append_assoc, hrest]
              simp only [List.cons_append, List.head?_cons, Option.toList_some,
                List.append_assoc, List.nil_append, List.isChain_cons_append_cons_cons]
              exact ⟨hclosed.2, hclosed.1, .singleton _⟩
      simpa using ih _ hmoved

/-- Every member has a successor in the ring, and is that node's predecessor. -/
theorem Ring.exists_next {nodes : List α} (hring : links.Ring nodes) {a : α} (ha : a ∈ nodes) :
    ∃ b ∈ nodes, links.Joined a b := by
  obtain ⟨before, after, rfl⟩ := List.append_of_mem ha
  have hrotated : links.Ring (after ++ before ++ [a]) := by
    have hmoved := Ring.rotate (before ++ [a]) after (by simpa using hring)
    simpa using hmoved
  cases hhead : (after ++ before ++ [a]).head? with
  | none => simp at hhead
  | some b =>
      refine ⟨b, ?_, hrotated.joined_last hhead⟩
      have hb := List.mem_of_mem_head? hhead
      simp only [List.append_assoc, List.mem_append, List.mem_cons, List.not_mem_nil,
        or_false] at hb ⊢
      tauto

/-- Every member has a predecessor in the ring. -/
theorem Ring.exists_prev {nodes : List α} (hring : links.Ring nodes) {a : α} (ha : a ∈ nodes) :
    ∃ b ∈ nodes, links.Joined b a := by
  obtain ⟨before, after, rfl⟩ := List.append_of_mem ha
  have hrotated : links.Ring (a :: (after ++ before)) := by
    simpa using Ring.rotate _ _ hring
  obtain ⟨init, last, hlast⟩ : ∃ init last, a :: (after ++ before) = init ++ [last] :=
    ⟨_, _, (List.dropLast_concat_getLast (List.cons_ne_nil a (after ++ before))).symm⟩
  rw [hlast] at hrotated
  refine ⟨last, ?_, hrotated.joined_last (by rw [← hlast]; rfl)⟩
  have hmem : last ∈ a :: (after ++ before) := by simp [hlast]
  simp only [List.mem_cons, List.mem_append] at hmem ⊢
  tauto

/-- Only in a ring of at most two do both pointers of a member agree. -/
theorem Ring.next_ne_prev {nodes : List α} (hring : links.Ring nodes) {a : α} (ha : a ∈ nodes)
    (hlength : 2 < nodes.length) : links.next a ≠ links.prev a := by
  obtain ⟨before, after, rfl⟩ := List.append_of_mem ha
  have hrotated : links.Ring (a :: (after ++ before)) := by
    simpa using Ring.rotate _ _ hring
  have hrest : 1 < (after ++ before).length := by
    simp only [List.length_append, List.length_cons] at hlength ⊢
    omega
  obtain ⟨first, second, rest, hsplit⟩ : ∃ first second rest,
      after ++ before = first :: second :: rest := by
    match after ++ before, hrest with
    | first :: second :: rest, _ => exact ⟨first, second, rest, rfl⟩
  rw [hsplit] at hrotated
  obtain ⟨init, last, hlast⟩ : ∃ init last, second :: rest = init ++ [last] :=
    ⟨_, _, (List.dropLast_concat_getLast (List.cons_ne_nil second rest)).symm⟩
  have hnext : links.Joined a first := Ring.joined_of_split [] (second :: rest) hrotated
  have hnodup := hrotated.nodup
  rw [hlast] at hrotated hnodup
  have hprev : links.Joined last a :=
    @Ring.joined_last α links (a :: first :: init) last a hrotated rfl
  rw [hnext.1, hprev.2]
  rintro h
  obtain rfl := Option.some.inj h
  simp at hnodup

section Edits

variable [DecidableEq α]

/-- Make `node` a ring of its own. -/
def alone (links : Links α) (node : α) : Links α where
  next := Function.update links.next node (some node)
  prev := Function.update links.prev node (some node)

/-- Link `node` in between `ref` and its predecessor `pred`. -/
def insertBefore (links : Links α) (ref pred node : α) : Links α where
  next := Function.update (Function.update links.next node (some ref)) pred (some node)
  prev := Function.update (Function.update links.prev node (some pred)) ref (some node)

/-- Bridge over `node`, which lies between `pred` and `succ`, and clear its pointers. -/
def detach (links : Links α) (node pred succ : α) : Links α where
  next := Function.update (Function.update links.next pred (some succ)) node none
  prev := Function.update (Function.update links.prev succ (some pred)) node none

theorem ring_alone (links : Links α) (node : α) : (links.alone node).Ring [node] :=
  ⟨List.nodup_singleton node, by simp [Joined, alone]⟩

/-- Linking in before the node a ring is read from puts the new node at its end. -/
theorem Ring.insertBefore_head {ref pred node : α} {rest : List α}
    (hring : links.Ring (ref :: rest)) (hfresh : node ∉ ref :: rest)
    (hpred : links.prev ref = some pred) :
    (links.insertBefore ref pred node).Ring (ref :: rest ++ [node]) := by
  obtain ⟨init, last, hlast⟩ : ∃ init last, ref :: rest = init ++ [last] :=
    ⟨_, _, (List.dropLast_concat_getLast (List.cons_ne_nil ref rest)).symm⟩
  have hjoined : links.Joined last ref :=
    Ring.joined_last (hlast ▸ hring) (by rw [← hlast]; rfl)
  obtain rfl : last = pred := Option.some.inj (hjoined.2.symm.trans hpred)
  have hnodup := hring.nodup
  have hinit : last ∉ init := fun h => by
    rw [hlast] at hnodup
    exact List.disjoint_of_nodup_append hnodup h (by simp)
  have hne : node ≠ last := fun h => hfresh (by rw [hlast, h]; simp)
  have hne' : node ≠ ref := fun h => hfresh (by simp [h])
  have hchain : (ref :: rest).IsChain (links.insertBefore ref last node).Joined := by
    refine isChain_joined_congr ?_ ?_ hring.closed.left_of_append
    · intro a ha
      rw [hlast, List.dropLast_concat] at ha
      have hnode : a ≠ node := fun h => hfresh (by rw [hlast]; simp [← h, ha])
      have hpred : a ≠ last := fun h => hinit (h ▸ ha)
      simp [insertBefore, hnode, hpred]
    · intro a ha
      have hnode : a ≠ node := fun h => hfresh (by simp [← h, List.tail_cons ▸ ha])
      have href : a ≠ ref := fun h => (List.nodup_cons.mp hnodup).1 (h ▸ ha)
      simp [insertBefore, hnode, href]
  refine ⟨?_, ?_⟩
  · exact List.nodup_append.mpr ⟨hnodup, List.nodup_singleton _, by
      intro a ha b hb hab
      rw [List.mem_singleton] at hb
      exact hfresh (by rwa [← hb, ← hab])⟩
  · rw [hlast] at hchain
    have hhead : (ref :: rest ++ [node]).head? = some ref := rfl
    rw [hhead, hlast]
    simp only [Option.toList_some, List.append_assoc, List.cons_append, List.nil_append,
      List.isChain_append_cons_cons]
    refine ⟨hchain, ⟨?_, ?_⟩, ?_⟩
    · simp [insertBefore]
    · simp [insertBefore, hne']
    · refine List.isChain_pair.mpr ⟨?_, ?_⟩
      · simp [insertBefore, hne]
      · simp [insertBefore]

/-- Linking in before any member puts the new node right before it. -/
theorem Ring.insertBefore {ref pred node : α} {before after : List α}
    (hring : links.Ring (before ++ ref :: after)) (hfresh : node ∉ before ++ ref :: after)
    (hpred : links.prev ref = some pred) :
    (links.insertBefore ref pred node).Ring (before ++ node :: ref :: after) := by
  have hrotated : links.Ring (ref :: (after ++ before)) := by
    simpa using hring.rotate _ _
  have hfresh' : node ∉ ref :: (after ++ before) := by
    simp only [List.mem_cons, List.mem_append] at hfresh ⊢
    tauto
  have hnew := hrotated.insertBefore_head hfresh' hpred
  have hback := Ring.rotate (ref :: after) (before ++ [node]) (by simpa using hnew)
  simpa using hback

/-- Linking in before the successor of any member puts the new node right behind it. -/
theorem Ring.insertAfter {ref succ node : α} {before after : List α}
    (hring : links.Ring (before ++ ref :: after)) (hfresh : node ∉ before ++ ref :: after)
    (hsucc : links.next ref = some succ) :
    (links.insertBefore succ ref node).Ring (before ++ ref :: node :: after) := by
  -- read from the successor, the ring ends with the member
  have hrotated : links.Ring (after ++ before ++ [ref]) := by
    have hmoved := Ring.rotate (before ++ [ref]) after (by simpa using hring)
    simpa using hmoved
  obtain ⟨head, rest, hsplit⟩ := List.exists_cons_of_ne_nil
    (List.append_ne_nil_of_right_ne_nil (after ++ before) (List.cons_ne_nil ref []))
  have hjoined : links.Joined ref head := hrotated.joined_last (by rw [hsplit]; rfl)
  obtain rfl : head = succ := Option.some.inj (hjoined.1.symm.trans hsucc)
  have hfresh' : node ∉ after ++ before ++ [ref] := by
    simp only [List.mem_cons, List.mem_append, List.not_mem_nil, or_false] at hfresh ⊢
    tauto
  rw [hsplit] at hrotated hfresh'
  have hnew := hrotated.insertBefore_head hfresh' hjoined.2
  rw [← hsplit] at hnew
  have hback := Ring.rotate after (before ++ [ref, node]) (by simpa using hnew)
  simpa using hback

/-- Unlinking the node a ring is read from leaves the rest of the ring. -/
theorem Ring.detach_head {node pred succ : α} {rest : List α}
    (hring : links.Ring (node :: rest)) (hpred : links.prev node = some pred)
    (hsucc : links.next node = some succ) : (links.detach node pred succ).Ring rest := by
  cases rest with
  | nil => exact ring_nil
  | cons b rest =>
      have hnodup := hring.nodup
      have hfirst : links.Joined node b := Ring.joined_of_split [] rest hring
      obtain rfl : b = succ := Option.some.inj (hfirst.1.symm.trans hsucc)
      obtain ⟨init, last, hlast⟩ : ∃ init last, b :: rest = init ++ [last] :=
        ⟨_, _, (List.dropLast_concat_getLast (List.cons_ne_nil b rest)).symm⟩
      have hjoined : links.Joined last node :=
        @Ring.joined_last α links (node :: init) last node
          (by rw [List.cons_append, ← hlast]; exact hring) rfl
      obtain rfl : last = pred := Option.some.inj (hjoined.2.symm.trans hpred)
      have hfresh : node ∉ b :: rest := (List.nodup_cons.mp hnodup).1
      have hnodup' := (List.nodup_cons.mp hnodup).2
      have hinit : last ∉ init := fun h => by
        rw [hlast] at hnodup'
        exact List.disjoint_of_nodup_append hnodup' h (by simp)
      have hchain : (b :: rest).IsChain (links.detach node last b).Joined := by
        refine isChain_joined_congr ?_ ?_
          (List.IsChain.left_of_append (List.isChain_cons_cons.mp hring.closed).2)
        · intro a ha
          rw [hlast, List.dropLast_concat] at ha
          have hnode : a ≠ node := fun h => hfresh (by rw [hlast]; simp [← h, ha])
          have hpred : a ≠ last := fun h => hinit (h ▸ ha)
          simp [detach, hnode, hpred]
        · intro a ha
          have hnode : a ≠ node := fun h => hfresh (by simp [← h, List.tail_cons ▸ ha])
          have hb : a ≠ b := fun h => (List.nodup_cons.mp hnodup').1 (h ▸ ha)
          simp [detach, hnode, hb]
      refine ⟨hnodup', ?_⟩
      have hlastne : last ≠ node := fun h => hfresh (by rw [hlast, ← h]; simp)
      have hbne : b ≠ node := fun h => hfresh (by simp [h])
      rw [List.head?_cons, hlast]
      simp only [Option.toList_some, List.append_assoc, List.singleton_append,
        List.isChain_append_cons_cons]
      refine ⟨hlast ▸ hchain, ⟨?_, ?_⟩, .singleton _⟩
      · simp [detach, hlastne]
      · simp [detach, hbne]

/-- Unlinking any member leaves the others in their order. -/
theorem Ring.detach {node pred succ : α} {before after : List α}
    (hring : links.Ring (before ++ node :: after)) (hpred : links.prev node = some pred)
    (hsucc : links.next node = some succ) :
    (links.detach node pred succ).Ring (before ++ after) := by
  have hrotated : links.Ring (node :: (after ++ before)) := by
    simpa using hring.rotate _ _
  exact (hrotated.detach_head hpred hsucc).rotate _ _

/-- Unlinking a member erases it. -/
theorem Ring.detach_erase {node pred succ : α} {nodes : List α} (hring : links.Ring nodes)
    (hmem : node ∈ nodes) (hpred : links.prev node = some pred)
    (hsucc : links.next node = some succ) :
    (links.detach node pred succ).Ring (nodes.erase node) := by
  obtain ⟨before, after, rfl⟩ := List.append_of_mem hmem
  have hbefore : node ∉ before := fun h =>
    List.disjoint_of_nodup_append hring.nodup h List.mem_cons_self
  rw [List.erase_append_right _ hbefore, List.erase_cons_head]
  exact hring.detach hpred hsucc

end Edits

end Links

end Cyancore.Math
