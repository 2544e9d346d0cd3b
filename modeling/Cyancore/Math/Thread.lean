/-
# Walking back along a linked list

A list that has been damaged may still be walked.  What a backward search needs is
that the `prev` pointers of all members lead, over members, to one goal; what a
forward search needs is that the `next` pointers lead from the first node to that
goal.  Both are weaker than being a ring, and both are kept by unlinking a node
that lies on the way.
-/

import Cyancore.Math.Ring
import Mathlib.Data.Set.Basic

namespace Cyancore.Math.Links

universe u

variable {α : Type u} {links links' : Links α}

/-! ## The way back -/

/-- Following `prev` pointers from the node leads to `goal`. -/
inductive BackTo (links : Links α) (goal : α) : α → Prop
  | here : BackTo links goal goal
  | step {node pred : α} (hprev : links.prev node = some pred) (hpred : BackTo links goal pred) :
      BackTo links goal node

/-- From every node of a chain the way back leads through its first node. -/
theorem backTo_of_isChain {goal first : α} {nodes : List α}
    (hchain : (first :: nodes).IsChain fun a b => links.prev b = some a)
    (hfirst : links.BackTo goal first) : ∀ node ∈ first :: nodes, links.BackTo goal node := by
  induction nodes generalizing first with
  | nil =>
      intro node hnode
      rwa [List.mem_singleton.mp hnode]
  | cons second nodes ih =>
      obtain ⟨hprev, hrest⟩ := List.isChain_cons_cons.mp hchain
      intro node hnode
      rcases List.mem_cons.mp hnode with rfl | hnode
      · exact hfirst
      · exact ih hrest (.step hprev hfirst) node hnode

/-- Every member has a successor, and the way back from it leads over members to `goal`. -/
structure LeadsTo (links : Links α) (goal : α) (members : Set α) : Prop where
  next : ∀ a ∈ members, ∃ succ, links.next a = some succ
  prev : ∀ a ∈ members, ∃ pred, links.prev a = some pred ∧ (pred = goal ∨ pred ∈ members)
  back : ∀ a ∈ members, links.BackTo goal a

/-- Besides, the nodes of `front` lead forward to `goal`, and whoever follows one of them
knows it. -/
structure Threaded (links : Links α) (goal : α) (front : List α) (members : Set α) : Prop
    extends links.LeadsTo goal members where
  nodup : (front ++ [goal]).Nodup
  forward : (front ++ [goal]).IsChain fun a b => links.next a = some b
  subset : ∀ a ∈ front, a ∈ members
  inverse : ∀ a ∈ front, ∀ b ∈ members, links.prev b = some a ↔ links.next a = some b
  goal_notMem : goal ∉ members

/-! ## Rings and damaged rings -/

/-- A chain of joined nodes, read backwards through other pointers. -/
theorem isChain_prev_congr {nodes : List α} (hchain : nodes.IsChain links.Joined)
    (hprev : ∀ a ∈ nodes.tail, links'.prev a = links.prev a) :
    nodes.IsChain fun a b => links'.prev b = some a := by
  induction hchain with
  | nil => exact .nil
  | singleton => exact .singleton _
  | @cons_cons a b l hjoined _ ih =>
      refine List.isChain_cons_cons.mpr ⟨?_, ih ?_⟩
      · rw [hprev b (by simp), hjoined.2]
      · exact fun c hc => hprev c (by simp [List.mem_of_mem_tail hc])

/-- A chain of joined nodes, read forwards through other pointers. -/
theorem isChain_next_congr {nodes : List α} (hchain : nodes.IsChain links.Joined)
    (hnext : ∀ a ∈ nodes.dropLast, links'.next a = links.next a) :
    nodes.IsChain fun a b => links'.next a = some b := by
  induction hchain with
  | nil => exact .nil
  | singleton => exact .singleton _
  | @cons_cons a b l hjoined _ ih =>
      refine List.isChain_cons_cons.mpr ⟨?_, ih ?_⟩
      · rw [hnext a (by simp), hjoined.1]
      · exact fun c hc => hnext c (by simp [hc])

section Damage

variable {goal : α} {front back : List α}

/-- The node before the first one of a ring read from its start is its last one. -/
theorem Ring.exists_last_joined {head : α} (hring : links.Ring (head :: front ++ goal :: back)) :
    ∃ last ∈ goal :: back, links.Joined last head := by
  obtain ⟨init, last, hlast⟩ : ∃ init last, goal :: back = init ++ [last] :=
    ⟨_, _, (List.dropLast_concat_getLast (List.cons_ne_nil goal back)).symm⟩
  refine ⟨last, by simp [hlast], ?_⟩
  rw [hlast, ← List.append_assoc] at hring
  exact hring.joined_last (by simp)

variable (hring : links.Ring (front ++ goal :: back))

include hring

/-- The way back survives when the pointer of the first node has been turned to the goal. -/
theorem Ring.backTo_of_prev
    (hprev : ∀ a ∈ front ++ back, links'.prev a = links.prev a ∨
      front.head? = some a ∧ links'.prev a = some goal) :
    ∀ a ∈ front ++ back, links'.BackTo goal a := by
  obtain ⟨-, hright, hcross⟩ := List.nodup_append.mp hring.nodup
  have hchain : (goal :: (back ++ front)).IsChain links.Joined := by
    have hclosed := (hring.rotate front (goal :: back)).closed
    exact List.IsChain.left_of_append hclosed
  have hback : ∀ a ∈ goal :: back, links'.BackTo goal a := by
    refine backTo_of_isChain (isChain_prev_congr (List.IsChain.left_of_append
      (by simpa using hchain)) fun a ha => ?_) .here
    rcases hprev a (List.mem_append_right front ha) with hsame | ⟨hhead, -⟩
    · exact hsame
    · exact absurd rfl (hcross a (List.mem_of_mem_head? hhead) a (List.mem_cons_of_mem goal ha))
  cases front with
  | nil =>
      intro a ha
      exact hback a (List.mem_cons_of_mem goal (by simpa using ha))
  | cons head front =>
      have hnodup := (List.nodup_append.mp hring.nodup).1
      have hhead : links'.BackTo goal head := by
        obtain ⟨last, hlast, hjoined⟩ := hring.exists_last_joined
        rcases hprev head (by simp) with hsame | ⟨-, hturned⟩
        · exact .step (hsame.trans hjoined.2) (hback last hlast)
        · exact .step hturned .here
      have hfront : ∀ a ∈ head :: front, links'.BackTo goal a := by
        refine backTo_of_isChain (isChain_prev_congr
          (List.IsChain.left_of_append (List.IsChain.left_of_append hring.closed))
          fun a ha => ?_) hhead
        rcases hprev a (by simp [List.tail_cons ▸ ha]) with hsame | ⟨hfirst, -⟩
        · exact hsame
        · obtain rfl : head = a := by simpa using hfirst
          exact absurd ha (List.nodup_cons.mp hnodup).1
      intro a ha
      rcases List.mem_append.mp ha with ha | ha
      · exact hfront a ha
      · exact hback a (List.mem_cons_of_mem goal ha)

/-- Who follows a node of `front` still knows it. -/
theorem Ring.prev_eq_iff (hnext : ∀ a ∈ front, links'.next a = links.next a)
    (hprev : ∀ a ∈ front ++ back, links'.prev a = links.prev a ∨
      front.head? = some a ∧ links'.prev a = some goal) :
    ∀ a ∈ front, ∀ b ∈ front ++ back, links'.prev b = some a ↔ links'.next a = some b := by
  obtain ⟨-, -, hcross⟩ := List.nodup_append.mp hring.nodup
  intro a ha b hb
  have hmem : b ∈ front ++ goal :: back := by
    rcases List.mem_append.mp hb with hb | hb
    · exact List.mem_append_left _ hb
    · exact List.mem_append_right _ (List.mem_cons_of_mem goal hb)
  rw [hnext a ha]
  constructor
  · intro hb'
    rcases hprev b hb with hsame | ⟨-, hturned⟩
    · obtain ⟨pred, -, hjoined⟩ := hring.exists_prev hmem
      obtain rfl : pred = a := Option.some.inj (hjoined.2.symm.trans (hsame.symm.trans hb'))
      exact hjoined.1
    · obtain rfl : goal = a := Option.some.inj (hturned.symm.trans hb')
      exact absurd rfl (hcross goal ha goal List.mem_cons_self)
  · intro hb'
    obtain ⟨succ, -, hjoined⟩ := hring.exists_next (List.mem_append_left _ ha)
    obtain rfl : succ = b := Option.some.inj (hjoined.1.symm.trans hb')
    rcases hprev succ hb with hsame | ⟨hhead, -⟩
    · exact hsame.trans hjoined.2
    -- the first node of the ring is followed backwards to a node outside `front`
    · obtain ⟨rest, rfl⟩ : ∃ rest, front = succ :: rest := by
        cases front with
        | nil => simp at hhead
        | cons head rest => exact ⟨rest, by rw [Option.some.inj hhead]⟩
      obtain ⟨last, hlast, hlast'⟩ := hring.exists_last_joined
      obtain rfl : last = a := Option.some.inj (hlast'.2.symm.trans hjoined.2)
      exact absurd rfl (hcross last ha last hlast)

/-- A ring is threaded towards each of its members, and stays so when the pointers of that
member are overwritten, along with those of its neighbours that point away from it. -/
theorem Ring.threaded (hnext : ∀ a ∈ front, links'.next a = links.next a)
    (hlinked : ∀ a ∈ back, ∃ succ, links'.next a = some succ)
    (hprev : ∀ a ∈ front ++ back, links'.prev a = links.prev a ∨
      front.head? = some a ∧ links'.prev a = some goal) :
    links'.Threaded goal front {a | a ∈ front ++ back} := by
  have hnodup := hring.nodup
  obtain ⟨hleft, hright, hcross⟩ := List.nodup_append.mp hnodup
  have hgoal : goal ∉ front := fun h => hcross goal h goal List.mem_cons_self rfl
  have hmem : ∀ a ∈ front ++ back, a ∈ front ++ goal :: back := by
    intro a ha
    rcases List.mem_append.mp ha with ha | ha
    · exact List.mem_append_left _ ha
    · exact List.mem_append_right _ (List.mem_cons_of_mem goal ha)
  refine { next := ?_, prev := ?_, back := hring.backTo_of_prev hprev, nodup := ?_,
           forward := ?_, subset := fun a ha => List.mem_append_left _ ha,
           inverse := hring.prev_eq_iff hnext hprev, goal_notMem := ?_ }
  · intro a ha
    rcases List.mem_append.mp ha with ha | ha
    · obtain ⟨succ, -, hjoined⟩ := hring.exists_next (List.mem_append_left _ ha)
      exact ⟨succ, (hnext a ha).trans hjoined.1⟩
    · exact hlinked a ha
  · intro a ha
    rcases hprev a ha with hsame | ⟨-, hturned⟩
    · obtain ⟨pred, hpred, hjoined⟩ := hring.exists_prev (hmem a ha)
      refine ⟨pred, hsame.trans hjoined.2, ?_⟩
      simp only [List.mem_append, List.mem_cons, Set.mem_ofPred_eq] at hpred ⊢
      tauto
    · exact ⟨goal, hturned, .inl rfl⟩
  · rw [List.append_cons] at hnodup
    exact (List.nodup_append.mp hnodup).1
  · have hclosed := hring.closed
    rw [List.append_cons, List.append_assoc] at hclosed
    refine isChain_next_congr (List.IsChain.left_of_append hclosed) fun a ha => ?_
    exact hnext a (by simpa using ha)
  · intro h
    rcases List.mem_append.mp h with h | h
    · exact hgoal h
    · exact (List.nodup_cons.mp hright).1 h

end Damage

/-! ## Unlinking a node on the way -/

namespace Threaded

variable {goal node : α} {front before after : List α} {members : Set α}

/-- A node on the way is followed by the next one, or by the goal. -/
theorem exists_next (hthread : links.Threaded goal (before ++ node :: after) members) :
    ∃ succ rest, after ++ [goal] = succ :: rest ∧ links.next node = some succ ∧ succ ≠ node := by
  obtain ⟨succ, rest, hsplit⟩ := List.exists_cons_of_ne_nil (List.concat_ne_nil goal after)
  have hforward := hthread.forward
  have hnodup := hthread.nodup
  rw [List.append_assoc, List.cons_append, hsplit] at hforward hnodup
  refine ⟨succ, rest, hsplit, (List.isChain_append_cons_cons.mp hforward).2.1, ?_⟩
  rintro rfl
  simp [List.nodup_append] at hnodup

variable [DecidableEq α] {pred succ : α}

/-- Unlinking a node on the way leaves the way back of all others. -/
theorem backTo_detach (hthread : links.Threaded goal front members) (hnode : node ∈ front)
    (hpred : links.prev node = some pred) (hsucc : links.next node = some succ)
    (hself : pred ≠ node) {other : α} (hback : links.BackTo goal other)
    (hother : other = goal ∨ other ∈ members) :
    (links.detach node pred succ).BackTo goal (if other = node then pred else other) := by
  have hgoal : goal ≠ node := fun h => hthread.goal_notMem (h ▸ hthread.subset node hnode)
  induction hback with
  | here =>
      rw [if_neg hgoal]
      exact .here
  | @step other before hbefore hrest ih =>
      by_cases hreached : other = goal
      · rw [hreached, if_neg hgoal]
        exact .here
      have hmem : other ∈ members := hother.resolve_left hreached
      have ih := ih (by
        obtain ⟨before', hbefore', hclosed⟩ := hthread.prev other hmem
        obtain rfl : before' = before := Option.some.inj (hbefore'.symm.trans hbefore)
        exact hclosed)
      have hfollows : links.prev other = some node ↔ succ = other := by
        rw [hthread.inverse node hnode other hmem, hsucc, Option.some_inj]
      by_cases hgone : other = node
      · subst hgone
        obtain rfl : before = pred := Option.some.inj (hbefore.symm.trans hpred)
        rw [if_neg hself] at ih
        rwa [if_pos rfl]
      rw [if_neg hgone]
      by_cases hnext : before = node
      · subst hnext
        obtain rfl := hfollows.mp hbefore
        rw [if_pos rfl] at ih
        refine .step ?_ ih
        simp [Links.detach, hgone]
      · rw [if_neg hnext] at ih
        have hne : other ≠ succ := fun h =>
          hnext (Option.some.inj (hbefore.symm.trans (hfollows.mpr h.symm)))
        refine .step ?_ ih
        simpa [Links.detach, hgone, hne] using hbefore

/-- Unlinking a node on the way leaves the others leading back to the goal. -/
theorem leadsTo_detach (hthread : links.Threaded goal front members) (hnode : node ∈ front)
    (hpred : links.prev node = some pred) (hsucc : links.next node = some succ) :
    (links.detach node pred succ).LeadsTo goal (members \ {node}) := by
  have hself : pred ≠ node := by
    rintro rfl
    have hloop := (hthread.inverse pred hnode pred (hthread.subset pred hnode)).mp hpred
    obtain ⟨before, after, rfl⟩ := List.append_of_mem hnode
    obtain ⟨succ', -, -, hsucc', hne⟩ := hthread.exists_next
    exact hne (Option.some.inj (hsucc'.symm.trans hloop))
  refine ⟨?_, ?_, ?_⟩
  · rintro a ⟨ha, hne⟩
    have hne : a ≠ node := hne
    obtain ⟨after, hafter⟩ := hthread.next a ha
    by_cases hbefore : a = pred
    · exact ⟨succ, by simp [Links.detach, hne, ← hbefore]⟩
    · exact ⟨after, by simpa [Links.detach, hne, hbefore] using hafter⟩
  · rintro a ⟨ha, hne⟩
    have hne : a ≠ node := hne
    obtain ⟨before, hbefore, hclosed⟩ := hthread.prev a ha
    by_cases hafter : a = succ
    · obtain ⟨before', hbefore', hclosed'⟩ := hthread.prev node (hthread.subset node hnode)
      obtain rfl : before' = pred := Option.some.inj (hbefore'.symm.trans hpred)
      refine ⟨before', by simp [Links.detach, hne, ← hafter], ?_⟩
      exact hclosed'.imp_right fun h => ⟨h, hself⟩
    · refine ⟨before, by simpa [Links.detach, hne, hafter] using hbefore, ?_⟩
      refine hclosed.imp_right fun h => ⟨h, ?_⟩
      rintro rfl
      have hnext := (hthread.inverse before hnode a ha).mp hbefore
      exact hafter (Option.some.inj (hnext.symm.trans hsucc))
  · rintro a ⟨ha, hne⟩
    have hne : a ≠ node := hne
    have hback := hthread.backTo_detach hnode hpred hsucc hself (hthread.back a ha) (.inr ha)
    rwa [if_neg hne] at hback

end Threaded

end Cyancore.Math.Links
