/-
# Tilings of an interval by headed blocks

An allocator without a separate table keeps its blocks side by side: each block
is a header followed by a payload, and the next header starts where the payload
ends.  A list of block sizes together with the address of the first header then
says everything about the layout.  This module is the algebra of such lists:
where the blocks lie, what splitting and coalescing do to them, and why two
coalescing passes are enough after a single block is released.
-/

import Mathlib.Algebra.BigOperators.Group.List.Basic
import Mathlib.Algebra.GroupWithZero.Nat
import Mathlib.Data.List.Chain

namespace Cyancore.Math

/-- One block of a tiling: the size of its payload and whether it is available. -/
structure Block where
  size : ℕ
  free : Bool
  deriving DecidableEq, Repr

namespace Tiling

variable (header : ℕ)

/-- The bytes taken by the blocks, headers included. -/
def span (blocks : List Block) : ℕ :=
  (blocks.map fun block => header + block.size).sum

/-- The blocks with the addresses of their headers, the first one at `base`. -/
def layout (base : ℕ) : List Block → List (ℕ × Block)
  | [] => []
  | block :: rest => (base, block) :: layout (base + (header + block.size)) rest

/-- The blocks that are handed out, with the addresses of their headers. -/
def used (base : ℕ) (blocks : List Block) : List (ℕ × Block) :=
  (layout header base blocks).filter fun entry => !entry.2.free

/-- One pass over the blocks from the front: an available block swallows an
available successor, and the pass then goes on *behind* the swallowed block. -/
def coalesce : List Block → List Block
  | [] => []
  | [block] => [block]
  | block :: succ :: rest =>
      if block.free ∧ succ.free then
        ⟨block.size + (succ.size + header), true⟩ :: coalesce rest
      else
        block :: coalesce (succ :: rest)

/-- No two neighbouring blocks are both available. -/
def NoAdjacentFree (blocks : List Block) : Prop :=
  blocks.IsChain fun block succ => ¬ (block.free = true ∧ succ.free = true)

variable {header}

/-! ## Spans and layouts -/

@[simp]
theorem span_nil : span header [] = 0 := rfl

@[simp]
theorem span_cons (block : Block) (rest : List Block) :
    span header (block :: rest) = header + block.size + span header rest := by
  simp [span]

@[simp]
theorem span_append (front back : List Block) :
    span header (front ++ back) = span header front + span header back := by
  simp [span]

theorem layout_append (base : ℕ) (front back : List Block) :
    layout header base (front ++ back) =
      layout header base front ++ layout header (base + span header front) back := by
  induction front generalizing base with
  | nil => simp [layout]
  | cons block rest ih =>
      simp only [List.cons_append, layout, ih, span_cons]
      rw [show base + (header + block.size) + span header rest =
        base + (header + block.size + span header rest) by omega]

/-- Every block lies inside the spanned interval. -/
theorem layout_bounds {base : ℕ} {blocks : List Block} {entry : ℕ × Block}
    (hentry : entry ∈ layout header base blocks) :
    base ≤ entry.1 ∧ entry.1 + (header + entry.2.size) ≤ base + span header blocks := by
  induction blocks generalizing base with
  | nil => simp [layout] at hentry
  | cons block rest ih =>
      rw [span_cons]
      rcases List.mem_cons.mp hentry with rfl | hentry
      · dsimp only
        omega
      · have hrest := ih hentry
        omega

/-- Blocks follow one another without overlap. -/
theorem pairwise_layout (base : ℕ) (blocks : List Block) :
    (layout header base blocks).Pairwise fun first second =>
      first.1 + (header + first.2.size) ≤ second.1 := by
  induction blocks generalizing base with
  | nil => exact List.Pairwise.nil
  | cons block rest ih =>
      refine List.pairwise_cons.mpr ⟨fun entry hentry => ?_, ih _⟩
      exact (layout_bounds hentry).1

/-- Of two blocks one lies behind the other, unless they are the same. -/
theorem layout_trichotomy {base : ℕ} {blocks : List Block} {first second : ℕ × Block}
    (hfirst : first ∈ layout header base blocks) (hsecond : second ∈ layout header base blocks) :
    first = second ∨ first.1 + (header + first.2.size) ≤ second.1 ∨
      second.1 + (header + second.2.size) ≤ first.1 := by
  induction blocks generalizing base with
  | nil => simp [layout] at hfirst
  | cons block rest ih =>
      rcases List.mem_cons.mp hfirst with rfl | hfirst
      · rcases List.mem_cons.mp hsecond with rfl | hsecond
        · exact .inl rfl
        · exact .inr (.inl (layout_bounds hsecond).1)
      · rcases List.mem_cons.mp hsecond with rfl | hsecond
        · exact .inr (.inr (layout_bounds hfirst).1)
        · exact ih hfirst hsecond

/-- A header starts at or before another block's header, or behind that block. -/
theorem layout_disjoint {base : ℕ} {blocks : List Block} {first second : ℕ × Block}
    (hfirst : first ∈ layout header base blocks) (hsecond : second ∈ layout header base blocks) :
    second.1 ≤ first.1 ∨ first.1 + (header + first.2.size) ≤ second.1 := by
  rcases layout_trichotomy hfirst hsecond with rfl | hbefore | hbehind
  · exact .inl le_rfl
  · exact .inr hbefore
  · exact .inl (by omega)

/-- Blocks at different addresses have nothing in common. -/
theorem layout_apart {base : ℕ} {blocks : List Block} {first second : ℕ × Block}
    (hfirst : first ∈ layout header base blocks) (hsecond : second ∈ layout header base blocks)
    (hne : first.1 ≠ second.1) :
    first.1 + (header + first.2.size) ≤ second.1 ∨
      second.1 + (header + second.2.size) ≤ first.1 := by
  rcases layout_trichotomy hfirst hsecond with hsame | hapart
  · exact absurd (congrArg Prod.fst hsame) hne
  · exact hapart

/-- An address heads one block only. -/
theorem eq_of_mem_layout {base : ℕ} {blocks : List Block} {first second : ℕ × Block}
    (hheader : 0 < header) (hfirst : first ∈ layout header base blocks)
    (hsecond : second ∈ layout header base blocks) (haddr : first.1 = second.1) :
    first = second := by
  rcases layout_trichotomy hfirst hsecond with hsame | hbefore | hbehind
  · exact hsame
  · omega
  · omega

/-- Header addresses depend on the sizes alone. -/
theorem map_fst_layout_congr {base : ℕ} {blocks : List Block} (blocks' : List Block)
    (hsizes : blocks.map Block.size = blocks'.map Block.size) :
    (layout header base blocks).map Prod.fst = (layout header base blocks').map Prod.fst := by
  induction blocks generalizing base blocks' with
  | nil =>
      obtain rfl : blocks' = [] := by simpa using hsizes.symm
      rfl
  | cons block rest ih =>
      cases blocks' with
      | nil => simp at hsizes
      | cons block' rest' =>
          simp only [List.map_cons, List.cons.injEq] at hsizes
          simp only [layout, List.map_cons, hsizes.1, ih rest' hsizes.2]

/-- Blocks of the same sizes lie at the same addresses. -/
theorem exists_mem_layout_of_sizes {base : ℕ} {blocks : List Block} (blocks' : List Block)
    (hsizes : blocks.map Block.size = blocks'.map Block.size) {entry : ℕ × Block}
    (hentry : entry ∈ layout header base blocks) :
    ∃ entry' ∈ layout header base blocks', entry'.1 = entry.1 ∧
      entry'.2.size = entry.2.size := by
  induction blocks generalizing base blocks' with
  | nil => simp [layout] at hentry
  | cons block rest ih =>
      cases blocks' with
      | nil => simp at hsizes
      | cons block' rest' =>
          simp only [List.map_cons, List.cons.injEq] at hsizes
          rcases List.mem_cons.mp hentry with rfl | hentry
          · exact ⟨(base, block'), List.mem_cons_self, rfl, hsizes.1.symm⟩
          · obtain ⟨entry', hmem, haddr⟩ := ih rest' hsizes.2 hentry
            rw [hsizes.1] at hmem
            exact ⟨entry', List.mem_cons_of_mem _ hmem, haddr⟩

/-- Exchanging a block for one of its size leaves the others. -/
theorem mem_layout_of_ne {base : ℕ} {front back : List Block} {block block' : Block}
    {entry : ℕ × Block} (hsize : block'.size = block.size)
    (hentry : entry ∈ layout header base (front ++ block :: back))
    (hne : entry.1 ≠ base + span header front) :
    entry ∈ layout header base (front ++ block' :: back) := by
  rw [layout_append, List.mem_append, layout, List.mem_cons] at hentry ⊢
  rw [hsize]
  rcases hentry with hfront | rfl | hback
  · exact .inl hfront
  · exact absurd rfl hne
  · exact .inr (.inr hback)

theorem used_append (base : ℕ) (front back : List Block) :
    used header base (front ++ back) =
      used header base front ++ used header (base + span header front) back := by
  simp [used, layout_append]

theorem used_cons_free {base : ℕ} {block : Block} {rest : List Block}
    (hfree : block.free = true) :
    used header base (block :: rest) = used header (base + (header + block.size)) rest := by
  simp [used, layout, hfree]

theorem used_cons_inUse {base : ℕ} {block : Block} {rest : List Block}
    (hused : block.free = false) :
    used header base (block :: rest) =
      (base, block) :: used header (base + (header + block.size)) rest := by
  simp [used, layout, hused]

theorem pairwise_used (base : ℕ) (blocks : List Block) :
    (used header base blocks).Pairwise fun first second =>
      first.1 + (header + first.2.size) ≤ second.1 :=
  (pairwise_layout base blocks).filter _

/-- The available blocks and the others take up everything between them. -/
theorem span_filter_add_span_filter (blocks : List Block) :
    span header (blocks.filter fun block => !block.free) +
      span header (blocks.filter fun block => block.free) = span header blocks := by
  induction blocks with
  | nil => rfl
  | cons block rest ih =>
      cases hfree : block.free with
      | true =>
          simp only [List.filter_cons, hfree, Bool.not_true, Bool.false_eq_true, if_false, if_true,
            span_cons]
          omega
      | false =>
          simp only [List.filter_cons, hfree, Bool.not_false, Bool.false_eq_true, if_false, if_true,
            span_cons]
          omega

/-- A block is found in the layout at the address its predecessors leave it. -/
theorem mem_layout_iff {base addr : ℕ} {block : Block} {blocks : List Block} :
    (addr, block) ∈ layout header base blocks ↔
      ∃ front back, blocks = front ++ block :: back ∧ addr = base + span header front := by
  induction blocks generalizing base with
  | nil => simp [layout]
  | cons first rest ih =>
      simp only [layout, List.mem_cons, Prod.mk.injEq, ih]
      constructor
      · rintro (⟨rfl, rfl⟩ | ⟨front, back, rfl, rfl⟩)
        · exact ⟨[], rest, rfl, by simp⟩
        · exact ⟨first :: front, back, rfl, by rw [span_cons]; omega⟩
      · rintro ⟨front, back, hsplit, haddr⟩
        cases front with
        | nil =>
            obtain ⟨rfl, rfl⟩ := List.cons.inj hsplit
            exact .inl ⟨by simpa using haddr, rfl⟩
        | cons other front =>
            obtain ⟨rfl, rfl⟩ := List.cons.inj hsplit
            exact .inr ⟨front, back, rfl, by rw [haddr, span_cons]; omega⟩

theorem mem_used_iff {base addr : ℕ} {block : Block} {blocks : List Block} :
    (addr, block) ∈ used header base blocks ↔
      block.free = false ∧
        ∃ front back, blocks = front ++ block :: back ∧ addr = base + span header front := by
  simp [used, mem_layout_iff, and_comm]

/-! ## Coalescing -/

theorem coalesce_cons_of_free {block succ : Block} {rest : List Block}
    (hblock : block.free = true) (hsucc : succ.free = true) :
    coalesce header (block :: succ :: rest) =
      ⟨block.size + (succ.size + header), true⟩ :: coalesce header rest := by
  rw [coalesce, if_pos ⟨hblock, hsucc⟩]

theorem coalesce_cons_of_not_free {block succ : Block} {rest : List Block}
    (hpair : ¬ (block.free = true ∧ succ.free = true)) :
    coalesce header (block :: succ :: rest) = block :: coalesce header (succ :: rest) := by
  rw [coalesce, if_neg hpair]

@[simp]
theorem span_coalesce (blocks : List Block) :
    span header (coalesce header blocks) = span header blocks := by
  induction blocks using coalesce.induct with
  | case1 => rfl
  | case2 block => rfl
  | case3 block succ rest hpair ih =>
      rw [coalesce_cons_of_free hpair.1 hpair.2]
      simp only [span_cons, ih]
      omega
  | case4 block succ rest hpair ih =>
      rw [coalesce_cons_of_not_free hpair, span_cons, span_cons, ih]

theorem coalesce_eq_nil_iff {blocks : List Block} :
    coalesce header blocks = [] ↔ blocks = [] := by
  induction blocks using coalesce.induct with
  | case1 => simp [coalesce]
  | case2 block => simp [coalesce]
  | case3 block succ rest hpair _ => simp [coalesce_cons_of_free hpair.1 hpair.2]
  | case4 block succ rest hpair _ => simp [coalesce_cons_of_not_free hpair]

/-- Coalescing only ever joins available blocks: those handed out stay where they are. -/
@[simp]
theorem used_coalesce (base : ℕ) (blocks : List Block) :
    used header base (coalesce header blocks) = used header base blocks := by
  induction blocks using coalesce.induct generalizing base with
  | case1 => rfl
  | case2 block => rfl
  | case3 block succ rest hpair ih =>
      rw [coalesce_cons_of_free hpair.1 hpair.2, used_cons_free (by rfl), ih,
        used_cons_free hpair.1, used_cons_free hpair.2]
      congr 1
      dsimp only
      omega
  | case4 block succ rest hpair ih =>
      rw [coalesce_cons_of_not_free hpair]
      cases hfree : block.free with
      | true => rw [used_cons_free hfree, used_cons_free hfree, ih]
      | false => rw [used_cons_inUse hfree, used_cons_inUse hfree, ih]

/-- Coalescing removes header addresses and adds none. -/
theorem map_fst_layout_coalesce_subset (base : ℕ) (blocks : List Block) :
    (layout header base (coalesce header blocks)).map Prod.fst ⊆
      (layout header base blocks).map Prod.fst := by
  induction blocks using coalesce.induct generalizing base with
  | case1 => exact List.Subset.refl _
  | case2 block => exact List.Subset.refl _
  | case3 block succ rest hpair ih =>
      rw [coalesce_cons_of_free hpair.1 hpair.2]
      simp only [layout, List.map_cons]
      have haddr : base + (header + (block.size + (succ.size + header))) =
          base + (header + block.size) + (header + succ.size) := by omega
      rw [haddr]
      exact List.cons_subset_cons _ (List.subset_cons_of_subset _ (ih _))
  | case4 block succ rest hpair ih =>
      rw [coalesce_cons_of_not_free hpair]
      exact List.cons_subset_cons _ (ih _)

/-- A pass treats what is before and what is behind a block in use separately. -/
theorem coalesce_append_inUse (front rest : List Block) {block : Block}
    (hused : block.free = false) :
    coalesce header (front ++ block :: rest) =
      coalesce header front ++ block :: coalesce header rest := by
  have hpass : coalesce header (block :: rest) = block :: coalesce header rest := by
    cases rest with
    | nil => rfl
    | cons succ rest => exact coalesce_cons_of_not_free (by simp [hused])
  induction front using coalesce.induct with
  | case1 => exact hpass
  | case2 other =>
      have hpair : ¬ (other.free = true ∧ block.free = true) := by simp [hused]
      exact (coalesce_cons_of_not_free hpair).trans (congrArg _ hpass)
  | case3 other succ front hpair ih =>
      simp only [List.cons_append] at ih ⊢
      rw [coalesce_cons_of_free hpair.1 hpair.2, coalesce_cons_of_free hpair.1 hpair.2, ih]
      rfl
  | case4 other succ front hpair ih =>
      simp only [List.cons_append] at ih ⊢
      rw [coalesce_cons_of_not_free hpair, coalesce_cons_of_not_free hpair, ih]
      rfl

/-- A pass runs unchanged through blocks without available neighbours. -/
theorem coalesce_append {front : List Block} {block : Block} {rest : List Block}
    (hfront : NoAdjacentFree (front ++ [block])) :
    coalesce header (front ++ block :: rest) = front ++ coalesce header (block :: rest) := by
  induction front with
  | nil => rfl
  | cons first front ih =>
      cases front with
      | nil =>
          have hpair := List.isChain_pair.mp hfront
          exact coalesce_cons_of_not_free hpair
      | cons second front =>
          obtain ⟨hpair, hfront⟩ := List.isChain_cons_cons.mp hfront
          simp only [List.cons_append] at ih ⊢
          rw [coalesce_cons_of_not_free hpair, ih hfront]

theorem coalesce_of_noAdjacentFree {blocks : List Block} (hblocks : NoAdjacentFree blocks) :
    coalesce header blocks = blocks := by
  rcases List.eq_nil_or_concat blocks with rfl | ⟨front, last, rfl⟩
  · rfl
  · rw [List.concat_eq_append] at hblocks ⊢
    exact coalesce_append hblocks

/-- A pass over what was cut off one available block puts it together again. -/
theorem coalesce_rejoin {front back : List Block} {block : Block} {size rest : ℕ}
    (hblocks : NoAdjacentFree (front ++ block :: back)) (hfree : block.free = true)
    (hsum : size + (rest + header) = block.size) :
    coalesce header (front ++ ⟨size, true⟩ :: ⟨rest, true⟩ :: back) = front ++ block :: back := by
  obtain ⟨hfront, hback⟩ := List.isChain_split.mp hblocks
  have hleft : NoAdjacentFree (front ++ [⟨size, true⟩]) := by
    refine List.isChain_append.mpr ⟨hfront.left_of_append, .singleton _, ?_⟩
    intro last hlast other hother
    have hpair := (List.isChain_append.mp hfront).2.2 last hlast block rfl
    cases hother
    simpa [hfree] using hpair
  have hwhole : (⟨block.size, true⟩ : Block) = block := by rw [← hfree]
  have hback' : NoAdjacentFree back := hback.tail
  rw [coalesce_append hleft, coalesce_cons_of_free rfl rfl, hsum, hwhole,
    coalesce_of_noAdjacentFree hback']

/-- A pass over a list with one freshly available block joins that block to an available
neighbour on its right. -/
theorem noAdjacentFree_coalesce_append {front back : List Block} {size : ℕ}
    (hleft : NoAdjacentFree (front ++ [⟨size, true⟩])) (hback : NoAdjacentFree back) :
    NoAdjacentFree (coalesce header (front ++ ⟨size, true⟩ :: back)) := by
  rw [coalesce_append hleft]
  cases back with
  | nil => exact hleft
  | cons succ back =>
      cases hsucc : succ.free with
      | true =>
          have hrest : NoAdjacentFree back := hback.tail
          rw [coalesce_cons_of_free rfl hsucc, coalesce_of_noAdjacentFree hrest]
          refine List.isChain_split.mpr ⟨?_, List.isChain_cons.mpr ⟨?_, hrest⟩⟩
          · refine List.isChain_append.mpr ⟨hleft.left_of_append, .singleton _, ?_⟩
            intro last hlast other hother
            have hpair := (List.isChain_append.mp hleft).2.2 last hlast ⟨size, true⟩ rfl
            cases hother
            simpa using hpair
          · intro third hthird
            have hpair := (List.isChain_cons.mp hback).1 third hthird
            simpa [hsucc] using hpair
      | false =>
          rw [coalesce_cons_of_not_free (by simp [hsucc]), coalesce_of_noAdjacentFree hback]
          refine List.isChain_split.mpr ⟨hleft, List.isChain_cons.mpr ⟨?_, hback⟩⟩
          intro other hother
          cases hother
          simp [hsucc]

/-- What one released block becomes after two passes: it joins the available
neighbours it has, on either side, and nothing else changes. -/
theorem noAdjacentFree_release {front back : List Block} {block : Block}
    (hblocks : NoAdjacentFree (front ++ block :: back)) :
    NoAdjacentFree
      (coalesce header (coalesce header (front ++ ⟨block.size, true⟩ :: back))) := by
  obtain ⟨hfront, hback⟩ := List.isChain_split.mp hblocks
  have hback' : NoAdjacentFree back := hback.tail
  rcases List.eq_nil_or_concat front with rfl | ⟨front', last, rfl⟩
  · have hfirst : NoAdjacentFree (coalesce header ([] ++ ⟨block.size, true⟩ :: back)) :=
      noAdjacentFree_coalesce_append (.singleton _) hback'
    rwa [coalesce_of_noAdjacentFree hfirst]
  · rw [List.concat_eq_append] at hfront ⊢
    cases hlast : last.free with
    | true =>
        have hpass : coalesce header ((front' ++ [last]) ++ ⟨block.size, true⟩ :: back) =
            front' ++ ⟨last.size + (block.size + header), true⟩ :: back := by
          rw [List.append_assoc, List.singleton_append,
            coalesce_append hfront.left_of_append, coalesce_cons_of_free hlast rfl,
            coalesce_of_noAdjacentFree hback']
        rw [hpass]
        apply noAdjacentFree_coalesce_append _ hback'
        refine List.isChain_append.mpr
          ⟨hfront.left_of_append.left_of_append, .singleton _, ?_⟩
        intro first hfirst other hother
        have hpair := (List.isChain_append.mp hfront.left_of_append).2.2 first hfirst last rfl
        cases hother
        simpa [hlast] using hpair
    | false =>
        have hleft : NoAdjacentFree ((front' ++ [last]) ++ [⟨block.size, true⟩]) := by
          refine List.isChain_append.mpr ⟨hfront.left_of_append, .singleton _, ?_⟩
          intro first hfirst other hother
          simp only [List.getLast?_append, List.getLast?_singleton, Option.some_or,
            Option.mem_some_iff] at hfirst
          simp [← hfirst, hlast]
        have hfirst := @noAdjacentFree_coalesce_append header _ _ _ hleft hback'
        rwa [coalesce_of_noAdjacentFree hfirst]

end Tiling

end Cyancore.Math
