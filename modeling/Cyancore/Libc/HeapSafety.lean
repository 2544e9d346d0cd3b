/-
# Runs of `malloc` and `free`

A client calls `malloc` and `free` in any order, starting from
`platform_init_heap`.  The run records the heap, the blocks that were returned
and not yet freed, and every pointer ever returned.

Two invariants are carried through such runs.  The representation invariant
(the chain tiles the heap, no two neighbours are free, returned pointers are
aligned) survives every call.  Exclusive ownership of the payloads does not: the
search loop stops on the last chunk of the chain even when that chunk is in use,
and `malloc` then hands it out a second time.  The guard `KeepsLastChunk` is the
negation of exactly that situation.
-/

import Cyancore.Libc.HeapChain
import Cyancore.Math.Transition

namespace Cyancore.Libc

open Cyancore.Math Cyancore.Math.Tiling

/-- A call of the client. -/
inductive HeapOp
  | malloc (nBytes : ℕ)
  | free (ptr : ℕ)

/-- The heap together with what the client has been given. -/
structure HeapRun where
  heap : Heap
  /-- Pointers returned by `malloc` and not freed since. -/
  live : List ℕ
  /-- Every non-null pointer `malloc` has returned. -/
  returned : List ℕ

/-- One completed call. -/
inductive HeapStep (c : HeapConfig) : HeapOp → HeapRun → HeapRun → Prop
  | /-- `malloc` returned `ptr`; a null pointer gives the client nothing. -/
    malloc {run : HeapRun} {nBytes ptr : ℕ} {heap' : Heap}
      (hreturns : Returns (fun fuel => malloc c fuel nBytes run.heap) (ptr, heap')) :
      HeapStep c (.malloc nBytes) run
        ⟨heap', if ptr = 0 then run.live else ptr :: run.live,
          if ptr = 0 then run.returned else ptr :: run.returned⟩
  | /-- `free` returned. -/
    free {run : HeapRun} {ptr : ℕ} {heap' : Heap}
      (hreturns : Returns (fun fuel => free c fuel ptr run.heap) heap') :
      HeapStep c (.free ptr) run ⟨heap', run.live.erase ptr, run.returned⟩

/-- The heap as a transition system, whatever memory held before initialisation. -/
def heapSystem (c : HeapConfig) : TransitionSystem HeapRun HeapOp where
  init run := ∃ mem, run = ⟨platformInitHeap c mem, [], []⟩
  step := HeapStep c

/-- The chunks met by following `next` from `cur` down to the null pointer. -/
def ChunkChain (c : HeapConfig) (mem : Memory) : ℕ → List ℕ → Prop
  | cur, [] => cur = 0
  | cur, chunk :: rest => cur = chunk ∧ chunk ≠ 0 ∧ ChunkChain c mem (chunkNext c mem chunk) rest

theorem ChunkChain.unique {c : HeapConfig} {mem : Memory} {cur : ℕ} {first second : List ℕ}
    (hfirst : ChunkChain c mem cur first) (hsecond : ChunkChain c mem cur second) :
    first = second := by
  induction first generalizing cur second with
  | nil =>
      cases second with
      | nil => rfl
      | cons chunk rest => exact absurd (hsecond.1.symm.trans hfirst) hsecond.2.1
  | cons chunk rest ih =>
      cases second with
      | nil => exact absurd (hfirst.1.symm.trans hsecond) hfirst.2.1
      | cons chunk' rest' =>
          obtain rfl : chunk = chunk' := hfirst.1.symm.trans hsecond.1
          rw [ih hfirst.2.2 hsecond.2.2]

theorem Seg.chunkChain {c : HeapConfig} {mem : Memory} {a : ℕ} {blocks : List Block}
    (hseg : Seg c mem a blocks 0) (hpos : 0 < a) :
    ChunkChain c mem (entry a blocks) ((layout c.sizeofChunk a blocks).map Prod.fst) := by
  induction blocks generalizing a with
  | nil => rfl
  | cons block rest ih =>
      refine ⟨entry_cons a block rest, hpos.ne', ?_⟩
      rw [hseg.1.next_eq]
      exact ih hseg.2 (by omega)

theorem Tiled.chunkChain {c : HeapConfig} {heap : Heap} {blocks : List Block}
    (htiled : Tiled c heap blocks) :
    ChunkChain c heap.mem heap.freeList
      ((layout c.sizeofChunk c.heapStart blocks).map Prod.fst) := by
  have hchain := htiled.seg.chunkChain c.heapStart_pos
  rw [htiled.freeList_eq]
  rwa [entry, if_neg htiled.ne_nil] at hchain

/-- The size of the chunk whose payload starts at `ptr`. -/
def payloadSize (c : HeapConfig) (heap : Heap) (ptr : ℕ) : ℕ :=
  chunkSize c heap.mem (getHeader c ptr)

section

variable {c : HeapConfig} {heap heap' : Heap} {blocks front back : List Block} {block : Block}
  {run run' : HeapRun}

theorem getHeader_add {chunk : ℕ} (hlt : chunk + c.sizeofChunk < c.sizeMod) :
    getHeader c (chunk + c.sizeofChunk) = chunk := by
  rw [getHeader, sizeSub_of_le (by omega) hlt]
  omega

/-- The layout entries of a tiled heap are the headers in memory. -/
theorem Tiled.header_of_mem_layout (htiled : Tiled c heap blocks) {chunk : ℕ}
    (hmem : (chunk, block) ∈ layout c.sizeofChunk c.heapStart blocks) :
    ∃ next, Header c heap.mem chunk block next := by
  obtain ⟨front, back, rfl, rfl⟩ := mem_layout_iff.mp hmem
  exact ⟨_, htiled.header⟩

/-- A chunk of the chain comes from a block of the tiling. -/
theorem Tiled.exists_split_of_mem_chain (htiled : Tiled c heap blocks) {chain : List ℕ}
    (hchain : ChunkChain c heap.mem heap.freeList chain) {chunk : ℕ} (hmem : chunk ∈ chain) :
    ∃ front block back, blocks = front ++ block :: back ∧
      chunk = c.heapStart + span c.sizeofChunk front := by
  rw [hchain.unique htiled.chunkChain] at hmem
  obtain ⟨⟨addr, block⟩, hentry, rfl⟩ := List.mem_map.mp hmem
  obtain ⟨front, back, hsplit, haddr⟩ := mem_layout_iff.mp hentry
  exact ⟨front, block, back, hsplit, haddr⟩

/-! ## The representation invariant -/

/-- The chain from `freeList` fills the heap, in order and without gaps, never has
two free neighbours, and with `HEAP_ALIGN > 1` every returned pointer is aligned. -/
structure HeapWellFormed (c : HeapConfig) (run : HeapRun) : Prop where
  tiles : ∃ chain, ChunkChain c run.heap.mem run.heap.freeList chain ∧
    chain.head? = some c.heapStart ∧
    chain.IsChain (fun chunk succ =>
      chunk + c.sizeofChunk + chunkSize c run.heap.mem chunk = succ) ∧
    (∀ last ∈ chain.getLast?,
      last + c.sizeofChunk + chunkSize c run.heap.mem last = c.heapEnd) ∧
    chain.IsChain (fun chunk succ =>
      ¬ (chunkFree c run.heap.mem chunk ≠ 0 ∧ chunkFree c run.heap.mem succ ≠ 0))
  aligned : 1 < c.heapAlign → c.alignBound ∣ c.heapStart →
    ∀ ptr ∈ run.returned, c.alignBound ∣ ptr

/-- The caller's discipline of the representation invariant: `free` is applied only
to a pointer whose header is an in-use chunk of the chain. -/
def FreesInUse (c : HeapConfig) : HeapOp → HeapRun → Prop
  | .malloc _, _ => True
  | .free ptr, run =>
      ∃ chain, ChunkChain c run.heap.mem run.heap.freeList chain ∧
        getHeader c ptr ∈ chain ∧ chunkFree c run.heap.mem (getHeader c ptr) = 0

/-- The invariant on block lists that carries `HeapWellFormed`. -/
structure ListInv (c : HeapConfig) (run : HeapRun) (blocks : List Block) : Prop where
  tiled : Tiled c run.heap blocks
  noAdjacentFree : NoAdjacentFree blocks
  chunks_aligned : 1 < c.heapAlign → c.alignBound ∣ c.heapStart →
    ∀ chunk ∈ (layout c.sizeofChunk c.heapStart blocks).map Prod.fst, c.alignBound ∣ chunk
  returned_aligned : 1 < c.heapAlign → c.alignBound ∣ c.heapStart →
    ∀ ptr ∈ run.returned, c.alignBound ∣ ptr

theorem alignBound_dvd_sizeofChunk (halign : 1 < c.heapAlign) : c.alignBound ∣ c.sizeofChunk := by
  have hword := c.alignBound_dvd_word halign
  have hsize : c.sizeofChunk = c.word + c.word + 0 + c.word := by
    rw [HeapConfig.sizeofChunk, HeapConfig.nextOffset, HeapConfig.freeBytes, if_pos halign,
      c.pad_eq_zero halign]
  rw [hsize, add_zero]
  exact Nat.dvd_add (Nat.dvd_add hword hword) hword

theorem alignBound_dvd_requestSize (halign : 1 < c.heapAlign) (nBytes : ℕ) :
    c.alignBound ∣ requestSize c nBytes := by
  have hmod : c.alignBound ∣ c.sizeMod := c.alignBound_dvd_size halign
  rw [requestSize, if_pos halign, roundupAlign, sizeAdd, Nat.dvd_mod_iff hmod]
  have hlt := Nat.mod_lt nBytes c.alignBound_pos
  have hsum : nBytes + (c.alignBound - nBytes % c.alignBound) =
      c.alignBound * (nBytes / c.alignBound) + c.alignBound := by
    have hdiv := Nat.div_add_mod nBytes c.alignBound
    omega
  rw [hsum]
  exact Nat.dvd_add (Dvd.intro _ rfl) dvd_rfl

/-- Consecutive chunks of a layout are linked by address arithmetic, and their
flags are those of the blocks. -/
theorem Tiled.isChain_layout (htiled : Tiled c heap blocks) (hfree : NoAdjacentFree blocks) :
    ((layout c.sizeofChunk c.heapStart blocks).map Prod.fst).IsChain (fun chunk succ =>
        chunk + c.sizeofChunk + chunkSize c heap.mem chunk = succ) ∧
      (∀ last ∈ ((layout c.sizeofChunk c.heapStart blocks).map Prod.fst).getLast?,
        last + c.sizeofChunk + chunkSize c heap.mem last = c.heapEnd) ∧
      ((layout c.sizeofChunk c.heapStart blocks).map Prod.fst).IsChain (fun chunk succ =>
        ¬ (chunkFree c heap.mem chunk ≠ 0 ∧ chunkFree c heap.mem succ ≠ 0)) := by
  have hspan := htiled.span_eq
  have hseg := htiled.seg
  clear htiled
  generalize c.heapStart = a at hspan hseg
  induction blocks generalizing a with
  | nil => exact ⟨.nil, by simp [layout], .nil⟩
  | cons block rest ih =>
      obtain ⟨hheader, hrest⟩ := hseg
      have hsize := hheader.size_eq
      rw [span_cons] at hspan
      cases rest with
      | nil =>
          refine ⟨.singleton _, ?_, .singleton _⟩
          intro last hlast
          simp only [layout, List.map_cons, List.map_nil, List.getLast?_singleton,
            Option.mem_some_iff] at hlast
          subst hlast
          rw [span_nil] at hspan
          omega
      | cons succ rest =>
          obtain ⟨hpair, hfree'⟩ := List.isChain_cons_cons.mp hfree
          obtain ⟨haddr, hend, hflags⟩ :=
            ih hfree' (a + (c.sizeofChunk + block.size)) (by omega) hrest
          simp only [layout, List.map_cons] at haddr hend hflags ⊢
          refine ⟨List.isChain_cons_cons.mpr ⟨by omega, haddr⟩, ?_,
            List.isChain_cons_cons.mpr ⟨?_, hflags⟩⟩
          · simpa using hend
          · rwa [hheader.free_ne_zero_iff, hrest.1.free_ne_zero_iff]

theorem ListInv.heapWellFormed (hinv : ListInv c run blocks) : HeapWellFormed c run := by
  obtain ⟨haddr, hend, hflags⟩ := hinv.tiled.isChain_layout hinv.noAdjacentFree
  refine ⟨⟨_, hinv.tiled.chunkChain, ?_, haddr, hend, hflags⟩, hinv.returned_aligned⟩
  obtain ⟨block, rest, rfl⟩ := List.exists_cons_of_ne_nil hinv.tiled.ne_nil
  rfl

theorem ListInv.init (mem : Memory) (hroom : c.sizeofChunk ≤ c.heapEnd - c.heapStart) :
    ListInv c ⟨platformInitHeap c mem, [], []⟩
      [⟨c.heapEnd - c.heapStart - c.sizeofChunk, true⟩] := by
  refine ⟨tiled_platformInitHeap mem hroom, .singleton _, fun _ hstart chunk hchunk => ?_,
    by simp⟩
  simp only [layout, List.map_cons, List.map_nil, List.mem_singleton] at hchunk
  rwa [hchunk]

/-- Handing out a chunk, whole or cut, leaves no two free neighbours. -/
theorem noAdjacentFree_handOut {size : ℕ} {tail : List Block}
    (hblocks : NoAdjacentFree (front ++ block :: back)) (hstop : block.free = true ∨ back = [])
    (htail : tail = back ∨ ∃ rest, tail = ⟨rest, true⟩ :: back) :
    NoAdjacentFree (front ++ ⟨size, false⟩ :: tail) := by
  obtain ⟨hfront, hback⟩ := List.isChain_split.mp hblocks
  have hback' : NoAdjacentFree back := hback.tail
  refine List.isChain_split.mpr ⟨?_, ?_⟩
  · refine List.isChain_append.mpr ⟨hfront.left_of_append, .singleton _, ?_⟩
    intro last _ other hother
    cases hother
    simp
  · rcases htail with rfl | ⟨rest, rfl⟩
    · exact List.isChain_cons.mpr ⟨by simp, hback'⟩
    · refine List.isChain_cons_cons.mpr ⟨by simp, List.isChain_cons.mpr ⟨?_, hback'⟩⟩
      intro succ hsucc
      rcases hstop with hfree | rfl
      · have hpair := (List.isChain_cons.mp hback).1 succ hsucc
        simpa [hfree] using hpair
      · simp at hsucc

theorem ListInv.malloc {nBytes ptr : ℕ} (hinv : ListInv c run blocks)
    (hreturns : Returns (fun fuel => malloc c fuel nBytes run.heap) (ptr, heap')) :
    ∃ blocks', ListInv c
      ⟨heap', if ptr = 0 then run.live else ptr :: run.live,
        if ptr = 0 then run.returned else ptr :: run.returned⟩ blocks' := by
  rcases hinv.tiled.malloc_cases hreturns with
    ⟨rfl, rfl⟩ | ⟨front, block, back, tail, rfl, hstop, -, -, hptr, htiled, hsize⟩
  · exact ⟨blocks, hinv.tiled, hinv.noAdjacentFree, hinv.chunks_aligned, by
      simpa using hinv.returned_aligned⟩
  · have hstart := c.heapStart_pos
    have hne : ptr ≠ 0 := by omega
    have htail : tail = back ∨ ∃ rest, tail = ⟨rest, true⟩ :: back := by
      rcases hsize with ⟨-, rfl⟩ | ⟨-, rfl⟩
      · exact .inl rfl
      · exact .inr ⟨_, rfl⟩
    refine ⟨_, htiled, noAdjacentFree_handOut hinv.noAdjacentFree hstop htail, ?_, ?_⟩
    · intro halign hdvd chunk hchunk
      have hold := hinv.chunks_aligned halign hdvd
      rcases hsize with ⟨hexact, rfl⟩ | ⟨hlarge, rfl⟩
      · refine hold chunk ?_
        rwa [map_fst_layout_congr (front ++ block :: tail) (by simp [hexact])] at hchunk
      · have hslot := hold (c.heapStart + span c.sizeofChunk front)
          (List.mem_map.mpr ⟨(_, block), mem_layout_iff.mpr ⟨front, back, rfl, rfl⟩, rfl⟩)
        have hnew : c.alignBound ∣ c.heapStart + span c.sizeofChunk front +
            (c.sizeofChunk + requestSize c nBytes) :=
          Nat.dvd_add hslot (Nat.dvd_add (alignBound_dvd_sizeofChunk halign)
            (alignBound_dvd_requestSize halign nBytes))
        have haddr : c.heapStart + span c.sizeofChunk front +
              (c.sizeofChunk + requestSize c nBytes) +
              (c.sizeofChunk + (block.size - requestSize c nBytes - c.sizeofChunk)) =
            c.heapStart + span c.sizeofChunk front + (c.sizeofChunk + block.size) := by omega
        simp only [layout_append, layout, List.map_append, List.map_cons, List.mem_append,
          List.mem_cons, haddr] at hchunk hold
        rcases hchunk with hchunk | rfl | rfl | hchunk
        · exact hold chunk (.inl hchunk)
        · exact hslot
        · exact hnew
        · exact hold chunk (.inr (.inr hchunk))
    · intro halign hdvd other hother
      simp only [if_neg hne, List.mem_cons] at hother
      rcases hother with rfl | hother
      · rw [hptr]
        refine Nat.dvd_add (hinv.chunks_aligned halign hdvd _ ?_)
          (alignBound_dvd_sizeofChunk halign)
        exact List.mem_map.mpr ⟨(_, block), mem_layout_iff.mpr ⟨front, back, rfl, rfl⟩, rfl⟩
      · exact hinv.returned_aligned halign hdvd other hother

/-- The null pointer has no header in the chain. -/
theorem Tiled.ne_zero_of_getHeader {ptr : ℕ} (htiled : Tiled c heap (front ++ block :: back))
    (hheader : getHeader c ptr = c.heapStart + span c.sizeofChunk front) : ptr ≠ 0 := by
  rintro rfl
  have hend := htiled.end_le
  have hmod : c.heapEnd < c.sizeMod := c.heapEnd_lt
  have hpos : 0 < c.sizeofChunk := by
    have hword := c.word_pos
    rw [HeapConfig.sizeofChunk]
    omega
  rw [getHeader, sizeSub, Nat.mod_eq_of_lt (show c.sizeofChunk < c.sizeMod by omega),
    Nat.mod_eq_of_lt (by omega)] at hheader
  omega

theorem ListInv.free {ptr : ℕ} (hinv : ListInv c run blocks)
    (hguard : FreesInUse c (.free ptr) run)
    (hreturns : Returns (fun fuel => free c fuel ptr run.heap) heap') :
    ∃ blocks', ListInv c ⟨heap', run.live.erase ptr, run.returned⟩ blocks' := by
  obtain ⟨chain, hchain, hmem, -⟩ := hguard
  obtain ⟨front, block, back, rfl, hheader⟩ := hinv.tiled.exists_split_of_mem_chain hchain hmem
  have hptr := hinv.tiled.ne_zero_of_getHeader hheader
  have htiled := hinv.tiled.tiled_of_returns_free hptr hheader hreturns
  refine ⟨_, htiled, noAdjacentFree_release hinv.noAdjacentFree, ?_, hinv.returned_aligned⟩
  intro halign hdvd chunk hchunk
  refine hinv.chunks_aligned halign hdvd chunk ?_
  have hmarked := map_fst_layout_coalesce_subset _ _ (map_fst_layout_coalesce_subset _ _ hchunk)
  rwa [map_fst_layout_congr (front ++ block :: back) (by simp)] at hmarked

/-- The chain of a run that frees in-use chunks only is always a list that fills the heap. -/
theorem exists_listInv_of_reachable (hroom : c.sizeofChunk < c.heapEnd - c.heapStart)
    (hreach : (heapSystem c).Reachable (FreesInUse c) run) : ∃ blocks, ListInv c run blocks := by
  refine hreach.invariant (fun run => ∃ blocks, ListInv c run blocks) ?_ ?_
  · rintro _ ⟨mem, rfl⟩
    exact ⟨_, ListInv.init mem hroom.le⟩
  · rintro op run run' ⟨blocks, hinv⟩ hguard hstep
    cases hstep with
    | malloc hreturns => exact hinv.malloc hreturns
    | free hreturns => exact hinv.free hguard hreturns

/-- For every heap larger than a header, the representation invariant holds
throughout every run in which `free` is applied to in-use chunks only. -/
theorem heapWellFormed_of_reachable (hroom : c.sizeofChunk < c.heapEnd - c.heapStart)
    (hreach : (heapSystem c).Reachable (FreesInUse c) run) : HeapWellFormed c run := by
  obtain ⟨blocks, hinv⟩ := exists_listInv_of_reachable hroom hreach
  exact hinv.heapWellFormed

end

/-! ## A heap of one header and sixteen bytes -/

/-- A 32-bit heap in which one request of 12 bytes, rounded up to 16, fits exactly. -/
def smallHeap : HeapConfig := .word32 4096 4124 (by decide) (by decide) (by decide)

/-- The small heap right after initialisation. -/
def smallStart : HeapRun := ⟨platformInitHeap smallHeap fun _ => 0, [], []⟩

/-- The small heap after `malloc(12)`. -/
def smallTaken : HeapRun :=
  ⟨⟨setChunkFree smallHeap smallStart.heap.mem 4096 0, 4096⟩, [4108], [4108]⟩

theorem smallStart_init : (heapSystem smallHeap).init smallStart := ⟨_, rfl⟩

theorem smallStart_malloc : HeapStep smallHeap (.malloc 12) smallStart smallTaken := by
  have hreturns : Returns (fun fuel => malloc smallHeap fuel 12 smallStart.heap)
      (4108, smallTaken.heap) := ⟨1, rfl⟩
  exact HeapStep.malloc hreturns

/-! ## A heap of one header and forty bytes -/

/-- A 32-bit heap of one header and forty bytes. -/
def roomyHeap : HeapConfig :=
  .word32 4096 4148 smallHeap.heapStart_pos (Nat.le_add_right 4096 52) (by decide)

/-- The roomy heap right after initialisation. -/
def roomyStart : HeapRun := ⟨platformInitHeap roomyHeap fun _ => 0, [], []⟩

/-- The roomy heap after `malloc(4)`. -/
def roomyTaken : HeapRun :=
  ⟨⟨split roomyHeap roomyStart.heap.mem 4096 8, 4096⟩, [4108], [4108]⟩

theorem roomyStart_init : (heapSystem roomyHeap).init roomyStart := ⟨_, rfl⟩

theorem roomyStart_malloc : HeapStep roomyHeap (.malloc 4) roomyStart roomyTaken := by
  have hreturns : Returns (fun fuel => malloc roomyHeap fuel 4 roomyStart.heap)
      (4108, roomyTaken.heap) := ⟨1, rfl⟩
  exact .malloc hreturns

theorem reachable_roomyTaken :
    (heapSystem roomyHeap).Reachable (FreesInUse roomyHeap) roomyTaken := by
  have hguard : FreesInUse roomyHeap (.malloc 4) roomyStart := trivial
  exact .step (.start roomyStart_init) hguard roomyStart_malloc

theorem tiled_roomyStart : Tiled roomyHeap roomyStart.heap [⟨40, true⟩] :=
  tiled_platformInitHeap _ (by decide)

theorem tiled_roomyTaken : Tiled roomyHeap roomyTaken.heap [⟨8, false⟩, ⟨20, true⟩] :=
  @Tiled.cut roomyHeap roomyStart.heap [] [] ⟨40, true⟩ 8 tiled_roomyStart (by decide)

/-- Given back, the block is joined with what it was cut from. -/
theorem exists_roomyMended : ∃ mended : HeapRun,
    HeapStep roomyHeap (.free 4108) roomyTaken mended ∧
      Tiled roomyHeap mended.heap [⟨40, true⟩] ∧
      (heapSystem roomyHeap).Reachable (FreesInUse roomyHeap) mended := by
  have hfirst := @Tiled.header roomyHeap roomyTaken.heap [] _ _ tiled_roomyTaken
  have hguard : FreesInUse roomyHeap (.free 4108) roomyTaken :=
    ⟨_, tiled_roomyTaken.chunkChain, by decide, hfirst.free_eq⟩
  obtain ⟨heap', hfree, htiled, -⟩ :=
    @Tiled.returns_free roomyHeap roomyTaken.heap [] _ _ 4108 tiled_roomyTaken (by decide) rfl
  have hstep : HeapStep roomyHeap (.free 4108) roomyTaken _ := .free hfree
  exact ⟨_, hstep, htiled, reachable_roomyTaken.step hguard hstep⟩

/-- A chunk is cut off and joined again. -/
theorem heapWellFormed_roomyMended : ∃ mended : HeapRun,
    HeapStep roomyHeap (.malloc 4) roomyStart roomyTaken ∧
      HeapStep roomyHeap (.free 4108) roomyTaken mended ∧
      Tiled roomyHeap roomyTaken.heap [⟨8, false⟩, ⟨20, true⟩] ∧
      Tiled roomyHeap mended.heap [⟨40, true⟩] ∧
      HeapWellFormed roomyHeap roomyTaken ∧ HeapWellFormed roomyHeap mended := by
  obtain ⟨mended, hstep, htiled, hreach⟩ := exists_roomyMended
  exact ⟨mended, roomyStart_malloc, hstep, tiled_roomyTaken, htiled,
    heapWellFormed_of_reachable (by decide) reachable_roomyTaken,
    heapWellFormed_of_reachable (by decide) hreach⟩

section

variable {c : HeapConfig} {heap heap' : Heap} {blocks front back : List Block} {block : Block}
  {run run' : HeapRun}

/-! ## Exclusive ownership -/

/-- The payloads of the live blocks lie inside the heap, do not overlap one another,
and contain no header of the chain. -/
structure Exclusive (c : HeapConfig) (run : HeapRun) : Prop where
  inside : ∀ ptr ∈ run.live,
    c.heapStart ≤ ptr ∧ ptr + payloadSize c run.heap ptr ≤ c.heapEnd
  disjoint : run.live.Pairwise fun ptr other =>
    ptr + payloadSize c run.heap ptr ≤ other ∨ other + payloadSize c run.heap other ≤ ptr
  clear : ∃ chain, ChunkChain c run.heap.mem run.heap.freeList chain ∧
    ∀ ptr ∈ run.live, ∀ chunk ∈ chain,
      chunk + c.sizeofChunk ≤ ptr ∨ ptr + payloadSize c run.heap ptr ≤ chunk

/-- The caller's discipline of `free`: only pointers that are live. -/
def FreesLive : HeapOp → HeapRun → Prop
  | .malloc _, _ => True
  | .free ptr, run => ptr ∈ run.live

/-- The request is searched for, the last chunk of the chain is in use, no chunk
before it would satisfy the request, and its size is one that `malloc` hands out. -/
def LastInUseFits (c : HeapConfig) (heap : Heap) (nBytes : ℕ) : Prop :=
  ¬ RefusesAtOnce c heap nBytes ∧
    ∃ chain last, ChunkChain c heap.mem heap.freeList (chain ++ [last]) ∧
    chunkFree c heap.mem last = 0 ∧
    (∀ chunk ∈ chain,
      chunkFree c heap.mem chunk = 0 ∨ chunkSize c heap.mem chunk < requestSize c nBytes) ∧
    (chunkSize c heap.mem last = requestSize c nBytes ∨
      requestSize c nBytes + c.sizeofChunk < chunkSize c heap.mem last)

/-- A last chunk that is free is not the in-use one. -/
theorem not_lastInUseFits {c : HeapConfig} {heap : Heap} {chain : List ℕ} {last nBytes : ℕ}
    (hchain : ChunkChain c heap.mem heap.freeList (chain ++ [last]))
    (hfree : chunkFree c heap.mem last ≠ 0) : ¬ LastInUseFits c heap nBytes := by
  rintro ⟨-, chain', last', hchain', hused, -⟩
  obtain ⟨-, hlast⟩ := List.append_inj' (hchain'.unique hchain) rfl
  obtain rfl : last' = last := by simpa using hlast
  exact hfree hused

/-- `FreesLive`, and no request is made that the in-use last chunk would answer. -/
def KeepsLastChunk (c : HeapConfig) : HeapOp → HeapRun → Prop
  | .malloc nBytes, run => ¬ LastInUseFits c run.heap nBytes
  | .free ptr, run => ptr ∈ run.live

/-- The live pointers are the payloads of the blocks in use. -/
structure OwnershipInv (c : HeapConfig) (run : HeapRun) (blocks : List Block) : Prop where
  tiled : Tiled c run.heap blocks
  live_perm : run.live.Perm
    ((used c.sizeofChunk c.heapStart blocks).map fun entry => entry.1 + c.sizeofChunk)

theorem OwnershipInv.init (mem : Memory) (hroom : c.sizeofChunk ≤ c.heapEnd - c.heapStart) :
    OwnershipInv c ⟨platformInitHeap c mem, [], []⟩
      [⟨c.heapEnd - c.heapStart - c.sizeofChunk, true⟩] := by
  refine ⟨tiled_platformInitHeap mem hroom, ?_⟩
  rw [used_cons_free (by rfl)]
  exact List.Perm.nil

/-- When the search stops on an in-use chunk that is handed out, the guard is broken. -/
theorem Tiled.lastInUseFits {nBytes : ℕ} (htiled : Tiled c heap (front ++ [block]))
    (hsearched : ¬ RefusesAtOnce c heap nBytes) (hused : block.free = false)
    (hfront : ∀ other ∈ front, other.free = false ∨ other.size < requestSize c nBytes)
    (hsize : block.size = requestSize c nBytes ∨
      requestSize c nBytes + c.sizeofChunk < block.size) : LastInUseFits c heap nBytes := by
  have hchain := htiled.chunkChain
  have hlast := htiled.header
  rw [layout_append, List.map_append] at hchain
  refine ⟨hsearched, _, _, hchain, ?_, ?_, ?_⟩
  · rw [hlast.free_eq, hused]
    rfl
  · intro chunk hchunk
    obtain ⟨⟨addr, other⟩, hentry, rfl⟩ := List.mem_map.mp hchunk
    have hentry' : (addr, other) ∈ layout c.sizeofChunk c.heapStart (front ++ [block]) := by
      rw [layout_append]
      exact List.mem_append_left _ hentry
    obtain ⟨next, hheader⟩ := htiled.header_of_mem_layout hentry'
    rw [hheader.free_eq, hheader.size_eq]
    rcases hfront other (by
      obtain ⟨before, after, rfl, -⟩ := mem_layout_iff.mp hentry
      simp) with hfree | hsmall
    · exact .inl (by rw [hfree]; rfl)
    · exact .inr hsmall
  · rwa [hlast.size_eq]

theorem OwnershipInv.malloc {nBytes ptr : ℕ} (hinv : OwnershipInv c run blocks)
    (hguard : ¬ LastInUseFits c run.heap nBytes)
    (hreturns : Returns (fun fuel => malloc c fuel nBytes run.heap) (ptr, heap')) :
    ∃ blocks', OwnershipInv c
      ⟨heap', if ptr = 0 then run.live else ptr :: run.live,
        if ptr = 0 then run.returned else ptr :: run.returned⟩ blocks' := by
  rcases hinv.tiled.malloc_cases hreturns with
    ⟨rfl, rfl⟩ | ⟨front, block, back, tail, rfl, hstop, hfront, hsearched, hptr, htiled, hsize⟩
  · exact ⟨blocks, hinv.tiled, by simpa using hinv.live_perm⟩
  · have hstart := c.heapStart_pos
    have hne : ptr ≠ 0 := by omega
    have hfree : block.free = true := by
      by_contra hused
      rw [Bool.not_eq_true] at hused
      obtain rfl := hstop.resolve_left (by simp [hused])
      exact hguard
        (hinv.tiled.lastInUseFits hsearched hused hfront (hsize.imp And.left And.left))
    refine ⟨_, htiled, ?_⟩
    have htail : used c.sizeofChunk (c.heapStart + span c.sizeofChunk front +
          (c.sizeofChunk + requestSize c nBytes)) tail =
        used c.sizeofChunk (c.heapStart + span c.sizeofChunk front +
          (c.sizeofChunk + block.size)) back := by
      rcases hsize with ⟨hexact, rfl⟩ | ⟨hlarge, rfl⟩
      · rw [hexact]
      · rw [used_cons_free (by rfl)]
        congr 1
        dsimp only
        omega
    have hperm := hinv.live_perm
    rw [used_append, used_cons_free hfree, List.map_append] at hperm
    rw [used_append, used_cons_inUse (by rfl), htail, List.map_append, List.map_cons, if_neg hne]
    dsimp only
    rw [← hptr]
    exact (hperm.cons ptr).trans List.perm_middle.symm

theorem OwnershipInv.free {ptr : ℕ} (hinv : OwnershipInv c run blocks) (hlive : ptr ∈ run.live)
    (hreturns : Returns (fun fuel => free c fuel ptr run.heap) heap') :
    ∃ blocks', OwnershipInv c ⟨heap', run.live.erase ptr, run.returned⟩ blocks' := by
  obtain ⟨⟨chunk, block⟩, hentry, rfl⟩ := List.mem_map.mp (hinv.live_perm.subset hlive)
  obtain ⟨hused, front, back, rfl, rfl⟩ := mem_used_iff.mp hentry
  have hend := hinv.tiled.end_le
  have hmod : c.heapEnd < c.sizeMod := c.heapEnd_lt
  have hstart := c.heapStart_pos
  have htiled := hinv.tiled.tiled_of_returns_free (by omega)
    (getHeader_add (by omega)) hreturns
  refine ⟨_, htiled, ?_⟩
  have hperm := hinv.live_perm
  rw [used_append, used_cons_inUse hused, List.map_append, List.map_cons] at hperm
  rw [used_coalesce, used_coalesce, used_append, used_cons_free (by rfl), List.map_append]
  have herase := (hperm.trans List.perm_middle).erase
    (c.heapStart + span c.sizeofChunk front + c.sizeofChunk)
  rwa [List.erase_cons_head] at herase

theorem OwnershipInv.exclusive (hinv : OwnershipInv c run blocks) : Exclusive c run := by
  have hsize : ∀ entry ∈ used c.sizeofChunk c.heapStart blocks,
      payloadSize c run.heap (entry.1 + c.sizeofChunk) = entry.2.size := by
    rintro ⟨chunk, block⟩ hentry
    obtain ⟨-, front, back, rfl, rfl⟩ := mem_used_iff.mp hentry
    have hend := hinv.tiled.end_le
    have hmod : c.heapEnd < c.sizeMod := c.heapEnd_lt
    rw [payloadSize, getHeader_add (by omega), hinv.tiled.header.size_eq]
  have hlive : ∀ ptr ∈ run.live, ∃ entry ∈ used c.sizeofChunk c.heapStart blocks,
      ptr = entry.1 + c.sizeofChunk := by
    intro ptr hptr
    obtain ⟨entry, hentry, rfl⟩ := List.mem_map.mp (hinv.live_perm.subset hptr)
    exact ⟨entry, hentry, rfl⟩
  refine ⟨?_, ?_, _, hinv.tiled.chunkChain, ?_⟩
  · intro ptr hptr
    obtain ⟨entry, hentry, rfl⟩ := hlive ptr hptr
    have hbounds := layout_bounds (List.mem_of_mem_filter hentry)
    rw [hinv.tiled.span_eq] at hbounds
    rw [hsize entry hentry]
    omega
  · have hsymm : ∀ {ptr other : ℕ},
        (ptr + payloadSize c run.heap ptr ≤ other ∨
          other + payloadSize c run.heap other ≤ ptr) →
        (other + payloadSize c run.heap other ≤ ptr ∨
          ptr + payloadSize c run.heap ptr ≤ other) := Or.symm
    rw [hinv.live_perm.pairwise_iff hsymm, List.pairwise_map]
    refine (pairwise_used c.heapStart blocks).imp_of_mem fun {first second} hfirst _ hle => ?_
    rw [hsize first hfirst]
    exact .inl (by omega)
  · intro ptr hptr chunk hchunk
    obtain ⟨entry, hentry, rfl⟩ := hlive ptr hptr
    obtain ⟨other, hother, rfl⟩ := List.mem_map.mp hchunk
    have hdisjoint := layout_disjoint (List.mem_of_mem_filter hentry) hother
    rw [hsize entry hentry]
    omega

/-- In every run that frees live blocks only and makes no request which the in-use
last chunk would answer, the live payloads are exclusive, on every heap that has room
for a header. -/
theorem exclusive_of_reachable (hroom : c.sizeofChunk ≤ c.heapEnd - c.heapStart)
    (hreach : (heapSystem c).Reachable (KeepsLastChunk c) run) : Exclusive c run := by
  have hinv : ∃ blocks, OwnershipInv c run blocks := by
    refine hreach.invariant (fun run => ∃ blocks, OwnershipInv c run blocks) ?_ ?_
    · rintro _ ⟨mem, rfl⟩
      exact ⟨_, OwnershipInv.init mem hroom⟩
    · rintro op run run' ⟨blocks, hinv⟩ hguard hstep
      cases hstep with
      | malloc hreturns => exact hinv.malloc hguard hreturns
      | free hreturns => exact hinv.free hguard hreturns
  obtain ⟨blocks, hinv⟩ := hinv
  exact hinv.exclusive

end

/-- The roomy heap after another `malloc(1)`. -/
def roomyTwice : HeapRun :=
  ⟨⟨split roomyHeap roomyTaken.heap.mem 4116 4, 4096⟩, [4128, 4108], [4128, 4108]⟩

/-- Two blocks cut from one chunk are exclusively owned. -/
theorem exclusive_roomyTwice :
    roomyHeap.sizeofChunk ≤ roomyHeap.heapEnd - roomyHeap.heapStart ∧
      roomyTwice.live = [4128, 4108] ∧ Exclusive roomyHeap roomyTwice := by
  have hstart : ChunkChain roomyHeap roomyStart.heap.mem roomyStart.heap.freeList [4096] :=
    ⟨rfl, by decide, rfl⟩
  have htaken : ChunkChain roomyHeap roomyTaken.heap.mem roomyTaken.heap.freeList [4096, 4116] :=
    ⟨rfl, by decide, by decide, by decide, rfl⟩
  have hreturns : Returns (fun fuel => malloc roomyHeap fuel 1 roomyTaken.heap)
      (4128, roomyTwice.heap) := ⟨2, rfl⟩
  have hfirst : KeepsLastChunk roomyHeap (.malloc 4) roomyStart :=
    @not_lastInUseFits _ _ [] 4096 _ hstart (by decide)
  have hsecond : KeepsLastChunk roomyHeap (.malloc 1) roomyTaken :=
    @not_lastInUseFits _ _ [4096] 4116 _ htaken (by decide)
  exact ⟨by decide, rfl, exclusive_of_reachable (by decide)
    (.step (.step (.start roomyStart_init) hfirst roomyStart_malloc) hsecond (.malloc hreturns))⟩

/-- Without the guard ownership fails: a second `malloc(12)` on the small heap finds its
last chunk in use, large enough, and returns it again. -/
theorem exists_reachable_not_exclusive :
    ¬ ∀ (c : HeapConfig) (run : HeapRun),
      (heapSystem c).Reachable FreesLive run → Exclusive c run := by
  intro hclaim
  have hreturns : Returns (fun fuel => malloc smallHeap fuel 12 smallTaken.heap)
      (4108, ⟨setChunkFree smallHeap smallTaken.heap.mem 4096 0, 4096⟩) := ⟨1, rfl⟩
  have hguard : FreesLive (.malloc 12) smallStart := trivial
  have hguard' : FreesLive (.malloc 12) smallTaken := trivial
  have hexclusive := hclaim smallHeap _
    (.step (.step (.start smallStart_init) hguard smallStart_malloc) hguard' (.malloc hreturns))
  have hdisjoint : [4108, 4108].Pairwise _ := hexclusive.disjoint
  have hpair := List.rel_of_pairwise_cons hdisjoint (List.mem_singleton.mpr rfl)
  revert hpair
  decide

end Cyancore.Libc
