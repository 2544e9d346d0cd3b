/-
# `free` undoes `malloc`

A free chunk that `malloc` takes whole is marked free again, and one that it cuts is put
together again by the first of the two passes of `free`: the chunk in front of it is in use,
because no two free chunks were neighbours, so that the pass reaches its front part before
the rest.  The second pass finds nothing to do.
-/

import Cyancore.Libc.HeapAnswer

namespace Cyancore.Libc

open Cyancore.Math Cyancore.Math.Tiling

variable {c : HeapConfig} {heap heap' : Heap} {blocks front back : List Block} {block : Block}
  {nBytes ptr : ℕ}

/-- The two heaps have the same chunks at the same addresses, with the same sizes, flags and
links. -/
structure SameChain (c : HeapConfig) (heap heap' : Heap) : Prop where
  freeList : heap'.freeList = heap.freeList
  chunks : ∃ chain, ChunkChain c heap.mem heap.freeList chain ∧
    ChunkChain c heap'.mem heap'.freeList chain ∧
    ∀ chunk ∈ chain, chunkSize c heap'.mem chunk = chunkSize c heap.mem chunk ∧
      chunkFree c heap'.mem chunk = chunkFree c heap.mem chunk ∧
      chunkNext c heap'.mem chunk = chunkNext c heap.mem chunk

/-- A list of blocks says everything about a chain. -/
theorem sameChain_of_tiled (htiled : Tiled c heap blocks) (htiled' : Tiled c heap' blocks) :
    SameChain c heap heap' where
  freeList := htiled'.freeList_eq.trans htiled.freeList_eq.symm
  chunks := by
    refine ⟨_, htiled.chunkChain, htiled'.chunkChain, ?_⟩
    intro chunk hchunk
    obtain ⟨⟨addr, block⟩, hentry, rfl⟩ := List.mem_map.mp hchunk
    obtain ⟨front, back, rfl, rfl⟩ := mem_layout_iff.mp hentry
    have hheader := htiled.header
    have hheader' := htiled'.header
    exact ⟨hheader'.size_eq.trans hheader.size_eq.symm,
      hheader'.free_eq.trans hheader.free_eq.symm, hheader'.next_eq.trans hheader.next_eq.symm⟩

theorem getHeader_of_split (htiled : Tiled c heap (front ++ block :: back)) :
    getHeader c (c.heapStart + span c.sizeofChunk front + c.sizeofChunk) =
      c.heapStart + span c.sizeofChunk front := by
  have hend := htiled.end_le
  have hmod : c.heapEnd < c.sizeMod := c.heapEnd_lt
  exact getHeader_add (by omega)

/-- On a chain that fills the heap and has no two free neighbours, freeing a block that was
just allocated from a free chunk leaves the chain as it was before. -/
theorem free_undoes_malloc (htiled : Tiled c heap blocks) (hadjacent : NoAdjacentFree blocks)
    (hmalloc : Returns (fun fuel => malloc c fuel nBytes heap) (ptr, heap')) (hptr : ptr ≠ 0)
    (hselected : chunkFree c heap.mem (getHeader c ptr) ≠ 0) :
    ∃ heap'', Returns (fun fuel => free c fuel ptr heap') heap'' ∧ SameChain c heap heap'' := by
  rcases htiled.malloc_cases hmalloc with
    ⟨hnull, -⟩ | ⟨front, block, back, tail, rfl, -, -, -, rfl, htiled', hsize⟩
  · exact absurd hnull hptr
  · have hheader := getHeader_of_split htiled
    rw [hheader, htiled.header.free_ne_zero_iff] at hselected
    obtain ⟨heap'', hfree, htiled'', -⟩ := htiled'.returns_free hptr hheader
    refine ⟨heap'', hfree, sameChain_of_tiled htiled ?_⟩
    have hpass : coalesce c.sizeofChunk (front ++ ⟨requestSize c nBytes, true⟩ :: tail) =
        front ++ block :: back := by
      rcases hsize with ⟨hexact, rfl⟩ | ⟨hlarge, rfl⟩
      · have hwhole : (⟨requestSize c nBytes, true⟩ : Block) = block := by
          rw [← hexact, ← hselected]
        rw [hwhole]
        exact coalesce_of_noAdjacentFree hadjacent
      · exact coalesce_rejoin hadjacent hselected (by omega)
    rwa [hpass, coalesce_of_noAdjacentFree hadjacent] at htiled''

/-- A chunk is cut off for the block, and joined again. -/
theorem free_undoes_malloc_roomyHeap :
    Returns (fun fuel => malloc roomyHeap fuel 4 roomyStart.heap) (4108, roomyTaken.heap) ∧
      Tiled roomyHeap roomyTaken.heap [⟨8, false⟩, ⟨20, true⟩] ∧
      ∃ heap'', Returns (fun fuel => free roomyHeap fuel 4108 roomyTaken.heap) heap'' ∧
        SameChain roomyHeap roomyStart.heap heap'' := by
  have hmalloc : Returns (fun fuel => malloc roomyHeap fuel 4 roomyStart.heap)
      (4108, roomyTaken.heap) := ⟨1, rfl⟩
  exact ⟨hmalloc, tiled_roomyTaken,
    free_undoes_malloc tiled_roomyStart (.singleton _) hmalloc (by decide) (by decide)⟩

end Cyancore.Libc
