/-
# `realloc`

`realloc` asks `malloc` for a new block, copies into it as many bytes as the old block has,
and frees the old block.  The length of the copy is read from the old header and never
compared with the new one, and the new block is whatever chunk the search of `malloc` stops
on.  Data and neighbours are safe when that chunk was free and is no smaller than the old
block.
-/

import Cyancore.Libc.HeapUndo

namespace Cyancore.Libc

open Cyancore.Math Cyancore.Math.Tiling

variable {c : HeapConfig} {heap heap' : Heap} {mem' : Memory} {blocks front back : List Block}
  {block : Block} {nBytes request ptr x : ℕ}

/-! ## What `malloc` leaves -/

/-- What is left over of a chunk that is cut for a request. -/
def remainder (c : HeapConfig) (request : ℕ) (block : Block) : List Block :=
  if block.size = request then [] else [⟨block.size - request - c.sizeofChunk, true⟩]

theorem request_add_span_remainder (hfits : Fits c request block) :
    request + span c.sizeofChunk (remainder c request block) = block.size := by
  rw [remainder]
  rcases hfits with hexact | hlarge
  · simp [hexact]
  · rw [if_neg (by omega), span_cons, span_nil]
    dsimp only
    omega

/-- The search stops on this chunk, and `malloc` hands it out. -/
def HandsOut (c : HeapConfig) (nBytes : ℕ) (blocks front : List Block) (block : Block)
    (back : List Block) : Prop :=
  nBytes ≠ 0 ∧ ¬ FirstEmpty blocks ∧
    search (requestSize c nBytes) blocks = some (front, block, back) ∧
    Fits c (requestSize c nBytes) block

namespace Tiled

theorem sizeAdd_request (htiled : Tiled c heap (front ++ block :: back))
    (hle : request ≤ block.size) : sizeAdd c request c.sizeofChunk = request + c.sizeofChunk := by
  have hend := htiled.end_le
  have hmod : c.heapEnd < c.sizeMod := c.heapEnd_lt
  exact sizeAdd_of_lt (by omega)

/-- A chunk that fits is handed out, and what is left over of it becomes a free chunk. -/
theorem mallocAt_tiled (htiled : Tiled c heap (front ++ block :: back))
    (hfits : Fits c request block) :
    Tiled c (mallocAt c heap request (c.heapStart + span c.sizeofChunk front)).2
      (front ++ ⟨request, false⟩ :: (remainder c request block ++ back)) := by
  have hsum := htiled.sizeAdd_request (show request ≤ block.size by rw [Fits] at hfits; omega)
  rw [mallocAt, htiled.header.size_eq, hsum, remainder]
  rcases hfits with hexact | hlarge
  · rw [if_pos hexact, if_pos hexact, ← hexact]
    exact htiled.mark false
  · rw [if_neg (by omega), if_pos hlarge, if_neg (by omega)]
    exact htiled.cut hlarge

/-- Bytes outside the chunk stay, and so do the bytes that are handed out. -/
theorem mallocAt_kept (htiled : Tiled c heap (front ++ block :: back))
    (hfits : Fits c request block)
    (hx : x < c.heapStart + span c.sizeofChunk front ∨
      c.heapStart + span c.sizeofChunk front + (c.sizeofChunk + block.size) ≤ x ∨
      (c.heapStart + span c.sizeofChunk front + c.sizeofChunk ≤ x ∧
        x < c.heapStart + span c.sizeofChunk front + c.sizeofChunk + request)) :
    (mallocAt c heap request (c.heapStart + span c.sizeofChunk front)).2.mem x = heap.mem x := by
  have hend := htiled.end_le
  have hmod : c.heapEnd < c.sizeMod := c.heapEnd_lt
  have hsum := htiled.sizeAdd_request (show request ≤ block.size by rw [Fits] at hfits; omega)
  rw [mallocAt, htiled.header.size_eq, hsum]
  rcases hfits with hexact | hlarge
  · rw [if_pos hexact]
    exact setChunkFree_of_outside (by omega)
  · rw [if_neg (by omega), if_pos hlarge]
    dsimp only
    rw [split_eq_putHeader htiled.header hlarge (by omega), putHeader_of_outside (by omega),
      putHeader_of_outside (by omega)]

/-- Both at once, for a block and a heap that are named. -/
theorem handedOut {new : ℕ} {heapM : Heap} (htiled : Tiled c heap (front ++ block :: back))
    (hfits : Fits c request block)
    (hmalloc : mallocAt c heap request (c.heapStart + span c.sizeofChunk front) = (new, heapM)) :
    new = c.heapStart + span c.sizeofChunk front + c.sizeofChunk ∧
      Tiled c heapM (front ++ ⟨request, false⟩ :: (remainder c request block ++ back)) ∧
      ∀ x, x < c.heapStart + span c.sizeofChunk front ∨
          c.heapStart + span c.sizeofChunk front + (c.sizeofChunk + block.size) ≤ x ∨
          (c.heapStart + span c.sizeofChunk front + c.sizeofChunk ≤ x ∧
            x < c.heapStart + span c.sizeofChunk front + c.sizeofChunk + request) →
        heapM.mem x = heap.mem x := by
  have hnew := htiled.mallocAt_of_fits hfits
  have htiledM := htiled.mallocAt_tiled hfits
  rw [hmalloc] at hnew htiledM
  refine ⟨hnew, htiledM, fun x hx => ?_⟩
  have hkept := htiled.mallocAt_kept hfits hx
  rwa [hmalloc] at hkept

/-- A block that is returned comes from the chunk that was handed out. -/
theorem exists_handsOut (htiled : Tiled c heap blocks) (hptr : ptr ≠ 0)
    (hreturns : Returns (fun fuel => malloc c fuel nBytes heap) (ptr, heap')) :
    ∃ front block back, HandsOut c nBytes blocks front block back ∧
      mallocAt c heap (requestSize c nBytes) (c.heapStart + span c.sizeofChunk front) =
        (ptr, heap') := by
  rcases htiled.returns_malloc_iff.mp hreturns with
    ⟨-, hresult⟩ | ⟨hsearched, ⟨front, block, back⟩, hsearch, hresult⟩
  · exact absurd (Prod.mk.inj hresult).1 hptr
  · obtain ⟨hn, -⟩ := not_or.mp hsearched
    rw [htiled.refusesAtOnce_iff hn] at hsearched
    obtain ⟨rfl, hle, -⟩ := search_eq_some hsearch
    have hfits : Fits c (requestSize c nBytes) block := by
      by_contra htight
      rw [htiled.mallocAt_of_tooTight ((not_fits_iff hle).mp htight)] at hresult
      exact hptr (Prod.mk.inj hresult).1
    exact ⟨front, block, back, ⟨hn, hsearched, hsearch, hfits⟩, hresult.symm⟩

/-- And a chunk that is handed out is returned. -/
theorem returns_malloc_of_handsOut (htiled : Tiled c heap blocks)
    (hhands : HandsOut c nBytes blocks front block back) :
    Returns (fun fuel => malloc c fuel nBytes heap)
      (mallocAt c heap (requestSize c nBytes) (c.heapStart + span c.sizeofChunk front)) :=
  htiled.returns_malloc_of_search hhands.1 hhands.2.1 hhands.2.2.1

theorem heap_eq_of_null (htiled : Tiled c heap blocks)
    (hreturns : Returns (fun fuel => malloc c fuel nBytes heap) (0, heap')) : heap' = heap := by
  rcases htiled.malloc_cases hreturns with ⟨-, hheap⟩ | ⟨front, -, -, -, -, -, -, -, hptr, -⟩
  · exact hheap
  · have hstart := c.heapStart_pos
    omega

/-- Writing into the payload of a chunk leaves the chain. -/
theorem write (htiled : Tiled c heap (front ++ block :: back))
    (hkept : ∀ x, x < c.heapStart + span c.sizeofChunk front + c.sizeofChunk ∨
      c.heapStart + span c.sizeofChunk front + (c.sizeofChunk + block.size) ≤ x →
        mem' x = heap.mem x) :
    Tiled c ⟨mem', heap.freeList⟩ (front ++ block :: back) := by
  have hslot : (c.heapStart + span c.sizeofChunk front, block) ∈
      layout c.sizeofChunk c.heapStart (front ++ block :: back) :=
    mem_layout_iff.mpr ⟨front, back, rfl, rfl⟩
  apply htiled.congr_headers
  intro entry hentry x hle hlt
  have hapart := layout_disjoint hslot hentry
  have hbefore := layout_disjoint hentry hslot
  dsimp only at hapart hbefore
  exact hkept x (by omega)

end Tiled

/-! ## One call -/

/-- The copy that `realloc` makes: as long as the header of `p` says. -/
def copyOld (c : HeapConfig) (heap : Heap) (p new : ℕ) : Heap :=
  { heap with mem := heap.mem.copy new p (chunkSize c heap.mem (getHeader c p)) }

theorem realloc_eq {p : ℕ} (hp : p ≠ 0) (hn : nBytes ≠ 0) (fuel : ℕ) :
    realloc c fuel p nBytes heap = malloc c fuel nBytes heap >>= fun result =>
      if result.1 = 0 then pure (0, result.2)
      else free c fuel p (copyOld c result.2 p result.1) >>= fun heap => pure (result.1, heap) := by
  simp only [realloc, if_neg hp, if_neg hn]
  rfl

/-- What a call of `realloc` that is not one of `malloc` or `free` does. -/
theorem returns_realloc_iff {p q : ℕ} (hp : p ≠ 0) (hn : nBytes ≠ 0) :
    Returns (fun fuel => realloc c fuel p nBytes heap) (q, heap') ↔
      (q = 0 ∧ Returns (fun fuel => malloc c fuel nBytes heap) (0, heap')) ∨
        (q ≠ 0 ∧ ∃ heapM, Returns (fun fuel => malloc c fuel nBytes heap) (q, heapM) ∧
          Returns (fun fuel => free c fuel p (copyOld c heapM p q)) heap') := by
  have hmono : ∀ result : ℕ × Heap, FuelMono fun fuel =>
      if result.1 = 0 then (pure (0, result.2) : Run (ℕ × Heap))
      else free c fuel p (copyOld c result.2 p result.1) >>=
        fun heap => pure (result.1, heap) := by
    rintro ⟨q, heapM⟩
    by_cases hq : q = 0
    · simp only [if_pos hq]
      exact fuelMono_const _
    · simp only [if_neg hq]
      exact (Tiled.fuelMono_free _ _).bind fun _ => fuelMono_const _
  simp only [realloc_eq hp hn]
  rw [returns_bind_iff (fuelMono_malloc _ _) hmono]
  constructor
  · rintro ⟨⟨newP, heapM⟩, hmalloc, hrest⟩
    by_cases hnull : newP = 0
    · simp only [if_pos hnull, Outcome.pure_eq, returns_done_iff, Prod.mk.injEq] at hrest
      obtain ⟨rfl, rfl⟩ := hrest
      exact .inl ⟨rfl, hnull ▸ hmalloc⟩
    · simp only [if_neg hnull, Outcome.pure_eq] at hrest
      obtain ⟨heapF, hfree, hpair⟩ := returns_bind_done_iff.mp hrest
      obtain ⟨rfl, rfl⟩ := Prod.mk.inj hpair
      exact .inr ⟨hnull, heapM, hmalloc, hfree⟩
  · rintro (⟨rfl, hmalloc⟩ | ⟨hnull, heapM, hmalloc, hfree⟩)
    · exact ⟨_, hmalloc, by simp⟩
    · refine ⟨_, hmalloc, ?_⟩
      simp only [if_neg hnull, Outcome.pure_eq]
      exact returns_bind_done_iff.mpr ⟨heap', hfree, rfl⟩

/-- The block `old` was moved to `new`: what both have room for was copied, every other block
in use is as it was, as is everything outside the heap, and the chain is the one that `malloc`
and `free` alone leave. -/
structure Moved (c : HeapConfig) (heap heap' : Heap) (blocks : List Block) (old : ℕ × Block)
    (nBytes new : ℕ) : Prop where
  data : ∀ k < min old.2.size nBytes,
    heap'.mem (new + k) = heap.mem (old.1 + c.sizeofChunk + k)
  others : ∀ other ∈ used c.sizeofChunk c.heapStart blocks, other ≠ old → ∀ k < other.2.size,
    heap'.mem (other.1 + c.sizeofChunk + k) = heap.mem (other.1 + c.sizeofChunk + k)
  outside : ∀ x, x < c.heapStart ∨ c.heapEnd ≤ x → heap'.mem x = heap.mem x
  chain : ∃ heapM heapF, Returns (fun fuel => malloc c fuel nBytes heap) (new, heapM) ∧
    Returns (fun fuel => free c fuel (old.1 + c.sizeofChunk) heapM) heapF ∧
    SameChain c heapF heap'

/-- `realloc` moves the block or leaves everything as it is. -/
def KeepsData (c : HeapConfig) (heap : Heap) (blocks : List Block) (old : ℕ × Block)
    (nBytes : ℕ) : Prop :=
  ∀ new heap', Returns (fun fuel => realloc c fuel (old.1 + c.sizeofChunk) nBytes heap)
      (new, heap') →
    (new ≠ 0 → Moved c heap heap' blocks old nBytes new) ∧ (new = 0 → heap' = heap)

/-- The chunk that is handed out, if any, was free and is no smaller than the old block; or
it is the old block itself, and what is to be kept of it is; or there is nothing to copy, and
the chunk is handed out whole. -/
def CopyFits (c : HeapConfig) (blocks : List Block) (old : ℕ × Block) (nBytes : ℕ) : Prop :=
  ∀ front block back, HandsOut c nBytes blocks front block back →
    (block.free = true ∧ old.2.size ≤ requestSize c nBytes) ∨
      (c.heapStart + span c.sizeofChunk front = old.1 ∧
        min old.2.size nBytes ≤ requestSize c nBytes) ∨
      (old.2.size = 0 ∧ block.size = requestSize c nBytes)

/-! ## Bytes and chain of one call -/

/-- The chunks that are not handed out stay where they are. -/
theorem mem_layout_handOut {base : ℕ} {entry : ℕ × Block} (hfits : Fits c request block)
    (hentry : entry ∈ layout c.sizeofChunk base (front ++ block :: back))
    (hne : entry.1 ≠ base + span c.sizeofChunk front) :
    entry ∈ layout c.sizeofChunk base
      (front ++ ⟨request, false⟩ :: (remainder c request block ++ back)) := by
  have hsize := request_add_span_remainder hfits
  have hrest : base + span c.sizeofChunk front + (c.sizeofChunk + request) +
      span c.sizeofChunk (remainder c request block) =
      base + span c.sizeofChunk front + (c.sizeofChunk + block.size) := by omega
  rw [layout_append, List.mem_append, layout, List.mem_cons] at hentry
  rw [layout_append, List.mem_append, layout, List.mem_cons, layout_append, List.mem_append,
    hrest]
  rcases hentry with hfront | rfl | hback
  · exact .inl hfront
  · exact absurd rfl hne
  · exact .inr (.inr (.inr hback))

namespace Tiled

/-- `free` leaves the payload of every chunk. -/
theorem free_kept {entry : ℕ × Block} (htiled : Tiled c heap (front ++ block :: back))
    (hptr : ptr = c.heapStart + span c.sizeofChunk front + c.sizeofChunk)
    (hreturns : Returns (fun fuel => free c fuel ptr heap) heap')
    (hentry : entry ∈ layout c.sizeofChunk c.heapStart (front ++ block :: back))
    (hle : entry.1 + c.sizeofChunk ≤ x) (hlt : x < entry.1 + c.sizeofChunk + entry.2.size) :
    heap'.mem x = heap.mem x := by
  have hpos := c.sizeofChunk_pos
  have hheader : getHeader c ptr = c.heapStart + span c.sizeofChunk front :=
    hptr ▸ getHeader_of_split htiled
  obtain ⟨heapF, hfree, -, hkept⟩ := htiled.returns_free (by omega) hheader
  obtain rfl := hreturns.unique (fuelMono_free _ _) hfree
  apply hkept
  rintro ⟨other, hother, -, hfrom, hto⟩
  have hsame : other.1 ∈
      (layout c.sizeofChunk c.heapStart (front ++ block :: back)).map Prod.fst := by
    rw [map_fst_layout_congr (front ++ ⟨block.size, true⟩ :: back) (by simp)]
    exact List.mem_map_of_mem hother
  obtain ⟨other', hother', haddr⟩ := List.mem_map.mp hsame
  have hdisjoint := layout_disjoint hentry hother'
  omega

theorem free_outside (htiled : Tiled c heap (front ++ block :: back))
    (hptr : ptr = c.heapStart + span c.sizeofChunk front + c.sizeofChunk)
    (hreturns : Returns (fun fuel => free c fuel ptr heap) heap')
    (hx : x < c.heapStart ∨ c.heapEnd ≤ x) : heap'.mem x = heap.mem x := by
  have hpos := c.sizeofChunk_pos
  have hheader : getHeader c ptr = c.heapStart + span c.sizeofChunk front :=
    hptr ▸ getHeader_of_split htiled
  obtain ⟨heapF, hfree, -, hkept⟩ := htiled.returns_free (by omega) hheader
  obtain rfl := hreturns.unique (fuelMono_free _ _) hfree
  apply hkept
  apply not_inFreeHeader_of_outside
  have hspan := htiled.span_eq
  simp only [span_append, span_cons] at hspan ⊢
  omega

/-- What `free` makes of a chain depends on the chain alone. -/
theorem exists_free_sameChain {heapC : Heap} (htiled : Tiled c heap (front ++ block :: back))
    (htiledC : Tiled c heapC (front ++ block :: back))
    (hptr : ptr = c.heapStart + span c.sizeofChunk front + c.sizeofChunk)
    (hreturns : Returns (fun fuel => free c fuel ptr heapC) heap') :
    ∃ heapF, Returns (fun fuel => free c fuel ptr heap) heapF ∧ SameChain c heapF heap' := by
  have hpos := c.sizeofChunk_pos
  have hheader : getHeader c ptr = c.heapStart + span c.sizeofChunk front :=
    hptr ▸ getHeader_of_split htiled
  obtain ⟨heapF, hfree, htiledF, -⟩ := htiled.returns_free (by omega) hheader
  have htiled' := htiledC.tiled_of_returns_free (by omega) hheader hreturns
  exact ⟨heapF, hfree, sameChain_of_tiled htiledF htiled'⟩

end Tiled

section Moving

variable {old : ℕ × Block} {new : ℕ} {heapM heapC : Heap}

/-- What has to hold once the bytes are copied and before the old block is released. -/
theorem moved_of_tiled {blocksM : List Block}
    (hmalloc : Returns (fun fuel => malloc c fuel nBytes heap) (new, heapM))
    (htiledM : Tiled c heapM blocksM) (htiledC : Tiled c heapC blocksM)
    (hold : ∃ entry ∈ layout c.sizeofChunk c.heapStart blocksM, entry.1 = old.1)
    (hdata : ∃ entry ∈ layout c.sizeofChunk c.heapStart blocksM,
      new = entry.1 + c.sizeofChunk ∧ min old.2.size nBytes ≤ entry.2.size ∧
        ∀ k < min old.2.size nBytes,
          heapC.mem (new + k) = heap.mem (old.1 + c.sizeofChunk + k))
    (hothers : ∀ other ∈ used c.sizeofChunk c.heapStart blocks, other ≠ old →
      ∃ entry ∈ layout c.sizeofChunk c.heapStart blocksM, entry.1 = other.1 ∧
        entry.2.size = other.2.size ∧ ∀ k < other.2.size,
          heapC.mem (other.1 + c.sizeofChunk + k) = heap.mem (other.1 + c.sizeofChunk + k))
    (houtside : ∀ x, x < c.heapStart ∨ c.heapEnd ≤ x → heapC.mem x = heap.mem x)
    (hfree : Returns (fun fuel => free c fuel (old.1 + c.sizeofChunk) heapC) heap') :
    Moved c heap heap' blocks old nBytes new := by
  obtain ⟨⟨addr, oldM⟩, hentry, haddr⟩ := hold
  dsimp only at haddr
  obtain ⟨frontM, backM, rfl, hat⟩ := mem_layout_iff.mp hentry
  have hptr : old.1 + c.sizeofChunk =
      c.heapStart + span c.sizeofChunk frontM + c.sizeofChunk := by omega
  constructor
  · intro k hk
    obtain ⟨slot, hslot, rfl, hroom, hcopied⟩ := hdata
    rw [← hcopied k hk]
    exact htiledC.free_kept hptr hfree hslot (by omega) (by omega)
  · intro other hother hne k hk
    obtain ⟨entry, hmem, hsame, hsize, hkept⟩ := hothers other hother hne
    rw [← hkept k hk]
    exact htiledC.free_kept hptr hfree hmem (by omega) (by omega)
  · intro x hx
    exact (htiledC.free_outside hptr hfree hx).trans (houtside x hx)
  · obtain ⟨heapF, hfreed, hsame⟩ := htiledM.exists_free_sameChain htiledC hptr hfree
    exact ⟨heapM, heapF, hmalloc, hfreed, hsame⟩

/-- A copy that stays inside the new block, and a release of the old one, move the block. -/
theorem moved_of_copied (htiled : Tiled c heap (front ++ block :: back))
    (hhands : HandsOut c nBytes (front ++ block :: back) front block back)
    (hmalloc : mallocAt c heap (requestSize c nBytes) (c.heapStart + span c.sizeofChunk front) =
      (new, heapM))
    (hold : ∃ entry ∈ layout c.sizeofChunk c.heapStart
      (front ++ ⟨requestSize c nBytes, false⟩ ::
        (remainder c (requestSize c nBytes) block ++ back)), entry.1 = old.1)
    (hothers : ∀ other ∈ used c.sizeofChunk c.heapStart (front ++ block :: back), other ≠ old →
      other.1 ≠ c.heapStart + span c.sizeofChunk front)
    (htiledC : Tiled c heapC (front ++ ⟨requestSize c nBytes, false⟩ ::
      (remainder c (requestSize c nBytes) block ++ back)))
    (hroom : min old.2.size nBytes ≤ requestSize c nBytes)
    (hcopied : ∀ k < min old.2.size nBytes,
      heapC.mem (new + k) = heap.mem (old.1 + c.sizeofChunk + k))
    (hkept : ∀ x, x < new ∨ new + requestSize c nBytes ≤ x → heapC.mem x = heapM.mem x)
    (hfree : Returns (fun fuel => free c fuel (old.1 + c.sizeofChunk) heapC) heap') :
    Moved c heap heap' (front ++ block :: back) old nBytes new := by
  have hfits := hhands.2.2.2
  obtain ⟨hnew, htiledM, hmallocKept⟩ := htiled.handedOut hfits hmalloc
  have hmallocReturns := htiled.returns_malloc_of_handsOut hhands
  rw [hmalloc] at hmallocReturns
  have hsize := request_add_span_remainder hfits
  have hend := htiled.end_le
  have hfound : (c.heapStart + span c.sizeofChunk front, block) ∈
      layout c.sizeofChunk c.heapStart (front ++ block :: back) :=
    mem_layout_iff.mpr ⟨_, _, rfl, rfl⟩
  apply moved_of_tiled hmallocReturns htiledM htiledC hold
    ⟨_, mem_layout_iff.mpr ⟨front, _, rfl, rfl⟩, hnew, hroom, hcopied⟩ _ _ hfree
  · intro other hother hne
    have hlayout := List.mem_of_mem_filter hother
    have hneSlot := hothers other hother hne
    have hapart := layout_apart hlayout hfound hneSlot
    dsimp only at hapart
    refine ⟨other, mem_layout_handOut hfits hlayout hneSlot, rfl, rfl, fun k hk => ?_⟩
    calc heapC.mem (other.1 + c.sizeofChunk + k)
        = heapM.mem (other.1 + c.sizeofChunk + k) := hkept _ (by omega)
      _ = heap.mem (other.1 + c.sizeofChunk + k) := hmallocKept _ (by omega)
  · intro x hx
    exact (hkept x (by omega)).trans (hmallocKept x (by omega))

/-- An empty block is moved into a chunk that is handed out whole, whoever has it. -/
theorem moved_of_empty (htiled : Tiled c heap (front ++ block :: back))
    (hhands : HandsOut c nBytes (front ++ block :: back) front block back)
    (hmalloc : mallocAt c heap (requestSize c nBytes) (c.heapStart + span c.sizeofChunk front) =
      (new, heapM))
    (hold : old ∈ used c.sizeofChunk c.heapStart (front ++ block :: back))
    (hempty : old.2.size = 0) (hwhole : block.size = requestSize c nBytes)
    (hfree : Returns (fun fuel => free c fuel (old.1 + c.sizeofChunk)
      (copyOld c heapM (old.1 + c.sizeofChunk) new)) heap') :
    Moved c heap heap' (front ++ block :: back) old nBytes new := by
  have hfits := hhands.2.2.2
  obtain ⟨hnew, htiledM, hmallocKept⟩ := htiled.handedOut hfits hmalloc
  have hmallocReturns := htiled.returns_malloc_of_handsOut hhands
  rw [hmalloc] at hmallocReturns
  have hend := htiled.end_le
  rw [remainder, if_pos hwhole, List.nil_append] at htiledM
  have hsizes : (front ++ block :: back).map Block.size =
      (front ++ ⟨requestSize c nBytes, false⟩ :: back).map Block.size := by simp [hwhole]
  have hmoved := fun entry hentry => @exists_mem_layout_of_sizes c.sizeofChunk c.heapStart _ _
    hsizes entry hentry
  obtain ⟨oldM, holdM, haddr, hlength⟩ := hmoved old (List.mem_of_mem_filter hold)
  have hcopied : copyOld c heapM (old.1 + c.sizeofChunk) new = heapM := by
    obtain ⟨frontM, backM, hsplit, hat⟩ := mem_layout_iff.mp holdM
    rw [hsplit] at htiledM
    rw [copyOld, ← haddr, hat, getHeader_of_split htiledM, htiledM.header.size_eq, hlength, hempty]
    rfl
  rw [hcopied] at hfree
  apply moved_of_tiled hmallocReturns htiledM htiledM ⟨oldM, holdM, haddr⟩
    ⟨_, mem_layout_iff.mpr ⟨front, back, rfl, rfl⟩, hnew, by simp [hempty], by simp [hempty]⟩
    _ _ hfree
  · intro other hother _
    obtain ⟨entry, hentry, hsame, hsize⟩ := hmoved other (List.mem_of_mem_filter hother)
    refine ⟨entry, hentry, hsame, hsize, fun k hk => hmallocKept _ ?_⟩
    have hbounds := layout_disjoint (List.mem_of_mem_filter hother)
      (mem_layout_iff.mpr ⟨front, back, rfl, rfl⟩)
    have hbounds' := layout_disjoint (mem_layout_iff.mpr ⟨front, back, rfl, rfl⟩)
      (List.mem_of_mem_filter hother)
    dsimp only at hbounds hbounds'
    omega
  · exact fun x hx => hmallocKept x (by omega)

/-- Into a chunk that was free and is large enough. -/
theorem moved_of_free (htiled : Tiled c heap (front ++ block :: back))
    (hhands : HandsOut c nBytes (front ++ block :: back) front block back)
    (hmalloc : mallocAt c heap (requestSize c nBytes) (c.heapStart + span c.sizeofChunk front) =
      (new, heapM))
    (hold : old ∈ used c.sizeofChunk c.heapStart (front ++ block :: back))
    (hblock : block.free = true) (hlarge : old.2.size ≤ requestSize c nBytes)
    (hfree : Returns (fun fuel => free c fuel (old.1 + c.sizeofChunk)
      (copyOld c heapM (old.1 + c.sizeofChunk) new)) heap') :
    Moved c heap heap' (front ++ block :: back) old nBytes new := by
  have hfits := hhands.2.2.2
  obtain ⟨hnew, htiledM, hmallocKept⟩ := htiled.handedOut hfits hmalloc
  have hfound : (c.heapStart + span c.sizeofChunk front, block) ∈
      layout c.sizeofChunk c.heapStart (front ++ block :: back) :=
    mem_layout_iff.mpr ⟨_, _, rfl, rfl⟩
  -- the chunk that was found is free, so that it is none of those in use
  have hinUse : ∀ other ∈ used c.sizeofChunk c.heapStart (front ++ block :: back),
      other.1 ≠ c.heapStart + span c.sizeofChunk front := by
    intro other hother haddr
    have hlayout := List.mem_of_mem_filter hother
    rw [eq_of_mem_layout c.sizeofChunk_pos hlayout hfound haddr, mem_used_iff] at hother
    rw [hblock] at hother
    cases hother.1
  have hoverlap := hinUse old hold
  have holdLayout := List.mem_of_mem_filter hold
  have holdM := mem_layout_handOut hfits holdLayout hoverlap
  have hapart := layout_apart holdLayout hfound hoverlap
  have hsize := request_add_span_remainder hfits
  dsimp only at hapart
  have hlength : chunkSize c heapM.mem (getHeader c (old.1 + c.sizeofChunk)) = old.2.size := by
    obtain ⟨frontM, backM, hsplit, hat⟩ := mem_layout_iff.mp holdM
    rw [hsplit] at htiledM
    rw [hat, getHeader_of_split htiledM, htiledM.header.size_eq]
  rw [copyOld, hlength] at hfree
  have hkept : ∀ x, x < new ∨ new + requestSize c nBytes ≤ x →
      heapM.mem.copy new (old.1 + c.sizeofChunk) old.2.size x = heapM.mem x := by
    intro x hx
    exact Memory.copy_of_outside (by omega)
  refine moved_of_copied htiled hhands hmalloc ⟨old, holdM, rfl⟩
    (fun other hother _ => hinUse other hother) (htiledM.write fun x hx => hkept x ?_)
    (by omega) ?_ hkept hfree
  · dsimp only at hx
    omega
  · intro k hk
    calc heapM.mem.copy new (old.1 + c.sizeofChunk) old.2.size (new + k)
        = heapM.mem (old.1 + c.sizeofChunk + k) :=
          Memory.copy_apply (by omega) (by omega)
      _ = heap.mem (old.1 + c.sizeofChunk + k) := hmallocKept _ (by omega)

/-- Onto itself. -/
theorem moved_of_own (htiled : Tiled c heap (front ++ block :: back))
    (hhands : HandsOut c nBytes (front ++ block :: back) front block back)
    (hmalloc : mallocAt c heap (requestSize c nBytes) (c.heapStart + span c.sizeofChunk front) =
      (new, heapM))
    (hold : old ∈ used c.sizeofChunk c.heapStart (front ++ block :: back))
    (hown : c.heapStart + span c.sizeofChunk front = old.1)
    (hroom : min old.2.size nBytes ≤ requestSize c nBytes)
    (hfree : Returns (fun fuel => free c fuel (old.1 + c.sizeofChunk)
      (copyOld c heapM (old.1 + c.sizeofChunk) new)) heap') :
    Moved c heap heap' (front ++ block :: back) old nBytes new := by
  have hfits := hhands.2.2.2
  obtain ⟨hnew, htiledM, hmallocKept⟩ := htiled.handedOut hfits hmalloc
  have hsame : old.1 + c.sizeofChunk = new := by omega
  rw [copyOld, hsame, Memory.copy_self, ← hsame] at hfree
  refine moved_of_copied htiled hhands hmalloc
    ⟨_, mem_layout_iff.mpr ⟨_, _, rfl, rfl⟩, hown⟩ ?_ htiledM hroom ?_ (fun _ _ => rfl) hfree
  · intro other hother hne haddr
    exact hne (eq_of_mem_layout c.sizeofChunk_pos (List.mem_of_mem_filter hother)
      (List.mem_of_mem_filter hold) (haddr.trans hown))
  · intro k hk
    rw [hsame]
    exact hmallocKept _ (by omega)

/-- A copy that fits moves the block. -/
theorem Tiled.keepsData (htiled : Tiled c heap blocks)
    (hold : old ∈ used c.sizeofChunk c.heapStart blocks) (hn : nBytes ≠ 0)
    (hcopy : CopyFits c blocks old nBytes) : KeepsData c heap blocks old nBytes := by
  intro new heap' hreturns
  have hptr : old.1 + c.sizeofChunk ≠ 0 := by
    have hpos := c.sizeofChunk_pos
    omega
  rcases (returns_realloc_iff hptr hn).mp hreturns with
    ⟨rfl, hmalloc⟩ | ⟨hnew, heapM, hmalloc, hfree⟩
  · exact ⟨fun hne => absurd rfl hne, fun _ => htiled.heap_eq_of_null hmalloc⟩
  · refine ⟨fun _ => ?_, fun hnull => absurd hnull hnew⟩
    obtain ⟨front, block, back, hhands, hresult⟩ := htiled.exists_handsOut hnew hmalloc
    obtain ⟨rfl, -⟩ := search_eq_some hhands.2.2.1
    rcases hcopy front block back hhands with
      ⟨hblock, hlarge⟩ | ⟨hown, hroom⟩ | ⟨hempty, hwhole⟩
    · exact moved_of_free htiled hhands hresult hold hblock hlarge hfree
    · exact moved_of_own htiled hhands hresult hold hown hroom hfree
    · exact moved_of_empty htiled hhands hresult hold hempty hwhole hfree

end Moving

/-! ## A block made smaller -/

/-- Making the block of eight bytes smaller copies all of them into one of four, over the
header behind it. -/
theorem not_keepsData_roomyTaken :
    (heapSystem roomyHeap).Reachable (FreesInUse roomyHeap) roomyTaken ∧
      Tiled roomyHeap roomyTaken.heap [⟨8, false⟩, ⟨20, true⟩] ∧
      (4096, ⟨8, false⟩) ∈
        used roomyHeap.sizeofChunk roomyHeap.heapStart [⟨8, false⟩, ⟨20, true⟩] ∧
      ¬ KeepsData roomyHeap roomyTaken.heap [⟨8, false⟩, ⟨20, true⟩] (4096, ⟨8, false⟩) 1 := by
  refine ⟨reachable_roomyTaken, tiled_roomyTaken, by decide, fun hkeeps => ?_⟩
  have hrealloc : (realloc roomyHeap 3 4108 1 roomyTaken.heap >>= fun result =>
      .done (result.1, chunkSize roomyHeap result.2.mem 4132)) = .done (4128, 0) := by
    decide +kernel
  have hmalloc : Returns (fun fuel => malloc roomyHeap fuel 1 roomyTaken.heap)
      (4128, ⟨split roomyHeap roomyTaken.heap.mem 4116 4, 4096⟩) := ⟨2, rfl⟩
  have hfree : (free roomyHeap 3 4108 ⟨split roomyHeap roomyTaken.heap.mem 4116 4, 4096⟩ >>=
      fun heap => .done (heap.freeList, chunkNext roomyHeap heap.mem 4096,
        chunkNext roomyHeap heap.mem 4116, chunkNext roomyHeap heap.mem 4132,
        chunkSize roomyHeap heap.mem 4132)) = .done (4096, 4116, 4132, 0, 4) := by
    decide +kernel
  obtain ⟨⟨new, heap'⟩, hmoved, hpair⟩ := Outcome.bind_eq_done_iff.mp hrealloc
  obtain ⟨rfl, hcleared⟩ := Prod.mk.inj (Outcome.done.inj hpair)
  obtain ⟨heapF, hfreed, hlinks⟩ := Outcome.bind_eq_done_iff.mp hfree
  simp only [Outcome.done.injEq, Prod.mk.injEq] at hlinks
  obtain ⟨hfirst, hsecond, hthird, hlast, hsize⟩ := hlinks
  have hchain : ChunkChain roomyHeap heapF.mem heapF.freeList [4096, 4116, 4132] :=
    ⟨hfirst, by decide, hsecond, by decide, hthird, by decide, hlast⟩
  obtain ⟨heapM, heapF', hmalloc', hfree', hsame⟩ :=
    ((hkeeps 4128 heap' ⟨3, hmoved⟩).1 (by decide)).chain
  obtain ⟨-, rfl⟩ := Prod.mk.inj (hmalloc.unique (fuelMono_malloc _ _) hmalloc')
  obtain rfl := Returns.unique (Tiled.fuelMono_free _ _) ⟨3, hfreed⟩ hfree'
  obtain ⟨chain, hchain', -, hchunks⟩ := hsame.chunks
  obtain rfl := hchain.unique hchain'
  have hequal := (hchunks 4132 (by decide)).1
  rw [hcleared, hsize] at hequal
  cases hequal

end Cyancore.Libc
