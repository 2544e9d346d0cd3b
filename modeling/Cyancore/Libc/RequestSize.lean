/-
# How large a block is

A request passes through machine arithmetic before any chunk is looked at: `calloc`
multiplies, and with `HEAP_ALIGN > 1` the request is rounded up past itself.  Both wrap.  A
request within one alignment unit of the word's end becomes a request for nothing, which any
chunk answers, and a product that wraps becomes one for its remainder.

`free` runs over the new block after `realloc` has made it, so that sizes are followed
through `merge`: a size field only ever grows, up to the end of the heap.
-/

import Cyancore.Libc.Realloc

namespace Cyancore.Libc

open Cyancore.Math Cyancore.Math.Tiling

variable {c : HeapConfig} {heap heap' heapM : Heap} {mem mem' : Memory}
  {blocks front back : List Block} {block : Block} {nBytes ptr : ℕ} {old : ℕ × Block}

/-! ## Rounding -/

/-- Rounding the request up takes it past the end of `size_t`. -/
def Wraps (c : HeapConfig) (nBytes : ℕ) : Prop :=
  1 < c.heapAlign ∧ c.sizeMod ≤ nBytes + c.alignBound

theorem le_requestSize (hwrap : ¬ Wraps c nBytes) : nBytes ≤ requestSize c nBytes := by
  rw [requestSize]
  split
  case isTrue halign =>
      have hroom : nBytes + c.alignBound < c.sizeMod := by
        by_contra hbeyond
        exact hwrap ⟨halign, Nat.not_lt.mp hbeyond⟩
      have hlt := Nat.mod_lt nBytes c.alignBound_pos
      rw [roundupAlign, sizeAdd_of_lt (by omega)]
      omega
  case isFalse => exact le_rfl

/-- No chunk is as large as a request that wraps. -/
theorem lt_of_wraps (hwrap : Wraps c nBytes) {size : ℕ}
    (hsize : size + c.sizeofChunk < c.sizeMod) : size < nBytes := by
  have hbound : c.alignBound ≤ c.sizeofChunk :=
    Nat.le_of_dvd c.sizeofChunk_pos (alignBound_dvd_sizeofChunk hwrap.1)
  have hle := hwrap.2
  omega

/-! ## Size fields under `merge` -/

/-- The size field at `entry` is no smaller than its block and stays within `limit`. -/
def Grown (c : HeapConfig) (mem : Memory) (limit : ℕ) (entry : ℕ × Block) : Prop :=
  entry.2.size ≤ chunkSize c mem entry.1 ∧
    entry.1 + (c.sizeofChunk + chunkSize c mem entry.1) ≤ limit

theorem Grown.congr {limit : ℕ} {entry : ℕ × Block} (hgrown : Grown c mem limit entry)
    (hagree : ∀ x, entry.1 ≤ x → x < entry.1 + c.sizeofChunk → mem' x = mem x) :
    Grown c mem' limit entry := by
  have hsame : chunkSize c mem' entry.1 = chunkSize c mem entry.1 := by
    apply Memory.load_congr
    intro x hle hlt
    apply hagree x hle
    rw [HeapConfig.sizeofChunk, HeapConfig.nextOffset]
    omega
  rwa [Grown, hsame]

/-- A chunk of the chain has the size it should have. -/
theorem Seg.grown {a last limit : ℕ} {entry : ℕ × Block} (hseg : Seg c mem a blocks last)
    (hlimit : a + span c.sizeofChunk blocks ≤ limit)
    (hentry : entry ∈ layout c.sizeofChunk a blocks) : Grown c mem limit entry := by
  obtain ⟨front, back, rfl, hat⟩ := mem_layout_iff.mp hentry
  have hsize := (seg_append.mp hseg).2.1.size_eq
  have hbounds := layout_bounds hentry
  rw [← hat] at hsize
  rw [Grown, hsize]
  omega

/-- A pass leaves everything but the headers of free chunks. -/
theorem kept_mergeLoop {a x : ℕ} (hseg : Seg c mem a blocks 0) (hpos : 0 < a)
    (hlt : a + span c.sizeofChunk blocks < c.sizeMod)
    (hreturns : Returns (fun fuel => loop (mergeTurn c) fuel (entry a blocks, mem)) mem')
    (hx : ¬ InFreeHeader c a blocks x) : mem' x = mem x := by
  obtain ⟨mem'', hreturns', -, hkept⟩ := returns_mergeLoop hseg hpos hlt
  obtain rfl := hreturns.unique (fuelMono_loop _ _) hreturns'
  exact hkept x hx

/-- One pass lets every size field grow. -/
theorem grown_mergeLoop {a : ℕ} (hseg : Seg c mem a blocks 0) (hpos : 0 < a)
    (hlt : a + span c.sizeofChunk blocks < c.sizeMod)
    (hreturns : Returns (fun fuel => loop (mergeTurn c) fuel (entry a blocks, mem)) mem') :
    ∀ entry ∈ layout c.sizeofChunk a blocks,
      Grown c mem' (a + span c.sizeofChunk blocks) entry := by
  induction blocks using coalesce.induct generalizing a mem with
  | case1 => simp [layout]
  | case2 block =>
      intro entry hentry
      have hnext : chunkNext c mem a = 0 := hseg.1.next_eq
      have hturn : mergeTurn c (a, mem) = .done (.exit mem) := by simp [mergeTurn, hnext]
      obtain rfl := (returns_loop_of_exit hturn).mp hreturns
      exact hseg.grown le_rfl hentry
  | case3 block succ rest hpair ih =>
      obtain ⟨mem₁, hturn, hheader, hkept⟩ :=
        mergeTurn_of_free hseg hpos hlt hpair.1 hpair.2
      rw [entry_cons, returns_loop_of_next hturn] at hreturns
      have hrest : Seg c mem₁
          (a + (c.sizeofChunk + (block.size + (succ.size + c.sizeofChunk)))) rest 0 := by
        have haddr : a + (c.sizeofChunk + block.size) + (c.sizeofChunk + succ.size) =
            a + (c.sizeofChunk + (block.size + (succ.size + c.sizeofChunk))) := by omega
        rw [← haddr]
        exact hseg.2.2.congr fun x hx _ => hkept x (.inr (by omega))
      have hlimit : a + span c.sizeofChunk (block :: succ :: rest) =
          a + (c.sizeofChunk + (block.size + (succ.size + c.sizeofChunk))) +
            span c.sizeofChunk rest := by
        simp only [span_cons]
        omega
      rw [hlimit] at hlt ⊢
      -- the rest of the pass writes behind both headers
      have hbehind : ∀ x, x < a + (c.sizeofChunk + (block.size + (succ.size + c.sizeofChunk))) →
          mem' x = mem₁ x := fun x hx => kept_mergeLoop hrest (by omega) hlt hreturns
        (not_inFreeHeader_of_outside (.inl hx))
      intro entry hentry
      simp only [layout, List.mem_cons] at hentry
      rcases hentry with rfl | rfl | hentry
      · have hgrown : Grown c mem₁ (a + (c.sizeofChunk + (block.size +
            (succ.size + c.sizeofChunk))) + span c.sizeofChunk rest) (a, block) := by
          rw [Grown, hheader.size_eq]
          dsimp only
          omega
        exact hgrown.congr fun x _ hx => hbehind x (by dsimp only at hx; omega)
      · have hgrown : Grown c mem _ (a + (c.sizeofChunk + block.size), succ) :=
          hseg.grown hlimit.le (by simp [layout])
        refine hgrown.congr fun x hle hx => ?_
        dsimp only at hle hx
        rw [hbehind x (by omega), hkept x (.inr (by omega))]
      · refine ih hrest (by omega) hlt hreturns entry ?_
        convert hentry using 2
        omega
  | case4 block succ rest hpair ih =>
      rw [entry_cons, returns_loop_of_next (mergeTurn_of_not_free hseg hpos hpair)] at hreturns
      have hlimit : a + span c.sizeofChunk (block :: succ :: rest) =
          a + (c.sizeofChunk + block.size) + span c.sizeofChunk (succ :: rest) := by
        simp only [span_cons]
        omega
      rw [hlimit] at hlt ⊢
      intro entry hentry
      rcases List.mem_cons.mp hentry with rfl | hentry
      · have hgrown : Grown c mem _ (a, block) := hseg.grown hlimit.le (by simp [layout])
        refine hgrown.congr fun x hle hx => ?_
        dsimp only at hx
        exact kept_mergeLoop hseg.2 (by omega) hlt hreturns
          (not_inFreeHeader_of_outside (.inl (by omega)))
      · exact ih hseg.2 (by omega) hlt hreturns entry hentry

namespace Tiled

theorem grown_merge (htiled : Tiled c heap blocks)
    (hreturns : Returns (fun fuel => merge c fuel heap) heap') :
    ∀ entry ∈ layout c.sizeofChunk c.heapStart blocks, Grown c heap'.mem c.heapEnd entry := by
  obtain ⟨mem', hloop, rfl⟩ := returns_bind_done_iff.mp hreturns
  have hentry : heap.freeList = entry c.heapStart blocks := by
    rw [entry, if_neg htiled.ne_nil, htiled.freeList_eq]
  rw [hentry] at hloop
  rw [← htiled.span_eq]
  exact grown_mergeLoop htiled.seg c.heapStart_pos htiled.lt_sizeMod hloop

/-- `free` lets every size field grow, also that of a chunk it joins to another. -/
theorem grown_free (htiled : Tiled c heap (front ++ block :: back))
    (hptr : ptr = c.heapStart + span c.sizeofChunk front + c.sizeofChunk)
    (hreturns : Returns (fun fuel => free c fuel ptr heap) heap') :
    ∀ entry ∈ layout c.sizeofChunk c.heapStart (front ++ block :: back),
      Grown c heap'.mem c.heapEnd entry := by
  intro entry hentry
  have hpos := c.sizeofChunk_pos
  have hheader : getHeader c ptr = c.heapStart + span c.sizeofChunk front :=
    hptr ▸ getHeader_of_split htiled
  obtain ⟨heap₁, hfirst, hsecond⟩ := (htiled.returns_free_iff (by omega) hheader).mp hreturns
  have hmarked := htiled.mark true
  simp only [if_true] at hmarked
  obtain ⟨heap₁', hfirst', htiled₁, -⟩ := hmarked.returns_merge
  obtain rfl := hfirst.unique (fuelMono_merge _) hfirst'
  obtain ⟨entry₀, hentry₀, haddr, hsize⟩ :=
    exists_mem_layout_of_sizes (front ++ ⟨block.size, true⟩ :: back) (by simp) hentry
  have hgrown₁ := hmarked.grown_merge hfirst entry₀ hentry₀
  rw [Grown, haddr, hsize] at hgrown₁
  by_cases hstays : entry.1 ∈ (layout c.sizeofChunk c.heapStart (coalesce c.sizeofChunk
      (front ++ ⟨block.size, true⟩ :: back))).map Prod.fst
  · -- still a chunk of its own: the second pass starts from its size after the first
    obtain ⟨entry₁, hentry₁, haddr₁⟩ := List.mem_map.mp hstays
    have hgrown₂ := htiled₁.grown_merge hsecond entry₁ hentry₁
    obtain ⟨next, hheader₁⟩ := htiled₁.header_of_mem_layout hentry₁
    have hsize₁ := hheader₁.size_eq
    rw [haddr₁] at hsize₁
    rw [Grown, haddr₁] at hgrown₂
    exact ⟨by omega, hgrown₂.2⟩
  · -- swallowed by the first pass: the second one leaves what was its header
    obtain ⟨heap₂, hsecond', -, hkept₂⟩ := htiled₁.returns_merge
    obtain rfl := hsecond.unique (fuelMono_merge _) hsecond'
    have hgrown : Grown c heap₁.mem c.heapEnd entry := hgrown₁
    refine hgrown.congr fun x hle hlt => hkept₂ x ?_
    rintro ⟨other, hother, -, hfrom, hto⟩
    have hmem : other.1 ∈ _ :=
      map_fst_layout_coalesce_subset _ _ (List.mem_map_of_mem hother)
    obtain ⟨other₀, hother₀, haddr'⟩ := List.mem_map.mp hmem
    have hne : other₀.1 ≠ entry₀.1 := by
      rintro hsame
      refine hstays ?_
      rw [← haddr, ← hsame, haddr']
      exact List.mem_map_of_mem hother
    have hapart := layout_apart hother₀ hentry₀ hne
    omega

end Tiled

/-! ## The three requests -/

/-- A request for memory. -/
inductive SizeRequest
  | malloc (nBytes : ℕ)
  | calloc (nBlocks nBytes : ℕ)
  | realloc (p nBytes : ℕ)

/-- The call that makes the request. -/
def SizeRequest.call (c : HeapConfig) (heap : Heap) : SizeRequest → ℕ → Run (ℕ × Heap)
  | .malloc nBytes, fuel => Libc.malloc c fuel nBytes heap
  | .calloc nBlocks nBytes, fuel => Libc.calloc c fuel nBlocks nBytes heap
  | .realloc p nBytes, fuel => Libc.realloc c fuel p nBytes heap

/-- The number of bytes it asks for. -/
def SizeRequest.wanted : SizeRequest → ℕ
  | .malloc nBytes => nBytes
  | .calloc nBlocks nBytes => nBlocks * nBytes
  | .realloc _ nBytes => nBytes

/-- A block that the request returns is as large as asked. -/
def AsLarge (c : HeapConfig) (heap : Heap) (request : SizeRequest) : Prop :=
  ∀ ptr heap', Returns (request.call c heap) (ptr, heap') → ptr ≠ 0 →
    request.wanted ≤ payloadSize c heap' ptr

/-- Some chunk is handed out. -/
def Serves (c : HeapConfig) (nBytes : ℕ) (blocks : List Block) : Prop :=
  ∃ front block back, HandsOut c nBytes blocks front block back

/-- The chunk that is handed out, if any, is no smaller than the old block, or is the old
block itself. -/
def CopyBounded (c : HeapConfig) (blocks : List Block) (old : ℕ × Block) (nBytes : ℕ) : Prop :=
  ∀ front block back, HandsOut c nBytes blocks front block back →
    old.2.size ≤ requestSize c nBytes ∨ c.heapStart + span c.sizeofChunk front = old.1

/-- `realloc` is given null, or a block in use whose bytes fit where they are copied. -/
def SizeRequest.CopyBounded (c : HeapConfig) (blocks : List Block) : SizeRequest → Prop
  | .realloc p nBytes => p = 0 ∨ ∃ old ∈ used c.sizeofChunk c.heapStart blocks,
      p = old.1 + c.sizeofChunk ∧ Libc.CopyBounded c blocks old nBytes
  | _ => True

/-- Nothing wraps on the way to the search, or the search hands out nothing. -/
def SizeRequest.Exact (c : HeapConfig) (blocks : List Block) : SizeRequest → Prop
  | .malloc nBytes => ¬ Wraps c nBytes ∨ ¬ Serves c nBytes blocks
  | .calloc nBlocks nBytes =>
      (nBlocks * nBytes < c.sizeMod ∧ ¬ Wraps c (nBlocks * nBytes)) ∨
        ¬ Serves c (nBytes * nBlocks % c.sizeMod) blocks
  | .realloc _ nBytes => ¬ Wraps c nBytes ∨ ¬ Serves c nBytes blocks

namespace Tiled

/-- The block that `malloc` returns has the size that was searched for. -/
theorem payloadSize_malloc (htiled : Tiled c heap blocks) (hptr : ptr ≠ 0)
    (hreturns : Returns (fun fuel => malloc c fuel nBytes heap) (ptr, heap')) :
    payloadSize c heap' ptr = requestSize c nBytes ∧
      requestSize c nBytes + c.sizeofChunk < c.sizeMod := by
  rcases htiled.malloc_cases hreturns with
    ⟨hnull, -⟩ | ⟨front, block, back, tail, -, -, -, -, rfl, htiled', -⟩
  · exact absurd hnull hptr
  · have hend := htiled'.end_le
    have hmod : c.heapEnd < c.sizeMod := c.heapEnd_lt
    dsimp only at hend
    exact ⟨by rw [payloadSize, getHeader_of_split htiled', htiled'.header.size_eq], by omega⟩

/-- A request is served exactly if `malloc` returns a block. -/
theorem serves_iff (htiled : Tiled c heap blocks) :
    Serves c nBytes blocks ↔
      ∃ ptr heap', Returns (fun fuel => malloc c fuel nBytes heap) (ptr, heap') ∧ ptr ≠ 0 := by
  constructor
  · rintro ⟨front, block, back, hhands⟩
    obtain ⟨rfl, -⟩ := search_eq_some hhands.2.2.1
    exact ⟨_, _, htiled.returns_malloc_of_handsOut hhands,
      htiled.mallocAt_ne_zero hhands.2.2.2⟩
  · rintro ⟨ptr, heap', hreturns, hptr⟩
    obtain ⟨front, block, back, hhands, -⟩ := htiled.exists_handsOut hptr hreturns
    exact ⟨front, block, back, hhands⟩

/-- `malloc`. -/
theorem asLarge_malloc_iff (htiled : Tiled c heap blocks) :
    AsLarge c heap (.malloc nBytes) ↔ ¬ Wraps c nBytes ∨ ¬ Serves c nBytes blocks := by
  rw [htiled.serves_iff]
  constructor
  · intro hlarge
    by_contra hboth
    simp only [not_or, not_not] at hboth
    obtain ⟨hwrap, ptr, heap', hreturns, hptr⟩ := hboth
    obtain ⟨hsize, hlimit⟩ := htiled.payloadSize_malloc hptr hreturns
    have hwanted : nBytes ≤ payloadSize c heap' ptr := hlarge ptr heap' hreturns hptr
    have hsmall := lt_of_wraps hwrap hlimit
    omega
  · intro hexact ptr heap' hreturns hptr
    obtain ⟨hsize, -⟩ := htiled.payloadSize_malloc hptr hreturns
    rcases hexact with hwrap | hnone
    · rw [hsize]
      exact le_requestSize hwrap
    · exact absurd ⟨ptr, heap', hreturns, hptr⟩ hnone

end Tiled

/-- Clearing a block leaves its header. -/
theorem payloadSize_fill {width : ℕ} {byte : UInt8} (hptr : getHeader c ptr + c.sizeofChunk = ptr) :
    payloadSize c { heap with mem := heap.mem.fill ptr byte width } ptr =
      payloadSize c heap ptr := by
  apply Memory.load_congr
  intro x hle hlt
  apply Memory.fill_of_outside
  rw [HeapConfig.sizeofChunk, HeapConfig.nextOffset] at hptr
  omega

/-- `calloc` is `malloc` of the product, and clears what it returns. -/
theorem returns_calloc_iff {nBlocks : ℕ} :
    Returns (fun fuel => calloc c fuel nBlocks nBytes heap) (ptr, heap') ↔
      ∃ heapM, Returns (fun fuel => malloc c fuel (nBytes * nBlocks % c.sizeMod) heap)
          (ptr, heapM) ∧
        heap' = if ptr ≠ 0 then
          { heapM with mem := heapM.mem.fill ptr 0 (nBytes * nBlocks % c.sizeMod) } else heapM := by
  have hcalloc : ∀ fuel, calloc c fuel nBlocks nBytes heap =
      malloc c fuel (nBytes * nBlocks % c.sizeMod) heap >>= fun result =>
        .done (result.1, if result.1 ≠ 0 then
          { result.2 with mem := result.2.mem.fill result.1 0 (nBytes * nBlocks % c.sizeMod) }
          else result.2) := by
    intro fuel
    rw [calloc]
    congr 1
    funext ⟨p, heapM⟩
    by_cases hp : p ≠ 0
    · simp only [if_pos hp, Outcome.pure_eq]
    · simp only [if_neg hp, Outcome.pure_eq]
  simp only [hcalloc]
  rw [returns_bind_done_iff]
  constructor
  · rintro ⟨⟨ptr', heapM⟩, hmalloc, hpair⟩
    obtain ⟨rfl, rfl⟩ := Prod.mk.inj hpair
    exact ⟨heapM, hmalloc, rfl⟩
  · rintro ⟨heapM, hmalloc, rfl⟩
    exact ⟨_, hmalloc, rfl⟩

namespace Tiled

/-- `calloc`. -/
theorem asLarge_calloc_iff {nBlocks : ℕ} (htiled : Tiled c heap blocks) :
    AsLarge c heap (.calloc nBlocks nBytes) ↔
      (nBlocks * nBytes < c.sizeMod ∧ ¬ Wraps c (nBlocks * nBytes)) ∨
        ¬ Serves c (nBytes * nBlocks % c.sizeMod) blocks := by
  have hsize : ∀ {ptr heap'}, ptr ≠ 0 →
      Returns (fun fuel => calloc c fuel nBlocks nBytes heap) (ptr, heap') →
      payloadSize c heap' ptr = requestSize c (nBytes * nBlocks % c.sizeMod) ∧
        requestSize c (nBytes * nBlocks % c.sizeMod) + c.sizeofChunk < c.sizeMod := by
    intro ptr heap' hptr hreturns
    obtain ⟨heapM, hmalloc, rfl⟩ := returns_calloc_iff.mp hreturns
    rw [if_pos hptr, payloadSize_fill]
    · exact htiled.payloadSize_malloc hptr hmalloc
    · rcases htiled.malloc_cases hmalloc with
        ⟨hnull, -⟩ | ⟨front, block, back, tail, -, -, -, -, rfl, htiled', -⟩
      · exact absurd hnull hptr
      · rw [getHeader_of_split htiled']
  have hserves : Serves c (nBytes * nBlocks % c.sizeMod) blocks ↔ ∃ ptr heap',
      Returns (fun fuel => calloc c fuel nBlocks nBytes heap) (ptr, heap') ∧ ptr ≠ 0 := by
    rw [htiled.serves_iff]
    constructor
    · rintro ⟨ptr, heapM, hmalloc, hptr⟩
      exact ⟨ptr, _, returns_calloc_iff.mpr ⟨heapM, hmalloc, rfl⟩, hptr⟩
    · rintro ⟨ptr, heap', hreturns, hptr⟩
      obtain ⟨heapM, hmalloc, -⟩ := returns_calloc_iff.mp hreturns
      exact ⟨ptr, heapM, hmalloc, hptr⟩
  rw [hserves]
  constructor
  · intro hlarge
    by_contra hboth
    simp only [not_or, not_and, not_not] at hboth
    obtain ⟨hwrap, ptr, heap', hreturns, hptr⟩ := hboth
    obtain ⟨hpayload, hlimit⟩ := hsize hptr hreturns
    have hwanted : nBlocks * nBytes ≤ payloadSize c heap' ptr := hlarge ptr heap' hreturns hptr
    rw [hpayload] at hwanted
    by_cases hproduct : nBlocks * nBytes < c.sizeMod
    · have hsmall := lt_of_wraps (hwrap hproduct) hlimit
      omega
    · omega
  · rintro hexact ptr heap' hreturns hptr
    rcases hexact with ⟨hproduct, hwrap⟩ | hnone
    · rw [(hsize hptr hreturns).1, Nat.mul_comm nBytes, Nat.mod_eq_of_lt hproduct]
      exact le_requestSize hwrap
    · exact absurd ⟨ptr, heap', hreturns, hptr⟩ hnone

/-- A copy within bounds leaves the chain, and the old block is one of its chunks. -/
theorem copyOld_tiled {new : ℕ} (htiled : Tiled c heap (front ++ block :: back))
    (hhands : HandsOut c nBytes (front ++ block :: back) front block back)
    (hmalloc : mallocAt c heap (requestSize c nBytes) (c.heapStart + span c.sizeofChunk front) =
      (new, heapM))
    (hold : old ∈ used c.sizeofChunk c.heapStart (front ++ block :: back))
    (hbounded : CopyBounded c (front ++ block :: back) old nBytes) :
    ∃ frontM blockM backM,
      front ++ ⟨requestSize c nBytes, false⟩ ::
          (remainder c (requestSize c nBytes) block ++ back) = frontM ++ blockM :: backM ∧
        old.1 = c.heapStart + span c.sizeofChunk frontM ∧
        Tiled c (copyOld c heapM (old.1 + c.sizeofChunk) new) (frontM ++ blockM :: backM) := by
  have hfits := hhands.2.2.2
  obtain ⟨hnew, htiledM, -⟩ := htiled.handedOut hfits hmalloc
  by_cases hown : c.heapStart + span c.sizeofChunk front = old.1
  · refine ⟨front, _, _, rfl, hown.symm, ?_⟩
    have hsame : old.1 + c.sizeofChunk = new := by omega
    rwa [copyOld, hsame, Memory.copy_self]
  · have hlarge := (hbounded front block back hhands).resolve_right hown
    have holdM := mem_layout_handOut hfits (List.mem_of_mem_filter hold) (Ne.symm hown)
    obtain ⟨frontM, backM, hsplit, hat⟩ := mem_layout_iff.mp holdM
    refine ⟨frontM, old.2, backM, hsplit, hat, ?_⟩
    have hlength : chunkSize c heapM.mem (getHeader c (old.1 + c.sizeofChunk)) = old.2.size := by
      rw [hsplit] at htiledM
      rw [hat, getHeader_of_split htiledM, htiledM.header.size_eq]
    rw [copyOld, hlength, ← hsplit]
    refine htiledM.write fun x hx => Memory.copy_of_outside ?_
    dsimp only at hx
    omega

/-- What `realloc` returns after such a copy. -/
theorem grown_copyOld {new : ℕ} (htiled : Tiled c heap (front ++ block :: back))
    (hhands : HandsOut c nBytes (front ++ block :: back) front block back)
    (hmalloc : mallocAt c heap (requestSize c nBytes) (c.heapStart + span c.sizeofChunk front) =
      (new, heapM))
    (hold : old ∈ used c.sizeofChunk c.heapStart (front ++ block :: back))
    (hbounded : CopyBounded c (front ++ block :: back) old nBytes) :
    ∃ heap', Returns (fun fuel => free c fuel (old.1 + c.sizeofChunk)
        (copyOld c heapM (old.1 + c.sizeofChunk) new)) heap' ∧
      requestSize c nBytes ≤ payloadSize c heap' new ∧
      payloadSize c heap' new + c.sizeofChunk < c.sizeMod := by
  obtain ⟨frontM, blockM, backM, hsplit, hat, htiledC⟩ :=
    htiled.copyOld_tiled hhands hmalloc hold hbounded
  have hpos := c.sizeofChunk_pos
  have hptr : old.1 + c.sizeofChunk =
      c.heapStart + span c.sizeofChunk frontM + c.sizeofChunk := by omega
  have hheader : getHeader c (old.1 + c.sizeofChunk) =
      c.heapStart + span c.sizeofChunk frontM := hptr ▸ getHeader_of_split htiledC
  obtain ⟨heap', hfree, -⟩ := htiledC.returns_free (by omega) hheader
  have hslot : (c.heapStart + span c.sizeofChunk front, ⟨requestSize c nBytes, false⟩) ∈
      layout c.sizeofChunk c.heapStart (frontM ++ blockM :: backM) :=
    hsplit ▸ mem_layout_iff.mpr ⟨_, _, rfl, rfl⟩
  have hgrown := htiledC.grown_free hptr hfree _ hslot
  obtain ⟨hnew, -⟩ := htiled.handedOut hhands.2.2.2 hmalloc
  have hmod : c.heapEnd < c.sizeMod := c.heapEnd_lt
  have hpayload : payloadSize c heap' new =
      chunkSize c heap'.mem (c.heapStart + span c.sizeofChunk front) := by
    rw [payloadSize, hnew, getHeader_of_split htiled]
  rw [Grown, ← hpayload] at hgrown
  dsimp only at hgrown
  exact ⟨heap', hfree, hgrown.1, by omega⟩

/-- `realloc` of a block. -/
theorem asLarge_realloc_iff (htiled : Tiled c heap blocks)
    (hold : old ∈ used c.sizeofChunk c.heapStart blocks)
    (hbounded : CopyBounded c blocks old nBytes) :
    AsLarge c heap (.realloc (old.1 + c.sizeofChunk) nBytes) ↔
      ¬ Wraps c nBytes ∨ ¬ Serves c nBytes blocks := by
  have hpos := c.sizeofChunk_pos
  have hp : old.1 + c.sizeofChunk ≠ 0 := by omega
  by_cases hn : nBytes = 0
  · subst hn
    refine iff_of_true (fun ptr heap' _ _ => Nat.zero_le _) (.inr ?_)
    rintro ⟨front, block, back, hhands⟩
    exact hhands.1 rfl
  constructor
  · intro hlarge
    by_contra hboth
    simp only [not_or, not_not] at hboth
    obtain ⟨hwrap, front, block, back, hhands⟩ := hboth
    obtain ⟨rfl, -⟩ := search_eq_some hhands.2.2.1
    obtain ⟨⟨new, heapM⟩, hmalloc⟩ : ∃ result, mallocAt c heap (requestSize c nBytes)
      (c.heapStart + span c.sizeofChunk front) = result := ⟨_, rfl⟩
    have hnew := htiled.mallocAt_ne_zero hhands.2.2.2
    have hreturns := htiled.returns_malloc_of_handsOut hhands
    rw [hmalloc] at hnew hreturns
    obtain ⟨heap', hfree, -, hlimit⟩ := htiled.grown_copyOld hhands hmalloc hold hbounded
    have hwanted : nBytes ≤ payloadSize c heap' new := hlarge new heap'
      ((returns_realloc_iff hp hn).mpr (.inr ⟨hnew, heapM, hreturns, hfree⟩)) hnew
    have hsmall := lt_of_wraps hwrap hlimit
    omega
  · intro hexact new heap' hreturns hnew
    rcases (returns_realloc_iff hp hn).mp hreturns with ⟨hnull, -⟩ | ⟨-, heapM, hmalloc, hfree⟩
    · exact absurd hnull hnew
    · obtain ⟨front, block, back, hhands, hresult⟩ := htiled.exists_handsOut hnew hmalloc
      obtain ⟨rfl, -⟩ := search_eq_some hhands.2.2.1
      obtain ⟨heap'', hfree', hsize, -⟩ := htiled.grown_copyOld hhands hresult hold hbounded
      obtain rfl := hfree.unique (fuelMono_free _ _) hfree'
      rcases hexact with hwrap | hnone
      · exact (le_requestSize hwrap).trans hsize
      · exact absurd ⟨front, block, back, hhands⟩ hnone

/-- When a request is answered with a block as large as asked. -/
theorem asLarge_iff (htiled : Tiled c heap blocks) {request : SizeRequest}
    (hbounded : request.CopyBounded c blocks) :
    AsLarge c heap request ↔ request.Exact c blocks := by
  cases request with
  | malloc nBytes => exact htiled.asLarge_malloc_iff
  | calloc nBlocks nBytes => exact htiled.asLarge_calloc_iff
  | realloc p nBytes =>
      rcases hbounded with rfl | ⟨old, hold, rfl, hbounded⟩
      · exact htiled.asLarge_malloc_iff
      · exact htiled.asLarge_realloc_iff hold hbounded

end Tiled

/-- In every run that frees in-use chunks only, and whatever the payloads hold, a request copies
no further than the chunk it found and is answered with a block as large as asked exactly if it
copies no further, and nothing wraps on the way to the search or nothing is handed out. -/
theorem reachable_asLarge_iff {run : HeapRun} (hroom : c.sizeofChunk < c.heapEnd - c.heapStart)
    (hreach : (heapSystem c).Reachable (FreesInUse c) run) :
    ∃ blocks, Tiled c run.heap blocks ∧ ∀ heap, Tiled c heap blocks →
      ∀ request : SizeRequest, request.CopyBounded c blocks ∧ AsLarge c heap request ↔
        request.CopyBounded c blocks ∧ request.Exact c blocks := by
  obtain ⟨blocks, hinv⟩ := exists_listInv_of_reachable hroom hreach
  refine ⟨blocks, hinv.tiled, fun heap htiled request => and_congr_right fun hbounded => ?_⟩
  exact htiled.asLarge_iff hbounded

/-- A block of eight bytes is moved to one of twenty. -/
theorem exists_roomyMoved : ∃ heap',
    Returns (fun fuel => realloc roomyHeap fuel 4108 16 roomyTaken.heap) (4128, heap') := by
  have hmoves : (realloc roomyHeap 3 4108 16 roomyTaken.heap >>= fun result =>
      .done result.1) = .done 4128 := by
    decide +kernel
  obtain ⟨⟨new, heap'⟩, hmoved, hnew⟩ := Outcome.bind_eq_done_iff.mp hmoves
  obtain rfl := Outcome.done.inj hnew
  exact ⟨heap', 3, hmoved⟩

/-- What the block of the roomy heap is moved to is as large as asked. -/
theorem asLarge_roomyTaken : ∃ heap',
    Returns (fun fuel => realloc roomyHeap fuel 4108 16 roomyTaken.heap) (4128, heap') ∧
      16 ≤ payloadSize roomyHeap heap' 4128 := by
  obtain ⟨heap', hreturns⟩ := exists_roomyMoved
  obtain ⟨blocks, htiled, hiff⟩ := reachable_asLarge_iff (by decide) reachable_roomyTaken
  obtain rfl := htiled.unique tiled_roomyTaken
  have hbounded : (SizeRequest.realloc 4108 16).CopyBounded roomyHeap
      [⟨8, false⟩, ⟨20, true⟩] :=
    .inr ⟨(4096, ⟨8, false⟩), by decide, rfl, fun _ _ _ _ => .inl (by decide)⟩
  have hexact : (SizeRequest.realloc 4108 16).Exact roomyHeap [⟨8, false⟩, ⟨20, true⟩] :=
    .inl (by rw [Wraps]; decide)
  have hlarge := ((hiff _ htiled (.realloc 4108 16)).mpr ⟨hbounded, hexact⟩).2
  exact ⟨heap', hreturns, hlarge 4128 heap' hreturns (by decide)⟩

/-- The largest request of all is answered with a block of no bytes, and one for 2³⁰ + 1
blocks of four bytes with one of eight. -/
theorem not_asLarge_roomyStart :
    (heapSystem roomyHeap).Reachable (FreesInUse roomyHeap) roomyStart ∧
      ¬ AsLarge roomyHeap roomyStart.heap (.malloc 0xFFFFFFFF) ∧
      ¬ AsLarge roomyHeap roomyStart.heap (.calloc 0x40000001 4) := by
  refine ⟨.start roomyStart_init, ?_, ?_⟩
  · rw [tiled_roomyStart.asLarge_malloc_iff, not_or, not_not, not_not]
    have hhands : HandsOut roomyHeap 0xFFFFFFFF [⟨40, true⟩] [] ⟨40, true⟩ [] :=
      ⟨by decide, by decide, rfl, by decide⟩
    exact ⟨⟨by decide, by decide⟩, [], ⟨40, true⟩, [], hhands⟩
  · rw [tiled_roomyStart.asLarge_calloc_iff, not_or, not_not]
    have hhands : HandsOut roomyHeap 4 [⟨40, true⟩] [] ⟨40, true⟩ [] :=
      ⟨by decide, by decide, rfl, by decide⟩
    exact ⟨fun hproduct => absurd hproduct.1 (by decide), [], ⟨40, true⟩, [], hhands⟩

end Cyancore.Libc
