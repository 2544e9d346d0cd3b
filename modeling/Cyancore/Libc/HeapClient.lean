/-
# A client of the heap

A client calls `malloc`, `calloc`, `realloc` and `free` and writes into the blocks it
owns.  The run records what the client knows of each of its blocks: what it has put
there, the zeroes of `calloc`, and what `realloc` has carried over.  The heap keeps all
of it, in every run in which no call meets one of the cases that lose memory: a request
that the in-use last chunk would answer, a request that wraps, or a copy that is longer
than the new block.
-/

import Cyancore.Libc.RequestSize

namespace Cyancore.Libc

open Cyancore.Math Cyancore.Math.Tiling

/-- A block of the client: where it starts, and what is in it. -/
structure Owned where
  ptr : ℕ
  data : List UInt8
  deriving DecidableEq

/-- A call of the client, or a write into a block. -/
inductive ClientOp
  | malloc (nBytes : ℕ)
  | calloc (nBlocks nBytes : ℕ)
  | realloc (ptr nBytes : ℕ)
  | free (ptr : ℕ)
  | write (ptr offset : ℕ) (value : UInt8)

/-- The heap together with what the client has. -/
structure ClientRun where
  heap : Heap
  owned : List Owned

/-- The bytes from `addr` on. -/
def bytesAt (mem : Memory) (addr len : ℕ) : List UInt8 :=
  (List.range len).map fun k => mem (addr + k)

/-- One completed call.  What `malloc` returns holds anything, and so does what `realloc` adds
behind the old contents. -/
inductive ClientStep (c : HeapConfig) : ClientOp → ClientRun → ClientRun → Prop
  | malloc {run : ClientRun} {nBytes ptr : ℕ} {heap' : Heap}
      (hreturns : Returns (fun fuel => malloc c fuel nBytes run.heap) (ptr, heap')) :
      ClientStep c (.malloc nBytes) run
        ⟨heap', if ptr = 0 then run.owned else ⟨ptr, bytesAt heap'.mem ptr nBytes⟩ :: run.owned⟩
  | calloc {run : ClientRun} {nBlocks nBytes ptr : ℕ} {heap' : Heap}
      (hreturns : Returns (fun fuel => calloc c fuel nBlocks nBytes run.heap) (ptr, heap')) :
      ClientStep c (.calloc nBlocks nBytes) run
        ⟨heap', if ptr = 0 then run.owned
          else ⟨ptr, List.replicate (nBlocks * nBytes) 0⟩ :: run.owned⟩
  | realloc {run : ClientRun} {block : Owned} {nBytes ptr : ℕ} {heap' : Heap}
      (hmem : block ∈ run.owned)
      (hreturns : Returns (fun fuel => realloc c fuel block.ptr nBytes run.heap) (ptr, heap')) :
      ClientStep c (.realloc block.ptr nBytes) run
        ⟨heap', if ptr = 0 then run.owned
          else ⟨ptr, block.data.take nBytes ++
            bytesAt heap'.mem (ptr + block.data.length) (nBytes - block.data.length)⟩ ::
              run.owned.erase block⟩
  | free {run : ClientRun} {block : Owned} {heap' : Heap} (hmem : block ∈ run.owned)
      (hreturns : Returns (fun fuel => free c fuel block.ptr run.heap) heap') :
      ClientStep c (.free block.ptr) run ⟨heap', run.owned.erase block⟩
  | write {run : ClientRun} {block : Owned} {offset : ℕ} (hmem : block ∈ run.owned)
      (hlt : offset < block.data.length) (value : UInt8) :
      ClientStep c (.write block.ptr offset value) run
        ⟨⟨Function.update run.heap.mem (block.ptr + offset) value, run.heap.freeList⟩,
          ⟨block.ptr, block.data.set offset value⟩ :: run.owned.erase block⟩

/-- The client and its heap as a transition system, whatever memory held before. -/
def clientSystem (c : HeapConfig) : TransitionSystem ClientRun ClientOp where
  init run := ∃ mem, run = ⟨platformInitHeap c mem, []⟩
  step := ClientStep c

/-- The request is not answered by the in-use last chunk and does not wrap. -/
def ServedSafely (c : HeapConfig) (heap : Heap) (nBytes : ℕ) : Prop :=
  ¬ LastInUseFits c heap nBytes ∧ ¬ Wraps c nBytes

/-- The calls that lose no memory. -/
def ClientOk (c : HeapConfig) : ClientOp → ClientRun → Prop
  | .malloc nBytes, run => ServedSafely c run.heap nBytes
  | .calloc nBlocks nBytes, run =>
      nBlocks * nBytes < c.sizeMod ∧ ServedSafely c run.heap (nBlocks * nBytes)
  | .realloc ptr nBytes, run =>
      nBytes ≠ 0 ∧ ServedSafely c run.heap nBytes ∧
        payloadSize c run.heap ptr ≤ requestSize c nBytes
  | .free _, _ | .write _ _ _, _ => True

/-- What the client knows of the block is in memory. -/
def Owned.Held (mem : Memory) (block : Owned) : Prop :=
  ∀ k, (hk : k < block.data.length) → mem (block.ptr + k) = block.data[k]

/-- Every block of the client lies in the heap, apart from the others, and holds what the client
knows of it. -/
structure HoldsData (c : HeapConfig) (run : ClientRun) : Prop where
  held : ∀ block ∈ run.owned, block.Held run.heap.mem
  inside : ∀ block ∈ run.owned,
    c.heapStart ≤ block.ptr ∧ block.ptr + block.data.length ≤ c.heapEnd
  disjoint : run.owned.Pairwise fun block other =>
    block.ptr + block.data.length ≤ other.ptr ∨ other.ptr + other.data.length ≤ block.ptr

/-! ## The invariant -/

section

variable {c : HeapConfig} {heap heap' heapM : Heap} {mem mem' : Memory}
  {blocks front back : List Block} {block : Block} {owned rest : List Owned} {own : Owned}
  {nBytes ptr x : ℕ}

@[simp]
theorem length_bytesAt (mem : Memory) (addr len : ℕ) : (bytesAt mem addr len).length = len := by
  simp [bytesAt]

@[simp]
theorem getElem_bytesAt {addr len k : ℕ} (hk : k < (bytesAt mem addr len).length) :
    (bytesAt mem addr len)[k] = mem (addr + k) := by
  simp [bytesAt]

/-- The chunk that the client's block is the payload of. -/
def Owned.In (c : HeapConfig) (blocks : List Block) (own : Owned) : Prop :=
  ∃ entry ∈ used c.sizeofChunk c.heapStart blocks,
    own.ptr = entry.1 + c.sizeofChunk ∧ own.data.length ≤ entry.2.size

/-- The chain fills the heap without free neighbours, its chunks in use are the client's blocks,
and these hold what the client knows. -/
structure ClientInv (c : HeapConfig) (heap : Heap) (owned : List Owned) (blocks : List Block) :
    Prop where
  tiled : Tiled c heap blocks
  noAdjacentFree : NoAdjacentFree blocks
  perm : (owned.map Owned.ptr).Perm
    ((used c.sizeofChunk c.heapStart blocks).map fun entry => entry.1 + c.sizeofChunk)
  inUse : ∀ own ∈ owned, own.In c blocks
  held : ∀ own ∈ owned, own.Held heap.mem

theorem ClientInv.init (mem : Memory) (hroom : c.sizeofChunk ≤ c.heapEnd - c.heapStart) :
    ClientInv c (platformInitHeap c mem) [] [⟨c.heapEnd - c.heapStart - c.sizeofChunk, true⟩] := by
  refine ⟨tiled_platformInitHeap mem hroom, .singleton _, ?_, nofun, nofun⟩
  rw [used_cons_free (by rfl)]
  exact List.Perm.nil

/-- The order in which the client lists its blocks does not matter. -/
theorem ClientInv.reorder (hinv : ClientInv c heap owned blocks) (hperm : owned.Perm rest) :
    ClientInv c heap rest blocks where
  tiled := hinv.tiled
  noAdjacentFree := hinv.noAdjacentFree
  perm := (hperm.map _).symm.trans hinv.perm
  inUse := fun own hown => hinv.inUse own (hperm.mem_iff.mpr hown)
  held := fun own hown => hinv.held own (hperm.mem_iff.mpr hown)

/-- No two blocks of the client start at one address. -/
theorem ClientInv.pairwise (hinv : ClientInv c heap owned blocks) :
    owned.Pairwise fun own other => own.ptr ≠ other.ptr := by
  have hnodup : ((used c.sizeofChunk c.heapStart blocks).map
      fun entry => entry.1 + c.sizeofChunk).Pairwise (· ≠ ·) := by
    rw [List.pairwise_map]
    refine (pairwise_used c.heapStart blocks).imp fun {first second} hle => ?_
    have hpos := c.sizeofChunk_pos
    omega
  have howned := (hinv.perm.pairwise_iff (fun {a b} h => Ne.symm h)).mpr hnodup
  exact List.pairwise_map.mp howned

/-- Blocks of the client that start at different addresses lie in chunks that do not overlap. -/
theorem Owned.In.apart {other : Owned} {entry entry' : ℕ × Block}
    (hentry : entry ∈ used c.sizeofChunk c.heapStart blocks)
    (hptr : own.ptr = entry.1 + c.sizeofChunk)
    (hentry' : entry' ∈ used c.sizeofChunk c.heapStart blocks)
    (hptr' : other.ptr = entry'.1 + c.sizeofChunk) (hne : own.ptr ≠ other.ptr) :
    own.ptr + entry.2.size ≤ entry'.1 ∨ other.ptr + entry'.2.size ≤ entry.1 := by
  have hapart := layout_apart (List.mem_of_mem_filter hentry) (List.mem_of_mem_filter hentry')
    (by omega)
  omega

/-- A write into the chunk of one block. -/
theorem ClientInv.write (hinv : ClientInv c heap (own :: rest) blocks) {entry : ℕ × Block}
    (hentry : entry ∈ used c.sizeofChunk c.heapStart blocks)
    (hptr : own.ptr = entry.1 + c.sizeofChunk) {data : List UInt8}
    (hkept : ∀ x, x < own.ptr ∨ own.ptr + entry.2.size ≤ x → mem' x = heap.mem x)
    (hsize : data.length ≤ entry.2.size) (hdata : (⟨own.ptr, data⟩ : Owned).Held mem') :
    ClientInv c ⟨mem', heap.freeList⟩ (⟨own.ptr, data⟩ :: rest) blocks where
  tiled := by
    obtain ⟨addr, block⟩ := entry
    obtain ⟨-, front, back, rfl, rfl⟩ := mem_used_iff.mp hentry
    dsimp only at hptr hkept
    exact hinv.tiled.write fun x hx => hkept x (by omega)
  noAdjacentFree := hinv.noAdjacentFree
  perm := hinv.perm
  inUse := by
    intro other hother
    rcases List.mem_cons.mp hother with rfl | hother
    · exact ⟨entry, hentry, hptr, hsize⟩
    · exact hinv.inUse other (List.mem_cons_of_mem _ hother)
  held := by
    intro other hother
    rcases List.mem_cons.mp hother with rfl | hother
    · exact hdata
    · obtain ⟨entry', hentry', hptr', hsize'⟩ := hinv.inUse other (List.mem_cons_of_mem _ hother)
      have hne := (List.pairwise_cons.mp hinv.pairwise).1 other hother
      have hapart := Owned.In.apart hentry hptr hentry' hptr' hne
      intro k hk
      exact (hkept (other.ptr + k) (by omega)).trans
        (hinv.held other (List.mem_cons_of_mem _ hother) k hk)

/-! ## The calls -/

/-- The chunk that is handed out under the guard was free. -/
theorem HandsOut.free (htiled : Tiled c heap (front ++ block :: back))
    (hhands : HandsOut c nBytes (front ++ block :: back) front block back)
    (hserved : ¬ LastInUseFits c heap nBytes) : block.free = true := by
  obtain ⟨hn, hfirst, hsearch, hfits⟩ := hhands
  obtain ⟨-, -, hstop, hfront⟩ := search_eq_some hsearch
  by_contra hused
  rw [Bool.not_eq_true] at hused
  obtain rfl := hstop.resolve_left (by simp [hused])
  refine hserved (htiled.lastInUseFits ?_ hused hfront hfits)
  rintro (hzero | hrefuses)
  · exact hn hzero
  · exact hfirst ((htiled.refusesAtOnce_iff hn).mp (.inr hrefuses))

/-- A block that is returned is new, and as large as the request, rounded up. -/
theorem ClientInv.malloc (hinv : ClientInv c heap owned blocks) (hptr : ptr ≠ 0)
    (hserved : ServedSafely c heap nBytes)
    (hreturns : Returns (fun fuel => malloc c fuel nBytes heap) (ptr, heap')) :
    ∃ blocks', ClientInv c heap' (⟨ptr, bytesAt heap'.mem ptr nBytes⟩ :: owned) blocks' ∧
      (∃ entry ∈ used c.sizeofChunk c.heapStart blocks', ptr = entry.1 + c.sizeofChunk ∧
        entry.2.size = requestSize c nBytes) ∧
      ∀ entry ∈ used c.sizeofChunk c.heapStart blocks,
        entry ∈ used c.sizeofChunk c.heapStart blocks' := by
  obtain ⟨front, block, back, hhands, hresult⟩ := hinv.tiled.exists_handsOut hptr hreturns
  obtain ⟨rfl, hle, hstop, -⟩ := search_eq_some hhands.2.2.1
  have hfree := hhands.free hinv.tiled hserved.1
  have hfits := hhands.2.2.2
  obtain ⟨hnew, htiled, hkept⟩ := hinv.tiled.handedOut hfits hresult
  have hslot : (c.heapStart + span c.sizeofChunk front, block) ∈
      layout c.sizeofChunk c.heapStart (front ++ block :: back) :=
    mem_layout_iff.mpr ⟨_, _, rfl, rfl⟩
  have hnewSlot : (c.heapStart + span c.sizeofChunk front, ⟨requestSize c nBytes, false⟩) ∈
      used c.sizeofChunk c.heapStart (front ++ ⟨requestSize c nBytes, false⟩ ::
        (remainder c (requestSize c nBytes) block ++ back)) :=
    mem_used_iff.mpr ⟨rfl, _, _, rfl, rfl⟩
  have hold : ∀ entry ∈ used c.sizeofChunk c.heapStart (front ++ block :: back),
      entry.1 ≠ c.heapStart + span c.sizeofChunk front := by
    intro entry hentry haddr
    have heq := eq_of_mem_layout c.sizeofChunk_pos (List.mem_of_mem_filter hentry) hslot haddr
    rw [heq, mem_used_iff, hfree] at hentry
    cases hentry.1
  have hstay : ∀ entry ∈ used c.sizeofChunk c.heapStart (front ++ block :: back),
      entry ∈ used c.sizeofChunk c.heapStart (front ++ ⟨requestSize c nBytes, false⟩ ::
        (remainder c (requestSize c nBytes) block ++ back)) := by
    intro entry hentry
    have hlayout := mem_layout_handOut hfits (List.mem_of_mem_filter hentry) (hold entry hentry)
    exact List.mem_filter.mpr ⟨hlayout, (List.mem_filter.mp hentry).2⟩
  have htail : remainder c (requestSize c nBytes) block ++ back = back ∨
      ∃ size, remainder c (requestSize c nBytes) block ++ back = ⟨size, true⟩ :: back := by
    rw [remainder]
    split
    · exact .inl rfl
    · exact .inr ⟨_, rfl⟩
  have hrest : used c.sizeofChunk (c.heapStart + span c.sizeofChunk front +
        (c.sizeofChunk + requestSize c nBytes)) (remainder c (requestSize c nBytes) block ++ back) =
      used c.sizeofChunk (c.heapStart + span c.sizeofChunk front +
        (c.sizeofChunk + block.size)) back := by
    have hsize := request_add_span_remainder hfits
    have hnone : ∀ base,
        used c.sizeofChunk base (remainder c (requestSize c nBytes) block) = [] := by
      intro base
      rw [remainder]
      split
      · rfl
      · rw [used_cons_free (by rfl)]
        rfl
    rw [used_append, hnone, List.nil_append]
    congr 1
    omega
  refine ⟨_, ⟨htiled, noAdjacentFree_handOut hinv.noAdjacentFree hstop htail, ?_, ?_, ?_⟩,
    ⟨_, hnewSlot, hnew, rfl⟩, hstay⟩
  · have hperm := hinv.perm
    rw [used_append, used_cons_free hfree, List.map_append] at hperm
    rw [used_append, used_cons_inUse (by rfl), hrest, List.map_append, List.map_cons,
      List.map_cons]
    dsimp only
    rw [← hnew]
    exact (hperm.cons ptr).trans List.perm_middle.symm
  · intro own hown
    rcases List.mem_cons.mp hown with rfl | hown
    · refine ⟨_, hnewSlot, hnew, ?_⟩
      simpa using le_requestSize hserved.2
    · obtain ⟨entry, hentry, haddr, hsize⟩ := hinv.inUse own hown
      exact ⟨entry, hstay entry hentry, haddr, hsize⟩
  · intro own hown
    rcases List.mem_cons.mp hown with rfl | hown
    · intro k hk
      exact (getElem_bytesAt hk).symm
    · obtain ⟨entry, hentry, haddr, hsize⟩ := hinv.inUse own hown
      have hapart := layout_apart (List.mem_of_mem_filter hentry) hslot (hold entry hentry)
      dsimp only at hapart
      intro k hk
      rw [hkept _ (by omega)]
      exact hinv.held own hown k hk

/-- `free` of one block leaves the others. -/
theorem ClientInv.free (hinv : ClientInv c heap (own :: rest) blocks)
    (hreturns : Returns (fun fuel => free c fuel own.ptr heap) heap') :
    ∃ blocks', ClientInv c heap' rest blocks' := by
  obtain ⟨⟨addr, block⟩, hentry, hptr, -⟩ := hinv.inUse own (List.mem_cons_self ..)
  obtain ⟨hused, front, back, rfl, rfl⟩ := mem_used_iff.mp hentry
  have hpos := c.sizeofChunk_pos
  have hheader : getHeader c own.ptr = c.heapStart + span c.sizeofChunk front :=
    hptr ▸ getHeader_of_split hinv.tiled
  have htiled := hinv.tiled.tiled_of_returns_free (by omega) hheader hreturns
  have hafter : used c.sizeofChunk c.heapStart (coalesce c.sizeofChunk
        (coalesce c.sizeofChunk (front ++ ⟨block.size, true⟩ :: back))) =
      used c.sizeofChunk c.heapStart front ++
        used c.sizeofChunk (c.heapStart + span c.sizeofChunk front +
          (c.sizeofChunk + block.size)) back := by
    rw [used_coalesce, used_coalesce, used_append, used_cons_free (by rfl)]
  have hbefore : used c.sizeofChunk c.heapStart (front ++ block :: back) =
      used c.sizeofChunk c.heapStart front ++
        (c.heapStart + span c.sizeofChunk front, block) ::
          used c.sizeofChunk (c.heapStart + span c.sizeofChunk front +
            (c.sizeofChunk + block.size)) back := by
    rw [used_append, used_cons_inUse hused]
  refine ⟨_, htiled, noAdjacentFree_release hinv.noAdjacentFree, ?_, ?_, ?_⟩
  · have hperm := hinv.perm
    rw [hbefore, List.map_append, List.map_cons, List.map_cons] at hperm
    rw [hafter, List.map_append]
    have hcons := hperm.trans List.perm_middle
    dsimp only at hcons
    rw [hptr] at hcons
    exact hcons.cons_inv
  · intro other hother
    obtain ⟨entry, hentry', haddr, hsize⟩ := hinv.inUse other (List.mem_cons_of_mem _ hother)
    have hne := (List.pairwise_cons.mp hinv.pairwise).1 other hother
    refine ⟨entry, ?_, haddr, hsize⟩
    rw [hbefore] at hentry'
    rw [hafter]
    simp only [List.mem_append, List.mem_cons] at hentry' ⊢
    rcases hentry' with hfront | rfl | hback
    · exact .inl hfront
    · exact absurd (hptr.trans haddr.symm) hne
    · exact .inr hback
  · intro other hother k hk
    obtain ⟨entry, hentry', haddr, hsize⟩ := hinv.inUse other (List.mem_cons_of_mem _ hother)
    rw [hinv.tiled.free_kept hptr hreturns (List.mem_of_mem_filter hentry') (by omega) (by omega)]
    exact hinv.held other (List.mem_cons_of_mem _ hother) k hk

/-- `calloc` clears what it returns. -/
theorem ClientInv.calloc {nBlocks : ℕ} (hinv : ClientInv c heap owned blocks) (hptr : ptr ≠ 0)
    (hproduct : nBlocks * nBytes < c.sizeMod) (hserved : ServedSafely c heap (nBlocks * nBytes))
    (hreturns : Returns (fun fuel => calloc c fuel nBlocks nBytes heap) (ptr, heap')) :
    ∃ blocks', ClientInv c heap' (⟨ptr, List.replicate (nBlocks * nBytes) 0⟩ :: owned) blocks' := by
  obtain ⟨heapM, hmalloc, rfl⟩ := returns_calloc_iff.mp hreturns
  rw [Nat.mul_comm nBytes, Nat.mod_eq_of_lt hproduct] at hmalloc
  rw [if_pos hptr, Nat.mul_comm nBytes, Nat.mod_eq_of_lt hproduct]
  obtain ⟨blocks', hinvM, ⟨entry, hentry, hslot, hsize⟩, -⟩ := hinv.malloc hptr hserved hmalloc
  have hroom := le_requestSize hserved.2
  refine ⟨blocks', hinvM.write hentry hslot (fun x hx => ?_) ?_ ?_⟩
  · exact Memory.fill_of_outside (by dsimp only at hx; omega)
  · simp only [List.length_replicate]
    omega
  · intro k hk
    simp only [List.length_replicate] at hk
    simp only [List.getElem_replicate, Memory.fill]
    rw [if_pos (by omega)]

/-- A copy into the new block carries over what the old one holds. -/
theorem held_copy (nBytes ptr : ℕ) {size : ℕ} (hheld : own.Held mem)
    (hsize : own.data.length ≤ size)
    (hapart : ptr ≤ own.ptr ∨ own.ptr + size ≤ ptr) :
    (⟨ptr, own.data.take nBytes ++ bytesAt (mem.copy ptr own.ptr size) (ptr + own.data.length)
      (nBytes - own.data.length)⟩ : Owned).Held (mem.copy ptr own.ptr size) := by
  intro k hk
  simp only [List.length_append, List.length_take, length_bytesAt] at hk
  simp only [List.getElem_append, List.length_take, List.getElem_take]
  split
  · rw [Memory.copy_apply hapart (by omega)]
    exact hheld k (by omega)
  · rw [getElem_bytesAt]
    congr 1
    omega

/-- `realloc` moves a block that fits. -/
theorem ClientInv.realloc (hinv : ClientInv c heap (own :: rest) blocks) (hptr : ptr ≠ 0)
    (hn : nBytes ≠ 0) (hserved : ServedSafely c heap nBytes)
    (hcopy : payloadSize c heap own.ptr ≤ requestSize c nBytes)
    (hreturns : Returns (fun fuel => realloc c fuel own.ptr nBytes heap) (ptr, heap')) :
    ∃ blocks', ClientInv c heap' (⟨ptr, own.data.take nBytes ++
      bytesAt heap'.mem (ptr + own.data.length) (nBytes - own.data.length)⟩ :: rest) blocks' := by
  have hpos := c.sizeofChunk_pos
  obtain ⟨⟨addr, block⟩, hentry, hown, hlen⟩ := hinv.inUse own (List.mem_cons_self ..)
  dsimp only at hown hlen
  have hownPtr : own.ptr ≠ 0 := by omega
  obtain ⟨heapM, hmalloc, hfree⟩ :=
    (((returns_realloc_iff hownPtr hn).mp hreturns).resolve_left fun h => hptr h.1).2
  obtain ⟨blocksM, hinvM, ⟨entry, hslot, hnew, hsize⟩, hstay⟩ := hinv.malloc hptr hserved hmalloc
  have hheader : ∀ {heap : Heap} {blocks : List Block}, Tiled c heap blocks →
      (addr, block) ∈ used c.sizeofChunk c.heapStart blocks →
        chunkSize c heap.mem (getHeader c own.ptr) = block.size := by
    intro heap blocks htiled hmem
    obtain ⟨-, front, back, rfl, rfl⟩ := mem_used_iff.mp hmem
    rw [hown, getHeader_of_split htiled, htiled.header.size_eq]
  rw [payloadSize, hheader hinv.tiled hentry] at hcopy
  rw [copyOld, hheader hinvM.tiled (hstay _ hentry)] at hfree
  have hne : ptr ≠ own.ptr :=
    (List.pairwise_cons.mp hinvM.pairwise).1 own (List.mem_cons_self ..)
  have hapart := layout_apart (List.mem_of_mem_filter hslot)
    (List.mem_of_mem_filter (hstay _ hentry)) (by dsimp only; omega)
  have hroom := le_requestSize hserved.2
  have hdata := held_copy nBytes ptr
    (hinvM.held own (List.mem_cons_of_mem _ (List.mem_cons_self ..))) hlen
    (by dsimp only at hapart; omega)
  have hinvC := hinvM.write hslot hnew (fun x hx => Memory.copy_of_outside
    (show x < ptr ∨ ptr + block.size ≤ x by dsimp only at hx; omega))
    (by simp only [List.length_append, List.length_take, length_bytesAt]; omega) hdata
  obtain ⟨blocksF, hinvF⟩ := (hinvC.reorder (List.Perm.swap ..)).free hfree
  -- `free` leaves the bytes behind the old contents, too
  have hsame : bytesAt heap'.mem (ptr + own.data.length) (nBytes - own.data.length) =
      bytesAt (heapM.mem.copy ptr own.ptr block.size) (ptr + own.data.length)
        (nBytes - own.data.length) := by
    refine List.ext_getElem (by simp) fun k hk hk' => ?_
    have hlong : own.data.length + k < (own.data.take nBytes ++
        bytesAt (heapM.mem.copy ptr own.ptr block.size) (ptr + own.data.length)
          (nBytes - own.data.length)).length := by
      simp only [length_bytesAt, List.length_append, List.length_take] at hk ⊢
      omega
    have hkept := hinvF.held _ (List.mem_cons_self ..) (own.data.length + k) hlong
    have hcopied := hdata (own.data.length + k) hlong
    rw [getElem_bytesAt, getElem_bytesAt, Nat.add_assoc, hkept, ← hcopied]
  exact ⟨blocksF, hsame ▸ hinvF⟩

/-! ## Whole runs -/

theorem ClientInv.holdsData (hinv : ClientInv c heap owned blocks) :
    HoldsData c ⟨heap, owned⟩ where
  held := hinv.held
  inside := by
    intro own hown
    obtain ⟨entry, hentry, hptr, hsize⟩ := hinv.inUse own hown
    have hbounds := layout_bounds (List.mem_of_mem_filter hentry)
    rw [hinv.tiled.span_eq] at hbounds
    omega
  disjoint := by
    refine hinv.pairwise.imp_of_mem fun {own other} hown hother hne => ?_
    obtain ⟨entry, hentry, hptr, hsize⟩ := hinv.inUse own hown
    obtain ⟨entry', hentry', hptr', hsize'⟩ := hinv.inUse other hother
    have hapart := Owned.In.apart hentry hptr hentry' hptr' hne
    omega

/-- Every call that loses no memory, and every write of the client, keeps the invariant. -/
theorem ClientInv.step {op : ClientOp} {run run' : ClientRun}
    (hinv : ClientInv c run.heap run.owned blocks) (hok : ClientOk c op run)
    (hstep : ClientStep c op run run') :
    ∃ blocks', ClientInv c run'.heap run'.owned blocks' := by
  cases hstep with
  | @malloc _ nBytes ptr heap' hreturns =>
      by_cases hptr : ptr = 0
      · subst hptr
        rw [hinv.tiled.heap_eq_of_null hreturns]
        exact ⟨blocks, by simpa using hinv⟩
      · obtain ⟨blocks', hinv', -⟩ := hinv.malloc hptr hok hreturns
        exact ⟨blocks', by simpa [hptr] using hinv'⟩
  | @calloc _ nBlocks nBytes ptr heap' hreturns =>
      by_cases hptr : ptr = 0
      · subst hptr
        obtain ⟨heapM, hmalloc, rfl⟩ := returns_calloc_iff.mp hreturns
        obtain rfl := hinv.tiled.heap_eq_of_null hmalloc
        exact ⟨blocks, by simpa using hinv⟩
      · obtain ⟨blocks', hinv'⟩ := hinv.calloc hptr hok.1 hok.2 hreturns
        exact ⟨blocks', by simpa [hptr] using hinv'⟩
  | @realloc _ block nBytes ptr heap' hmem hreturns =>
      have hfront := hinv.reorder (List.perm_cons_erase hmem)
      by_cases hptr : ptr = 0
      · subst hptr
        obtain ⟨entry, -, hblock, -⟩ := hinv.inUse block hmem
        have hpos := c.sizeofChunk_pos
        rcases (returns_realloc_iff (by omega) hok.1).mp hreturns with ⟨-, hmalloc⟩ | ⟨hne, -⟩
        · obtain rfl := hinv.tiled.heap_eq_of_null hmalloc
          exact ⟨blocks, by simpa using hinv⟩
        · exact absurd rfl hne
      · obtain ⟨blocks', hinv'⟩ := hfront.realloc hptr hok.1 hok.2.1 hok.2.2 hreturns
        exact ⟨blocks', by simpa [hptr] using hinv'⟩
  | free hmem hreturns => exact (hinv.reorder (List.perm_cons_erase hmem)).free hreturns
  | @write _ block offset hmem hlt value =>
      obtain ⟨entry, hentry, hptr, hsize⟩ := hinv.inUse block hmem
      have hheld := hinv.held block hmem
      refine ⟨blocks, (hinv.reorder (List.perm_cons_erase hmem)).write hentry hptr
        (fun x hx => Function.update_of_ne (by omega) _ _) (by simpa using hsize) ?_⟩
      intro k hk
      rw [List.length_set] at hk
      by_cases heq : offset = k
      · subst heq
        simp
      · rw [List.getElem_set_of_ne heq]
        exact (Function.update_of_ne (by dsimp only; omega) _ _).trans (hheld k hk)

theorem exists_clientInv_of_reachable {run : ClientRun}
    (hroom : c.sizeofChunk ≤ c.heapEnd - c.heapStart)
    (hreach : (clientSystem c).Reachable (ClientOk c) run) :
    ∃ blocks, ClientInv c run.heap run.owned blocks := by
  refine hreach.invariant (fun run => ∃ blocks, ClientInv c run.heap run.owned blocks) ?_ ?_
  · rintro _ ⟨mem, rfl⟩
    exact ⟨_, ClientInv.init mem hroom⟩
  · rintro op run run' ⟨blocks, hinv⟩ hok hstep
    exact hinv.step hok hstep

/-- The heap keeps what its client has stored, in every run of calls that lose no memory. -/
theorem heap_holdsData {run : ClientRun} (hroom : c.sizeofChunk ≤ c.heapEnd - c.heapStart)
    (hreach : (clientSystem c).Reachable (ClientOk c) run) : HoldsData c run := by
  obtain ⟨blocks, hinv⟩ := exists_clientInv_of_reachable hroom hreach
  exact hinv.holdsData

/-- When the client has given everything back, the chain is the one that `platform_init_heap`
leaves. -/
theorem heap_recovers {run : ClientRun} (hroom : c.sizeofChunk ≤ c.heapEnd - c.heapStart)
    (hreach : (clientSystem c).Reachable (ClientOk c) run) (hnone : run.owned = [])
    (mem : Memory) : SameChain c (platformInitHeap c mem) run.heap := by
  obtain ⟨blocks, hinv⟩ := exists_clientInv_of_reachable hroom hreach
  refine sameChain_of_tiled (tiled_platformInitHeap mem hroom) ?_
  have hunused : used c.sizeofChunk c.heapStart blocks = [] := by
    have hperm := hinv.perm
    rw [hnone] at hperm
    exact List.map_eq_nil_iff.mp hperm.symm.eq_nil
  have hfree : ∀ block ∈ blocks, block.free = true := by
    intro block hblock
    obtain ⟨front, back, rfl⟩ := List.append_of_mem hblock
    by_contra hused
    have hmem : (c.heapStart + span c.sizeofChunk front, block) ∈
        used c.sizeofChunk c.heapStart (front ++ block :: back) :=
      mem_used_iff.mpr ⟨Bool.eq_false_of_not_eq_true hused, front, back, rfl, rfl⟩
    rw [hunused] at hmem
    cases hmem
  -- two free chunks would be neighbours
  match blocks, hinv, hfree with
  | [], hinv, _ => exact absurd rfl hinv.tiled.ne_nil
  | [⟨size, free⟩], hinv, hfree =>
      obtain rfl : free = true := hfree _ (List.mem_singleton.mpr rfl)
      have hspan := hinv.tiled.span_eq
      rw [span_cons, span_nil] at hspan
      dsimp only at hspan
      have hsize : size = c.heapEnd - c.heapStart - c.sizeofChunk := by omega
      exact hsize ▸ hinv.tiled
  | block :: succ :: rest, hinv, hfree =>
      have hpair := (List.isChain_cons_cons.mp hinv.noAdjacentFree).1
      exact absurd ⟨hfree block (by simp), hfree succ (by simp)⟩ hpair

end

/-! ## A client of the roomy heap -/

/-- The client after `calloc(2, 2)`. -/
def clientTaken : ClientRun :=
  ⟨⟨roomyTaken.heap.mem.fill 4108 0 4, 4096⟩, [⟨4108, List.replicate 4 0⟩]⟩

/-- The client after a write into its block. -/
def clientWritten : ClientRun :=
  ⟨⟨Function.update clientTaken.heap.mem (4108 + 3) 7, 4096⟩,
    [⟨4108, (List.replicate 4 0).set 3 7⟩]⟩

theorem reachable_clientWritten :
    (clientSystem roomyHeap).Reachable (ClientOk roomyHeap) clientWritten := by
  have hstart : ChunkChain roomyHeap roomyStart.heap.mem roomyStart.heap.freeList [4096] :=
    ⟨rfl, by decide, rfl⟩
  have hserved : ServedSafely roomyHeap roomyStart.heap 4 :=
    ⟨@not_lastInUseFits _ _ [] 4096 _ hstart (by decide), fun h => absurd h.2 (by decide)⟩
  have hcalloc : Returns (fun fuel => calloc roomyHeap fuel 2 2 roomyStart.heap)
      (4108, clientTaken.heap) := ⟨1, rfl⟩
  have hok : ClientOk roomyHeap (.calloc 2 2) ⟨roomyStart.heap, []⟩ := ⟨by decide, hserved⟩
  have htake : ClientStep roomyHeap (.calloc 2 2) ⟨roomyStart.heap, []⟩ clientTaken :=
    @ClientStep.calloc roomyHeap ⟨roomyStart.heap, []⟩ 2 2 4108 clientTaken.heap hcalloc
  have hokWrite : ClientOk roomyHeap (.write 4108 3 7) clientTaken := trivial
  have hwrite : ClientStep roomyHeap (.write 4108 3 7) clientTaken clientWritten :=
    @ClientStep.write _ clientTaken ⟨4108, List.replicate 4 0⟩ 3 (by decide) (by decide) 7
  exact .step (.step (.start ⟨_, rfl⟩) hok htake) hokWrite hwrite

theorem heap_holdsData_clientWritten :
    clientWritten.owned = [⟨4108, [0, 0, 0, 7]⟩] ∧ HoldsData roomyHeap clientWritten :=
  ⟨rfl, heap_holdsData (by decide) reachable_clientWritten⟩

/-- The block was cut off, and is joined again with what it was cut from. -/
theorem heap_recovers_clientWritten :
    chunkNext roomyHeap clientWritten.heap.mem 4096 = 4116 ∧
      ∃ run : ClientRun, run.owned = [] ∧ SameChain roomyHeap roomyStart.heap run.heap := by
  have hfree : (free roomyHeap 3 4108 clientWritten.heap >>= fun heap => .done heap.freeList) =
      .done 4096 := by
    decide +kernel
  obtain ⟨heap', hfreed, -⟩ := Outcome.bind_eq_done_iff.mp hfree
  have hreturns : Returns (fun fuel => free roomyHeap fuel 4108 clientWritten.heap) heap' :=
    ⟨3, hfreed⟩
  have hok : ClientOk roomyHeap (.free 4108) clientWritten := trivial
  have hstep := @ClientStep.free roomyHeap clientWritten ⟨4108, (List.replicate 4 0).set 3 7⟩ _
    (by decide) hreturns
  have hreach := reachable_clientWritten.step hok hstep
  exact ⟨by decide, _, rfl, heap_recovers (by decide) hreach rfl _⟩

end Cyancore.Libc
