/-
# The heap of `malloc_lite.c`

The heap is one stretch of RAM between the linker symbols `_heap_start` and
`_heap_end`.  Chunks lie in it side by side, each a `chunk_t` header followed by
its payload, and the headers are chained through their `next` fields from
`freeList`.  The model keeps the bytes: a header field is a little-endian scalar
at its offset, pointers are numbers with `NULL` as zero, and `size_t` arithmetic
wraps at the word size.

`heap_lock` and `heap_unlock` bracket every operation and read no heap data, so
an operation is a function of the heap alone.
-/

import Cyancore.Basic
import Cyancore.Math.ByteMemory

namespace Cyancore.Libc

open Cyancore.Math

/-- What a platform fixes about its heap: the width of `size_t` and of pointers,
the padding its ABI puts before `next`, the alignment macros of `plat_mem.h`, and
the linker symbols. -/
structure HeapConfig where
  /-- `sizeof(size_t)`, which is also `sizeof(chunk_t *)`. -/
  word : ℕ
  /-- Padding between `free` and `next`. -/
  pad : ℕ
  /-- `HEAP_ALIGN`. -/
  heapAlign : ℕ
  /-- `ALIGN_BOUND`. -/
  alignBound : ℕ
  /-- `&_heap_start`. -/
  heapStart : ℕ
  /-- `&_heap_end`. -/
  heapEnd : ℕ
  word_pos : 0 < word
  heapStart_pos : 0 < heapStart
  heapStart_le : heapStart ≤ heapEnd
  heapEnd_lt : heapEnd < 256 ^ word
  alignBound_dvd_word : 1 < heapAlign → alignBound ∣ word
  alignBound_dvd_size : 1 < heapAlign → alignBound ∣ 256 ^ word
  alignBound_pos : 0 < alignBound
  pad_eq_zero : 1 < heapAlign → pad = 0

namespace HeapConfig

variable (c : HeapConfig)

/-- One past `SIZE_MAX`. -/
def sizeMod : ℕ := 256 ^ c.word

/-- The width of the `free` field: `size_t` with `HEAP_ALIGN > 1`, else `uint8_t`. -/
def freeBytes : ℕ := if 1 < c.heapAlign then c.word else 1

/-- Offset of `next` in `chunk_t`. -/
def nextOffset : ℕ := c.word + c.freeBytes + c.pad

/-- `sizeof(chunk_t)`. -/
def sizeofChunk : ℕ := c.nextOffset + c.word

/-- The 32-bit platforms: three `size_t` fields, `ALIGN_BOUND` 4. -/
def word32 (heapStart heapEnd : ℕ) (hpos : 0 < heapStart) (hle : heapStart ≤ heapEnd)
    (hlt : heapEnd < 256 ^ 4) : HeapConfig where
  word := 4
  pad := 0
  heapAlign := 4
  alignBound := 4
  heapStart := heapStart
  heapEnd := heapEnd
  word_pos := by decide
  heapStart_pos := hpos
  heapStart_le := hle
  heapEnd_lt := hlt
  alignBound_dvd_word := by decide
  alignBound_dvd_size := by decide
  alignBound_pos := by decide
  pad_eq_zero := by decide

end HeapConfig

/-- The heap's bytes and the static `freeList`. -/
structure Heap where
  mem : Memory
  freeList : ℕ

section Chunk

variable (c : HeapConfig) (mem : Memory) (chunk : ℕ)

/-- `chunk->size`. -/
def chunkSize : ℕ := mem.load chunk c.word

/-- `chunk->free`. -/
def chunkFree : ℕ := mem.load (chunk + c.word) c.freeBytes

/-- `chunk->next`. -/
def chunkNext : ℕ := mem.load (chunk + c.nextOffset) c.word

/-- `chunk->size = value`. -/
def setChunkSize (value : ℕ) : Memory := mem.store chunk c.word value

/-- `chunk->free = value`. -/
def setChunkFree (value : ℕ) : Memory := mem.store (chunk + c.word) c.freeBytes value

/-- `chunk->next = value`. -/
def setChunkNext (value : ℕ) : Memory := mem.store (chunk + c.nextOffset) c.word value

end Chunk

variable (c : HeapConfig)

/-- `a + b` on `size_t`. -/
def sizeAdd (a b : ℕ) : ℕ := (a + b) % c.sizeMod

/-- `a - b` on `size_t`. -/
def sizeSub (a b : ℕ) : ℕ := (a + (c.sizeMod - b % c.sizeMod)) % c.sizeMod

/-- `ROUNDUP_ALIGN(x, align)`. -/
def roundupAlign (x align : ℕ) : ℕ := sizeAdd c x (align - x % align)

/-- `split`: cut the payload of `fitSlot` after `size` bytes and head the rest
with a new free chunk. -/
def split (mem : Memory) (fitSlot size : ℕ) : Memory :=
  let new := sizeAdd c (sizeAdd c fitSlot size) c.sizeofChunk
  let mem := setChunkSize c mem new
    (sizeSub c (sizeSub c (chunkSize c mem fitSlot) size) c.sizeofChunk)
  let mem := setChunkFree c mem new 1
  let mem := setChunkNext c mem new (chunkNext c mem fitSlot)
  let mem := setChunkSize c mem fitSlot size
  let mem := setChunkFree c mem fitSlot 0
  setChunkNext c mem fitSlot new

/-- One turn of the loop of `merge`, at chunk `cur`. -/
def mergeTurn (state : ℕ × Memory) : Run (Turn (ℕ × Memory) Memory) :=
  let (cur, mem) := state
  if cur ≠ 0 ∧ chunkNext c mem cur ≠ 0 then
    let succ := chunkNext c mem cur
    let mem :=
      if chunkFree c mem cur ≠ 0 ∧ chunkFree c mem succ ≠ 0 then
        let mem := setChunkSize c mem cur
          (sizeAdd c (chunkSize c mem cur) (sizeAdd c (chunkSize c mem succ) c.sizeofChunk))
        setChunkNext c mem cur (chunkNext c mem (chunkNext c mem cur))
      else mem
    .done (.next (chunkNext c mem cur, mem))
  else .done (.exit mem)

/-- `merge`: one forward pass that joins neighbouring free chunks. -/
def merge (fuel : ℕ) (heap : Heap) : Run Heap := do
  let mem ← loop (mergeTurn c) fuel (heap.freeList, heap.mem)
  return { heap with mem }

/-- `get_header`. -/
def getHeader (p : ℕ) : ℕ := sizeSub c p c.sizeofChunk

/-- `platform_init_heap`: clear the heap and make it one free chunk. -/
def platformInitHeap (mem : Memory) : Heap :=
  let sz := sizeSub c c.heapEnd c.heapStart
  let mem := mem.fill c.heapStart 0 sz
  let mem := setChunkSize c mem c.heapStart (sizeSub c sz c.sizeofChunk)
  let mem := setChunkFree c mem c.heapStart 1
  let mem := setChunkNext c mem c.heapStart 0
  { mem, freeList := c.heapStart }

/-- The request as `malloc` searches for it: rounded up with `HEAP_ALIGN > 1`. -/
def requestSize (nBytes : ℕ) : ℕ :=
  if 1 < c.heapAlign then roundupAlign c nBytes c.alignBound else nBytes

/-- One turn of the search loop of `malloc`, at chunk `cur`. -/
def searchTurn (mem : Memory) (nBytes cur : ℕ) : Run (Turn ℕ ℕ) :=
  if cur = 0 then .fault .nullDeref
  else if chunkSize c mem cur < nBytes ∨ (chunkFree c mem cur = 0 ∧ chunkNext c mem cur ≠ 0) then
    .done (.next (chunkNext c mem cur))
  else .done (.exit cur)

/-- `malloc`: the returned pointer, `NULL` being zero, and the heap after the call. -/
def malloc (fuel : ℕ) (nBytes : ℕ) (heap : Heap) : Run (ℕ × Heap) :=
  if nBytes = 0 then return (0, heap)
  else
    let nBytes := requestSize c nBytes
    if heap.freeList = 0 then .fault .nullDeref
    else if chunkSize c heap.mem heap.freeList = 0 then return (0, heap)
    else do
      let cur ← loop (searchTurn c heap.mem nBytes) fuel heap.freeList
      if chunkSize c heap.mem cur = nBytes then
        return (sizeAdd c cur c.sizeofChunk, { heap with mem := setChunkFree c heap.mem cur 0 })
      else if sizeAdd c nBytes c.sizeofChunk < chunkSize c heap.mem cur then
        return (sizeAdd c cur c.sizeofChunk, { heap with mem := split c heap.mem cur nBytes })
      else return (0, heap)

/-- `free`. -/
def free (fuel : ℕ) (ptr : ℕ) (heap : Heap) : Run Heap :=
  if ptr = 0 then return heap
  else
    let cur := getHeader c ptr
    if c.heapStart ≤ cur ∧ cur ≤ c.heapEnd then do
      let heap ← merge c fuel { heap with mem := setChunkFree c heap.mem cur 1 }
      merge c fuel heap
    else return heap

/-- `calloc`. -/
def calloc (fuel : ℕ) (nBlocks nBytes : ℕ) (heap : Heap) : Run (ℕ × Heap) := do
  let nBytes := nBytes * nBlocks % c.sizeMod
  let (p, heap) ← malloc c fuel nBytes heap
  if p ≠ 0 then return (p, { heap with mem := heap.mem.fill p 0 nBytes }) else return (p, heap)

/-- `realloc`. -/
def realloc (fuel : ℕ) (p nBytes : ℕ) (heap : Heap) : Run (ℕ × Heap) :=
  if p = 0 then malloc c fuel nBytes heap
  else if nBytes = 0 then do
    let heap ← free c fuel p heap
    return (0, heap)
  else do
    let header := getHeader c p
    let (newP, heap) ← malloc c fuel nBytes heap
    if newP = 0 then return (0, heap)
    else
      let heap := { heap with mem := heap.mem.copy newP p (chunkSize c heap.mem header) }
      let heap ← free c fuel p heap
      return (newP, heap)

/-- One turn of the loop of `heap_usage`, at chunk `head`; `unsigned int` is as wide as
`size_t` on every platform. -/
def usageTurn (mem : Memory) (state : ℕ × ℕ) : Run (Turn (ℕ × ℕ) ℕ) :=
  let (head, usage) := state
  if chunkNext c mem head ≠ 0 then
    let usage :=
      if chunkFree c mem head = 0 then
        sizeAdd c usage (sizeAdd c (chunkSize c mem head) c.sizeofChunk)
      else usage
    .done (.next (chunkNext c mem head, usage))
  else .done (.exit usage)

/-- `heap_usage`. -/
def heapUsage (fuel : ℕ) (heap : Heap) : Run ℕ :=
  loop (usageTurn c heap.mem) fuel (c.heapStart, 0)

end Cyancore.Libc
