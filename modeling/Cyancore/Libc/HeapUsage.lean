/-
# Heap accounting

`heap_usage` adds up the chunks in use, and leaves its loop on the chunk whose `next` is
null, before that chunk is looked at.  Its count is therefore right exactly while the last
chunk of the chain is free.
-/

import Cyancore.Libc.HeapAnswer

namespace Cyancore.Libc

open Cyancore.Math Cyancore.Math.Tiling

variable {c : HeapConfig} {heap : Heap} {mem : Memory} {blocks front back : List Block}
  {block : Block}

/-- The bytes taken by chunks in use, headers included. -/
def usedBytes (c : HeapConfig) (blocks : List Block) : ℕ :=
  span c.sizeofChunk (blocks.filter fun block => !block.free)

/-- The bytes taken by free chunks. -/
def freeBytes (c : HeapConfig) (blocks : List Block) : ℕ :=
  span c.sizeofChunk (blocks.filter fun block => block.free)

theorem usedBytes_add_freeBytes (c : HeapConfig) (blocks : List Block) :
    usedBytes c blocks + freeBytes c blocks = span c.sizeofChunk blocks :=
  span_filter_add_span_filter blocks

theorem usedBytes_append (front back : List Block) :
    usedBytes c (front ++ back) = usedBytes c front + usedBytes c back := by
  rw [usedBytes, List.filter_append, span_append]
  rfl

theorem usedBytes_cons (block : Block) (rest : List Block) :
    usedBytes c (block :: rest) =
      (if block.free then 0 else c.sizeofChunk + block.size) + usedBytes c rest := by
  cases hfree : block.free <;> simp [usedBytes, hfree]

/-- One turn counts the chunk, if it is in use and not the last. -/
theorem usageTurn_cons {a usage : ℕ} {succ : Block} {rest : List Block}
    (hseg : Seg c mem a (block :: succ :: rest) 0) (hpos : 0 < a)
    (hlt : usage + span c.sizeofChunk (block :: succ :: rest) < c.sizeMod) :
    usageTurn c mem (a, usage) = .done (.next (a + (c.sizeofChunk + block.size),
      usage + if block.free then 0 else c.sizeofChunk + block.size)) := by
  have hheader := hseg.1
  simp only [reduceCtorEq, if_false] at hheader
  have hnext : a + (c.sizeofChunk + block.size) ≠ 0 := by omega
  simp only [span_cons] at hlt
  have hinner : sizeAdd c block.size c.sizeofChunk = block.size + c.sizeofChunk :=
    sizeAdd_of_lt (by omega)
  have hsum : sizeAdd c usage (block.size + c.sizeofChunk) =
      usage + (block.size + c.sizeofChunk) := sizeAdd_of_lt (by omega)
  simp only [usageTurn, hheader.next_eq, ne_eq, hnext, not_false_eq_true, if_true,
    hheader.size_eq, hheader.free_eq, hinner, hsum]
  cases block.free with
  | true => rfl
  | false => simp only [Bool.false_eq_true, if_false, if_true, Nat.add_comm c.sizeofChunk]

/-- The loop counts all chunks but the last. -/
theorem returns_usageLoop {a usage : ℕ} (hseg : Seg c mem a (front ++ [block]) 0) (hpos : 0 < a)
    (hlt : usage + span c.sizeofChunk (front ++ [block]) < c.sizeMod) :
    Returns (fun fuel => loop (usageTurn c mem) fuel (a, usage)) (usage + usedBytes c front) := by
  induction front generalizing a usage with
  | nil =>
      have hnext : chunkNext c mem a = 0 := hseg.1.next_eq
      have hturn : usageTurn c mem (a, usage) = .done (.exit usage) := by
        simp [usageTurn, hnext]
      exact (returns_loop_of_exit hturn).mpr rfl
  | cons first front ih =>
      obtain ⟨succ, rest, hsucc⟩ : ∃ succ rest, front ++ [block] = succ :: rest :=
        List.exists_cons_of_ne_nil (by simp)
      rw [List.cons_append, hsucc] at hseg hlt
      rw [returns_loop_of_next (usageTurn_cons hseg hpos hlt), usedBytes_cons,
        ← Nat.add_assoc usage]
      have hrest := hseg.2
      rw [← hsucc] at hrest hlt
      rw [span_cons] at hlt
      apply ih hrest (by omega)
      split <;> omega

theorem Tiled.returns_heapUsage (htiled : Tiled c heap (front ++ [block])) :
    Returns (fun fuel => heapUsage c fuel heap) (usedBytes c front) := by
  have hmod := htiled.lt_sizeMod
  have hcounted := returns_usageLoop htiled.seg c.heapStart_pos (Nat.lt_of_le_of_lt
    (Nat.add_le_add_right (Nat.zero_le _) _) hmod)
  rwa [Nat.zero_add] at hcounted

theorem fuelMono_heapUsage (c : HeapConfig) (heap : Heap) :
    FuelMono fun fuel => heapUsage c fuel heap :=
  fuelMono_loop _ _

/-! ## When the count is right -/

/-- `heap_usage` returns the bytes taken by chunks in use, which is the size of the heap less
the bytes taken by free chunks. -/
def CountsUse (c : HeapConfig) (heap : Heap) (blocks : List Block) : Prop :=
  ∃ usage, Returns (fun fuel => heapUsage c fuel heap) usage ∧ usage = usedBytes c blocks ∧
    usage = c.heapEnd - c.heapStart - freeBytes c blocks

/-- The two ways to account for a heap agree. -/
theorem Tiled.usedBytes_eq (htiled : Tiled c heap blocks) :
    usedBytes c blocks = c.heapEnd - c.heapStart - freeBytes c blocks := by
  have hspan := htiled.span_eq
  have hsum := usedBytes_add_freeBytes c blocks
  omega

theorem Tiled.countsUse_iff (htiled : Tiled c heap (front ++ [block])) :
    CountsUse c heap (front ++ [block]) ↔ block.free = true := by
  have hlast : usedBytes c (front ++ [block]) =
      usedBytes c front + if block.free then 0 else c.sizeofChunk + block.size := by
    rw [usedBytes_append, usedBytes_cons]
    rfl
  have hheader : 0 < c.sizeofChunk := by
    have hword := c.word_pos
    rw [HeapConfig.sizeofChunk]
    omega
  have hcounted := htiled.returns_heapUsage
  constructor
  · rintro ⟨usage, hreturns, husage, -⟩
    have hsame := hcounted.unique (fuelMono_heapUsage c heap) hreturns
    by_contra hused
    rw [if_neg hused] at hlast
    omega
  · intro hfree
    rw [if_pos hfree, Nat.add_zero] at hlast
    exact ⟨_, hcounted, hlast.symm, hlast.symm.trans htiled.usedBytes_eq⟩

/-- In every run that frees in-use chunks only, the heap is accounted for exactly while the
last chunk is free. -/
theorem reachable_countsUse_iff {run : HeapRun}
    (hroom : c.sizeofChunk < c.heapEnd - c.heapStart)
    (hreach : (heapSystem c).Reachable (FreesInUse c) run) :
    ∃ blocks, Tiled c run.heap blocks ∧
      (CountsUse c run.heap blocks ↔ ∃ last ∈ blocks.getLast?, last.free = true) := by
  obtain ⟨blocks, hinv⟩ := exists_listInv_of_reachable hroom hreach
  have htiled := hinv.tiled
  obtain ⟨front, last, rfl⟩ := List.eq_nil_or_concat' blocks |>.resolve_left htiled.ne_nil
  refine ⟨front ++ [last], htiled, ?_⟩
  rw [htiled.countsUse_iff]
  simp

/-- A block of eight bytes and its header are counted while a free chunk is behind them. -/
theorem countsUse_roomyTaken :
    usedBytes roomyHeap [⟨8, false⟩, ⟨20, true⟩] = 20 ∧
      CountsUse roomyHeap roomyTaken.heap [⟨8, false⟩, ⟨20, true⟩] := by
  obtain ⟨blocks, htiled, hiff⟩ :=
    @reachable_countsUse_iff roomyHeap roomyTaken (by decide) reachable_roomyTaken
  obtain rfl := htiled.unique tiled_roomyTaken
  exact ⟨rfl, hiff.mpr ⟨⟨20, true⟩, rfl, rfl⟩⟩

/-- With its only chunk in use, nothing of the small heap is counted. -/
theorem not_countsUse_smallTaken :
    (heapSystem smallHeap).Reachable (FreesInUse smallHeap) smallTaken ∧
      Tiled smallHeap smallTaken.heap [⟨16, false⟩] ∧
      heapUsage smallHeap 1 smallTaken.heap = .done 0 ∧
      usedBytes smallHeap [⟨16, false⟩] = 28 ∧
      ¬ CountsUse smallHeap smallTaken.heap [⟨16, false⟩] := by
  refine ⟨reachable_smallTaken, tiled_smallTaken, rfl, rfl, ?_⟩
  have hiff := @Tiled.countsUse_iff smallHeap smallTaken.heap [] ⟨16, false⟩ tiled_smallTaken
  exact mt hiff.mp Bool.false_ne_true

end Cyancore.Libc
