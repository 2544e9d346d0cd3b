/-
# What `malloc` answers

`malloc` has one loop to find a chunk and one test to see what to do with it.  The loop
stops on the first free chunk that is large enough, and otherwise on the last chunk of the
chain, large enough or not free; when the last chunk is too small it follows the null
pointer behind it.  The test takes the chunk if its size is the request, or leaves room for
another header, and otherwise gives up, whatever lies further on.

So `malloc` reports correctly in two situations: the first free chunk that is large enough
can be taken, or none can and something stops the loop that cannot be taken either.
-/

import Cyancore.Libc.HeapSafety

namespace Cyancore.Libc

open Cyancore.Math Cyancore.Math.Tiling

variable {c : HeapConfig} {heap heap' : Heap} {blocks front back : List Block} {block : Block}
  {nBytes request ptr : ℕ}

/-! ## Requests and chunks -/

/-- `malloc` takes a chunk of this size when its search stops there. -/
def Fits (c : HeapConfig) (request : ℕ) (block : Block) : Prop :=
  block.size = request ∨ request + c.sizeofChunk < block.size

/-- The chunk is large enough, but a header would not fit into what is left over. -/
def TooTight (c : HeapConfig) (request : ℕ) (block : Block) : Prop :=
  request < block.size ∧ block.size ≤ request + c.sizeofChunk

instance (c : HeapConfig) (request : ℕ) : DecidablePred (Fits c request) := fun _ =>
  inferInstanceAs (Decidable (_ ∨ _))

instance (c : HeapConfig) (request : ℕ) : DecidablePred (TooTight c request) := fun _ =>
  inferInstanceAs (Decidable (_ ∧ _))

theorem not_fits_iff (hle : request ≤ block.size) :
    ¬ Fits c request block ↔ TooTight c request block := by
  simp only [Fits, TooTight]
  omega

/-- The first free chunk that is large enough. -/
def firstFree (request : ℕ) (blocks : List Block) : Option Block :=
  blocks.find? fun block => block.free && decide (request ≤ block.size)

theorem firstFree_cons_of_skip {rest : List Block}
    (hskip : block.free = false ∨ block.size < request) :
    firstFree request (block :: rest) = firstFree request rest := by
  apply List.find?_cons_of_neg
  rcases hskip with hused | hsmall
  · simp [hused]
  · simp [hsmall]

theorem firstFree_cons_of_free {rest : List Block} (hfree : block.free = true)
    (hle : request ≤ block.size) : firstFree request (block :: rest) = some block := by
  apply List.find?_cons_of_pos
  simp [hfree, hle]

/-- The search stops on the first free chunk that is large enough. -/
theorem search_of_firstFree (hfirst : firstFree request blocks = some block) :
    ∃ front back, search request blocks = some (front, block, back) := by
  induction blocks with
  | nil => cases hfirst
  | cons first rest ih =>
      by_cases hstop : first.free = true ∧ request ≤ first.size
      · rw [firstFree_cons_of_free hstop.1 hstop.2] at hfirst
        obtain rfl := Option.some.inj hfirst
        refine ⟨[], rest, ?_⟩
        rw [search, if_neg]
        rintro (hsmall | hused)
        · omega
        · simp [hstop.1] at hused
      · have hskip : first.free = false ∨ first.size < request := by
          rw [not_and_or, Bool.not_eq_true, Nat.not_le] at hstop
          exact hstop
        rw [firstFree_cons_of_skip hskip] at hfirst
        obtain ⟨front, back, hsearch⟩ := ih hfirst
        refine ⟨first :: front, back, ?_⟩
        have hrest : rest ≠ [] := by
          rintro rfl
          cases hfirst
        rw [search, if_pos, hsearch]
        · rfl
        · exact hskip.symm.imp_right fun hused => ⟨hused, hrest⟩

/-- Without one it comes to the last chunk, and through it if that is too small. -/
theorem search_of_no_firstFree (hnone : firstFree request (front ++ [block]) = none) :
    search request (front ++ [block]) =
      if block.size < request then none else some (front, block, []) := by
  induction front with
  | nil => simp [search]
  | cons first front ih =>
      have hskip : first.free = false ∨ first.size < request := by
        by_contra hstop
        rw [not_or, Bool.not_eq_false, Nat.not_lt] at hstop
        rw [List.cons_append, firstFree_cons_of_free hstop.1 hstop.2] at hnone
        cases hnone
      rw [List.cons_append, firstFree_cons_of_skip hskip] at hnone
      rw [List.cons_append, search, if_pos, ih hnone]
      · split <;> rfl
      · exact hskip.symm.imp_right fun hused => ⟨hused, by simp⟩

theorem firstFree_eq_none_iff :
    firstFree request blocks = none ↔
      ∀ block ∈ blocks, block.free = true → block.size < request := by
  simp [firstFree]

theorem mem_of_firstFree (hfirst : firstFree request blocks = some block) :
    block ∈ blocks ∧ block.free = true ∧ request ≤ block.size := by
  have hfound := List.find?_some hfirst
  rw [Bool.and_eq_true, decide_eq_true_iff] at hfound
  exact ⟨List.mem_of_find?_eq_some hfirst, hfound⟩

/-! ## One call -/

/-- The first chunk has no payload. -/
def FirstEmpty (blocks : List Block) : Prop := ∃ block ∈ blocks.head?, block.size = 0

instance (blocks : List Block) : Decidable (FirstEmpty blocks) :=
  inferInstanceAs (Decidable (∃ block ∈ blocks.head?, block.size = 0))

theorem fuelMono_malloc (nBytes : ℕ) (heap : Heap) :
    FuelMono fun fuel => malloc c fuel nBytes heap := by
  by_cases hn : nBytes = 0
  · simp only [malloc, if_pos hn]
    exact fuelMono_const _
  by_cases hnull : heap.freeList = 0
  · simp only [malloc, if_neg hn, if_pos hnull]
    exact fuelMono_const _
  by_cases hsize : chunkSize c heap.mem heap.freeList = 0
  · simp only [malloc, if_neg hn, if_neg hnull, if_pos hsize]
    exact fuelMono_const _
  simp only [malloc, if_neg hn, if_neg hnull, if_neg hsize]
  exact (fuelMono_loop _ _).bind fun _ => fuelMono_const _

namespace Tiled

theorem refusesAtOnce_iff (htiled : Tiled c heap blocks) (hn : nBytes ≠ 0) :
    RefusesAtOnce c heap nBytes ↔ FirstEmpty blocks := by
  obtain ⟨first, rest, rfl⟩ := List.exists_cons_of_ne_nil htiled.ne_nil
  have hheader := htiled.seg.1
  rw [RefusesAtOnce, htiled.freeList_eq, hheader.size_eq, or_iff_right hn]
  simp [FirstEmpty]

/-- What a search that stops on a chunk makes of it. -/
theorem mallocAt_of_fits (htiled : Tiled c heap (front ++ block :: back))
    (hfits : Fits c request block) :
    (mallocAt c heap request (c.heapStart + span c.sizeofChunk front)).1 =
      c.heapStart + span c.sizeofChunk front + c.sizeofChunk := by
  have hend := htiled.end_le
  have hmod : c.heapEnd < c.sizeMod := c.heapEnd_lt
  have hptr : sizeAdd c (c.heapStart + span c.sizeofChunk front) c.sizeofChunk =
      c.heapStart + span c.sizeofChunk front + c.sizeofChunk := sizeAdd_of_lt (by omega)
  rw [mallocAt, htiled.header.size_eq, hptr]
  by_cases hexact : block.size = request
  · rw [if_pos hexact]
  · have hlarge := hfits.resolve_left hexact
    have hsum : sizeAdd c request c.sizeofChunk = request + c.sizeofChunk :=
      sizeAdd_of_lt (by omega)
    rw [if_neg hexact, hsum, if_pos hlarge]

theorem mallocAt_ne_zero (htiled : Tiled c heap (front ++ block :: back))
    (hfits : Fits c request block) :
    (mallocAt c heap request (c.heapStart + span c.sizeofChunk front)).1 ≠ 0 := by
  have hstart := c.heapStart_pos
  rw [htiled.mallocAt_of_fits hfits]
  omega

theorem mallocAt_of_tooTight (htiled : Tiled c heap (front ++ block :: back))
    (htight : TooTight c request block) :
    mallocAt c heap request (c.heapStart + span c.sizeofChunk front) = (0, heap) := by
  have hend := htiled.end_le
  have hmod : c.heapEnd < c.sizeMod := c.heapEnd_lt
  have hlarger := htight.1
  have hclose := htight.2
  have hsum : sizeAdd c request c.sizeofChunk = request + c.sizeofChunk :=
    sizeAdd_of_lt (by omega)
  rw [mallocAt, htiled.header.size_eq, if_neg hlarger.ne', hsum, if_neg (Nat.not_lt.mpr hclose)]

/-- A search that is made and stops decides the call. -/
theorem returns_malloc_of_search (htiled : Tiled c heap blocks) (hn : nBytes ≠ 0)
    (hfirst : ¬ FirstEmpty blocks)
    (hsearch : search (requestSize c nBytes) blocks = some (front, block, back)) :
    Returns (fun fuel => malloc c fuel nBytes heap)
      (mallocAt c heap (requestSize c nBytes) (c.heapStart + span c.sizeofChunk front)) := by
  rw [htiled.returns_malloc_iff, htiled.refusesAtOnce_iff hn]
  exact .inr ⟨hfirst, _, hsearch, rfl⟩

theorem returns_malloc_of_firstEmpty (htiled : Tiled c heap blocks) (hn : nBytes ≠ 0)
    (hfirst : FirstEmpty blocks) : Returns (fun fuel => malloc c fuel nBytes heap) (0, heap) := by
  rw [htiled.returns_malloc_iff, htiled.refusesAtOnce_iff hn]
  exact .inl ⟨hfirst, rfl⟩

end Tiled

/-! ## What the caller is told -/

/-- Some free chunk could be taken. -/
def CanServe (c : HeapConfig) (request : ℕ) (blocks : List Block) : Prop :=
  ∃ block ∈ blocks, block.free = true ∧ Fits c request block

/-- `malloc` returns a block exactly if some free chunk could be taken, and otherwise null
with the heap as it was. -/
def MallocReports (c : HeapConfig) (heap : Heap) (blocks : List Block) (nBytes : ℕ) : Prop :=
  ∃ ptr heap', Returns (fun fuel => malloc c fuel nBytes heap) (ptr, heap') ∧
    (ptr ≠ 0 ↔ CanServe c (requestSize c nBytes) blocks) ∧ (ptr = 0 → heap' = heap)

/-- The first free chunk that is large enough can be taken; or none can, and the first
chunk is empty, or a chunk that is too tight stops the search, be it a free one or the
last. -/
def AnswersRight (c : HeapConfig) (request : ℕ) (blocks : List Block) : Prop :=
  (¬ FirstEmpty blocks ∧ ∃ block ∈ firstFree request blocks, Fits c request block) ∨
    (¬ CanServe c request blocks ∧
      (FirstEmpty blocks ∨ (firstFree request blocks).isSome ∨
        ∃ last ∈ blocks.getLast?, TooTight c request last))

section Reports

theorem canServe_of_firstFree (hfirst : firstFree request blocks = some block)
    (hfits : Fits c request block) : CanServe c request blocks :=
  ⟨block, (mem_of_firstFree hfirst).1, (mem_of_firstFree hfirst).2.1, hfits⟩

theorem not_canServe_of_firstFree (hnone : firstFree request blocks = none) :
    ¬ CanServe c request blocks := by
  rintro ⟨block, hmem, hfree, hfits⟩
  have hsmall := firstFree_eq_none_iff.mp hnone block hmem hfree
  rw [Fits] at hfits
  omega

/-- What a call that returns says, in terms of its result. -/
theorem mallocReports_iff_of_returns
    (hreturns : Returns (fun fuel => malloc c fuel nBytes heap) (ptr, heap')) :
    MallocReports c heap blocks nBytes ↔
      (ptr ≠ 0 ↔ CanServe c (requestSize c nBytes) blocks) ∧ (ptr = 0 → heap' = heap) := by
  constructor
  · rintro ⟨ptr', heap'', hreturns', hright⟩
    have hsame := hreturns.unique (fuelMono_malloc _ _) hreturns'
    rw [Prod.mk.injEq] at hsame
    rwa [hsame.1, hsame.2]
  · exact fun hright => ⟨ptr, heap', hreturns, hright⟩

theorem mallocReports_iff_of_null
    (hreturns : Returns (fun fuel => malloc c fuel nBytes heap) (0, heap)) :
    MallocReports c heap blocks nBytes ↔ ¬ CanServe c (requestSize c nBytes) blocks := by
  rw [mallocReports_iff_of_returns hreturns]
  simp

theorem mallocReports_iff_of_block (hptr : ptr ≠ 0)
    (hreturns : Returns (fun fuel => malloc c fuel nBytes heap) (ptr, heap')) :
    MallocReports c heap blocks nBytes ↔ CanServe c (requestSize c nBytes) blocks := by
  rw [mallocReports_iff_of_returns hreturns]
  simp [hptr]

/-- When `malloc` reports correctly. -/
theorem Tiled.mallocReports_iff (htiled : Tiled c heap blocks) (hn : nBytes ≠ 0) :
    MallocReports c heap blocks nBytes ↔ AnswersRight c (requestSize c nBytes) blocks := by
  rw [AnswersRight]
  by_cases hfirst : FirstEmpty blocks
  · rw [mallocReports_iff_of_null (htiled.returns_malloc_of_firstEmpty hn hfirst)]
    simp [hfirst]
  cases hfree : firstFree (requestSize c nBytes) blocks with
  | some block =>
      obtain ⟨front, back, hsearch⟩ := search_of_firstFree hfree
      obtain ⟨rfl, hle, -⟩ := search_eq_some hsearch
      have hreturns := htiled.returns_malloc_of_search hn hfirst hsearch
      by_cases hfits : Fits c (requestSize c nBytes) block
      · rw [mallocReports_iff_of_block (htiled.mallocAt_ne_zero hfits) hreturns]
        exact iff_of_true (canServe_of_firstFree hfree hfits) (.inl ⟨hfirst, block, rfl, hfits⟩)
      · rw [htiled.mallocAt_of_tooTight ((not_fits_iff hle).mp hfits)] at hreturns
        rw [mallocReports_iff_of_null hreturns]
        simp [hfits]
  | none =>
      have hserve := not_canServe_of_firstFree (c := c) hfree
      obtain ⟨front, last, rfl⟩ := List.eq_nil_or_concat' blocks |>.resolve_left htiled.ne_nil
      have hsearch := search_of_no_firstFree hfree
      by_cases hsmall : last.size < requestSize c nBytes
      · rw [if_pos hsmall] at hsearch
        have hspins : ¬ MallocReports c heap (front ++ [last]) nBytes := by
          rintro ⟨ptr, heap', hreturns, -⟩
          rw [htiled.returns_malloc_iff, htiled.refusesAtOnce_iff hn] at hreturns
          simp [hfirst, hsearch] at hreturns
        refine iff_of_false hspins ?_
        simp only [hfirst, TooTight]
        simp
        omega
      · rw [if_neg hsmall] at hsearch
        have hreturns := htiled.returns_malloc_of_search hn hfirst hsearch
        by_cases hfits : Fits c (requestSize c nBytes) last
        · rw [mallocReports_iff_of_block (htiled.mallocAt_ne_zero hfits) hreturns]
          have htight := mt (not_fits_iff (c := c) (Nat.not_lt.mp hsmall)).mpr (not_not.mpr hfits)
          simp [hserve, hfirst, htight]
        · have htight := (not_fits_iff (Nat.not_lt.mp hsmall)).mp hfits
          rw [htiled.mallocAt_of_tooTight htight] at hreturns
          rw [mallocReports_iff_of_null hreturns]
          simp [hserve, htight]

/-- In every run that frees in-use chunks only, `malloc` reports correctly exactly if the
chain answers right. -/
theorem reachable_mallocReports_iff {run : HeapRun}
    (hroom : c.sizeofChunk < c.heapEnd - c.heapStart)
    (hreach : (heapSystem c).Reachable (FreesInUse c) run) (hn : nBytes ≠ 0) :
    ∃ blocks, Tiled c run.heap blocks ∧
      (MallocReports c run.heap blocks nBytes ↔
        AnswersRight c (requestSize c nBytes) blocks) := by
  obtain ⟨blocks, hinv⟩ := exists_listInv_of_reachable hroom hreach
  exact ⟨blocks, hinv.tiled, hinv.tiled.mallocReports_iff hn⟩

end Reports

/-- The small heap starts as one chunk of sixteen bytes. -/
theorem tiled_smallStart : Tiled smallHeap smallStart.heap [⟨16, true⟩] :=
  tiled_platformInitHeap _ (by decide)

theorem tiled_smallTaken : Tiled smallHeap smallTaken.heap [⟨16, false⟩] :=
  @Tiled.mark smallHeap smallStart.heap [] [] ⟨16, true⟩ tiled_smallStart false

theorem reachable_smallTaken :
    (heapSystem smallHeap).Reachable (FreesInUse smallHeap) smallTaken := by
  have hguard : FreesInUse smallHeap (.malloc 12) smallStart := trivial
  exact .step (.start smallStart_init) hguard smallStart_malloc

/-- Requests to the chain once a chunk is cut off, and once it is joined again. -/
theorem mallocReports_roomyMended : ∃ mended : HeapRun,
    HeapStep roomyHeap (.free 4108) roomyTaken mended ∧
      MallocReports roomyHeap roomyTaken.heap [⟨8, false⟩, ⟨20, true⟩] 16 ∧
      MallocReports roomyHeap mended.heap [⟨40, true⟩] 12 := by
  obtain ⟨mended, hstep, htiled, hreach⟩ := exists_roomyMended
  refine ⟨mended, hstep, ?_, ?_⟩
  · obtain ⟨blocks, htiled', hiff⟩ :=
      @reachable_mallocReports_iff roomyHeap 16 _ (by decide) reachable_roomyTaken (by decide)
    obtain rfl := htiled'.unique tiled_roomyTaken
    exact hiff.mpr (.inl ⟨by decide, ⟨20, true⟩, rfl, by decide⟩)
  · obtain ⟨blocks, htiled', hiff⟩ :=
      @reachable_mallocReports_iff roomyHeap 12 _ (by decide) hreach (by decide)
    obtain rfl := htiled'.unique htiled
    exact hiff.mpr (.inl ⟨by decide, ⟨40, true⟩, rfl, by decide⟩)

/-- With the small heap in use, a request of twenty bytes runs off the chain. -/
theorem not_mallocReports_smallTaken :
    (heapSystem smallHeap).Reachable (FreesInUse smallHeap) smallTaken ∧
      Tiled smallHeap smallTaken.heap [⟨16, false⟩] ∧
      malloc smallHeap 2 20 smallTaken.heap = .fault .nullDeref ∧
      ¬ MallocReports smallHeap smallTaken.heap [⟨16, false⟩] 20 := by
  refine ⟨reachable_smallTaken, tiled_smallTaken, rfl, ?_⟩
  have hrequest : requestSize smallHeap 20 = 24 := by decide
  rw [tiled_smallTaken.mallocReports_iff (by decide), hrequest]
  simp [AnswersRight, FirstEmpty, firstFree, TooTight]

end Cyancore.Libc
