/-
# The chunk chain as a tiling

`malloc_lite.c` walks its chunks through `next` pointers in memory; the algebra
of tilings talks about lists of blocks.  `Seg` says that memory holds the
headers of a given list, and `Tiled` that the chain from `freeList` is a list
that fills the heap.  Every operation is then read off on lists: each of the
lemmas below states what one function does to the represented list and which
bytes it leaves alone.
-/

import Cyancore.Libc.MallocLite
import Cyancore.Math.Tiling

namespace Cyancore.Libc

open Cyancore.Math Cyancore.Math.Tiling

variable {c : HeapConfig} {mem mem' : Memory}

namespace HeapConfig

theorem freeBytes_pos (c : HeapConfig) : 0 < c.freeBytes := by
  have hword := c.word_pos
  rw [freeBytes]
  split <;> omega

theorem sizeofChunk_pos (c : HeapConfig) : 0 < c.sizeofChunk := by
  have hword := c.word_pos
  rw [sizeofChunk]
  omega

theorem one_lt_pow_freeBytes (c : HeapConfig) : 1 < 256 ^ c.freeBytes :=
  Nat.one_lt_pow c.freeBytes_pos.ne' (by decide)

end HeapConfig

/-! ## Header fields

A header occupies the bytes from its address up to `sizeofChunk`.  Writing one
field changes that field only, and nothing outside the header. -/

section Fields

variable {chunk a value : ℕ}

theorem setChunkSize_of_outside (houtside : a < chunk ∨ chunk + c.sizeofChunk ≤ a) :
    setChunkSize c mem chunk value a = mem a := by
  apply Memory.store_of_outside
  rw [HeapConfig.sizeofChunk] at houtside
  omega

theorem setChunkFree_of_outside (houtside : a < chunk ∨ chunk + c.sizeofChunk ≤ a) :
    setChunkFree c mem chunk value a = mem a := by
  apply Memory.store_of_outside
  rw [HeapConfig.sizeofChunk, HeapConfig.nextOffset] at houtside
  omega

theorem setChunkNext_of_outside (houtside : a < chunk ∨ chunk + c.sizeofChunk ≤ a) :
    setChunkNext c mem chunk value a = mem a := by
  apply Memory.store_of_outside
  rw [HeapConfig.sizeofChunk] at houtside
  omega

theorem chunkSize_setChunkSize (hfits : value < c.sizeMod) :
    chunkSize c (setChunkSize c mem chunk value) chunk = value :=
  Memory.load_store_of_lt hfits

theorem chunkSize_setChunkFree :
    chunkSize c (setChunkFree c mem chunk value) chunk = chunkSize c mem chunk :=
  Memory.load_store_of_disjoint (by omega)

theorem chunkSize_setChunkNext :
    chunkSize c (setChunkNext c mem chunk value) chunk = chunkSize c mem chunk :=
  Memory.load_store_of_disjoint (by rw [HeapConfig.nextOffset]; omega)

theorem chunkFree_setChunkSize :
    chunkFree c (setChunkSize c mem chunk value) chunk = chunkFree c mem chunk :=
  Memory.load_store_of_disjoint (by omega)

theorem chunkFree_setChunkFree (hfits : value < 256 ^ c.freeBytes) :
    chunkFree c (setChunkFree c mem chunk value) chunk = value :=
  Memory.load_store_of_lt hfits

theorem chunkFree_setChunkNext :
    chunkFree c (setChunkNext c mem chunk value) chunk = chunkFree c mem chunk :=
  Memory.load_store_of_disjoint (by rw [HeapConfig.nextOffset]; omega)

theorem chunkNext_setChunkSize :
    chunkNext c (setChunkSize c mem chunk value) chunk = chunkNext c mem chunk :=
  Memory.load_store_of_disjoint (by rw [HeapConfig.nextOffset]; omega)

theorem chunkNext_setChunkFree :
    chunkNext c (setChunkFree c mem chunk value) chunk = chunkNext c mem chunk :=
  Memory.load_store_of_disjoint (by rw [HeapConfig.nextOffset]; omega)

theorem chunkNext_setChunkNext (hfits : value < c.sizeMod) :
    chunkNext c (setChunkNext c mem chunk value) chunk = value :=
  Memory.load_store_of_lt hfits

end Fields

/-- Memory holds at `chunk` the header of `block` with the given `next` pointer. -/
structure Header (c : HeapConfig) (mem : Memory) (chunk : ℕ) (block : Block) (next : ℕ) :
    Prop where
  size_eq : chunkSize c mem chunk = block.size
  free_eq : chunkFree c mem chunk = if block.free then 1 else 0
  next_eq : chunkNext c mem chunk = next

/-- A header is read from its own bytes. -/
theorem Header.congr {chunk next : ℕ} {block : Block} (hheader : Header c mem chunk block next)
    (hagree : ∀ a, chunk ≤ a → a < chunk + c.sizeofChunk → mem' a = mem a) :
    Header c mem' chunk block next := by
  simp only [HeapConfig.sizeofChunk, HeapConfig.nextOffset] at hagree
  refine ⟨?_, ?_, ?_⟩
  · rw [← hheader.size_eq]
    exact Memory.load_congr fun a _ _ => hagree a (by omega) (by omega)
  · rw [← hheader.free_eq]
    exact Memory.load_congr fun a _ _ => hagree a (by omega) (by omega)
  · rw [← hheader.next_eq]
    refine Memory.load_congr fun a _ _ => hagree a (by omega) ?_
    simp only [HeapConfig.nextOffset] at *
    omega

theorem Header.free_ne_zero_iff {chunk next : ℕ} {block : Block}
    (hheader : Header c mem chunk block next) :
    chunkFree c mem chunk ≠ 0 ↔ block.free = true := by
  rw [hheader.free_eq]
  cases block.free <;> simp

/-- The three stores that make a header. -/
def putHeader (c : HeapConfig) (mem : Memory) (chunk size free next : ℕ) : Memory :=
  setChunkNext c (setChunkFree c (setChunkSize c mem chunk size) chunk free) chunk next

theorem putHeader_of_outside {chunk size free next a : ℕ}
    (houtside : a < chunk ∨ chunk + c.sizeofChunk ≤ a) :
    putHeader c mem chunk size free next a = mem a := by
  rw [putHeader, setChunkNext_of_outside houtside, setChunkFree_of_outside houtside,
    setChunkSize_of_outside houtside]

theorem header_putHeader {chunk size next : ℕ} (free : Bool) (hsize : size < c.sizeMod)
    (hnext : next < c.sizeMod) :
    Header c (putHeader c mem chunk size (if free then 1 else 0) next) chunk ⟨size, free⟩ next := by
  have hone := c.one_lt_pow_freeBytes
  have hflag : (if free then 1 else 0) < 256 ^ c.freeBytes := by
    split <;> omega
  refine ⟨?_, ?_, ?_⟩
  · rw [putHeader, chunkSize_setChunkNext, chunkSize_setChunkFree, chunkSize_setChunkSize hsize]
  · rw [putHeader, chunkFree_setChunkNext, chunkFree_setChunkFree hflag]
  · rw [putHeader, chunkNext_setChunkNext hnext]

/-! ## Chains of headers -/

/-- Memory holds, from address `a` on, the headers of `blocks` one behind the
other; the last one's `next` is `last`. -/
def Seg (c : HeapConfig) (mem : Memory) : ℕ → List Block → ℕ → Prop
  | _, [], _ => True
  | a, block :: rest, last =>
      Header c mem a block (if rest = [] then last else a + (c.sizeofChunk + block.size)) ∧
        Seg c mem (a + (c.sizeofChunk + block.size)) rest last

/-- The pointer to a chain that starts at `a`: null when it has no chunk. -/
def entry (a : ℕ) (blocks : List Block) : ℕ := if blocks = [] then 0 else a

@[simp]
theorem entry_nil (a : ℕ) : entry a [] = 0 := rfl

@[simp]
theorem entry_cons (a : ℕ) (block : Block) (rest : List Block) :
    entry a (block :: rest) = a := by simp [entry]

theorem seg_append {a last : ℕ} {front back : List Block} :
    Seg c mem a (front ++ back) last ↔
      Seg c mem a front (if back = [] then last else a + span c.sizeofChunk front) ∧
        Seg c mem (a + span c.sizeofChunk front) back last := by
  induction front generalizing a with
  | nil => simp [Seg]
  | cons block rest ih =>
      have haddr : a + (c.sizeofChunk + block.size) + span c.sizeofChunk rest =
          a + span c.sizeofChunk (block :: rest) := by
        rw [span_cons]
        omega
      simp only [List.cons_append, Seg, ih, haddr, List.append_eq_nil_iff, and_assoc]
      cases rest with
      | nil => by_cases hback : back = [] <;> simp [hback]
      | cons second rest => simp

/-- A chain is read from its headers. -/
theorem Seg.congr_headers {a last : ℕ} {blocks : List Block} (hseg : Seg c mem a blocks last)
    (hagree : ∀ entry ∈ layout c.sizeofChunk a blocks, ∀ x, entry.1 ≤ x →
      x < entry.1 + c.sizeofChunk → mem' x = mem x) :
    Seg c mem' a blocks last := by
  induction blocks generalizing a with
  | nil => trivial
  | cons block rest ih =>
      refine ⟨hseg.1.congr (hagree (a, block) List.mem_cons_self), ih hseg.2 ?_⟩
      exact fun entry hentry => hagree entry (List.mem_cons_of_mem _ hentry)

/-- A chain is read from the bytes it spans. -/
theorem Seg.congr {a last : ℕ} {blocks : List Block} (hseg : Seg c mem a blocks last)
    (hagree : ∀ x, a ≤ x → x < a + span c.sizeofChunk blocks → mem' x = mem x) :
    Seg c mem' a blocks last := by
  apply hseg.congr_headers
  intro entry hentry x hle hlt
  have hbounds := layout_bounds hentry
  exact hagree x (by omega) (by omega)

/-- The headers tell the blocks of a stretch. -/
theorem Seg.unique {a last last' : ℕ} {blocks blocks' : List Block}
    (hseg : Seg c mem a blocks last) (hseg' : Seg c mem a blocks' last')
    (hspan : span c.sizeofChunk blocks = span c.sizeofChunk blocks') : blocks = blocks' := by
  have hpos := c.sizeofChunk_pos
  induction blocks generalizing a blocks' with
  | nil =>
      cases blocks' with
      | nil => rfl
      | cons block rest =>
          rw [span_cons, span_nil] at hspan
          omega
  | cons block rest ih =>
      cases blocks' with
      | nil =>
          rw [span_cons, span_nil] at hspan
          omega
      | cons block' rest' =>
          have hsize : block.size = block'.size := hseg.1.size_eq.symm.trans hseg'.1.size_eq
          have hfree : block.free = block'.free := Bool.eq_iff_iff.mpr
            (hseg.1.free_ne_zero_iff.symm.trans hseg'.1.free_ne_zero_iff)
          have hblock : block = block' := by
            cases block
            cases block'
            simp_all
          subst hblock
          rw [span_cons, span_cons] at hspan
          rw [ih hseg.2 hseg'.2 (by omega)]

/-- Rewriting a stretch of a chain inside its own bytes leaves the rest of the chain. -/
theorem Seg.replace {a last : ℕ} {front mid mid' back : List Block}
    (hseg : Seg c mem a (front ++ (mid ++ back)) last) (hmid : mid ≠ []) (hmid' : mid' ≠ [])
    (hspan : span c.sizeofChunk mid' = span c.sizeofChunk mid)
    (hagree : ∀ x, x < a + span c.sizeofChunk front ∨
      a + span c.sizeofChunk front + span c.sizeofChunk mid ≤ x → mem' x = mem x)
    (hnew : Seg c mem' (a + span c.sizeofChunk front) mid'
      (if back = [] then last
        else a + span c.sizeofChunk front + span c.sizeofChunk mid)) :
    Seg c mem' a (front ++ (mid' ++ back)) last := by
  rw [seg_append, seg_append] at hseg ⊢
  obtain ⟨hfront, -, hback⟩ := hseg
  rw [hspan]
  refine ⟨?_, hnew, hback.congr fun x hx _ => hagree x (.inr hx)⟩
  simp only [List.append_eq_nil_iff, hmid, hmid', false_and, if_false] at hfront ⊢
  exact hfront.congr fun x _ hx => hagree x (.inl hx)

/-- The chain from `freeList` consists of `blocks` and fills the heap. -/
structure Tiled (c : HeapConfig) (heap : Heap) (blocks : List Block) : Prop where
  ne_nil : blocks ≠ []
  freeList_eq : heap.freeList = c.heapStart
  span_eq : c.heapStart + span c.sizeofChunk blocks = c.heapEnd
  seg : Seg c heap.mem c.heapStart blocks 0

namespace Tiled

variable {heap : Heap} {blocks front back : List Block} {block : Block}

theorem lt_sizeMod (htiled : Tiled c heap blocks) :
    c.heapStart + span c.sizeofChunk blocks < c.sizeMod := by
  rw [htiled.span_eq]
  exact c.heapEnd_lt

/-- A heap has one chain. -/
theorem unique {blocks' : List Block} (htiled : Tiled c heap blocks)
    (htiled' : Tiled c heap blocks') : blocks = blocks' :=
  htiled.seg.unique htiled'.seg (Nat.add_left_cancel (htiled.span_eq.trans htiled'.span_eq.symm))

/-- Whatever leaves the headers leaves the chain. -/
theorem congr_headers (htiled : Tiled c heap blocks)
    (hagree : ∀ entry ∈ layout c.sizeofChunk c.heapStart blocks, ∀ x, entry.1 ≤ x →
      x < entry.1 + c.sizeofChunk → mem' x = heap.mem x) :
    Tiled c ⟨mem', heap.freeList⟩ blocks :=
  ⟨htiled.ne_nil, htiled.freeList_eq, htiled.span_eq, htiled.seg.congr_headers hagree⟩

/-- The header of any chunk of the chain. -/
theorem header (htiled : Tiled c heap (front ++ block :: back)) :
    Header c heap.mem (c.heapStart + span c.sizeofChunk front) block
      (entry (c.heapStart + span c.sizeofChunk front + (c.sizeofChunk + block.size)) back) :=
  (seg_append.mp htiled.seg).2.1

/-- No chunk reaches beyond the heap. -/
theorem end_le (htiled : Tiled c heap (front ++ block :: back)) :
    c.heapStart + span c.sizeofChunk front + (c.sizeofChunk + block.size) ≤ c.heapEnd := by
  have hspan := htiled.span_eq
  rw [span_append, span_cons] at hspan
  omega

end Tiled

/-! ## Initialisation -/

theorem sizeSub_of_le {a b : ℕ} (hle : b ≤ a) (hlt : a < c.sizeMod) :
    sizeSub c a b = a - b := by
  rw [sizeSub, Nat.mod_eq_of_lt (lt_of_le_of_lt hle hlt),
    show a + (c.sizeMod - b) = a - b + c.sizeMod by omega, Nat.add_mod_right,
    Nat.mod_eq_of_lt (by omega)]

theorem sizeAdd_of_lt {a b : ℕ} (hlt : a + b < c.sizeMod) : sizeAdd c a b = a + b :=
  Nat.mod_eq_of_lt hlt

/-- A heap that has room for a header starts as one free chunk. -/
theorem tiled_platformInitHeap (mem : Memory)
    (hroom : c.sizeofChunk ≤ c.heapEnd - c.heapStart) :
    Tiled c (platformInitHeap c mem) [⟨c.heapEnd - c.heapStart - c.sizeofChunk, true⟩] := by
  have hend : c.heapEnd < c.sizeMod := c.heapEnd_lt
  have hstart := c.heapStart_le
  have hsz : sizeSub c c.heapEnd c.heapStart = c.heapEnd - c.heapStart :=
    sizeSub_of_le hstart hend
  have hsize : sizeSub c (c.heapEnd - c.heapStart) c.sizeofChunk =
      c.heapEnd - c.heapStart - c.sizeofChunk := sizeSub_of_le hroom (by omega)
  refine ⟨by simp, rfl, by simp only [span_cons, span_nil]; omega, ?_, trivial⟩
  simp only [platformInitHeap, hsz, hsize, if_true]
  exact header_putHeader true (by omega) (by omega)

/-! ## Merging -/

/-- A turn at a chunk whose successor is also free joins the two and goes on behind them. -/
theorem mergeTurn_of_free {a : ℕ} {block succ : Block} {rest : List Block}
    (hseg : Seg c mem a (block :: succ :: rest) 0) (hpos : 0 < a)
    (hlt : a + span c.sizeofChunk (block :: succ :: rest) < c.sizeMod)
    (hblock : block.free = true) (hsucc : succ.free = true) :
    ∃ mem',
      mergeTurn c (a, mem) = .done (.next
        (entry (a + (c.sizeofChunk + (block.size + (succ.size + c.sizeofChunk)))) rest, mem')) ∧
      Header c mem' a ⟨block.size + (succ.size + c.sizeofChunk), true⟩
        (entry (a + (c.sizeofChunk + (block.size + (succ.size + c.sizeofChunk)))) rest) ∧
      ∀ x, x < a ∨ a + c.sizeofChunk ≤ x → mem' x = mem x := by
  obtain ⟨hfirst, hsecond, -⟩ := hseg
  simp only [reduceCtorEq, if_false] at hfirst
  simp only [span_cons] at hlt
  have hthird : a + (c.sizeofChunk + block.size) + (c.sizeofChunk + succ.size) =
      a + (c.sizeofChunk + (block.size + (succ.size + c.sizeofChunk))) := by omega
  rw [hthird] at hsecond
  have hnext : chunkNext c mem (a + (c.sizeofChunk + block.size)) =
      entry (a + (c.sizeofChunk + (block.size + (succ.size + c.sizeofChunk)))) rest :=
    hsecond.next_eq
  have hentry : entry (a + (c.sizeofChunk + (block.size + (succ.size + c.sizeofChunk)))) rest <
      c.sizeMod := by
    rw [entry]
    split <;> omega
  have hsum : sizeAdd c block.size (sizeAdd c succ.size c.sizeofChunk) =
      block.size + (succ.size + c.sizeofChunk) := by
    have hinner : sizeAdd c succ.size c.sizeofChunk = succ.size + c.sizeofChunk :=
      sizeAdd_of_lt (by omega)
    rw [hinner]
    exact sizeAdd_of_lt (by omega)
  -- the successor's header is untouched by the new size of this one
  have hkept : chunkNext c
      (setChunkSize c mem a (block.size + (succ.size + c.sizeofChunk)))
      (a + (c.sizeofChunk + block.size)) = chunkNext c mem (a + (c.sizeofChunk + block.size)) :=
    (hsecond.congr fun x hx _ => setChunkSize_of_outside (.inr (by omega))).next_eq.trans
      hnext.symm
  refine ⟨setChunkNext c (setChunkSize c mem a (block.size + (succ.size + c.sizeofChunk))) a
      (entry (a + (c.sizeofChunk + (block.size + (succ.size + c.sizeofChunk)))) rest),
    ?_, ⟨?_, ?_, ?_⟩, ?_⟩
  · have hguard : a ≠ 0 ∧ a + (c.sizeofChunk + block.size) ≠ 0 := by omega
    have hboth : chunkFree c mem a ≠ 0 ∧ chunkFree c mem (a + (c.sizeofChunk + block.size)) ≠ 0 :=
      ⟨hfirst.free_ne_zero_iff.mpr hblock, hsecond.free_ne_zero_iff.mpr hsucc⟩
    simp only [mergeTurn, hfirst.next_eq, if_pos hguard, if_pos hboth, hfirst.size_eq,
      hsecond.size_eq, hsum, chunkNext_setChunkSize, hkept, hnext, chunkNext_setChunkNext hentry]
  · rw [chunkSize_setChunkNext, chunkSize_setChunkSize (by omega)]
  · rw [chunkFree_setChunkNext, chunkFree_setChunkSize, hfirst.free_eq]
    simp [hblock]
  · rw [chunkNext_setChunkNext hentry]
  · intro x hx
    rw [setChunkNext_of_outside hx, setChunkSize_of_outside hx]

/-- A turn at a chunk that cannot be joined moves on to its successor. -/
theorem mergeTurn_of_not_free {a : ℕ} {block succ : Block} {rest : List Block}
    (hseg : Seg c mem a (block :: succ :: rest) 0) (hpos : 0 < a)
    (hpair : ¬ (block.free = true ∧ succ.free = true)) :
    mergeTurn c (a, mem) = .done (.next (a + (c.sizeofChunk + block.size), mem)) := by
  obtain ⟨hfirst, hsecond, -⟩ := hseg
  simp only [reduceCtorEq, if_false] at hfirst
  have hguard : a ≠ 0 ∧ a + (c.sizeofChunk + block.size) ≠ 0 := by omega
  have hnot : ¬ (chunkFree c mem a ≠ 0 ∧
      chunkFree c mem (a + (c.sizeofChunk + block.size)) ≠ 0) := by
    rw [hfirst.free_ne_zero_iff, hsecond.free_ne_zero_iff]
    exact hpair
  simp only [mergeTurn, hfirst.next_eq, if_pos hguard, if_neg hnot]

/-- The bytes of the headers of free chunks. -/
def InFreeHeader (c : HeapConfig) (a : ℕ) (blocks : List Block) (x : ℕ) : Prop :=
  ∃ entry ∈ layout c.sizeofChunk a blocks, entry.2.free = true ∧
    entry.1 ≤ x ∧ x < entry.1 + c.sizeofChunk

theorem inFreeHeader_cons {a x : ℕ} {block : Block} {rest : List Block} :
    InFreeHeader c a (block :: rest) x ↔
      (block.free = true ∧ a ≤ x ∧ x < a + c.sizeofChunk) ∨
        InFreeHeader c (a + (c.sizeofChunk + block.size)) rest x := by
  simp [InFreeHeader, layout]

/-- Headers lie within the chain's bytes. -/
theorem not_inFreeHeader_of_outside {a x : ℕ} {blocks : List Block}
    (houtside : x < a ∨ a + span c.sizeofChunk blocks ≤ x) : ¬ InFreeHeader c a blocks x := by
  rintro ⟨entry, hentry, -, hle, hlt⟩
  have hbounds := layout_bounds hentry
  omega

/-- The loop of `merge` is one coalescing pass, and touches only the headers of free chunks. -/
theorem returns_mergeLoop {a : ℕ} {blocks : List Block} (hseg : Seg c mem a blocks 0)
    (hpos : 0 < a) (hlt : a + span c.sizeofChunk blocks < c.sizeMod) :
    ∃ mem', Returns (fun fuel => loop (mergeTurn c) fuel (entry a blocks, mem)) mem' ∧
      Seg c mem' a (coalesce c.sizeofChunk blocks) 0 ∧
      ∀ x, ¬ InFreeHeader c a blocks x → mem' x = mem x := by
  induction blocks using (coalesce.induct) generalizing a mem with
  | case1 =>
      refine ⟨mem, ?_, hseg, fun _ _ => rfl⟩
      exact (returns_loop_of_exit (by simp [mergeTurn])).mpr rfl
  | case2 block =>
      refine ⟨mem, ?_, hseg, fun _ _ => rfl⟩
      have hnext : chunkNext c mem a = 0 := hseg.1.next_eq
      exact (returns_loop_of_exit (by simp [mergeTurn, hnext])).mpr rfl
  | case3 block succ rest hpair ih =>
      obtain ⟨mem₁, hturn, hheader, hkept⟩ :=
        mergeTurn_of_free hseg hpos hlt hpair.1 hpair.2
      have haddr : a + (c.sizeofChunk + block.size) + (c.sizeofChunk + succ.size) =
          a + (c.sizeofChunk + (block.size + (succ.size + c.sizeofChunk))) := by omega
      have hrest : Seg c mem₁
          (a + (c.sizeofChunk + (block.size + (succ.size + c.sizeofChunk)))) rest 0 := by
        rw [← haddr]
        exact hseg.2.2.congr fun x hx _ => hkept x (.inr (by omega))
      simp only [span_cons] at hlt
      obtain ⟨mem₂, hreturns, hseg₂, hkept₂⟩ := ih hrest (by omega) (by omega)
      refine ⟨mem₂, ?_, ?_, ?_⟩
      · rw [entry_cons]
        exact (returns_loop_of_next hturn).mpr hreturns
      · rw [coalesce_cons_of_free hpair.1 hpair.2]
        refine ⟨?_, hseg₂⟩
        have hlast : (if coalesce c.sizeofChunk rest = [] then 0 else
            a + (c.sizeofChunk + (block.size + (succ.size + c.sizeofChunk)))) =
            entry (a + (c.sizeofChunk + (block.size + (succ.size + c.sizeofChunk)))) rest := by
          simp only [entry, coalesce_eq_nil_iff]
        rw [hlast]
        exact hheader.congr fun x _ _ => hkept₂ x (not_inFreeHeader_of_outside (.inl (by omega)))
      · intro x hx
        rw [inFreeHeader_cons, inFreeHeader_cons, haddr] at hx
        simp only [not_or, not_and, not_lt] at hx
        rw [hkept₂ x hx.2.2, hkept x (by have hfirst := hx.1 hpair.1; omega)]
  | case4 block succ rest hpair ih =>
      have hturn := mergeTurn_of_not_free hseg hpos hpair
      simp only [span_cons] at hlt ih
      obtain ⟨mem₂, hreturns, hseg₂, hkept₂⟩ := ih hseg.2 (by omega) (by omega)
      refine ⟨mem₂, ?_, ?_, ?_⟩
      · rw [entry_cons]
        rw [entry_cons] at hreturns
        exact (returns_loop_of_next hturn).mpr hreturns
      · rw [coalesce_cons_of_not_free hpair]
        refine ⟨?_, hseg₂⟩
        have hheader := hseg.1
        simp only [reduceCtorEq, if_false] at hheader
        simp only [coalesce_eq_nil_iff, reduceCtorEq, if_false]
        exact hheader.congr fun x _ _ => hkept₂ x (not_inFreeHeader_of_outside (.inl (by omega)))
      · intro x hx
        rw [inFreeHeader_cons, not_or] at hx
        exact hkept₂ x hx.2

/-- `merge` returns and performs one coalescing pass. -/
theorem Tiled.returns_merge {heap : Heap} {blocks : List Block} (htiled : Tiled c heap blocks) :
    ∃ heap', Returns (fun fuel => merge c fuel heap) heap' ∧
      Tiled c heap' (coalesce c.sizeofChunk blocks) ∧
      ∀ x, ¬ InFreeHeader c c.heapStart blocks x → heap'.mem x = heap.mem x := by
  obtain ⟨mem', hreturns, hseg, hkept⟩ :=
    returns_mergeLoop htiled.seg c.heapStart_pos htiled.lt_sizeMod
  refine ⟨{ heap with mem := mem' }, ?_, ⟨?_, htiled.freeList_eq, ?_, hseg⟩, hkept⟩
  · obtain ⟨fuel, hfuel⟩ := hreturns
    have hentry : entry c.heapStart blocks = heap.freeList := by
      rw [entry, if_neg htiled.ne_nil, htiled.freeList_eq]
    dsimp only at hfuel
    rw [hentry] at hfuel
    exact ⟨fuel, by simp [merge, hfuel]⟩
  · rw [ne_eq, coalesce_eq_nil_iff]
    exact htiled.ne_nil
  · rw [span_coalesce, htiled.span_eq]

/-- Coalescing adds no header of a free chunk. -/
theorem inFreeHeader_of_coalesce {a x : ℕ} {blocks : List Block}
    (hinside : InFreeHeader c a (coalesce c.sizeofChunk blocks) x) : InFreeHeader c a blocks x := by
  induction blocks using (coalesce.induct) generalizing a with
  | case1 => exact hinside
  | case2 block => exact hinside
  | case3 block succ rest hpair ih =>
      have haddr : a + (c.sizeofChunk + block.size) + (c.sizeofChunk + succ.size) =
          a + (c.sizeofChunk + (block.size + (succ.size + c.sizeofChunk))) := by omega
      rw [coalesce_cons_of_free hpair.1 hpair.2, inFreeHeader_cons] at hinside
      rw [inFreeHeader_cons, inFreeHeader_cons, haddr]
      cases hinside with
      | inl hfirst => exact .inl ⟨hpair.1, hfirst.2⟩
      | inr hrest => exact .inr (.inr (ih hrest))
  | case4 block succ rest hpair ih =>
      rw [coalesce_cons_of_not_free hpair, inFreeHeader_cons] at hinside
      rw [inFreeHeader_cons]
      exact hinside.imp_right ih

theorem fuelMono_merge (heap : Heap) : FuelMono fun fuel => merge c fuel heap :=
  (fuelMono_loop _ _).bind fun _ => fuelMono_const _

/-! ## Rewriting one chunk -/

/-- Marking a chunk changes its flag in the represented list. -/
theorem Tiled.mark {heap : Heap} {front back : List Block} {block : Block}
    (htiled : Tiled c heap (front ++ block :: back)) (free : Bool) :
    Tiled c
      ⟨setChunkFree c heap.mem (c.heapStart + span c.sizeofChunk front) (if free then 1 else 0),
        heap.freeList⟩
      (front ++ ⟨block.size, free⟩ :: back) := by
  have hheader := htiled.header
  have hflag : (if free then 1 else 0) < 256 ^ c.freeBytes := by
    have hone := c.one_lt_pow_freeBytes
    split <;> omega
  refine ⟨by simp, htiled.freeList_eq, ?_, ?_⟩
  · have hspan := htiled.span_eq
    simp only [span_append, span_cons] at hspan ⊢
    exact hspan
  · have hmid : span c.sizeofChunk [⟨block.size, free⟩] = span c.sizeofChunk [block] := by
      simp only [span_cons, span_nil]
    refine Seg.replace htiled.seg (List.cons_ne_nil block []) (List.cons_ne_nil _ []) hmid ?_
      ⟨⟨?_, ?_, ?_⟩, trivial⟩
    · intro x hx
      simp only [span_cons, span_nil] at hx
      exact setChunkFree_of_outside (by omega)
    · rw [chunkSize_setChunkFree, hheader.size_eq]
    · rw [chunkFree_setChunkFree hflag]
    · rw [chunkNext_setChunkFree, hheader.next_eq]
      simp [entry]

/-- Splitting a chunk with room for another header writes two headers: that of the new chunk
behind it, and its own. -/
theorem split_eq_putHeader {a size next : ℕ} {block : Block}
    (hheader : Header c mem a block next) (hroom : size + c.sizeofChunk < block.size)
    (hend : a + (c.sizeofChunk + block.size) < c.sizeMod) :
    split c mem a size =
      putHeader c (putHeader c mem (a + (c.sizeofChunk + size))
        (block.size - size - c.sizeofChunk) 1 next) a size 0 (a + (c.sizeofChunk + size)) := by
  have hnewPtr : sizeAdd c (sizeAdd c a size) c.sizeofChunk = a + (c.sizeofChunk + size) := by
    have hinner : sizeAdd c a size = a + size := sizeAdd_of_lt (by omega)
    rw [hinner, sizeAdd_of_lt (by omega)]
    omega
  have hrest : sizeSub c (sizeSub c block.size size) c.sizeofChunk =
      block.size - size - c.sizeofChunk := by
    have hinner : sizeSub c block.size size = block.size - size :=
      sizeSub_of_le (by omega) (by omega)
    rw [hinner, sizeSub_of_le (by omega) (by omega)]
  -- the chunk's own header is still intact when the new header copies its `next`
  have hcopied : chunkNext c (setChunkFree c (setChunkSize c mem (a + (c.sizeofChunk + size))
      (block.size - size - c.sizeofChunk)) (a + (c.sizeofChunk + size)) 1) a = next :=
    (hheader.congr fun x _ _ => by
      rw [setChunkFree_of_outside (.inl (by omega)),
        setChunkSize_of_outside (.inl (by omega))]).next_eq
  simp only [split, putHeader, hnewPtr, hheader.size_eq, hrest, hcopied]

/-- Splitting cuts a chunk in two: the front one in use, the rest free. -/
theorem Tiled.cut {heap : Heap} {front back : List Block} {block : Block} {size : ℕ}
    (htiled : Tiled c heap (front ++ block :: back)) (hroom : size + c.sizeofChunk < block.size) :
    Tiled c ⟨split c heap.mem (c.heapStart + span c.sizeofChunk front) size, heap.freeList⟩
      (front ++ ⟨size, false⟩ :: ⟨block.size - size - c.sizeofChunk, true⟩ :: back) := by
  have hheader := htiled.header
  have hend := htiled.end_le
  have hspan := htiled.span_eq
  have hseg := htiled.seg
  have hmod : c.heapEnd < c.sizeMod := c.heapEnd_lt
  obtain ⟨slot, hslot⟩ : ∃ slot, slot = c.heapStart + span c.sizeofChunk front := ⟨_, rfl⟩
  obtain ⟨new, hnew⟩ : ∃ new, new = slot + (c.sizeofChunk + size) := ⟨_, rfl⟩
  have hnewEnd : new + (c.sizeofChunk + (block.size - size - c.sizeofChunk)) =
      slot + (c.sizeofChunk + block.size) := by omega
  rw [← hslot] at hheader hend ⊢
  have hlast : entry (slot + (c.sizeofChunk + block.size)) back < c.sizeMod := by
    rw [entry]
    split <;> omega
  rw [split_eq_putHeader hheader hroom (by omega), ← hnew]
  refine ⟨by simp, htiled.freeList_eq, ?_, ?_⟩
  · simp only [span_append, span_cons] at hspan ⊢
    omega
  · have hmid : span c.sizeofChunk
        [⟨size, false⟩, ⟨block.size - size - c.sizeofChunk, true⟩] =
        span c.sizeofChunk [block] := by
      simp only [span_cons, span_nil]
      omega
    refine Seg.replace hseg (List.cons_ne_nil block []) (List.cons_ne_nil _ _) hmid ?_ ?_
    · intro x hx
      simp only [span_cons, span_nil, ← hslot] at hx
      dsimp only
      rw [putHeader_of_outside (by omega), putHeader_of_outside (by omega)]
    · rw [← hslot]
      refine ⟨?_, ?_, trivial⟩
      · simp only [reduceCtorEq, if_false, ← hnew]
        exact header_putHeader false (by omega) (by omega)
      · rw [← hnew]
        have hback : (if back = [] then 0 else slot + span c.sizeofChunk [block]) =
            entry (slot + (c.sizeofChunk + block.size)) back := by
          simp [entry]
        simp only [if_true, hback]
        have hput : Header c (putHeader c heap.mem new (block.size - size - c.sizeofChunk) 1
            (entry (slot + (c.sizeofChunk + block.size)) back)) new
            ⟨block.size - size - c.sizeofChunk, true⟩
            (entry (slot + (c.sizeofChunk + block.size)) back) :=
          header_putHeader true (by omega) hlast
        exact hput.congr fun x _ _ => putHeader_of_outside (.inr (by omega))

/-! ## Searching -/

/-- The chunk on which the search loop of `malloc` stops, with the chunks before
and behind it: the first one that is large enough and either free or last. -/
def search (nBytes : ℕ) : List Block → Option (List Block × Block × List Block)
  | [] => none
  | block :: rest =>
      if block.size < nBytes ∨ (block.free = false ∧ rest ≠ []) then
        (search nBytes rest).map fun found => (block :: found.1, found.2)
      else some ([], block, rest)

theorem search_eq_some {nBytes : ℕ} {blocks front back : List Block} {block : Block}
    (hfound : search nBytes blocks = some (front, block, back)) :
    blocks = front ++ block :: back ∧ nBytes ≤ block.size ∧ (block.free = true ∨ back = []) ∧
      ∀ other ∈ front, other.free = false ∨ other.size < nBytes := by
  induction blocks generalizing front with
  | nil => simp [search] at hfound
  | cons first rest ih =>
      rw [search] at hfound
      split at hfound
      case isTrue hskip =>
          obtain ⟨⟨front', block', back'⟩, hrest, hpair⟩ := Option.map_eq_some_iff.mp hfound
          simp only [Prod.mk.injEq] at hpair
          obtain ⟨rfl, rfl, rfl⟩ := hpair
          obtain ⟨rfl, hsize, hstop, hfront⟩ := ih hrest
          refine ⟨rfl, hsize, hstop, fun other hother => ?_⟩
          rcases List.mem_cons.mp hother with rfl | hother
          · rcases hskip with hsmall | ⟨hused, -⟩
            · exact .inr hsmall
            · exact .inl hused
          · exact hfront other hother
      case isFalse hstop =>
          simp only [Option.some.injEq, Prod.mk.injEq] at hfound
          obtain ⟨rfl, rfl, rfl⟩ := hfound
          simp only [not_or, not_lt, not_and, ne_eq, not_not] at hstop
          refine ⟨rfl, hstop.1, ?_, by simp⟩
          cases hfree : first.free with
          | true => exact .inl rfl
          | false => exact .inr (hstop.2 hfree)

/-- The search loop stops on the chunk that `search` finds, and otherwise
follows the null pointer behind the last one. -/
theorem returns_searchLoop_iff {a nBytes result : ℕ} {blocks : List Block}
    (hseg : Seg c mem a blocks 0) (hpos : 0 < a) :
    Returns (fun fuel => loop (searchTurn c mem nBytes) fuel (entry a blocks)) result ↔
      ∃ found, search nBytes blocks = some found ∧
        result = a + span c.sizeofChunk found.1 := by
  induction blocks generalizing a with
  | nil =>
      simp only [entry_nil, search, reduceCtorEq, false_and, exists_false, iff_false]
      exact not_returns_loop_of_fault (if_pos rfl)
  | cons block rest ih =>
      have hheader := hseg.1
      have hnext : (if rest = [] then 0 else a + (c.sizeofChunk + block.size)) =
          entry (a + (c.sizeofChunk + block.size)) rest := rfl
      rw [hnext] at hheader
      have hfree : chunkFree c mem a = 0 ↔ block.free = false := by
        rw [← not_iff_not, Bool.not_eq_false]
        exact hheader.free_ne_zero_iff
      have hlast : chunkNext c mem a ≠ 0 ↔ rest ≠ [] := by
        rw [hheader.next_eq]
        cases rest with
        | nil => simp
        | cons succ rest => simp [hpos.ne']
      rw [entry_cons, search]
      by_cases hskip : block.size < nBytes ∨ (block.free = false ∧ rest ≠ [])
      · have hturn : searchTurn c mem nBytes a =
            .done (.next (entry (a + (c.sizeofChunk + block.size)) rest)) := by
          rw [← hheader.next_eq]
          simp only [searchTurn, if_neg hpos.ne', hheader.size_eq, hfree, hlast, if_pos hskip]
        rw [returns_loop_of_next hturn, ih hseg.2 (by omega), if_pos hskip]
        constructor
        · rintro ⟨found, hfound, rfl⟩
          refine ⟨(block :: found.1, found.2), by simp [hfound], ?_⟩
          rw [span_cons]
          omega
        · rintro ⟨found, hfound, rfl⟩
          obtain ⟨found', hfound', rfl⟩ := Option.map_eq_some_iff.mp hfound
          refine ⟨found', hfound', ?_⟩
          rw [span_cons]
          omega
      · have hturn : searchTurn c mem nBytes a = .done (.exit a) := by
          simp only [searchTurn, if_neg hpos.ne', hheader.size_eq, hfree, hlast, if_neg hskip]
        rw [returns_loop_of_exit hturn, if_neg hskip]
        simp [eq_comm]

/-! ## Releasing -/

/-- `free` of a chunk within the heap marks it and runs two passes, whatever the memory holds. -/
theorem returns_free_merges {heap heap' : Heap} {ptr chunk : ℕ} (hptr : ptr ≠ 0)
    (hheader : getHeader c ptr = chunk) (hstart : c.heapStart ≤ chunk)
    (hend : chunk ≤ c.heapEnd) :
    Returns (fun fuel => free c fuel ptr heap) heap' ↔
      ∃ heap₁, Returns (fun fuel => merge c fuel
          ⟨setChunkFree c heap.mem chunk 1, heap.freeList⟩) heap₁ ∧
        Returns (fun fuel => merge c fuel heap₁) heap' := by
  have hfree : ∀ fuel, free c fuel ptr heap =
      (merge c fuel ⟨setChunkFree c heap.mem chunk 1, heap.freeList⟩ >>=
        fun heap => merge c fuel heap) := by
    intro fuel
    simp only [free, if_neg hptr, hheader, if_pos (And.intro hstart hend)]
  simp only [hfree]
  exact returns_bind_iff (fuelMono_merge _) fun heap => fuelMono_merge heap

/-! ## The operations on lists -/

/-- What `malloc` does once its search has stopped at `cur`. -/
def mallocAt (c : HeapConfig) (heap : Heap) (nBytes cur : ℕ) : ℕ × Heap :=
  if chunkSize c heap.mem cur = nBytes then
    (sizeAdd c cur c.sizeofChunk, ⟨setChunkFree c heap.mem cur 0, heap.freeList⟩)
  else if sizeAdd c nBytes c.sizeofChunk < chunkSize c heap.mem cur then
    (sizeAdd c cur c.sizeofChunk, ⟨split c heap.mem cur nBytes, heap.freeList⟩)
  else (0, heap)

/-- The calls of `malloc` that return without searching. -/
def RefusesAtOnce (c : HeapConfig) (heap : Heap) (nBytes : ℕ) : Prop :=
  nBytes = 0 ∨ chunkSize c heap.mem heap.freeList = 0

namespace Tiled

variable {heap heap' : Heap} {blocks front back : List Block} {block : Block} {nBytes ptr : ℕ}

theorem freeList_ne_zero (htiled : Tiled c heap blocks) : heap.freeList ≠ 0 := by
  rw [htiled.freeList_eq]
  exact c.heapStart_pos.ne'

/-- `malloc` returns exactly when it refuses at once or its search stops on a chunk. -/
theorem returns_malloc_iff (htiled : Tiled c heap blocks) {result : ℕ × Heap} :
    Returns (fun fuel => malloc c fuel nBytes heap) result ↔
      (RefusesAtOnce c heap nBytes ∧ result = (0, heap)) ∨
        (¬ RefusesAtOnce c heap nBytes ∧
          ∃ found, search (requestSize c nBytes) blocks = some found ∧
            result = mallocAt c heap (requestSize c nBytes)
              (c.heapStart + span c.sizeofChunk found.1)) := by
  by_cases hrefuse : RefusesAtOnce c heap nBytes
  · have hmalloc : ∀ fuel, malloc c fuel nBytes heap = .done (0, heap) := by
      intro fuel
      rcases hrefuse with hzero | hsize
      · simp [malloc, hzero]
      · simp [malloc, hsize, htiled.freeList_ne_zero]
    simp only [hmalloc, returns_done_iff, hrefuse, true_and, not_true_eq_false, false_and,
      or_false]
    exact eq_comm
  · obtain ⟨hzero, hsize⟩ := not_or.mp hrefuse
    have hmalloc : ∀ fuel, malloc c fuel nBytes heap =
        (loop (searchTurn c heap.mem (requestSize c nBytes)) fuel heap.freeList >>=
          fun cur => .done (mallocAt c heap (requestSize c nBytes) cur)) := by
      intro fuel
      simp only [malloc, if_neg hzero, if_neg hsize, if_neg htiled.freeList_ne_zero, mallocAt,
        Outcome.pure_eq]
      congr 1
      funext cur
      split_ifs <;> rfl
    have hentry : heap.freeList = entry c.heapStart blocks := by
      rw [entry, if_neg htiled.ne_nil, htiled.freeList_eq]
    simp only [hmalloc, hrefuse, false_and, not_false_eq_true, true_and, false_or]
    rw [returns_bind_done_iff, hentry]
    constructor
    · rintro ⟨cur, hcur, rfl⟩
      obtain ⟨found, hfound, rfl⟩ :=
        (returns_searchLoop_iff htiled.seg c.heapStart_pos).mp hcur
      exact ⟨found, hfound, rfl⟩
    · rintro ⟨found, hfound, rfl⟩
      exact ⟨_, (returns_searchLoop_iff htiled.seg c.heapStart_pos).mpr ⟨found, hfound, rfl⟩,
        rfl⟩

/-- Everything a returning `malloc` can do: nothing, or hand out the chunk its
search stopped on, whole or cut. -/
theorem malloc_cases (htiled : Tiled c heap blocks)
    (hreturns : Returns (fun fuel => malloc c fuel nBytes heap) (ptr, heap')) :
    (ptr = 0 ∧ heap' = heap) ∨
      ∃ front block back tail, blocks = front ++ block :: back ∧
        (block.free = true ∨ back = []) ∧
        (∀ other ∈ front, other.free = false ∨ other.size < requestSize c nBytes) ∧
        ¬ RefusesAtOnce c heap nBytes ∧
        ptr = c.heapStart + span c.sizeofChunk front + c.sizeofChunk ∧
        Tiled c heap' (front ++ ⟨requestSize c nBytes, false⟩ :: tail) ∧
        ((block.size = requestSize c nBytes ∧ tail = back) ∨
          (requestSize c nBytes + c.sizeofChunk < block.size ∧
            tail = ⟨block.size - requestSize c nBytes - c.sizeofChunk, true⟩ :: back)) := by
  rcases htiled.returns_malloc_iff.mp hreturns with
    ⟨-, hresult⟩ | ⟨hrefuse, ⟨front, block, back⟩, hfound, hresult⟩
  · exact .inl ⟨(Prod.mk.inj hresult).1, (Prod.mk.inj hresult).2⟩
  · obtain ⟨rfl, hle, hstop, hfront⟩ := search_eq_some hfound
    have hend := htiled.end_le
    have hmod : c.heapEnd < c.sizeMod := c.heapEnd_lt
    have hptr : sizeAdd c (c.heapStart + span c.sizeofChunk front) c.sizeofChunk =
        c.heapStart + span c.sizeofChunk front + c.sizeofChunk := sizeAdd_of_lt (by omega)
    have hsum : sizeAdd c (requestSize c nBytes) c.sizeofChunk =
        requestSize c nBytes + c.sizeofChunk := sizeAdd_of_lt (by omega)
    simp only [mallocAt, htiled.header.size_eq, hptr, hsum] at hresult
    split_ifs at hresult with hexact hlarge
    · obtain ⟨rfl, rfl⟩ := Prod.mk.inj hresult
      refine .inr ⟨front, block, back, back, rfl, hstop, hfront, hrefuse, rfl, ?_,
        .inl ⟨hexact, rfl⟩⟩
      rw [← hexact]
      exact htiled.mark false
    · obtain ⟨rfl, rfl⟩ := Prod.mk.inj hresult
      exact .inr ⟨front, block, back, _, rfl, hstop, hfront, hrefuse, rfl, htiled.cut hlarge,
        .inr ⟨hlarge, rfl⟩⟩
    · exact .inl ⟨(Prod.mk.inj hresult).1, (Prod.mk.inj hresult).2⟩

/-- `free` of a chunk of the chain marks it and runs two passes. -/
theorem returns_free_iff (htiled : Tiled c heap (front ++ block :: back)) (hptr : ptr ≠ 0)
    (hheader : getHeader c ptr = c.heapStart + span c.sizeofChunk front) :
    Returns (fun fuel => free c fuel ptr heap) heap' ↔
      ∃ heap₁, Returns (fun fuel => merge c fuel
          ⟨setChunkFree c heap.mem (c.heapStart + span c.sizeofChunk front) 1, heap.freeList⟩)
          heap₁ ∧
        Returns (fun fuel => merge c fuel heap₁) heap' := by
  have hend := htiled.end_le
  exact returns_free_merges hptr hheader (by omega) (by omega)

/-- It coalesces twice, and touches only headers of chunks that are then free. -/
theorem returns_free (htiled : Tiled c heap (front ++ block :: back)) (hptr : ptr ≠ 0)
    (hheader : getHeader c ptr = c.heapStart + span c.sizeofChunk front) :
    ∃ heap', Returns (fun fuel => free c fuel ptr heap) heap' ∧
      Tiled c heap' (coalesce c.sizeofChunk
        (coalesce c.sizeofChunk (front ++ ⟨block.size, true⟩ :: back))) ∧
      ∀ x, ¬ InFreeHeader c c.heapStart (front ++ ⟨block.size, true⟩ :: back) x →
        heap'.mem x = heap.mem x := by
  have hmarked := htiled.mark true
  simp only [if_true] at hmarked
  obtain ⟨heap₁, hfirst, htiled₁, hkept₁⟩ := hmarked.returns_merge
  obtain ⟨heap₂, hsecond, htiled₂, hkept₂⟩ := htiled₁.returns_merge
  refine ⟨heap₂, (htiled.returns_free_iff hptr hheader).mpr ⟨heap₁, hfirst, hsecond⟩, htiled₂, ?_⟩
  intro x hx
  have hown : x < c.heapStart + span c.sizeofChunk front ∨
      c.heapStart + span c.sizeofChunk front + c.sizeofChunk ≤ x := by
    by_contra hinside
    refine hx ⟨(c.heapStart + span c.sizeofChunk front, ⟨block.size, true⟩),
      mem_layout_iff.mpr ⟨front, back, rfl, rfl⟩, rfl, ?_⟩
    dsimp only
    omega
  rw [hkept₂ x (mt inFreeHeader_of_coalesce hx), hkept₁ x hx]
  exact setChunkFree_of_outside hown

theorem fuelMono_free (ptr : ℕ) (heap : Heap) : FuelMono fun fuel => free c fuel ptr heap := by
  by_cases hptr : ptr = 0
  · simp only [free, if_pos hptr]
    exact fuelMono_const _
  by_cases hinside : c.heapStart ≤ getHeader c ptr ∧ getHeader c ptr ≤ c.heapEnd
  · simp only [free, if_neg hptr, if_pos hinside]
    exact (fuelMono_merge _).bind fun heap => fuelMono_merge heap
  · simp only [free, if_neg hptr, if_neg hinside]
    exact fuelMono_const _

theorem tiled_of_returns_free (htiled : Tiled c heap (front ++ block :: back)) (hptr : ptr ≠ 0)
    (hheader : getHeader c ptr = c.heapStart + span c.sizeofChunk front)
    (hreturns : Returns (fun fuel => free c fuel ptr heap) heap') :
    Tiled c heap' (coalesce c.sizeofChunk
      (coalesce c.sizeofChunk (front ++ ⟨block.size, true⟩ :: back))) := by
  obtain ⟨heap'', hreturns', htiled', -⟩ := htiled.returns_free hptr hheader
  obtain rfl := hreturns.unique (fuelMono_free _ _) hreturns'
  exact htiled'

end Tiled

end Cyancore.Libc
