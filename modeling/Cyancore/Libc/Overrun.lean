/-
# What a copy that does not fit destroys

`CopyFits` is enough for `realloc` to keep the data, and nothing less is: on every other chain
the blocks can hold bytes for which it does not.

A copy that is longer than the new block runs over what lies behind it.  The bytes of the old
block can be such that it rewrites what was there but for the first byte, which belongs to the
size of the next chunk or lies outside the heap.  And a block in use that `malloc` hands out a
second time is cut or copied into, whatever it holds.
-/

import Cyancore.Libc.RequestSize
import Cyancore.Libc.WrongSize

namespace Cyancore.Libc

open Cyancore.Math Cyancore.Math.Tiling

variable {c : HeapConfig} {heap heap' : Heap} {mem mem' : Memory} {blocks front back : List Block}
  {block : Block} {nBytes : ℕ} {old : ℕ × Block}

/-! ## Memories that differ in payloads -/

theorem putHeader_congr_at {chunk size free next x : ℕ} (hx : mem' x = mem x) :
    putHeader c mem' chunk size free next x = putHeader c mem chunk size free next x :=
  Memory.store_congr_at (Memory.store_congr_at (Memory.store_congr_at hx))

/-- A header that is written forgets the size field that was there. -/
theorem putHeader_forgets {chunk size free next : ℕ} :
    putHeader c mem' chunk size free next chunk = putHeader c mem chunk size free next chunk :=
  Memory.store_congr_at (Memory.store_congr_at
    (Memory.store_forgets le_rfl (Nat.lt_add_of_pos_right c.word_pos)))

namespace Tiled

variable {request x : ℕ}

/-- What `malloc` leaves at an address depends on that address alone. -/
theorem mallocAt_congr_at (htiled : Tiled c heap (front ++ block :: back))
    (htiled' : Tiled c heap' (front ++ block :: back)) (hfits : Fits c request block)
    (hx : heap'.mem x = heap.mem x) :
    (mallocAt c heap' request (c.heapStart + span c.sizeofChunk front)).2.mem x =
      (mallocAt c heap request (c.heapStart + span c.sizeofChunk front)).2.mem x := by
  have hend := htiled.end_le
  have hmod : c.heapEnd < c.sizeMod := c.heapEnd_lt
  have hsum := htiled.sizeAdd_request (show request ≤ block.size by rw [Fits] at hfits; omega)
  rw [mallocAt, mallocAt, htiled.header.size_eq, htiled'.header.size_eq, hsum]
  rcases hfits with hexact | hcut
  · rw [if_pos hexact, if_pos hexact]
    exact Memory.store_congr_at hx
  · rw [if_neg (by omega), if_pos hcut, if_neg (by omega), if_pos hcut]
    dsimp only
    rw [split_eq_putHeader htiled.header hcut (by omega),
      split_eq_putHeader htiled'.header hcut (by omega)]
    exact putHeader_congr_at (putHeader_congr_at hx)

/-- When a chunk is cut, what was in place of the new header is forgotten. -/
theorem mallocAt_of_cut (htiled : Tiled c heap (front ++ block :: back))
    (htiled' : Tiled c heap' (front ++ block :: back)) (hcut : request + c.sizeofChunk < block.size)
    (hagree : ∀ x, x ≠ c.heapStart + span c.sizeofChunk front + (c.sizeofChunk + request) →
      heap'.mem x = heap.mem x) :
    mallocAt c heap' request (c.heapStart + span c.sizeofChunk front) =
      mallocAt c heap request (c.heapStart + span c.sizeofChunk front) := by
  have hend := htiled.end_le
  have hmod : c.heapEnd < c.sizeMod := c.heapEnd_lt
  have hsum := htiled.sizeAdd_request (show request ≤ block.size by omega)
  rw [mallocAt, mallocAt, htiled.header.size_eq, htiled'.header.size_eq, hsum,
    if_neg (by omega), if_pos hcut, if_neg (by omega), if_pos hcut,
    split_eq_putHeader htiled.header hcut (by omega),
    split_eq_putHeader htiled'.header hcut (by omega), htiled.freeList_eq, htiled'.freeList_eq]
  congr 2
  funext x
  apply putHeader_congr_at
  by_cases hx : x = c.heapStart + span c.sizeofChunk front + (c.sizeofChunk + request)
  · rw [hx]
    exact putHeader_forgets
  · exact putHeader_congr_at (hagree x hx)

end Tiled

/-- What `realloc` does with a block that keeps its data. -/
theorem KeepsData.moved {new : ℕ} {heapM : Heap} (hkeeps : KeepsData c heap blocks old nBytes)
    (hn : nBytes ≠ 0) (hnew : new ≠ 0)
    (hmalloc : Returns (fun fuel => malloc c fuel nBytes heap) (new, heapM))
    (hfree : Returns (fun fuel => free c fuel (old.1 + c.sizeofChunk)
      (copyOld c heapM (old.1 + c.sizeofChunk) new)) heap') :
    Moved c heap heap' blocks old nBytes new := by
  have hp : old.1 + c.sizeofChunk ≠ 0 := by
    have hpos := c.sizeofChunk_pos
    omega
  exact (hkeeps new heap' ((returns_realloc_iff hp hn).mpr
    (.inr ⟨hnew, heapM, hmalloc, hfree⟩))).1 hnew

section Handed

variable (htiled : Tiled c heap (front ++ block :: back))
  (hhands : HandsOut c nBytes (front ++ block :: back) front block back)
  (hold : old ∈ used c.sizeofChunk c.heapStart (front ++ block :: back))
  (hkeeps : ∀ heap, Tiled c heap (front ++ block :: back) →
    KeepsData c heap (front ++ block :: back) old nBytes)

include htiled hhands hold hkeeps

/-! ## A chunk that is cut or copied into -/

/-- Where a chunk is cut, a byte is lost: nothing depends on it. -/
theorem exists_lost_of_cut (hcut : requestSize c nBytes + c.sizeofChunk < block.size)
    (hbounded : CopyBounded c (front ++ block :: back) old nBytes) :
    ∃ heap heap', Moved c heap heap' (front ++ block :: back) old nBytes
        (c.heapStart + span c.sizeofChunk front + c.sizeofChunk) ∧
      heap'.mem (c.heapStart + span c.sizeofChunk front + c.sizeofChunk +
          requestSize c nBytes) ≠
        heap.mem (c.heapStart + span c.sizeofChunk front + c.sizeofChunk +
          requestSize c nBytes) := by
  have hpos := c.sizeofChunk_pos
  obtain ⟨⟨new, heapM⟩, hmalloc⟩ : ∃ result, mallocAt c heap (requestSize c nBytes)
      (c.heapStart + span c.sizeofChunk front) = result := ⟨_, rfl⟩
  obtain ⟨hnew, -⟩ := htiled.handedOut hhands.2.2.2 hmalloc
  obtain ⟨frontM, blockM, backM, -, hat, htiledC⟩ :=
    htiled.copyOld_tiled hhands hmalloc hold hbounded
  have hptr : old.1 + c.sizeofChunk =
      c.heapStart + span c.sizeofChunk frontM + c.sizeofChunk := by omega
  obtain ⟨heap', hfree, -⟩ := htiledC.returns_free (by omega) (hptr ▸ getHeader_of_split htiledC)
  rw [← hnew]
  obtain ⟨byte, hbyte⟩ := exists_byte_ne (heap'.mem (new + requestSize c nBytes))
  have htiledB : Tiled c ⟨Function.update heap.mem (new + requestSize c nBytes) byte,
      heap.freeList⟩ (front ++ block :: back) :=
    htiled.write fun x hx => Function.update_of_ne (by omega) _ _
  have hsame := htiled.mallocAt_of_cut htiledB hcut
    fun x hx => Function.update_of_ne (by omega) _ _
  have hmallocB := htiledB.returns_malloc_of_handsOut hhands
  rw [hsame, hmalloc] at hmallocB
  refine ⟨_, heap', (hkeeps _ htiledB).moved hhands.1 (by omega) hmallocB hfree, ?_⟩
  dsimp only
  rw [Function.update_self]
  exact hbyte.symm

/-- No other block is cut. -/
theorem not_cut_of_inUse (hused : block.free = false)
    (hother : c.heapStart + span c.sizeofChunk front ≠ old.1)
    (hfits : old.2.size ≤ requestSize c nBytes) :
    ¬ requestSize c nBytes + c.sizeofChunk < block.size := by
  intro hcut
  have hbounded : CopyBounded c (front ++ block :: back) old nBytes := by
    intro front' block' back' hhands'
    exact .inl hfits
  obtain ⟨heapB, heap', hmoved, hlost⟩ :=
    exists_lost_of_cut htiled hhands hold hkeeps hcut hbounded
  have hmem : (c.heapStart + span c.sizeofChunk front, block) ∈
      used c.sizeofChunk c.heapStart (front ++ block :: back) :=
    mem_used_iff.mpr ⟨hused, front, back, rfl, rfl⟩
  have hne : (c.heapStart + span c.sizeofChunk front, block) ≠ old := by
    rintro rfl
    exact hother rfl
  exact hlost (hmoved.others _ hmem hne _ (by dsimp only; omega))

/-- The block itself is not cut below what is to be kept of it. -/
theorem le_of_own (hown : c.heapStart + span c.sizeofChunk front = old.1) :
    min old.2.size nBytes ≤ requestSize c nBytes := by
  by_contra hshort
  have hentry : (c.heapStart + span c.sizeofChunk front, block) ∈
      layout c.sizeofChunk c.heapStart (front ++ block :: back) :=
    mem_layout_iff.mpr ⟨front, back, rfl, rfl⟩
  obtain rfl : (c.heapStart + span c.sizeofChunk front, block) = old :=
    eq_of_mem_layout c.sizeofChunk_pos hentry (List.mem_of_mem_filter hold) hown
  have hcut : requestSize c nBytes + c.sizeofChunk < block.size := by
    have hfits := hhands.2.2.2
    rw [Fits] at hfits
    dsimp only at hshort
    omega
  have hbounded : CopyBounded c (front ++ block :: back)
      (c.heapStart + span c.sizeofChunk front, block) nBytes := by
    intro front' block' back' hhands'
    obtain ⟨rfl, rfl, rfl⟩ : front = front' ∧ block = block' ∧ back = back' := by
      simpa using hhands.2.2.1.symm.trans hhands'.2.2.1
    exact .inr rfl
  obtain ⟨heapB, heap', hmoved, hlost⟩ :=
    exists_lost_of_cut htiled hhands hold hkeeps hcut hbounded
  exact hlost (hmoved.data _ (by dsimp only at hshort ⊢; omega))

/-- Nothing is copied into another block. -/
theorem size_eq_zero_of_inUse (hused : block.free = false)
    (hother : c.heapStart + span c.sizeofChunk front ≠ old.1)
    (hwhole : block.size = requestSize c nBytes) (hfits : old.2.size ≤ requestSize c nBytes) :
    old.2.size = 0 := by
  by_contra hbytes
  have hpos := c.sizeofChunk_pos
  have hfound : (c.heapStart + span c.sizeofChunk front, block) ∈
      layout c.sizeofChunk c.heapStart (front ++ block :: back) :=
    mem_layout_iff.mpr ⟨front, back, rfl, rfl⟩
  have holdLayout := List.mem_of_mem_filter hold
  have hapart := layout_apart holdLayout hfound (Ne.symm hother)
  dsimp only at hapart
  -- the first byte of the old block is made to differ from that of the other one
  obtain ⟨byte, hbyte⟩ := exists_byte_ne
    (heap.mem (c.heapStart + span c.sizeofChunk front + c.sizeofChunk))
  have htiledB : Tiled c ⟨Function.update heap.mem (old.1 + c.sizeofChunk) byte, heap.freeList⟩
      (front ++ block :: back) := by
    obtain ⟨front', back', hsplit, hat⟩ := mem_layout_iff.mp holdLayout
    rw [hsplit] at htiled ⊢
    exact htiled.write fun x hx => Function.update_of_ne (by omega) _ _
  obtain ⟨⟨new, heapM⟩, hmalloc⟩ : ∃ result, mallocAt c
      ⟨Function.update heap.mem (old.1 + c.sizeofChunk) byte, heap.freeList⟩ (requestSize c nBytes)
      (c.heapStart + span c.sizeofChunk front) = result := ⟨_, rfl⟩
  obtain ⟨hnew, htiledM, hkept⟩ := htiledB.handedOut hhands.2.2.2 hmalloc
  have hbounded : CopyBounded c (front ++ block :: back) old nBytes := by
    intro front' block' back' hhands'
    exact .inl hfits
  obtain ⟨frontM, blockM, backM, hsplit, hat, htiledC⟩ :=
    htiledB.copyOld_tiled hhands hmalloc hold hbounded
  have hptr : old.1 + c.sizeofChunk =
      c.heapStart + span c.sizeofChunk frontM + c.sizeofChunk := by omega
  obtain ⟨heap', hfree, -⟩ := htiledC.returns_free (by omega) (hptr ▸ getHeader_of_split htiledC)
  have hmallocB := htiledB.returns_malloc_of_handsOut hhands
  rw [hmalloc] at hmallocB
  have hmoved := (hkeeps _ htiledB).moved hhands.1 (by omega) hmallocB hfree
  have hmem : (c.heapStart + span c.sizeofChunk front, block) ∈
      used c.sizeofChunk c.heapStart (front ++ block :: back) :=
    mem_used_iff.mpr ⟨hused, front, back, rfl, rfl⟩
  have hne : (c.heapStart + span c.sizeofChunk front, block) ≠ old := by
    rintro rfl
    exact hother rfl
  have hfirst := hmoved.others _ hmem hne 0 (by dsimp only; omega)
  have hsecond : heap'.mem new = byte := by
    have hdata := hmoved.data 0 (Nat.lt_min.mpr ⟨by omega, Nat.pos_of_ne_zero hhands.1⟩)
    simpa using hdata
  dsimp only at hfirst
  rw [Nat.add_zero, ← hnew, hsecond, Function.update_of_ne (by omega), hnew] at hfirst
  exact hbyte hfirst

end Handed

/-! ## A copy that runs over -/

/-- The memory with a payload of `width` bytes at `src` that a copy to `dst` finds in place
where it puts them, but for the byte that goes to `dst + room`. -/
def disguise (mem memM : Memory) (dst src width room : ℕ) (byte : UInt8) : Memory := fun x =>
  if src + room ≤ x ∧ x < src + width ∧
      (dst + (x - src) < src ∨ src + width ≤ dst + (x - src)) then
    if x = src + room then byte else memM (dst + (x - src))
  else mem x

section Disguise

variable {memM : Memory} {dst src width room x : ℕ} {byte : UInt8}

theorem disguise_of_outside (hx : x < src ∨ src + width ≤ x) :
    disguise mem memM dst src width room byte x = mem x := by
  rw [disguise, if_neg (by omega)]

theorem disguise_first (hroom : room < width)
    (hoff : dst + room < src ∨ src + width ≤ dst + room) :
    disguise mem memM dst src width room byte (src + room) = byte := by
  rw [disguise, if_pos (by omega), if_pos rfl]

theorem disguise_rest {k : ℕ} (hle : room < k) (hlt : k < width)
    (hoff : dst + k < src ∨ src + width ≤ dst + k) :
    disguise mem memM dst src width room byte (src + k) = memM (dst + k) := by
  rw [disguise, if_pos (by omega), if_neg (by omega), Nat.add_sub_cancel_left]

end Disguise

namespace Tiled

/-- On some heap with the same chain a copy that is too long changes one byte behind the new
block, besides payloads. -/
theorem exists_overrun (htiled : Tiled c heap (front ++ block :: back))
    (hhands : HandsOut c nBytes (front ++ block :: back) front block back)
    (hold : old ∈ used c.sizeofChunk c.heapStart (front ++ block :: back))
    (hother : c.heapStart + span c.sizeofChunk front ≠ old.1)
    (hover : requestSize c nBytes < old.2.size) :
    ∃ heapB heapM new, Tiled c heapB (front ++ block :: back) ∧
      mallocAt c heapB (requestSize c nBytes) (c.heapStart + span c.sizeofChunk front) =
        (new, heapM) ∧
      (copyOld c heapM (old.1 + c.sizeofChunk) new).mem (new + requestSize c nBytes) ≠
        heapM.mem (new + requestSize c nBytes) ∧
      ∀ x, (x < old.1 + c.sizeofChunk ∨ old.1 + c.sizeofChunk + old.2.size ≤ x) →
        (x < new ∨ new + requestSize c nBytes < x) →
        (copyOld c heapM (old.1 + c.sizeofChunk) new).mem x = heapM.mem x := by
  have hpos := c.sizeofChunk_pos
  have hfits := hhands.2.2.2
  have hfound : (c.heapStart + span c.sizeofChunk front, block) ∈
      layout c.sizeofChunk c.heapStart (front ++ block :: back) :=
    mem_layout_iff.mpr ⟨front, back, rfl, rfl⟩
  have holdLayout := List.mem_of_mem_filter hold
  have hapart := layout_apart holdLayout hfound (Ne.symm hother)
  have hsize := request_add_span_remainder hfits
  dsimp only at hapart
  obtain ⟨⟨new, heapA⟩, hmallocA⟩ : ∃ result, mallocAt c heap (requestSize c nBytes)
      (c.heapStart + span c.sizeofChunk front) = result := ⟨_, rfl⟩
  obtain ⟨hnew, -⟩ := htiled.handedOut hfits hmallocA
  obtain ⟨byte, hbyte⟩ := exists_byte_ne (heapA.mem (new + requestSize c nBytes))
  obtain ⟨heapB, hheapB⟩ : ∃ heapB : Heap, heapB = ⟨disguise heap.mem heapA.mem new
    (old.1 + c.sizeofChunk) old.2.size (requestSize c nBytes) byte, heap.freeList⟩ := ⟨_, rfl⟩
  have hkeptB : ∀ x, x < old.1 + c.sizeofChunk ∨ old.1 + c.sizeofChunk + old.2.size ≤ x →
      heapB.mem x = heap.mem x := fun x hx => hheapB ▸ disguise_of_outside hx
  have htiledB : Tiled c heapB (front ++ block :: back) := by
    obtain ⟨front', back', hsplit, hat⟩ := mem_layout_iff.mp holdLayout
    rw [hsplit] at htiled ⊢
    rw [hheapB]
    exact htiled.write fun x hx => disguise_of_outside (by omega)
  obtain ⟨⟨new', heapM⟩, hmalloc⟩ : ∃ result, mallocAt c heapB (requestSize c nBytes)
      (c.heapStart + span c.sizeofChunk front) = result := ⟨_, rfl⟩
  obtain ⟨hnew', htiledM, hkeptM⟩ := htiledB.handedOut hfits hmalloc
  obtain rfl : new' = new := hnew'.trans hnew.symm
  have hsameM : ∀ x, x < old.1 + c.sizeofChunk ∨ old.1 + c.sizeofChunk + old.2.size ≤ x →
      heapM.mem x = heapA.mem x := by
    intro x hx
    have hcongr := htiled.mallocAt_congr_at htiledB hfits (hkeptB x hx)
    rwa [hmalloc, hmallocA] at hcongr
  have hlength : chunkSize c heapM.mem (getHeader c (old.1 + c.sizeofChunk)) = old.2.size := by
    have holdM := mem_layout_handOut hfits holdLayout (Ne.symm hother)
    obtain ⟨frontM, backM, hsplit, hat⟩ := mem_layout_iff.mp holdM
    rw [hsplit] at htiledM
    rw [hat, getHeader_of_split htiledM, htiledM.header.size_eq]
  have hcopy : ∀ k < old.2.size, (copyOld c heapM (old.1 + c.sizeofChunk) new').mem (new' + k) =
      disguise heap.mem heapA.mem new' (old.1 + c.sizeofChunk) old.2.size (requestSize c nBytes)
        byte (old.1 + c.sizeofChunk + k) := by
    intro k hk
    rw [copyOld, hlength]
    dsimp only
    rw [Memory.copy_apply (by omega) hk, hkeptM _ (by omega), hheapB]
  refine ⟨heapB, heapM, new', htiledB, hmalloc, ?_, ?_⟩
  · rw [hcopy _ hover, disguise_first hover (by omega), hsameM _ (by omega)]
    exact hbyte
  · intro x hx hx'
    by_cases hinside : new' ≤ x ∧ x < new' + old.2.size
    · obtain ⟨k, rfl⟩ : ∃ k, x = new' + k := ⟨x - new', by omega⟩
      rw [hcopy k (by omega), disguise_rest (by omega) (by omega) (by omega), hsameM _ hx]
    · rw [copyOld, hlength]
      exact Memory.copy_of_outside (by omega)

end Tiled

section Overrunning

variable (htiled : Tiled c heap (front ++ block :: back))
  (hhands : HandsOut c nBytes (front ++ block :: back) front block back)
  (hold : old ∈ used c.sizeofChunk c.heapStart (front ++ block :: back))
  (hkeeps : ∀ heap, Tiled c heap (front ++ block :: back) →
    KeepsData c heap (front ++ block :: back) old nBytes)

include htiled hhands hold hkeeps

/-- Nothing is copied beyond the end of another chunk. -/
theorem le_of_other (hother : c.heapStart + span c.sizeofChunk front ≠ old.1) :
    old.2.size ≤ requestSize c nBytes := by
  by_contra hover
  have hpos := c.sizeofChunk_pos
  have hfits := hhands.2.2.2
  obtain ⟨heapB, heapM, new, htiledB, hmalloc, hchanged, hkept⟩ :=
    htiled.exists_overrun hhands hold hother (Nat.lt_of_not_le hover)
  obtain ⟨hnew, htiledM, hkeptM⟩ := htiledB.handedOut hfits hmalloc
  have hmallocB := htiledB.returns_malloc_of_handsOut hhands
  rw [hmalloc] at hmallocB
  have hend := htiled.end_le
  have hspan := htiledM.span_eq
  have hslot : (c.heapStart + span c.sizeofChunk front, ⟨requestSize c nBytes, false⟩) ∈
      layout c.sizeofChunk c.heapStart (front ++ ⟨requestSize c nBytes, false⟩ ::
        (remainder c (requestSize c nBytes) block ++ back)) :=
    mem_layout_iff.mpr ⟨_, _, rfl, rfl⟩
  have holdM := mem_layout_handOut hfits (List.mem_of_mem_filter hold) (Ne.symm hother)
  -- headers are hit at the first byte behind the new block only
  have hheaders : ∀ entry ∈ layout c.sizeofChunk c.heapStart
      (front ++ ⟨requestSize c nBytes, false⟩ ::
        (remainder c (requestSize c nBytes) block ++ back)), ∀ x, entry.1 ≤ x →
      x < entry.1 + c.sizeofChunk → x ≠ new + requestSize c nBytes →
      (copyOld c heapM (old.1 + c.sizeofChunk) new).mem x = heapM.mem x := by
    intro entry hentry x hle hlt hne
    have hbefore := layout_disjoint hentry hslot
    have hbehind := layout_disjoint hslot hentry
    have hbefore' := layout_disjoint hentry holdM
    have hbehind' := layout_disjoint holdM hentry
    dsimp only at hbefore hbehind
    exact hkept x (by omega) (by omega)
  obtain ⟨frontM, backM, hsplit, hat⟩ := mem_layout_iff.mp holdM
  have hptr : old.1 + c.sizeofChunk =
      c.heapStart + span c.sizeofChunk frontM + c.sizeofChunk := by omega
  cases hrest : remainder c (requestSize c nBytes) block ++ back with
  | nil =>
      have hlast : new + requestSize c nBytes = c.heapEnd := by
        rw [hrest] at hspan
        simp only [span_append, span_cons, span_nil] at hspan
        omega
      have htiledC : Tiled c (copyOld c heapM (old.1 + c.sizeofChunk) new)
          (frontM ++ old.2 :: backM) := by
        rw [← hsplit]
        apply htiledM.congr_headers
        intro entry hentry x hle hlt
        have hbounds := layout_bounds hentry
        exact hheaders entry hentry x hle hlt (by omega)
      obtain ⟨heap', hfree, -⟩ :=
        htiledC.returns_free (by omega) (hptr ▸ getHeader_of_split htiledC)
      have hmoved := (hkeeps _ htiledB).moved hhands.1 (by omega) hmallocB hfree
      apply hchanged
      rw [← htiledC.free_outside hptr hfree (.inr hlast.ge), hmoved.outside _ (.inr hlast.ge),
        hkeptM _ (by omega)]
  | cons next rest =>
      have hnext : c.heapStart + span c.sizeofChunk front +
          (c.sizeofChunk + requestSize c nBytes) ∈
          heads c c.heapStart (frontM ++ old.2 :: backM) := by
        rw [heads, ← hsplit, hrest]
        apply List.mem_map_of_mem (f := Prod.fst) (a := (_, next))
        refine mem_layout_iff.mpr ⟨front ++ [⟨requestSize c nBytes, false⟩], rest, by simp, ?_⟩
        simp only [span_append, span_cons, span_nil]
        omega
      rw [hsplit] at hslot htiledM hheaders
      have hstays := mem_heads_release rfl hslot (by omega) hnext
      rw [← Nat.add_assoc, ← hnew] at hstays
      obtain ⟨heap', hfree, hwrong⟩ :=
        htiledM.exists_free_not_sameChain hptr hchanged hheaders hstays
      obtain ⟨heapM', heapF, hmalloc', hfreeF, hsame⟩ :=
        ((hkeeps _ htiledB).moved hhands.1 (by omega) hmallocB hfree).chain
      obtain ⟨-, rfl⟩ := Prod.mk.inj (hmallocB.unique (fuelMono_malloc _ _) hmalloc')
      exact hwrong heapF hfreeF hsame

end Overrunning

/-! ## When `realloc` keeps the data -/

/-- A block that keeps its data, whatever the blocks hold, is copied to where it fits. -/
theorem copyFits_of_keepsData (htiled : Tiled c heap blocks)
    (hold : old ∈ used c.sizeofChunk c.heapStart blocks)
    (hkeeps : ∀ heap, Tiled c heap blocks → KeepsData c heap blocks old nBytes) :
    CopyFits c blocks old nBytes := by
  intro front block back hhands
  obtain ⟨rfl, -⟩ := search_eq_some hhands.2.2.1
  by_cases hown : c.heapStart + span c.sizeofChunk front = old.1
  · exact .inr (.inl ⟨hown, le_of_own htiled hhands hold hkeeps hown⟩)
  have hfits := le_of_other htiled hhands hold hkeeps hown
  cases hfree : block.free with
  | true => exact .inl ⟨rfl, hfits⟩
  | false =>
      have hwhole : block.size = requestSize c nBytes :=
        hhands.2.2.2.resolve_right (not_cut_of_inUse htiled hhands hold hkeeps hfree hown hfits)
      have hempty := size_eq_zero_of_inUse htiled hhands hold hkeeps hfree hown hwhole hfits
      exact .inr (.inr ⟨hempty, hwhole⟩)

/-- In every run that frees in-use chunks only, `realloc` moves a block or leaves everything as
it is, whatever the blocks hold, if and only if the copy fits. -/
theorem reachable_keepsData_iff {run : HeapRun}
    (hroom : c.sizeofChunk < c.heapEnd - c.heapStart)
    (hreach : (heapSystem c).Reachable (FreesInUse c) run) :
    ∃ blocks, Tiled c run.heap blocks ∧ ∀ old ∈ used c.sizeofChunk c.heapStart blocks,
      ∀ nBytes ≠ 0, (∀ heap, Tiled c heap blocks → KeepsData c heap blocks old nBytes) ↔
        CopyFits c blocks old nBytes := by
  obtain ⟨blocks, hinv⟩ := exists_listInv_of_reachable hroom hreach
  refine ⟨blocks, hinv.tiled, fun old hold nBytes hn => ⟨?_, ?_⟩⟩
  · exact copyFits_of_keepsData hinv.tiled hold
  · exact fun hcopy heap htiled => htiled.keepsData hold hn hcopy

/-- The bytes of the moved block of the roomy heap go with it. -/
theorem keepsData_roomyTaken : ∃ heap',
    Returns (fun fuel => realloc roomyHeap fuel 4108 16 roomyTaken.heap) (4128, heap') ∧
      Moved roomyHeap roomyTaken.heap heap' [⟨8, false⟩, ⟨20, true⟩] (4096, ⟨8, false⟩) 16
        4128 := by
  obtain ⟨heap', hreturns⟩ := exists_roomyMoved
  obtain ⟨blocks, htiled, hiff⟩ := reachable_keepsData_iff (by decide) reachable_roomyTaken
  obtain rfl := htiled.unique tiled_roomyTaken
  have hcopy : CopyFits roomyHeap [⟨8, false⟩, ⟨20, true⟩] (4096, ⟨8, false⟩) 16 := by
    rintro front block back ⟨-, -, hsearch, -⟩
    have hfound : search (requestSize roomyHeap 16) [⟨8, false⟩, ⟨20, true⟩] =
        some ([⟨8, false⟩], ⟨20, true⟩, []) := rfl
    obtain ⟨rfl, rfl, rfl⟩ : [⟨8, false⟩] = front ∧ ⟨20, true⟩ = block ∧ [] = back := by
      simpa using hfound.symm.trans hsearch
    exact .inl ⟨rfl, by decide⟩
  have hkeeps := (hiff (4096, ⟨8, false⟩) (by decide) 16 (by decide)).mpr hcopy _ htiled
  exact ⟨heap', hreturns, (hkeeps 4128 heap' hreturns).1 (by decide)⟩

end Cyancore.Libc
