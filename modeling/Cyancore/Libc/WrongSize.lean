/-
# What `free` makes of a wrong size

`free` walks the chain by its `next` pointers and joins chunks by their flags.  A size field
that was overwritten therefore changes no turn of either pass.  It is added to like the right
one, and stays wrong unless its chunk is swallowed.

Two memories are followed through the turns side by side, the right one, whose chain is known,
and the other.
-/

import Cyancore.Libc.Realloc

namespace Cyancore.Libc

open Cyancore.Math Cyancore.Math.Tiling

variable {c : HeapConfig} {heap : Heap} {mem mem' : Memory} {blocks front back : List Block}
  {block : Block} {ptr : ℕ}

/-! ## A size field that was overwritten -/

/-- The memories differ in the size field at `chunk`, and nowhere else. -/
structure SizeDiffers (c : HeapConfig) (chunk : ℕ) (mem mem' : Memory) : Prop where
  size : chunkSize c mem' chunk ≠ chunkSize c mem chunk
  elsewhere : ∀ x, x < chunk ∨ chunk + c.word ≤ x → mem' x = mem x

/-- Headers at these addresses are the same one, or do not overlap. -/
def HeadersApart (c : HeapConfig) (first second : ℕ) : Prop :=
  first = second ∨ first + c.sizeofChunk ≤ second ∨ second + c.sizeofChunk ≤ first

theorem sizeAdd_ne {a b : ℕ} (n : ℕ) (ha : a < c.sizeMod) (hb : b < c.sizeMod) (hne : a ≠ b) :
    sizeAdd c a n ≠ sizeAdd c b n := by
  intro hsum
  have hmod : a ≡ b [MOD c.sizeMod] := Nat.ModEq.add_right_cancel' n hsum
  exact hne (hmod.eq_of_lt_of_lt ha hb)

namespace SizeDiffers

variable {chunk cur : ℕ} (hdiff : SizeDiffers c chunk mem mem')

include hdiff

theorem chunkFree_eq (hapart : HeadersApart c chunk cur) :
    chunkFree c mem' cur = chunkFree c mem cur := by
  apply Memory.load_congr
  intro x hle hlt
  simp only [HeadersApart, HeapConfig.sizeofChunk, HeapConfig.nextOffset] at hapart
  exact hdiff.elsewhere x (by omega)

theorem chunkNext_eq (hapart : HeadersApart c chunk cur) :
    chunkNext c mem' cur = chunkNext c mem cur := by
  apply Memory.load_congr
  intro x hle hlt
  simp only [HeadersApart, HeapConfig.sizeofChunk, HeapConfig.nextOffset] at hapart hle hlt
  exact hdiff.elsewhere x (by omega)

theorem chunkSize_eq (hapart : HeadersApart c chunk cur) (hne : chunk ≠ cur) :
    chunkSize c mem' cur = chunkSize c mem cur := by
  apply Memory.load_congr
  intro x hle hlt
  simp only [HeadersApart, HeapConfig.sizeofChunk, HeapConfig.nextOffset] at hapart
  exact hdiff.elsewhere x (by omega)

/-- A store elsewhere leaves the difference. -/
theorem store {addr width value : ℕ} (hdisjoint : addr + width ≤ chunk ∨ chunk + c.word ≤ addr) :
    SizeDiffers c chunk (mem.store addr width value) (mem'.store addr width value) where
  size := by
    simp only [chunkSize, Memory.load_store_of_disjoint hdisjoint]
    exact hdiff.size
  elsewhere := fun x hx => Memory.store_congr_at (hdiff.elsewhere x hx)

/-- So does a size that is added to the sizes of both. -/
theorem setChunkSize_add (hapart : HeadersApart c chunk cur) (n : ℕ) :
    SizeDiffers c chunk (setChunkSize c mem cur (sizeAdd c (chunkSize c mem cur) n))
      (setChunkSize c mem' cur (sizeAdd c (chunkSize c mem' cur) n)) := by
  by_cases hsame : chunk = cur
  · subst hsame
    have hlt : ∀ a, sizeAdd c a n < c.sizeMod := fun a =>
      Nat.mod_lt _ (Nat.pow_pos (by decide))
    refine ⟨?_, fun x hx => ?_⟩
    · rw [chunkSize_setChunkSize (hlt _), chunkSize_setChunkSize (hlt _)]
      exact sizeAdd_ne n (Memory.load_lt _ _ _) (Memory.load_lt _ _ _) hdiff.size
    · rw [setChunkSize, setChunkSize, Memory.store_of_outside hx, Memory.store_of_outside hx]
      exact hdiff.elsewhere x hx
  · rw [hdiff.chunkSize_eq hapart hsame]
    apply hdiff.store
    simp only [HeadersApart, HeapConfig.sizeofChunk, HeapConfig.nextOffset] at hapart
    omega

theorem setChunkNext (hapart : HeadersApart c chunk cur) (value : ℕ) :
    SizeDiffers c chunk (setChunkNext c mem cur value) (setChunkNext c mem' cur value) := by
  apply hdiff.store
  simp only [HeadersApart, HeapConfig.sizeofChunk, HeapConfig.nextOffset] at hapart ⊢
  omega

/-- A turn of `merge` that does not swallow the chunk does the same to both memories. -/
theorem mergeTurn_eq (hcur : HeadersApart c chunk cur)
    (hsucc : HeadersApart c chunk (chunkNext c mem cur))
    (hstays : chunkFree c mem cur ≠ 0 → chunkFree c mem (chunkNext c mem cur) ≠ 0 →
      chunk ≠ chunkNext c mem cur) :
    (mergeTurn c (cur, mem) = .done (.exit mem) ∧
        mergeTurn c (cur, mem') = .done (.exit mem')) ∨
      ∃ mem₁ mem₁', mergeTurn c (cur, mem) = .done (.next (chunkNext c mem₁ cur, mem₁)) ∧
        mergeTurn c (cur, mem') = .done (.next (chunkNext c mem₁ cur, mem₁')) ∧
        SizeDiffers c chunk mem₁ mem₁' := by
  have hnext := hdiff.chunkNext_eq hcur
  by_cases hguard : cur ≠ 0 ∧ chunkNext c mem cur ≠ 0
  swap
  · refine .inl ⟨?_, ?_⟩
    · simp only [mergeTurn, if_neg hguard]
    · rw [← hnext] at hguard
      simp only [mergeTurn, if_neg hguard]
  by_cases hboth : chunkFree c mem cur ≠ 0 ∧ chunkFree c mem (chunkNext c mem cur) ≠ 0
  swap
  · refine .inr ⟨mem, mem', ?_, ?_, hdiff⟩
    · simp only [mergeTurn, if_pos hguard, if_neg hboth]
    · simp only [mergeTurn, hnext, hdiff.chunkFree_eq hcur, hdiff.chunkFree_eq hsucc, if_pos hguard,
        if_neg hboth]
  have hgrown := hdiff.setChunkSize_add hcur
    (sizeAdd c (chunkSize c mem (chunkNext c mem cur)) c.sizeofChunk)
  have hsize := hdiff.chunkSize_eq hsucc (hstays hboth.1 hboth.2)
  have hlinked := hgrown.setChunkNext hcur (chunkNext c
    (setChunkSize c mem cur (sizeAdd c (chunkSize c mem cur)
      (sizeAdd c (chunkSize c mem (chunkNext c mem cur)) c.sizeofChunk))) (chunkNext c mem cur))
  refine .inr ⟨_, _, ?_, ?_, hlinked⟩
  · simp only [mergeTurn, if_pos hguard, if_pos hboth, chunkNext_setChunkSize]
  · simp only [mergeTurn, hnext, hdiff.chunkFree_eq hcur, hdiff.chunkFree_eq hsucc, if_pos hguard,
      if_pos hboth, chunkNext_setChunkSize, hsize, hgrown.chunkNext_eq hsucc]
    rw [hlinked.chunkNext_eq hcur]

end SizeDiffers

/-! ## Passes over both memories -/

/-- The addresses of the chunks. -/
def heads (c : HeapConfig) (a : ℕ) (blocks : List Block) : List ℕ :=
  (layout c.sizeofChunk a blocks).map Prod.fst

theorem heads_cons {a : ℕ} :
    heads c a (block :: blocks) = a :: heads c (a + (c.sizeofChunk + block.size)) blocks := rfl

theorem le_of_mem_heads {a chunk : ℕ} (hchunk : chunk ∈ heads c a blocks) : a ≤ chunk := by
  obtain ⟨entry, hentry, rfl⟩ := List.mem_map.mp hchunk
  exact (layout_bounds hentry).1

theorem heads_coalesce_subset (a : ℕ) :
    heads c a (coalesce c.sizeofChunk blocks) ⊆ heads c a blocks :=
  map_fst_layout_coalesce_subset a blocks

/-- The chunk behind one in use is not swallowed. -/
theorem mem_heads_coalesce {a addr : ℕ} (hused : block.free = false)
    (hslot : (addr, block) ∈ layout c.sizeofChunk a blocks)
    (hnext : addr + (c.sizeofChunk + block.size) ∈ heads c a blocks) :
    (addr, block) ∈ layout c.sizeofChunk a (coalesce c.sizeofChunk blocks) ∧
      addr + (c.sizeofChunk + block.size) ∈ heads c a (coalesce c.sizeofChunk blocks) := by
  have hheader := c.sizeofChunk_pos
  obtain ⟨front, back, rfl, rfl⟩ := mem_layout_iff.mp hslot
  obtain ⟨entry, hentry, haddr⟩ := List.mem_map.mp hnext
  have hbounds := layout_bounds hentry
  have hback : coalesce c.sizeofChunk back ≠ [] := by
    rw [ne_eq, coalesce_eq_nil_iff]
    rintro rfl
    simp only [span_append, span_cons, span_nil] at hbounds
    omega
  obtain ⟨succ, rest, hsplit⟩ := List.exists_cons_of_ne_nil hback
  rw [coalesce_append_inUse front back hused, hsplit]
  refine ⟨mem_layout_iff.mpr ⟨_, _, rfl, by rw [span_coalesce]⟩, ?_⟩
  apply List.mem_map_of_mem (f := Prod.fst) (a := (_, succ))
  refine mem_layout_iff.mpr ⟨coalesce c.sizeofChunk front ++ [block], rest, by simp, ?_⟩
  simp only [span_append, span_coalesce, span_cons, span_nil]
  omega

/-- A pass over two memories that differ in the size of a chunk which is not swallowed. -/
theorem SizeDiffers.returns_mergeLoop {chunk a : ℕ} {mem₁ : Memory}
    (hseg : Seg c mem a blocks 0) (hpos : 0 < a)
    (hlt : a + span c.sizeofChunk blocks < c.sizeMod) (hdiff : SizeDiffers c chunk mem mem')
    (hapart : ∀ head ∈ heads c a blocks, HeadersApart c chunk head)
    (hstays : chunk ∈ heads c a blocks → chunk ∈ heads c a (coalesce c.sizeofChunk blocks))
    (hreturns : Returns (fun fuel => loop (mergeTurn c) fuel (entry a blocks, mem)) mem₁) :
    ∃ mem₁', Returns (fun fuel => loop (mergeTurn c) fuel (entry a blocks, mem')) mem₁' ∧
      SizeDiffers c chunk mem₁ mem₁' := by
  have hheader := c.sizeofChunk_pos
  induction blocks using coalesce.induct generalizing a mem mem' with
  | case1 =>
      have hturn : ∀ mem, mergeTurn c (entry a [], mem) = .done (.exit mem) := by simp [mergeTurn]
      obtain rfl := (returns_loop_of_exit (hturn mem)).mp hreturns
      exact ⟨mem', (returns_loop_of_exit (hturn mem')).mpr rfl, hdiff⟩
  | case2 block =>
      have hcur := hapart a List.mem_cons_self
      have hnext : chunkNext c mem a = 0 := hseg.1.next_eq
      have hnext' : chunkNext c mem' a = 0 := (hdiff.chunkNext_eq hcur).trans hnext
      have hturn : mergeTurn c (a, mem) = .done (.exit mem) := by simp [mergeTurn, hnext]
      have hturn' : mergeTurn c (a, mem') = .done (.exit mem') := by simp [mergeTurn, hnext']
      obtain rfl := (returns_loop_of_exit hturn).mp hreturns
      exact ⟨mem', (returns_loop_of_exit hturn').mpr rfl, hdiff⟩
  | case3 block succ rest hpair ih =>
      obtain ⟨mem₂, hturn, -, hkept⟩ := mergeTurn_of_free hseg hpos hlt hpair.1 hpair.2
      have haddr : a + (c.sizeofChunk + block.size) + (c.sizeofChunk + succ.size) =
          a + (c.sizeofChunk + (block.size + (succ.size + c.sizeofChunk))) := by omega
      rw [coalesce_cons_of_free hpair.1 hpair.2] at hstays
      simp only [heads_cons, haddr] at hapart hstays
      simp only [span_cons] at hlt
      have hsucc : chunkNext c mem a = a + (c.sizeofChunk + block.size) := hseg.1.next_eq
      have hswallows : chunk ≠ chunkNext c mem a := by
        rw [hsucc]
        intro hsame
        rcases List.mem_cons.mp (hstays (by simp [hsame])) with hfirst | hrest
        · omega
        · have hle := le_of_mem_heads hrest
          omega
      rcases hdiff.mergeTurn_eq (hapart a (by simp)) (hsucc ▸ hapart _ (by simp))
        (fun _ _ => hswallows) with ⟨hexit, -⟩ | ⟨mem₂', mem₂'', hturn', hturn'', hdiff₂⟩
      · rw [hturn] at hexit
        cases hexit
      rw [hturn] at hturn'
      simp only [Outcome.done.injEq, Turn.next.injEq, Prod.mk.injEq] at hturn'
      obtain ⟨hentry, rfl⟩ := hturn'
      rw [entry_cons, returns_loop_of_next hturn] at hreturns
      rw [← hentry] at hturn''
      have hrest : Seg c mem₂
          (a + (c.sizeofChunk + (block.size + (succ.size + c.sizeofChunk)))) rest 0 := by
        rw [← haddr]
        exact hseg.2.2.congr fun x hx _ => hkept x (.inr (by omega))
      have hstays' : chunk ∈ heads c
            (a + (c.sizeofChunk + (block.size + (succ.size + c.sizeofChunk)))) rest →
          chunk ∈ heads c (a + (c.sizeofChunk + (block.size + (succ.size + c.sizeofChunk))))
            (coalesce c.sizeofChunk rest) := by
        intro hmem
        have hle := le_of_mem_heads hmem
        rcases List.mem_cons.mp (hstays (by simp [hmem])) with hfirst | hrest
        · omega
        · exact hrest
      obtain ⟨mem₁', hreturns', hdiff₁⟩ := ih hrest (by omega) (by omega) hdiff₂
        (fun head hhead => hapart head (by simp [hhead])) hstays' hreturns
      exact ⟨mem₁', by rwa [entry_cons, returns_loop_of_next hturn''], hdiff₁⟩
  | case4 block succ rest hpair ih =>
      have hturn := mergeTurn_of_not_free hseg hpos hpair
      rw [coalesce_cons_of_not_free hpair] at hstays
      rw [heads_cons] at hapart
      rw [span_cons] at hlt
      have hsucc : chunkNext c mem a = a + (c.sizeofChunk + block.size) := hseg.1.next_eq
      have hboth : ¬ (chunkFree c mem a ≠ 0 ∧ chunkFree c mem (chunkNext c mem a) ≠ 0) := by
        rw [hsucc, hseg.1.free_ne_zero_iff, hseg.2.1.free_ne_zero_iff]
        exact hpair
      rcases hdiff.mergeTurn_eq (hapart a (by simp)) (hsucc ▸ hapart _ (by simp [heads_cons]))
        (fun h h' => absurd ⟨h, h'⟩ hboth) with
        ⟨hexit, -⟩ | ⟨mem₂, mem₂', hturn', hturn'', hdiff₂⟩
      · rw [hturn] at hexit
        cases hexit
      rw [hturn] at hturn'
      simp only [Outcome.done.injEq, Turn.next.injEq, Prod.mk.injEq] at hturn'
      obtain ⟨hentry, rfl⟩ := hturn'
      rw [entry_cons, returns_loop_of_next hturn] at hreturns
      rw [← hentry] at hturn''
      have hstays' : chunk ∈ heads c (a + (c.sizeofChunk + block.size)) (succ :: rest) →
          chunk ∈ heads c (a + (c.sizeofChunk + block.size))
            (coalesce c.sizeofChunk (succ :: rest)) := by
        intro hmem
        have hle := le_of_mem_heads hmem
        rcases List.mem_cons.mp (hstays (List.mem_cons_of_mem a hmem)) with hfirst | hrest
        · omega
        · exact hrest
      obtain ⟨mem₁', hreturns', hdiff₁⟩ := ih hseg.2 (by omega) (by omega) hdiff₂
        (fun head hhead => hapart head (List.mem_cons_of_mem a hhead)) hstays' hreturns
      exact ⟨mem₁', by rwa [entry_cons, returns_loop_of_next hturn''], hdiff₁⟩

theorem headersApart_of_mem {a first second : ℕ} (hfirst : first ∈ heads c a blocks)
    (hsecond : second ∈ heads c a blocks) : HeadersApart c first second := by
  obtain ⟨entry, hentry, rfl⟩ := List.mem_map.mp hfirst
  obtain ⟨other, hother, rfl⟩ := List.mem_map.mp hsecond
  by_cases hsame : entry.1 = other.1
  · exact .inl hsame
  · have hapart := layout_apart hentry hother hsame
    exact .inr (by omega)

namespace Tiled

variable {chunk : ℕ} {heap₁ : Heap}

theorem returns_merge_of_differs (htiled : Tiled c heap blocks)
    (hdiff : SizeDiffers c chunk heap.mem mem')
    (hstays : chunk ∈ heads c c.heapStart (coalesce c.sizeofChunk blocks))
    (hreturns : Returns (fun fuel => merge c fuel heap) heap₁) :
    ∃ mem₁', Returns (fun fuel => merge c fuel ⟨mem', heap.freeList⟩) ⟨mem₁', heap₁.freeList⟩ ∧
      SizeDiffers c chunk heap₁.mem mem₁' := by
  have hentry : heap.freeList = entry c.heapStart blocks := by
    rw [entry, if_neg htiled.ne_nil, htiled.freeList_eq]
  obtain ⟨mem₁, hloop, rfl⟩ := returns_bind_done_iff.mp hreturns
  rw [hentry] at hloop
  obtain ⟨mem₁', hloop', hdiff₁⟩ := hdiff.returns_mergeLoop htiled.seg c.heapStart_pos
    htiled.lt_sizeMod
    (fun head hhead => headersApart_of_mem (heads_coalesce_subset _ hstays) hhead)
    (fun _ => hstays) hloop
  refine ⟨mem₁', returns_bind_done_iff.mpr ⟨mem₁', ?_, rfl⟩, hdiff₁⟩
  rw [← hentry] at hloop'
  exact hloop'

/-- `free` on two memories that differ in the size of a chunk which is not swallowed. -/
theorem returns_free_of_differs (htiled : Tiled c heap (front ++ block :: back))
    (hptr : ptr = c.heapStart + span c.sizeofChunk front + c.sizeofChunk)
    (hdiff : SizeDiffers c chunk heap.mem mem')
    (hstays : chunk ∈ heads c c.heapStart (coalesce c.sizeofChunk
      (coalesce c.sizeofChunk (front ++ ⟨block.size, true⟩ :: back))))
    (hreturns : Returns (fun fuel => free c fuel ptr heap) heap₁) :
    ∃ heap₁', Returns (fun fuel => free c fuel ptr ⟨mem', heap.freeList⟩) heap₁' ∧
      SizeDiffers c chunk heap₁.mem heap₁'.mem := by
  have hpos := c.sizeofChunk_pos
  have hend := htiled.end_le
  have hheader : getHeader c ptr = c.heapStart + span c.sizeofChunk front :=
    hptr ▸ getHeader_of_split htiled
  have hmarked := htiled.mark true
  simp only [if_true] at hmarked
  have hslot : c.heapStart + span c.sizeofChunk front ∈
      heads c c.heapStart (front ++ ⟨block.size, true⟩ :: back) :=
    List.mem_map_of_mem (f := Prod.fst) (mem_layout_iff.mpr ⟨front, back, rfl, rfl⟩)
  have hstays₁ := heads_coalesce_subset _ hstays
  have hapart := headersApart_of_mem (heads_coalesce_subset _ hstays₁) hslot
  have hdiff' : SizeDiffers c chunk
      (setChunkFree c heap.mem (c.heapStart + span c.sizeofChunk front) 1)
      (setChunkFree c mem' (c.heapStart + span c.sizeofChunk front) 1) := by
    have hfield : c.word + c.freeBytes ≤ c.sizeofChunk := by
      rw [HeapConfig.sizeofChunk, HeapConfig.nextOffset]
      omega
    apply hdiff.store
    rw [HeadersApart] at hapart
    omega
  obtain ⟨heap₂, hfirst, hsecond⟩ := (htiled.returns_free_iff (by omega) hheader).mp hreturns
  obtain ⟨heap₂', hfirst₂, htiled₂, -⟩ := hmarked.returns_merge
  obtain rfl := hfirst.unique (fuelMono_merge _) hfirst₂
  obtain ⟨mem₂', hfirst', hdiff₂⟩ := hmarked.returns_merge_of_differs hdiff' hstays₁ hfirst
  obtain ⟨mem₁', hsecond', hdiff₁⟩ := htiled₂.returns_merge_of_differs hdiff₂ hstays hsecond
  exact ⟨_, (returns_free_merges (by omega) hheader (by omega) (by omega)).mpr
    ⟨_, hfirst', hsecond'⟩, hdiff₁⟩

end Tiled

/-! ## After a release -/

/-- The chunk behind one in use is still there when another one has been released. -/
theorem mem_heads_release {addr : ℕ} {inUse : Block} (hused : inUse.free = false)
    (hslot : (addr, inUse) ∈ layout c.sizeofChunk c.heapStart (front ++ block :: back))
    (hne : addr ≠ c.heapStart + span c.sizeofChunk front)
    (hnext : addr + (c.sizeofChunk + inUse.size) ∈ heads c c.heapStart (front ++ block :: back)) :
    addr + (c.sizeofChunk + inUse.size) ∈ heads c c.heapStart (coalesce c.sizeofChunk
      (coalesce c.sizeofChunk (front ++ ⟨block.size, true⟩ :: back))) := by
  have hmarked : (addr, inUse) ∈
      layout c.sizeofChunk c.heapStart (front ++ ⟨block.size, true⟩ :: back) := by
    apply mem_layout_of_ne _ hslot hne
    rfl
  rw [heads, map_fst_layout_congr (front ++ ⟨block.size, true⟩ :: back) (by simp)] at hnext
  obtain ⟨hslot₁, hnext₁⟩ := mem_heads_coalesce hused hmarked hnext
  exact (mem_heads_coalesce hused hslot₁ hnext₁).2

/-- A size whose first byte is wrong is still wrong after `free`. -/
theorem Tiled.exists_free_not_sameChain {chunk : ℕ} (htiled : Tiled c heap (front ++ block :: back))
    (hptr : ptr = c.heapStart + span c.sizeofChunk front + c.sizeofChunk)
    (hchanged : mem' chunk ≠ heap.mem chunk)
    (hheaders : ∀ entry ∈ layout c.sizeofChunk c.heapStart (front ++ block :: back), ∀ x,
      entry.1 ≤ x → x < entry.1 + c.sizeofChunk → x ≠ chunk → mem' x = heap.mem x)
    (hstays : chunk ∈ heads c c.heapStart (coalesce c.sizeofChunk
      (coalesce c.sizeofChunk (front ++ ⟨block.size, true⟩ :: back)))) :
    ∃ heap', Returns (fun fuel => free c fuel ptr ⟨mem', heap.freeList⟩) heap' ∧
      ∀ heapF, Returns (fun fuel => free c fuel ptr heap) heapF → ¬ SameChain c heapF heap' := by
  have hpos := c.sizeofChunk_pos
  have hword := c.word_pos
  obtain ⟨good, hgood⟩ : ∃ good, good = Function.update mem' chunk (heap.mem chunk) := ⟨_, rfl⟩
  have htiledG : Tiled c ⟨good, heap.freeList⟩ (front ++ block :: back) := by
    apply htiled.congr_headers
    intro entry hentry x hle hlt
    rw [hgood, Function.update_apply]
    split
    case isTrue hsame => rw [hsame]
    case isFalse hne => exact hheaders entry hentry x hle hlt hne
  have hdiff : SizeDiffers c chunk good mem' := by
    have helse : ∀ x, x ≠ chunk → mem' x = good x := by
      intro x hx
      rw [hgood, Function.update_of_ne hx]
    refine ⟨Memory.load_ne_of_first hword ?_ helse, fun x hx => helse x (by omega)⟩
    rw [hgood, Function.update_self]
    exact hchanged
  have hheader := hptr ▸ getHeader_of_split htiled
  obtain ⟨heapG, hfreeG, htiledG', -⟩ := htiledG.returns_free (by omega) hheader
  obtain ⟨heap', hfree, hdiff'⟩ := htiledG.returns_free_of_differs hptr hdiff hstays hfreeG
  refine ⟨heap', hfree, fun heapF hfreeF hsame => hdiff'.size ?_⟩
  have htiledF := htiled.tiled_of_returns_free (by omega) hheader hfreeF
  obtain ⟨chain, hchain, -, hchunks⟩ := hsame.chunks
  obtain rfl := htiledF.chunkChain.unique hchain
  obtain ⟨entry, hentry, haddr⟩ := List.mem_map.mp hstays
  obtain ⟨_, hheaderF⟩ := htiledF.header_of_mem_layout hentry
  obtain ⟨_, hheaderG⟩ := htiledG'.header_of_mem_layout hentry
  rw [(hchunks _ hstays).1, ← haddr, hheaderF.size_eq, hheaderG.size_eq]

end Cyancore.Libc
