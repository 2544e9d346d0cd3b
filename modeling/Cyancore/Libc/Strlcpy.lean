/-
# Bounded copies of strings

`strlcpy` copies until it has stored the NUL or has one place left, where it then stores the
NUL itself.  Its result counts one place less than its source cursor has moved: the right
number when the loop has stored the NUL, one too little when the places have run out.
`strcpy` is a macro that passes the length of the source for the number of places, and so
leaves none for the last character.
-/

import Cyancore.Libc.Strings

namespace Cyancore.Libc

open Cyancore.Math Cyancore.Math.Space

variable {width : ℕ}

/-- An access to memory. -/
inductive ByteAccess (width : ℕ)
  | load (addr : BitVec width)
  | store (addr : BitVec width) (c : UInt8)
  deriving DecidableEq

/-- Whether a character other than the NUL is stored. -/
def ByteAccess.storesChar : ByteAccess width → Bool
  | .load _ => false
  | .store _ c => c ≠ 0

/-- The cursors and the memory of `strlcpy`, with the accesses so far, the oldest first. -/
structure CopyState (width : ℕ) where
  i : BitVec width
  j : BitVec width
  mem : Space width UInt8
  trace : List (ByteAccess width)

namespace CopyState

/-- `*i++ = *j++`. -/
def copyChar (state : CopyState width) : CopyState width :=
  let c := state.mem state.j
  { i := state.i + 1
    j := state.j + 1
    mem := Function.update state.mem state.i c
    trace := state.trace ++ [.load state.j, .store state.i c] }

@[simp]
theorem copyChar_i (state : CopyState width) : state.copyChar.i = state.i + 1 := rfl

@[simp]
theorem copyChar_j (state : CopyState width) : state.copyChar.j = state.j + 1 := rfl

@[simp]
theorem copyChar_mem (state : CopyState width) :
    state.copyChar.mem = Function.update state.mem state.i (state.mem state.j) := rfl

/-- `*i = '\0'`. -/
def storeNul (state : CopyState width) : CopyState width :=
  { state with
    mem := Function.update state.mem state.i 0
    trace := state.trace ++ [.store state.i 0] }

end CopyState

/-- The loop of `strlcpy` behind a decrement of `size`, with what is left of `size`. -/
def strlcpyLoop (state : CopyState width) : ℕ → CopyState width × ℕ
  | 0 => (state, 0)
  | size + 1 =>
      if state.mem state.j = 0 then (state.copyChar, size + 1)
      else strlcpyLoop state.copyChar size

/-- What a call of `strlcpy` leaves. -/
structure CopyResult (width : ℕ) where
  ret : BitVec width
  mem : Space width UInt8
  trace : List (ByteAccess width)

/-- `strlcpy`. -/
def strlcpy (mem : Space width UInt8) (i j size : BitVec width) : CopyResult width :=
  let start : CopyState width := ⟨i, j, mem, []⟩
  let (state, left) := if size ≠ 0 then strlcpyLoop start (size.toNat - 1) else (start, 0)
  let state := if left = 0 ∧ size ≠ 0 then state.storeNul else state
  ⟨state.j - j - 1, state.mem, state.trace⟩

/-- The macro `strcpy`. -/
def strcpy (mem : Space width UInt8) (i j : BitVec width) (fuel : ℕ) :
    Run (CopyResult width) := do
  let size ← strlen mem j fuel
  .done (strlcpy mem i j size)

/-! ## The loop -/

/-- The accesses of a loop that copies these characters. -/
def copies (i j : BitVec width) : List UInt8 → List (ByteAccess width)
  | [] => []
  | c :: cs => .load j :: .store i c :: copies (i + 1) (j + 1) cs

section Loop

variable {mem : Space width UInt8} {i j : BitVec width} {s : List UInt8}
  {trace : List (ByteAccess width)} {n : ℕ}

/-- As long as no place is written that is still to be read, the loop copies the string with
its NUL, or as much of it as there are places. -/
theorem strlcpyLoop_eq (hj : IsString mem j s)
    (hahead : ∀ k l, k < n → k < l → l ≤ s.length → offset i k ≠ offset j l) :
    strlcpyLoop ⟨i, j, mem, trace⟩ n =
      (⟨offset i (min n (s.length + 1)), offset j (min n (s.length + 1)),
        mem.write i ((s ++ [0]).take n), trace ++ copies i j ((s ++ [0]).take n)⟩,
        n - s.length) := by
  induction n generalizing mem i j s trace with
  | zero => simp [strlcpyLoop, write, copies]
  | succ n ih =>
      cases s with
      | nil =>
          have hstop : mem j = 0 := hj
          simp [strlcpyLoop, CopyState.copyChar, hstop, write, copies, offset]
      | cons c s =>
          obtain ⟨rfl, hc, hs⟩ := hj
          have hkept : IsString (Function.update mem i (mem j)) (j + 1) s := by
            apply hs.update
            intro l hl
            have hne := hahead 0 (l + 1) (Nat.zero_lt_succ n) (Nat.zero_lt_succ l)
              (Nat.succ_le_succ hl)
            rwa [offset_zero, ← offset_succ] at hne
          have hahead' : ∀ k l, k < n → k < l → l ≤ s.length →
              offset (i + 1) k ≠ offset (j + 1) l := by
            intro k l hk hkl hl
            rw [offset_succ, offset_succ]
            exact hahead (k + 1) (l + 1) (Nat.succ_lt_succ hk) (Nat.succ_lt_succ hkl)
              (Nat.succ_le_succ hl)
          rw [strlcpyLoop, if_neg hc, CopyState.copyChar, ih hkept hahead', offset_succ,
            offset_succ, List.append_assoc, List.length_cons, Nat.add_min_add_right,
            Nat.add_sub_add_right]
          rfl

theorem strlcpy_zero (mem : Space width UInt8) (i j : BitVec width) :
    strlcpy mem i j 0 = ⟨0 - 1, mem, []⟩ := by
  simp [strlcpy]

theorem strlcpy_of_loop {size : BitVec width} {state : CopyState width} {left : ℕ}
    (hsize : size ≠ 0)
    (hloop : strlcpyLoop ⟨i, j, mem, []⟩ (size.toNat - 1) = (state, left)) :
    strlcpy mem i j size =
      ⟨state.j - j - 1, (if left = 0 then state.storeNul else state).mem,
        (if left = 0 then state.storeNul else state).trace⟩ := by
  rw [strlcpy, if_pos hsize, hloop]
  by_cases hleft : left = 0
  · simp only [hleft, hsize, ne_eq, not_false_eq_true, and_self, if_true]
    rfl
  · simp only [hleft, false_and, if_false]

/-- The whole call, as long as no place is written that is still to be read. -/
theorem strlcpy_eq {size : BitVec width} (hj : IsString mem j s) (hsize : size ≠ 0)
    (hn : size.toNat = n + 1)
    (hahead : ∀ k l, k < n → k < l → l ≤ s.length → offset i k ≠ offset j l) :
    strlcpy mem i j size =
      ⟨BitVec.ofNat width (min n (s.length + 1)) - 1, mem.write i (s.take n ++ [0]),
        copies i j ((s ++ [0]).take n) ++
          if n ≤ s.length then [.store (offset i n) 0] else []⟩ := by
  have hloop : strlcpyLoop ⟨i, j, mem, []⟩ n = _ := strlcpyLoop_eq hj hahead
  rw [← Nat.add_sub_cancel n 1, ← hn] at hloop
  rw [strlcpy_of_loop hsize hloop, hn, Nat.add_sub_cancel]
  have hret : offset j (min n (s.length + 1)) - j = BitVec.ofNat width (min n (s.length + 1)) :=
    add_sub_cancel_left j _
  rw [hret]
  by_cases hroom : n ≤ s.length
  · rw [if_pos (Nat.sub_eq_zero_of_le hroom), if_pos hroom, CopyState.storeNul, write_append,
      List.take_append_of_le_length hroom, Nat.min_eq_left (by omega), List.length_take,
      Nat.min_eq_left hroom, List.nil_append]
    rfl
  · have hall : s.take n = s := List.take_of_length_le (by omega)
    have hstop : (s ++ [0]).take n = s ++ [0] := by
      apply List.take_of_length_le
      rw [List.length_append]
      exact not_le.mp hroom
    rw [if_neg (by omega), if_neg hroom, hall, hstop, List.nil_append, List.append_nil]

end Loop

/-! ## In bounds -/

/-- `strlcpy` on a string accesses no place that it should not, and stores what it should. -/
structure CopiesInBounds (mem : Space width UInt8) (i j size : BitVec width)
    (s : List UInt8) : Prop where
  /-- Without a place there is no access. -/
  idle : size = 0 → (strlcpy mem i j size).mem = mem ∧ (strlcpy mem i j size).trace = []
  chars : size ≠ 0 → ∀ k < min s.length (size.toNat - 1),
    some ((strlcpy mem i j size).mem (offset i k)) = s[k]?
  nul : size ≠ 0 → (strlcpy mem i j size).mem (offset i (min s.length (size.toNat - 1))) = 0
  /-- Nothing changes behind the NUL, before the destination or elsewhere. -/
  unchanged : ∀ addr, (∀ k ≤ s.length, k < size.toNat → addr ≠ offset i k) →
    (strlcpy mem i j size).mem addr = mem addr
  /-- What is read lies no further than the NUL of the source. -/
  loads : ∀ addr, .load addr ∈ (strlcpy mem i j size).trace →
    ∃ l ≤ s.length, addr = offset j l
  stores : ∀ addr c, .store addr c ∈ (strlcpy mem i j size).trace →
    ∃ k ≤ s.length, k < size.toNat ∧ addr = offset i k

/-- Two characters. -/
def greeting : List UInt8 := [0x68, 0x69]

/-- A memory that holds them as a string at `0x100`. -/
def twoChars : Space 16 UInt8 := fun addr =>
  if addr = 0x100 then 0x68 else if addr = 0x101 then 0x69 else 0

section Bounds

variable {mem : Space width UInt8} {i j size : BitVec width} {s : List UInt8}

theorem mem_copies {access : ByteAccess width} {cs : List UInt8} (h : access ∈ copies i j cs) :
    ∃ k < cs.length, access = .load (offset j k) ∨ ∃ c, access = .store (offset i k) c := by
  induction cs generalizing i j with
  | nil => exact absurd h List.not_mem_nil
  | cons c cs ih =>
      rw [copies, List.mem_cons, List.mem_cons] at h
      rcases h with rfl | rfl | h
      · exact ⟨0, Nat.zero_lt_succ _, .inl (by rw [offset_zero])⟩
      · exact ⟨0, Nat.zero_lt_succ _, .inr ⟨c, by rw [offset_zero]⟩⟩
      · obtain ⟨k, hk, haccess⟩ := ih h
        rw [offset_succ, offset_succ] at haccess
        exact ⟨k + 1, Nat.succ_lt_succ hk, haccess⟩

theorem exists_toNat_eq_succ (hsize : size ≠ 0) : ∃ n, size.toNat = n + 1 :=
  Nat.exists_eq_succ_of_ne_zero fun hzero => hsize (BitVec.eq_of_toNat_eq hzero)

/-- Buffers that do not overlap: no place is written that is still to be read. -/
theorem ahead_of_apart {n : ℕ} (hn : size.toNat = n + 1)
    (hapart : ∀ k ≤ s.length, k < size.toNat → ∀ l ≤ s.length, offset i k ≠ offset j l)
    (k l : ℕ) (hk : k < n) (hkl : k < l) (hl : l ≤ s.length) : offset i k ≠ offset j l :=
  hapart k (by omega) (by omega) l hl

/-- Where the accesses of a call lie. -/
theorem mem_strlcpy_trace (hj : IsString mem j s) (hsize : size ≠ 0)
    (hapart : ∀ k ≤ s.length, k < size.toNat → ∀ l ≤ s.length, offset i k ≠ offset j l)
    {access : ByteAccess width} (haccess : access ∈ (strlcpy mem i j size).trace) :
    (∃ l ≤ s.length, access = .load (offset j l)) ∨
      ∃ k ≤ s.length, k < size.toNat ∧ ∃ c, access = .store (offset i k) c := by
  obtain ⟨n, hn⟩ := exists_toNat_eq_succ hsize
  rw [strlcpy_eq hj hsize hn (ahead_of_apart hn hapart), List.mem_append] at haccess
  rcases haccess with hloop | hnul
  · have hlength : ((s ++ [0]).take n).length = min n (s.length + 1) := by
      rw [List.length_take, List.length_append, List.length_singleton]
    obtain ⟨k, hk, hload | hstore⟩ := mem_copies hloop
    · exact .inl ⟨k, by omega, hload⟩
    · exact .inr ⟨k, by omega, by omega, hstore⟩
  · by_cases hroom : n ≤ s.length
    · rw [if_pos hroom, List.mem_singleton] at hnul
      exact .inr ⟨n, hroom, by omega, 0, hnul⟩
    · rw [if_neg hroom] at hnul
      exact absurd hnul List.not_mem_nil

/-- `strlcpy` stays in bounds and terminates the string. -/
theorem copiesInBounds (mem : Space width UInt8) (i j size : BitVec width) (s : List UInt8)
    (hj : IsString mem j s)
    (hapart : ∀ k ≤ s.length, k < size.toNat → ∀ l ≤ s.length, offset i k ≠ offset j l) :
    CopiesInBounds mem i j size s := by
  by_cases hsize : size = 0
  · subst hsize
    have hidle := strlcpy_zero mem i j
    constructor
    case idle => exact fun _ => by rw [hidle]; exact ⟨rfl, rfl⟩
    case chars => exact fun hsome => absurd rfl hsome
    case nul => exact fun hsome => absurd rfl hsome
    case unchanged => exact fun addr _ => by rw [hidle]
    case loads => exact fun addr haccess => absurd (hidle ▸ haccess) List.not_mem_nil
    case stores => exact fun addr c haccess => absurd (hidle ▸ haccess) List.not_mem_nil
  obtain ⟨n, hn⟩ := exists_toNat_eq_succ hsize
  have hpred : size.toNat - 1 = n := by omega
  have hlt := size.isLt
  have hcall : (strlcpy mem i j size).mem = mem.write i (s.take n ++ [0]) := by
    rw [strlcpy_eq hj hsize hn (ahead_of_apart hn hapart)]
  have hlength : (s.take n ++ [0]).length = min s.length n + 1 := by
    rw [List.length_append, List.length_take, Nat.min_comm, List.length_singleton]
  constructor
  case idle => exact fun hnone => absurd hnone hsize
  case chars =>
    intro _ k hk
    rw [hcall, write_apply (by omega) (by omega), ← List.getElem?_eq_getElem,
      List.getElem?_append_left (by rw [List.length_take]; omega),
      List.getElem?_take_of_lt (by omega)]
  case nul =>
    intro _
    rw [hcall, hpred, write_append, List.length_take, Nat.min_comm]
    exact Function.update_self _ _ _
  case unchanged =>
    intro addr houtside
    rw [hcall]
    apply write_of_outside
    intro k hk
    exact houtside k (by omega) (by omega)
  case loads =>
    intro addr haccess
    rcases mem_strlcpy_trace hj hsize hapart haccess with ⟨l, hl, hload⟩ | ⟨k, -, -, c, hstore⟩
    · exact ⟨l, hl, ByteAccess.load.inj hload⟩
    · cases hstore
  case stores =>
    intro addr c haccess
    rcases mem_strlcpy_trace hj hsize hapart haccess with ⟨l, -, hload⟩ | ⟨k, hk, hlt, c, hstore⟩
    · cases hload
    · exact ⟨k, hk, hlt, (ByteAccess.store.inj hstore).1⟩

/-- Two characters into two places. -/
theorem copiesInBounds_truncated :
    IsString twoChars 0x100 greeting ∧ CopiesInBounds twoChars 0x200 0x100 2 greeting :=
  ⟨by decide, copiesInBounds _ _ _ _ _ (by decide) (by decide)⟩

end Bounds

/-! ## The result -/

/-- The result is the number of characters stored, the NUL not counted. -/
def ReportsCopied (mem : Space width UInt8) (i j size : BitVec width) : Prop :=
  (strlcpy mem i j size).ret.toNat =
    (strlcpy mem i j size).trace.countP ByteAccess.storesChar

instance (mem : Space width UInt8) (i j size : BitVec width) :
    Decidable (ReportsCopied mem i j size) := inferInstanceAs (Decidable (_ = _))

section Result

variable {mem : Space width UInt8} {i j size : BitVec width} {s : List UInt8} {n : ℕ}

theorem countP_copies (i j : BitVec width) (cs : List UInt8) :
    (copies i j cs).countP ByteAccess.storesChar = cs.countP fun c => c ≠ 0 := by
  induction cs generalizing i j with
  | nil => rfl
  | cons c cs ih =>
      rw [copies, List.countP_cons_of_neg Bool.false_ne_true, List.countP_cons, ih,
        List.countP_cons]
      rfl

/-- Of a string and its NUL, so many characters are not the NUL. -/
theorem countP_take_string (hs : ∀ c ∈ s, c ≠ 0) (n : ℕ) :
    ((s ++ [0]).take n).countP (fun c => c ≠ 0) = min n s.length := by
  rw [List.take_append, List.countP_append]
  have hchars : (s.take n).countP (fun c => c ≠ 0) = (s.take n).length := by
    rw [List.countP_eq_length]
    exact fun c hc => decide_eq_true (hs c (List.mem_of_mem_take hc))
  have hnul : (([0] : List UInt8).take (n - s.length)).countP (fun c => c ≠ 0) = 0 := by
    rw [List.countP_eq_zero]
    intro c hc
    rw [List.mem_singleton.mp (List.mem_of_mem_take hc)]
    decide
  rw [hchars, hnul, List.length_take, Nat.add_zero]

/-- No number of steps is the number of steps less one. -/
theorem ofNat_sub_one_toNat_ne (hwidth : 0 < width) (n : ℕ) :
    (BitVec.ofNat width n - 1).toNat ≠ n := by
  intro hsame
  have hback := congrArg (BitVec.ofNat width) hsame
  rw [BitVec.ofNat_toNat, BitVec.setWidth_eq, sub_eq_self] at hback
  have hone : 1 % 2 ^ width = 0 % 2 ^ width := congrArg BitVec.toNat hback
  rw [Nat.mod_eq_of_lt (Nat.one_lt_two_pow hwidth.ne'), Nat.zero_mod] at hone
  exact one_ne_zero hone

/-- A destination that begins inside the source, behind its first character: every character
read has been stored over the source before, so that the loop meets no NUL. -/
theorem strlcpyLoop_of_overlap {state : CopyState width} {d : ℕ} (hd : 0 < d)
    (hi : state.i = offset state.j d) (hchars : ∀ l < d, state.mem (offset state.j l) ≠ 0)
    (n : ℕ) : (strlcpyLoop state n).2 = 0 ∧ (strlcpyLoop state n).1.j = offset state.j n ∧
      (strlcpyLoop state n).1.trace.countP ByteAccess.storesChar =
        state.trace.countP ByteAccess.storesChar + n := by
  induction n generalizing state with
  | zero => exact ⟨rfl, (offset_zero state.j).symm, rfl⟩
  | succ n ih =>
      have hfirst : state.mem state.j ≠ 0 := by
        have hzero := hchars 0 hd
        rwa [offset_zero] at hzero
      have hi' : state.copyChar.i = offset state.copyChar.j d := by
        rw [CopyState.copyChar_i, CopyState.copyChar_j, offset_succ, hi, ← offset_offset]
        rfl
      have hchars' : ∀ l < d, state.copyChar.mem (offset state.copyChar.j l) ≠ 0 := by
        intro l hl
        rw [CopyState.copyChar_mem, CopyState.copyChar_j, offset_succ]
        by_cases hwritten : offset state.j (l + 1) = state.i
        · rw [hwritten, Function.update_self]
          exact hfirst
        · have hbefore : l + 1 ≠ d := by
            rintro rfl
            exact hwritten hi.symm
          rw [Function.update_of_ne hwritten]
          exact hchars (l + 1) (by omega)
      have hstored : state.copyChar.trace.countP ByteAccess.storesChar =
          state.trace.countP ByteAccess.storesChar + 1 := by
        rw [CopyState.copyChar, List.countP_append]
        simp [ByteAccess.storesChar, hfirst]
      obtain ⟨hleft, hend, hcount⟩ := ih hi' hchars'
      rw [strlcpyLoop, if_neg hfirst]
      refine ⟨hleft, hend.trans (offset_succ state.j n), ?_⟩
      rw [hcount, hstored, Nat.add_assoc, Nat.add_comm 1 n]

/-- The number of places is one more than a number of steps that are all taken. -/
theorem strlcpy_of_overlap (hsize : size ≠ 0) (hn : size.toNat = n + 1) (hne : i ≠ j)
    (hj : IsString mem j s) (hinside : distance j i ≤ s.length) :
    (strlcpy mem i j size).ret = BitVec.ofNat width n - 1 ∧
      (strlcpy mem i j size).trace.countP ByteAccess.storesChar = n := by
  have hd : 0 < distance j i := Nat.pos_of_ne_zero (mt distance_eq_zero_iff.mp hne)
  have hchars : ∀ l < distance j i, mem (offset j l) ≠ 0 :=
    fun l hl => hj.at_ne_stop (hl.trans_le hinside)
  obtain ⟨hleft, hend, hcount⟩ := @strlcpyLoop_of_overlap _ ⟨i, j, mem, []⟩ _ hd
    (offset_distance j i).symm hchars n
  have hret : offset j n - j = BitVec.ofNat width n := add_sub_cancel_left j _
  rw [strlcpy_of_loop hsize (Prod.eta _).symm, hn, Nat.add_sub_cancel, if_pos hleft,
    CopyState.storeNul]
  refine ⟨?_, ?_⟩
  · dsimp only
    rw [hend, hret]
  · rw [List.countP_append, hcount]
    simp [ByteAccess.storesChar]

/-- The result is right exactly when there is one place more than the string and its NUL need,
unless the destination begins inside the source. -/
theorem reportsCopied_iff (mem : Space width UInt8) (i j size : BitVec width) (s : List UInt8)
    (hwidth : 0 < width) (hj : IsString mem j s) :
    ReportsCopied mem i j size ↔
      s.length + 2 ≤ size.toNat ∧ (i = j ∨ s.length < distance j i) := by
  rw [ReportsCopied]
  by_cases hsize : size = 0
  · subst hsize
    rw [strlcpy_zero]
    refine iff_of_false (ofNat_sub_one_toNat_ne hwidth 0) ?_
    rintro ⟨hroom, -⟩
    simp at hroom
  obtain ⟨n, hn⟩ := exists_toNat_eq_succ hsize
  have hlength := hj.length_lt
  by_cases houtside : i = j ∨ s.length < distance j i
  · have hahead : ∀ k l, k < n → k < l → l ≤ s.length → offset i k ≠ offset j l := by
      intro k l _ hkl hl
      apply offset_ne_offset hkl (by omega)
      rcases houtside with rfl | hbehind
      · exact .inl (distance_self i)
      · exact .inr (by omega)
    rw [strlcpy_eq hj hsize hn hahead, List.countP_append, countP_copies,
      countP_take_string hj.ne_stop]
    by_cases hroom : n ≤ s.length
    · -- The places run out, and the cursor stands where the loop has stopped.
      rw [if_pos hroom, Nat.min_eq_left hroom, Nat.min_eq_left (by omega)]
      exact iff_of_false (ofNat_sub_one_toNat_ne hwidth n) (by omega)
    · have hret : BitVec.ofNat width (s.length + 1) - 1 = BitVec.ofNat width s.length := by
        rw [BitVec.ofNat_add]
        exact add_sub_cancel_right _ _
      rw [if_neg hroom, Nat.min_eq_right (by omega), Nat.min_eq_right (by omega), hret,
        BitVec.toNat_ofNat, Nat.mod_eq_of_lt hlength]
      exact iff_of_true rfl ⟨by omega, houtside⟩
  · obtain ⟨hne, hinside⟩ := not_or.mp houtside
    obtain ⟨hret, hcount⟩ := strlcpy_of_overlap hsize hn hne hj (not_lt.mp hinside)
    rw [hret, hcount]
    exact iff_of_false (ofNat_sub_one_toNat_ne hwidth n) fun h => houtside h.2

/-- Two characters into four places. -/
theorem reportsCopied_twoChars : ReportsCopied twoChars 0x200 0x100 4 :=
  (reportsCopied_iff twoChars 0x200 0x100 4 greeting (by decide) (by decide)).mpr
    ⟨by decide, .inr (by decide)⟩

/-- Two characters into two places: one is stored, and the result is zero. -/
theorem not_reportsCopied : ¬ ReportsCopied twoChars 0x200 0x100 2 := by
  decide

end Result

/-! ## The macro -/

/-- After `strcpy` the destination is a string that compares equal to the source. -/
def CopiesWhole (charSigned : Bool) (mem : Space width UInt8) (i j : BitVec width) : Prop :=
  ∃ result, Returns (strcpy mem i j) result ∧ (∃ t, IsString result.mem i t) ∧
    Returns (strcmp charSigned result.mem i j) 0

section Macro

variable {mem : Space width UInt8} {i j : BitVec width} {s : List UInt8}

theorem strcpy_returns_iff (hj : IsString mem j s) {result : CopyResult width} :
    Returns (strcpy mem i j) result ↔
      strlcpy mem i j (BitVec.ofNat width s.length) = result := by
  refine returns_bind_done_iff.trans ⟨?_, fun hresult => ⟨_, strlen_returns hj, hresult⟩⟩
  rintro ⟨size, hsize, rfl⟩
  have hmono : FuelMono (strlen mem j) :=
    FuelMono.bind (fuelMono_loop _ _) fun _ => fuelMono_const _
  rw [hsize.unique hmono (strlen_returns hj)]

/-- The last character of a source that has one is cut off. -/
theorem strcpy_cuts {n : ℕ} (hj : IsString mem j s) (hn : s.length = n + 1)
    (hapart : ∀ k ≤ s.length, ∀ l ≤ s.length, offset i k ≠ offset j l) :
    IsString (strlcpy mem i j (BitVec.ofNat width s.length)).mem i (s.take n) ∧
      IsString (strlcpy mem i j (BitVec.ofNat width s.length)).mem j s := by
  have hlt := hj.length_lt
  have htoNat : (BitVec.ofNat width s.length).toNat = n + 1 := by
    rw [BitVec.toNat_ofNat, Nat.mod_eq_of_lt hlt, hn]
  have hsize : BitVec.ofNat width s.length ≠ 0 := by
    intro hzero
    rw [hzero] at htoNat
    simp at htoNat
  have hlength : (s.take n).length ≤ s.length := List.length_take_le' n s
  rw [strlcpy_eq hj hsize htoNat fun k l _ hkl hl => hapart k (by omega) l hl]
  constructor
  · exact terminated_write mem i (forall_mem_take hj.ne_stop n) (hlength.trans_lt hlt)
  · refine hj.congr fun l hl => write_of_outside fun k hk => (hapart k ?_ l hl).symm
    rw [List.length_append, List.length_take, List.length_singleton] at hk
    omega

/-- `strcpy` copies the whole string only where there is nothing to copy and the NUL is in
place. -/
theorem copiesWhole_iff (charSigned : Bool) (mem : Space width UInt8) (i j : BitVec width)
    (s : List UInt8) (hj : IsString mem j s)
    (hapart : ∀ k ≤ s.length, ∀ l ≤ s.length, offset i k ≠ offset j l) :
    CopiesWhole charSigned mem i j ↔ s = [] ∧ mem i = 0 := by
  have hidle : (strlcpy mem i j 0).mem = mem := by rw [strlcpy_zero]
  constructor
  · rintro ⟨result, hresult, ⟨t, ht⟩, hequal⟩
    obtain rfl := (strcpy_returns_iff hj).mp hresult
    cases s with
    | nil =>
        have hsize : BitVec.ofNat width ([] : List UInt8).length = 0 := rfl
        rw [hsize, hidle] at ht hequal
        obtain rfl := (strcmp_returns_zero_iff charSigned ht hj).mp hequal
        exact ⟨rfl, ht⟩
    | cons c s =>
        obtain ⟨hdst, hsrc⟩ := strcpy_cuts hj rfl hapart
        have hcut := (strcmp_returns_zero_iff charSigned hdst hsrc).mp hequal
        have hshort := congrArg List.length hcut
        rw [List.length_take, List.length_cons] at hshort
        omega
  · rintro ⟨rfl, hnul⟩
    refine ⟨_, (strcpy_returns_iff hj).mpr rfl, ?_⟩
    have hsize : BitVec.ofNat width ([] : List UInt8).length = 0 := rfl
    have hempty : IsString mem i [] := hnul
    rw [hsize, hidle]
    exact ⟨⟨[], hempty⟩, (strcmp_returns_zero_iff charSigned hempty hj).mpr rfl⟩

/-- An empty string to where there is another. -/
theorem copiesWhole_empty : CopiesWhole true twoChars 0x200 0x300 :=
  (copiesWhole_iff true twoChars 0x200 0x300 [] (by decide) (by decide)).mpr ⟨rfl, by decide⟩

/-- Of a string of two characters one is copied. -/
theorem not_copiesWhole : ¬ CopiesWhole true twoChars 0x200 0x100 := by
  rintro ⟨result, hresult, -, hequal⟩
  have hsource : IsString twoChars 0x100 greeting := by decide
  obtain rfl := (strcpy_returns_iff hsource).mp hresult
  obtain ⟨hdst, hsrc⟩ := strcpy_cuts hsource rfl (i := 0x200) (by decide)
  have hcut := (strcmp_returns_zero_iff true hdst hsrc).mp hequal
  exact absurd hcut (by decide)

end Macro

end Cyancore.Libc
