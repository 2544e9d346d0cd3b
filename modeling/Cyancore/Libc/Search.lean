/-
# Searching strings

`memchr` and `memchr_rev` search so many bytes from either end, and `strchr` and `strchr_rev` a
string, the NUL at its end included.  `strchr_rev` goes forward like its sibling and remembers the
last match, and the two that search strings compare plain `char`s.  Of the same bytes they find the
same places.
-/

import Cyancore.Libc.Strings

namespace Cyancore.Libc

open Cyancore.Math Cyancore.Math.Space

variable {width : ℕ}

/-- `(unsigned char)r`, and the byte of `(char)r`, for an `int` of any width. -/
def lowByte {v : ℕ} (r : BitVec v) : UInt8 := UInt8.ofBitVec (r.setWidth 8)

/-- The loop of `memchr`, with so many bytes left; no address stands for `NULL`. -/
def memchrLoop (mem : Space width UInt8) (c : UInt8) (src : BitVec width) :
    ℕ → Option (BitVec width)
  | 0 => none
  | n + 1 => if mem src = c then some src else memchrLoop mem c (src + 1) n

/-- `memchr`. -/
def memchr {v : ℕ} (mem : Space width UInt8) (i : BitVec width) (r : BitVec v)
    (n : BitVec width) : Option (BitVec width) :=
  memchrLoop mem (lowByte r) i n.toNat

/-- The loop of `memchr_rev`. -/
def memchrRevLoop (mem : Space width UInt8) (c : UInt8) (src : BitVec width) :
    ℕ → Option (BitVec width)
  | 0 => none
  | n + 1 => if mem src = c then some src else memchrRevLoop mem c (src - 1) n

/-- `memchr_rev`. -/
def memchrRev {v : ℕ} (mem : Space width UInt8) (i : BitVec width) (r : BitVec v)
    (n : BitVec width) : Option (BitVec width) :=
  memchrRevLoop mem (lowByte r) (i + n - 1) n.toNat

/-- One turn of the loop in `strchr`. -/
def strchrTurn (charSigned : Bool) (mem : Space width UInt8) (c : UInt8) (i : BitVec width) :
    Run (Turn (BitVec width) (Option (BitVec width))) :=
  if charValue charSigned (mem i) = charValue charSigned c then .done (.exit (some i))
  else if charValue charSigned (mem i) = 0 then .done (.exit none)
  else .done (.next (i + 1))

/-- `strchr`. -/
def strchr {v : ℕ} (charSigned : Bool) (mem : Space width UInt8) (i : BitVec width)
    (r : BitVec v) (fuel : ℕ) : Run (Option (BitVec width)) :=
  loop (strchrTurn charSigned mem (lowByte r)) fuel i

/-- One turn of the loop in `strchr_rev`, with the last match before it. -/
def strchrRevTurn (charSigned : Bool) (mem : Space width UInt8) (c : UInt8) :
    Option (BitVec width) × BitVec width →
      Run (Turn (Option (BitVec width) × BitVec width) (Option (BitVec width)))
  | (ret, i) =>
      let ret := if charValue charSigned (mem i) = charValue charSigned c then some i else ret
      if charValue charSigned (mem i) = 0 then .done (.exit ret) else .done (.next (ret, i + 1))

/-- `strchr_rev`. -/
def strchrRev {v : ℕ} (charSigned : Bool) (mem : Space width UInt8) (i : BitVec width)
    (r : BitVec v) (fuel : ℕ) : Run (Option (BitVec width)) :=
  loop (strchrRevTurn charSigned mem (lowByte r)) fuel (none, i)

/-- One turn of the loop in `strnlen`. -/
def strnlenTurn (mem : Space width UInt8) (size : BitVec width) :
    BitVec width × BitVec width → Run (Turn (BitVec width × BitVec width) (BitVec width))
  | (ret, i) =>
      if ret < size then
        if mem i = 0 then .done (.exit ret) else .done (.next (ret + .ofNat width 1, i + 1))
      else .done (.exit ret)

/-- `strnlen`. -/
def strnlen (mem : Space width UInt8) (i size : BitVec width) (fuel : ℕ) : Run (BitVec width) :=
  loop (strnlenTurn mem size) fuel (.ofNat width 0, i)

/-! ## What a search finds -/

section Found

variable {mem : Space width UInt8} {c : UInt8} {base : BitVec width} {values : List UInt8}
  {found found' : Option (BitVec width)}

/-- The bytes from an address upwards. -/
def HoldsBytes (mem : Space width UInt8) (base : BitVec width) (values : List UInt8) : Prop :=
  ∀ k (hk : k < values.length), mem (offset base k) = values[k]

/-- The first place of a byte, if it is among those from the base. -/
def FindsFirst (c : UInt8) (base : BitVec width) (values : List UInt8) :
    Option (BitVec width) → Prop
  | none => c ∉ values
  | some p => ∃ before after, values = before ++ c :: after ∧ c ∉ before ∧
      p = offset base before.length

/-- The last place. -/
def FindsLast (c : UInt8) (base : BitVec width) (values : List UInt8) :
    Option (BitVec width) → Prop
  | none => c ∉ values
  | some p => ∃ before after, values = before ++ c :: after ∧ c ∉ after ∧
      p = offset base before.length

theorem HoldsBytes.tail {value : UInt8} (hholds : HoldsBytes mem base (value :: values)) :
    HoldsBytes mem (base + 1) values := by
  intro k hk
  rw [offset_succ]
  exact hholds (k + 1) (Nat.succ_lt_succ hk)

theorem HoldsBytes.head {value : UInt8} (hholds : HoldsBytes mem base (value :: values)) :
    mem base = value := by
  have hfirst := hholds 0 (Nat.succ_pos _)
  rwa [offset_zero] at hfirst

theorem HoldsBytes.left {more : List UInt8} (hholds : HoldsBytes mem base (values ++ more)) :
    HoldsBytes mem base values := by
  intro k hk
  have hvalue := hholds k (by rw [List.length_append]; omega)
  rwa [List.getElem_append_left hk] at hvalue

theorem FindsFirst.cons {value : UInt8} (hne : value ≠ c)
    (hfinds : FindsFirst c (base + 1) values found) :
    FindsFirst c base (value :: values) found := by
  cases found with
  | none => exact List.not_mem_cons_of_ne_of_not_mem hne.symm hfinds
  | some p =>
      obtain ⟨before, after, rfl, hbefore, rfl⟩ := hfinds
      refine ⟨value :: before, after, rfl, List.not_mem_cons_of_ne_of_not_mem hne.symm hbefore, ?_⟩
      rw [offset_succ, List.length_cons]

theorem findsFirst_memchrLoop (hholds : HoldsBytes mem base values) :
    FindsFirst c base values (memchrLoop mem c base values.length) := by
  induction values generalizing base with
  | nil => exact List.not_mem_nil
  | cons value values ih =>
      rw [List.length_cons, memchrLoop, hholds.head]
      split
      case isTrue heq =>
        exact ⟨[], values, by rw [heq]; rfl, List.not_mem_nil, (offset_zero base).symm⟩
      case isFalse hne => exact (ih hholds.tail).cons hne

theorem FindsLast.concat {value : UInt8} (hne : value ≠ c)
    (hfinds : FindsLast c base values found) : FindsLast c base (values ++ [value]) found := by
  have hlast : c ∉ [value] := by simpa using hne.symm
  cases found with
  | none => exact fun hmem => (List.mem_append.mp hmem).elim hfinds hlast
  | some p =>
      obtain ⟨before, after, rfl, hafter, rfl⟩ := hfinds
      refine ⟨before, after ++ [value], by simp, ?_, rfl⟩
      exact fun hmem => (List.mem_append.mp hmem).elim hafter hlast

theorem findsLast_memchrRevLoop (hholds : HoldsBytes mem base values) :
    FindsLast c base values
      (memchrRevLoop mem c (offset base values.length - 1) values.length) := by
  induction values using List.reverseRecOn with
  | nil => exact List.not_mem_nil
  | append_singleton values value ih =>
      have hvalue : mem (offset base values.length) = value := by
        have hlast := hholds values.length (by simp)
        simpa using hlast
      rw [List.length_append, List.length_singleton, memchrRevLoop, offset_succ_sub_one, hvalue]
      split
      case isTrue heq => exact ⟨values, [], by rw [heq], List.not_mem_nil, rfl⟩
      case isFalse hne => exact (ih hholds.left).concat hne

/-- In front of a byte the last place stays, unless the byte is the only one. -/
theorem FindsLast.cons {value : UInt8} (hfinds : FindsLast c (base + 1) values found) :
    FindsLast c base (value :: values) (found.or (if value = c then some base else none)) := by
  cases found with
  | none =>
      rw [Option.none_or]
      split
      case isTrue heq => exact ⟨[], values, by rw [heq]; rfl, hfinds, (offset_zero base).symm⟩
      case isFalse hne => exact List.not_mem_cons_of_ne_of_not_mem (Ne.symm hne) hfinds
  | some p =>
      obtain ⟨before, after, rfl, hafter, rfl⟩ := hfinds
      rw [Option.some_or]
      exact ⟨value :: before, after, rfl, hafter, by rw [offset_succ, List.length_cons]⟩

/-- There is one last place. -/
theorem FindsLast.unique (hfinds : FindsLast c base values found)
    (hfinds' : FindsLast c base values found') : found = found' := by
  cases found with
  | none =>
      cases found' with
      | none => rfl
      | some p =>
          obtain ⟨before, after, rfl, -, -⟩ := hfinds'
          exact absurd (by simp) hfinds
  | some p =>
      obtain ⟨before, after, rfl, hafter, rfl⟩ := hfinds
      cases found' with
      | none => exact absurd (by simp) hfinds'
      | some p' =>
          obtain ⟨before', after', hsame, hafter', rfl⟩ := hfinds'
          have hplace (first last : List UInt8) (hlast : c ∉ last) :
              (first ++ c :: last).reverse.idxOf c = last.length := by
            rw [List.reverse_append, List.reverse_cons, List.append_assoc,
              List.idxOf_append_of_notMem (by simpa using hlast)]
            simp
          have hlength := hplace before after hafter
          rw [hsame, hplace before' after' hafter'] at hlength
          have htotal := congrArg List.length hsame
          simp only [List.length_append, List.length_cons] at htotal
          congr 2
          omega

end Found

/-! ## Strings -/

section Strings

variable {mem : Space width UInt8} {i : BitVec width} {s : List UInt8}

/-- The bytes of a string, with its NUL. -/
theorem holdsBytes_of_isString (hi : IsString mem i s) : HoldsBytes mem i (s ++ [0]) := by
  intro k hk
  rw [List.length_append, List.length_singleton] at hk
  by_cases hlt : k < s.length
  · rw [List.getElem_append_left hlt, hi.at_getElem hlt]
  · obtain rfl : k = s.length := by omega
    simpa using hi.at_length

/-- Plain `char`s are equal as their bytes are. -/
theorem strchrTurn_eq (charSigned : Bool) (c : UInt8) :
    strchrTurn charSigned mem c i =
      if mem i = c then .done (.exit (some i))
      else if mem i = 0 then .done (.exit none) else .done (.next (i + 1)) := by
  simp only [strchrTurn, charValue_inj, charValue_eq_zero_iff]

theorem strchrRevTurn_eq (charSigned : Bool) (c : UInt8) (ret : Option (BitVec width)) :
    strchrRevTurn charSigned mem c (ret, i) =
      if mem i = 0 then .done (.exit (if mem i = c then some i else ret))
      else .done (.next (if mem i = c then some i else ret, i + 1)) := by
  simp only [strchrRevTurn, charValue_inj, charValue_eq_zero_iff]

/-- `strchr` searches like `memchr`. -/
theorem strchr_returns (charSigned : Bool) (c : UInt8) (hi : IsString mem i s) :
    Returns (fun fuel => loop (strchrTurn charSigned mem c) fuel i)
      (memchrLoop mem c i (s.length + 1)) := by
  induction s generalizing i with
  | nil =>
      have hnul : mem i = 0 := hi
      have hturn : strchrTurn charSigned mem c i =
          .done (.exit (if mem i = c then some i else none)) := by
        rw [strchrTurn_eq, if_pos hnul]
        split <;> rfl
      exact (returns_loop_of_exit hturn).mpr rfl
  | cons first s ih =>
      obtain ⟨hfirst, hne, hs⟩ := hi
      rw [List.length_cons, memchrLoop]
      split
      case isTrue heq =>
        have hturn : strchrTurn charSigned mem c i = .done (.exit (some i)) := by
          rw [strchrTurn_eq, if_pos heq]
        exact (returns_loop_of_exit hturn).mpr rfl
      case isFalse hother =>
        have hturn : strchrTurn charSigned mem c i = .done (.next (i + 1)) := by
          rw [strchrTurn_eq, if_neg hother, if_neg (hfirst ▸ hne)]
        exact (returns_loop_of_next hturn).mpr (ih hs)

/-- `strchr_rev` goes on to the end with the last match. -/
theorem strchrRev_returns (charSigned : Bool) (c : UInt8) (hi : IsString mem i s)
    (ret : Option (BitVec width)) :
    ∃ found, FindsLast c i (s ++ [0]) found ∧
      Returns (fun fuel => loop (strchrRevTurn charSigned mem c) fuel (ret, i)) (found.or ret) := by
  induction s generalizing i ret with
  | nil =>
      have hnul : mem i = 0 := hi
      have hturn : strchrRevTurn charSigned mem c (ret, i) =
          .done (.exit (if mem i = c then some i else ret)) := by
        rw [strchrRevTurn_eq, if_pos hnul]
      have hnone : FindsLast c (i + 1) [] none := List.not_mem_nil
      have hfinds : FindsLast c i [0] (if mem i = c then some i else none) := by
        rw [hnul]
        exact hnone.cons
      refine ⟨_, hfinds, (returns_loop_of_exit hturn).mpr ?_⟩
      split <;> rfl
  | cons first s ih =>
      obtain ⟨hfirst, hne, hs⟩ := hi
      have hturn : strchrRevTurn charSigned mem c (ret, i) =
          .done (.next (if mem i = c then some i else ret, i + 1)) := by
        rw [strchrRevTurn_eq, if_neg (hfirst ▸ hne)]
      obtain ⟨found, hfinds, hreturns⟩ := ih hs (if mem i = c then some i else ret)
      refine ⟨_, hfinds.cons, (returns_loop_of_next hturn).mpr ?_⟩
      have hsame : (found.or (if first = c then some i else none)).or ret =
          found.or (if mem i = c then some i else ret) := by
        rw [hfirst, Option.or_assoc]
        split <;> rfl
      rw [hsame]
      exact hreturns

/-- `strnlen` counts up to the NUL or to the size. -/
theorem strnlen_returns (hi : IsString mem i s) {size ret : BitVec width}
    (hret : ret.toNat ≤ size.toNat) :
    Returns (fun fuel => loop (strnlenTurn mem size) fuel (ret, i))
      (BitVec.ofNat width (ret.toNat + min s.length (size.toNat - ret.toNat))) := by
  induction s generalizing i ret with
  | nil =>
      have hturn : strnlenTurn mem size (ret, i) = .done (.exit ret) := by
        rw [strnlenTurn, if_pos (show mem i = 0 from hi), ite_self]
      rw [returns_loop_of_exit hturn]
      simp
  | cons first s ih =>
      obtain ⟨hfirst, hne, hs⟩ := hi
      by_cases hlt : ret < size
      · have hturn : strnlenTurn mem size (ret, i) =
            .done (.next (ret + .ofNat width 1, i + 1)) := by
          rw [strnlenTurn, if_pos hlt, if_neg (hfirst ▸ hne)]
        have hsucc : (ret + .ofNat width 1).toNat = ret.toNat + 1 := by
          have hfits : ret.toNat + 1 < 2 ^ width := Nat.lt_of_le_of_lt hlt size.isLt
          rw [BitVec.toNat_add, BitVec.toNat_ofNat, Nat.add_mod_mod, Nat.mod_eq_of_lt hfits]
        have hlt' : ret.toNat < size.toNat := hlt
        have hcount : ret.toNat + min (s.length + 1) (size.toNat - ret.toNat) =
            (ret + .ofNat width 1).toNat +
              min s.length (size.toNat - (ret + .ofNat width 1).toNat) := by
          omega
        rw [returns_loop_of_next hturn, List.length_cons, hcount]
        exact ih hs (by omega)
      · have hturn : strnlenTurn mem size (ret, i) = .done (.exit ret) := by
          rw [strnlenTurn, if_neg hlt]
        have hfull : size.toNat - ret.toNat = 0 := Nat.sub_eq_zero_of_le (not_lt.mp hlt)
        rw [returns_loop_of_exit hturn, hfull]
        simp

end Strings

/-- The search functions on a string. -/
structure Searches {v : ℕ} (charSigned : Bool) (mem : Space width UInt8) (i : BitVec width)
    (s : List UInt8) (r : BitVec v) : Prop where
  /-- `strchr` finds the first place, and `memchr` the same one among the bytes of the string. -/
  first : ∃ found, Returns (strchr charSigned mem i r) found ∧
    memchr mem i r (BitVec.ofNat width (s.length + 1)) = found ∧
      FindsFirst (lowByte r) i (s ++ [0]) found
  /-- `strchr_rev` and `memchr_rev` find the last one. -/
  last : ∃ found, Returns (strchrRev charSigned mem i r) found ∧
    memchrRev mem i r (BitVec.ofNat width (s.length + 1)) = found ∧
      FindsLast (lowByte r) i (s ++ [0]) found
  /-- `strnlen` is `strlen` up to the size. -/
  length : ∃ len, Returns (strlen mem i) len ∧
    ∀ size, ∃ cut, Returns (strnlen mem i size) cut ∧ cut.toNat = min len.toNat size.toNat

/-- The search functions agree on every string whose size fits a `size_t`. -/
theorem searches {v : ℕ} (charSigned : Bool) (mem : Space width UInt8) (i : BitVec width)
    (s : List UInt8) (r : BitVec v) (hi : IsString mem i s) (hsize : s.length + 1 < 2 ^ width) :
    Searches charSigned mem i s r := by
  have hholds := holdsBytes_of_isString hi
  have hlength : (s ++ [0]).length = s.length + 1 := List.length_append
  have hn : (BitVec.ofNat width (s.length + 1)).toNat = s.length + 1 :=
    (BitVec.toNat_ofNat _ _).trans (Nat.mod_eq_of_lt hsize)
  constructor
  case first =>
    refine ⟨_, strchr_returns charSigned (lowByte r) hi, ?_, ?_⟩
    · rw [memchr, hn]
    · rw [← hlength]
      exact findsFirst_memchrLoop hholds
  case last =>
    obtain ⟨found, hfinds, hreturns⟩ := strchrRev_returns charSigned (lowByte r) hi none
    rw [Option.or_none] at hreturns
    refine ⟨found, hreturns, ?_, hfinds⟩
    have hrev := findsLast_memchrRevLoop hholds (c := lowByte r)
    rw [hlength] at hrev
    rw [memchrRev, hn]
    exact hrev.unique hfinds
  case length =>
    refine ⟨_, strlen_returns hi, fun size => ?_⟩
    refine ⟨_, strnlen_returns hi (Nat.zero_le _), ?_⟩
    have hsize' := size.isLt
    simp only [BitVec.toNat_ofNat, Nat.zero_mod, Nat.zero_add, Nat.sub_zero]
    rw [Nat.mod_eq_of_lt (by omega), Nat.mod_eq_of_lt (by omega)]

/-- The string `abca` behind an address. -/
def abca : Space 16 UInt8 := fun addr =>
  if addr = 0x100 ∨ addr = 0x103 then 0x61 else if addr = 0x101 then 0x62
  else if addr = 0x102 then 0x63 else 0

theorem searches_abca : Searches true abca 0x100 [0x61, 0x62, 0x63, 0x61] (0x61#32) :=
  searches _ _ _ _ _ (by decide) (by decide)

end Cyancore.Libc
