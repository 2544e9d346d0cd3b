/-
# Comparing strings

Three functions compare byte by byte.  `strcmp` and `strncmp` look for the first place where
two strings differ as plain `char`s, which may be signed, and subtract there as unsigned
ones; `memcmp` subtracts at every place and stops at the first difference that is not zero.
All three give the difference at that place, and the NUL at the end of a string, which is
less than every character, makes this the lexicographic order.
-/

import Cyancore.Basic
import Cyancore.Math.Terminated
import Mathlib.Algebra.Order.Ring.Int
import Mathlib.Data.Int.Order.Basic

namespace Cyancore.Libc

open Cyancore.Math Cyancore.Math.Space

variable {width : ℕ}

/-- The characters from an address to the first NUL. -/
abbrev IsString (mem : Space width UInt8) (i : BitVec width) (s : List UInt8) : Prop :=
  Terminated 0 mem i s

/-- The value of a plain `char`. -/
def charValue (charSigned : Bool) (c : UInt8) : ℤ :=
  if charSigned then c.toInt8.toInt else c.toNat

/-- One turn of the loop in `strlen`. -/
def strlenTurn (mem : Space width UInt8) (p : BitVec width) :
    Run (Turn (BitVec width) (BitVec width)) :=
  if mem p ≠ 0 then .done (.next (p + 1)) else .done (.exit p)

/-- `strlen`. -/
def strlen (mem : Space width UInt8) (i : BitVec width) (fuel : ℕ) : Run (BitVec width) := do
  let p ← loop (strlenTurn mem) fuel i
  .done (p - i)

/-- The difference of two bytes as `unsigned char`s. -/
def byteDifference (mem : Space width UInt8) (i j : BitVec width) : ℤ :=
  (mem i).toNat - (mem j).toNat

/-- One turn of the loop in `strcmp`. -/
def strcmpTurn (charSigned : Bool) (mem : Space width UInt8)
    (cursor : BitVec width × BitVec width) : Run (Turn (BitVec width × BitVec width) ℤ) :=
  let (i, j) := cursor
  if charValue charSigned (mem i) = charValue charSigned (mem j) then
    if charValue charSigned (mem i) = 0 then .done (.exit 0)
    else .done (.next (i + 1, j + 1))
  else .done (.exit (byteDifference mem i (j + 1 - 1)))

/-- `strcmp`. -/
def strcmp (charSigned : Bool) (mem : Space width UInt8) (i j : BitVec width) (fuel : ℕ) :
    Run ℤ := loop (strcmpTurn charSigned mem) fuel (i, j)

/-- The loop of `strncmp`, with so many characters left. -/
def strncmpLoop (charSigned : Bool) (mem : Space width UInt8) (i j : BitVec width) : ℕ → ℤ
  | 0 => 0
  | n + 1 =>
      if charValue charSigned (mem i) ≠ charValue charSigned (mem j) then
        byteDifference mem i (j + 1 - 1)
      else if charValue charSigned (mem i) = 0 then 0
      else strncmpLoop charSigned mem (i + 1) (j + 1) n

/-- `strncmp`. -/
def strncmp (charSigned : Bool) (mem : Space width UInt8) (i j n : BitVec width) : ℤ :=
  if n = 0 then 0 else strncmpLoop charSigned mem i j n.toNat

/-- The loop of `memcmp`, with so many bytes left. -/
def memcmpLoop (mem : Space width UInt8) (s d : BitVec width) (ret : ℤ) : ℕ → ℤ
  | 0 => ret
  | size + 1 =>
      let ret := byteDifference mem s d
      if ret ≠ 0 then ret else memcmpLoop mem (s + 1) (d + 1) ret size

/-- `memcmp`. -/
def memcmp (mem : Space width UInt8) (i j size : BitVec width) : ℤ :=
  memcmpLoop mem i j 0 size.toNat

/-! ## The lexicographic order -/

/-- A number whose sign tells how two strings compare. -/
def Orders (r : ℤ) (s t : List UInt8) : Prop :=
  (r < 0 ↔ s < t) ∧ (r = 0 ↔ s = t) ∧ (0 < r ↔ t < s)

/-- The difference at the first place where two strings differ, with a zero behind each. -/
def difference : List UInt8 → List UInt8 → ℤ
  | [], [] => 0
  | [], d :: _ => -d.toNat
  | c :: _, [] => c.toNat
  | c :: s, d :: t => if c = d then difference s t else c.toNat - d.toNat

theorem toNat_pos {c : UInt8} (hc : c ≠ 0) : 0 < c.toNat :=
  Nat.pos_of_ne_zero fun hzero => hc (UInt8.toNat_inj.mp hzero)

/-- Between strings without a NUL the difference has the sign of the order. -/
theorem orders_difference {s t : List UInt8} (hs : ∀ c ∈ s, c ≠ 0) (ht : ∀ d ∈ t, d ≠ 0) :
    Orders (difference s t) s t := by
  induction s generalizing t with
  | nil =>
      cases t with
      | nil => simp [Orders, difference]
      | cons d t =>
          have hd := toNat_pos (List.forall_mem_cons.mp ht).1
          simp [Orders, difference, hd, hd.ne']
  | cons c s ih =>
      cases t with
      | nil =>
          have hc := toNat_pos (List.forall_mem_cons.mp hs).1
          simp [Orders, difference, hc, hc.ne']
      | cons d t =>
          obtain ⟨hlt, heq, hgt⟩ :=
            ih (List.forall_mem_cons.mp hs).2 (List.forall_mem_cons.mp ht).2
          rw [Orders, List.cons_lt_cons_iff, List.cons_lt_cons_iff, List.cons_eq_cons,
            UInt8.lt_iff_toNat_lt, UInt8.lt_iff_toNat_lt, difference]
          by_cases hsame : c = d
          · rw [if_pos hsame, hlt, heq, hgt, hsame]
            simp
          · have hne : c.toNat ≠ d.toNat := mt UInt8.toNat_inj.mp hsame
            rw [if_neg hsame]
            simp only [hsame, Ne.symm hsame, false_and, or_false]
            refine ⟨by omega, iff_of_false ?_ not_false, by omega⟩
            omega

/-! ## The loops -/

section Loops

variable {charSigned : Bool} {mem : Space width UInt8} {i j : BitVec width} {s t : List UInt8}

theorem charValue_inj {c d : UInt8} :
    charValue charSigned c = charValue charSigned d ↔ c = d := by
  cases charSigned with
  | false => exact Int.ofNat_inj.trans UInt8.toNat_inj
  | true => exact Int8.toInt_inj.trans ⟨congrArg Int8.toUInt8, congrArg UInt8.toInt8⟩

theorem charValue_eq_zero_iff {c : UInt8} : charValue charSigned c = 0 ↔ c = 0 := by
  have hzero : charValue charSigned 0 = 0 := by cases charSigned <;> rfl
  rw [← hzero, charValue_inj]

/-- `strlen` returns the length. -/
theorem strlen_returns (hi : IsString mem i s) :
    Returns (strlen mem i) (BitVec.ofNat width s.length) := by
  have hloop : Returns (fun fuel => loop (strlenTurn mem) fuel i) (offset i s.length) := by
    induction s generalizing i with
    | nil =>
        have hturn : strlenTurn mem i = .done (.exit i) := if_neg (not_not.mpr hi)
        rw [returns_loop_of_exit hturn, List.length_nil, offset_zero]
    | cons c s ih =>
        have hturn : strlenTurn mem i = .done (.next (i + 1)) := if_pos (hi.1.symm ▸ hi.2.1)
        rw [returns_loop_of_next hturn, List.length_cons, ← offset_succ]
        exact ih hi.2.2
  have hend : offset i s.length - i = BitVec.ofNat width s.length := add_sub_cancel_left i _
  exact returns_bind_done_iff.mpr ⟨_, hloop, hend⟩

/-- Two strings are at their ends, or begin with different bytes, one of them perhaps the NUL,
or share their first character. -/
theorem heads_cases (hi : IsString mem i s) (hj : IsString mem j t) :
    (s = [] ∧ t = [] ∧ mem i = 0 ∧ mem j = 0) ∨
      (mem i ≠ mem j ∧ difference s t = byteDifference mem i j ∧
        ∀ n, difference (s.take (n + 1)) (t.take (n + 1)) = byteDifference mem i j) ∨
      ∃ c s' t', c ≠ 0 ∧ s = c :: s' ∧ t = c :: t' ∧ mem i = c ∧ mem j = c ∧
        IsString mem (i + 1) s' ∧ IsString mem (j + 1) t' := by
  cases s with
  | nil =>
      have hzero : mem i = 0 := hi
      cases t with
      | nil => exact .inl ⟨rfl, rfl, hi, hj⟩
      | cons d t =>
          obtain ⟨rfl, hd, -⟩ := hj
          have hsub : -((mem j).toNat : ℤ) = byteDifference mem i j := by
            rw [byteDifference, hzero, UInt8.toNat_zero, Int.natCast_zero, Int.zero_sub]
          exact .inr (.inl ⟨hzero ▸ hd.symm, hsub, fun _ => hsub⟩)
  | cons c s =>
      obtain ⟨rfl, hc, hs⟩ := hi
      cases t with
      | nil =>
          have hzero : mem j = 0 := hj
          have hsub : ((mem i).toNat : ℤ) = byteDifference mem i j := by
            rw [byteDifference, hzero, UInt8.toNat_zero, Int.natCast_zero, Int.sub_zero]
          exact .inr (.inl ⟨hzero ▸ hc, hsub, fun _ => hsub⟩)
      | cons d t =>
          obtain ⟨rfl, -, ht⟩ := hj
          by_cases hsame : mem i = mem j
          · exact .inr (.inr ⟨mem i, s, t, hc, rfl, hsame ▸ rfl, rfl, hsame.symm, hs, ht⟩)
          · exact .inr (.inl ⟨hsame, if_neg hsame, fun _ => if_neg hsame⟩)

theorem difference_cons_self (c : UInt8) (s t : List UInt8) :
    difference (c :: s) (c :: t) = difference s t := if_pos rfl

/-- `strcmp` returns the difference at the first place where the strings differ. -/
theorem strcmp_returns (charSigned : Bool) {i j : BitVec width} {s t : List UInt8}
    (hi : IsString mem i s) (hj : IsString mem j t) :
    Returns (strcmp charSigned mem i j) (difference s t) := by
  rcases heads_cases hi hj with ⟨rfl, rfl, hzero, hzero'⟩ | ⟨hne, hsub, -⟩ |
      ⟨c, s', t', hc, rfl, rfl, rfl, hsame, hs, ht⟩
  · have hturn : strcmpTurn charSigned mem (i, j) = .done (.exit 0) := by
      rw [strcmpTurn, if_pos (charValue_inj.mpr (hzero.trans hzero'.symm)),
        if_pos (charValue_eq_zero_iff.mpr hzero)]
    exact (returns_loop_of_exit hturn).mpr rfl
  · have hturn : strcmpTurn charSigned mem (i, j) = .done (.exit (byteDifference mem i j)) := by
      rw [strcmpTurn, if_neg (mt charValue_inj.mp hne), add_sub_cancel_right]
    exact (returns_loop_of_exit hturn).mpr hsub.symm
  · have hturn : strcmpTurn charSigned mem (i, j) = .done (.next (i + 1, j + 1)) := by
      rw [strcmpTurn, if_pos (charValue_inj.mpr hsame.symm),
        if_neg (mt charValue_eq_zero_iff.mp hc)]
    rw [difference_cons_self]
    exact (returns_loop_of_next hturn).mpr (strcmp_returns charSigned hs ht)
termination_by s.length

/-- It returns zero exactly for equal strings. -/
theorem strcmp_returns_zero_iff (charSigned : Bool) (hi : IsString mem i s)
    (hj : IsString mem j t) : Returns (strcmp charSigned mem i j) 0 ↔ s = t := by
  have hcall := strcmp_returns charSigned hi hj
  rw [← (orders_difference hi.ne_stop hj.ne_stop).2.1]
  constructor
  · exact fun hzero => hcall.unique (fuelMono_loop _ _) hzero
  · exact fun hzero => hzero ▸ hcall

/-- `strncmp` returns that difference for the strings cut to so many characters. -/
theorem strncmpLoop_eq (charSigned : Bool) (hi : IsString mem i s) (hj : IsString mem j t)
    (n : ℕ) : strncmpLoop charSigned mem i j n = difference (s.take n) (t.take n) := by
  induction n generalizing i j s t with
  | zero => rw [strncmpLoop, List.take_zero, List.take_zero, difference]
  | succ n ih =>
      rw [strncmpLoop]
      rcases heads_cases hi hj with ⟨rfl, rfl, hzero, hzero'⟩ | ⟨hne, -, hcut⟩ |
          ⟨c, s', t', hc, rfl, rfl, rfl, hsame, hs, ht⟩
      · rw [if_neg (not_not.mpr (charValue_inj.mpr (hzero.trans hzero'.symm))),
          if_pos (charValue_eq_zero_iff.mpr hzero), List.take_nil, difference]
      · rw [if_pos (mt charValue_inj.mp hne), add_sub_cancel_right, hcut]
      · rw [if_neg (not_not.mpr (charValue_inj.mpr hsame.symm)),
          if_neg (mt charValue_eq_zero_iff.mp hc), ih hs ht, List.take_succ_cons,
          List.take_succ_cons, difference_cons_self]

theorem strncmp_eq (charSigned : Bool) (hi : IsString mem i s) (hj : IsString mem j t)
    (n : BitVec width) :
    strncmp charSigned mem i j n = difference (s.take n.toNat) (t.take n.toNat) := by
  rw [strncmp, strncmpLoop_eq charSigned hi hj]
  split_ifs with hzero
  · subst hzero
    rfl
  · rfl

/-- `memcmp` returns it over the shorter string and one byte more. -/
theorem memcmpLoop_eq {i j : BitVec width} {s t : List UInt8} (hi : IsString mem i s)
    (hj : IsString mem j t) (ret : ℤ) :
    memcmpLoop mem i j ret (min s.length t.length + 1) = difference s t := by
  rw [memcmpLoop]
  rcases heads_cases hi hj with ⟨rfl, rfl, hzero, hzero'⟩ | ⟨hne, hsub, -⟩ |
      ⟨c, s', t', hc, rfl, rfl, rfl, hsame, hs, ht⟩
  · have hnone : byteDifference mem i j = 0 := by rw [byteDifference, hzero, hzero', sub_self]
    rw [hnone, if_neg (not_not.mpr rfl)]
    rfl
  · have hsome : byteDifference mem i j ≠ 0 := by
      rw [byteDifference, sub_ne_zero, ne_eq, Int.ofNat_inj, UInt8.toNat_inj]
      exact hne
    rw [if_pos hsome, hsub]
  · have hnone : byteDifference mem i j = 0 := by rw [byteDifference, hsame, sub_self]
    rw [hnone, if_neg (not_not.mpr rfl), difference_cons_self, List.length_cons,
      List.length_cons, Nat.add_min_add_right]
    exact memcmpLoop_eq hs ht 0
termination_by s.length

theorem difference_self (s : List UInt8) : difference s s = 0 := by
  induction s with
  | nil => rfl
  | cons c s ih => rw [difference_cons_self, ih]

theorem memcmp_eq (hi : IsString mem i s) (hj : IsString mem j t) :
    memcmp mem i j (BitVec.ofNat width (min s.length t.length + 1)) = difference s t := by
  have hs := hi.length_lt
  have ht := hj.length_lt
  by_cases hfits : min s.length t.length + 1 < 2 ^ width
  · rw [memcmp, BitVec.toNat_ofNat, Nat.mod_eq_of_lt hfits, memcmpLoop_eq hi hj]
  · -- Both strings fill the address space, so that they are the same, and the size is zero.
    obtain rfl := hi.base_eq_of_full hj (by omega) (by omega)
    obtain rfl := hi.unique hj
    have hfull : min s.length s.length + 1 = 2 ^ width := by omega
    rw [memcmp, BitVec.toNat_ofNat, hfull, Nat.mod_self, memcmpLoop, difference_self]

end Loops

/-! ## One order -/

section Order

variable {r r' r'' : ℤ} {s t u : List UInt8}

theorem Orders.sign_eq (h : Orders r s t) (h' : Orders r' s t) : r.sign = r'.sign := by
  rcases lt_trichotomy r 0 with hneg | hzero | hpos
  · rw [Int.sign_eq_neg_one_of_neg hneg, Int.sign_eq_neg_one_of_neg (h'.1.mpr (h.1.mp hneg))]
  · rw [hzero, h'.2.1.mpr (h.2.1.mp hzero)]
  · rw [Int.sign_eq_one_of_pos hpos, Int.sign_eq_one_of_pos (h'.2.2.mpr (h.2.2.mp hpos))]

theorem Orders.swap (h : Orders r s t) : Orders (-r) t s := by
  obtain ⟨hlt, heq, hgt⟩ := h
  exact ⟨neg_lt_zero.trans hgt, neg_eq_zero.trans (heq.trans eq_comm), neg_pos.trans hlt⟩

theorem Orders.le_iff (h : Orders r s t) : r ≤ 0 ↔ s < t ∨ s = t := by
  rw [← h.1, ← h.2.1, le_iff_lt_or_eq]

theorem Orders.trans (h : Orders r s t) (h' : Orders r' t u) (h'' : Orders r'' s u) :
    (r ≤ 0 → r' ≤ 0 → r'' ≤ 0) ∧ (r < 0 → r' ≤ 0 → r'' < 0) ∧ (r ≤ 0 → r' < 0 → r'' < 0) := by
  rw [h.le_iff, h'.le_iff, h''.le_iff, h.1, h'.1, h''.1]
  refine ⟨?_, ?_, ?_⟩
  · rintro (hst | rfl) (htu | rfl)
    · exact .inl (List.lt_trans hst htu)
    · exact .inl hst
    · exact .inl htu
    · exact .inr rfl
  · rintro hst (htu | rfl)
    · exact List.lt_trans hst htu
    · exact hst
  · rintro (hst | rfl) htu
    · exact List.lt_trans hst htu
    · exact htu

end Order

/-- The comparison functions on the strings at three addresses. -/
structure OneOrder (charSigned : Bool) (mem : Space width UInt8) (i j k : BitVec width)
    (s t u : List UInt8) : Prop where
  /-- `strcmp` is the lexicographic order. -/
  strcmp_orders : ∃ r, Returns (strcmp charSigned mem i j) r ∧ Orders r s t
  /-- `strncmp` is that order of the strings cut to so many characters. -/
  strncmp_orders : ∀ n, Orders (strncmp charSigned mem i j n) (s.take n.toNat) (t.take n.toNat)
  /-- It has the sign of `strcmp` wherever the strings stand that are cut so. -/
  strncmp_sign : ∀ n (mem' : Space width UInt8) i' j', IsString mem' i' (s.take n.toNat) →
    IsString mem' j' (t.take n.toNat) →
      ∃ r, Returns (strcmp charSigned mem' i' j') r ∧
        (strncmp charSigned mem i j n).sign = r.sign
  /-- `memcmp` over one byte more than the shorter string has the sign of `strcmp`. -/
  memcmp_sign : ∃ r li lj, Returns (strcmp charSigned mem i j) r ∧
    Returns (strlen mem i) li ∧ Returns (strlen mem j) lj ∧
      (memcmp mem i j (BitVec.ofNat width (min li.toNat lj.toNat + 1))).sign = r.sign
  antisymm : ∃ r r', Returns (strcmp charSigned mem i j) r ∧
    Returns (strcmp charSigned mem j i) r' ∧ r'.sign = -r.sign
  trans : ∃ r r' r'', Returns (strcmp charSigned mem i j) r ∧
    Returns (strcmp charSigned mem j k) r' ∧ Returns (strcmp charSigned mem i k) r'' ∧
      (r ≤ 0 → r' ≤ 0 → r'' ≤ 0) ∧ (r < 0 → r' ≤ 0 → r'' < 0) ∧ (r ≤ 0 → r' < 0 → r'' < 0)

theorem forall_mem_take {s : List UInt8} (hs : ∀ c ∈ s, c ≠ 0) (n : ℕ) :
    ∀ c ∈ s.take n, c ≠ 0 := fun c hc => hs c (List.mem_of_mem_take hc)

/-- The comparison functions agree on the lexicographic order of unsigned bytes. -/
theorem oneOrder (charSigned : Bool) (mem : Space width UInt8) (i j k : BitVec width)
    (s t u : List UInt8) (hi : IsString mem i s) (hj : IsString mem j t)
    (hk : IsString mem k u) : OneOrder charSigned mem i j k s t u := by
  have hst := orders_difference hi.ne_stop hj.ne_stop
  have hij := strcmp_returns charSigned hi hj
  have hcut : ∀ n : BitVec width,
      Orders (strncmp charSigned mem i j n) (s.take n.toNat) (t.take n.toNat) := by
    intro n
    rw [strncmp_eq charSigned hi hj]
    exact orders_difference (forall_mem_take hi.ne_stop _) (forall_mem_take hj.ne_stop _)
  constructor
  case strcmp_orders => exact ⟨_, hij, hst⟩
  case strncmp_orders => exact hcut
  case strncmp_sign =>
    intro n mem' i' j' hi' hj'
    exact ⟨_, strcmp_returns charSigned hi' hj',
      (hcut n).sign_eq (orders_difference hi'.ne_stop hj'.ne_stop)⟩
  case memcmp_sign =>
    refine ⟨_, _, _, hij, strlen_returns hi, strlen_returns hj, ?_⟩
    rw [BitVec.toNat_ofNat, BitVec.toNat_ofNat, Nat.mod_eq_of_lt hi.length_lt,
      Nat.mod_eq_of_lt hj.length_lt, memcmp_eq hi hj]
  case antisymm =>
    refine ⟨_, _, hij, strcmp_returns charSigned hj hi, ?_⟩
    rw [← Int.sign_neg]
    exact (orders_difference hj.ne_stop hi.ne_stop).sign_eq hst.swap
  case trans =>
    exact ⟨_, _, _, hij, strcmp_returns charSigned hj hk, strcmp_returns charSigned hi hk,
      hst.trans (orders_difference hj.ne_stop hk.ne_stop)
        (orders_difference hi.ne_stop hk.ne_stop)⟩

/-- A byte above 127, one below, and the empty string. -/
def threeStrings : Space 16 UInt8 := fun addr =>
  if addr = 0x100 then 0xe9 else if addr = 0x200 then 0x41 else 0

theorem oneOrder_bytes : OneOrder true threeStrings 0x100 0x200 0x300 [0xe9] [0x41] [] :=
  oneOrder _ _ _ _ _ _ _ _ (by decide) (by decide) (by decide)

end Cyancore.Libc
