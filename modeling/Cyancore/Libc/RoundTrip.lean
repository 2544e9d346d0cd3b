/-
# Decimal numbers, printed and read back

What `vprintf` emits for a `long` is a sign, padding and the digits of the magnitude;
`atol` reads the sign, passes over zeros and reads the digits.  Neither leaves the range of
its types, whatever the width is.
-/

import Cyancore.Libc.Printf
import Mathlib.Tactic.IntervalCases

namespace Cyancore.Libc

open Cyancore.Math

variable {conf : LibcConfig}

/-! ## Digits -/

theorem digitOf_eq {rem : ℕ} (hrem : rem < 16) : digitOf rem = rem.digitChar := by
  interval_cases rem <;> rfl

/-- The buffer holds the digits of a number that has no more of them than there is room. -/
theorem fillBuf_eq {radix : ℕ} (hone : 1 < radix) (hsixteen : radix ≤ 16) (room : ℕ) {unum : ℕ}
    (hunum : unum < radix ^ (room + 1)) :
    fillBuf radix (room + 1) unum = some (Nat.toDigits radix unum).reverse := by
  induction room generalizing unum with
  | zero =>
      rw [pow_one] at hunum
      rw [fillBuf, Nat.div_eq_of_lt hunum, Nat.toDigits_of_lt_base hunum, Nat.mod_eq_of_lt hunum,
        digitOf_eq (Nat.lt_of_lt_of_le hunum hsixteen)]
      rfl
  | succ room ih =>
      have hdigit := digitOf_eq (Nat.lt_of_lt_of_le (Nat.mod_lt unum (by omega)) hsixteen)
      rw [fillBuf]
      split
      · rename_i hmore
        have hbase : radix ≤ unum := (Nat.div_pos_iff.mp hmore).2
        have hrest : unum / radix < radix ^ (room + 1) :=
          Nat.div_lt_of_lt_mul (by rwa [← Nat.pow_succ'])
        rw [ih hrest, Nat.toDigits_of_base_le hone hbase, hdigit, List.reverse_append]
        rfl
      · rename_i hlast
        have hlt : unum < radix := by
          by_contra hge
          exact hlast (Nat.div_pos (Nat.le_of_not_lt hge) (by omega))
        rw [Nat.toDigits_of_lt_base hlt, hdigit, Nat.mod_eq_of_lt hlt]
        rfl

/-- What is printed of a number whose digits the buffer holds. -/
theorem unumprint_of_lt {radix unum : ℕ} (hone : 1 < radix) (hsixteen : radix ≤ 16)
    (hunum : unum < radix ^ 20) (padc : Char) (padn : ℤ) :
    unumprint unum radix padc padn =
      .ok (List.replicate (padn - (Nat.toDigits radix unum).length).toNat padc ++
        Nat.toDigits radix unum) := by
  rw [unumprint, fillBuf_eq hone hsixteen 19 hunum]
  simp only [List.length_reverse, List.reverse_reverse]
  split
  · rfl
  · rename_i hpadn
    have hnone : (padn - (Nat.toDigits radix unum).length).toNat = 0 := by omega
    rw [hnone, List.replicate_zero]

/-- Twenty digits are enough for 64 bits. -/
theorem unumprint_eq {unum : ℕ} (hunum : unum < 2 ^ 64) (padc : Char) (padn : ℤ) :
    unumprint unum 10 padc padn =
      .ok (List.replicate (padn - (Nat.toDigits 10 unum).length).toNat padc ++
        Nat.toDigits 10 unum) :=
  unumprint_of_lt (by decide) (by decide) (Nat.lt_trans hunum (by decide)) padc padn

/-- Decimal digits are digits to the readers. -/
theorem isDigit_of_mem_toDigits {unum : ℕ} : ∀ c ∈ Nat.toDigits 10 unum, isDigit c = true := by
  intro c hc
  have hdigit : c.isDigit = true := Nat.isDigit_of_mem_toDigits (by decide) (by decide) hc
  simpa [isDigit, Char.isDigit, UInt32.le_iff_toNat_le] using hdigit

/-! ## A number as it is printed -/

/-- The magnitude of a number, as the conversion computes it. -/
def magnitude {w : ℕ} (num : BitVec w) : ℕ :=
  if num.toInt < 0 then (-num).toNat else num.toNat

/-- A sign, padding and the digits of the magnitude. -/
def numeral {w : ℕ} (num : BitVec w) (padc : Char) (pad : ℕ) : List Char :=
  (if num.toInt < 0 then ['-'] else []) ++ List.replicate pad padc ++
    Nat.toDigits 10 (magnitude num)

/-- Emitting within the range of `int` appends. -/
theorem Printing.emit_eq {st : Printing conf} {chars : List Char} {count : ℤ}
    (hlow : 0 ≤ st.ret + count) (hhigh : st.ret + count ≤ conf.intMax) :
    st.emit chars count =
      .ok { st with emitted := st.emitted ++ chars, ret := st.ret + count } :=
  if_pos ⟨hhigh, by omega⟩

/-- An unsigned number is emitted after its padding. -/
theorem Printing.emitUnum_eq {st : Printing conf} {unum : ℕ} {padn : ℤ}
    (hunum : unum < 2 ^ 64) (hret : st.ret = 0) (hpadn : padn ≤ conf.intMax) :
    ∃ (pad : ℕ) (ret : ℤ), st.emitUnum unum 10 padn =
        .ok (.text, { st with
          emitted := st.emitted ++ (List.replicate pad st.padc ++ Nat.toDigits 10 unum),
          ret := ret }) ∧ (padn ≤ 0 → pad = 0) := by
  have hlength : (Nat.toDigits 10 unum).length ≤ 20 :=
    (Nat.length_toDigits_le_iff (by decide) (by decide)).mpr (Nat.lt_trans hunum (by decide))
  have hmax := conf.le_intMax
  refine ⟨(padn - (Nat.toDigits 10 unum).length).toNat,
    st.ret + (List.replicate (padn - (Nat.toDigits 10 unum).length).toNat st.padc ++
      Nat.toDigits 10 unum).length, ?_, by omega⟩
  rw [Printing.emitUnum, unumprint_eq hunum]
  simp only [bind, Except.bind]
  rw [Printing.emit_eq]
  · rfl
  · omega
  · rw [List.length_append, List.length_replicate]
    omega

/-- A number that is not the least of its type is emitted as its numeral. -/
theorem Printing.emitNum_eq {st : Printing conf} {lRet : ℕ} {padn : ℤ} {num : BitVec conf.long}
    {args : List (Arg conf)} (hnum : getNumVaArgs lRet st.args = .ok (num, args))
    (hmin : num ≠ BitVec.intMin conf.long) (hret : st.ret = 0) (hpadn : padn ≤ conf.intMax) :
    ∃ (pad : ℕ) (ret : ℤ), st.emitNum lRet padn =
        .ok (.text, { st with
          args := args, emitted := st.emitted ++ numeral num st.padc pad, ret := ret }) ∧
      (padn ≤ 0 → pad = 0) := by
  have hfits : ∀ word : BitVec conf.long, word.toNat < 2 ^ 64 := fun word =>
    Nat.lt_of_lt_of_le word.isLt (Nat.pow_le_pow_right Nat.two_pos conf.long_le)
  have hmax := conf.le_intMax
  rw [Printing.emitNum, hnum]
  simp only [bind, Except.bind]
  by_cases hneg : num.toInt < 0
  · have hsign : (st.withArgs args).emit ['-'] 0 = .ok { st with
        args := args, emitted := st.emitted ++ ['-'], ret := st.ret + 0 } :=
      Printing.emit_eq (by simp [Printing.withArgs, hret]) (by simp [Printing.withArgs, hret])
    obtain ⟨pad, ret, hprinted, hnone⟩ := @Printing.emitUnum_eq conf
      { st with args := args, emitted := st.emitted ++ ['-'], ret := st.ret + 0 } (-num).toNat
      (padn - 1) (hfits _) (by simp [hret]) (by omega)
    refine ⟨pad, ret, ?_, fun hpadn => hnone (by omega)⟩
    simp only [hneg, if_true, hmin, if_false, hsign]
    rw [hprinted, numeral, magnitude, if_pos hneg, if_pos hneg]
    simp [List.append_assoc]
  · obtain ⟨pad, ret, hprinted, hnone⟩ := @Printing.emitUnum_eq conf (st.withArgs args)
      num.toNat padn (hfits _) hret hpadn
    refine ⟨pad, ret, ?_, hnone⟩
    simp only [hneg, if_false]
    rw [hprinted, numeral, magnitude, if_neg hneg, if_neg hneg]
    rfl

/-! ## Formats -/

/-- The width, which is the last thing before the length modifier. -/
theorem printLoop_width {dev : Device} {ws fmt : List Char} {lRet padn : ℕ} {st : Printing conf}
    (hdigits : ∀ c ∈ ws, isDigit c = true)
    (hfits : Nat.ofDigitChars 10 ws padn ≤ conf.intMax) :
    printLoop dev (ws ++ fmt) (.width lRet padn) st =
      printLoop dev fmt (.width lRet (Nat.ofDigitChars 10 ws padn)) st := by
  induction ws generalizing padn with
  | nil => rfl
  | cons c ws ih =>
      rw [List.cons_append, printLoop, printStep, hdigits c List.mem_cons_self, if_pos rfl,
        accumulate_eq_some hfits]
      rw [Nat.ofDigitChars_cons] at hfits ⊢
      exact ih (fun c hc => hdigits c (List.mem_cons_of_mem _ hc)) hfits

/-- The integer conversions: `d` alone, and after one or two `l`. -/
def conversionOf : ℕ → List Char
  | 0 => ['d']
  | lRet + 1 => 'l' :: conversionOf lRet

/-- From the length modifier on, a conversion emits its number. -/
theorem printLoop_conversion {dev : Device} (count : ℕ) {lRet : ℕ} {padn : ℤ}
    {st st' : Printing conf} (hprinted : st.emitNum (lRet + count) padn = .ok (.text, st')) :
    printLoop dev (conversionOf count) (.conversion lRet padn) st = .ok (.text, st') := by
  induction count generalizing lRet with
  | zero =>
      rw [conversionOf, printLoop, printStep, convert]
      rw [Nat.add_zero] at hprinted
      rw [hprinted]
      rfl
  | succ count ih =>
      rw [conversionOf, printLoop, printStep, convert]
      refine ih ?_
      rwa [Nat.add_right_comm, Nat.add_assoc]

/-- After a width, a length modifier or the conversion itself ends the digits. -/
theorem printLoop_width_conversion {dev : Device} (count lRet padn : ℕ) (st : Printing conf) :
    printLoop dev (conversionOf count) (.width lRet padn) st =
      printLoop dev (conversionOf count) (.conversion lRet padn) st := by
  cases count <;> rfl

/-- A conversion without a width emits the numeral without padding. -/
theorem vprintf_conversion (dev : Device) {count : ℕ} {args : List (Arg conf)}
    {num : BitVec conf.long} {rest : List (Arg conf)}
    (hnum : getNumVaArgs count args = .ok (num, rest)) (hmin : num ≠ BitVec.intMin conf.long)
    (padc : Char) :
    ∃ ret, vprintf dev ('%' :: conversionOf count) args = .ok (ret, numeral num padc 0) := by
  obtain ⟨pad, ret, hprinted, hnone⟩ := @Printing.emitNum_eq conf ⟨[], args, '\x00', 5, 0⟩ count 0
    num rest hnum hmin rfl (by have := conf.le_intMax; omega)
  rw [hnone (Int.le_refl 0)] at hprinted
  rw [← Nat.zero_add count] at hprinted
  refine ⟨ret, ?_⟩
  rw [vprintf, printLoop, printStep]
  simp only [if_true, bind, Except.bind, pure, Except.pure, printLoop_conversion count hprinted]
  simp [numeral]

/-- A conversion with a zero-padded width emits the numeral, padded with zeros. -/
theorem vprintf_padded (dev : Device) {count width : ℕ} {args : List (Arg conf)}
    {num : BitVec conf.long} {rest : List (Arg conf)}
    (hnum : getNumVaArgs count args = .ok (num, rest)) (hmin : num ≠ BitVec.intMin conf.long)
    (hwidth : width ≤ conf.intMax) :
    ∃ ret pad, vprintf dev ('%' :: '0' :: (Nat.toDigits 10 width ++ conversionOf count)) args =
      .ok (ret, numeral num '0' pad) := by
  obtain ⟨pad, ret, hprinted, -⟩ := @Printing.emitNum_eq conf ⟨[], args, '0', 5, 0⟩ count width
    num rest hnum hmin rfl (by omega)
  rw [← Nat.zero_add count] at hprinted
  have hvalue : Nat.ofDigitChars 10 (Nat.toDigits 10 width) 0 = width :=
    Nat.ofDigitChars_ten_toDigits
  refine ⟨ret, pad, ?_⟩
  have hscan := @printLoop_width conf dev (Nat.toDigits 10 width) (conversionOf count) 0 0
    ⟨[], args, '0', 5, 0⟩ isDigit_of_mem_toDigits (by rw [hvalue]; exact hwidth)
  rw [hvalue, printLoop_width_conversion, printLoop_conversion count hprinted] at hscan
  rw [vprintf, printLoop, printStep]
  simp only [if_true, bind, Except.bind, pure, Except.pure]
  rw [printLoop, printStep, convert]
  simp only [bind, Except.bind, hscan]
  simp

/-! ## Reading the numeral back -/

/-- The magnitude is the absolute value. -/
theorem magnitude_eq {w : ℕ} (num : BitVec w) : magnitude num = num.toInt.natAbs := by
  have hlt := num.isLt
  rw [magnitude, BitVec.toInt_eq_toNat_cond, BitVec.toNat_neg]
  split_ifs with hsmall hneg hneg
  · omega
  · omega
  · rw [Nat.mod_eq_of_lt (by omega)]
    omega
  · omega

/-- The magnitude of a number that is not the least of its type fits the type. -/
theorem magnitude_le {w : ℕ} {num : BitVec w} (hw : 0 < w) (hmin : num ≠ BitVec.intMin w) :
    magnitude num ≤ 2 ^ (w - 1) - 1 := by
  have hne : num.toInt ≠ -(2 ^ (w - 1) : ℕ) := fun hsame =>
    hmin (BitVec.eq_of_toInt_eq (by rw [hsame, BitVec.toInt_intMin_of_pos hw]; norm_cast))
  have hlow : -((2 ^ (w - 1) : ℕ) : ℤ) ≤ num.toInt := by
    have hbound := BitVec.le_toInt num
    exact_mod_cast hbound
  have hhigh : num.toInt < (2 ^ (w - 1) : ℕ) := by
    have hbound := BitVec.toInt_lt (x := num)
    exact_mod_cast hbound
  rw [magnitude_eq]
  omega

/-- The numeral of a `long` is read back as the number, whatever the zeros in it. -/
theorem atol_numeral {num : BitVec conf.long} (hmin : num ≠ BitVec.intMin conf.long) (pad : ℕ) :
    atol conf (numeral num '0' pad) = some num := by
  have hlong := conf.long_pos
  have hdigits : ∀ c ∈ List.replicate pad '0' ++ Nat.toDigits 10 (magnitude num),
      isDigit c = true := by
    intro c hc
    rcases List.mem_append.mp hc with hzero | hdigit
    · rw [List.eq_of_mem_replicate hzero]
      rfl
    · exact isDigit_of_mem_toDigits c hdigit
  have hvalue : Nat.ofDigitChars 10 (List.replicate pad '0' ++ Nat.toDigits 10 (magnitude num)) 0 =
      magnitude num := by
    rw [Nat.ofDigitChars_append, Nat.ofDigitChars_replicate_zero, Nat.mul_zero,
      Nat.ofDigitChars_ten_toDigits]
  have hfits := magnitude_le hlong hmin
  by_cases hneg : num.toInt < 0
  · rw [numeral, if_pos hneg, List.singleton_append, List.cons_append,
      atol_minus hdigits (by rw [hvalue]; exact hfits), hvalue, magnitude, if_pos hneg,
      BitVec.ofNat_toNat, BitVec.setWidth_eq, BitVec.neg_neg]
  · rw [numeral, if_neg hneg, List.nil_append,
      atol_digits hdigits (by rw [hvalue]; exact hfits), hvalue, magnitude, if_neg hneg,
      BitVec.ofNat_toNat, BitVec.setWidth_eq]

/-- The least number of a wider type is not the extension of another than the least. -/
theorem signExtend_ne_intMin {v w : ℕ} (hv : 0 < v) (hle : v ≤ w) {num : BitVec v}
    (hmin : num ≠ BitVec.intMin v) : num.signExtend w ≠ BitVec.intMin w := by
  intro hsame
  have hvalue : num.toInt = -(2 ^ (w - 1) : ℕ) := by
    rw [← BitVec.toInt_signExtend_of_le hle, hsame, BitVec.toInt_intMin_of_pos (by omega)]
    norm_cast
  have hpow : 2 ^ (v - 1) ≤ 2 ^ (w - 1) := Nat.pow_le_pow_right Nat.two_pos (by omega)
  have hlow : (num.toInt : ℤ) = -(2 ^ (v - 1) : ℕ) := by
    have hbound := BitVec.le_toInt num
    have hcast : -(2 : ℤ) ^ (v - 1) = -((2 ^ (v - 1) : ℕ) : ℤ) := by norm_cast
    rw [hcast] at hbound
    omega
  refine hmin (BitVec.eq_of_toInt_eq ?_)
  rw [hlow, BitVec.toInt_intMin_of_pos hv]
  norm_cast

/-- The extension of an `int` to `long` is cast back to it. -/
theorem setWidth_signExtend {v w : ℕ} (hle : v ≤ w) (num : BitVec v) :
    (num.signExtend w).setWidth v = num := by
  ext i hi
  rw [BitVec.getElem_setWidth, BitVec.getLsbD_signExtend]
  simp [hi, show i < w by omega]

/-- Every `long` but the least is read back by `atol` as it was printed, with and without a
zero-padded width, and every `int` but the least by `atoi`. -/
theorem decimal_round_trip (conf : LibcConfig) (dev : Device) (width : ℕ)
    (hwidth : width ≤ conf.intMax) :
    (∀ (n : BitVec conf.long) (args : List (Arg conf)), n ≠ BitVec.intMin conf.long →
      (∃ ret emitted, vprintf dev "%ld".toList (.long n :: args) = .ok (ret, emitted) ∧
          atol conf emitted = some n) ∧
        ∃ ret emitted, vprintf dev ("%0".toList ++ Nat.toDigits 10 width ++ "ld".toList)
            (.long n :: args) = .ok (ret, emitted) ∧ atol conf emitted = some n) ∧
      ∀ (n : BitVec conf.int) (args : List (Arg conf)), n ≠ BitVec.intMin conf.int →
        (∃ ret emitted, vprintf dev "%d".toList (.int n :: args) = .ok (ret, emitted) ∧
            atoi conf emitted = some n) ∧
          ∃ ret emitted, vprintf dev ("%0".toList ++ Nat.toDigits 10 width ++ "d".toList)
              (.int n :: args) = .ok (ret, emitted) ∧ atoi conf emitted = some n := by
  constructor
  · intro n args hmin
    have hnum : getNumVaArgs 1 (.long n :: args) = .ok (n, args) := rfl
    obtain ⟨ret, hplain⟩ := vprintf_conversion dev hnum hmin '0'
    obtain ⟨ret', pad, hpadded⟩ := vprintf_padded dev hnum hmin hwidth
    exact ⟨⟨ret, _, hplain, atol_numeral hmin 0⟩, ret', _, hpadded, atol_numeral hmin pad⟩
  · intro n args hmin
    have hwide := signExtend_ne_intMin conf.int_pos conf.int_le_long hmin
    have hnum : getNumVaArgs 0 (.int n :: args) = .ok (n.signExtend conf.long, args) := rfl
    have hread : ∀ pad, atoi conf (numeral (n.signExtend conf.long) '0' pad) = some n := by
      intro pad
      rw [atoi, atol_numeral hwide, Option.map_some, setWidth_signExtend conf.int_le_long]
    obtain ⟨ret, hplain⟩ := vprintf_conversion dev hnum hwide '0'
    obtain ⟨ret', pad, hpadded⟩ := vprintf_padded dev hnum hwide hwidth
    exact ⟨⟨ret, _, hplain, hread 0⟩, ret', _, hpadded, hread pad⟩

/-- On the megaAVR, in a field of eight. -/
theorem decimal_round_trip_eight :
    ∃ ret emitted, @vprintf (.avr true) (fun _ => 0) "%08ld".toList [.long (-120)] =
        .ok (ret, emitted) ∧ atol (.avr true) emitted = some (-120) := by
  have hwidth : 8 ≤ (LibcConfig.avr true).intMax := by decide
  have hpadded := ((decimal_round_trip (.avr true) (fun _ => 0) 8 hwidth).1 (-120) []
    (by decide)).2
  exact hpadded

end Cyancore.Libc
