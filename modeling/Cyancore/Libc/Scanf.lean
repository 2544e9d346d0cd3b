/-
# Formatted input

`vscanf` reads the characters of a device one after the other, echoes them on the
console, and waits for more where there are none.  An integer conversion gathers its
value in an `int`, whatever its length modifier says, and stores it through a pointer of
the type that the modifier names.

The characters that are echoed are those that are handed to `fputc`.  Floating-point
conversions are not followed, nor are those that read the console itself.
-/

import Cyancore.Libc.RoundTrip

namespace Cyancore.Libc

open Cyancore.Math

/-- Why a call has not returned. -/
inductive ScanStop
  | /-- It waits for the device. -/
    waiting
  | /-- An overflow, a store past a buffer, or a pointer of another type. -/
    undefined
  | /-- A floating-point conversion. -/
    floating
  | /-- A conversion that reads the console. -/
    console
  deriving DecidableEq, Repr

/-- What a pointer argument points to. -/
inductive ScanTarget
  | int
  | long
  | int64
  | /-- An array with room for so many characters. -/
    str (room : ℕ)
  deriving DecidableEq, Repr

/-- What has been stored through a pointer. -/
inductive Stored (conf : LibcConfig)
  | int (value : BitVec conf.int)
  | long (value : BitVec conf.long)
  | int64 (value : BitVec 64)
  | str (value : List Char)
  deriving DecidableEq, Repr

/-- What a call has done so far, and what it goes on with. -/
structure Scanning (conf : LibcConfig) where
  input : List Char
  echo : List Char
  targets : List ScanTarget
  stored : List (Stored conf)
  ret : ℤ
  deriving DecidableEq, Repr

variable {conf : LibcConfig}

/-- The echo of a character that may end a line. -/
def echoOf (c : Char) : Char := if c = '\x0d' then '\n' else c

/-- Rub out on the console, `"\b \b"`. -/
def rubOut : List Char := ['\x08', ' ', '\x08']

/-- The backspace and delete characters. -/
def isRubOut (c : Char) : Bool := c = '\x7f' || c = '\x08'

/-- The loop that skips space: the first other character, the rest of the input and the
echo. -/
def skipSpace : List Char → List Char → Except ScanStop (Char × List Char × List Char)
  | [], _ => .error .waiting
  | c :: input, echo =>
      if isSpace c then skipSpace input (echo ++ [echoOf c])
      else .ok (c, input, echo ++ [echoOf c])

/-- What the loop over the digits does with a character: the accumulator and the echo. -/
def takeDigit (conf : LibcConfig) (c : Char) (a : ℕ) (echo : List Char) :
    Except ScanStop (ℕ × List Char) :=
  if isDigit c then
    match accumulate conf.intMax a c with
    | some a => .ok (a, echo ++ [c])
    | none => .error .undefined
  else if a ≠ 0 ∧ isRubOut c then .ok (a / 10, echo ++ rubOut)
  else .ok (a, echo)

/-- The loop over the digits of an integer, up to the next space. -/
def readDigits (conf : LibcConfig) :
    List Char → ℕ → List Char → Except ScanStop (ℕ × List Char × List Char)
  | [], _, _ => .error .waiting
  | c :: input, a, echo =>
      match takeDigit conf c a echo with
      | .ok (a, echo) =>
          if isSpace c then .ok (a, input, echo ++ [echoOf c]) else readDigits conf input a echo
      | .error stop => .error stop

/-- The loop over the characters of a word, up to the next space, with the array so far. -/
def readWord (room : ℕ) :
    List Char → List Char → List Char → Except ScanStop (List Char × List Char × List Char)
  | [], _, _ => .error .waiting
  | c :: input, word, echo =>
      if isSpace c then
        -- The terminating NUL needs a place as well.
        if word.length < room then .ok (word, input, echo ++ [echoOf c]) else .error .undefined
      else if word ≠ [] ∧ isRubOut c then
        readWord room input word.dropLast (echo ++ rubOut ++ [c])
      else if word.length < room then readWord room input (word ++ [c]) (echo ++ [c])
      else .error .undefined

/-- Store an `int` through a pointer of the type that the modifier names. -/
def storeNum (lRet : ℕ) (value : ℤ) :
    List ScanTarget → Except ScanStop (Stored conf × List ScanTarget)
  | .int64 :: targets =>
      if 2 ≤ lRet then .ok (.int64 (BitVec.ofInt 64 value), targets) else .error .undefined
  | .long :: targets =>
      if lRet = 1 then .ok (.long (BitVec.ofInt conf.long value), targets) else .error .undefined
  | .int :: targets =>
      if lRet = 0 then .ok (.int (BitVec.ofInt conf.int value), targets) else .error .undefined
  | _ => .error .undefined

/-- The conversions `d` and `i`. -/
def scanNum (lRet : ℕ) (st : Scanning conf) : Except ScanStop (Scanning conf) := do
  let (c, input, echo) ← skipSpace st.input st.echo
  let first := if c ≠ '-' ∧ isDigit c then c.toNat - '0'.toNat else 0
  let (a, input, echo) ← readDigits conf input first echo
  let (value, targets) ← storeNum lRet (if c = '-' then -a else a) st.targets
  return ⟨input, echo, targets, st.stored ++ [value], st.ret + 1⟩

/-- The conversion `s`. -/
def scanWord (st : Scanning conf) : Except ScanStop (Scanning conf) := do
  match st.targets with
  | .str room :: targets =>
      let (c, input, echo) ← skipSpace st.input st.echo
      if room = 0 then throw .undefined
      let (word, input, echo) ← readWord room input [c] echo
      return ⟨input, echo, targets, st.stored ++ [.str word], st.ret + 1⟩
  | _ => .error .undefined

/-- Where in its format a call is. -/
inductive ScanMode
  | text
  | conversion (lRet : ℕ)
  | /-- The call has returned −1. -/
    failed
  deriving DecidableEq, Repr

/-- One character of the format.  The letter of a conversion is passed over as text once the
conversion is done. -/
def scanStep (c : Char) (mode : ScanMode) (st : Scanning conf) :
    Except ScanStop (ScanMode × Scanning conf) :=
  match mode with
  | .text => .ok (if c = '%' then .conversion 0 else .text, st)
  | .conversion lRet =>
      match c with
      | 'i' | 'd' => do
          let st ← scanNum lRet st
          return (.text, st)
      | 'l' => .ok (.conversion (lRet + 1), st)
      | 'f' => if conf.useFloat then .error .floating else .ok (.failed, st)
      | 'c' => .error .console
      | 's' => do
          let st ← scanWord st
          return (.text, st)
      | _ => .ok (.failed, st)
  | .failed => .ok (.failed, st)

/-- The loop over the format. -/
def scanLoop : List Char → ScanMode → Scanning conf →
    Except ScanStop (ScanMode × Scanning conf)
  | [], mode, st => .ok (mode, st)
  | c :: fmt, mode, st => do
      let (mode, st) ← scanStep c mode st
      scanLoop fmt mode st

/-- `vscanf`: what it returns and what it has stored. -/
def vscanf (fmt input : List Char) (targets : List ScanTarget) :
    Except ScanStop (ℤ × List (Stored conf)) := do
  let (mode, st) ← scanLoop fmt .text ⟨input, [], targets, [], 0⟩
  return (if mode = .text then st.ret else -1, st.stored)

/-! ## Reading a numeral back -/

theorem takeDigit_some {c : Char} {a a' : ℕ} {echo : List Char} (hdigit : isDigit c = true)
    (hvalue : accumulate conf.intMax a c = some a') :
    takeDigit conf c a echo = .ok (a', echo ++ [c]) := by
  rw [takeDigit, if_pos hdigit, hvalue]

theorem takeDigit_none {c : Char} {a : ℕ} {echo : List Char} (hdigit : isDigit c = true)
    (hvalue : accumulate conf.intMax a c = none) :
    takeDigit conf c a echo = .error .undefined := by
  rw [takeDigit, if_pos hdigit, hvalue]

/-- The loop takes digits as far as `int` goes. -/
theorem readDigits_append {digits input echo : List Char} {a a' : ℕ}
    (hdigits : ∀ c ∈ digits, isDigit c = true)
    (hvalue : digits.foldlM (accumulate conf.intMax) a = some a') :
    readDigits conf (digits ++ input) a echo = readDigits conf input a' (echo ++ digits) := by
  induction digits generalizing a echo with
  | nil =>
      cases hvalue
      rw [List.nil_append, List.append_nil]
  | cons c digits ih =>
      have hdigit := hdigits c List.mem_cons_self
      rw [List.foldlM_cons] at hvalue
      obtain ⟨middle, hfirst, hrest⟩ := Option.bind_eq_some_iff.mp hvalue
      rw [List.cons_append, readDigits, takeDigit_some hdigit hfirst]
      simp only [isSpace_eq_false_of_isDigit hdigit, Bool.false_eq_true, if_false]
      rw [ih (fun c hc => hdigits c (List.mem_cons_of_mem _ hc)) hrest, List.append_assoc,
        List.singleton_append]

/-- Past the range of `int` the loop has no result. -/
theorem readDigits_undefined {digits input echo : List Char} {a : ℕ}
    (hdigits : ∀ c ∈ digits, isDigit c = true)
    (hvalue : digits.foldlM (accumulate conf.intMax) a = none) :
    readDigits conf (digits ++ input) a echo = .error .undefined := by
  induction digits generalizing a echo with
  | nil => cases hvalue
  | cons c digits ih =>
      have hdigit := hdigits c List.mem_cons_self
      rw [List.foldlM_cons] at hvalue
      rw [List.cons_append, readDigits]
      cases hfirst : accumulate conf.intMax a c with
      | none => rw [takeDigit_none hdigit hfirst]
      | some middle =>
          rw [takeDigit_some hdigit hfirst]
          simp only [isSpace_eq_false_of_isDigit hdigit, Bool.false_eq_true, if_false]
          refine ih (fun c hc => hdigits c (List.mem_cons_of_mem _ hc)) ?_
          rwa [hfirst] at hvalue

/-- The digits of a number, ended by a line feed, are read as the number if it fits `int`. -/
theorem readDigits_line {digits echo : List Char} {a : ℕ}
    (hdigits : ∀ c ∈ digits, isDigit c = true) (ha : a ≤ conf.intMax) :
    readDigits conf (digits ++ ['\n']) a echo =
      if Nat.ofDigitChars 10 digits a ≤ conf.intMax then
        .ok (Nat.ofDigitChars 10 digits a, [], echo ++ digits ++ ['\n'])
      else .error .undefined := by
  split_ifs with hfits
  · have hline : takeDigit conf '\n' (Nat.ofDigitChars 10 digits a) (echo ++ digits) =
        .ok (Nat.ofDigitChars 10 digits a, echo ++ digits) := by
      rw [takeDigit, if_neg (by decide), if_neg (fun hrubbed => absurd hrubbed.2 (by decide))]
    rw [readDigits_append hdigits (foldlM_accumulate hfits), readDigits, hline]
    rfl
  · exact readDigits_undefined hdigits (foldlM_accumulate_eq_none ha (Nat.lt_of_not_le hfits))

/-- The first character that is not space ends the skipping. -/
theorem skipSpace_cons {c : Char} {input : List Char} (hspace : isSpace c = false) :
    skipSpace (c :: input) [] = .ok (c, input, [c]) := by
  have hreturn : c ≠ '\x0d' := by
    rintro rfl
    cases hspace
  rw [skipSpace, if_neg (by simp [hspace]), echoOf, if_neg hreturn, List.nil_append]

/-- What `scanNum` does with the line that it is given, before it stores the value. -/
theorem scanNum_eq {input : List Char} {lRet first : ℕ} {targets : List ScanTarget} {c : Char}
    (hspace : isSpace c = false)
    (hfirst : (if c ≠ '-' ∧ isDigit c then c.toNat - '0'.toNat else 0) = first)
    (hdigits : ∀ c ∈ input, isDigit c = true) (hfits : first ≤ conf.intMax) :
    scanNum lRet (⟨c :: input ++ ['\n'], [], targets, [], 0⟩ : Scanning conf) =
      if Nat.ofDigitChars 10 input first ≤ conf.intMax then
        (storeNum lRet
          (if c = '-' then -(Nat.ofDigitChars 10 input first : ℤ)
            else Nat.ofDigitChars 10 input first) targets).map
          fun stored => ⟨[], c :: input ++ ['\n'], stored.2, [stored.1], 1⟩
      else .error .undefined := by
  rw [scanNum, List.cons_append, skipSpace_cons hspace]
  simp only [bind, Except.bind, hfirst, readDigits_line hdigits hfits]
  by_cases hvalue : Nat.ofDigitChars 10 input first ≤ conf.intMax
  · simp only [hvalue, if_true]
    cases @storeNum conf lRet _ targets <;> rfl
  · simp only [hvalue, if_false]

/-- A numeral and a line feed are read as the number if it fits `int`. -/
theorem scanNum_numeral {num : BitVec conf.long} {padc : Char} {lRet : ℕ}
    {targets : List ScanTarget} :
    scanNum lRet (⟨numeral num padc 0 ++ ['\n'], [], targets, [], 0⟩ : Scanning conf) =
      if num.toInt.natAbs ≤ conf.intMax then
        (storeNum lRet num.toInt targets).map fun stored =>
          ⟨[], numeral num padc 0 ++ ['\n'], stored.2, [stored.1], 1⟩
      else .error .undefined := by
  have hmax := conf.le_intMax
  have hvalue : Nat.ofDigitChars 10 (Nat.toDigits 10 (magnitude num)) 0 = num.toInt.natAbs := by
    rw [Nat.ofDigitChars_ten_toDigits, magnitude_eq]
  by_cases hneg : num.toInt < 0
  · have htext : numeral num padc 0 = '-' :: Nat.toDigits 10 (magnitude num) := by
      rw [numeral, if_pos hneg]
      rfl
    have hsigned : num.toInt = -(num.toInt.natAbs : ℤ) := by omega
    rw [htext, @scanNum_eq conf _ lRet 0 targets '-' rfl rfl isDigit_of_mem_toDigits (by omega),
      hvalue, if_pos rfl, ← hsigned]
  · have htext : numeral num padc 0 = Nat.toDigits 10 (magnitude num) := by
      rw [numeral, if_neg hneg]
      rfl
    have hsigned : ((num.toInt.natAbs : ℕ) : ℤ) = num.toInt := by omega
    obtain ⟨d, ds, hdigits⟩ := List.exists_cons_of_ne_nil
      (@Nat.toDigits_ne_nil (magnitude num) 10)
    have hmem : ∀ c ∈ d :: ds, isDigit c = true := hdigits ▸ isDigit_of_mem_toDigits
    have hfirst := hmem d List.mem_cons_self
    have hminus : d ≠ '-' := by
      rintro rfl
      cases hfirst
    have hsmall : d.toNat - '0'.toNat ≤ conf.intMax := by
      have hbound : '0'.toNat ≤ d.toNat ∧ d.toNat ≤ '9'.toNat := by simpa [isDigit] using hfirst
      have hnine : '9'.toNat = 57 := rfl
      omega
    rw [hdigits, Nat.ofDigitChars_cons, Nat.mul_zero, Nat.zero_add] at hvalue
    rw [htext, hdigits, @scanNum_eq conf ds lRet _ targets d (isSpace_eq_false_of_isDigit hfirst)
      (if_pos ⟨hminus, hfirst⟩) (fun c hc => hmem c (List.mem_cons_of_mem _ hc)) hsmall, hvalue,
      if_neg hminus, hsigned]

/-- Each `l` is counted on the way to the letter of the conversion. -/
theorem scanLoop_modifiers (count lRet : ℕ) (fmt : List Char) (st : Scanning conf) :
    scanLoop (List.replicate count 'l' ++ fmt) (.conversion lRet) st =
      scanLoop fmt (.conversion (lRet + count)) st := by
  induction count generalizing lRet with
  | zero => rfl
  | succ count ih =>
      rw [List.replicate_succ, List.cons_append, scanLoop]
      simp only [scanStep, bind, Except.bind]
      rw [ih, Nat.add_right_comm, Nat.add_assoc]

/-- An integer conversion stores what `scanNum` reads. -/
theorem vscanf_integer (lRet : ℕ) (input : List Char) (targets : List ScanTarget) :
    vscanf ('%' :: (List.replicate lRet 'l' ++ ['d'])) input targets =
      (scanNum lRet (⟨input, [], targets, [], 0⟩ : Scanning conf)).map fun st =>
        (st.ret, st.stored) := by
  rw [vscanf, scanLoop]
  simp only [scanStep, bind, Except.bind, if_true, scanLoop_modifiers, Nat.zero_add, scanLoop]
  cases scanNum lRet (⟨input, [], targets, [], 0⟩ : Scanning conf) <;> rfl

/-- The least `long` has no numeral. -/
theorem vprintf_lld_undefined (dev : Device) {v : BitVec 64}
    (hmin : v.signExtend conf.long = BitVec.intMin conf.long) :
    @vprintf conf dev "%lld".toList [.int64 v] = .error .undefined := by
  have hlong := conf.long_pos
  have hneg : (BitVec.intMin conf.long).toInt < 0 := by
    rw [BitVec.toInt_intMin_of_pos hlong]
    exact Int.neg_neg_of_pos (Int.pow_pos (by decide))
  have hfmt : "%lld".toList = ['%', 'l', 'l', 'd'] := rfl
  rw [vprintf, hfmt]
  simp only [printLoop, printStep, convert, Printing.emitNum, getNumVaArgs, bind, Except.bind,
    pure, Except.pure, if_true, hmin, hneg, Nat.le_refl]
  rfl

/-- What `%lld` stores of a line that `%lld` has printed. -/
theorem vscanf_vprintf (dev : Device) (v : BitVec 64)
    (hmin : v.signExtend conf.long ≠ BitVec.intMin conf.long) :
    ∃ ret emitted, @vprintf conf dev "%lld".toList [.int64 v] = .ok (ret, emitted) ∧
      @vscanf conf "%lld".toList (emitted ++ ['\n']) [.int64] =
        if (v.signExtend conf.long).toInt.natAbs ≤ conf.intMax then
          .ok (1, [.int64 (BitVec.ofInt 64 (v.signExtend conf.long).toInt)])
        else .error .undefined := by
  have hnum : getNumVaArgs 2 [Arg.int64 v] = .ok (v.signExtend conf.long, []) := rfl
  obtain ⟨ret, hprinted⟩ := vprintf_conversion dev hnum hmin '\x00'
  refine ⟨ret, _, hprinted, ?_⟩
  have hfmt : "%lld".toList = '%' :: (List.replicate 2 'l' ++ ['d']) := rfl
  rw [hfmt, vscanf_integer, scanNum_numeral]
  split_ifs <;> rfl

/-- What `%lld` prints of a value and a line feed make `%lld` store the value. -/
def RoundTrips (conf : LibcConfig) (dev : Device) (v : BitVec 64) : Prop :=
  ∃ ret emitted count, @vprintf conf dev "%lld".toList [.int64 v] = .ok (ret, emitted) ∧
    @vscanf conf "%lld".toList (emitted ++ ['\n']) [.int64] = .ok (count, [.int64 v])

/-- Every `int` fits 64 bits. -/
theorem intMax_lt (conf : LibcConfig) : conf.intMax < 2 ^ 63 := by
  have hpow : 2 ^ (conf.int - 1) ≤ 2 ^ 63 := by
    refine Nat.pow_le_pow_right Nat.two_pos ?_
    have := conf.int_le_long
    have := conf.long_le
    omega
  have hpos := Nat.two_pow_pos (conf.int - 1)
  rw [LibcConfig.intMax]
  omega

/-- A value within `int` is not changed by its way through `long`. -/
theorem toInt_signExtend_long {v : BitVec 64} (hfits : v.toInt.natAbs ≤ conf.intMax) :
    (v.signExtend conf.long).toInt = v.toInt := by
  have hlong : conf.long = conf.long - 1 + 1 := (Nat.sub_add_cancel conf.long_pos).symm
  have hmax := conf.intMax_le_longMax
  have hpos := Nat.two_pow_pos (conf.long - 1)
  rw [BitVec.toInt_signExtend_eq_toInt_bmod_of_le _ conf.long_le]
  have hpow : 2 ^ conf.long = 2 * 2 ^ (conf.long - 1) := by
    rw [hlong, Nat.pow_succ', Nat.add_sub_cancel]
  rw [LibcConfig.longMax] at hmax
  rw [hpow]
  generalize 2 ^ (conf.long - 1) = half at hmax hpos
  exact Int.bmod_eq_of_le_mul_two (by push_cast; omega) (by push_cast; omega)

/-- A 64-bit value is read back by `%lld` as it was printed exactly when an `int` holds it. -/
theorem int64_round_trip_iff (conf : LibcConfig) (dev : Device) (v : BitVec 64) :
    RoundTrips conf dev v ↔ v.toInt.natAbs ≤ conf.intMax := by
  have hmax := intMax_lt conf
  constructor
  · rintro ⟨ret, emitted, count, hprinted, hscanned⟩
    by_cases hmin : v.signExtend conf.long = BitVec.intMin conf.long
    · rw [vprintf_lld_undefined dev hmin] at hprinted
      cases hprinted
    · obtain ⟨ret', emitted', hprinted', hscanned'⟩ := vscanf_vprintf dev v hmin
      rw [hprinted'] at hprinted
      cases hprinted
      rw [hscanned'] at hscanned
      split_ifs at hscanned with hfits
      have hstored : BitVec.ofInt 64 (v.signExtend conf.long).toInt = v := by
        have hboth : 1 = count ∧ BitVec.ofInt 64 (v.signExtend conf.long).toInt = v := by
          simpa using hscanned
        exact hboth.2
      have hvalue := congrArg BitVec.toInt hstored
      rw [BitVec.toInt_ofInt, Int.bmod_eq_of_le_mul_two (by omega) (by omega)] at hvalue
      rwa [← hvalue]
  · intro hfits
    have hvalue := toInt_signExtend_long hfits
    have hmin : v.signExtend conf.long ≠ BitVec.intMin conf.long := by
      intro hsame
      have hlong := conf.long_pos
      have hlow : v.toInt = -((2 ^ (conf.long - 1) : ℕ) : ℤ) := by
        rw [← hvalue, hsame, BitVec.toInt_intMin_of_pos hlong]
        norm_cast
      have hle := conf.intMax_le_longMax
      have hpos := Nat.two_pow_pos (conf.long - 1)
      rw [LibcConfig.longMax] at hle
      omega
    obtain ⟨ret, emitted, hprinted, hscanned⟩ := vscanf_vprintf dev v hmin
    rw [hvalue, if_pos hfits, BitVec.ofInt_toInt] at hscanned
    exact ⟨ret, emitted, 1, hprinted, hscanned⟩

/-- On 32-bit RISC-V 5000000000 is printed, and read, as its low 32 bits; on the megaAVR the
`int` that gathers 100000 overflows. -/
theorem int64_not_round_trip :
    @vprintf (.rv32 true) (fun _ => 0) "%lld".toList [.int64 5000000000] =
        .ok (9, "705032704".toList) ∧
      @vscanf (.rv32 true) "%lld".toList "705032704\n".toList [.int64] =
        .ok (1, [.int64 705032704]) ∧
      ¬ RoundTrips (.rv32 true) (fun _ => 0) 5000000000 ∧
      @vscanf (.avr true) "%lld".toList "100000\n".toList [.int64] = .error .undefined := by
  have hprint : @vprintf (.rv32 true) (fun _ => 0) "%lld".toList [.int64 5000000000] =
      .ok (9, "705032704".toList) := by decide
  have hscan : @vscanf (.rv32 true) "%lld".toList ("705032704".toList ++ ['\n']) [.int64] =
      .ok (1, [.int64 705032704]) := by decide
  refine ⟨hprint, hscan, ?_, by decide⟩
  rintro ⟨ret, emitted, count, hprinted, hscanned⟩
  rw [hprint] at hprinted
  cases hprinted
  rw [hscan] at hscanned
  simp at hscanned

end Cyancore.Libc
