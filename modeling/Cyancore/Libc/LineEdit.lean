/-
# Editing a number on its line

While a number is typed, the last digit can be rubbed out.  `vscanf` keeps no digits, only
their value, and takes a tenth of it where a digit goes.  That is the value of the digits
that are left, leading zeros and all: a value of zero has no digit to lose, whether the line
is empty or holds zeros.

Leading white space is skipped, so that a line of nothing else is not an empty number: the
call goes on waiting.
-/

import Cyancore.Libc.Scanf

namespace Cyancore.Libc

open Cyancore.Math

/-- A digit, or a key that rubs one out. -/
def isKey (c : Char) : Bool := isDigit c || isRubOut c

/-- The value of the digits that the keys leave. -/
def keyValue (keys : List Char) : ℕ := Nat.ofDigitChars 10 (edited isRubOut keys) 0

/-- What is typed for one number. -/
structure NumberLine where
  spaces : List Char
  minus : Bool
  keys : List Char
  stop : Char
  spaces_isSpace : ∀ c ∈ spaces, isSpace c = true
  keys_isKey : ∀ c ∈ keys, isKey c = true
  stop_isSpace : isSpace stop = true

namespace NumberLine

/-- The characters of the line. -/
def text (line : NumberLine) : List Char :=
  line.spaces ++ ((if line.minus then ['-'] else []) ++ (line.keys ++ [line.stop]))

/-- The number that is left on the line at its end. -/
def number (line : NumberLine) : ℤ :=
  if line.minus then -(keyValue line.keys : ℤ) else keyValue line.keys

/-- No value on the way is past the range of `int`. -/
def Fits (line : NumberLine) (conf : LibcConfig) : Prop :=
  ∀ typed, typed <+: line.keys → keyValue typed ≤ conf.intMax

/-- Something comes before the white space at the end. -/
def Started (line : NumberLine) : Prop := line.minus = true ∨ line.keys ≠ []

end NumberLine

/-- The conversion `%d` stores the number that is left on the line. -/
def StoresNumber (conf : LibcConfig) (line : NumberLine) : Prop :=
  ∃ stored, @vscanf conf "%d".toList line.text [.int] = .ok (1, [.int stored]) ∧
    stored.toInt = line.number

/-! ## Keys -/

theorem isRubOut_eq_false_of_isDigit {c : Char} (hdigit : isDigit c = true) :
    isRubOut c = false := by
  by_contra hrub
  simp only [isRubOut, Bool.not_eq_false, Bool.or_eq_true, decide_eq_true_eq] at hrub
  rcases hrub with rfl | rfl <;> exact absurd hdigit (by decide)

theorem isSpace_eq_false_of_isKey {c : Char} (hkey : isKey c = true) : isSpace c = false := by
  rw [isKey, Bool.or_eq_true] at hkey
  rcases hkey with hdigit | hrub
  · exact isSpace_eq_false_of_isDigit hdigit
  · simp only [isRubOut, Bool.or_eq_true, decide_eq_true_eq] at hrub
    rcases hrub with rfl | rfl <;> rfl

theorem ne_minus_of_isKey {c : Char} (hkey : isKey c = true) : c ≠ '-' := by
  rintro rfl
  cases hkey

/-- A key that rubs nothing out is a digit. -/
theorem isDigit_of_isKey {c : Char} (hkey : isKey c = true) (hput : isRubOut c = false) :
    isDigit c = true := by
  rwa [isKey, hput, Bool.or_false] at hkey

section Keys

variable {conf : LibcConfig} {keys : List Char} {c : Char}

/-- One more key, in the value alone. -/
theorem keyValue_concat (hkeys : ∀ k ∈ keys, isKey k = true) (c : Char) :
    keyValue (keys ++ [c]) =
      if isRubOut c then keyValue keys / 10
      else 10 * keyValue keys + (c.toNat - '0'.toNat) :=
  ofDigitChars_edited_concat
    (fun k hk hput => digit_lt_ten (isDigit_of_isKey (hkeys k hk) hput)) c

/-- The first key leaves its digit, or nothing. -/
theorem keyValue_singleton (hkey : isKey c = true) :
    keyValue [c] = if isDigit c then c.toNat - '0'.toNat else 0 := by
  have hstart : keyValue [c] = _ := keyValue_concat (fun k hk => absurd hk List.not_mem_nil) c
  have hempty : keyValue [] = 0 := rfl
  rw [hstart, hempty]
  by_cases hdigit : isDigit c = true
  · rw [if_neg (by simp [isRubOut_eq_false_of_isDigit hdigit]), if_pos hdigit, Nat.mul_zero,
      Nat.zero_add]
  · have hrub : isRubOut c = true := by simpa [isKey, hdigit] using hkey
    rw [if_pos hrub, if_neg hdigit]

/-- The loop does to its accumulator what the key does to the digits. -/
theorem takeDigit_key (hkeys : ∀ k ∈ keys, isKey k = true) (hkey : isKey c = true)
    (hfits : keyValue (keys ++ [c]) ≤ conf.intMax) (echo : List Char) :
    ∃ echo', takeDigit conf c (keyValue keys) echo = .ok (keyValue (keys ++ [c]), echo') := by
  rw [keyValue_concat hkeys] at hfits ⊢
  by_cases hdigit : isDigit c = true
  · rw [if_neg (by simp [isRubOut_eq_false_of_isDigit hdigit])] at hfits ⊢
    refine ⟨echo ++ [c], takeDigit_some hdigit ?_⟩
    rw [accumulate, Nat.mul_comm, if_pos hfits]
  · have hrub : isRubOut c = true := by simpa [isKey, hdigit] using hkey
    rw [takeDigit, if_neg hdigit, if_pos hrub]
    by_cases hzero : keyValue keys = 0
    · -- Nothing of value is left: a tenth of zero is zero.
      exact ⟨echo, by rw [if_neg (fun hrubbed => hrubbed.1 hzero), hzero]⟩
    · exact ⟨echo ++ rubOut, if_pos ⟨hzero, hrub⟩⟩

/-- Only a digit takes the value past the range of `int`, and then there is no result. -/
theorem takeDigit_key_undefined (hkeys : ∀ k ∈ keys, isKey k = true) (hkey : isKey c = true)
    (hbefore : keyValue keys ≤ conf.intMax) (hover : conf.intMax < keyValue (keys ++ [c]))
    (echo : List Char) :
    takeDigit conf c (keyValue keys) echo = .error .undefined := by
  rw [keyValue_concat hkeys] at hover
  by_cases hrub : isRubOut c = true
  · rw [if_pos hrub] at hover
    have htenth := Nat.div_le_self (keyValue keys) 10
    omega
  · rw [if_neg hrub] at hover
    refine takeDigit_none (isDigit_of_isKey hkey (Bool.eq_false_iff.mpr hrub)) ?_
    rw [accumulate, Nat.mul_comm, if_neg (Nat.not_le.mpr hover)]

end Keys

/-! ## The loops -/

section Loops

variable {conf : LibcConfig} {done keys : List Char} {stop : Char}

/-- The white space at the end leaves the accumulator as it is. -/
theorem takeDigit_space (hstop : isSpace stop = true) (a : ℕ) (echo : List Char) :
    takeDigit conf stop a echo = .ok (a, echo) := by
  have hkey : isKey stop = false := by
    by_contra hkey
    rw [isSpace_eq_false_of_isKey (Bool.not_eq_false _ ▸ hkey)] at hstop
    cases hstop
  rw [isKey, Bool.or_eq_false_iff] at hkey
  rw [takeDigit, if_neg (by simp [hkey.1]), if_neg (fun hrubbed => by simp [hkey.2] at hrubbed)]

/-- The loop ends with the value of the digits that are left of all keys, those before the
loop included. -/
theorem readDigits_keys (hdone : ∀ k ∈ done, isKey k = true) (hkeys : ∀ k ∈ keys, isKey k = true)
    (hstop : isSpace stop = true)
    (hfits : ∀ typed, typed <+: keys → keyValue (done ++ typed) ≤ conf.intMax)
    (echo : List Char) :
    ∃ echo', readDigits conf (keys ++ [stop]) (keyValue done) echo =
      .ok (keyValue (done ++ keys), [], echo') := by
  induction keys generalizing done echo with
  | nil =>
      rw [List.nil_append, List.append_nil, readDigits, takeDigit_space hstop]
      exact ⟨echo ++ [echoOf stop], if_pos hstop⟩
  | cons c keys ih =>
      have hkey := hkeys c List.mem_cons_self
      have hnext : ∀ k ∈ done ++ [c], isKey k = true :=
        List.forall_mem_append.mpr ⟨hdone, List.forall_mem_singleton.mpr hkey⟩
      obtain ⟨echo', htaken⟩ := takeDigit_key hdone hkey
        (hfits [c] (List.cons_prefix_cons.mpr ⟨rfl, List.nil_prefix⟩)) echo
      rw [List.cons_append, readDigits, htaken]
      simp only [isSpace_eq_false_of_isKey hkey, Bool.false_eq_true, if_false]
      rw [List.append_cons done c keys]
      refine ih hnext (fun k hk => hkeys k (List.mem_cons_of_mem _ hk)) ?_ echo'
      intro typed htyped
      rw [← List.append_cons]
      exact hfits (c :: typed) (List.cons_prefix_cons.mpr ⟨rfl, htyped⟩)

/-- Past the range of `int` the loop has no result. -/
theorem readDigits_keys_undefined (hdone : ∀ k ∈ done, isKey k = true)
    (hkeys : ∀ k ∈ keys, isKey k = true) (hbefore : keyValue done ≤ conf.intMax)
    (hover : ∃ typed, typed <+: keys ∧ conf.intMax < keyValue (done ++ typed))
    (echo : List Char) :
    readDigits conf (keys ++ [stop]) (keyValue done) echo = .error .undefined := by
  induction keys generalizing done echo with
  | nil =>
      obtain ⟨typed, htyped, hover⟩ := hover
      rw [List.prefix_nil.mp htyped, List.append_nil] at hover
      exact absurd hbefore (Nat.not_le.mpr hover)
  | cons c keys ih =>
      have hkey := hkeys c List.mem_cons_self
      have hnext : ∀ k ∈ done ++ [c], isKey k = true :=
        List.forall_mem_append.mpr ⟨hdone, List.forall_mem_singleton.mpr hkey⟩
      rw [List.cons_append, readDigits]
      by_cases hfirst : keyValue (done ++ [c]) ≤ conf.intMax
      · obtain ⟨echo', htaken⟩ := takeDigit_key hdone hkey hfirst echo
        rw [htaken]
        simp only [isSpace_eq_false_of_isKey hkey, Bool.false_eq_true, if_false]
        refine ih hnext (fun k hk => hkeys k (List.mem_cons_of_mem _ hk)) hfirst ?_ echo'
        obtain ⟨typed, htyped, hover⟩ := hover
        rcases List.prefix_cons_iff.mp htyped with rfl | ⟨typed, rfl, hrest⟩
        · rw [List.append_nil] at hover
          exact absurd hbefore (Nat.not_le.mpr hover)
        · exact ⟨typed, hrest, by rwa [← List.append_cons]⟩
      · rw [takeDigit_key_undefined hdone hkey hbefore (Nat.lt_of_not_le hfirst)]

/-- White space is skipped up to the first other character. -/
theorem skipSpace_append {spaces input : List Char} {c : Char}
    (hspaces : ∀ k ∈ spaces, isSpace k = true) (hc : isSpace c = false) (echo : List Char) :
    ∃ echo', skipSpace (spaces ++ c :: input) echo = .ok (c, input, echo') := by
  induction spaces generalizing echo with
  | nil => exact ⟨echo ++ [echoOf c], by rw [List.nil_append, skipSpace, if_neg (by simp [hc])]⟩
  | cons k spaces ih =>
      rw [List.cons_append, skipSpace, if_pos (hspaces k List.mem_cons_self)]
      exact ih (fun k hk => hspaces k (List.mem_cons_of_mem _ hk)) _

/-- Where there is only white space the call waits for more. -/
theorem skipSpace_waiting {spaces : List Char} (hspaces : ∀ k ∈ spaces, isSpace k = true)
    (echo : List Char) : skipSpace spaces echo = .error .waiting := by
  induction spaces generalizing echo with
  | nil => rfl
  | cons k spaces ih =>
      rw [skipSpace, if_pos (hspaces k List.mem_cons_self)]
      exact ih (fun k hk => hspaces k (List.mem_cons_of_mem _ hk)) _

end Loops

/-! ## The line -/

namespace NumberLine

variable {conf : LibcConfig} {line : NumberLine}

/-- A value that fits `int` is stored as it is. -/
theorem toInt_number (hfits : line.Fits conf) :
    (BitVec.ofInt conf.int line.number).toInt = line.number := by
  have hvalue := hfits line.keys (List.prefix_refl _)
  have hpow : 2 ^ conf.int = 2 * 2 ^ (conf.int - 1) := by
    rw [← Nat.pow_succ', Nat.succ_eq_add_one, Nat.sub_add_cancel conf.int_pos]
  have hpos := Nat.two_pow_pos (conf.int - 1)
  rw [LibcConfig.intMax] at hvalue
  rw [BitVec.toInt_ofInt, hpow]
  generalize 2 ^ (conf.int - 1) = half at hvalue hpos
  have hbounds : -(half : ℤ) < line.number ∧ line.number < half := by
    rw [number]
    split_ifs <;> omega
  exact Int.bmod_eq_of_le_mul_two (by push_cast; omega) (by push_cast; omega)

/-- A line split where the loop over the digits begins: the first character that is not
white space, and the keys before and after that place. -/
structure Begins (line : NumberLine) (c : Char) (done rest : List Char) : Prop where
  text_eq : line.text = line.spaces ++ c :: (rest ++ [line.stop])
  not_space : isSpace c = false
  keys_eq : line.keys = done ++ rest
  done_eq : done = [] ∨ done = [c]
  first_eq : (if c ≠ '-' ∧ isDigit c then c.toNat - '0'.toNat else 0) = keyValue done
  minus_iff : c = '-' ↔ line.minus = true

/-- The loop begins after the sign, or else after the first key. -/
theorem Started.begins (hstarted : line.Started) : ∃ c done rest, line.Begins c done rest := by
  by_cases hminus : line.minus = true
  · have htext : line.text = line.spaces ++ '-' :: (line.keys ++ [line.stop]) := by
      rw [text, if_pos hminus, List.singleton_append]
    exact ⟨'-', [], line.keys, htext, rfl, rfl, Or.inl rfl, rfl, iff_of_true rfl hminus⟩
  · obtain ⟨c, rest, hkeys⟩ := List.exists_cons_of_ne_nil (hstarted.resolve_left hminus)
    have hkey : isKey c = true := line.keys_isKey c (by rw [hkeys]; exact List.mem_cons_self)
    have hsign := ne_minus_of_isKey hkey
    have htext : line.text = line.spaces ++ c :: (rest ++ [line.stop]) := by
      rw [text, if_neg hminus, hkeys, List.nil_append, List.cons_append]
    have hfirst : (if c ≠ '-' ∧ isDigit c then c.toNat - '0'.toNat else 0) = keyValue [c] := by
      simp only [keyValue_singleton hkey, hsign, ne_eq, not_false_eq_true, true_and]
    exact ⟨c, [c], rest, htext, isSpace_eq_false_of_isKey hkey, hkeys, Or.inr rfl, hfirst,
      iff_of_false hsign hminus⟩

namespace Begins

variable {c : Char} {done rest : List Char}

/-- What is before the loop and what is left to it are keys. -/
theorem keys (hbegins : line.Begins c done rest) :
    (∀ k ∈ done, isKey k = true) ∧ ∀ k ∈ rest, isKey k = true :=
  List.forall_mem_append.mp (hbegins.keys_eq ▸ line.keys_isKey)

/-- One digit fits `int`. -/
theorem keyValue_le (hbegins : line.Begins c done rest) : keyValue done ≤ conf.intMax := by
  have hmax := conf.le_intMax
  rw [← hbegins.first_eq]
  split_ifs with hfirst
  · have hten := digit_lt_ten hfirst.2
    omega
  · exact Nat.zero_le _

/-- The values on the way are those of the loop. -/
theorem fits_iff (hbegins : line.Begins c done rest) :
    line.Fits conf ↔ ∀ typed, typed <+: rest → keyValue (done ++ typed) ≤ conf.intMax := by
  rw [Fits, hbegins.keys_eq]
  rcases hbegins.done_eq with rfl | rfl
  · simp only [List.nil_append]
  · constructor
    · intro hfits typed htyped
      exact hfits _ (List.cons_prefix_cons.mpr ⟨rfl, htyped⟩)
    · intro hfits typed htyped
      rcases List.prefix_cons_iff.mp htyped with rfl | ⟨typed, rfl, hrest⟩
      · exact Nat.zero_le _
      · exact hfits typed hrest

end Begins

/-- A line whose values fit is read to its end. -/
theorem scanNum_text (hstarted : line.Started) (hfits : line.Fits conf) :
    ∃ echo, scanNum 0 (⟨line.text, [], [.int], [], 0⟩ : Scanning conf) =
      .ok ⟨[], echo, [], [.int (BitVec.ofInt conf.int line.number)], 1⟩ := by
  obtain ⟨c, done, rest, hbegins⟩ := hstarted.begins
  obtain ⟨echo, hskipped⟩ := @skipSpace_append line.spaces (rest ++ [line.stop]) c
    line.spaces_isSpace hbegins.not_space []
  obtain ⟨echo', hread⟩ := readDigits_keys hbegins.keys.1 hbegins.keys.2 line.stop_isSpace
    (hbegins.fits_iff.mp hfits) echo
  have hnumber : (if c = '-' then -(keyValue (done ++ rest) : ℤ) else keyValue (done ++ rest)) =
      line.number := by
    simp only [number, hbegins.keys_eq, hbegins.minus_iff]
  refine ⟨echo', ?_⟩
  rw [scanNum, hbegins.text_eq, hskipped]
  simp only [bind, Except.bind, hbegins.first_eq, hread, hnumber]
  rfl

/-- A value past the range of `int` leaves no result. -/
theorem scanNum_text_undefined (hstarted : line.Started) (hover : ¬ line.Fits conf) :
    scanNum 0 (⟨line.text, [], [.int], [], 0⟩ : Scanning conf) = .error .undefined := by
  obtain ⟨c, done, rest, hbegins⟩ := hstarted.begins
  obtain ⟨echo, hskipped⟩ := @skipSpace_append line.spaces (rest ++ [line.stop]) c
    line.spaces_isSpace hbegins.not_space []
  have hpast : ∃ typed, typed <+: rest ∧ conf.intMax < keyValue (done ++ typed) := by
    simpa [hbegins.fits_iff] using hover
  have hread := @readDigits_keys_undefined conf done rest line.stop hbegins.keys.1
    hbegins.keys.2 hbegins.keyValue_le hpast echo
  rw [scanNum, hbegins.text_eq, hskipped]
  simp only [bind, Except.bind, hbegins.first_eq, hread]

/-- A line of nothing but white space is skipped to its end. -/
theorem scanNum_text_waiting (hblank : ¬ line.Started) :
    scanNum 0 (⟨line.text, [], [.int], [], 0⟩ : Scanning conf) = .error .waiting := by
  have hspaces : ∀ k ∈ line.text, isSpace k = true := by
    rw [Started, not_or, not_not] at hblank
    rw [text, if_neg hblank.1, hblank.2, List.nil_append, List.nil_append]
    exact List.forall_mem_append.mpr
      ⟨line.spaces_isSpace, List.forall_mem_singleton.mpr line.stop_isSpace⟩
  rw [scanNum, skipSpace_waiting hspaces]
  rfl

end NumberLine

/-- A number is stored as it was edited exactly when the line has a sign or a key and no value
on the way is past the range of `int`. -/
theorem storesNumber_iff (conf : LibcConfig) (line : NumberLine) :
    StoresNumber conf line ↔ line.Started ∧ line.Fits conf := by
  have hscan : @vscanf conf "%d".toList line.text [.int] =
      (scanNum 0 (⟨line.text, [], [.int], [], 0⟩ : Scanning conf)).map fun st =>
        (st.ret, st.stored) := vscanf_integer 0 line.text [.int]
  rw [StoresNumber, hscan]
  constructor
  · rintro ⟨stored, hstored, -⟩
    by_cases hstarted : line.Started
    · refine ⟨hstarted, ?_⟩
      by_contra hover
      rw [NumberLine.scanNum_text_undefined hstarted hover] at hstored
      cases hstored
    · rw [NumberLine.scanNum_text_waiting hstarted] at hstored
      cases hstored
  · rintro ⟨hstarted, hfits⟩
    obtain ⟨echo, hread⟩ := NumberLine.scanNum_text hstarted hfits
    exact ⟨BitVec.ofInt conf.int line.number, by rw [hread]; rfl, NumberLine.toInt_number hfits⟩

example :
    @vscanf (.avr true) "%d".toList "\t-0\x7f\x7f12\x083\n".toList [.int] =
      .ok (1, [.int (-13)]) := by
  decide

/-- A line feed after a blank: no digit is left, and the call waits for more. -/
theorem not_storesNumber :
    ∃ line : NumberLine, line.text = " \n".toList ∧ line.Fits (.rv32 true) ∧
      @vscanf (.rv32 true) "%d".toList line.text [.int] = .error .waiting ∧
      ¬ StoresNumber (.rv32 true) line := by
  let line : NumberLine :=
    ⟨[' '], false, [], '\n', List.forall_mem_singleton.mpr rfl, List.forall_mem_nil _, rfl⟩
  have hfits : line.Fits (.rv32 true) := by
    intro typed htyped
    rw [List.prefix_nil.mp htyped]
    exact Nat.zero_le _
  have hscan : @vscanf (.rv32 true) "%d".toList line.text [.int] = .error .waiting := by decide
  refine ⟨line, rfl, hfits, hscan, ?_⟩
  rintro ⟨stored, hstored, -⟩
  rw [hscan] at hstored
  cases hstored

end Cyancore.Libc
