/-
# Formatted output

`vprintf` walks over its format one character at a time.  Between two characters it is
either in plain text, at a conversion with its length modifier and width, or inside one
of the two numbers that a conversion may carry.

The characters are those that are handed to `__fputc`.  Floating-point conversions are
not followed, and a run whose behaviour the C text leaves open has no result.
-/

import Cyancore.Libc.Strton

namespace Cyancore.Libc

open Cyancore.Math

/-! ## Unsigned numbers -/

/-- The character of a digit. -/
def digitOf (rem : ℕ) : Char :=
  if rem < 0xa then Char.ofNat ('0'.toNat + rem) else Char.ofNat ('a'.toNat + (rem - 0xa))

/-- The loop that fills the buffer, least digit first; it needs room for each of them. -/
def fillBuf (radix : ℕ) : ℕ → ℕ → Option (List Char)
  | 0, _ => none
  | room + 1, unum =>
      if 0 < unum / radix then
        (fillBuf radix room (unum / radix)).map fun buf => digitOf (unum % radix) :: buf
      else some [digitOf (unum % radix)]

/-- Why a run has no result. -/
inductive PrintStop
  | /-- A store past a buffer, an overflow, or an argument of another type. -/
    undefined
  | /-- A floating-point conversion. -/
    floating
  deriving DecidableEq, Repr

/-- `unumprint`: what it emits, and returns the number of. -/
def unumprint (unum radix : ℕ) (padc : Char) (padn : ℤ) : Except PrintStop (List Char) :=
  match fillBuf radix 20 unum with
  | none => .error .undefined
  | some buf =>
      .ok ((if 0 < padn then List.replicate (padn - buf.length).toNat padc else []) ++ buf.reverse)

/-! ## Conversions -/

/-- A variable argument. -/
inductive Arg (conf : LibcConfig)
  | int (value : BitVec conf.int)
  | long (value : BitVec conf.long)
  | int64 (value : BitVec 64)
  | ptr (value : BitVec conf.size)
  | str (value : List Char)
  deriving DecidableEq, Repr

/-- What a call has emitted so far, and what it goes on with. -/
structure Printing (conf : LibcConfig) where
  emitted : List Char
  args : List (Arg conf)
  padc : Char
  padf : ℕ
  ret : ℤ
  deriving DecidableEq, Repr

/-- Where in its format a call is. -/
inductive PrintMode
  | text
  | /-- At a character of a conversion. -/
    conversion (lRet : ℕ) (padn : ℤ)
  | /-- Inside the width. -/
    width (lRet padn : ℕ)
  | /-- Inside the number of decimals. -/
    decimals (lRet : ℕ) (padn : ℤ)
  | /-- The call has returned −1. -/
    failed
  deriving DecidableEq, Repr

variable {conf : LibcConfig}

/-- `get_num_va_args`, converted to `long`. -/
def getNumVaArgs (lRet : ℕ) :
    List (Arg conf) → Except PrintStop (BitVec conf.long × List (Arg conf))
  | .int64 value :: args =>
      if 2 ≤ lRet then .ok (value.signExtend conf.long, args) else .error .undefined
  | .long value :: args => if lRet = 1 then .ok (value, args) else .error .undefined
  | .int value :: args =>
      if lRet = 0 then .ok (value.signExtend conf.long, args) else .error .undefined
  | _ => .error .undefined

/-- `get_unum_va_args`, converted to `unsigned long`. -/
def getUnumVaArgs (lRet : ℕ) :
    List (Arg conf) → Except PrintStop (BitVec conf.long × List (Arg conf))
  | .int64 value :: args =>
      if 2 ≤ lRet then .ok (value.setWidth conf.long, args) else .error .undefined
  | .long value :: args => if lRet = 1 then .ok (value, args) else .error .undefined
  | .int value :: args =>
      if lRet = 0 then .ok (value.setWidth conf.long, args) else .error .undefined
  | _ => .error .undefined

namespace Printing

def withArgs (st : Printing conf) (args : List (Arg conf)) : Printing conf :=
  { st with args := args }

/-- Emit characters and add to `ret`, an `int`. -/
def emit (chars : List Char) (count : ℤ) (st : Printing conf) :
    Except PrintStop (Printing conf) :=
  if st.ret + count ≤ conf.intMax ∧ -conf.intMax - 1 ≤ st.ret + count then
    .ok { st with emitted := st.emitted ++ chars, ret := st.ret + count }
  else .error .undefined

/-- `ret += unumprint(...)`, after which the conversion is done. -/
def emitUnum (unum radix : ℕ) (padn : ℤ) (st : Printing conf) :
    Except PrintStop (PrintMode × Printing conf) := do
  let chars ← unumprint unum radix st.padc padn
  let st ← st.emit chars chars.length
  return (.text, st)

/-- The conversions `d` and `i`. -/
def emitNum (lRet : ℕ) (padn : ℤ) (st : Printing conf) :
    Except PrintStop (PrintMode × Printing conf) := do
  let (num, args) ← getNumVaArgs lRet st.args
  if num.toInt < 0 then
    -- The least `long` has no negation.
    if num = BitVec.intMin conf.long then throw .undefined
    let st ← (st.withArgs args).emit ['-'] 0
    st.emitUnum (-num).toNat 10 (padn - 1)
  else
    (st.withArgs args).emitUnum num.toNat 10 padn

end Printing

/-- A device: what `ccpdfs_write` returns for each character. -/
abbrev Device := Char → ℤ

/-- The `switch` on a character of a conversion. -/
def convert (dev : Device) (lRet : ℕ) (padn : ℤ) (c : Char) (st : Printing conf) :
    Except PrintStop (PrintMode × Printing conf) :=
  match c with
  | 'i' | 'd' => st.emitNum lRet padn
  | 'c' =>
      match st.args with
      | .int value :: args => do
          let char := Char.ofNat (value.toNat % 256)
          let st ← (st.withArgs args).emit [char] (dev char)
          return (.text, st)
      | .ptr value :: args => do
          let char := Char.ofNat (value.toNat % 256)
          let st ← (st.withArgs args).emit [char] (dev char)
          return (.text, st)
      | _ => .error .undefined
  | 's' =>
      match st.args with
      | .str value :: args => do
          let st ← (st.withArgs args).emit value value.length
          return (.text, st)
      | _ => .error .undefined
  | 'p' =>
      match st.args with
      | .ptr value :: args => do
          let st ← (st.withArgs args).emit ['0', 'x'] 2
          st.emitUnum (value.setWidth conf.long).toNat 16 (padn - 2)
      | _ => .error .undefined
  | 'x' => do
      let (unum, args) ← getUnumVaArgs lRet st.args
      (st.withArgs args).emitUnum unum.toNat 16 padn
  | 'z' => .ok (.conversion (if conf.size = 64 then 2 else lRet) padn, st)
  | 'l' => .ok (.conversion (lRet + 1) padn, st)
  | 'u' => do
      let (unum, args) ← getUnumVaArgs lRet st.args
      (st.withArgs args).emitUnum unum.toNat 10 padn
  | 'f' => if conf.useFloat then .error .floating else .ok (.failed, st)
  | '0' => .ok (.width lRet 0, { st with padc := '0' })
  | '.' =>
      .ok (if conf.useFloat then (.decimals lRet padn, { st with padf := 0 }) else (.failed, st))
  | '%' => do
      let st ← st.emit ['%'] (dev '%')
      return (.text, st)
  | _ => .ok (.failed, st)

/-- One character of the format. -/
def printStep (dev : Device) (c : Char) (mode : PrintMode) (st : Printing conf) :
    Except PrintStop (PrintMode × Printing conf) :=
  match mode with
  | .text => do
      if c = '%' then return (.conversion 0 0, st)
      let st ← st.emit [c] 1
      return (.text, st)
  | .conversion lRet padn => convert dev lRet padn c st
  | .width lRet padn =>
      if isDigit c then
        match accumulate conf.intMax padn c with
        | some padn => .ok (.width lRet padn, st)
        | none => .error .undefined
      else convert dev lRet padn c st
  | .decimals lRet padn =>
      if isDigit c then
        match accumulate conf.intMax st.padf c with
        | some padf => .ok (.decimals lRet padn, { st with padf := padf })
        | none => .error .undefined
      else convert dev lRet padn c st
  | .failed => .ok (.failed, st)

/-- The loop over the format. -/
def printLoop (dev : Device) : List Char → PrintMode → Printing conf →
    Except PrintStop (PrintMode × Printing conf)
  | [], mode, st => .ok (mode, st)
  | c :: fmt, mode, st => do
      let (mode, st) ← printStep dev c mode st
      printLoop dev fmt mode st

/-- `vprintf`: what it returns and what it emits.  A format that ends inside a conversion is
an error. -/
def vprintf (dev : Device) (fmt : List Char) (args : List (Arg conf)) :
    Except PrintStop (ℤ × List Char) := do
  let (mode, st) ← printLoop dev fmt .text ⟨[], args, '\x00', 5, 0⟩
  return (if mode = .text then st.ret else -1, st.emitted)

example : @vprintf (.avr false) (fun _ => 0) "%05d|%lx%%".toList [.int (-42), .long 0xbeef] =
    .ok (9, "-0042|beef%".toList) := by
  decide

end Cyancore.Libc
