import Salicin.Foundation.FixedWidth
import Salicin.Foundation.Numerals

/-!
# Parsing and displaying integers

`parse_u64_radix`, `parse_i64_radix` and the decimal display of `core/src/fmt.sc`. A value of an
integer type is the integer it stands for. An operation whose result its type does not have stops
the program, so that the absence of overflow can be said of the whole parse.
-/

namespace Salicin.Formatting

open FixedWidth

inductive ParseIntErrorKind
  | empty
  | invalidRadix
  | invalidSign
  | invalidDigit
  | overflow
  deriving DecidableEq

structure ParseIntError where
  failure : ParseIntErrorKind
  byteOffset : Int
  deriving DecidableEq

/-- Why a parse ends without an integer: an operation overflowed, or an error is returned. -/
inductive Stop
  | overflowed
  | failed (error : ParseIntError)
  deriving DecidableEq

abbrev Parse := Except Stop

/-- A string slice; its length is a `u64`. -/
structure Str where
  bytes : List UInt8
  length_lt : bytes.length < 2 ^ 64

/-! ## Operations of the integer types -/

def checked (signed : Bool) (w : Nat) (value : Int) : Parse Int :=
  if Representable signed w value then .ok value else .error .overflowed

def divided (signed : Bool) (w : Nat) (dividend divisor : Int) : Parse Int :=
  if divisor = 0 then .error .overflowed else checked signed w (dividend.tdiv divisor)

/-! ## Parsing -/

def parseFailure {α : Type} (failure : ParseIntErrorKind) (byteOffset : Int) : Parse α :=
  .error (.failed { failure := failure, byteOffset := byteOffset })

def digitValue (byte : UInt8) : Parse (Option Int) :=
  let byte : Int := byte.toNat
  if 48 ≤ byte ∧ byte ≤ 57 then do
    let digit ← checked false 8 (byte - 48)
    return some digit
  else if 65 ≤ byte ∧ byte ≤ 90 then do
    let letter ← checked false 8 (byte - 65)
    let digit ← checked false 8 (letter + 10)
    return some digit
  else if 97 ≤ byte ∧ byte ≤ 122 then do
    let letter ← checked false 8 (byte - 97)
    let digit ← checked false 8 (letter + 10)
    return some digit
  else return none

/-- The loops that count a byte down and a wider integer up. -/
def widenFrom (signed : Bool) : Nat → Int → Parse Int
  | 0, output => .ok output
  | source + 1, output => do
    let next ← checked signed 64 (output + 1)
    widenFrom signed source next

/-- `widen_u8`, and the same loops of `parse_i64_radix`. -/
def widenU8 (signed : Bool) (value : Int) : Parse Int := widenFrom signed value.toNat 0

/-- The end of a turn that adds a digit: no output if the bound would be passed. -/
def appendDigit (signed : Bool) (limit base output wideDigit : Int) : Parse (Option Int) := do
  let room ← checked signed 64 (limit - wideDigit)
  let bound ← divided signed 64 room base
  if output > bound then return none
  else do
    let scaled ← checked signed 64 (output * base)
    let next ← checked signed 64 (scaled + wideDigit)
    return some next

/-- The end of a turn of `parse_i64_radix` after a minus sign. -/
def appendNegative (base output wideDigit : Int) : Parse (Option Int) := do
  let room ← checked true 64 (-9223372036854775808 + wideDigit)
  let bound ← divided true 64 room base
  if output < bound then return none
  else do
    let scaled ← checked true 64 (output * base)
    let next ← checked true 64 (scaled - wideDigit)
    return some next

/-- The loops over the bytes from an index on. -/
def digitLoop (radix : UInt8) (signed : Bool) (append : Int → Int → Parse (Option Int)) :
    List UInt8 → Int → Int → Parse Int
  | [], _, output => .ok output
  | byte :: rest, index, output => do
    match ← digitValue byte with
    | none => parseFailure .invalidDigit index
    | some digit =>
      if digit ≥ radix.toNat then parseFailure .invalidDigit index
      else do
        let wideDigit ← widenU8 signed digit
        match ← append output wideDigit with
        | none => parseFailure .overflow index
        | some next => do
          let following ← checked false 64 (index + 1)
          digitLoop radix signed append rest following next

def parseMagnitude (value : Str) (start : Nat) (radix : UInt8) (limit : Int) : Parse Int :=
  if radix < 2 ∨ radix > 36 then parseFailure .invalidRadix 0
  else if start = value.bytes.length then parseFailure .empty start
  else do
    let base ← widenU8 false radix.toNat
    digitLoop radix false (appendDigit false limit base) (value.bytes.drop start) start 0

def parseU64Radix (value : Str) (radix : UInt8) : Parse Int :=
  match value.bytes with
  | [] => parseFailure .empty 0
  | first :: _ =>
    if first = 43 ∨ first = 45 then parseFailure .invalidSign 0
    else parseMagnitude value 0 radix 18446744073709551615

def parseI64Radix (value : Str) (radix : UInt8) : Parse Int :=
  if radix < 2 ∨ radix > 36 then parseFailure .invalidRadix 0
  else
    match value.bytes with
    | [] => parseFailure .empty 0
    | first :: _ =>
      let negative := first = 45
      let start : Nat := if negative ∨ first = 43 then 1 else 0
      if start = value.bytes.length then parseFailure .empty start
      else do
        let base ← widenU8 true radix.toNat
        digitLoop radix true
          (if negative then appendNegative base else appendDigit true 9223372036854775807 base)
          (value.bytes.drop start) start 0

/-! ## Displaying -/

section
variable {m : Type → Type} [Monad m] (writeAscii : UInt8 → m Unit)

def writeDigit (digit : UInt8) : m Unit := writeAscii (48 + digit)

def remainderDigit (remainder : Nat) : UInt8 :=
  if remainder = 0 then 0
  else if remainder = 1 then 1
  else if remainder = 2 then 2
  else if remainder = 3 then 3
  else if remainder = 4 then 4
  else if remainder = 5 then 5
  else if remainder = 6 then 6
  else if remainder = 7 then 7
  else if remainder = 8 then 8
  else 9

/-- `write_unsigned` and `write_unsigned_u64`, which differ in the width of the value. -/
def writeUnsigned (value : Nat) : m Unit := do
  if 10 ≤ value then writeUnsigned (value / 10)
  writeDigit writeAscii (remainderDigit (value % 10))
termination_by value
decreasing_by omega

def writeMinus : m Unit := writeAscii 45

/-- `display_signed` and `display_signed_i64`. -/
def displaySigned (negative : Bool) (magnitude : Nat) : m Unit := do
  if negative then writeMinus writeAscii
  writeUnsigned writeAscii magnitude

/-- `display` of `u64` and of `u128`. -/
def displayUnsigned (value : Nat) : m Unit := writeUnsigned writeAscii value

/-- `display` of `i64` and of `i128`. -/
def displayInteger (value : Int) : m Unit :=
  displaySigned writeAscii (decide (value < 0)) value.natAbs

end

/-- The writer of `string_writer`: the bytes so far, and each byte behind them. -/
def writeByte (byte : UInt8) : StateM (List UInt8) Unit := modify (· ++ [byte])

/-- The text that a program writes. -/
def written (program : StateM (List UInt8) Unit) : List UInt8 := (program.run []).2

end Salicin.Formatting
