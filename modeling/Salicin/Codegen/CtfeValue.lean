import Salicin.Codegen.Layout
import Salicin.Foundation.FixedWidth

/-!
# Integers at compile time

The integer values of compile-time evaluation and their checked operations. A value is a
normalized bit pattern in 128 bits; its type decides the significant width and the signed
reading. `i128` intermediates are integers with an explicit range check.
-/

/-!
## The compilation target

Integer widths and ranges come from one target description, so that compile-time evaluation
and emission cannot disagree about them.
-/

namespace Salicin.Codegen

structure Target where
  pointerWidth : Nat

/-- `NATIVE_TARGET`. -/
def nativeTarget : Target := { pointerWidth := 64 }

namespace IntegerTy

def isSigned : IntegerTy → Bool
  | .i8 | .i16 | .i32 | .i64 | .i128 | .isize => true
  | .u8 | .u16 | .u32 | .u64 | .u128 | .usize => false

end IntegerTy

namespace Target

def integerWidth (target : Target) : IntegerTy → Nat
  | .i8 | .u8 => 8
  | .i16 | .u16 => 16
  | .i32 | .u32 => 32
  | .i64 | .u64 => 64
  | .isize | .usize => target.pointerWidth
  | .i128 | .u128 => 128

def unsignedMax (target : Target) (ty : IntegerTy) : Int :=
  let width := target.integerWidth ty
  if width = 128 then 2 ^ 128 - 1 else 2 ^ width - 1

def signedMin (target : Target) (ty : IntegerTy) : Option Int :=
  if ty.isSigned then
    let width := target.integerWidth ty
    some (if width = 128 then -2 ^ 127 else -2 ^ (width - 1))
  else none

def signedMax (target : Target) (ty : IntegerTy) : Option Int :=
  if ty.isSigned then
    let width := target.integerWidth ty
    some (if width = 128 then 2 ^ 127 - 1 else 2 ^ (width - 1) - 1)
  else none

end Target

namespace IntegerTy

/-- The width on the native target. -/
def width (ty : IntegerTy) : Nat := nativeTarget.integerWidth ty

theorem width_pos (ty : IntegerTy) : 0 < ty.width := by
  cases ty <;> decide

theorem width_le (ty : IntegerTy) : ty.width ≤ 128 := by
  cases ty <;> decide

theorem two_mul_width_le (ty : IntegerTy) : 2 * ty.width ≤ 2 ^ ty.width := by
  cases ty <;> decide

/-- The integer has a value of the type. -/
def Representable (ty : IntegerTy) (value : Int) : Prop :=
  FixedWidth.Representable ty.isSigned ty.width value

instance (ty : IntegerTy) (value : Int) : Decidable (ty.Representable value) :=
  inferInstanceAs (Decidable (FixedWidth.Representable _ _ _))

theorem signedMin_eq_some {ty : IntegerTy} {val : Int} :
    nativeTarget.signedMin ty = some val ↔ ty.isSigned = true ∧ val = -2 ^ (ty.width - 1) := by
  cases ty <;>
    simp [Target.signedMin, isSigned, width, Target.integerWidth, nativeTarget, eq_comm]

/-- The range of a signed type is the one that the target reports. -/
theorem representable_signed {ty : IntegerTy} {low high : Int}
    (hlow : nativeTarget.signedMin ty = some low) (hhigh : nativeTarget.signedMax ty = some high)
    (val : Int) : ty.Representable val ↔ low ≤ val ∧ val ≤ high := by
  cases ty with
  | i8 | i16 | i32 | i64 | i128 | isize =>
    simp only [Target.signedMin, Target.signedMax, isSigned, if_true, Option.some.injEq,
      Target.integerWidth, nativeTarget] at hlow hhigh
    simp only [Representable, FixedWidth.Representable, isSigned, if_true, width,
      Target.integerWidth, nativeTarget]
    norm_num at hlow hhigh ⊢
    omega
  | _ => contradiction

theorem representable_unsigned {ty : IntegerTy} (hsigned : ty.isSigned = false) (val : Int) :
    ty.Representable val ↔ 0 ≤ val ∧ val ≤ nativeTarget.unsignedMax ty := by
  cases ty with
  | u8 | u16 | u32 | u64 | u128 | usize =>
    simp only [Representable, FixedWidth.Representable, isSigned, Bool.false_eq_true, if_false,
      width, Target.integerWidth, nativeTarget, Target.unsignedMax]
    norm_num
    omega
  | _ => contradiction

end IntegerTy

end Salicin.Codegen

namespace Salicin.Codegen

inductive BinaryOp
  | add | sub | mul | div | rem
  | bitAnd | bitOr | bitXor
  | shl | shr
  | eq | ne | lt | le | gt | ge
  | and | or
  deriving DecidableEq

inductive IntegerEvalError
  | typeMismatch
  | invalidOperator
  | invalidNegation
  | overflow
  | divisionByZero
  | remainderByZero
  | invalidShift (count : String) (width : Nat)

/-- A `CtfeValue` of integer kind: a two's-complement bit pattern without bits above the
width of its type. -/
structure CtfeInteger where
  ty : IntegerTy
  bits : BitVec 128
  normalized : bits.toNat < 2 ^ ty.width

/-- What an integer operation yields. -/
inductive CtfeResult
  | integer (value : CtfeInteger)
  | bool (value : Bool)

/-- The significant bits of a pattern; `integer_bits` and `to_bits` both mask this way. -/
def maskBits (width : Nat) (bits : BitVec 128) : BitVec 128 :=
  if width = 128 then bits else bits &&& ((1#128 <<< width) - 1#128)

theorem toNat_maskBits (ty : IntegerTy) (bits : BitVec 128) :
    (maskBits ty.width bits).toNat = bits.toNat % 2 ^ ty.width := by
  have hlt := bits.isLt
  have hmask (width : Nat) : bits.toNat &&& (2 ^ width - 1) = bits.toNat % 2 ^ width :=
    Nat.and_two_pow_sub_one_eq_mod _ _
  cases ty with
  | i8 | u8 => exact (BitVec.toNat_and _ _).trans (hmask 8)
  | i16 | u16 => exact (BitVec.toNat_and _ _).trans (hmask 16)
  | i32 | u32 => exact (BitVec.toNat_and _ _).trans (hmask 32)
  | i64 | u64 | isize | usize => exact (BitVec.toNat_and _ _).trans (hmask 64)
  | i128 | u128 => exact (Nat.mod_eq_of_lt hlt).symm

/-- The `checked_*` results of `i128`. -/
def checkedI128 (value : Int) : Option Int :=
  if -2 ^ 127 ≤ value ∧ value < 2 ^ 127 then some value else none

/-- The `checked_*` results of `u128`. -/
def checkedU128 (value : Int) : Option Int :=
  if 0 ≤ value ∧ value < 2 ^ 128 then some value else none

namespace CtfeInteger

def integerBits (ty : IntegerTy) (bits : BitVec 128) : CtfeInteger where
  ty := ty
  bits := maskBits ty.width bits
  normalized := by
    rw [toNat_maskBits]
    exact Nat.mod_lt _ (Nat.two_pow_pos _)

def signedIntegerValue (value : CtfeInteger) : Option Int :=
  if ¬ value.ty.isSigned then none
  else
    let width := value.ty.width
    some (if width = 128 then value.bits.toInt
      else (value.bits <<< (128 - width)).toInt >>> (128 - width))

def unsignedIntegerValue (value : CtfeInteger) : Option Int :=
  if ¬ value.ty.isSigned then some value.bits.toNat else none

def nonnegativeIntegerValue (value : CtfeInteger) : Option Int :=
  if value.ty.isSigned then
    value.signedIntegerValue.bind fun value => if 0 ≤ value then some value else none
  else value.unsignedIntegerValue

def integerDisplay (value : CtfeInteger) : Option String :=
  if value.ty.isSigned then value.signedIntegerValue.map toString
  else value.unsignedIntegerValue.map toString

def fromSigned (ty : IntegerTy) (value : Int) : Except IntegerEvalError CtfeInteger :=
  match nativeTarget.signedMin ty, nativeTarget.signedMax ty with
  | some minimum, some maximum =>
    if minimum ≤ value ∧ value ≤ maximum then .ok (integerBits ty (BitVec.ofInt 128 value))
    else .error .overflow
  | _, _ => .error .overflow

def fromUnsigned (ty : IntegerTy) (value : Int) : Except IntegerEvalError CtfeInteger :=
  if value ≤ nativeTarget.unsignedMax ty then .ok (integerBits ty (BitVec.ofInt 128 value))
  else .error .overflow

def checkedIntegerNeg (value : CtfeInteger) : Except IntegerEvalError CtfeInteger := do
  let operand ← value.signedIntegerValue.elim (.error .invalidNegation) .ok
  let negated ← (checkedI128 (-operand)).elim (.error .overflow) .ok
  fromSigned value.ty negated

/-- The shift itself, for a count below the width. -/
def checkedShift (value : CtfeInteger) (operator : BinaryOp) (count : Nat) :
    Except IntegerEvalError CtfeInteger := do
  if value.ty.isSigned then
    let operand ← value.signedIntegerValue.elim (.error .invalidOperator) .ok
    let shifted ← match operator with
      | .shr => .ok (operand >>> count)
      | .shl =>
        if count = 127 then
          if operand = -1 then .ok (-2 ^ 127)
          else if operand = 0 then .ok 0
          else .error .overflow
        else (checkedI128 (operand * 2 ^ count)).elim (.error .overflow) .ok
      | _ => .error .invalidOperator
    fromSigned value.ty shifted
  else
    let operand ← value.unsignedIntegerValue.elim (.error .invalidOperator) .ok
    let maximum := nativeTarget.unsignedMax value.ty
    let shifted ← match operator with
      | .shr => .ok (operand >>> count)
      | .shl => if operand ≤ maximum >>> count then .ok (operand <<< count) else .error .overflow
      | _ => .error .invalidOperator
    fromUnsigned value.ty shifted

/-- The checked arithmetic of `i128`, for the operators that have one. -/
def checkedSigned (operator : BinaryOp) (left right : Int) : Except IntegerEvalError Int :=
  match operator with
  | .add => (checkedI128 (left + right)).elim (.error .overflow) .ok
  | .sub => (checkedI128 (left - right)).elim (.error .overflow) .ok
  | .mul => (checkedI128 (left * right)).elim (.error .overflow) .ok
  | .div =>
    if right = 0 then .error .divisionByZero
    else (checkedI128 (left.tdiv right)).elim (.error .overflow) .ok
  | .rem =>
    if right = 0 then .error .remainderByZero
    else (checkedI128 (left.tmod right)).elim (.error .overflow) .ok
  | _ => .error .invalidOperator

/-- The checked arithmetic of `u128`, for the operators that have one. -/
def checkedUnsigned (operator : BinaryOp) (left right : Int) : Except IntegerEvalError Int :=
  match operator with
  | .add => (checkedU128 (left + right)).elim (.error .overflow) .ok
  | .sub => (checkedU128 (left - right)).elim (.error .overflow) .ok
  | .mul => (checkedU128 (left * right)).elim (.error .overflow) .ok
  | .div =>
    if right = 0 then .error .divisionByZero
    else (checkedU128 (left.tdiv right)).elim (.error .overflow) .ok
  | .rem =>
    if right = 0 then .error .remainderByZero
    else (checkedU128 (left.tmod right)).elim (.error .overflow) .ok
  | _ => .error .invalidOperator

/-- The comparisons, on the values as integers. -/
def compareIntegers (operator : BinaryOp) (left right : Int) : Option Bool :=
  match operator with
  | .eq => some (left = right)
  | .ne => some (left ≠ right)
  | .lt => some (left < right)
  | .le => some (left ≤ right)
  | .gt => some (left > right)
  | .ge => some (left ≥ right)
  | _ => none

/-- The bitwise operators, on the patterns. -/
def bitwise (operator : BinaryOp) (left right : BitVec 128) : Option (BitVec 128) :=
  match operator with
  | .bitAnd => some (left &&& right)
  | .bitOr => some (left ||| right)
  | .bitXor => some (left ^^^ right)
  | _ => none

/-- The count of a shift, when it is a `u32` below the width. -/
def shiftCount (width : Nat) (right : CtfeInteger) : Except IntegerEvalError Nat :=
  match right.nonnegativeIntegerValue with
  | some count =>
    if count < 2 ^ 32 ∧ count < width then .ok count.toNat
    else .error (.invalidShift (right.integerDisplay.getD "<invalid>") width)
  | none => .error (.invalidShift (right.integerDisplay.getD "<invalid>") width)

def checkedIntegerBinary (left : CtfeInteger) (operator : BinaryOp) (right : CtfeInteger) :
    Except IntegerEvalError CtfeResult := do
  if left.ty ≠ right.ty then .error .typeMismatch
  else if operator = .shl ∨ operator = .shr then
    let count ← shiftCount left.ty.width right
    .integer <$> left.checkedShift operator count
  else if left.ty.isSigned then
    let leftValue ← left.signedIntegerValue.elim (.error .typeMismatch) .ok
    let rightValue ← right.signedIntegerValue.elim (.error .typeMismatch) .ok
    if (operator = .div ∨ operator = .rem) ∧ rightValue = -1 ∧
        nativeTarget.signedMin left.ty = some leftValue then .error .overflow
    else
      match bitwise operator left.bits (maskBits left.ty.width right.bits),
          compareIntegers operator leftValue rightValue with
      | some bits, _ => .ok (.integer (integerBits left.ty bits))
      | none, some result => .ok (.bool result)
      | none, none => do
        let value ← checkedSigned operator leftValue rightValue
        .integer <$> fromSigned left.ty value
  else
    let leftValue ← left.unsignedIntegerValue.elim (.error .typeMismatch) .ok
    let rightValue ← right.unsignedIntegerValue.elim (.error .typeMismatch) .ok
    match bitwise operator left.bits right.bits, compareIntegers operator leftValue rightValue with
    | some bits, _ => .integer <$> fromUnsigned left.ty bits.toNat
    | none, some result => .ok (.bool result)
    | none, none => do
      let value ← checkedUnsigned operator leftValue rightValue
      .integer <$> fromUnsigned left.ty value

end CtfeInteger

end Salicin.Codegen
