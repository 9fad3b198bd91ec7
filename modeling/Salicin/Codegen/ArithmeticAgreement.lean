import Salicin.Codegen.CtfeArithmetic
import Salicin.Codegen.IntegerConversion

/-!
# Integer arithmetic at compile time and at run time

Both sides of an integer operation in terms of the integers its operands stand for. The
checked side reports every overflow. The emitted code traps on bad divisors and shift
counts; its additions, subtractions, multiplications, negations and left shifts wrap.
-/

namespace Salicin.Codegen

open CtfeInteger FixedWidth

/-- The two ways to run an operation agree: the emitted code traps where the checked
operation reports an error, and otherwise both yield the same normalized value. -/
def Agree (ty : IntegerTy) : Except IntegerEvalError CtfeResult → LlvmOutcome ty.width → Prop
  | .error _, .trap => True
  | .ok (.integer val), .integer bits => val = integerBits ty (bits.setWidth 128)
  | .ok (.bool val), .bool emitted => val = emitted
  | _, _ => False

/-- An integer operation that lowering accepts: unary minus takes a signed operand, and the
operands of a binary operator have one type. -/
inductive IntegerOperation
  | neg (operand : CtfeInteger) (hsigned : operand.ty.isSigned = true)
  | binary (operator : BinaryOp) (hop : operator ≠ .and ∧ operator ≠ .or)
      (left right : CtfeInteger) (htypes : right.ty = left.ty)

namespace IntegerOperation

def ty : IntegerOperation → IntegerTy
  | neg operand _ => operand.ty
  | binary _ _ left _ _ => left.ty

/-- The operation at compile time. -/
def evaluated : IntegerOperation → Except IntegerEvalError CtfeResult
  | neg operand _ => .integer <$> operand.checkedIntegerNeg
  | binary operator _ left right _ => left.checkedIntegerBinary operator right

/-- The operation at run time. -/
def emitted : (operation : IntegerOperation) → LlvmOutcome operation.ty.width
  | neg operand _ => emitNeg operand.ty operand.pattern
  | binary operator _ left right _ =>
    emitBinary left.ty operator left.pattern (right.bits.setWidth left.ty.width)

/-- The type holds the exact result of an addition, a subtraction, a multiplication, a
negation or a left shift by a valid count. -/
def ExactResultFits : IntegerOperation → Prop
  | neg operand _ => operand.ty.Representable (-operand.toInt)
  | binary .add _ left right _ => left.ty.Representable (left.toInt + right.toInt)
  | binary .sub _ left right _ => left.ty.Representable (left.toInt - right.toInt)
  | binary .mul _ left right _ => left.ty.Representable (left.toInt * right.toInt)
  | binary .shl _ left right _ =>
    0 ≤ right.toInt → right.toInt < left.ty.width →
      left.ty.Representable (left.toInt * 2 ^ right.toInt.toNat)
  | _ => True

end IntegerOperation

section Emission

variable {ty : IntegerTy}

theorem integerBits_truncate (bits : BitVec 128) :
    integerBits ty ((bits.setWidth ty.width).setWidth 128) =
      integerBits ty bits := by
  rw [← pattern_integerBits]
  exact integerBits_setWidth (integerBits ty bits)

theorem ofInt_eq_integerBits (val : Int) :
    ofInt ty val =
      integerBits ty ((BitVec.ofInt ty.width val).setWidth 128) := by
  rw [← setWidth_ofInt ty.width_le, integerBits_truncate]
  rfl

/-- A wrapping result agrees with the checked one exactly when nothing was cut off. -/
theorem agree_checked_iff (val : Int) :
    Agree ty (.integer <$> CtfeInteger.checked ty val) (.integer (BitVec.ofInt ty.width val)) ↔
      ty.Representable val := by
  by_cases hval : ty.Representable val
  · rw [checked_of_representable hval]
    exact iff_of_true (ofInt_eq_integerBits val) hval
  · rw [checked_of_not_representable hval]
    exact iff_of_false id hval

theorem agree_ofInt (val : Int) :
    Agree ty (.ok (.integer (ofInt ty val)))
      (.integer (BitVec.ofInt ty.width val)) :=
  ofInt_eq_integerBits val

variable (x y : BitVec ty.width)

/-- The division guard holds exactly for a zero divisor and for the overflowing quotient. -/
theorem integerDivisionGuard_iff :
    integerDivisionGuard ty x y = true ↔ interpret ty.isSigned y = 0 ∨
      interpret ty.isSigned y = -1 ∧
        nativeTarget.signedMin ty = some (interpret ty.isSigned x) := by
  have hzero : interpret ty.isSigned y = 0 ↔ y = 0 := by
    rw [← interpret_zero ty.isSigned ty.width, interpret_inj]
  have hbits (a b : BitVec ty.width) : IcmpPredicate.eq.eval a b = true ↔ a = b := beq_iff_eq
  unfold integerDivisionGuard
  cases hmin : nativeTarget.signedMin ty with
  | none => simpa [hbits] using hzero.symm
  | some minimum =>
    obtain ⟨hsigned, rfl⟩ := IntegerTy.signedMin_eq_some.mp hmin
    have hpow : (0 : Int) < 2 ^ (ty.width - 1) := by positivity
    have hleast : Representable ty.isSigned ty.width (-2 ^ (ty.width - 1)) := by
      rw [hsigned]
      exact ⟨le_refl _, by omega⟩
    have hminus : Representable ty.isSigned ty.width (-1) := by
      rw [hsigned]
      exact ⟨by omega, by omega⟩
    simp only [Bool.or_eq_true, Bool.and_eq_true, hbits, hzero, Option.some.injEq,
      interpret_eq_iff ty.width_pos hminus, eq_comm (b := interpret _ x),
      interpret_eq_iff ty.width_pos hleast, BitVec.ofInt_neg]
    rw [and_comm]
    rfl

theorem division_defined {x y : BitVec ty.width} (hguard : ¬ integerDivisionGuard ty x y = true) :
    y ≠ 0 ∧ (ty.isSigned = true → ¬ (x = BitVec.intMin ty.width ∧ y = -1)) := by
  rw [integerDivisionGuard_iff, not_or] at hguard
  refine ⟨?_, ?_⟩
  · rintro rfl
    exact hguard.1 (interpret_zero _ _)
  · rintro hsigned ⟨rfl, rfl⟩
    refine hguard.2 ⟨?_, IntegerTy.signedMin_eq_some.mpr ⟨hsigned, ?_⟩⟩
    · rw [hsigned]
      have hminus : Representable true ty.width (-1) := by
        have hpow : (0 : Int) < 2 ^ (ty.width - 1) := by positivity
        exact ⟨by omega, by omega⟩
      refine (interpret_eq_iff ty.width_pos hminus).mpr ?_
      rw [BitVec.ofInt_neg]
      rfl
    · rw [hsigned]
      exact BitVec.toInt_intMin_of_pos ty.width_pos

theorem emitBinary_div :
    emitBinary ty .div x y = if integerDivisionGuard ty x y = true then .trap
      else .integer (BitVec.ofInt ty.width
        ((interpret ty.isSigned x).tdiv (interpret ty.isSigned y))) := by
  simp only [emitBinary, true_or, true_and, reduceCtorEq, or_self, false_and, if_false]
  split
  · rfl
  next hguard =>
    obtain ⟨hzero, hover⟩ := division_defined hguard
    rw [ofInt_interpret_tdiv]
    cases hsigned : ty.isSigned with
    | true => exact if_neg (not_or.mpr ⟨hzero, hover hsigned⟩)
    | false => exact if_neg hzero

theorem emitBinary_rem :
    emitBinary ty .rem x y = if integerDivisionGuard ty x y = true then .trap
      else .integer (BitVec.ofInt ty.width
        ((interpret ty.isSigned x).tmod (interpret ty.isSigned y))) := by
  simp only [emitBinary, or_true, true_and, reduceCtorEq, or_self, false_and, if_false]
  split
  · rfl
  next hguard =>
    obtain ⟨hzero, hover⟩ := division_defined hguard
    rw [ofInt_interpret_tmod]
    cases hsigned : ty.isSigned with
    | true => exact if_neg (not_or.mpr ⟨hzero, hover hsigned⟩)
    | false => exact if_neg hzero

theorem shiftGuard_iff (y : BitVec ty.width) : shiftGuard ty y = true ↔ ty.width ≤ y.toNat := by
  have hwidth : ty.width < 2 ^ ty.width := Nat.lt_two_pow_self
  simp [shiftGuard, IcmpPredicate.eval, BitVec.ule, Nat.mod_eq_of_lt hwidth]

theorem emitBinary_shl :
    emitBinary ty .shl x y = if y.toNat < ty.width then
        .integer (BitVec.ofInt ty.width (interpret ty.isSigned x * 2 ^ y.toNat))
      else .trap := by
  simp only [emitBinary, reduceCtorEq, or_self, false_and, if_false, or_false, true_and,
    shiftGuard_iff, ofInt_interpret_shiftLeft]
  split
  next hcount => exact (if_neg (Nat.not_lt.mpr hcount)).symm
  next hcount =>
    have hlt := Nat.lt_of_not_le hcount
    exact (if_pos hlt).trans (if_pos hlt).symm

theorem emitBinary_shr :
    emitBinary ty .shr x y = if y.toNat < ty.width then
        .integer (BitVec.ofInt ty.width (interpret ty.isSigned x >>> y.toNat))
      else .trap := by
  simp only [emitBinary, reduceCtorEq, or_self, false_and, if_false, false_or, true_and,
    shiftGuard_iff, ofInt_interpret_shiftRight]
  split
  next hcount => exact (if_neg (Nat.not_lt.mpr hcount)).symm
  next hcount =>
    have hlt := Nat.lt_of_not_le hcount
    rw [if_pos hlt]
    cases ty.isSigned with
    | true => exact if_pos hlt
    | false => exact if_pos hlt

end Emission

section Agreement

variable {left right : CtfeInteger}

section
variable (htypes : right.ty = left.ty)
include htypes

theorem toInt_eq_interpret :
    right.toInt = interpret left.ty.isSigned (right.bits.setWidth left.ty.width) := by
  obtain ⟨ty, bits, hnormalized⟩ := right
  obtain rfl : ty = left.ty := htypes
  rfl

theorem divisionGuard_iff :
    integerDivisionGuard left.ty left.pattern (right.bits.setWidth left.ty.width) = true ↔
      right.toInt = 0 ∨
        right.toInt = -1 ∧ nativeTarget.signedMin left.ty = some left.toInt := by
  rw [toInt_eq_interpret htypes]
  exact integerDivisionGuard_iff _ _

/-- Division agrees always: both sides check the divisor and the overflowing quotient. -/
theorem agree_div :
    Agree left.ty (evaluate .div left right)
      (emitBinary left.ty .div left.pattern (right.bits.setWidth left.ty.width)) := by
  have hguard := divisionGuard_iff htypes
  rw [emitBinary_div, ← toInt_eq_interpret htypes, evaluate]
  by_cases hzero : right.toInt = 0
  · rw [if_pos hzero, if_pos (hguard.mpr (.inl hzero))]
    trivial
  · rw [if_neg hzero]
    have hquot := representable_div htypes hzero
    by_cases hover : right.toInt = -1 ∧ nativeTarget.signedMin left.ty = some left.toInt
    · rw [if_pos (hguard.mpr (.inr hover)), checked_of_not_representable
        (mt hquot.mp (not_not.mpr hover))]
      trivial
    · rw [if_neg (mt hguard.mp (not_or.mpr ⟨hzero, hover⟩))]
      exact (agree_checked_iff _).mpr (hquot.mpr hover)

theorem agree_rem :
    Agree left.ty (evaluate .rem left right)
      (emitBinary left.ty .rem left.pattern (right.bits.setWidth left.ty.width)) := by
  have hguard := divisionGuard_iff htypes
  rw [emitBinary_rem, ← toInt_eq_interpret htypes, evaluate]
  by_cases hzero : right.toInt = 0
  · rw [if_pos hzero, if_pos (hguard.mpr (.inl hzero))]
    trivial
  · rw [if_neg hzero]
    have hquot := representable_div htypes hzero
    by_cases hover : right.toInt = -1 ∧ nativeTarget.signedMin left.ty = some left.toInt
    · rw [if_pos (hguard.mpr (.inr hover)), if_neg (mt hquot.mp (not_not.mpr hover))]
      trivial
    · rw [if_neg (mt hguard.mp (not_or.mpr ⟨hzero, hover⟩)), if_pos (hquot.mpr hover)]
      exact agree_ofInt _

theorem shiftCount_of_types :
    ∃ error, shiftCount left.ty.width right =
      if (right.bits.setWidth left.ty.width).toNat < left.ty.width then
        .ok (right.bits.setWidth left.ty.width).toNat
      else .error error := by
  have hcount := shiftCount_eq right
  rw [pattern, htypes] at hcount
  exact ⟨_, hcount⟩

/-- Both sides check the count of a shift; a left shift then agrees when its exact result
fits. -/
theorem agree_shl_iff :
    Agree left.ty (evaluate .shl left right)
      (emitBinary left.ty .shl left.pattern (right.bits.setWidth left.ty.width)) ↔
      (0 ≤ right.toInt → right.toInt < left.ty.width →
        left.ty.Representable (left.toInt * 2 ^ right.toInt.toNat)) := by
  obtain ⟨error, hcount⟩ := shiftCount_of_types htypes
  have hrange := toNat_lt_iff left.ty.isSigned (x := right.bits.setWidth left.ty.width)
    left.ty.two_mul_width_le
  rw [emitBinary_shl, evaluate, hcount]
  rw [← toInt_eq_interpret htypes] at hrange
  by_cases hlt : (right.bits.setWidth left.ty.width).toNat < left.ty.width
  · have hval : right.toInt = (right.bits.setWidth left.ty.width).toNat := by
      rw [toInt_eq_interpret htypes]
      exact interpret_eq_toNat (by have := left.ty.two_mul_width_le; omega)
    rw [if_pos hlt, if_pos hlt]
    refine (agree_checked_iff _).trans ?_
    have hbounds := hrange.mp hlt
    simp only [hbounds.1, hbounds.2, forall_const]
    rw [hval, Int.toNat_natCast]
  · rw [if_neg hlt, if_neg hlt]
    exact iff_of_true trivial fun hlow hhigh => absurd (hrange.mpr ⟨hlow, hhigh⟩) hlt

theorem agree_shr :
    Agree left.ty (evaluate .shr left right)
      (emitBinary left.ty .shr left.pattern (right.bits.setWidth left.ty.width)) := by
  obtain ⟨error, hcount⟩ := shiftCount_of_types htypes
  rw [emitBinary_shr, evaluate, hcount]
  by_cases hlt : (right.bits.setWidth left.ty.width).toNat < left.ty.width
  · rw [if_pos hlt, if_pos hlt]
    exact agree_ofInt _
  · rw [if_neg hlt, if_neg hlt]
    trivial

/-- The wrapping instructions compute the exact result modulo the width. -/
theorem emitBinary_wrapping :
    emitBinary left.ty .add left.pattern (right.bits.setWidth left.ty.width) =
        .integer (BitVec.ofInt left.ty.width (left.toInt + right.toInt)) ∧
      emitBinary left.ty .sub left.pattern (right.bits.setWidth left.ty.width) =
        .integer (BitVec.ofInt left.ty.width (left.toInt - right.toInt)) ∧
      emitBinary left.ty .mul left.pattern (right.bits.setWidth left.ty.width) =
        .integer (BitVec.ofInt left.ty.width (left.toInt * right.toInt)) := by
  rw [toInt_eq_interpret htypes, toInt, ofInt_interpret_add, ofInt_interpret_sub,
    ofInt_interpret_mul]
  exact ⟨rfl, rfl, rfl⟩

/-- A comparison of the patterns is the comparison of the integers. -/
theorem emitBinary_comparison {op : BinaryOp} {result : Bool}
    (hres : compareIntegers op left.toInt right.toInt = some result) :
    emitBinary left.ty op left.pattern (right.bits.setWidth left.ty.width) =
      .bool result := by
  have hlt := interpret_lt left.ty.isSigned (w := left.ty.width)
  have hle := interpret_le left.ty.isSigned (w := left.ty.width)
  rw [toInt_eq_interpret htypes, toInt] at hres
  generalize right.bits.setWidth left.ty.width = y at hres ⊢
  generalize left.pattern = x at hres ⊢
  unfold compareIntegers at hres
  split at hres
  · cases hres
    rw [decide_eq_decide.mpr interpret_inj]
    rfl
  · cases hres
    refine congrArg LlvmOutcome.bool (?_ : (x != y) = _)
    rw [Bool.eq_iff_iff]
    simp [interpret_inj]
  · cases hres
    rw [hlt, emitBinary]
    cases left.ty.isSigned <;> rfl
  · cases hres
    rw [hle, emitBinary]
    cases left.ty.isSigned <;> rfl
  · cases hres
    refine Eq.trans ?_ (congrArg LlvmOutcome.bool (hlt y x).symm)
    rw [emitBinary]
    cases left.ty.isSigned <;> rfl
  · cases hres
    refine Eq.trans ?_ (congrArg LlvmOutcome.bool (hle y x).symm)
    rw [emitBinary]
    cases left.ty.isSigned <;> rfl
  · contradiction

end

/-- The bitwise instructions work on the patterns as the checked operators do. -/
theorem agree_bitwise {op : BinaryOp} {bits : BitVec 128}
    (hbits : CtfeInteger.bitwise op left.bits right.bits = some bits) :
    Agree left.ty (.ok (.integer (integerBits left.ty bits)))
      (emitBinary left.ty op left.pattern (right.bits.setWidth left.ty.width)) := by
  have hemitted : emitBinary left.ty op left.pattern (right.bits.setWidth left.ty.width) =
      .integer (bits.setWidth left.ty.width) := by
    unfold CtfeInteger.bitwise at hbits
    split at hbits
    · cases hbits
      exact congrArg LlvmOutcome.integer BitVec.setWidth_and.symm
    · cases hbits
      exact congrArg LlvmOutcome.integer BitVec.setWidth_or.symm
    · cases hbits
      exact congrArg LlvmOutcome.integer BitVec.setWidth_xor.symm
    · contradiction
  rw [hemitted]
  exact (integerBits_truncate bits).symm

end Agreement

/-- The compile-time and the run-time result of an integer operation agree exactly when no
addition, subtraction, multiplication, negation or left shift overflows. -/
theorem agree_iff_exactResultFits (operation : IntegerOperation) :
    Agree operation.ty operation.evaluated operation.emitted ↔ operation.ExactResultFits := by
  cases operation with
  | neg operand hsigned =>
    have hemitted : emitNeg operand.ty operand.pattern =
        .integer (BitVec.ofInt operand.ty.width (-operand.toInt)) := by
      rw [toInt, ofInt_interpret_neg]
      exact congrArg LlvmOutcome.integer (BitVec.zero_sub _)
    rw [IntegerOperation.evaluated, checkedIntegerNeg_eq hsigned,
      IntegerOperation.emitted, hemitted]
    exact agree_checked_iff _
  | binary operator hop left right htypes =>
    obtain ⟨hadd, hsub, hmul⟩ := emitBinary_wrapping htypes
    rw [IntegerOperation.evaluated, checkedIntegerBinary_eq htypes, IntegerOperation.emitted]
    cases operator with
    | add => exact hadd ▸ agree_checked_iff _
    | sub => exact hsub ▸ agree_checked_iff _
    | mul => exact hmul ▸ agree_checked_iff _
    | div => exact iff_of_true (agree_div htypes) trivial
    | rem => exact iff_of_true (agree_rem htypes) trivial
    | bitAnd => exact iff_of_true (agree_bitwise rfl) trivial
    | bitOr => exact iff_of_true (agree_bitwise rfl) trivial
    | bitXor => exact iff_of_true (agree_bitwise rfl) trivial
    | shl => exact agree_shl_iff htypes
    | shr => exact iff_of_true (agree_shr htypes) trivial
    | eq | ne | lt | le | gt | ge =>
      refine iff_of_true ?_ trivial
      rw [emitBinary_comparison htypes rfl]
      rfl
    | and => exact absurd rfl hop.1
    | or => exact absurd rfl hop.2

/-- Adding one to the largest `u8` reports an overflow at compile time and wraps to zero at
run time. -/
theorem not_agree_add_overflow :
    ¬ ∀ operation : IntegerOperation,
      Agree operation.ty operation.evaluated operation.emitted := by
  intro hall
  have hagree := hall (.binary .add ⟨by decide, by decide⟩ (integerBits .u8 255)
    (integerBits .u8 1) rfl)
  exact hagree

/-! ## Conversions -/

/-- `evaluate_checked_integer_conversion`, without the option around its result. It is `none` where
a value is not of the kind that its type asks for. -/
def evaluateCheckedIntegerConversion (value : CtfeInteger) (target : IntegerTy) :
    Option (Option CtfeInteger) :=
  if value.ty.isSigned then do
    let signed ← value.signedIntegerValue
    if target.isSigned then
      let minimum ← nativeTarget.signedMin target
      let maximum ← nativeTarget.signedMax target
      return if minimum ≤ signed ∧ signed ≤ maximum then
        some (integerBits target (BitVec.ofInt 128 signed)) else none
    else
      return if 0 ≤ signed ∧ signed ≤ nativeTarget.unsignedMax target then
        some (integerBits target (BitVec.ofInt 128 signed)) else none
  else do
    let unsigned ← value.unsignedIntegerValue
    let maximum :=
      if target.isSigned then nativeTarget.signedMax target
      else some (nativeTarget.unsignedMax target)
    return maximum.bind fun maximum =>
      if unsigned ≤ maximum then some (integerBits target (BitVec.ofInt 128 unsigned)) else none

/-- The magnitude of a receiver at compile time. -/
def evaluateIntegerMagnitude (value : CtfeInteger) (target : IntegerTy) : Option CtfeInteger :=
  value.signedIntegerValue.map fun signed => integerBits target (BitVec.ofNat 128 signed.natAbs)

theorem evaluateCheckedIntegerConversion_eq (value : CtfeInteger) (target : IntegerTy) :
    evaluateCheckedIntegerConversion value target = some
      (if target.Representable value.toInt then some (ofInt target value.toInt) else none) := by
  rw [evaluateCheckedIntegerConversion]
  cases hsrc : value.ty.isSigned with
  | true =>
    rw [if_pos rfl, signedIntegerValue_eq hsrc]
    cases htgt : target.isSigned with
    | true =>
      obtain ⟨minimum, maximum, hmin, hmax, -, -, -, -, hrange⟩ := exists_signedLimits htgt
      simp only [hmin, hmax, hrange, if_true]
      rfl
    | false =>
      simp only [IntegerTy.representable_unsigned htgt]
      rfl
  | false =>
    have hpositive : 0 ≤ value.toInt := by
      rw [CtfeInteger.toInt, hsrc]
      exact Int.natCast_nonneg _
    rw [if_neg Bool.false_ne_true, unsignedIntegerValue_eq hsrc]
    cases htgt : target.isSigned with
    | true =>
      obtain ⟨minimum, maximum, -, hmax, -, -, hmin, -, hrange⟩ := exists_signedLimits htgt
      simp only [hmax, hrange, hmin.trans hpositive, true_and, if_true]
      rfl
    | false =>
      simp only [IntegerTy.representable_unsigned htgt, hpositive, true_and]
      rfl

/-- A checked conversion and a magnitude are evaluated at compile time as they are at run time. -/
theorem conversions_agree (value : CtfeInteger) (target : IntegerTy) :
    (∃ fits, integerConversionFit value.ty target = some fits ∧
      evaluateCheckedIntegerConversion value target = some
        (if fits.eval value.pattern then some (integerBits target
          ((convertInteger value.ty target value.pattern).setWidth 128)) else none)) ∧
    ∀ magnitude, emitIntegerMagnitude value.ty target = some magnitude →
      evaluateIntegerMagnitude value target =
        some (integerBits target ((magnitude value.pattern).setWidth 128)) := by
  constructor
  · obtain ⟨fits, hfits, hdecides⟩ := exists_integerConversionFit value.ty target
    refine ⟨fits, hfits, ?_⟩
    rw [evaluateCheckedIntegerConversion_eq, ofInt_eq_integerBits, convertInteger_eq]
    simp only [hdecides value.pattern]
    rfl
  · intro magnitude hemit
    have hexact := emitIntegerMagnitude_exact hemit value.pattern
    rw [emitIntegerMagnitude] at hemit
    split_ifs at hemit with htypes
    simp only [not_or, Bool.not_eq_false, Bool.not_eq_true] at htypes
    obtain ⟨hsrc, hres, -⟩ := htypes
    rw [hres] at hexact
    have habs : value.toInt.natAbs = (magnitude value.pattern).toNat :=
      Int.natCast_inj.mp ((Int.natCast_natAbs _).trans hexact.symm)
    rw [evaluateIntegerMagnitude, signedIntegerValue_eq hsrc, Option.map_some, habs,
      BitVec.ofNat_toNat]

end Salicin.Codegen
