import Salicin.Codegen.CtfeValue

/-!
# What the checked operations compute

Every checked operation of compile-time evaluation computes the exact integer result and
reports an overflow when the type does not hold it.
-/

namespace Salicin.Codegen

open Nat FixedWidth

namespace CtfeInteger

/-- The pattern in the width of the type. -/
def pattern (val : CtfeInteger) : BitVec val.ty.width := val.bits.setWidth val.ty.width

/-- The integer that the value stands for. -/
def toInt (val : CtfeInteger) : Int := interpret val.ty.isSigned val.pattern

variable (val : CtfeInteger)

theorem representable_toInt : val.ty.Representable val.toInt :=
  representable_interpret _ _

theorem pattern_integerBits (ty : IntegerTy) (bits : BitVec 128) :
    (integerBits ty bits).pattern = bits.setWidth ty.width := by
  apply BitVec.eq_of_toNat_eq
  simp [pattern, integerBits, toNat_maskBits]

theorem integerBits_setWidth :
    integerBits val.ty (val.pattern.setWidth 128) = val := by
  cases val with
  | mk ty bits hnormalized =>
    simp only [integerBits, pattern, mk.injEq, true_and]
    apply BitVec.eq_of_toNat_eq
    have hlt := bits.isLt
    rw [toNat_maskBits, BitVec.toNat_setWidth, BitVec.toNat_setWidth, mod_eq_of_lt hnormalized,
      mod_eq_of_lt hlt, mod_eq_of_lt hnormalized]

/-- The value of the type nearest to the integer, modulo the width. -/
def ofInt (ty : IntegerTy) (val : Int) : CtfeInteger := integerBits ty (BitVec.ofInt 128 val)

/-- The exact result when the type holds it, an overflow otherwise. -/
def checked (ty : IntegerTy) (val : Int) : Except IntegerEvalError CtfeInteger :=
  if ty.Representable val then .ok (ofInt ty val) else .error .overflow

theorem signedIntegerValue_eq {val : CtfeInteger} (hsigned : val.ty.isSigned = true) :
    val.signedIntegerValue = some val.toInt := by
  have hshift := toInt_shiftLeft_shiftRight val.ty.width_le val.normalized
  rw [signedIntegerValue, if_neg (by simp [hsigned]), toInt, hsigned]
  change some _ = some (val.bits.setWidth val.ty.width).toInt
  rw [← hshift]
  split
  next hwidth => simp [hwidth, Int.shiftRight_eq_div_pow]
  · rfl

theorem unsignedIntegerValue_eq {val : CtfeInteger} (hsigned : val.ty.isSigned = false) :
    val.unsignedIntegerValue = some val.toInt := by
  rw [unsignedIntegerValue, if_pos (by simp [hsigned]), toInt, hsigned]
  have hnormalized := val.normalized
  change some (val.bits.toNat : Int) = some ((val.bits.setWidth val.ty.width).toNat : Int)
  rw [BitVec.toNat_setWidth, mod_eq_of_lt hnormalized]

variable {ty : IntegerTy}

theorem fromSigned_eq (hsigned : ty.isSigned = true) (val : Int) :
    fromSigned ty val = checked ty val := by
  have hlow : ∃ low, nativeTarget.signedMin ty = some low := ⟨_, if_pos hsigned⟩
  have hhigh : ∃ high, nativeTarget.signedMax ty = some high := ⟨_, if_pos hsigned⟩
  obtain ⟨low, hlow⟩ := hlow
  obtain ⟨high, hhigh⟩ := hhigh
  simp only [fromSigned, hlow, hhigh, checked, IntegerTy.representable_signed hlow hhigh, ofInt]

theorem fromUnsigned_eq (hsigned : ty.isSigned = false) {val : Int} (hval : 0 ≤ val) :
    fromUnsigned ty val = checked ty val := by
  simp only [fromUnsigned, checked, IntegerTy.representable_unsigned hsigned, hval, true_and, ofInt]

/-- The range check in 128 bits never rejects what the type holds. -/
theorem checkedI128_bind (hsigned : ty.isSigned = true) (val : Int) :
    ((checkedI128 val).elim (.error .overflow) .ok >>= fromSigned ty) = checked ty val := by
  have hwide : ty.Representable val → -2 ^ 127 ≤ val ∧ val < 2 ^ 127 := by
    intro hval
    cases ty with
    | i8 | i16 | i32 | i64 | i128 | isize =>
      simp only [IntegerTy.Representable, Representable, IntegerTy.isSigned, if_true,
        IntegerTy.width, Target.integerWidth, nativeTarget] at hval
      norm_num at hval ⊢
      omega
    | _ => contradiction
  unfold checkedI128
  split
  · exact fromSigned_eq hsigned val
  next hrange => exact (if_neg (mt hwide hrange)).symm

theorem checkedU128_bind (hsigned : ty.isSigned = false) (val : Int) :
    ((checkedU128 val).elim (.error .overflow) .ok >>= fromUnsigned ty) = checked ty val := by
  have hwide : ty.Representable val → 0 ≤ val ∧ val < 2 ^ 128 := by
    intro hval
    cases ty with
    | u8 | u16 | u32 | u64 | u128 | usize =>
      simp only [IntegerTy.Representable, Representable, IntegerTy.isSigned, Bool.false_eq_true,
        if_false, IntegerTy.width, Target.integerWidth, nativeTarget] at hval
      norm_num at hval ⊢
      omega
    | _ => contradiction
  unfold checkedU128
  split
  next hrange => exact fromUnsigned_eq hsigned hrange.1
  next hrange => exact (if_neg (mt hwide hrange)).symm

/-! ## The binary operators -/

@[simp] theorem ok_bind {ε α β : Type} (val : α) (rest : α → Except ε β) :
    (Except.ok val >>= rest) = rest val := rfl

@[simp] theorem error_bind {ε α β : Type} (error : ε) (rest : α → Except ε β) :
    (Except.error error >>= rest : Except ε β) = .error error := rfl

theorem checked_of_representable {val : Int} (hval : ty.Representable val) :
    checked ty val = .ok (ofInt ty val) := if_pos hval

theorem checked_of_not_representable {val : Int} (hval : ¬ ty.Representable val) :
    checked ty val = .error .overflow := if_neg hval

variable {right left : CtfeInteger}

/-- The quotient that rounds to zero leaves the type only when the least value is divided
by minus one. -/
theorem representable_div (htypes : right.ty = left.ty) (hright : right.toInt ≠ 0) :
    left.ty.Representable (left.toInt.tdiv right.toInt) ↔
      ¬ (right.toInt = -1 ∧ nativeTarget.signedMin left.ty = some left.toInt) := by
  rw [IntegerTy.Representable, representable_tdiv_iff left.representable_toInt
    (htypes ▸ right.representable_toInt) hright, IntegerTy.signedMin_eq_some]
  tauto

theorem representable_rem (htypes : right.ty = left.ty) (hright : right.toInt ≠ 0) :
    left.ty.Representable (left.toInt.tmod right.toInt) :=
  representable_tmod left.representable_toInt (htypes ▸ right.representable_toInt) hright

theorem bitwise_short {op : BinaryOp} {w : Nat} {left right bits : BitVec 128}
    (hbits : bitwise op left right = some bits) (hleft : left.toNat < 2 ^ w)
    (hright : right.toNat < 2 ^ w) : bits.toNat < 2 ^ w := by
  unfold bitwise at hbits
  split at hbits
  · cases hbits
    exact BitVec.toNat_and _ _ ▸ and_lt_two_pow _ hright
  · cases hbits
    exact BitVec.toNat_or _ _ ▸ or_lt_two_pow hleft hright
  · cases hbits
    exact BitVec.toNat_xor _ _ ▸ xor_lt_two_pow hleft hright
  · contradiction

/-- What a binary operator computes, in terms of the integers that the operands stand for. -/
def evaluate (operator : BinaryOp) (left right : CtfeInteger) :
    Except IntegerEvalError CtfeResult :=
  match operator with
  | .add => .integer <$> checked left.ty (left.toInt + right.toInt)
  | .sub => .integer <$> checked left.ty (left.toInt - right.toInt)
  | .mul => .integer <$> checked left.ty (left.toInt * right.toInt)
  | .div =>
    if right.toInt = 0 then .error .divisionByZero
    else .integer <$> checked left.ty (left.toInt.tdiv right.toInt)
  | .rem =>
    if right.toInt = 0 then .error .remainderByZero
    else if left.ty.Representable (left.toInt.tdiv right.toInt) then
      .ok (.integer (ofInt left.ty (left.toInt.tmod right.toInt)))
    else .error .overflow
  | .bitAnd => .ok (.integer (integerBits left.ty (left.bits &&& right.bits)))
  | .bitOr => .ok (.integer (integerBits left.ty (left.bits ||| right.bits)))
  | .bitXor => .ok (.integer (integerBits left.ty (left.bits ^^^ right.bits)))
  | .shl => do
    let count ← shiftCount left.ty.width right
    .integer <$> checked left.ty (left.toInt * 2 ^ count)
  | .shr => do
    let count ← shiftCount left.ty.width right
    .ok (.integer (ofInt left.ty (left.toInt >>> count)))
  | .eq => .ok (.bool (left.toInt = right.toInt))
  | .ne => .ok (.bool (left.toInt ≠ right.toInt))
  | .lt => .ok (.bool (left.toInt < right.toInt))
  | .le => .ok (.bool (left.toInt ≤ right.toInt))
  | .gt => .ok (.bool (left.toInt > right.toInt))
  | .ge => .ok (.bool (left.toInt ≥ right.toInt))
  | .and | .or => .error .invalidOperator

/-- The quotient or remainder that both signs compute after their check for zero. -/
theorem map_checkedI128_bind (hsigned : ty.isSigned = true) (val : Int) :
    ((checkedI128 val).elim (.error .overflow) .ok >>= fun val =>
      CtfeResult.integer <$> fromSigned ty val) = CtfeResult.integer <$> checked ty val := by
  rw [← checkedI128_bind hsigned, map_bind]

theorem map_checkedU128_bind (hsigned : ty.isSigned = false) (val : Int) :
    ((checkedU128 val).elim (.error .overflow) .ok >>= fun val =>
      CtfeResult.integer <$> fromUnsigned ty val) = CtfeResult.integer <$> checked ty val := by
  rw [← checkedU128_bind hsigned, map_bind]

theorem checkedIntegerBinary_signed (hsigned : left.ty.isSigned = true)
    (htypes : right.ty = left.ty) {op : BinaryOp} (hshift : op ≠ .shl ∧ op ≠ .shr) :
    left.checkedIntegerBinary op right = evaluate op left right := by
  have hmask : maskBits left.ty.width right.bits = right.bits := by
    apply BitVec.eq_of_toNat_eq
    rw [toNat_maskBits, ← htypes, mod_eq_of_lt right.normalized]
  have hright := signedIntegerValue_eq (htypes ▸ hsigned : right.ty.isSigned = true)
  have hbind := map_checkedI128_bind hsigned
  simp only [checkedIntegerBinary, htypes, ne_eq, not_true, if_false, hshift, or_self, hsigned,
    if_true, signedIntegerValue_eq hsigned, hright, Option.elim_some, hmask, ok_bind]
  cases op with
  | shl => exact absurd rfl hshift.1
  | shr => exact absurd rfl hshift.2
  | add => exact hbind _
  | sub => exact hbind _
  | mul => exact hbind _
  | div =>
    simp only [evaluate]
    by_cases hzero : right.toInt = 0
    · simp [hzero, bitwise, compareIntegers, checkedSigned]
    · by_cases hover : right.toInt = -1 ∧ nativeTarget.signedMin left.ty = some left.toInt
      · have hnot := mt (representable_div htypes hzero).mp (not_not.mpr hover)
        rw [if_pos ⟨.inl trivial, hover⟩, if_neg hzero, checked_of_not_representable hnot]
        rfl
      · rw [if_neg fun h => hover h.2, if_neg hzero]
        simp only [bitwise, compareIntegers, checkedSigned, hzero, if_false]
        exact hbind _
  | rem =>
    simp only [evaluate]
    by_cases hzero : right.toInt = 0
    · simp [hzero, bitwise, compareIntegers, checkedSigned]
    · have hquot := representable_div htypes hzero
      rw [if_neg hzero]
      by_cases hover : right.toInt = -1 ∧ nativeTarget.signedMin left.ty = some left.toInt
      · rw [if_pos ⟨.inr trivial, hover⟩, if_neg (mt hquot.mp (not_not.mpr hover))]
      · rw [if_neg fun h => hover h.2, if_pos (hquot.mpr hover)]
        simp only [bitwise, compareIntegers, checkedSigned, hzero, if_false]
        rw [hbind, checked_of_representable (representable_rem htypes hzero)]
        rfl
  | _ => rfl

theorem checkedIntegerBinary_unsigned (hsigned : left.ty.isSigned = false)
    (htypes : right.ty = left.ty) {op : BinaryOp} (hshift : op ≠ .shl ∧ op ≠ .shr) :
    left.checkedIntegerBinary op right = evaluate op left right := by
  have hright := unsignedIntegerValue_eq (htypes ▸ hsigned : right.ty.isSigned = false)
  have hbind := map_checkedU128_bind hsigned
  have hquot (hzero : right.toInt ≠ 0) : left.ty.Representable (left.toInt.tdiv right.toInt) := by
    rw [representable_div htypes hzero, IntegerTy.signedMin_eq_some, hsigned]
    simp
  have hbits {bits : BitVec 128} (hbits : bitwise op left.bits right.bits = some bits) :
      fromUnsigned left.ty bits.toNat = .ok (integerBits left.ty bits) := by
    have hshort := bitwise_short hbits left.normalized (htypes ▸ right.normalized)
    have hrange : left.ty.Representable bits.toNat := by
      rw [IntegerTy.Representable, hsigned]
      refine ⟨Int.natCast_nonneg _, ?_⟩
      exact_mod_cast hshort
    rw [fromUnsigned_eq hsigned (Int.natCast_nonneg _), checked_of_representable hrange, ofInt,
      BitVec.ofInt_natCast, BitVec.ofNat_toNat, BitVec.setWidth_eq]
  simp only [checkedIntegerBinary, htypes, ne_eq, not_true, if_false, hshift, or_self, hsigned,
    Bool.false_eq_true, unsignedIntegerValue_eq hsigned, hright, Option.elim_some, ok_bind]
  cases op with
  | shl => exact absurd rfl hshift.1
  | shr => exact absurd rfl hshift.2
  | add => exact hbind _
  | sub => exact hbind _
  | mul => exact hbind _
  | div =>
    simp only [evaluate]
    by_cases hzero : right.toInt = 0
    · simp [hzero, bitwise, compareIntegers, checkedUnsigned]
    · rw [if_neg hzero]
      simp only [bitwise, compareIntegers, checkedUnsigned, hzero, if_false]
      exact hbind _
  | rem =>
    simp only [evaluate]
    by_cases hzero : right.toInt = 0
    · simp [hzero, bitwise, compareIntegers, checkedUnsigned]
    · rw [if_neg hzero, if_pos (hquot hzero)]
      simp only [bitwise, compareIntegers, checkedUnsigned, hzero, if_false]
      rw [hbind, checked_of_representable (representable_rem htypes hzero)]
      rfl
  | bitAnd => exact congrArg (CtfeResult.integer <$> ·) (hbits rfl)
  | bitOr => exact congrArg (CtfeResult.integer <$> ·) (hbits rfl)
  | bitXor => exact congrArg (CtfeResult.integer <$> ·) (hbits rfl)
  | _ => rfl

theorem representable_shiftRight (count : Nat) :
    val.ty.Representable (val.toInt >>> count) :=
  FixedWidth.representable_shiftRight val.representable_toInt count

theorem checkedShift_shr (count : Nat) :
    val.checkedShift .shr count = .ok (ofInt val.ty (val.toInt >>> count)) := by
  have hrange := val.representable_shiftRight count
  cases hsigned : val.ty.isSigned with
  | true =>
    simp only [checkedShift, hsigned, if_true, signedIntegerValue_eq hsigned, Option.elim_some,
      ok_bind, fromSigned_eq hsigned, checked_of_representable hrange]
  | false =>
    have hnn : 0 ≤ val.toInt >>> count := ((IntegerTy.representable_unsigned hsigned _).mp hrange).1
    simp only [checkedShift, hsigned, Bool.false_eq_true, if_false, Option.elim_some, ok_bind,
      unsignedIntegerValue_eq hsigned, fromUnsigned_eq hsigned hnn,
      checked_of_representable hrange]

/-- Only zero and minus one can be shifted into the sign bit of `i128`. -/
theorem representable_mul_two_pow_127 (hsigned : ty.isSigned = true) (hwidth : 127 < ty.width)
    (opnd : Int) :
    ty.Representable (opnd * 2 ^ 127) ↔ opnd = -1 ∨ opnd = 0 := by
  have hle := ty.width_le
  obtain hwidth : ty.width = 128 := by omega
  rw [IntegerTy.Representable, hsigned, hwidth]
  simp only [Representable, if_true]
  omega

theorem checkedShift_shl {count : Nat} (hcount : count < val.ty.width) :
    val.checkedShift .shl count = checked val.ty (val.toInt * 2 ^ count) := by
  cases hsigned : val.ty.isSigned with
  | true =>
    simp only [checkedShift, hsigned, if_true, signedIntegerValue_eq hsigned, Option.elim_some,
      ok_bind]
    split
    next htop =>
      subst htop
      have hrange := representable_mul_two_pow_127 hsigned hcount val.toInt
      split
      next hminus => rw [hminus, fromSigned_eq hsigned, neg_one_mul]
      · split
        next hzero => rw [hzero, fromSigned_eq hsigned, zero_mul]
        next hminus hzero =>
          rw [checked_of_not_representable fun h => (hrange.mp h).elim hminus hzero]
          rfl
    · exact checkedI128_bind hsigned _
  | false =>
    have hpos : (0 : Int) < ((2 ^ count : Nat) : Int) := by positivity
    have hoperand : 0 ≤ val.toInt :=
      ((IntegerTy.representable_unsigned hsigned _).mp val.representable_toInt).1
    have hproduct : val.toInt <<< count = val.toInt * 2 ^ count := Int.shiftLeft_eq _ _
    have hnn : 0 ≤ val.toInt * 2 ^ count := by positivity
    have hrange : val.toInt ≤ nativeTarget.unsignedMax val.ty >>> count ↔
        val.ty.Representable (val.toInt * 2 ^ count) := by
      rw [IntegerTy.representable_unsigned hsigned, Int.shiftRight_eq_div_pow,
        Int.le_ediv_iff_mul_le hpos]
      simp [hnn]
    simp only [checkedShift, hsigned, Bool.false_eq_true, if_false, Option.elim_some, ok_bind,
      unsignedIntegerValue_eq hsigned]
    split
    next hfits => rw [hproduct, fromUnsigned_eq hsigned hnn]
    next hfits => rw [error_bind, checked_of_not_representable (mt hrange.mpr hfits)]

theorem nonnegativeIntegerValue_eq :
    val.nonnegativeIntegerValue = if 0 ≤ val.toInt then some val.toInt else none := by
  cases hsigned : val.ty.isSigned with
  | true => rw [nonnegativeIntegerValue, if_pos hsigned, signedIntegerValue_eq hsigned]; rfl
  | false =>
    have hnn := ((IntegerTy.representable_unsigned hsigned _).mp val.representable_toInt).1
    rw [nonnegativeIntegerValue, if_neg (by simp [hsigned]), unsignedIntegerValue_eq hsigned,
      if_pos hnn]

theorem shiftCount_eq (right : CtfeInteger) :
    shiftCount right.ty.width right =
      if right.pattern.toNat < right.ty.width then .ok right.pattern.toNat
      else .error (.invalidShift (right.integerDisplay.getD "<invalid>") right.ty.width) := by
  have hwidth := right.ty.two_mul_width_le
  have hiff := toNat_lt_iff right.ty.isSigned (x := right.pattern) hwidth
  have hle := right.ty.width_le
  change _ ↔ 0 ≤ right.toInt ∧ right.toInt < _ at hiff
  rw [shiftCount, nonnegativeIntegerValue_eq]
  by_cases hcount : right.pattern.toNat < right.ty.width
  · have hval : right.toInt = right.pattern.toNat := interpret_eq_toNat (by omega)
    have hrange := hiff.mp hcount
    rw [if_pos hcount, if_pos hrange.1]
    simp only [hrange.2, and_true]
    rw [if_pos (by omega), hval, Int.toNat_natCast]
  · rw [if_neg hcount]
    split
    next val hval =>
      split at hval
      next hnn =>
        cases hval
        rw [if_neg fun h => hcount (hiff.mpr ⟨hnn, h.2⟩)]
      · contradiction
    · rfl

theorem lt_of_shiftCount {width count : Nat} (hwidth : 0 < width)
    (hcount : shiftCount width right = .ok count) : count < width := by
  unfold shiftCount at hcount
  split at hcount
  · split at hcount
    next val _ hrange =>
      cases hcount
      omega
    · contradiction
  · contradiction

theorem checkedIntegerBinary_eq (htypes : right.ty = left.ty) (op : BinaryOp) :
    left.checkedIntegerBinary op right = evaluate op left right := by
  by_cases hshift : op ≠ .shl ∧ op ≠ .shr
  · cases hsigned : left.ty.isSigned with
    | true => exact checkedIntegerBinary_signed hsigned htypes hshift
    | false => exact checkedIntegerBinary_unsigned hsigned htypes hshift
  · have hop : op = .shl ∨ op = .shr := by tauto
    simp only [checkedIntegerBinary, htypes, ne_eq, not_true, if_false, hop, if_true]
    cases hcount : shiftCount left.ty.width right with
    | error error =>
      rcases hop with rfl | rfl <;> simp [evaluate, hcount]
    | ok count =>
      rcases hop with rfl | rfl
      · simp [evaluate, hcount, checkedShift_shl left (lt_of_shiftCount left.ty.width_pos hcount)]
      · simp [evaluate, hcount, checkedShift_shr left count]

theorem checkedIntegerNeg_eq {val : CtfeInteger} (hsigned : val.ty.isSigned = true) :
    val.checkedIntegerNeg = checked val.ty (-val.toInt) := by
  rw [checkedIntegerNeg, signedIntegerValue_eq hsigned]
  exact checkedI128_bind hsigned _

end CtfeInteger

end Salicin.Codegen
