import Salicin.Codegen.IntegerEmission

/-!
# Conversions between integer types

A checked conversion compares the pattern of its operand with the limits of the target type, and
converts it by truncation or by extension. The magnitude of a signed integer is an unsigned integer
of the same width.
-/

namespace Salicin.Codegen

open FixedWidth IntegerTy

/-! ## The emitted code -/

/-- The condition that is computed on the operand of a conversion. -/
inductive FitCondition
  | always
  | compare (predicate : IcmpPredicate) (constant : Int)
  | and (left right : FitCondition)

def FitCondition.eval {w : Nat} (x : BitVec w) : FitCondition → Bool
  | .always => true
  | .compare predicate constant => predicate.eval x (BitVec.ofInt w constant)
  | .and left right => left.eval x && right.eval x

/-- `emit_integer_conversion_fit`. It is `none` where a type has no limit of the kind that is asked
for. -/
def integerConversionFit (source target : IntegerTy) : Option FitCondition :=
  if source.isSigned = target.isSigned ∧ source.width ≤ target.width then some .always
  else if source.isSigned = false ∧ target.isSigned ∧ source.width < target.width then some .always
  else if source.isSigned ∧ target.isSigned = false then
    let nonnegative := .compare .sge 0
    if source.width ≤ target.width then some nonnegative
    else
      let maximum := nativeTarget.unsignedMax target
      some (.and nonnegative (.compare .sle maximum))
  else if target.isSigned then
    match nativeTarget.signedMax target with
    | none => none
    | some maximum =>
      if source.isSigned then
        match nativeTarget.signedMin target with
        | none => none
        | some minimum => some (.and (.compare .sge minimum) (.compare .sle maximum))
      else some (.compare .ule maximum)
  else
    let maximum := nativeTarget.unsignedMax target
    some (.compare .ule maximum)

/-- The pattern of the operand in the target type. -/
def convertInteger (source target : IntegerTy) (x : BitVec source.width) : BitVec target.width :=
  if hwidth : source.width = target.width then x.cast hwidth
  else if target.width < source.width then x.truncate target.width
  else if source.isSigned then x.signExtend target.width
  else x.zeroExtend target.width

/-- What a conversion selects. -/
inductive ConvertedOption (target : IntegerTy)
  | some (tag : Nat) (value : BitVec target.width)
  | none (tag : Nat)

/-- The integer that a variant holds, if this is all it holds. -/
def integerPayload (variant : VariantLayout) : Option IntegerTy :=
  match variant.fields with
  | [⟨_, .integer ty⟩] => some ty
  | _ => none

/-- The first variant `some(integer)`. -/
def someVariant (variants : List VariantLayout) : Option (Nat × IntegerTy) :=
  variants.zipIdx.findSome? fun (variant, index) =>
    if variant.name = "some" then (integerPayload variant).map fun ty => (index, ty) else none

/-- `emit_checked_integer_conversion` to an option with these variants. It is `none` where the
emitter reports an internal error. -/
def emitCheckedConversion (source : IntegerTy) (variants : List VariantLayout) :
    Option (Σ target : IntegerTy, BitVec source.width → ConvertedOption target) :=
  match someVariant variants,
    variants.findIdx? fun variant => variant.name = "none" ∧ variant.fields.isEmpty with
  | some (someIndex, target), some noneIndex =>
    (integerConversionFit source target).map fun fits =>
      ⟨target, fun x =>
        if fits.eval x then .some someIndex (convertInteger source target x)
        else .none noneIndex⟩
  | _, _ => none

/-- `emit_integer_magnitude`. It is `none` where the emitter reports an internal error. -/
def emitIntegerMagnitude (source result : IntegerTy) :
    Option (BitVec source.width → BitVec source.width) :=
  if source.isSigned = false ∨ result.isSigned ∨ source.width ≠ result.width then none
  else some fun x =>
    let negative := IcmpPredicate.slt.eval x 0
    let negated := 0 - x
    if negative then negated else x

/-! ## The converted pattern -/

/-- Every conversion keeps the integer, modulo the width of the target. -/
theorem convertInteger_eq (source target : IntegerTy) (x : BitVec source.width) :
    convertInteger source target x =
      BitVec.ofInt target.width (interpret source.isSigned x) := by
  rw [convertInteger]
  split_ifs with hequal hnarrow hsigned
  · have hcast : ∀ {w : Nat} (h : source.width = w),
        x.cast h = BitVec.ofInt w (interpret source.isSigned x) := by
      intro w h
      subst h
      exact (ofInt_interpret _ x).symm
    exact hcast hequal
  · rw [← setWidth_ofInt hnarrow.le, ofInt_interpret]
  · rw [hsigned]
    rfl
  · rw [Bool.not_eq_true] at hsigned
    rw [hsigned]
    change x.setWidth target.width = BitVec.ofInt target.width (x.toNat : Int)
    rw [BitVec.ofInt_natCast, BitVec.ofNat_toNat]

theorem interpret_convertInteger {source target : IntegerTy} {x : BitVec source.width}
    (hfits : target.Representable (interpret source.isSigned x)) :
    interpret target.isSigned (convertInteger source target x) = interpret source.isSigned x := by
  rw [convertInteger_eq]
  exact interpret_ofInt target.width_pos hfits

/-! ## The comparisons -/

/-- A comparison with a constant of the type compares the integers. -/
theorem eval_le {w : Nat} (hw : 0 < w) {signed : Bool} {constant : Int}
    (hconst : Representable signed w constant) (x : BitVec w) :
    FitCondition.eval x (.compare (if signed then .sle else .ule) constant) = true ↔
      interpret signed x ≤ constant := by
  have hcompare := interpret_le signed x (BitVec.ofInt w constant)
  rw [interpret_ofInt hw hconst] at hcompare
  refine Iff.trans ?_ (decide_eq_true_iff.symm.trans (by rw [hcompare])).symm
  cases signed <;> rfl

theorem eval_ge {w : Nat} (hw : 0 < w) {signed : Bool} {constant : Int}
    (hconst : Representable signed w constant) (x : BitVec w) :
    FitCondition.eval x (.compare (if signed then .sge else .uge) constant) = true ↔
      constant ≤ interpret signed x := by
  have hcompare := interpret_le signed (BitVec.ofInt w constant) x
  rw [interpret_ofInt hw hconst] at hcompare
  refine Iff.trans ?_ (decide_eq_true_iff.symm.trans (by rw [hcompare])).symm
  cases signed <;> rfl

theorem eval_and {w : Nat} {x : BitVec w} {left right : FitCondition} :
    FitCondition.eval x (.and left right) = true ↔
      left.eval x = true ∧ right.eval x = true := by
  rw [FitCondition.eval, Bool.and_eq_true]

/-! ## The limits -/

theorem representable_unsignedMax {ty : IntegerTy} (hsigned : ty.isSigned = false) :
    ty.Representable (nativeTarget.unsignedMax ty) := by
  rw [representable_unsigned hsigned]
  refine ⟨?_, le_refl _⟩
  cases ty <;> decide

theorem exists_signedLimits {ty : IntegerTy} (hsigned : ty.isSigned = true) :
    ∃ minimum maximum, nativeTarget.signedMin ty = some minimum ∧
      nativeTarget.signedMax ty = some maximum ∧
      ty.Representable minimum ∧ ty.Representable maximum ∧ minimum ≤ 0 ∧ 0 ≤ maximum ∧
      ∀ val, ty.Representable val ↔ minimum ≤ val ∧ val ≤ maximum := by
  obtain ⟨minimum, hmin⟩ : ∃ minimum, nativeTarget.signedMin ty = some minimum :=
    ⟨_, if_pos hsigned⟩
  obtain ⟨maximum, hmax⟩ : ∃ maximum, nativeTarget.signedMax ty = some maximum :=
    ⟨_, if_pos hsigned⟩
  have hrange := representable_signed hmin hmax
  have hzero : ty.Representable 0 := by
    have hrepresentable := representable_interpret ty.isSigned (0 : BitVec ty.width)
    rwa [interpret_zero] at hrepresentable
  have hsigns := (hrange 0).mp hzero
  refine ⟨minimum, maximum, hmin, hmax, ?_, ?_, hsigns.1, hsigns.2, hrange⟩
  · exact (hrange minimum).mpr ⟨le_refl _, hsigns.1.trans hsigns.2⟩
  · exact (hrange maximum).mpr ⟨hsigns.1.trans hsigns.2, le_refl _⟩

/-! ## Conversions are exact -/

/-- The condition holds of exactly the operands whose integer has a pattern in the target type. -/
def Decides (source target : IntegerTy) (fits : FitCondition) : Prop :=
  ∀ x : BitVec source.width, fits.eval x = true ↔ target.Representable (interpret source.isSigned x)

theorem decides_always {source target : IntegerTy}
    (hfits : ∀ x : BitVec source.width, target.Representable (interpret source.isSigned x)) :
    Decides source target .always :=
  fun x => iff_of_true rfl (hfits x)

section
variable {source target : IntegerTy}

/-- Without a change of sign only the limits of a narrower type matter. -/
theorem decides_same (hsame : source.isSigned = target.isSigned)
    (hwide : source.width ≤ target.width) : Decides source target .always := by
  refine decides_always fun x => ?_
  have hval := (representable_interpret source.isSigned x).widen hwide
  rwa [IntegerTy.Representable, ← hsame]

theorem decides_unsigned_signed (hsrc : source.isSigned = false)
    (htgt : target.isSigned = true) (hwide : source.width < target.width) :
    Decides source target .always := by
  refine decides_always fun x => ?_
  have hval := representable_interpret source.isSigned x
  rw [hsrc] at hval
  rw [IntegerTy.Representable, htgt, hsrc]
  exact hval.toSigned hwide

theorem eval_nonnegative (hsrc : source.isSigned = true) (x : BitVec source.width) :
    FitCondition.eval x (.compare .sge 0) = true ↔ 0 ≤ interpret source.isSigned x := by
  have hzero := representable_interpret source.isSigned (0 : BitVec source.width)
  rw [interpret_zero] at hzero
  have heval := eval_ge source.width_pos hzero x
  rwa [if_pos hsrc] at heval

theorem decides_signed_wide_unsigned (hsrc : source.isSigned = true)
    (htgt : target.isSigned = false) (hwide : source.width ≤ target.width) :
    Decides source target (.compare .sge 0) := by
  intro x
  rw [eval_nonnegative hsrc]
  constructor
  · intro hnn
    have hval := representable_interpret source.isSigned x
    rw [hsrc] at hval hnn ⊢
    rw [IntegerTy.Representable, htgt]
    exact hval.toUnsigned hwide hnn
  · intro hval
    exact ((representable_unsigned htgt _).mp hval).1

theorem decides_signed_unsigned (hsrc : source.isSigned = true)
    (htgt : target.isSigned = false) (hnarrow : target.width < source.width) :
    Decides source target
      (.and (.compare .sge 0) (.compare .sle (nativeTarget.unsignedMax target))) := by
  intro x
  have hmax := representable_unsignedMax htgt
  rw [IntegerTy.Representable, htgt] at hmax
  have hupper := eval_le source.width_pos (hmax.toSigned hnarrow) x
  rw [if_pos rfl] at hupper
  rw [eval_and, eval_nonnegative hsrc, hsrc, hupper, representable_unsigned htgt]

theorem decides_signed_signed (hsrc : source.isSigned = true) (htgt : target.isSigned = true)
    (hnarrow : target.width < source.width) {minimum maximum : Int}
    (hmin : target.Representable minimum) (hmax : target.Representable maximum)
    (hrange : ∀ val, target.Representable val ↔ minimum ≤ val ∧ val ≤ maximum) :
    Decides source target (.and (.compare .sge minimum) (.compare .sle maximum)) := by
  intro x
  rw [IntegerTy.Representable, htgt] at hmin hmax
  have hlower := eval_ge source.width_pos (hmin.widen hnarrow.le) x
  have hupper := eval_le source.width_pos (hmax.widen hnarrow.le) x
  rw [if_pos rfl] at hlower hupper
  rw [eval_and, hlower, hupper, hsrc, hrange]

theorem decides_unsigned_narrow_signed (hsrc : source.isSigned = false)
    (htgt : target.isSigned = true) (hnarrow : target.width ≤ source.width) {minimum maximum : Int}
    (hmax : target.Representable maximum) (hsign : minimum ≤ 0) (hnn : 0 ≤ maximum)
    (hrange : ∀ val, target.Representable val ↔ minimum ≤ val ∧ val ≤ maximum) :
    Decides source target (.compare .ule maximum) := by
  intro x
  rw [IntegerTy.Representable, htgt] at hmax
  have hupper := eval_le source.width_pos (hmax.toUnsigned hnarrow hnn) x
  rw [if_neg (by decide)] at hupper
  have hval := representable_interpret source.isSigned x
  rw [hsrc] at hval
  rw [hupper, hrange, hsrc]
  exact (and_iff_right (hsign.trans hval.1)).symm

theorem decides_unsigned_unsigned (hsrc : source.isSigned = false)
    (htgt : target.isSigned = false) (hnarrow : target.width ≤ source.width) :
    Decides source target (.compare .ule (nativeTarget.unsignedMax target)) := by
  intro x
  have hmax := representable_unsignedMax htgt
  rw [IntegerTy.Representable, htgt] at hmax
  have hupper := eval_le source.width_pos (hmax.widen hnarrow) x
  rw [if_neg (by decide)] at hupper
  have hval := representable_interpret source.isSigned x
  rw [hsrc] at hval
  rw [hupper, representable_unsigned htgt, hsrc]
  exact (and_iff_right hval.1).symm

end

/-- The condition that is emitted is right, for each pair of types. -/
theorem exists_integerConversionFit (source target : IntegerTy) :
    ∃ fits, integerConversionFit source target = some fits ∧ Decides source target fits := by
  rw [integerConversionFit]
  by_cases hsame : source.isSigned = target.isSigned ∧ source.width ≤ target.width
  · exact ⟨_, if_pos hsame, decides_same hsame.1 hsame.2⟩
  rw [if_neg hsame]
  cases hsrc : source.isSigned with
  | false =>
    cases htgt : target.isSigned with
    | false =>
      have hnarrow : target.width ≤ source.width := by
        simp only [hsrc, htgt, true_and] at hsame
        omega
      exact ⟨_, by simp, decides_unsigned_unsigned hsrc htgt hnarrow⟩
    | true =>
      by_cases hwide : source.width < target.width
      · exact ⟨_, by simp [hwide], decides_unsigned_signed hsrc htgt hwide⟩
      · obtain ⟨_, _, _, hmax, _, hhigh, hsign, hnn, hrange⟩ :=
          exists_signedLimits htgt
        exact ⟨_, by simp [hwide, hmax], decides_unsigned_narrow_signed hsrc htgt
          (Nat.le_of_not_lt hwide) hhigh hsign hnn hrange⟩
  | true =>
    cases htgt : target.isSigned with
    | false =>
      by_cases hwide : source.width ≤ target.width
      · exact ⟨_, by simp [hwide], decides_signed_wide_unsigned hsrc htgt hwide⟩
      · exact ⟨_, by simp [hwide], decides_signed_unsigned hsrc htgt (Nat.lt_of_not_le hwide)⟩
    | true =>
      have hnarrow : target.width < source.width := by
        simp only [hsrc, htgt, true_and] at hsame
        omega
      obtain ⟨_, _, hmin, hmax, hlow, hhigh, _, _, hrange⟩ := exists_signedLimits htgt
      exact ⟨_, by simp [hmin, hmax], decides_signed_signed hsrc htgt hnarrow hlow hhigh hrange⟩

/-- A checked conversion finds exactly whether the target type has the integer, and if it has, the
converted pattern is that integer. -/
theorem integerConversion_exact (source target : IntegerTy) :
    ∃ fits, integerConversionFit source target = some fits ∧ ∀ x : BitVec source.width,
      (fits.eval x = true ↔ target.Representable (interpret source.isSigned x)) ∧
      (fits.eval x = true → interpret target.isSigned (convertInteger source target x) =
        interpret source.isSigned x) := by
  obtain ⟨fits, hfits, hdecides⟩ := exists_integerConversionFit source target
  refine ⟨fits, hfits, fun x => ⟨hdecides x, fun hx => ?_⟩⟩
  exact interpret_convertInteger ((hdecides x).mp hx)

/-- A checked conversion selects `some` with the integer of its operand if the payload type has it,
and `none` otherwise. -/
theorem emitCheckedConversion_exact {source target : IntegerTy} {variants : List VariantLayout}
    {convert : BitVec source.width → ConvertedOption target}
    (hemit : emitCheckedConversion source variants = some ⟨target, convert⟩) :
    ∃ someIndex noneIndex, someVariant variants = some (someIndex, target) ∧
      ∀ x, (target.Representable (interpret source.isSigned x) → ∃ val,
          convert x = .some someIndex val ∧
            interpret target.isSigned val = interpret source.isSigned x) ∧
        (¬ target.Representable (interpret source.isSigned x) → convert x = .none noneIndex) := by
  rw [emitCheckedConversion] at hemit
  split at hemit
  · rename_i someIndex _ noneIndex hsome _
    obtain ⟨fits, hfits, hemit⟩ := Option.map_eq_some_iff.mp hemit
    cases hemit
    obtain ⟨decided, hdecided, hdecides⟩ := exists_integerConversionFit source target
    cases hdecided.symm.trans hfits
    refine ⟨someIndex, noneIndex, hsome, fun x => ⟨fun hval => ?_, fun hval => ?_⟩⟩
    · exact ⟨_, if_pos ((hdecides x).mpr hval), interpret_convertInteger hval⟩
    · exact if_neg (mt (hdecides x).mp hval)
  · cases hemit

theorem exists_converted_iff {source target : IntegerTy} {variants : List VariantLayout}
    {convert : BitVec source.width → ConvertedOption target}
    (hemit : emitCheckedConversion source variants = some ⟨target, convert⟩)
    (x : BitVec source.width) (val : BitVec target.width) :
    (∃ tag, convert x = .some tag val) ↔
      interpret target.isSigned val = interpret source.isSigned x := by
  obtain ⟨someIndex, _, _, hexact⟩ := emitCheckedConversion_exact hemit
  obtain ⟨hfits, hlost⟩ := hexact x
  constructor
  · rintro ⟨tag, htag⟩
    by_cases hrange : target.Representable (interpret source.isSigned x)
    · obtain ⟨found, hfound, hequal⟩ := hfits hrange
      cases htag.symm.trans hfound
      exact hequal
    · cases htag.symm.trans (hlost hrange)
  · intro hequal
    obtain ⟨found, hfound, hsame⟩ := hfits (hequal ▸ representable_interpret target.isSigned val)
    have hval : found = val := by
      rw [← ofInt_interpret target.isSigned found, hsame, ← hequal, ofInt_interpret]
    exact ⟨someIndex, hval ▸ hfound⟩

/-- Checked conversions between two types are inverse: a value that one of them hands on is what
the other converts back. -/
theorem emitCheckedConversion_inverse {source target : IntegerTy}
    {variants others : List VariantLayout} {convert : BitVec source.width → ConvertedOption target}
    {revert : BitVec target.width → ConvertedOption source}
    (hemit : emitCheckedConversion source variants = some ⟨target, convert⟩)
    (hback : emitCheckedConversion target others = some ⟨source, revert⟩)
    (x : BitVec source.width) (val : BitVec target.width) :
    (∃ tag, convert x = .some tag val) ↔ ∃ tag, revert val = .some tag x := by
  rw [exists_converted_iff hemit, exists_converted_iff hback, eq_comm]

/-- An option with this payload. -/
def optionVariants (payload : IntegerTy) : List VariantLayout :=
  [⟨"none", []⟩, ⟨"some", [⟨"value", .integer payload⟩]⟩]

theorem emitCheckedConversion_inverse_bytes : ∃ convert revert,
    emitCheckedConversion .i8 (optionVariants .u8) = some ⟨.u8, convert⟩ ∧
      emitCheckedConversion .u8 (optionVariants .i8) = some ⟨.i8, revert⟩ ∧
      ((∃ tag, convert 5 = .some tag 5) ↔ ∃ tag, revert 5 = .some tag 5) := by
  exact ⟨_, _, rfl, rfl, emitCheckedConversion_inverse
    (rfl : emitCheckedConversion .i8 (optionVariants .u8) = _)
    (rfl : emitCheckedConversion .u8 (optionVariants .i8) = _) 5 5⟩

/-- The magnitude of the least integer does not fit the signed type, but the unsigned one. -/
theorem emitIntegerMagnitude_exact {source res : IntegerTy}
    {magnitude : BitVec source.width → BitVec source.width}
    (hemit : emitIntegerMagnitude source res = some magnitude) (x : BitVec source.width) :
    interpret res.isSigned (magnitude x) = |interpret source.isSigned x| := by
  rw [emitIntegerMagnitude] at hemit
  split_ifs at hemit with htypes
  cases hemit
  simp only [not_or, Bool.not_eq_false, Bool.not_eq_true] at htypes
  obtain ⟨hsrc, hres, _⟩ := htypes
  rw [hsrc, hres]
  have hbound := x.isLt
  have hval := BitVec.toInt_eq_toNat_cond x
  change (((if x.slt 0 then 0 - x else x : BitVec source.width).toNat : Nat) : Int) = |x.toInt|
  have hslt : x.slt 0 = decide (x.toInt < 0) := by
    rw [BitVec.slt_eq_decide]
    exact congrArg (fun zero => decide (x.toInt < zero)) BitVec.toInt_zero
  rw [hslt]
  by_cases hneg : x.toInt < 0
  · have hpositive : 0 < x.toNat := by
      split_ifs at hval <;> omega
    have hnegated : (0 - x).toNat = 2 ^ source.width - x.toNat := by
      rw [show 0 - x = -x from BitVec.zero_sub x, BitVec.toNat_neg]
      exact Nat.mod_eq_of_lt (by omega)
    rw [if_pos (decide_eq_true hneg), hnegated, abs_of_neg hneg]
    split_ifs at hval <;> omega
  · rw [if_neg (by simpa using hneg), abs_of_nonneg (not_lt.mp hneg)]
    split_ifs at hval <;> omega

end Salicin.Codegen
