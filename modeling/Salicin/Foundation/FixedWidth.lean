import Mathlib.Tactic.NormNum
import Mathlib.Tactic.Ring
import Mathlib.Tactic.Zify

/-!
# Fixed-width integers

A bit vector stands for an integer in one of two ways, signed or unsigned. Wrapping
operations on bit vectors compute the exact integer operation modulo `2 ^ w`, and they
compute it exactly when the result is representable.
-/

namespace FixedWidth

open Nat

variable {w : Nat}

/-- The integer a bit vector stands for. -/
def interpret (signed : Bool) (x : BitVec w) : Int := if signed then x.toInt else x.toNat

/-- The integer has a bit vector of width `w`. -/
def Representable (signed : Bool) (w : Nat) (val : Int) : Prop :=
  if signed then -2 ^ (w - 1) ≤ val ∧ val < 2 ^ (w - 1) else 0 ≤ val ∧ val < 2 ^ w

instance (signed : Bool) (w : Nat) (val : Int) : Decidable (Representable signed w val) := by
  unfold Representable
  infer_instance

theorem ofInt_interpret (signed : Bool) (x : BitVec w) :
    BitVec.ofInt w (interpret signed x) = x := by
  cases signed with
  | false =>
    change BitVec.ofInt w (x.toNat : Int) = x
    rw [BitVec.ofInt_natCast, BitVec.ofNat_toNat, BitVec.setWidth_eq]
  | true => exact BitVec.ofInt_toInt

theorem two_pow_eq_two_mul (hw : 0 < w) : (2 : Int) ^ w = 2 * 2 ^ (w - 1) := by
  conv_lhs => rw [← Nat.sub_add_cancel hw]
  rw [pow_succ]
  ring

theorem representable_interpret (signed : Bool) (x : BitVec w) :
    Representable signed w (interpret signed x) := by
  cases signed with
  | false =>
    have hlt := x.isLt
    refine ⟨Int.natCast_nonneg _, ?_⟩
    change (x.toNat : Int) < 2 ^ w
    exact_mod_cast hlt
  | true => exact ⟨BitVec.le_toInt x, BitVec.toInt_lt⟩

variable {signed : Bool} {val : Int}

theorem Representable.widen {v : Nat} (hle : w ≤ v) (hval : Representable signed w val) :
    Representable signed v val := by
  cases signed with
  | false =>
    have hpow : (2 : Int) ^ w ≤ 2 ^ v := pow_le_pow_right₀ (by decide) hle
    exact ⟨hval.1, hval.2.trans_le hpow⟩
  | true =>
    have hpow : (2 : Int) ^ (w - 1) ≤ 2 ^ (v - 1) :=
      pow_le_pow_right₀ (by decide) (Nat.sub_le_sub_right hle 1)
    exact ⟨(neg_le_neg hpow).trans hval.1, hval.2.trans_le hpow⟩

/-- The integers without a sign are half the range of a larger width with one. -/
theorem Representable.toSigned {v : Nat} (hlt : w < v) (hval : Representable false w val) :
    Representable true v val := by
  have hpow : (2 : Int) ^ w ≤ 2 ^ (v - 1) := pow_le_pow_right₀ (by decide) (by omega)
  have hneg : -(2 : Int) ^ (v - 1) ≤ 0 := neg_nonpos.mpr (by positivity)
  exact ⟨hneg.trans hval.1, hval.2.trans_le hpow⟩

/-- The nonnegative integers with a sign have a pattern without one. -/
theorem Representable.toUnsigned {v : Nat} (hle : w ≤ v) (hnn : 0 ≤ val)
    (hval : Representable true w val) : Representable false v val := by
  have hpow : (2 : Int) ^ (w - 1) ≤ 2 ^ v := pow_le_pow_right₀ (by decide) (by omega)
  exact ⟨hnn, hval.2.trans_le hpow⟩

theorem setWidth_ofInt {v : Nat} (hle : w ≤ v) (val : Int) :
    (BitVec.ofInt v val).setWidth w = BitVec.ofInt w val := by
  have hdvd : ((2 ^ w : Nat) : Int) ∣ ((2 ^ v : Nat) : Int) := by
    exact_mod_cast pow_dvd_pow 2 hle
  have hpos (n : Nat) : 0 ≤ val % ((2 ^ n : Nat) : Int) := Int.emod_nonneg _ (by positivity)
  apply BitVec.eq_of_toNat_eq
  rw [BitVec.toNat_setWidth]
  zify
  rw [BitVec.toNat_ofInt, BitVec.toNat_ofInt, Int.toNat_of_nonneg (hpos v),
    Int.toNat_of_nonneg (hpos w)]
  exact_mod_cast Int.emod_emod_of_dvd val hdvd

/-- Shifting a short pattern to the top and back extends its sign. -/
theorem toInt_shiftLeft_shiftRight {v : Nat} (hle : w ≤ v) {x : BitVec v}
    (hshort : x.toNat < 2 ^ w) :
    (x <<< (v - w)).toInt >>> (v - w) = (x.setWidth w).toInt := by
  have hpos : 0 < 2 ^ (v - w) := Nat.two_pow_pos _
  have hpow : 2 ^ v = 2 ^ w * 2 ^ (v - w) := by
    rw [← pow_add, Nat.add_sub_cancel' hle]
  have hfits : x.toNat * 2 ^ (v - w) < 2 ^ v := hpow ▸ Nat.mul_lt_mul_of_pos_right hshort hpos
  have hsign : 2 * (x.toNat * 2 ^ (v - w)) < 2 ^ v ↔ 2 * x.toNat < 2 ^ w := by
    rw [hpow, ← mul_assoc, Nat.mul_lt_mul_right hpos]
  have hne : ((2 ^ (v - w) : Nat) : Int) ≠ 0 := by exact_mod_cast hpos.ne'
  rw [Int.shiftRight_eq_div_pow, BitVec.toInt_eq_toNat_cond, BitVec.toInt_eq_toNat_cond,
    BitVec.toNat_shiftLeft, BitVec.toNat_setWidth, shiftLeft_eq, mod_eq_of_lt hfits,
    mod_eq_of_lt hshort]
  by_cases hneg : 2 * x.toNat < 2 ^ w
  · rw [if_pos (hsign.mpr hneg), if_pos hneg, cast_mul]
    exact Int.mul_ediv_cancel _ hne
  · rw [if_neg (mt hsign.mp hneg), if_neg hneg, hpow, cast_mul, cast_mul, ← Int.sub_mul]
    exact Int.mul_ediv_cancel _ hne

/-- Within the range a bit vector stands for the integer it was made from. -/
theorem interpret_ofInt (hw : 0 < w) (hval : Representable signed w val) :
    interpret signed (BitVec.ofInt w val) = val := by
  have htwo := two_pow_eq_two_mul hw
  cases signed with
  | false =>
    obtain ⟨hlow, hhigh⟩ := hval
    change ((BitVec.ofInt w val).toNat : Int) = val
    rw [BitVec.toNat_ofInt]
    push_cast
    rw [Int.toNat_of_nonneg (Int.emod_nonneg _ (by positivity)), Int.emod_eq_of_lt hlow hhigh]
  | true =>
    obtain ⟨hlow, hhigh⟩ := hval
    change (BitVec.ofInt w val).toInt = val
    rw [BitVec.toInt_ofInt, Int.bmod_eq_of_le] <;> push_cast <;> omega

/-- The quotient that rounds to zero is representable unless the least signed integer is
divided by minus one. -/
theorem representable_tdiv_iff {a b : Int} (ha : Representable signed w a)
    (hb : Representable signed w b) (hne : b ≠ 0) :
    Representable signed w (a.tdiv b) ↔ ¬ (signed = true ∧ b = -1 ∧ a = -2 ^ (w - 1)) := by
  cases signed with
  | false =>
    refine iff_of_true ⟨Int.tdiv_nonneg ha.1 hb.1, ?_⟩ (by simp)
    exact (Int.tdiv_le_self _ ha.1).trans_lt ha.2
  | true =>
    obtain ⟨hlow, hhigh⟩ := ha
    simp only [Representable, if_true, true_and]
    generalize (2 : Int) ^ (w - 1) = bound at *
    by_cases hminus : b = -1
    · rw [hminus, Int.tdiv_neg, Int.tdiv_one]
      omega
    · have habs : (a.tdiv b).natAbs = a.natAbs / b.natAbs := Int.natAbs_tdiv a b
      refine iff_of_true ?_ fun h => hminus h.1
      by_cases hone : b = 1
      · rw [hone, Int.tdiv_one]
        exact ⟨hlow, hhigh⟩
      · have htwo : a.natAbs / b.natAbs ≤ a.natAbs / 2 :=
          div_le_div_left (by omega) (by decide)
        omega

theorem representable_tmod {a b : Int} (ha : Representable signed w a)
    (hb : Representable signed w b) (hne : b ≠ 0) : Representable signed w (a.tmod b) := by
  cases signed with
  | false =>
    have hpos : 0 < b := lt_of_le_of_ne hb.1 hne.symm
    exact ⟨Int.tmod_nonneg _ ha.1, (Int.tmod_lt_of_pos a hpos).trans hb.2⟩
  | true =>
    obtain ⟨hlow, hhigh⟩ := hb
    simp only [Representable, if_true]
    generalize (2 : Int) ^ (w - 1) = bound at *
    have habs : (a.tmod b).natAbs = a.natAbs % b.natAbs := Int.natAbs_tmod a b
    have hlt : a.natAbs % b.natAbs < b.natAbs := mod_lt _ (by omega)
    omega

/-- Rounding a quotient by a power of two down stays in the range. -/
theorem representable_shiftRight {a : Int} (ha : Representable signed w a) (count : Nat) :
    Representable signed w (a >>> count) := by
  have hpos : (0 : Int) < ((2 ^ count : Nat) : Int) := by positivity
  rw [Int.shiftRight_eq_div_pow]
  generalize ((2 ^ count : Nat) : Int) = divisor at *
  cases signed with
  | false =>
    exact ⟨Int.ediv_nonneg ha.1 hpos.le, (Int.ediv_le_self _ ha.1).trans_lt ha.2⟩
  | true =>
    obtain ⟨hlow, hhigh⟩ := ha
    have hbound : (0 : Int) < 2 ^ (w - 1) := by positivity
    simp only [Representable, if_true]
    generalize (2 : Int) ^ (w - 1) = bound at *
    have hscaled : bound ≤ bound * divisor := le_mul_of_one_le_right hbound.le hpos
    rw [Int.le_ediv_iff_mul_le hpos, Int.ediv_lt_iff_lt_mul hpos, Int.neg_mul]
    omega

theorem interpret_inj {x y : BitVec w} : interpret signed x = interpret signed y ↔ x = y := by
  constructor
  · intro heq
    rw [← ofInt_interpret signed x, heq, ofInt_interpret]
  · exact congrArg _

theorem interpret_eq_iff (hw : 0 < w) {x : BitVec w} (hval : Representable signed w val) :
    interpret signed x = val ↔ x = BitVec.ofInt w val := by
  rw [← interpret_inj, interpret_ofInt hw hval]

theorem interpret_zero (signed : Bool) (w : Nat) : interpret signed (0 : BitVec w) = 0 := by
  cases signed <;> simp [interpret]

/-- A pattern below half the range stands for the same number in both readings. -/
theorem toNat_lt_iff (signed : Bool) {x : BitVec w} {bound : Nat} (hbound : 2 * bound ≤ 2 ^ w) :
    x.toNat < bound ↔ 0 ≤ interpret signed x ∧ interpret signed x < bound := by
  have hlt := x.isLt
  cases signed with
  | false =>
    change _ ↔ (0 : Int) ≤ x.toNat ∧ (x.toNat : Int) < bound
    omega
  | true =>
    change _ ↔ 0 ≤ x.toInt ∧ x.toInt < bound
    rw [BitVec.toInt_eq_toNat_cond]
    split <;> omega

theorem interpret_eq_toNat {x : BitVec w} (hx : 2 * x.toNat < 2 ^ w) :
    interpret signed x = x.toNat := by
  cases signed with
  | false => rfl
  | true => exact (BitVec.toInt_eq_toNat_cond x).trans (if_pos hx)

theorem ofInt_interpret_add (signed : Bool) (x y : BitVec w) :
    BitVec.ofInt w (interpret signed x + interpret signed y) = x + y := by
  rw [BitVec.ofInt_add, ofInt_interpret, ofInt_interpret]

theorem ofInt_interpret_neg (signed : Bool) (x : BitVec w) :
    BitVec.ofInt w (-interpret signed x) = -x := by
  rw [BitVec.ofInt_neg, ofInt_interpret]

theorem ofInt_interpret_sub (signed : Bool) (x y : BitVec w) :
    BitVec.ofInt w (interpret signed x - interpret signed y) = x - y := by
  rw [sub_eq_add_neg, BitVec.ofInt_add, BitVec.ofInt_neg, ofInt_interpret, ofInt_interpret,
    BitVec.sub_eq_add_neg]

theorem ofInt_interpret_mul (signed : Bool) (x y : BitVec w) :
    BitVec.ofInt w (interpret signed x * interpret signed y) = x * y := by
  rw [BitVec.ofInt_mul, ofInt_interpret, ofInt_interpret]

theorem ofInt_interpret_shiftLeft (signed : Bool) (x : BitVec w) (count : Nat) :
    BitVec.ofInt w (interpret signed x * 2 ^ count) = x <<< count := by
  rw [BitVec.ofInt_mul, ofInt_interpret, BitVec.shiftLeft_eq_mul_twoPow]
  congr 1
  apply BitVec.eq_of_toNat_eq
  rw [BitVec.toNat_ofInt, BitVec.toNat_twoPow]
  have hcast : ((2 : Int) ^ count) % ((2 ^ w : Nat) : Int) = ((2 ^ count % 2 ^ w : Nat) : Int) := by
    push_cast
    rfl
  rw [hcast, Int.toNat_natCast]

theorem ofInt_interpret_tdiv (signed : Bool) (x y : BitVec w) :
    BitVec.ofInt w ((interpret signed x).tdiv (interpret signed y)) =
      if signed then x.sdiv y else x.udiv y := by
  cases signed with
  | false =>
    change BitVec.ofInt w (Int.tdiv (x.toNat : Int) (y.toNat : Int)) = x.udiv y
    rw [← Int.ofNat_tdiv, BitVec.ofInt_natCast]
    apply BitVec.eq_of_toNat_eq
    rw [BitVec.toNat_ofNat, BitVec.udiv_eq, BitVec.toNat_udiv]
    exact mod_eq_of_lt ((div_le_self _ _).trans_lt x.isLt)
  | true =>
    apply BitVec.eq_of_toInt_eq
    rw [if_pos rfl, BitVec.toInt_sdiv, BitVec.toInt_ofInt]
    rfl

theorem ofInt_interpret_tmod (signed : Bool) (x y : BitVec w) :
    BitVec.ofInt w ((interpret signed x).tmod (interpret signed y)) =
      if signed then x.srem y else x.umod y := by
  cases signed with
  | false =>
    change BitVec.ofInt w (Int.tmod (x.toNat : Int) (y.toNat : Int)) = x.umod y
    rw [← Int.ofNat_tmod, BitVec.ofInt_natCast]
    apply BitVec.eq_of_toNat_eq
    rw [BitVec.toNat_ofNat, BitVec.umod_eq, BitVec.toNat_umod]
    exact mod_eq_of_lt ((mod_le _ _).trans_lt x.isLt)
  | true =>
    change BitVec.ofInt w (x.toInt.tmod y.toInt) = x.srem y
    rw [← BitVec.toInt_srem, BitVec.ofInt_toInt]

theorem ofInt_interpret_shiftRight (signed : Bool) (x : BitVec w) (count : Nat) :
    BitVec.ofInt w (interpret signed x >>> count) =
      if signed then x.sshiftRight count else x >>> count := by
  cases signed with
  | false =>
    change BitVec.ofInt w ((x.toNat : Int) >>> count) = x >>> count
    apply BitVec.eq_of_toNat_eq
    have hlt : x.toNat >>> count < 2 ^ w := (shiftRight_le _ _).trans_lt x.isLt
    rw [← Int.natCast_shiftRight, BitVec.ofInt_natCast, BitVec.toNat_ofNat,
      BitVec.toNat_ushiftRight, mod_eq_of_lt hlt]
  | true =>
    change BitVec.ofInt w (x.toInt >>> count) = x.sshiftRight count
    rw [← BitVec.toInt_sshiftRight, BitVec.ofInt_toInt]

theorem interpret_lt (signed : Bool) (x y : BitVec w) :
    decide (interpret signed x < interpret signed y) =
      if signed then x.slt y else x.ult y := by
  cases signed with
  | false => simp [interpret, BitVec.ult]
  | true => simp [interpret, BitVec.slt]

theorem interpret_le (signed : Bool) (x y : BitVec w) :
    decide (interpret signed x ≤ interpret signed y) =
      if signed then x.sle y else x.ule y := by
  cases signed with
  | false => simp [interpret, BitVec.ule]
  | true => simp [interpret, BitVec.sle]

end FixedWidth
