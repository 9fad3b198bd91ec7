import Salicin.Formatting.IntegerParsing

/-!
# Displayed integers are read back

The display writes the canonical decimal digits of a number, after a minus sign where the number is
negative, and the parser of the type reads that text back.
-/

namespace Salicin.Formatting

open List FixedWidth

/-! ## What is written -/

def digitByte (digit : Nat) : UInt8 := 48 + UInt8.ofNat digit

/-- The decimal digits of a number in ASCII. -/
def decimalBytes (value : Nat) : List UInt8 := (numeralDigits 10 value).map digitByte

/-- The decimal digits of an integer after its sign. -/
def signedBytes (value : Int) : List UInt8 :=
  (if value < 0 then [45] else []) ++ decimalBytes value.natAbs

theorem remainderDigit_eq {remainder : Nat} (hlt : remainder < 10) :
    remainderDigit remainder = UInt8.ofNat remainder := by
  interval_cases remainder <;> rfl

theorem digitOf_digitByte {digit : Nat} (hlt : digit < 10) :
    DigitOf 10 (digitByte digit) digit := by
  refine ⟨hlt, .inl ⟨hlt, ?_⟩⟩
  interval_cases digit <;> rfl

section
variable {m : Type → Type} [Monad m] [LawfulMonad m] (writeAscii : UInt8 → m Unit)

theorem writeUnsigned_eq (value : Nat) :
    writeUnsigned writeAscii value = (decimalBytes value).forM writeAscii := by
  induction value using Nat.strong_induction_on with
  | h value ih =>
    have hlast : writeDigit writeAscii (remainderDigit (value % 10)) =
        writeAscii (digitByte (value % 10)) := by
      rw [remainderDigit_eq (Nat.mod_lt _ (by decide))]
      rfl
    rw [writeUnsigned, hlast]
    split_ifs with hlarge
    · rw [ih (value / 10) (by omega), decimalBytes, decimalBytes,
        numeralDigits_of_le (by decide) hlarge, map_append]
      simp
    · rw [decimalBytes, numeralDigits_of_lt (Nat.lt_of_not_le hlarge),
        Nat.mod_eq_of_lt (Nat.lt_of_not_le hlarge)]
      simp

theorem displayInteger_eq (value : Int) :
    displayInteger writeAscii value = (signedBytes value).forM writeAscii := by
  rw [displayInteger, displaySigned, signedBytes, writeUnsigned_eq]
  by_cases hneg : value < 0
  · simp [hneg, writeMinus]
  · simp [hneg]

end

theorem run_forM_writeByte (bytes text : List UInt8) :
    ((bytes.forM writeByte).run text).2 = text ++ bytes := by
  induction bytes generalizing text with
  | nil => exact (append_nil text).symm
  | cons byte rest ih =>
    have hrest := ih (text ++ [byte])
    rw [append_assoc] at hrest
    exact hrest

theorem written_displayUnsigned (value : Nat) :
    written (displayUnsigned writeByte value) = decimalBytes value := by
  rw [displayUnsigned, writeUnsigned_eq, written, run_forM_writeByte, nil_append]

theorem written_displayInteger (value : Int) :
    written (displayInteger writeByte value) = signedBytes value := by
  rw [displayInteger_eq, written, run_forM_writeByte, nil_append]

/-! ## Reading back -/

theorem readsFrom_decimalBytes {limit value : Nat} (hle : value ≤ limit) :
    ReadsFrom 10 limit 0 (decimalBytes value) value := by
  refine ⟨numeralDigits 10 value, ?_, (numeral_numeralDigits 10 value).symm, hle⟩
  rw [decimalBytes, forall₂_map_left_iff, forall₂_same]
  exact fun digit hmem => digitOf_digitByte (lt_of_mem_numeralDigits (by decide) hmem)

theorem decimalBytes_ne_nil (value : Nat) : decimalBytes value ≠ [] := by
  rw [decimalBytes, ne_eq, map_eq_nil_iff]
  exact (canonical_numeralDigits 10 value).nonempty

theorem length_decimalBytes_le (value : Nat) (hlt : value < 10 ^ 20) :
    (decimalBytes value).length ≤ 20 := by
  rw [decimalBytes, length_map]
  exact length_numeralDigits_le (by decide) (by decide) hlt

theorem length_displayUnsigned_lt (value : UInt64) :
    (written (displayUnsigned writeByte value.toNat)).length < 2 ^ 64 := by
  have hval := value.toNat_lt
  have hlen := length_decimalBytes_le value.toNat (by omega)
  rw [written_displayUnsigned]
  omega

theorem length_displayInteger_lt (value : Int64) :
    (written (displayInteger writeByte value.toInt)).length < 2 ^ 64 := by
  have hlow := value.le_toInt
  have hhigh := value.toInt_lt
  have hlen := length_decimalBytes_le value.toInt.natAbs (by omega)
  rw [written_displayInteger, signedBytes, length_append]
  split_ifs <;> simp only [length_singleton, length_nil] <;> omega

/-- The text of a `u64`. -/
def displayedU64 (value : UInt64) : Str where
  bytes := written (displayUnsigned writeByte value.toNat)
  length_lt := length_displayUnsigned_lt value

/-- The text of an `i64`. -/
def displayedI64 (value : Int64) : Str where
  bytes := written (displayInteger writeByte value.toInt)
  length_lt := length_displayInteger_lt value

theorem parse_displayedU64 (value : UInt64) :
    parseU64Radix (displayedU64 value) 10 = .ok (value.toNat : Int) := by
  have hval := value.toNat_lt
  have hbytes : (displayedU64 value).bytes = decimalBytes value.toNat :=
    written_displayUnsigned value.toNat
  rw [parseU64Radix_eq_ok_iff, hbytes]
  exact ⟨by decide, decimalBytes_ne_nil _, value.toNat, readsFrom_decimalBytes (by omega), rfl⟩

theorem parse_displayedI64 (value : Int64) :
    parseI64Radix (displayedI64 value) 10 = .ok value.toInt := by
  have hlow := value.le_toInt
  have hhigh := value.toInt_lt
  have hbytes : (displayedI64 value).bytes = signedBytes value.toInt :=
    written_displayInteger value.toInt
  rw [parseI64Radix_eq_ok_iff, hbytes, signedBytes]
  refine ⟨by decide, ?_⟩
  by_cases hneg : value.toInt < 0
  · rw [if_pos hneg]
    refine ⟨-1, 1, _, value.toInt.natAbs, .minus _, decimalBytes_ne_nil _, ?_, by omega⟩
    exact readsFrom_decimalBytes (by rw [signedLimit, if_pos rfl]; omega)
  · rw [if_neg hneg, nil_append]
    have hreads : ReadsFrom 10 (signedLimit 1) 0 (decimalBytes value.toInt.natAbs)
        value.toInt.natAbs :=
      readsFrom_decimalBytes (by rw [signedLimit, if_neg (by decide)]; omega)
    obtain ⟨hplus, hminus⟩ := hreads.head_ne
    exact ⟨1, 0, _, value.toInt.natAbs, .unsigned hminus hplus, decimalBytes_ne_nil _, hreads,
      by omega⟩

/-! ## Exactness -/

/-- What is read within the limit of a type is a number that the type has. -/
theorem readsFrom_iff {radix limit : Nat} {signed : Bool} {sign : Int} {bytes : List UInt8}
    {value : Int}
    (hlimit : ∀ num : Nat, Representable signed 64 (sign * num) ↔ num ≤ limit) :
    (bytes ≠ [] ∧ ∃ num, ReadsFrom radix limit 0 bytes num ∧ value = sign * num) ↔
      ∃ digits, digits ≠ [] ∧ List.Forall₂ (DigitOf radix) bytes digits ∧
        value = sign * numeral radix digits ∧ Representable signed 64 value := by
  constructor
  · rintro ⟨hbytes, _, ⟨digits, hdigits, rfl, hle⟩, rfl⟩
    refine ⟨digits, ?_, hdigits, rfl, (hlimit _).mpr hle⟩
    rintro rfl
    exact hbytes (forall₂_nil_right_iff.mp hdigits)
  · rintro ⟨digits, hne, hdigits, rfl, hval⟩
    refine ⟨?_, _, ⟨digits, hdigits, rfl, (hlimit _).mp hval⟩, rfl⟩
    rintro rfl
    exact hne (forall₂_nil_left_iff.mp hdigits)

theorem representable_u64_iff (num : Nat) :
    Representable false 64 (1 * (num : Int)) ↔ num ≤ 2 ^ 64 - 1 := by
  rw [one_mul]
  constructor
  · rintro ⟨_, hlt⟩
    omega
  · intro hle
    constructor <;> omega

theorem Signed.representable_iff {bytes body : List UInt8} {sign : Int} {start : Nat}
    (hsigned : Signed bytes sign start body) (num : Nat) :
    Representable true 64 (sign * num) ↔ num ≤ signedLimit sign := by
  have hlimit : Representable true 64 (sign * num) ↔
      -2 ^ 63 ≤ sign * num ∧ sign * num < 2 ^ 63 := Iff.rfl
  rw [hlimit]
  cases hsigned with
  | minus => rw [signedLimit, if_pos rfl]; omega
  | plus | unsigned => rw [signedLimit, if_neg (by decide)]; omega

/-- Parsing succeeds on the numerals of the type's integers and reports the first failing position
otherwise. No operation overflows, and the displayed text, which has no superfluous zeros and no
superfluous sign, is read back. -/
theorem integer_text_exact :
    (∀ text radix value, parseU64Radix text radix = .ok value ↔
        (2 ≤ radix.toNat ∧ radix.toNat ≤ 36) ∧
          ∃ digits, digits ≠ [] ∧ List.Forall₂ (DigitOf radix.toNat) text.bytes digits ∧
            value = numeral radix.toNat digits ∧ Representable false 64 value) ∧
      (∀ text radix stop, parseU64Radix text radix = .error stop ↔
        ∃ failure offset, UnsignedFailure radix.toNat text.bytes failure offset ∧
          stop = .failed ⟨failure, (offset : Int)⟩) ∧
      (∀ text radix value, parseI64Radix text radix = .ok value ↔
        (2 ≤ radix.toNat ∧ radix.toNat ≤ 36) ∧
          ∃ sign start body digits, Signed text.bytes sign start body ∧ digits ≠ [] ∧
            List.Forall₂ (DigitOf radix.toNat) body digits ∧
            value = sign * numeral radix.toNat digits ∧ Representable true 64 value) ∧
      (∀ text radix stop, parseI64Radix text radix = .error stop ↔
        ∃ failure offset, SignedFailure radix.toNat text.bytes failure offset ∧
          stop = .failed ⟨failure, (offset : Int)⟩) ∧
      (∀ value : UInt64, parseU64Radix (displayedU64 value) 10 = .ok (value.toNat : Int) ∧
        ∃ digits, Canonical digits ∧ (displayedU64 value).bytes = digits.map digitByte) ∧
      (∀ value : Int64, parseI64Radix (displayedI64 value) 10 = .ok value.toInt ∧
        ∃ digits, Canonical digits ∧ (displayedI64 value).bytes =
          (if value.toInt < 0 then [45] else []) ++ digits.map digitByte) := by
  refine ⟨fun text radix value => ?_, fun text radix stop => parseU64Radix_eq_error_iff,
    fun text radix value => ?_, fun text radix stop => parseI64Radix_eq_error_iff,
    fun value => ⟨parse_displayedU64 value, ?_⟩, fun value => ⟨parse_displayedI64 value, ?_⟩⟩
  · have hreads : (text.bytes ≠ [] ∧ ∃ number,
        ReadsFrom radix.toNat (2 ^ 64 - 1) 0 text.bytes number ∧ value = 1 * (number : Int)) ↔ _ :=
      readsFrom_iff representable_u64_iff
    simp only [one_mul] at hreads
    rw [parseU64Radix_eq_ok_iff, hreads]
  · rw [parseI64Radix_eq_ok_iff]
    refine and_congr_right fun _ => ?_
    constructor
    · rintro ⟨sign, start, body, number, hsigned, hbody, hreads, hval⟩
      obtain ⟨digits, hdigits⟩ :=
        (readsFrom_iff hsigned.representable_iff).mp ⟨hbody, number, hreads, hval⟩
      exact ⟨sign, start, body, digits, hsigned, hdigits⟩
    · rintro ⟨sign, start, body, digits, hsigned, hdigits⟩
      obtain ⟨hbody, number, hreads⟩ :=
        (readsFrom_iff hsigned.representable_iff).mpr ⟨digits, hdigits⟩
      exact ⟨sign, start, body, number, hsigned, hbody, hreads⟩
  · exact ⟨_, canonical_numeralDigits 10 _, written_displayUnsigned value.toNat⟩
  · exact ⟨_, canonical_numeralDigits 10 _, written_displayInteger value.toInt⟩

/-- A `u64` is not read with a sign before its digits. -/
theorem not_parseU64Radix_signed :
    ¬ ∀ text radix value, parseU64Radix text radix = .ok value ↔
      (2 ≤ radix.toNat ∧ radix.toNat ≤ 36) ∧
        ∃ sign start body digits, Signed text.bytes sign start body ∧ digits ≠ [] ∧
          List.Forall₂ (DigitOf radix.toNat) body digits ∧
          value = sign * numeral radix.toNat digits ∧ Representable false 64 value := by
  intro hclaim
  have hparse := (hclaim ⟨[43, 49], by decide⟩ 10 1).mpr ⟨by decide, 1, 1, [49], [1], .plus _,
    by decide, .cons (digitOf_digitByte (by decide)) .nil, by decide, by decide⟩
  cases hparse

end Salicin.Formatting
