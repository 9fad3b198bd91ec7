import Salicin.Formatting.Integers

/-!
# Integers are parsed exactly

A parse succeeds on the numerals whose number the type has, reports the first byte that no such
numeral continues with, and never overflows. The number read so far is the invariant of the loop:
the output is that number with its sign, and it is within the limit.
-/

namespace Salicin.Formatting

open Nat List FixedWidth

/-! ## Numerals -/

/-- The byte is a decimal digit or a letter that stands for a digit of the radix. -/
def DigitOf (radix : Nat) (byte : UInt8) (digit : Nat) : Prop :=
  digit < radix ∧ (digit < 10 ∧ byte.toNat = 48 + digit ∨ 10 ≤ digit ∧ digit < 36 ∧
        (byte.toNat = 65 + (digit - 10) ∨ byte.toNat = 97 + (digit - 10)))

/-- The bytes continue a number with digits of the radix, to a larger one within the limit. -/
def ReadsFrom (radix limit start : Nat) (bytes : List UInt8) (num : Nat) : Prop :=
  ∃ digits, List.Forall₂ (DigitOf radix) bytes digits ∧
    num = numeralFrom radix start digits ∧ num ≤ limit

/-- The first byte that does not continue the number: the bytes before it do, and it is no digit
or it leads over the limit. -/
def FailsFrom (radix limit start : Nat) (bytes : List UInt8) (failure : ParseIntErrorKind)
    (offset : Nat) : Prop :=
  ∃ before byte after num, bytes = before ++ byte :: after ∧ before.length = offset ∧
    ReadsFrom radix limit start before num ∧
    (failure = .invalidDigit ∧ (∀ digit, ¬ DigitOf radix byte digit) ∨
      failure = .overflow ∧ ∃ digit, DigitOf radix byte digit ∧ limit < num * radix + digit)

section
variable {radix limit start num digit : Nat} {byte : UInt8} {rest : List UInt8}

theorem DigitOf.unique {other : Nat} (hdigit : DigitOf radix byte digit)
    (hother : DigitOf radix byte other) : digit = other := by
  obtain ⟨_, hdigit⟩ := hdigit
  obtain ⟨_, hother⟩ := hother
  omega

theorem readsFrom_nil : ReadsFrom radix limit start [] num ↔ num = start ∧ start ≤ limit := by
  constructor
  · rintro ⟨digits, hdigits, rfl, hlimit⟩
    cases hdigits
    exact ⟨rfl, hlimit⟩
  · rintro ⟨rfl, hlimit⟩
    exact ⟨[], .nil, rfl, hlimit⟩

theorem readsFrom_cons (hdigit : DigitOf radix byte digit) :
    ReadsFrom radix limit start (byte :: rest) num ↔
      ReadsFrom radix limit (start * radix + digit) rest num := by
  constructor
  · rintro ⟨digits, hdigits, hnum, hlimit⟩
    cases hdigits with
    | cons hfst htail =>
      rw [hdigit.unique hfst]
      exact ⟨_, htail, hnum, hlimit⟩
  · rintro ⟨digits, hdigits, hnum, hlimit⟩
    exact ⟨digit :: digits, .cons hdigit hdigits, hnum, hlimit⟩

theorem not_readsFrom_cons (hdigit : ∀ digit, ¬ DigitOf radix byte digit) :
    ¬ ReadsFrom radix limit start (byte :: rest) num := by
  rintro ⟨digits, hdigits, _⟩
  cases hdigits with
  | cons hfst _ => exact hdigit _ hfst

theorem ReadsFrom.start_le (hradix : 0 < radix) (hreads : ReadsFrom radix limit start rest num) :
    start ≤ limit := by
  obtain ⟨digits, _, rfl, hlimit⟩ := hreads
  exact (le_numeralFrom hradix).trans hlimit

theorem FailsFrom.ne_nil {failure : ParseIntErrorKind} {offset : Nat}
    (hfails : FailsFrom radix limit start rest failure offset) : rest ≠ [] := by
  obtain ⟨before, byte, after, _, hbytes, _⟩ := hfails
  rw [hbytes]
  exact append_ne_nil_of_right_ne_nil _ (cons_ne_nil _ _)

theorem failsFrom_cons {failure : ParseIntErrorKind} {offset : Nat} (hstart : start ≤ limit) :
    FailsFrom radix limit start (byte :: rest) failure offset ↔
      offset = 0 ∧ (failure = .invalidDigit ∧ (∀ digit, ¬ DigitOf radix byte digit) ∨
        failure = .overflow ∧ ∃ digit, DigitOf radix byte digit ∧ limit < start * radix + digit) ∨
      ∃ digit next, DigitOf radix byte digit ∧ offset = next + 1 ∧
        FailsFrom radix limit (start * radix + digit) rest failure next := by
  constructor
  · rintro ⟨before, last, after, num, hbytes, rfl, hreads, hfail⟩
    cases before with
    | nil =>
      cases hbytes
      obtain ⟨rfl, _⟩ := readsFrom_nil.mp hreads
      exact .inl ⟨rfl, hfail⟩
    | cons first before =>
      cases hbytes
      by_cases hdigit : ∃ digit, DigitOf radix byte digit
      · obtain ⟨digit, hdigit⟩ := hdigit
        exact .inr ⟨digit, before.length, hdigit, rfl, before, last, after, num, rfl, rfl,
          (readsFrom_cons hdigit).mp hreads, hfail⟩
      · exact absurd hreads (not_readsFrom_cons (not_exists.mp hdigit))
  · rintro (⟨rfl, hfail⟩ | ⟨digit, next, hdigit, rfl, hrest⟩)
    · exact ⟨[], byte, rest, start, rfl, rfl, readsFrom_nil.mpr ⟨rfl, hstart⟩, hfail⟩
    · obtain ⟨before, last, after, num, rfl, rfl, hreads, hfail⟩ := hrest
      exact ⟨byte :: before, last, after, num, rfl, rfl, (readsFrom_cons hdigit).mpr hreads, hfail⟩

end

/-! ## Operations -/

theorem ok_bind {α β : Type} (val : α) (next : α → Parse β) :
    (Except.ok val >>= next) = next val := rfl

variable {signed : Bool}

theorem checked_eq {w : Nat} {val : Int} (hval : Representable signed w val) :
    checked signed w val = .ok val :=
  if_pos hval

theorem divided_eq {w : Nat} {dividend divisor : Int} (hdivisor : divisor ≠ 0)
    (hval : Representable signed w (dividend.tdiv divisor)) :
    divided signed w dividend divisor = .ok (dividend.tdiv divisor) := by
  rw [divided, if_neg hdivisor, checked_eq hval]

variable {num : Nat}

theorem representable_of_le {w limit : Nat} (hlimit : Representable signed w (limit : Int))
    (hle : num ≤ limit) :
    Representable signed w (num : Int) := by
  cases signed with
  | false => exact ⟨Int.natCast_nonneg _, (Int.ofNat_le.mpr hle).trans_lt hlimit.2⟩
  | true =>
    refine ⟨le_trans ?_ (Int.natCast_nonneg _), (Int.ofNat_le.mpr hle).trans_lt hlimit.2⟩
    exact neg_nonpos.mpr (by positivity)

theorem checked_unsigned {w : Nat} (hlt : num < 2 ^ w) :
    checked false w (num : Int) = .ok (num : Int) := by
  apply checked_eq
  exact ⟨Int.natCast_nonneg _, by exact_mod_cast hlt⟩

theorem representable_neg (hle : num ≤ 2 ^ 63) : Representable true 64 (-(num : Int)) := by
  constructor <;> omega

theorem digitValue_cases (byte : UInt8) :
    (∃ digit : Nat, digit < 36 ∧ digitValue byte = .ok (some (digit : Int)) ∧
      ∀ radix other, DigitOf radix byte other ↔ other = digit ∧ digit < radix) ∨
      digitValue byte = .ok none ∧ ∀ radix digit, ¬ DigitOf radix byte digit := by
  have hbyte := byte.toNat_lt
  rw [digitValue]
  split_ifs with hdecimal hupper hlower
  · left
    refine ⟨byte.toNat - 48, by omega, ?_, fun radix other => by rw [DigitOf]; omega⟩
    have hval : ((byte.toNat : Int) - 48) = ((byte.toNat - 48 : Nat) : Int) := by omega
    rw [hval, checked_unsigned (by omega)]
    rfl
  · left
    refine ⟨byte.toNat - 65 + 10, by omega, ?_, fun radix other => by rw [DigitOf]; omega⟩
    have hval : ((byte.toNat : Int) - 65) = ((byte.toNat - 65 : Nat) : Int) := by omega
    have hdigit : ((byte.toNat - 65 : Nat) : Int) + 10 = ((byte.toNat - 65 + 10 : Nat) : Int) := rfl
    rw [hval, checked_unsigned (by omega), ok_bind, hdigit, checked_unsigned (by omega)]
    rfl
  · left
    refine ⟨byte.toNat - 97 + 10, by omega, ?_, fun radix other => by rw [DigitOf]; omega⟩
    have hval : ((byte.toNat : Int) - 97) = ((byte.toNat - 97 : Nat) : Int) := by omega
    have hdigit : ((byte.toNat - 97 : Nat) : Int) + 10 = ((byte.toNat - 97 + 10 : Nat) : Int) := rfl
    rw [hval, checked_unsigned (by omega), ok_bind, hdigit, checked_unsigned (by omega)]
    rfl
  · right
    refine ⟨rfl, fun radix digit hdigit => ?_⟩
    obtain ⟨_, hdigit⟩ := hdigit
    omega

theorem widenFrom_eq (signed : Bool) {src output : Nat}
    (hroom : Representable signed 64 ((output + src : Nat) : Int)) :
    widenFrom signed src output = .ok ((output + src : Nat) : Int) := by
  induction src generalizing output with
  | zero => rfl
  | succ src ih =>
    have hnext : ((output : Int) + 1) = ((output + 1 : Nat) : Int) := rfl
    rw [widenFrom, hnext, checked_eq (representable_of_le hroom (by omega))]
    have hshift : output + (src + 1) = output + 1 + src := by
      rw [add_assoc, add_comm 1]
    rw [hshift] at hroom ⊢
    exact ih hroom

theorem widenU8_eq (signed : Bool) {val : Nat} (hval : val < 2 ^ 8) :
    widenU8 signed val = .ok (val : Int) := by
  have hwide : Representable signed 64 ((0 + val : Nat) : Int) := by
    cases signed <;> constructor <;> simp only [zero_add] <;> omega
  have hloop := widenFrom_eq signed hwide
  rw [zero_add] at hloop
  exact hloop

/-! ## Adding a digit -/

/-- The end of a turn computes the next number with its sign, unless it is over the limit. -/
def Appends (append : Int → Int → Parse (Option Int)) (sign : Int) (radix limit : Nat) : Prop :=
  ∀ num digit : Nat, num ≤ limit → digit < radix →
    append (sign * num) digit = .ok (if num * radix + digit ≤ limit then
      some (sign * ((num * radix + digit : Nat) : Int)) else none)

section
variable {radix : Nat} (hradix : 2 ≤ radix ∧ radix ≤ 36)
include hradix

theorem appends_appendDigit {limit : Nat} (hlimit : 36 ≤ limit)
    (hmax : Representable signed 64 (limit : Int)) :
    Appends (appendDigit signed limit radix) 1 radix limit := by
  intro num digit hnum hdigit
  have hroom : (limit : Int) - digit = ((limit - digit : Nat) : Int) := by omega
  have hbound : ((limit - digit : Nat) : Int).tdiv (radix : Int) =
      ((limit - digit) / radix : Nat) := (Int.ofNat_tdiv _ _).symm
  have hquot : (limit - digit) / radix ≤ limit := (div_le_self _ _).trans (sub_le _ _)
  have hover : (limit - digit) / radix < num ↔ limit < num * radix + digit := by
    rw [div_lt_iff_lt_mul (by omega)]
    omega
  rw [appendDigit, hroom, checked_eq (representable_of_le hmax (sub_le _ _)), ok_bind,
    divided_eq (by omega) (hbound ▸ representable_of_le hmax hquot), hbound, ok_bind,
    one_mul]
  by_cases hlarge : limit < num * radix + digit
  · rw [if_pos (Int.ofNat_lt.mpr (hover.mpr hlarge)), if_neg (Nat.not_le_of_lt hlarge)]
    rfl
  · have hsmall := Nat.le_of_not_lt hlarge
    have hscaled : (num : Int) * radix = ((num * radix : Nat) : Int) := rfl
    have hnext : ((num * radix : Nat) : Int) + digit = ((num * radix + digit : Nat) : Int) := rfl
    rw [if_neg fun h => hlarge (hover.mp (Int.ofNat_lt.mp h)), if_pos hsmall, hscaled,
      checked_eq (representable_of_le hmax ((le_add_right _ _).trans hsmall)), ok_bind,
      hnext, checked_eq (representable_of_le hmax hsmall), one_mul]
    rfl

theorem appends_appendNegative : Appends (appendNegative radix) (-1) radix (2 ^ 63) := by
  intro num digit hnum hdigit
  have hroom : -9223372036854775808 + (digit : Int) = -((2 ^ 63 - digit : Nat) : Int) := by omega
  have hbound : (-((2 ^ 63 - digit : Nat) : Int)).tdiv (radix : Int) =
      -(((2 ^ 63 - digit) / radix : Nat) : Int) := by
    rw [Int.neg_tdiv, Int.ofNat_tdiv]
  have hquot : (2 ^ 63 - digit) / radix ≤ 2 ^ 63 := (div_le_self _ _).trans (sub_le _ _)
  have hover : (2 ^ 63 - digit) / radix < num ↔ 2 ^ 63 < num * radix + digit := by
    rw [div_lt_iff_lt_mul (by omega)]
    omega
  rw [appendNegative, hroom, checked_eq (representable_neg (sub_le _ _)), ok_bind,
    divided_eq (by omega) (hbound ▸ representable_neg hquot), hbound, ok_bind, neg_one_mul]
  have hcompare : -(num : Int) < -(((2 ^ 63 - digit) / radix : Nat) : Int) ↔
      2 ^ 63 < num * radix + digit := by
    rw [neg_lt_neg_iff, Int.ofNat_lt, hover]
  by_cases hlarge : 2 ^ 63 < num * radix + digit
  · rw [if_pos (hcompare.mpr hlarge), if_neg (Nat.not_le_of_lt hlarge)]
    rfl
  · have hsmall := Nat.le_of_not_lt hlarge
    have hscaled : -(num : Int) * radix = -((num * radix : Nat) : Int) := by
      rw [Int.natCast_mul, neg_mul]
    have hnext : -((num * radix : Nat) : Int) - digit =
        -((num * radix + digit : Nat) : Int) := by
      rw [Int.natCast_add, neg_add, sub_eq_add_neg]
    rw [if_neg (hcompare.not.mpr hlarge), if_pos hsmall, hscaled,
      checked_eq (representable_neg ((le_add_right _ _).trans hsmall)), ok_bind, hnext,
      checked_eq (representable_neg hsmall), neg_one_mul]
    rfl

end

/-! ## The loop -/

variable {bytes : List UInt8}

section
variable {radix : UInt8} {signed : Bool} {append : Int → Int → Parse (Option Int)} {sign : Int}
  {limit : Nat}

theorem digitLoop_cons (signed : Bool) (byte : UInt8) (rest : List UInt8)
    (happend : Appends append sign radix.toNat limit) {i : Nat} (hnum : num ≤ limit)
    (hidx : i + 1 < 2 ^ 64) :
    ((∀ digit, ¬ DigitOf radix.toNat byte digit) ∧
        digitLoop radix signed append (byte :: rest) i (sign * num) =
          parseFailure .invalidDigit i) ∨
      ∃ digit, DigitOf radix.toNat byte digit ∧ (limit < num * radix.toNat + digit ∧
            digitLoop radix signed append (byte :: rest) i (sign * num) = parseFailure .overflow i ∨
          num * radix.toNat + digit ≤ limit ∧
            digitLoop radix signed append (byte :: rest) i (sign * num) =
              digitLoop radix signed append rest ((i + 1 : Nat) : Int)
                (sign * ((num * radix.toNat + digit : Nat) : Int))) := by
  rw [digitLoop]
  obtain ⟨digit, hsmall, hval, hdigit⟩ | ⟨hval, hnone⟩ := digitValue_cases byte
  · rw [hval, ok_bind]
    dsimp only
    by_cases hlarge : radix.toNat ≤ digit
    · left
      rw [if_pos (Int.ofNat_le.mpr hlarge)]
      refine ⟨fun other hother => ?_, rfl⟩
      exact absurd ((hdigit _ _).mp hother).2 (Nat.not_lt_of_le hlarge)
    · right
      have hlt := Nat.lt_of_not_le hlarge
      refine ⟨digit, (hdigit _ _).mpr ⟨rfl, hlt⟩, ?_⟩
      rw [if_neg fun h => hlarge (Int.ofNat_le.mp h), widenU8_eq signed (by omega), ok_bind,
        happend num digit hnum hlt, ok_bind]
      by_cases hover : limit < num * radix.toNat + digit
      · rw [if_neg (Nat.not_le_of_lt hover)]
        exact .inl ⟨hover, rfl⟩
      · have hfollowing : (i : Int) + 1 = ((i + 1 : Nat) : Int) := rfl
        rw [if_pos (Nat.le_of_not_lt hover)]
        dsimp only
        rw [hfollowing, checked_unsigned hidx]
        exact .inr ⟨Nat.le_of_not_lt hover, rfl⟩
  · left
    rw [hval, ok_bind]
    exact ⟨hnone _, rfl⟩

theorem digitLoop_eq_ok_iff (happend : Appends append sign radix.toNat limit)
    (hradix : 0 < radix.toNat) {i : Nat} (hnum : num ≤ limit)
    (hroom : i + bytes.length < 2 ^ 64) {val : Int} :
    digitLoop radix signed append bytes i (sign * num) = .ok val ↔
      ∃ total, ReadsFrom radix.toNat limit num bytes total ∧ val = sign * total := by
  induction bytes generalizing i num with
  | nil =>
    rw [digitLoop, Except.ok.injEq]
    constructor
    · rintro rfl
      exact ⟨num, readsFrom_nil.mpr ⟨rfl, hnum⟩, rfl⟩
    · rintro ⟨total, htotal, rfl⟩
      rw [(readsFrom_nil.mp htotal).1]
  | cons byte rest ih =>
    rw [length_cons] at hroom
    have hidx : i + 1 < 2 ^ 64 := by omega
    obtain ⟨hnone, hloop⟩ | ⟨digit, hdigit, ⟨hover, hloop⟩ | ⟨hnext, hloop⟩⟩ :=
      digitLoop_cons signed byte rest happend hnum hidx
    · rw [hloop]
      refine iff_of_false nofun ?_
      rintro ⟨total, htotal, _⟩
      exact not_readsFrom_cons hnone htotal
    · rw [hloop]
      refine iff_of_false nofun ?_
      rintro ⟨total, htotal, _⟩
      have hstart := ((readsFrom_cons hdigit).mp htotal).start_le hradix
      omega
    · rw [hloop, ih hnext (by omega)]
      simp only [readsFrom_cons hdigit]

/-- Otherwise it reports the first byte that does not continue a number within the limit. -/
theorem digitLoop_eq_error_iff (happend : Appends append sign radix.toNat limit) {i : Nat}
    (hnum : num ≤ limit) (hroom : i + bytes.length < 2 ^ 64) {stop : Stop} :
    digitLoop radix signed append bytes i (sign * num) = .error stop ↔
      ∃ failure offset, FailsFrom radix.toNat limit num bytes failure offset ∧
        stop = .failed ⟨failure, ((i + offset : Nat) : Int)⟩ := by
  induction bytes generalizing i num with
  | nil =>
    refine iff_of_false nofun ?_
    rintro ⟨_, _, hfails, _⟩
    exact hfails.ne_nil rfl
  | cons byte rest ih =>
    rw [length_cons] at hroom
    have hidx : i + 1 < 2 ^ 64 := by omega
    simp only [failsFrom_cons hnum]
    obtain ⟨hnone, hloop⟩ | ⟨digit, hdigit, ⟨hover, hloop⟩ | ⟨hnext, hloop⟩⟩ :=
      digitLoop_cons signed byte rest happend hnum hidx
    · rw [hloop, parseFailure, Except.error.injEq]
      constructor
      · rintro rfl
        exact ⟨_, 0, .inl ⟨rfl, .inl ⟨rfl, hnone⟩⟩, rfl⟩
      · rintro ⟨_, _, ⟨rfl, ⟨rfl, _⟩ | ⟨_, digit, hdigit, _⟩⟩ | ⟨digit, _, hdigit, _⟩, rfl⟩
        · rfl
        · exact absurd hdigit (hnone digit)
        · exact absurd hdigit (hnone digit)
    · rw [hloop, parseFailure, Except.error.injEq]
      constructor
      · rintro rfl
        exact ⟨_, 0, .inl ⟨rfl, .inr ⟨rfl, digit, hdigit, hover⟩⟩, rfl⟩
      · rintro ⟨_, _, ⟨rfl, ⟨_, hnone⟩ | ⟨rfl, _⟩⟩ | ⟨other, next, hother, _, hfails⟩, rfl⟩
        · exact absurd hdigit (hnone digit)
        · rfl
        · obtain ⟨_, _, _, _, _, _, hreads, _⟩ := hfails
          have hstart := hreads.start_le (by have := hdigit.1; omega)
          rw [← hdigit.unique hother] at hstart
          omega
    · rw [hloop, ih hnext (by omega)]
      constructor
      · rintro ⟨failure, offset, hfails, rfl⟩
        refine ⟨failure, offset + 1, .inr ⟨digit, offset, hdigit, rfl, hfails⟩, ?_⟩
        rw [add_assoc, add_comm 1]
      · rintro ⟨failure, _, ⟨_, ⟨_, hnone⟩ | ⟨_, other, hother, hover⟩⟩ |
          ⟨other, offset, hother, rfl, hfails⟩, rfl⟩
        · exact absurd hdigit (hnone digit)
        · rw [← hdigit.unique hother] at hover
          omega
        · rw [← hdigit.unique hother] at hfails
          refine ⟨failure, offset, hfails, ?_⟩
          rw [add_assoc, add_comm 1]

end

/-! ## The parsers -/

/-- The bytes begin with a minus sign, with a plus sign, or with neither. -/
inductive Signed : List UInt8 → Int → Nat → List UInt8 → Prop
  | minus (body : List UInt8) : Signed (45 :: body) (-1) 1 body
  | plus (body : List UInt8) : Signed (43 :: body) 1 1 body
  | unsigned {bytes : List UInt8} (hminus : bytes.head? ≠ some 45)
      (hplus : bytes.head? ≠ some 43) : Signed bytes 1 0 bytes

/-- The largest number that an `i64` has with this sign. -/
def signedLimit (sign : Int) : Nat := if sign = -1 then 2 ^ 63 else 2 ^ 63 - 1

/-- What `parse_u64_radix` reports. -/
inductive UnsignedFailure (radix : Nat) (bytes : List UInt8) : ParseIntErrorKind → Nat → Prop
  | empty (hbytes : bytes = []) : UnsignedFailure radix bytes .empty 0
  | invalidSign (hsign : bytes.head? = some 43 ∨ bytes.head? = some 45) :
      UnsignedFailure radix bytes .invalidSign 0
  | invalidRadix (hbytes : bytes ≠ []) (hplus : bytes.head? ≠ some 43)
      (hminus : bytes.head? ≠ some 45) (hradix : ¬ (2 ≤ radix ∧ radix ≤ 36)) :
      UnsignedFailure radix bytes .invalidRadix 0
  | digits {failure : ParseIntErrorKind} {offset : Nat} (hplus : bytes.head? ≠ some 43)
      (hminus : bytes.head? ≠ some 45) (hradix : 2 ≤ radix ∧ radix ≤ 36)
      (hfails : FailsFrom radix (2 ^ 64 - 1) 0 bytes failure offset) :
      UnsignedFailure radix bytes failure offset

/-- What `parse_i64_radix` reports. -/
inductive SignedFailure (radix : Nat) (bytes : List UInt8) : ParseIntErrorKind → Nat → Prop
  | invalidRadix (hradix : ¬ (2 ≤ radix ∧ radix ≤ 36)) :
      SignedFailure radix bytes .invalidRadix 0
  | empty {sign : Int} {start : Nat} (hradix : 2 ≤ radix ∧ radix ≤ 36)
      (hsigned : Signed bytes sign start []) : SignedFailure radix bytes .empty start
  | digits {sign : Int} {start offset : Nat} {body : List UInt8} {failure : ParseIntErrorKind}
      (hradix : 2 ≤ radix ∧ radix ≤ 36) (hsigned : Signed bytes sign start body)
      (hfails : FailsFrom radix (signedLimit sign) 0 body failure offset) :
      SignedFailure radix bytes failure (start + offset)

section
variable {text : Str} {radix : UInt8}

theorem radix_iff : ¬ (radix < 2 ∨ radix > 36) ↔ 2 ≤ radix.toNat ∧ radix.toNat ≤ 36 := by
  rw [not_or, UInt8.not_lt, gt_iff_lt, UInt8.not_lt, UInt8.le_iff_toNat_le, UInt8.le_iff_toNat_le]
  rfl

theorem parseMagnitude_eq (hradix : 2 ≤ radix.toNat ∧ radix.toNat ≤ 36) (hbytes : text.bytes ≠ [])
    (limit : Int) :
    parseMagnitude text 0 radix limit =
      digitLoop radix false (appendDigit false limit radix.toNat) text.bytes ((0 : Nat) : Int)
        (1 * ((0 : Nat) : Int)) := by
  have hlen : ¬ 0 = text.bytes.length := fun h => hbytes (length_eq_zero_iff.mp h.symm)
  rw [parseMagnitude, if_neg (radix_iff.mpr hradix), if_neg hlen,
    widenU8_eq false radix.toNat_lt, ok_bind, drop_zero]
  rfl

theorem parseU64Radix_of_head (hplus : text.bytes.head? ≠ some 43)
    (hminus : text.bytes.head? ≠ some 45) (hbytes : text.bytes ≠ []) :
    parseU64Radix text radix = parseMagnitude text 0 radix 18446744073709551615 := by
  rw [parseU64Radix]
  cases htext : text.bytes with
  | nil => exact absurd htext hbytes
  | cons first rest =>
    rw [htext, List.head?_cons] at hplus hminus
    dsimp only
    rw [if_neg]
    rintro (rfl | rfl)
    · exact hplus rfl
    · exact hminus rfl

theorem parseU64Radix_cases (text : Str) (radix : UInt8) :
    text.bytes = [] ∧ parseU64Radix text radix = parseFailure .empty 0 ∨
      (text.bytes.head? = some 43 ∨ text.bytes.head? = some 45) ∧
        parseU64Radix text radix = parseFailure .invalidSign 0 ∨
      text.bytes ≠ [] ∧ text.bytes.head? ≠ some 43 ∧ text.bytes.head? ≠ some 45 ∧
        (¬ (2 ≤ radix.toNat ∧ radix.toNat ≤ 36) ∧
            parseU64Radix text radix = parseFailure .invalidRadix 0 ∨
          (2 ≤ radix.toNat ∧ radix.toNat ≤ 36) ∧ parseU64Radix text radix =
              digitLoop radix false (appendDigit false ((2 ^ 64 - 1 : Nat) : Int) radix.toNat)
                text.bytes ((0 : Nat) : Int) (1 * ((0 : Nat) : Int))) := by
  by_cases hbytes : text.bytes = []
  · left
    rw [parseU64Radix, hbytes]
    exact ⟨rfl, rfl⟩
  right
  by_cases hsign : text.bytes.head? = some 43 ∨ text.bytes.head? = some 45
  · left
    refine ⟨hsign, ?_⟩
    cases htext : text.bytes with
    | nil => exact absurd htext hbytes
    | cons first rest =>
      rw [htext, List.head?_cons, Option.some_inj, Option.some_inj] at hsign
      rw [parseU64Radix, htext]
      exact if_pos hsign
  obtain ⟨hplus, hminus⟩ := not_or.mp hsign
  refine .inr ⟨hbytes, hplus, hminus, ?_⟩
  rw [parseU64Radix_of_head hplus hminus hbytes]
  by_cases hradix : 2 ≤ radix.toNat ∧ radix.toNat ≤ 36
  · exact .inr ⟨hradix, parseMagnitude_eq hradix hbytes _⟩
  · refine .inl ⟨hradix, if_pos ?_⟩
    by_contra hvalid
    exact hradix (radix_iff.mp hvalid)

theorem appends_u64 (hradix : 2 ≤ radix.toNat ∧ radix.toNat ≤ 36) :
    Appends (appendDigit false ((2 ^ 64 - 1 : Nat) : Int) radix.toNat) 1 radix.toNat
      (2 ^ 64 - 1) := by
  apply appends_appendDigit hradix (by omega)
  constructor <;> omega

theorem not_digitOf_sign {radix digit : Nat} :
    ¬ DigitOf radix 43 digit ∧ ¬ DigitOf radix 45 digit := by
  constructor <;> rintro ⟨_, h⟩ <;> simp only [UInt8.reduceToNat] at h <;> omega

variable {start : Nat}

theorem ReadsFrom.head_ne {radix limit : Nat} (hreads : ReadsFrom radix limit start bytes num) :
    bytes.head? ≠ some 43 ∧ bytes.head? ≠ some 45 := by
  cases bytes with
  | nil => exact ⟨nofun, nofun⟩
  | cons byte rest =>
    obtain ⟨digits, hdigits, _⟩ := hreads
    cases hdigits with
    | cons hdigit _ =>
      rw [List.head?_cons, ne_eq, ne_eq, Option.some_inj, Option.some_inj]
      constructor
      · rintro rfl
        exact not_digitOf_sign.1 hdigit
      · rintro rfl
        exact not_digitOf_sign.2 hdigit

theorem parseU64Radix_eq_ok_iff {val : Int} :
    parseU64Radix text radix = .ok val ↔ (2 ≤ radix.toNat ∧ radix.toNat ≤ 36) ∧ text.bytes ≠ [] ∧
        ∃ num, ReadsFrom radix.toNat (2 ^ 64 - 1) 0 text.bytes num ∧ val = num := by
  obtain ⟨hbytes, hparse⟩ | ⟨hsign, hparse⟩ | ⟨hbytes, hplus, hminus, ⟨hradix, hparse⟩ |
    ⟨hradix, hparse⟩⟩ := parseU64Radix_cases text radix
  · rw [hparse]
    exact iff_of_false nofun fun h => h.2.1 hbytes
  · rw [hparse]
    refine iff_of_false nofun ?_
    rintro ⟨_, _, num, hreads, _⟩
    obtain ⟨hplus, hminus⟩ := hreads.head_ne
    exact hsign.elim hplus hminus
  · rw [hparse]
    exact iff_of_false nofun fun h => hradix h.1
  · rw [hparse, digitLoop_eq_ok_iff (appends_u64 hradix) (by omega) (zero_le _)
      (by rw [zero_add]; exact text.length_lt)]
    simp only [one_mul, hradix, hbytes, true_and, ne_eq, not_false_eq_true, and_self]

theorem parseU64Radix_eq_error_iff {stop : Stop} :
    parseU64Radix text radix = .error stop ↔
      ∃ failure offset, UnsignedFailure radix.toNat text.bytes failure offset ∧
        stop = .failed ⟨failure, (offset : Int)⟩ := by
  obtain ⟨hbytes, hparse⟩ | ⟨hsign, hparse⟩ | ⟨hbytes, hplus, hminus, ⟨hradix, hparse⟩ |
    ⟨hradix, hparse⟩⟩ := parseU64Radix_cases text radix
  · rw [hparse, parseFailure, Except.error.injEq]
    constructor
    · rintro rfl
      exact ⟨_, 0, .empty hbytes, rfl⟩
    · rintro ⟨_, _, hfail, rfl⟩
      cases hfail with
      | empty => rfl
      | invalidSign hsign => exact absurd hsign (by rw [hbytes]; nofun)
      | invalidRadix hne => exact absurd hbytes hne
      | digits _ _ _ hfails => exact absurd hbytes hfails.ne_nil
  · have hne : text.bytes ≠ [] := by
      intro hbytes
      rw [hbytes] at hsign
      exact hsign.elim nofun nofun
    rw [hparse, parseFailure, Except.error.injEq]
    constructor
    · rintro rfl
      exact ⟨_, 0, .invalidSign hsign, rfl⟩
    · rintro ⟨_, _, hfail, rfl⟩
      cases hfail with
      | empty hbytes => exact absurd hbytes hne
      | invalidSign => rfl
      | invalidRadix _ hplus hminus => exact (hsign.elim hplus hminus).elim
      | digits hplus hminus => exact (hsign.elim hplus hminus).elim
  · rw [hparse, parseFailure, Except.error.injEq]
    constructor
    · rintro rfl
      exact ⟨_, 0, .invalidRadix hbytes hplus hminus hradix, rfl⟩
    · rintro ⟨_, _, hfail, rfl⟩
      cases hfail with
      | empty hempty => exact absurd hempty hbytes
      | invalidSign hsign => exact (hsign.elim hplus hminus).elim
      | invalidRadix => rfl
      | digits _ _ hvalid => exact absurd hvalid hradix
  · rw [hparse, digitLoop_eq_error_iff (appends_u64 hradix) (zero_le _)
      (by rw [zero_add]; exact text.length_lt)]
    simp only [zero_add]
    constructor
    · rintro ⟨failure, offset, hfails, rfl⟩
      exact ⟨failure, offset, .digits hplus hminus hradix hfails, rfl⟩
    · rintro ⟨failure, offset, hfail, rfl⟩
      cases hfail with
      | empty hempty => exact absurd hempty hbytes
      | invalidSign hsign => exact (hsign.elim hplus hminus).elim
      | invalidRadix _ _ _ hinvalid => exact absurd hradix hinvalid
      | digits _ _ _ hfails => exact ⟨failure, offset, hfails, rfl⟩

/-! ### Signed integers -/

theorem exists_signed (bytes : List UInt8) : ∃ sign start body, Signed bytes sign start body := by
  by_cases hminus : bytes.head? = some 45
  · obtain ⟨body, rfl⟩ := List.head?_eq_some_iff.mp hminus
    exact ⟨_, _, _, .minus body⟩
  by_cases hplus : bytes.head? = some 43
  · obtain ⟨body, rfl⟩ := List.head?_eq_some_iff.mp hplus
    exact ⟨_, _, _, .plus body⟩
  exact ⟨_, _, _, .unsigned hminus hplus⟩

variable {body : List UInt8}

theorem Signed.unique {other : List UInt8} {sign otherSign : Int} {next : Nat}
    (hsigned : Signed bytes sign start body) (hother : Signed bytes otherSign next other) :
    sign = otherSign ∧ start = next ∧ body = other := by
  cases hsigned with
  | minus =>
    cases hother with
    | minus => exact ⟨rfl, rfl, rfl⟩
    | unsigned hminus => exact absurd rfl hminus
  | plus =>
    cases hother with
    | plus => exact ⟨rfl, rfl, rfl⟩
    | unsigned _ hplus => exact absurd rfl hplus
  | unsigned hminus hplus =>
    cases hother with
    | minus => exact absurd rfl hminus
    | plus => exact absurd rfl hplus
    | unsigned => exact ⟨rfl, rfl, rfl⟩

theorem Signed.length {sign : Int} (hsigned : Signed bytes sign start body) :
    bytes.length = start + body.length := by
  cases hsigned with
  | minus | plus => exact add_comm _ _
  | unsigned => exact (zero_add _).symm

theorem appends_i64 (hradix : 2 ≤ radix.toNat ∧ radix.toNat ≤ 36) :
    Appends (appendDigit true 9223372036854775807 radix.toNat) 1 radix.toNat (signedLimit 1) := by
  have hmax : Representable true 64 ((2 ^ 63 - 1 : Nat) : Int) := by
    constructor <;> omega
  exact appends_appendDigit hradix (show 36 ≤ 2 ^ 63 - 1 by omega) hmax

theorem parseI64Radix_of_radix {sign : Int} (hradix : 2 ≤ radix.toNat ∧ radix.toNat ≤ 36)
    (hsigned : Signed text.bytes sign start body) :
    parseI64Radix text radix = if body = [] then parseFailure .empty start
      else digitLoop radix true
        (if sign = -1 then appendNegative radix.toNat
          else appendDigit true 9223372036854775807 radix.toNat) body start 0 := by
  obtain ⟨bytes, hlen⟩ := text
  rw [parseI64Radix, if_neg (radix_iff.mpr hradix), widenU8_eq true radix.toNat_lt]
  cases hsigned with
  | minus => cases body <;> rfl
  | plus => cases body <;> rfl
  | unsigned hminus hplus =>
    cases bytes with
    | nil => rfl
    | cons first rest =>
      rw [List.head?_cons, ne_eq, Option.some_inj] at hminus hplus
      dsimp only
      simp only [hminus, hplus, or_self, if_false]
      rfl

/-- The last loop of `parse_i64_radix` keeps to the limit of the sign. -/
theorem Signed.appends {sign : Int} (hradix : 2 ≤ radix.toNat ∧ radix.toNat ≤ 36)
    (hsigned : Signed bytes sign start body) :
    Appends (if sign = -1 then appendNegative radix.toNat
      else appendDigit true 9223372036854775807 radix.toNat) sign radix.toNat
        (signedLimit sign) := by
  cases hsigned with
  | minus => exact appends_appendNegative hradix
  | plus | unsigned => exact appends_i64 hradix

theorem parseI64Radix_cases (text : Str) (radix : UInt8) :
    ¬ (2 ≤ radix.toNat ∧ radix.toNat ≤ 36) ∧
        parseI64Radix text radix = parseFailure .invalidRadix 0 ∨
      ∃ sign start body, (2 ≤ radix.toNat ∧ radix.toNat ≤ 36) ∧ Signed text.bytes sign start body ∧
        (body = [] ∧ parseI64Radix text radix = parseFailure .empty start ∨
          body ≠ [] ∧ start + body.length < 2 ^ 64 ∧
            ∃ append, Appends append sign radix.toNat (signedLimit sign) ∧
              parseI64Radix text radix =
                digitLoop radix true append body start (sign * ((0 : Nat) : Int))) := by
  by_cases hradix : 2 ≤ radix.toNat ∧ radix.toNat ≤ 36
  · obtain ⟨sign, start, body, hsigned⟩ := exists_signed text.bytes
    refine .inr ⟨sign, start, body, hradix, hsigned, ?_⟩
    rw [parseI64Radix_of_radix hradix hsigned]
    by_cases hbody : body = []
    · exact .inl ⟨hbody, if_pos hbody⟩
    · refine .inr ⟨hbody, hsigned.length ▸ text.length_lt, _, hsigned.appends hradix, ?_⟩
      rw [if_neg hbody, Int.natCast_zero, mul_zero]
  · refine .inl ⟨hradix, if_pos ?_⟩
    by_contra hvalid
    exact hradix (radix_iff.mp hvalid)

theorem parseI64Radix_eq_ok_iff {val : Int} :
    parseI64Radix text radix = .ok val ↔ (2 ≤ radix.toNat ∧ radix.toNat ≤ 36) ∧
        ∃ sign start body num, Signed text.bytes sign start body ∧ body ≠ [] ∧
          ReadsFrom radix.toNat (signedLimit sign) 0 body num ∧ val = sign * num := by
  obtain ⟨hradix, hparse⟩ | ⟨sign, start, body, hradix, hsigned, ⟨hbody, hparse⟩ |
    ⟨hbody, hlen, append, happend, hparse⟩⟩ := parseI64Radix_cases text radix
  · rw [hparse]
    exact iff_of_false nofun fun h => hradix h.1
  · rw [hparse]
    refine iff_of_false nofun ?_
    rintro ⟨_, _, _, other, _, hother, hne, _⟩
    exact hne ((hsigned.unique hother).2.2 ▸ hbody)
  · rw [hparse, digitLoop_eq_ok_iff happend (by omega) (zero_le _) hlen]
    constructor
    · rintro ⟨num, hreads, rfl⟩
      exact ⟨hradix, sign, start, body, num, hsigned, hbody, hreads, rfl⟩
    · rintro ⟨_, _, _, _, num, hother, _, hreads, rfl⟩
      obtain ⟨rfl, rfl, rfl⟩ := hsigned.unique hother
      exact ⟨num, hreads, rfl⟩

theorem parseI64Radix_eq_error_iff {stop : Stop} :
    parseI64Radix text radix = .error stop ↔
      ∃ failure offset, SignedFailure radix.toNat text.bytes failure offset ∧
        stop = .failed ⟨failure, (offset : Int)⟩ := by
  obtain ⟨hradix, hparse⟩ | ⟨sign, start, body, hradix, hsigned, ⟨hbody, hparse⟩ |
    ⟨hbody, hlen, append, happend, hparse⟩⟩ := parseI64Radix_cases text radix
  · rw [hparse, parseFailure, Except.error.injEq]
    constructor
    · rintro rfl
      exact ⟨_, 0, .invalidRadix hradix, rfl⟩
    · rintro ⟨_, _, hfail, rfl⟩
      cases hfail with
      | invalidRadix => rfl
      | empty hvalid | digits hvalid => exact absurd hvalid hradix
  · subst hbody
    rw [hparse, parseFailure, Except.error.injEq]
    constructor
    · rintro rfl
      exact ⟨_, start, .empty hradix hsigned, rfl⟩
    · rintro ⟨_, _, hfail, rfl⟩
      cases hfail with
      | invalidRadix hinvalid => exact absurd hradix hinvalid
      | empty _ hother =>
        obtain ⟨rfl, rfl, _⟩ := hsigned.unique hother
        rfl
      | digits _ hother hfails =>
        obtain ⟨_, _, rfl⟩ := hsigned.unique hother
        exact absurd rfl hfails.ne_nil
  · rw [hparse, digitLoop_eq_error_iff happend (zero_le _) hlen]
    constructor
    · rintro ⟨failure, offset, hfails, rfl⟩
      exact ⟨failure, start + offset, .digits hradix hsigned hfails, rfl⟩
    · rintro ⟨failure, _, hfail, rfl⟩
      cases hfail with
      | invalidRadix hinvalid => exact absurd hradix hinvalid
      | empty _ hother => exact absurd (hsigned.unique hother).2.2 hbody
      | digits _ hother hfails =>
        obtain ⟨rfl, rfl, rfl⟩ := hsigned.unique hother
        exact ⟨failure, _, hfails, rfl⟩

end

end Salicin.Formatting
