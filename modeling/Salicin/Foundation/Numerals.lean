import Mathlib.Data.Nat.Digits.Lemmas

/-!
# Numerals

The number that digits stand for when they are read from the most significant one, and the digits
of a number without superfluous zeros.
-/

namespace Salicin

open Nat List

/-- What the digits make of a number that was read before them. -/
def numeralFrom (base val : Nat) (digits : List Nat) : Nat :=
  digits.foldl (fun val digit => val * base + digit) val

def numeral (base : Nat) (digits : List Nat) : Nat := numeralFrom base 0 digits

section
variable {base val : Nat} {digits others : List Nat}

@[simp]
theorem numeralFrom_nil : numeralFrom base val [] = val := rfl

@[simp]
theorem numeralFrom_cons {digit : Nat} :
    numeralFrom base val (digit :: digits) = numeralFrom base (val * base + digit) digits := rfl

theorem numeralFrom_append :
    numeralFrom base val (digits ++ others) =
      numeralFrom base (numeralFrom base val digits) others :=
  foldl_append

theorem numeralFrom_concat {digit : Nat} :
    numeralFrom base val (digits ++ [digit]) = numeralFrom base val digits * base + digit := by
  rw [numeralFrom_append, numeralFrom_cons, numeralFrom_nil]

theorem le_numeralFrom (hbase : 0 < base) : val ≤ numeralFrom base val digits := by
  induction digits generalizing val with
  | nil => exact le_refl val
  | cons digit digits ih =>
    calc val ≤ val * base := Nat.le_mul_of_pos_right val hbase
      _ ≤ val * base + digit := Nat.le_add_right _ _
      _ ≤ numeralFrom base val (digit :: digits) := ih

theorem numeral_eq_ofDigits : numeral base digits = Nat.ofDigits base digits.reverse := by
  induction digits using reverseRecOn with
  | nil => rfl
  | append_singleton digits digit ih =>
    rw [numeral, numeralFrom_concat, ← numeral, ih, reverse_append, reverse_singleton,
      singleton_append, ofDigits_cons, mul_comm, add_comm]

end

/-! ## The digits of a number -/

/-- A numeral has digits, and begins with zero only if it is zero. -/
structure Canonical (digits : List Nat) : Prop where
  nonempty : digits ≠ []
  leading : digits.head? = some 0 → digits = [0]

def numeralDigits (base val : Nat) : List Nat := if val = 0 then [0] else (base.digits val).reverse

section
variable {base : Nat}

theorem numeralDigits_of_lt {val : Nat} (hlt : val < base) : numeralDigits base val = [val] := by
  rw [numeralDigits]
  split_ifs with hzero
  · rw [hzero]
  · rw [digits_of_lt base val hzero hlt, reverse_singleton]

theorem numeralDigits_of_le (hbase : 1 < base) {val : Nat} (hle : base ≤ val) :
    numeralDigits base val = numeralDigits base (val / base) ++ [val % base] := by
  have hquot : 0 < val / base := div_pos hle (zero_lt_of_lt hbase)
  rw [numeralDigits, numeralDigits, if_neg (ne_of_gt (hbase.le.trans hle)),
    if_neg (ne_of_gt hquot), digits_def' hbase (hbase.le.trans hle),
    reverse_cons]

theorem numeral_numeralDigits (base val : Nat) : numeral base (numeralDigits base val) = val := by
  rw [numeralDigits]
  split_ifs with hzero
  · rw [hzero, numeral, numeralFrom_cons, numeralFrom_nil, zero_mul]
  · rw [numeral_eq_ofDigits, reverse_reverse, ofDigits_digits]

theorem lt_of_mem_numeralDigits (hbase : 1 < base) {val digit : Nat}
    (hdigit : digit ∈ numeralDigits base val) : digit < base := by
  rw [numeralDigits] at hdigit
  split_ifs at hdigit
  · rw [mem_singleton.mp hdigit]
    exact zero_lt_of_lt hbase
  · exact digits_lt_base hbase (mem_reverse.mp hdigit)

theorem length_numeralDigits_le (hbase : 1 < base) {val count : Nat} (hpos : 0 < count)
    (hlt : val < base ^ count) : (numeralDigits base val).length ≤ count := by
  rw [numeralDigits]
  split_ifs
  · exact hpos
  · rw [length_reverse]
    exact (digits_length_le_iff hbase val).mpr hlt

theorem canonical_numeralDigits (base val : Nat) : Canonical (numeralDigits base val) := by
  rw [numeralDigits]
  split_ifs with hzero
  · exact ⟨cons_ne_nil _ _, fun _ => rfl⟩
  · have hne := digits_ne_nil_iff_ne_zero (b := base).mpr hzero
    refine ⟨fun hnil => hne (reverse_eq_nil_iff.mp hnil), fun hhead => ?_⟩
    rw [List.head?_reverse, getLast?_eq_some_getLast hne, Option.some_inj] at hhead
    exact absurd hhead (getLast_digit_ne_zero base hzero)

end

end Salicin
