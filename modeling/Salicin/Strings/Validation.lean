import Salicin.Foundation.Utf8

/-!
# Validation of UTF-8

`utf8_error_offset` of `core/src/string.sc`. A slice ends before the address space does, so
lengths and indices are natural numbers: no sum of an index and the width of a sequence
overflows.
-/

namespace Salicin.Strings

open Bool Nat Option List

/-- A read behind the end of a slice stops the program. -/
def byteAt (bytes : List UInt8) (index : Nat) : Option UInt8 := bytes[index]?

def isContinuation (byte : UInt8) : Bool := byte ≥ 128 && byte ≤ 191

/-- The tests behind the first byte of a sequence of two. Like the two definitions below, it
says how far the loop moves on, and `some none` where the code returns the index. -/
def twoByteForm (bytes : List UInt8) (index : Nat) : Option (Option Nat) :=
  if index + 1 ≥ bytes.length then some none
  else do
    let second ← byteAt bytes (index + 1)
    if !isContinuation second then some none else some (some 2)

/-- The branches with three bytes differ in the bounds of the second. -/
def threeByteForm (bytes : List UInt8) (index : Nat) (low high : UInt8) : Option (Option Nat) :=
  if index + 2 ≥ bytes.length then some none
  else do
    let second ← byteAt bytes (index + 1)
    if second < low || second > high then some none
    else do
      let third ← byteAt bytes (index + 2)
      if !isContinuation third then some none else some (some 3)

def fourByteForm (bytes : List UInt8) (index : Nat) (low high : UInt8) : Option (Option Nat) :=
  if index + 3 ≥ bytes.length then some none
  else do
    let second ← byteAt bytes (index + 1)
    if second < low || second > high then some none
    else do
      let third ← byteAt bytes (index + 2)
      if !isContinuation third then some none
      else do
        let fourth ← byteAt bytes (index + 3)
        if !isContinuation fourth then some none else some (some 4)

/-- The body of the loop. Where the source asks `is_continuation` of a second byte, its bounds
are those of `is_continuation`. -/
def sequenceWidth (bytes : List UInt8) (index : Nat) : Option (Option Nat) := do
  let first ← byteAt bytes index
  if first ≤ 127 then some (some 1)
  else if first ≥ 194 && first ≤ 223 then twoByteForm bytes index
  else if first == 224 then threeByteForm bytes index 160 191
  else if first ≥ 225 && first ≤ 236 then threeByteForm bytes index 128 191
  else if first == 237 then threeByteForm bytes index 128 159
  else if first ≥ 238 && first ≤ 239 then threeByteForm bytes index 128 191
  else if first == 240 then fourByteForm bytes index 144 191
  else if first ≥ 241 && first ≤ 243 then fourByteForm bytes index 128 191
  else if first == 244 then fourByteForm bytes index 128 143
  else some none

/-- The loop, with a bound on its turns. `none` also stands for a loop that is cut off. -/
def utf8ErrorOffsetFrom (bytes : List UInt8) : Nat → Nat → Option (Option Nat)
  | 0, index => if index < bytes.length then none else some none
  | turns + 1, index =>
    if index < bytes.length then do
      match ← sequenceWidth bytes index with
      | none => some (some index)
      | some width => utf8ErrorOffsetFrom bytes turns (index + width)
    else some none

/-- Every turn moves on by a byte at least, so the bound on the turns is never reached. -/
def utf8ErrorOffset (bytes : List UInt8) : Option (Option Nat) :=
  utf8ErrorOffsetFrom bytes bytes.length 0

/-! ## One turn -/

variable (bytes : List UInt8)

theorem byteAt_drop (i step : Nat) :
    byteAt bytes (i + step) = byteAt (bytes.drop i) step := by
  rw [byteAt, byteAt, getElem?_drop]

theorem length_drop_iff (i step : Nat) :
    i + step ≥ bytes.length ↔ 0 + step ≥ (bytes.drop i).length := by
  rw [length_drop]
  omega

theorem twoByteForm_drop (i : Nat) :
    twoByteForm bytes i = twoByteForm (bytes.drop i) 0 := by
  simp only [twoByteForm, length_drop_iff bytes, byteAt_drop bytes, zero_add]

theorem threeByteForm_drop (i : Nat) (low high : UInt8) :
    threeByteForm bytes i low high = threeByteForm (bytes.drop i) 0 low high := by
  simp only [threeByteForm, length_drop_iff bytes, byteAt_drop bytes, zero_add]

theorem fourByteForm_drop (i : Nat) (low high : UInt8) :
    fourByteForm bytes i low high = fourByteForm (bytes.drop i) 0 low high := by
  simp only [fourByteForm, length_drop_iff bytes, byteAt_drop bytes, zero_add]

theorem sequenceWidth_drop (i : Nat) :
    sequenceWidth bytes i = sequenceWidth (bytes.drop i) 0 := by
  rw [sequenceWidth, sequenceWidth, ← add_zero i, byteAt_drop, add_zero]
  simp only [twoByteForm_drop bytes i, threeByteForm_drop bytes i, fourByteForm_drop bytes i]

theorem isContinuation_eq (byte : UInt8) :
    isContinuation byte = decide (Utf8.Within 0x80 0xBF byte) := by
  rw [isContinuation, ← decide_and]
  simp only [ge_iff_le, UInt8.le_iff_toNat_le, Utf8.Within]
  rfl

theorem outside_eq (low high byte : UInt8) :
    (byte < low || byte > high) = !decide (Utf8.Within low.toNat high.toNat byte) := by
  rw [← decide_or, ← decide_not, decide_eq_decide, gt_iff_lt, UInt8.lt_iff_toNat_lt,
    UInt8.lt_iff_toNat_lt, Utf8.Within]
  omega

theorem sequenceWidth_cons (first : UInt8) (tail : List UInt8) :
    sequenceWidth (first :: tail) 0 = if Utf8.Within 0 0x7F first then some (some 1)
      else if Utf8.Within 0xC2 0xDF first then twoByteForm (first :: tail) 0
      else if Utf8.Within 0xE0 0xE0 first then threeByteForm (first :: tail) 0 160 191
      else if Utf8.Within 0xE1 0xEC first then threeByteForm (first :: tail) 0 128 191
      else if Utf8.Within 0xED 0xED first then threeByteForm (first :: tail) 0 128 159
      else if Utf8.Within 0xEE 0xEF first then threeByteForm (first :: tail) 0 128 191
      else if Utf8.Within 0xF0 0xF0 first then fourByteForm (first :: tail) 0 144 191
      else if Utf8.Within 0xF1 0xF3 first then fourByteForm (first :: tail) 0 128 191
      else if Utf8.Within 0xF4 0xF4 first then fourByteForm (first :: tail) 0 128 143
      else some none := by
  have hone : ∀ val : UInt8, (first == val) = true ↔
      Utf8.Within val.toNat val.toNat first := by
    intro val
    rw [beq_iff_eq, ← UInt8.toNat_inj, Utf8.Within]
    omega
  have hrange : ∀ low high : UInt8, (first ≥ low && first ≤ high) = true ↔
      Utf8.Within low.toNat high.toNat first := by
    intro low high
    simp only [and_eq_true, decide_eq_true_eq, ge_iff_le, UInt8.le_iff_toNat_le, Utf8.Within]
  have hascii : first ≤ 127 ↔ Utf8.Within 0 0x7F first := by
    rw [UInt8.le_iff_toNat_le, Utf8.Within]
    exact (and_iff_right (zero_le _)).symm
  simp only [sequenceWidth, byteAt, getElem?_cons_zero, bind_eq_bind,
    bind_some, hone, hrange, hascii]
  rfl

/-- What the tests of a form say: the bytes behind the first one are there and within their
bounds, or the code returns. -/
theorem twoByteForm_cases (first : UInt8) (tail : List UInt8) :
    (∃ second rest, tail = second :: rest ∧ Utf8.Within 0x80 0xBF second ∧
      twoByteForm (first :: tail) 0 = some (some 2)) ∨
    (twoByteForm (first :: tail) 0 = some none ∧
      ∀ second rest, tail = second :: rest → ¬ Utf8.Within 0x80 0xBF second) := by
  rcases tail with _ | ⟨second, rest⟩
  · exact .inr ⟨rfl, fun second rest htail => by cases htail⟩
  have hform : twoByteForm (first :: second :: rest) 0 =
      if Utf8.Within 0x80 0xBF second then some (some 2) else some none := by
    have hlong : ¬ 0 + 1 ≥ (first :: second :: rest).length := by
      simp only [length_cons]
      omega
    simp only [twoByteForm, if_neg hlong, isContinuation_eq, byteAt, zero_add,
      getElem?_cons_succ, getElem?_cons_zero, bind_eq_bind, bind_some,
      not_eq_true', decide_eq_false_iff_not, ite_not]
  by_cases hsnd : Utf8.Within 0x80 0xBF second
  · exact .inl ⟨second, rest, rfl, hsnd, by rw [hform, if_pos hsnd]⟩
  · refine .inr ⟨by rw [hform, if_neg hsnd], fun other others htail => ?_⟩
    cases htail
    exact hsnd

theorem threeByteForm_cases (first low high : UInt8) (tail : List UInt8) :
    (∃ second third rest, tail = second :: third :: rest ∧
      Utf8.Within low.toNat high.toNat second ∧ Utf8.Within 0x80 0xBF third ∧
      threeByteForm (first :: tail) 0 low high = some (some 3)) ∨
    (threeByteForm (first :: tail) 0 low high = some none ∧
      ∀ second third rest, tail = second :: third :: rest →
        ¬ (Utf8.Within low.toNat high.toNat second ∧ Utf8.Within 0x80 0xBF third)) := by
  rcases tail with _ | ⟨second, _ | ⟨third, rest⟩⟩
  · exact .inr ⟨rfl, fun second third rest htail => by cases htail⟩
  · exact .inr ⟨rfl, fun second third rest htail => by cases htail⟩
  have hform : threeByteForm (first :: second :: third :: rest) 0 low high =
      if Utf8.Within low.toNat high.toNat second ∧ Utf8.Within 0x80 0xBF third
      then some (some 3) else some none := by
    have hlong : ¬ 0 + 2 ≥ (first :: second :: third :: rest).length := by
      simp only [length_cons]
      omega
    simp only [threeByteForm, if_neg hlong, outside_eq, isContinuation_eq, byteAt, zero_add,
      getElem?_cons_succ, getElem?_cons_zero, bind_eq_bind, bind_some,
      not_eq_true', decide_eq_false_iff_not, ite_not, ite_and]
  by_cases hbounds : Utf8.Within low.toNat high.toNat second ∧ Utf8.Within 0x80 0xBF third
  · exact .inl ⟨second, third, rest, rfl, hbounds.1, hbounds.2, by rw [hform, if_pos hbounds]⟩
  · refine .inr ⟨by rw [hform, if_neg hbounds], fun other others rest' htail => ?_⟩
    cases htail
    exact hbounds

theorem fourByteForm_cases (first low high : UInt8) (tail : List UInt8) :
    (∃ second third fourth rest, tail = second :: third :: fourth :: rest ∧
      Utf8.Within low.toNat high.toNat second ∧ Utf8.Within 0x80 0xBF third ∧
      Utf8.Within 0x80 0xBF fourth ∧
      fourByteForm (first :: tail) 0 low high = some (some 4)) ∨
    (fourByteForm (first :: tail) 0 low high = some none ∧
      ∀ second third fourth rest, tail = second :: third :: fourth :: rest →
        ¬ (Utf8.Within low.toNat high.toNat second ∧ Utf8.Within 0x80 0xBF third ∧
          Utf8.Within 0x80 0xBF fourth)) := by
  rcases tail with _ | ⟨second, _ | ⟨third, _ | ⟨fourth, rest⟩⟩⟩
  · exact .inr ⟨rfl, fun second third fourth rest htail => by cases htail⟩
  · exact .inr ⟨rfl, fun second third fourth rest htail => by cases htail⟩
  · exact .inr ⟨rfl, fun second third fourth rest htail => by cases htail⟩
  have hform : fourByteForm (first :: second :: third :: fourth :: rest) 0 low high =
      if Utf8.Within low.toNat high.toNat second ∧ Utf8.Within 0x80 0xBF third ∧
        Utf8.Within 0x80 0xBF fourth
      then some (some 4) else some none := by
    have hlong : ¬ 0 + 3 ≥ (first :: second :: third :: fourth :: rest).length := by
      simp only [length_cons]
      omega
    simp only [fourByteForm, if_neg hlong, outside_eq, isContinuation_eq, byteAt, zero_add,
      getElem?_cons_succ, getElem?_cons_zero, bind_eq_bind, bind_some,
      not_eq_true', decide_eq_false_iff_not, ite_not, ite_and]
  by_cases hbounds : Utf8.Within low.toNat high.toNat second ∧ Utf8.Within 0x80 0xBF third ∧
      Utf8.Within 0x80 0xBF fourth
  · exact .inl ⟨second, third, fourth, rest, rfl, hbounds.1, hbounds.2.1, hbounds.2.2, by
      rw [hform, if_pos hbounds]⟩
  · refine .inr ⟨by rw [hform, if_neg hbounds], fun other others others' rest' htail => ?_⟩
    cases htail
    exact hbounds

/-- Three bytes are a sequence when the bytes behind the first are within the bounds that a
row names. -/
theorem three_cases {first low high : UInt8} (tail : List UInt8)
    (hrow : ∀ {second third}, Utf8.Within low.toNat high.toNat second →
      Utf8.Within 0x80 0xBF third → Utf8.Sequence [first, second, third])
    (hinv : ∀ {seq rest}, first :: tail = seq ++ rest → Utf8.Sequence seq →
      ∃ second third, tail = second :: third :: rest ∧
        Utf8.Within low.toNat high.toNat second ∧ Utf8.Within 0x80 0xBF third) :
    (∃ seq rest, first :: tail = seq ++ rest ∧ Utf8.Sequence seq ∧
      threeByteForm (first :: tail) 0 low high = some (some seq.length)) ∨
    (threeByteForm (first :: tail) 0 low high = some none ∧
      ∀ seq rest, first :: tail = seq ++ rest → ¬ Utf8.Sequence seq) := by
  rcases threeByteForm_cases first low high tail with
    ⟨second, third, rest, rfl, hsnd, hthird, hform⟩ | ⟨hform, hnone⟩
  · exact .inl ⟨[first, second, third], rest, rfl, hrow hsnd hthird, hform⟩
  · refine .inr ⟨hform, fun seq rest hlist hseq => ?_⟩
    obtain ⟨second, third, htail, hbounds⟩ := hinv hlist hseq
    exact hnone second third rest htail hbounds

theorem four_cases {first low high : UInt8} (tail : List UInt8)
    (hrow : ∀ {second third fourth}, Utf8.Within low.toNat high.toNat second →
      Utf8.Within 0x80 0xBF third → Utf8.Within 0x80 0xBF fourth →
      Utf8.Sequence [first, second, third, fourth])
    (hinv : ∀ {seq rest}, first :: tail = seq ++ rest → Utf8.Sequence seq →
      ∃ second third fourth, tail = second :: third :: fourth :: rest ∧
        Utf8.Within low.toNat high.toNat second ∧ Utf8.Within 0x80 0xBF third ∧
        Utf8.Within 0x80 0xBF fourth) :
    (∃ seq rest, first :: tail = seq ++ rest ∧ Utf8.Sequence seq ∧
      fourByteForm (first :: tail) 0 low high = some (some seq.length)) ∨
    (fourByteForm (first :: tail) 0 low high = some none ∧
      ∀ seq rest, first :: tail = seq ++ rest → ¬ Utf8.Sequence seq) := by
  rcases fourByteForm_cases first low high tail with
    ⟨second, third, fourth, rest, rfl, hsnd, hthird, hfourth, hform⟩ | ⟨hform, hnone⟩
  · exact .inl ⟨[first, second, third, fourth], rest, rfl, hrow hsnd hthird hfourth, hform⟩
  · refine .inr ⟨hform, fun seq rest hlist hseq => ?_⟩
    obtain ⟨second, third, fourth, htail, hbounds⟩ := hinv hlist hseq
    exact hnone second third fourth rest htail hbounds

/-- A turn moves on by a sequence of the table that begins at its index, and the code returns
where no sequence does. -/
theorem sequenceWidth_cons_cases (first : UInt8) (tail : List UInt8) :
    (∃ seq rest, first :: tail = seq ++ rest ∧ Utf8.Sequence seq ∧
      sequenceWidth (first :: tail) 0 = some (some seq.length)) ∨
    (sequenceWidth (first :: tail) 0 = some none ∧
      ∀ seq rest, first :: tail = seq ++ rest → ¬ Utf8.Sequence seq) := by
  rw [sequenceWidth_cons]
  by_cases hascii : Utf8.Within 0x00 0x7F first
  · rw [if_pos hascii]
    exact .inl ⟨[first], tail, rfl, .ascii hascii, rfl⟩
  rw [if_neg hascii]
  by_cases htwo : Utf8.Within 0xC2 0xDF first
  · rw [if_pos htwo]
    rcases twoByteForm_cases first tail with ⟨second, rest, rfl, hsnd, hform⟩ | ⟨hform, hnone⟩
    · exact .inl ⟨[first, second], rest, rfl, .two htwo hsnd, hform⟩
    · refine .inr ⟨hform, fun seq rest hlist hseq => ?_⟩
      have hrow := hseq.row hlist
      grind [Utf8.Within]
  rw [if_neg htwo]
  by_cases he0 : Utf8.Within 0xE0 0xE0 first
  · rw [if_pos he0]
    refine three_cases tail (.e0 he0) (fun hlist hseq => ?_)
    have hrow := hseq.row hlist
    grind [Utf8.Within]
  rw [if_neg he0]
  by_cases he1 : Utf8.Within 0xE1 0xEC first
  · rw [if_pos he1]
    refine three_cases tail (.e1 he1) (fun hlist hseq => ?_)
    have hrow := hseq.row hlist
    grind [Utf8.Within]
  rw [if_neg he1]
  by_cases hed : Utf8.Within 0xED 0xED first
  · rw [if_pos hed]
    refine three_cases tail (.ed hed) (fun hlist hseq => ?_)
    have hrow := hseq.row hlist
    grind [Utf8.Within]
  rw [if_neg hed]
  by_cases hee : Utf8.Within 0xEE 0xEF first
  · rw [if_pos hee]
    refine three_cases tail (.ee hee) (fun hlist hseq => ?_)
    have hrow := hseq.row hlist
    grind [Utf8.Within]
  rw [if_neg hee]
  by_cases hf0 : Utf8.Within 0xF0 0xF0 first
  · rw [if_pos hf0]
    refine four_cases tail (.f0 hf0) (fun hlist hseq => ?_)
    have hrow := hseq.row hlist
    grind [Utf8.Within]
  rw [if_neg hf0]
  by_cases hf1 : Utf8.Within 0xF1 0xF3 first
  · rw [if_pos hf1]
    refine four_cases tail (.f1 hf1) (fun hlist hseq => ?_)
    have hrow := hseq.row hlist
    grind [Utf8.Within]
  rw [if_neg hf1]
  by_cases hf4 : Utf8.Within 0xF4 0xF4 first
  · rw [if_pos hf4]
    refine four_cases tail (.f4 hf4) (fun hlist hseq => ?_)
    have hrow := hseq.row hlist
    grind [Utf8.Within]
  rw [if_neg hf4]
  refine .inr ⟨rfl, fun seq rest hlist hseq => ?_⟩
  have hrow := hseq.row hlist
  grind

theorem sequenceWidth_cases {bytes : List UInt8} {i : Nat} (hidx : i < bytes.length) :
    (∃ seq rest, bytes.drop i = seq ++ rest ∧ Utf8.Sequence seq ∧
      sequenceWidth bytes i = some (some seq.length)) ∨
    (sequenceWidth bytes i = some none ∧
      ∀ seq rest, bytes.drop i = seq ++ rest → ¬ Utf8.Sequence seq) := by
  rw [sequenceWidth_drop]
  cases hdrop : bytes.drop i with
  | nil =>
    rw [drop_eq_nil_iff] at hdrop
    omega
  | cons first tail => exact sequenceWidth_cons_cases first tail

/-! ## The whole loop -/

/-- What the code says of a slice whose prefix to the index is well formed: the whole is, or it
names the longest prefix that is. -/
def Exact (bytes : List UInt8) : Option Nat → Prop
  | none => Utf8.WellFormed bytes
  | some offset => ¬ Utf8.WellFormed bytes ∧
      IsGreatest {length | length ≤ bytes.length ∧ Utf8.WellFormed (bytes.take length)} offset

/-- Where no sequence begins, the prefix in front is the longest. -/
theorem exact_of_stop {bytes : List UInt8} {i : Nat} (hidx : i < bytes.length)
    (hfront : Utf8.WellFormed (bytes.take i))
    (hnone : ∀ seq rest, bytes.drop i = seq ++ rest → ¬ Utf8.Sequence seq) :
    Exact bytes (some i) := by
  -- A longer prefix would have a seq behind this one.
  have hlonger : ∀ {len}, i < len → len ≤ bytes.length →
      ¬ Utf8.WellFormed (bytes.take len) := by
    intro len hlt hle hwhole
    have hsplit : bytes.take len =
        bytes.take i ++ (bytes.drop i).take (len - i) := by
      rw [← take_add, Nat.add_sub_cancel' hlt.le]
    rw [hsplit] at hwhole
    have hbehind := hfront.of_append hwhole
    obtain ⟨seq, rest, htake, hseq, _⟩ := hbehind.exists_sequence (by
      rw [Ne, take_eq_nil_iff, drop_eq_nil_iff]
      omega)
    apply hnone seq (rest ++ (bytes.drop i).drop (len - i)) _ hseq
    rw [← append_assoc, ← htake, take_append_drop]
  refine ⟨?_, ⟨hidx.le, hfront⟩, ?_⟩
  · have hwhole := hlonger hidx (le_refl bytes.length)
    rwa [take_length] at hwhole
  · intro len hlen
    by_contra hlt
    exact hlonger (Nat.lt_of_not_le hlt) hlen.1 hlen.2

/-- The loop keeps the prefix to its index well formed, and ends within its turns. -/
theorem utf8ErrorOffsetFrom_exact {bytes : List UInt8} {turns i : Nat}
    (hturns : bytes.length ≤ i + turns) (hidx : i ≤ bytes.length)
    (hfront : Utf8.WellFormed (bytes.take i)) :
    ∃ answer, utf8ErrorOffsetFrom bytes turns i = some answer ∧ Exact bytes answer := by
  have hend : ¬ i < bytes.length → Exact bytes none := by
    intro hge
    rwa [take_of_length_le (by omega)] at hfront
  induction turns generalizing i with
  | zero =>
    have hge : ¬ i < bytes.length := by omega
    exact ⟨none, if_neg hge, hend hge⟩
  | succ turns ih =>
    by_cases hlt : i < bytes.length
    · rw [utf8ErrorOffsetFrom, if_pos hlt]
      rcases sequenceWidth_cases hlt with
        ⟨seq, rest, hdrop, hseq, hwidth⟩ | ⟨hwidth, hnone⟩
      · have hpos : 0 < seq.length := length_pos_iff.mpr hseq.ne_nil
        have hlen := congrArg List.length hdrop
        rw [length_drop, length_append] at hlen
        have hnext : Utf8.WellFormed (bytes.take (i + seq.length)) := by
          rw [take_add, hdrop, take_left]
          exact hfront.append hseq.wellFormed
        rw [hwidth]
        exact ih (by omega) (by omega) hnext (fun hge => by
          rwa [take_of_length_le (by omega)] at hnext)
      · rw [hwidth]
        exact ⟨some i, rfl, exact_of_stop hlt hfront hnone⟩
    · exact ⟨none, by rw [utf8ErrorOffsetFrom, if_neg hlt], hend hlt⟩

theorem utf8ErrorOffset_total :
    ∃ answer, utf8ErrorOffset bytes = some answer ∧ Exact bytes answer := by
  have hnil : Utf8.WellFormed (bytes.take 0) := by
    rw [take_zero]
    exact .nil
  exact utf8ErrorOffsetFrom_exact (by omega) (zero_le _) hnil

/-- The validation of a slice neither stops nor runs on. It finds nothing exactly in well-formed
text, and otherwise the length of the longest prefix that consists of complete sequences. -/
theorem utf8ErrorOffset_exact (bytes : List UInt8) :
    (utf8ErrorOffset bytes = some none ↔ Utf8.WellFormed bytes) ∧
    (Utf8.WellFormed bytes ∨ ∃ offset, utf8ErrorOffset bytes = some (some offset) ∧
      IsGreatest {length | length ≤ bytes.length ∧ Utf8.WellFormed (bytes.take length)} offset) := by
  obtain ⟨answer, hans, hexact⟩ := utf8ErrorOffset_total bytes
  rw [hans]
  cases answer with
  | none => exact ⟨iff_of_true rfl hexact, .inl hexact⟩
  | some offset =>
    exact ⟨iff_of_false (fun h => by cases h) hexact.1, .inr ⟨offset, rfl, hexact.2⟩⟩

end Salicin.Strings
