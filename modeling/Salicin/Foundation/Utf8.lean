import Mathlib.Data.Char
import Mathlib.Data.List.Lex
import Mathlib.Data.UInt
import Mathlib.Tactic.NormNum

/-!
# Well-formed UTF-8

The byte sequences of Unicode Table 3-7, and the texts that they make up. The first byte of a
sequence says how long it is, so a text has one division into sequences. The sequences are the
encodings of the scalar values, and texts are in the order of theirs.
-/

namespace Utf8

open Nat List

/-- A byte in a range of the table. -/
def Within (low high : Nat) (byte : UInt8) : Prop := low ≤ byte.toNat ∧ byte.toNat ≤ high

instance (low high : Nat) (byte : UInt8) : Decidable (Within low high byte) :=
  inferInstanceAs (Decidable (_ ∧ _))

/-- The rows of Table 3-7. -/
inductive Sequence : List UInt8 → Prop
  | ascii {first : UInt8} (hfst : Within 0x00 0x7F first) : Sequence [first]
  | two {first second : UInt8} (hfst : Within 0xC2 0xDF first)
      (hsnd : Within 0x80 0xBF second) : Sequence [first, second]
  | e0 {first second third : UInt8} (hfst : Within 0xE0 0xE0 first)
      (hsnd : Within 0xA0 0xBF second) (hthird : Within 0x80 0xBF third) :
      Sequence [first, second, third]
  | e1 {first second third : UInt8} (hfst : Within 0xE1 0xEC first)
      (hsnd : Within 0x80 0xBF second) (hthird : Within 0x80 0xBF third) :
      Sequence [first, second, third]
  | ed {first second third : UInt8} (hfst : Within 0xED 0xED first)
      (hsnd : Within 0x80 0x9F second) (hthird : Within 0x80 0xBF third) :
      Sequence [first, second, third]
  | ee {first second third : UInt8} (hfst : Within 0xEE 0xEF first)
      (hsnd : Within 0x80 0xBF second) (hthird : Within 0x80 0xBF third) :
      Sequence [first, second, third]
  | f0 {first second third fourth : UInt8} (hfst : Within 0xF0 0xF0 first)
      (hsnd : Within 0x90 0xBF second) (hthird : Within 0x80 0xBF third)
      (hfourth : Within 0x80 0xBF fourth) : Sequence [first, second, third, fourth]
  | f1 {first second third fourth : UInt8} (hfst : Within 0xF1 0xF3 first)
      (hsnd : Within 0x80 0xBF second) (hthird : Within 0x80 0xBF third)
      (hfourth : Within 0x80 0xBF fourth) : Sequence [first, second, third, fourth]
  | f4 {first second third fourth : UInt8} (hfst : Within 0xF4 0xF4 first)
      (hsnd : Within 0x80 0x8F second) (hthird : Within 0x80 0xBF third)
      (hfourth : Within 0x80 0xBF fourth) : Sequence [first, second, third, fourth]

/-- A text that is divided into sequences. -/
inductive WellFormed : List UInt8 → Prop
  | nil : WellFormed []
  | cons {seq rest : List UInt8} (hseq : Sequence seq) (hrest : WellFormed rest) :
      WellFormed (seq ++ rest)

/-! ## The division of a text -/

/-- The length of a sequence with this first byte. -/
def widthOf (first : UInt8) : Nat :=
  if first.toNat < 0xC0 then 1 else if first.toNat < 0xE0 then 2
  else if first.toNat < 0xF0 then 3 else 4

variable {seq : List UInt8}

theorem Sequence.exists_first (hseq : Sequence seq) :
    ∃ first rest, seq = first :: rest ∧ seq.length = widthOf first := by
  cases hseq <;> refine ⟨_, _, rfl, ?_⟩ <;>
    simp only [length_cons, length_nil, widthOf, Within] at * <;> split_ifs <;> omega

theorem Sequence.ne_nil (hseq : Sequence seq) : seq ≠ [] := by
  obtain ⟨first, rest, rfl, _⟩ := hseq.exists_first
  simp

variable {first : UInt8}

theorem Sequence.row {tail rest : List UInt8} (hseq : Sequence seq)
    (hlist : first :: tail = seq ++ rest) :
    (Within 0x00 0x7F first ∧ tail = rest) ∨
    (∃ second, tail = second :: rest ∧ Within 0xC2 0xDF first ∧ Within 0x80 0xBF second) ∨
    (∃ second third, tail = second :: third :: rest ∧ Within 0x80 0xBF third ∧
      ((Within 0xE0 0xE0 first ∧ Within 0xA0 0xBF second) ∨
        (Within 0xE1 0xEC first ∧ Within 0x80 0xBF second) ∨
        (Within 0xED 0xED first ∧ Within 0x80 0x9F second) ∨
        (Within 0xEE 0xEF first ∧ Within 0x80 0xBF second))) ∨
    (∃ second third fourth, tail = second :: third :: fourth :: rest ∧
      Within 0x80 0xBF third ∧ Within 0x80 0xBF fourth ∧
      ((Within 0xF0 0xF0 first ∧ Within 0x90 0xBF second) ∨
        (Within 0xF1 0xF3 first ∧ Within 0x80 0xBF second) ∨
        (Within 0xF4 0xF4 first ∧ Within 0x80 0x8F second))) := by
  cases hseq <;> cases hlist
  · exact .inl ⟨‹_›, rfl⟩
  · exact .inr (.inl ⟨_, rfl, ‹_›, ‹_›⟩)
  · exact .inr (.inr (.inl ⟨_, _, rfl, ‹_›, .inl ⟨‹_›, ‹_›⟩⟩))
  · exact .inr (.inr (.inl ⟨_, _, rfl, ‹_›, .inr (.inl ⟨‹_›, ‹_›⟩)⟩))
  · exact .inr (.inr (.inl ⟨_, _, rfl, ‹_›, .inr (.inr (.inl ⟨‹_›, ‹_›⟩))⟩))
  · exact .inr (.inr (.inl ⟨_, _, rfl, ‹_›, .inr (.inr (.inr ⟨‹_›, ‹_›⟩))⟩))
  · exact .inr (.inr (.inr ⟨_, _, _, rfl, ‹_›, ‹_›, .inl ⟨‹_›, ‹_›⟩⟩))
  · exact .inr (.inr (.inr ⟨_, _, _, rfl, ‹_›, ‹_›, .inr (.inl ⟨‹_›, ‹_›⟩)⟩))
  · exact .inr (.inr (.inr ⟨_, _, _, rfl, ‹_›, ‹_›, .inr (.inr ⟨‹_›, ‹_›⟩)⟩))

theorem Sequence.unique {other rest rest' : List UInt8} (hseq : Sequence seq)
    (hother : Sequence other) (h : seq ++ rest = other ++ rest') :
    seq = other ∧ rest = rest' := by
  obtain ⟨first, tail, hlist, hlen⟩ := hseq.exists_first
  obtain ⟨first', tail', hlist', hlen'⟩ := hother.exists_first
  have hfst : first = first' := by
    rw [hlist, hlist'] at h
    exact (cons.inj h).1
  exact append_inj h (by rw [hlen, hlen', hfst])

theorem WellFormed.append {first second : List UInt8} (hfst : WellFormed first)
    (hsnd : WellFormed second) : WellFormed (first ++ second) := by
  induction hfst with
  | nil => exact hsnd
  | cons hseq _ ih =>
    rw [append_assoc]
    exact .cons hseq ih

theorem Sequence.wellFormed (hseq : Sequence seq) : WellFormed seq := by
  have hcons := WellFormed.cons hseq .nil
  rwa [append_nil] at hcons

theorem WellFormed.of_append {first second : List UInt8} (hfst : WellFormed first)
    (hwhole : WellFormed (first ++ second)) : WellFormed second := by
  induction hfst with
  | nil => exact hwhole
  | @cons seq rest hseq _ ih =>
    apply ih
    rw [append_assoc] at hwhole
    generalize hlist : seq ++ (rest ++ second) = whole at hwhole
    cases hwhole with
    | nil => exact absurd (append_eq_nil_iff.mp hlist).1 hseq.ne_nil
    | cons hother hothers =>
      obtain ⟨_, rfl⟩ := hseq.unique hother hlist
      exact hothers

theorem WellFormed.exists_sequence {text : List UInt8} (htext : WellFormed text) (hne : text ≠ []) :
    ∃ seq rest, text = seq ++ rest ∧ Sequence seq ∧ WellFormed rest := by
  cases htext with
  | nil => exact absurd rfl hne
  | cons hseq hrest => exact ⟨_, _, rfl, hseq, hrest⟩

/-! ## Encoded scalar values -/

theorem toNat_ofNat {val : Nat} (hval : val < 256) : (UInt8.ofNat val).toNat = val := by
  simp [UInt8.toNat_ofNat', mod_eq_of_lt hval]

theorem within_ofNat {low high val : Nat} (hval : low ≤ val ∧ val ≤ high ∧ high < 256) :
    Within low high (UInt8.ofNat val) := by
  rw [Within, toNat_ofNat (by omega)]
  exact ⟨hval.1, hval.2.1⟩

theorem toNat_valid (scalar : Char) :
    scalar.val.toNat < 0xD800 ∨ (0xDFFF < scalar.val.toNat ∧ scalar.val.toNat < 0x110000) :=
  scalar.valid

theorem sequence_utf8EncodeChar (scalar : Char) : Sequence (String.utf8EncodeChar scalar) := by
  have hvalid := toNat_valid scalar
  unfold String.utf8EncodeChar
  generalize scalar.val.toNat = code at hvalid ⊢
  simp only
  split_ifs with hone htwo hthree
  · exact .ascii (within_ofNat (by omega))
  · exact .two (within_ofNat (by omega)) (within_ofNat (by omega))
  · -- The second byte is restricted behind the first and the fourteenth first byte.
    have hthird : Within 0x80 0xBF (UInt8.ofNat (code % 0x40 + 0x80)) := within_ofNat (by omega)
    rcases lt_or_ge code 0x1000 with hlow | hlow
    · exact .e0 (within_ofNat (by omega)) (within_ofNat (by omega)) hthird
    rcases lt_or_ge code 0xD000 with hmid | hmid
    · exact .e1 (within_ofNat (by omega)) (within_ofNat (by omega)) hthird
    rcases lt_or_ge code 0xE000 with hhigh | hhigh
    · exact .ed (within_ofNat (by omega)) (within_ofNat (by omega)) hthird
    · exact .ee (within_ofNat (by omega)) (within_ofNat (by omega)) hthird
  · have hthird : Within 0x80 0xBF (UInt8.ofNat (code / 64 % 0x40 + 0x80)) :=
      within_ofNat (by omega)
    have hfourth : Within 0x80 0xBF (UInt8.ofNat (code % 0x40 + 0x80)) := within_ofNat (by omega)
    rcases lt_or_ge code 0x40000 with hlow | hlow
    · exact .f0 (within_ofNat (by omega)) (within_ofNat (by omega)) hthird hfourth
    rcases lt_or_ge code 0x100000 with hhigh | hhigh
    · exact .f1 (within_ofNat (by omega)) (within_ofNat (by omega)) hthird hfourth
    · exact .f4 (within_ofNat (by omega)) (within_ofNat (by omega)) hthird hfourth

theorem exists_char (code : Nat) (hvalid : code < 0xD800 ∨ (0xDFFF < code ∧ code < 0x110000)) :
    ∃ scalar : Char, scalar.val.toNat = code := by
  refine ⟨Char.ofNat code, ?_⟩
  have hchar : code.isValidChar := hvalid
  rw [Char.ofNat, dif_pos hchar]
  rfl

theorem ofNat_eq (byte : UInt8) {val : Nat} (hval : val = byte.toNat) : UInt8.ofNat val = byte := by
  rw [hval, UInt8.ofNat_toNat]

theorem exists_scalar_two {second : UInt8} (hfst : Within 0xC2 0xDF first)
    (hsnd : Within 0x80 0xBF second) :
    ∃ scalar : Char, String.utf8EncodeChar scalar = [first, second] := by
  unfold Within at hfst hsnd
  obtain ⟨scalar, hscalar⟩ := exists_char ((first.toNat - 0xC0) * 64 + (second.toNat - 0x80))
    (by omega)
  refine ⟨scalar, ?_⟩
  unfold String.utf8EncodeChar
  simp only [hscalar]
  rw [if_neg (by omega), if_pos (by omega), ofNat_eq first (by omega), ofNat_eq second (by omega)]

theorem exists_scalar_three {second third : UInt8} (hfst : Within 0xE0 0xEF first)
    (hsnd : Within 0x80 0xBF second) (hthird : Within 0x80 0xBF third)
    (hlong : first.toNat = 0xE0 → 0xA0 ≤ second.toNat)
    (hsurrogate : first.toNat = 0xED → second.toNat ≤ 0x9F) :
    ∃ scalar : Char, String.utf8EncodeChar scalar = [first, second, third] := by
  unfold Within at hfst hsnd hthird
  obtain ⟨scalar, hscalar⟩ := exists_char ((first.toNat - 0xE0) * 4096 +
    (second.toNat - 0x80) * 64 + (third.toNat - 0x80)) (by omega)
  refine ⟨scalar, ?_⟩
  unfold String.utf8EncodeChar
  simp only [hscalar]
  rw [if_neg (by omega), if_neg (by omega), if_pos (by omega), ofNat_eq first (by omega),
    ofNat_eq second (by omega), ofNat_eq third (by omega)]

theorem exists_scalar_four {second third fourth : UInt8} (hfst : Within 0xF0 0xF4 first)
    (hsnd : Within 0x80 0xBF second) (hthird : Within 0x80 0xBF third)
    (hfourth : Within 0x80 0xBF fourth) (hlong : first.toNat = 0xF0 → 0x90 ≤ second.toNat)
    (hlarge : first.toNat = 0xF4 → second.toNat ≤ 0x8F) :
    ∃ scalar : Char, String.utf8EncodeChar scalar = [first, second, third, fourth] := by
  unfold Within at hfst hsnd hthird hfourth
  obtain ⟨scalar, hscalar⟩ := exists_char ((first.toNat - 0xF0) * 262144 +
    (second.toNat - 0x80) * 4096 + (third.toNat - 0x80) * 64 + (fourth.toNat - 0x80)) (by omega)
  refine ⟨scalar, ?_⟩
  unfold String.utf8EncodeChar
  simp only [hscalar]
  rw [if_neg (by omega), if_neg (by omega), if_neg (by omega), ofNat_eq first (by omega),
    ofNat_eq second (by omega), ofNat_eq third (by omega),
    ofNat_eq fourth (by omega)]

theorem Sequence.exists_scalar (hseq : Sequence seq) :
    ∃ scalar : Char, String.utf8EncodeChar scalar = seq := by
  have hwider : ∀ {low high low' high' : Nat} {byte : UInt8}, Within low high byte → low' ≤ low →
      high ≤ high' → Within low' high' byte :=
    fun hbyte hlow hhigh => ⟨hlow.trans hbyte.1, hbyte.2.trans hhigh⟩
  cases hseq with
  | @ascii first hfst =>
    have hcode : first.toNat < 0xD800 := lt_of_le_of_lt hfst.2 (by decide)
    obtain ⟨scalar, hscalar⟩ := exists_char first.toNat (.inl hcode)
    refine ⟨scalar, ?_⟩
    unfold String.utf8EncodeChar
    simp only [hscalar]
    rw [if_pos hfst.2, UInt8.ofNat_toNat]
  | two hfst hsnd => exact exists_scalar_two hfst hsnd
  | e0 hfst hsnd hthird =>
    unfold Within at hfst
    exact exists_scalar_three (hwider hfst (by omega) (by omega))
      (hwider hsnd (by omega) (by omega)) hthird (fun _ => hsnd.1) (by omega)
  | e1 hfst hsnd hthird =>
    exact exists_scalar_three (hwider hfst (by omega) (by omega)) hsnd hthird
      (by unfold Within at hfst; omega) (by unfold Within at hfst; omega)
  | ed hfst hsnd hthird =>
    unfold Within at hfst
    exact exists_scalar_three (hwider hfst (by omega) (by omega))
      (hwider hsnd (by omega) (by omega)) hthird (by omega) (fun _ => hsnd.2)
  | ee hfst hsnd hthird =>
    exact exists_scalar_three (hwider hfst (by omega) (by omega)) hsnd hthird
      (by unfold Within at hfst; omega) (by unfold Within at hfst; omega)
  | f0 hfst hsnd hthird hfourth =>
    unfold Within at hfst
    exact exists_scalar_four (hwider hfst (by omega) (by omega))
      (hwider hsnd (by omega) (by omega)) hthird hfourth (fun _ => hsnd.1) (by omega)
  | f1 hfst hsnd hthird hfourth =>
    exact exists_scalar_four (hwider hfst (by omega) (by omega)) hsnd hthird hfourth
      (by unfold Within at hfst; omega) (by unfold Within at hfst; omega)
  | f4 hfst hsnd hthird hfourth =>
    unfold Within at hfst
    exact exists_scalar_four (hwider hfst (by omega) (by omega))
      (hwider hsnd (by omega) (by omega)) hthird hfourth (by omega) (fun _ => hsnd.2)

theorem wellFormed_iff {text : List UInt8} :
    WellFormed text ↔ ∃ scalars : List Char, scalars.flatMap String.utf8EncodeChar = text := by
  constructor
  · intro htext
    induction htext with
    | nil => exact ⟨[], rfl⟩
    | cons hseq _ ih =>
      obtain ⟨scalar, rfl⟩ := hseq.exists_scalar
      obtain ⟨scalars, rfl⟩ := ih
      exact ⟨scalar :: scalars, flatMap_cons⟩
  · rintro ⟨scalars, rfl⟩
    induction scalars with
    | nil => exact .nil
    | cons scalar rest ih =>
      rw [flatMap_cons]
      exact .cons (sequence_utf8EncodeChar scalar) ih

/-! ## The order of texts -/

/-- Two lists part at a byte that is less in the first one. -/
def Parts (first second : List UInt8) : Prop :=
  ∃ front low high rest rest', first = front ++ low :: rest ∧ second = front ++ high :: rest' ∧
    low < high

theorem parts_here {low high : Nat} {rest rest' : List UInt8} (hlow : low < high)
    (hhigh : high < 256) :
    Parts (UInt8.ofNat low :: rest) (UInt8.ofNat high :: rest') := by
  refine ⟨[], _, _, rest, rest', rfl, rfl, ?_⟩
  rw [UInt8.lt_iff_toNat_lt, toNat_ofNat (by omega), toNat_ofNat hhigh]
  exact hlow

/-- A byte is as great as the other one, and the lists part behind if it is not less. -/
theorem parts_cons {low high : Nat} {rest rest' : List UInt8} (hle : low ≤ high)
    (hhigh : high < 256) (hrest : low = high → Parts rest rest') :
    Parts (UInt8.ofNat low :: rest) (UInt8.ofNat high :: rest') := by
  rcases lt_or_eq_of_le hle with hlt | rfl
  · exact parts_here hlt hhigh
  · obtain ⟨front, one, other, tail, tail', rfl, rfl, hlt⟩ := hrest rfl
    exact ⟨_ :: front, one, other, tail, tail', rfl, rfl, hlt⟩

/-- The encodings of two scalar values part at a byte that is less in the lesser one. -/
theorem parts_utf8EncodeChar {less greater : Char} (hlt : less < greater) :
    Parts (String.utf8EncodeChar less) (String.utf8EncodeChar greater) := by
  have hcode : less.val.toNat < greater.val.toNat := hlt
  have hgreater := toNat_valid greater
  unfold String.utf8EncodeChar
  generalize less.val.toNat = one at *
  generalize greater.val.toNat = other at *
  simp only
  split_ifs
  all_goals try omega
  · exact parts_here hcode (by omega)
  iterate 3 exact parts_here (by omega) (by omega)
  · exact parts_cons (by omega) (by omega) fun _ => parts_here (by omega) (by omega)
  iterate 2 exact parts_here (by omega) (by omega)
  · exact parts_cons (by omega) (by omega) fun _ => parts_cons (by omega) (by omega) fun _ =>
      parts_here (by omega) (by omega)
  · exact parts_here (by omega) (by omega)
  · exact parts_cons (by omega) (by omega) fun _ => parts_cons (by omega) (by omega) fun _ =>
      parts_cons (by omega) (by omega) fun _ => parts_here (by omega) (by omega)

theorem Parts.lt {first second : List UInt8} (hparts : Parts first second)
    (tail tail' : List UInt8) : first ++ tail < second ++ tail' := by
  obtain ⟨front, low, high, rest, rest', rfl, rfl, hlt⟩ := hparts
  rw [append_assoc, append_assoc]
  exact append_left_lt (cons_lt_cons_iff.mpr (.inl hlt))

/-- Texts are in the order of their scalar values. -/
theorem encode_lt {first second : List Char} (hlt : first < second) :
    first.flatMap String.utf8EncodeChar < second.flatMap String.utf8EncodeChar := by
  induction hlt with
  | @nil head tail =>
    obtain ⟨byte, rest, hbytes, -⟩ := (sequence_utf8EncodeChar head).exists_first
    rw [flatMap_nil, flatMap_cons, hbytes, cons_append]
    exact nil_lt_cons byte _
  | rel hlt =>
    rw [flatMap_cons, flatMap_cons]
    exact (parts_utf8EncodeChar hlt).lt _ _
  | cons _ ih =>
    rw [flatMap_cons, flatMap_cons]
    exact append_left_lt ih

end Utf8
