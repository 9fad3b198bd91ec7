import Salicin.Strings.Validation

/-!
# Scalar values and their bytes

`unicode_scalar`, the bytes that `string.push` appends, and the iterator `str_scalars` of
`core/src/string.sc`. A string is its text here, the bytes below its length.
-/

namespace Salicin.Strings

open Nat Option List Utf8

/-- The source keeps the field private. -/
structure UnicodeScalar where
  value : UInt32

variable {val : UInt32}

namespace UnicodeScalar

def fromU32 (val : UInt32) : Option UnicodeScalar :=
  if val > 1114111 || val ≥ 55296 && val ≤ 57343 then none else some ⟨val⟩

/-- A code point that is no surrogate. -/
def Valid (scalar : UnicodeScalar) : Prop :=
  scalar.value.toNat < 0xD800 ∨ (0xDFFF < scalar.value.toNat ∧ scalar.value.toNat < 0x110000)

instance (scalar : UnicodeScalar) : Decidable scalar.Valid := inferInstanceAs (Decidable (_ ∨ _))

def lenUtf8 (scalar : UnicodeScalar) : Nat :=
  if scalar.value ≤ 127 then 1
  else if scalar.value ≤ 2047 then 2
  else if scalar.value ≤ 65535 then 3
  else 4

/-- What safe code constructs is valid, and every valid scalar can be constructed. -/
theorem fromU32_eq_some_iff {scalar : UnicodeScalar} :
    fromU32 val = some scalar ↔ scalar.value = val ∧ scalar.Valid := by
  have hinvalid : (val > 1114111 || val ≥ 55296 && val ≤ 57343) = true ↔
      ¬ Valid ⟨val⟩ := by
    simp only [Bool.or_eq_true, Bool.and_eq_true, decide_eq_true_eq, gt_iff_lt, ge_iff_le,
      UInt32.lt_iff_toNat_lt, UInt32.le_iff_toNat_le, Valid, UInt32.reduceToNat]
    omega
  obtain ⟨code⟩ := scalar
  rw [fromU32]
  by_cases hvalid : Valid ⟨val⟩
  · rw [if_neg (by rw [hinvalid, not_not]; exact hvalid), some_inj, mk.injEq]
    constructor
    · rintro rfl
      exact ⟨rfl, hvalid⟩
    · exact fun h => h.1.symm
  · rw [if_pos (hinvalid.mpr hvalid)]
    refine iff_of_false (fun h => by cases h) ?_
    rintro ⟨rfl, h⟩
    exact hvalid h

end UnicodeScalar

/-! ## Encoding -/

/-- The loop of `scalar_byte`, which counts up to the value. Overflow stops the program. -/
def scalarByteFrom : Nat → UInt8 → Option UInt8
  | 0, byte => some byte
  | remaining + 1, byte => if byte = 255 then none else scalarByteFrom remaining (byte + 1)

def scalarByte (val : UInt32) : Option UInt8 := scalarByteFrom val.toNat 0

/-- The bytes that `push` appends, in its order. -/
def scalarBytes (scalar : UnicodeScalar) : Option (List UInt8) :=
  let code := scalar.value
  if code ≤ 127 then do
    let first ← scalarByte code
    some [first]
  else if code ≤ 2047 then do
    let first ← scalarByte ((192 : UInt32) ||| code >>> 6)
    let second ← scalarByte ((128 : UInt32) ||| code &&& 63)
    some [first, second]
  else if code ≤ 65535 then do
    let first ← scalarByte ((224 : UInt32) ||| code >>> 12)
    let second ← scalarByte ((128 : UInt32) ||| code >>> 6 &&& 63)
    let third ← scalarByte ((128 : UInt32) ||| code &&& 63)
    some [first, second, third]
  else do
    let first ← scalarByte ((240 : UInt32) ||| code >>> 18)
    let second ← scalarByte ((128 : UInt32) ||| code >>> 12 &&& 63)
    let third ← scalarByte ((128 : UInt32) ||| code >>> 6 &&& 63)
    let fourth ← scalarByte ((128 : UInt32) ||| code &&& 63)
    some [first, second, third, fourth]

/-- Pushing scalars one by one. -/
def pushScalars (text : List UInt8) : List UnicodeScalar → Option (List UInt8)
  | [] => some text
  | scalar :: rest => do
    let bytes ← scalarBytes scalar
    pushScalars (text ++ bytes) rest

/-! ## Decoding -/

def byteU32From : Nat → UInt32 → UInt32
  | 0, output => output
  | source + 1, output => byteU32From source (output + 1)

/-- The loop of `byte_u32`, which counts a byte down. -/
def byteU32 (val : UInt8) : UInt32 := byteU32From val.toNat 0

/-- `next` of `str_scalars` before the end of the text: the scalar and the width by which the
iterator moves on. -/
def nextScalar (bytes : List UInt8) (i : Nat) : Option (UnicodeScalar × Nat) := do
  let first ← byteAt bytes i
  if first ≤ 127 then some (⟨byteU32 first⟩, 1)
  else if first ≤ 223 then do
    let second ← byteAt bytes (i + 1)
    some (⟨byteU32 (first &&& 31) <<< 6 ||| byteU32 (second &&& 63)⟩, 2)
  else if first ≤ 239 then do
    let second ← byteAt bytes (i + 1)
    let third ← byteAt bytes (i + 2)
    some (⟨byteU32 (first &&& 15) <<< 12 ||| byteU32 (second &&& 63) <<< 6 |||
      byteU32 (third &&& 63)⟩, 3)
  else do
    let second ← byteAt bytes (i + 1)
    let third ← byteAt bytes (i + 2)
    let fourth ← byteAt bytes (i + 3)
    some (⟨byteU32 (first &&& 7) <<< 18 ||| byteU32 (second &&& 63) <<< 12 |||
      byteU32 (third &&& 63) <<< 6 ||| byteU32 (fourth &&& 63)⟩, 4)

/-- The values that the iterator yields until it says `none`, with a bound on its calls. The
end is found by equality, so an index behind it would be read. -/
def scalarsFrom (bytes : List UInt8) : Nat → Nat → Option (List UnicodeScalar)
  | 0, i => if i = bytes.length then some [] else none
  | calls + 1, i =>
    if i = bytes.length then some []
    else do
      let (scalar, width) ← nextScalar bytes i
      let rest ← scalarsFrom bytes calls (i + width)
      some (scalar :: rest)

def scalars (bytes : List UInt8) : Option (List UnicodeScalar) := scalarsFrom bytes bytes.length 0

/-! ## Loops and bits as arithmetic -/

theorem scalarByteFrom_eq {remaining : Nat} {byte : UInt8} (hfits : byte.toNat + remaining < 256) :
    scalarByteFrom remaining byte = some (UInt8.ofNat (byte.toNat + remaining)) := by
  induction remaining generalizing byte with
  | zero => rw [scalarByteFrom, add_zero, UInt8.ofNat_toNat]
  | succ remaining ih =>
    have hne : byte ≠ 255 := by
      rintro rfl
      have h255 : (255 : UInt8).toNat = 255 := rfl
      omega
    have hnext : (byte + 1).toNat = byte.toNat + 1 := by
      rw [UInt8.toNat_add]
      exact mod_eq_of_lt (by have hone : (1 : UInt8).toNat = 1 := rfl; omega)
    rw [scalarByteFrom, if_neg hne, ih (by omega), hnext]
    congr 2
    omega

theorem scalarByte_eq {code : Nat} (hval : val.toNat = code) (hfits : code < 256) :
    scalarByte val = some (UInt8.ofNat code) := by
  have hzero : (0 : UInt8).toNat = 0 := rfl
  rw [scalarByte, hval, scalarByteFrom_eq (by omega), hzero, zero_add]

theorem byteU32From_toNat {source : Nat} {output : UInt32} (hfits : output.toNat + source < 2 ^ 32) :
    (byteU32From source output).toNat = output.toNat + source := by
  induction source generalizing output with
  | zero => rfl
  | succ source ih =>
    have hnext : (output + 1).toNat = output.toNat + 1 := by
      rw [UInt32.toNat_add]
      exact mod_eq_of_lt (by have hone : (1 : UInt32).toNat = 1 := rfl; omega)
    rw [byteU32From, ih (by omega), hnext]
    omega

theorem byteU32_toNat (val : UInt8) : (byteU32 val).toNat = val.toNat := by
  have hzero : (0 : UInt32).toNat = 0 := rfl
  have hlt := val.toNat_lt
  rw [byteU32, byteU32From_toNat (by omega), hzero, zero_add]

theorem or_toNat {high low : UInt32} (bits top : Nat) (hhigh : high.toNat = 2 ^ bits * top)
    (hlow : low.toNat < 2 ^ bits) : (high ||| low).toNat = high.toNat + low.toNat := by
  rw [UInt32.toNat_or, hhigh, two_pow_add_eq_or_of_lt hlow]

theorem low_toNat (val : UInt32) : (val &&& 63).toNat = val.toNat % 64 := by
  rw [UInt32.toNat_and]
  exact and_two_pow_sub_one_eq_mod val.toNat 6

variable {count : UInt32}

theorem shiftLeft_toNat {bits : Nat} (hcount : count.toNat = bits) (hbits : bits < 32)
    (hfits : val.toNat * 2 ^ bits < 2 ^ 32) :
    (val <<< count).toNat = val.toNat * 2 ^ bits := by
  rw [UInt32.toNat_shiftLeft, hcount, mod_eq_of_lt hbits, shiftLeft_eq, mod_eq_of_lt hfits]

theorem shiftRight_toNat {bits : Nat} (hcount : count.toNat = bits) (hbits : bits < 32) :
    (val >>> count).toNat = val.toNat / 2 ^ bits := by
  rw [UInt32.toNat_shiftRight, hcount, mod_eq_of_lt hbits, shiftRight_eq_div_pow]

/-! ## A scalar is encoded as its character -/

namespace UnicodeScalar

def ofChar (character : Char) : UnicodeScalar := ⟨character.val⟩

theorem ofChar_valid (character : Char) : (ofChar character).Valid := character.valid

theorem Valid.exists_char {scalar : UnicodeScalar} (hvalid : scalar.Valid) :
    ∃ character, ofChar character = scalar :=
  ⟨⟨scalar.value, hvalid⟩, rfl⟩

theorem exists_chars {values : List UnicodeScalar} (hvalid : ∀ scalar ∈ values, scalar.Valid) :
    ∃ characters : List Char, characters.map ofChar = values := by
  induction values with
  | nil => exact ⟨[], rfl⟩
  | cons scalar rest ih =>
    obtain ⟨character, rfl⟩ := (hvalid _ mem_cons_self).exists_char
    obtain ⟨characters, rfl⟩ := ih (fun other hother => hvalid other (.tail _ hother))
    exact ⟨character :: characters, rfl⟩

end UnicodeScalar

theorem trailing_byte (val : UInt32) :
    scalarByte ((128 : UInt32) ||| val &&& 63) = some (UInt8.ofNat (val.toNat % 64 + 128)) := by
  have hlow := low_toNat val
  have hhigh : (128 : UInt32).toNat = 128 := rfl
  apply scalarByte_eq
  · rw [or_toNat 7 1 rfl (by omega), hlow, hhigh, add_comm]
  · omega

theorem leading_byte {lead code : UInt32} (bits top shift : Nat)
    (hlead : lead.toNat = 2 ^ bits * top) (hcount : count.toNat = shift) (hshift : shift < 32)
    (hlow : code.toNat / 2 ^ shift < 2 ^ bits) (hfits : 2 ^ bits * top + 2 ^ bits ≤ 256) :
    scalarByte (lead ||| code >>> count) =
      some (UInt8.ofNat (code.toNat / 2 ^ shift + lead.toNat)) := by
  have hright : (code >>> count).toNat = code.toNat / 2 ^ shift := shiftRight_toNat hcount hshift
  apply scalarByte_eq
  · rw [or_toNat bits top hlead (by omega), hright, add_comm]
  · omega

theorem scalarBytes_ofChar (character : Char) :
    scalarBytes (.ofChar character) = some (String.utf8EncodeChar character) := by
  have hvalid := toNat_valid character
  have hle : ∀ bound : UInt32, character.val ≤ bound ↔ character.val.toNat ≤ bound.toNat :=
    fun bound => UInt32.le_iff_toNat_le
  have hshift : ∀ (count : UInt32) (bits : Nat), count.toNat = bits → bits < 32 →
      (character.val >>> count).toNat = character.val.toNat / 2 ^ bits :=
    fun count bits => shiftRight_toNat
  simp only [scalarBytes, UnicodeScalar.ofChar, hle, String.utf8EncodeChar, UInt32.reduceToNat]
  by_cases hone : character.val.toNat ≤ 127
  · rw [if_pos hone, if_pos hone, scalarByte_eq rfl (by omega)]
    rfl
  by_cases htwo : character.val.toNat ≤ 2047
  · rw [if_neg hone, if_neg hone, if_pos htwo, if_pos htwo, trailing_byte,
      leading_byte 6 3 6 rfl rfl (by omega) (by omega) (by omega)]
    simp only [bind_eq_bind, bind_some, UInt32.reduceToNat]
    rw [mod_eq_of_lt (show character.val.toNat / 64 < 32 by omega)]
    rfl
  by_cases hthree : character.val.toNat ≤ 65535
  · rw [if_neg hone, if_neg hone, if_neg htwo, if_neg htwo, if_pos hthree, if_pos hthree,
      trailing_byte, trailing_byte, hshift 6 6 rfl (by omega),
      leading_byte 5 7 12 rfl rfl (by omega) (by omega) (by omega)]
    simp only [bind_eq_bind, bind_some, UInt32.reduceToNat]
    rw [mod_eq_of_lt (show character.val.toNat / 4096 < 16 by omega)]
    rfl
  · rw [if_neg hone, if_neg hone, if_neg htwo, if_neg htwo, if_neg hthree, if_neg hthree,
      trailing_byte, trailing_byte, trailing_byte, hshift 12 12 rfl (by omega),
      hshift 6 6 rfl (by omega),
      leading_byte 4 15 18 rfl rfl (by omega) (by omega) (by omega)]
    simp only [bind_eq_bind, bind_some, UInt32.reduceToNat]
    rw [mod_eq_of_lt (show character.val.toNat / 262144 < 8 by omega)]
    rfl

theorem pushScalars_map_ofChar (text : List UInt8) (characters : List Char) :
    pushScalars text (characters.map .ofChar) =
      some (text ++ characters.flatMap String.utf8EncodeChar) := by
  induction characters generalizing text with
  | nil => rw [map_nil, pushScalars, flatMap_nil, append_nil]
  | cons character rest ih =>
    rw [map_cons, pushScalars, scalarBytes_ofChar, flatMap_cons, ← append_assoc]
    exact ih (text ++ String.utf8EncodeChar character)

/-! ## The iterator reads the character back -/

theorem nextScalar_drop (bytes : List UInt8) (i : Nat) :
    nextScalar bytes i = nextScalar (bytes.drop i) 0 := by
  have hfst : byteAt bytes i = byteAt (bytes.drop i) 0 := byteAt_drop bytes i 0
  simp only [nextScalar, hfst, byteAt_drop bytes, zero_add]

theorem masked_toNat (byte mask : UInt8) (bits : Nat) (hmask : mask.toNat = 2 ^ bits - 1) :
    (byteU32 (byte &&& mask)).toNat = byte.toNat % 2 ^ bits := by
  rw [byteU32_toNat, UInt8.toNat_and, hmask, and_two_pow_sub_one_eq_mod]

theorem joined_toNat {high : UInt32} (byte : UInt8) (top : Nat) (hhigh : high.toNat = 64 * top) :
    (high ||| byteU32 (byte &&& 63)).toNat = high.toNat + byte.toNat % 64 := by
  have hlow : (byteU32 (byte &&& 63)).toNat = byte.toNat % 64 := masked_toNat byte 63 6 rfl
  rw [or_toNat 6 top hhigh (by omega), hlow]

theorem joined_shift_toNat {high : UInt32} (byte : UInt8) (count : UInt32) (bits top : Nat)
    (hcount : count.toNat = bits) (hbits : bits ≤ 12) (hhigh : high.toNat = 2 ^ (bits + 6) * top) :
    (high ||| byteU32 (byte &&& 63) <<< count).toNat =
      high.toNat + byte.toNat % 64 * 2 ^ bits := by
  have hlow : (byteU32 (byte &&& 63)).toNat = byte.toNat % 64 := masked_toNat byte 63 6 rfl
  have hpower : 2 ^ (bits + 6) ≤ 2 ^ 18 := Nat.pow_le_pow_right (by omega) (by omega)
  have hsmall : byte.toNat % 64 * 2 ^ bits < 2 ^ (bits + 6) := by
    rw [Nat.pow_add, Nat.mul_comm]
    exact Nat.mul_lt_mul_of_pos_left (Nat.mod_lt _ (by omega)) (Nat.two_pow_pos bits)
  have hfits : (byteU32 (byte &&& 63)).toNat * 2 ^ bits < 2 ^ 32 := by
    rw [hlow]
    omega
  have hshift : (byteU32 (byte &&& 63) <<< count).toNat = byte.toNat % 64 * 2 ^ bits := by
    rw [shiftLeft_toNat hcount (by omega) hfits, hlow]
  rw [or_toNat (bits + 6) top hhigh (by omega), hshift]

theorem lead_shift_toNat {byte mask : UInt8} (bits shift : Nat) (hmask : mask.toNat = 2 ^ bits - 1)
    (hcount : count.toNat = shift) (hfits : bits + shift < 32) :
    (byteU32 (byte &&& mask) <<< count).toNat = byte.toNat % 2 ^ bits * 2 ^ shift := by
  have hlow := masked_toNat byte mask bits hmask
  have hpower : 2 ^ (bits + shift) < 2 ^ 32 := Nat.pow_lt_pow_right (by omega) hfits
  have hsmall : byte.toNat % 2 ^ bits * 2 ^ shift < 2 ^ (bits + shift) := by
    rw [Nat.pow_add]
    exact Nat.mul_lt_mul_of_pos_right (Nat.mod_lt _ (Nat.two_pow_pos bits)) (Nat.two_pow_pos shift)
  rw [shiftLeft_toNat hcount (by omega) (by rw [hlow]; omega), hlow]

theorem nextScalar_two (first second : UInt8) (rest : List UInt8) (hone : ¬ first ≤ 127)
    (htwo : first ≤ 223) :
    ∃ val : UInt32, nextScalar (first :: second :: rest) 0 = some (⟨val⟩, 2) ∧
      val.toNat = first.toNat % 32 * 64 + second.toNat % 64 := by
  have hlead : (byteU32 (first &&& 31) <<< 6).toNat = first.toNat % 32 * 64 :=
    lead_shift_toNat 5 6 rfl rfl (by omega)
  refine ⟨byteU32 (first &&& 31) <<< 6 ||| byteU32 (second &&& 63), ?_, ?_⟩
  · simp only [nextScalar, byteAt, getElem?_cons_zero, getElem?_cons_succ,
      bind_eq_bind, bind_some, if_neg hone, if_pos htwo, zero_add]
  · rw [joined_toNat second (first.toNat % 32) (by omega), hlead]

theorem nextScalar_three (first second third : UInt8) (rest : List UInt8) (hone : ¬ first ≤ 127)
    (htwo : ¬ first ≤ 223) (hthree : first ≤ 239) :
    ∃ val : UInt32, nextScalar (first :: second :: third :: rest) 0 = some (⟨val⟩, 3) ∧ val.toNat =
        first.toNat % 16 * 4096 + second.toNat % 64 * 64 + third.toNat % 64 := by
  have hlead : (byteU32 (first &&& 15) <<< 12).toNat = first.toNat % 16 * 4096 :=
    lead_shift_toNat 4 12 rfl rfl (by omega)
  have hsnd : (byteU32 (first &&& 15) <<< 12 ||| byteU32 (second &&& 63) <<< 6).toNat =
      (byteU32 (first &&& 15) <<< 12).toNat + second.toNat % 64 * 64 :=
    joined_shift_toNat second 6 6 (first.toNat % 16) rfl (by omega) (by omega)
  refine ⟨byteU32 (first &&& 15) <<< 12 ||| byteU32 (second &&& 63) <<< 6 |||
    byteU32 (third &&& 63), ?_, ?_⟩
  · simp only [nextScalar, byteAt, getElem?_cons_zero, getElem?_cons_succ,
      bind_eq_bind, bind_some, if_neg hone, if_neg htwo, if_pos hthree, zero_add]
  · rw [joined_toNat third (first.toNat % 16 * 64 + second.toNat % 64) (by omega), hsnd, hlead]

theorem nextScalar_four (first second third fourth : UInt8) (rest : List UInt8)
    (hone : ¬ first ≤ 127) (htwo : ¬ first ≤ 223) (hthree : ¬ first ≤ 239) :
    ∃ val : UInt32, nextScalar (first :: second :: third :: fourth :: rest) 0 = some (⟨val⟩, 4) ∧
      val.toNat = first.toNat % 8 * 262144 + second.toNat % 64 * 4096 +
        third.toNat % 64 * 64 + fourth.toNat % 64 := by
  have hlead : (byteU32 (first &&& 7) <<< 18).toNat = first.toNat % 8 * 262144 :=
    lead_shift_toNat 3 18 rfl rfl (by omega)
  have hsnd : (byteU32 (first &&& 7) <<< 18 ||| byteU32 (second &&& 63) <<< 12).toNat =
      (byteU32 (first &&& 7) <<< 18).toNat + second.toNat % 64 * 4096 :=
    joined_shift_toNat second 12 12 (first.toNat % 8) rfl (by omega) (by omega)
  have hthird : (byteU32 (first &&& 7) <<< 18 ||| byteU32 (second &&& 63) <<< 12 |||
      byteU32 (third &&& 63) <<< 6).toNat =
      (byteU32 (first &&& 7) <<< 18 ||| byteU32 (second &&& 63) <<< 12).toNat +
        third.toNat % 64 * 64 :=
    joined_shift_toNat third 6 6 (first.toNat % 8 * 64 + second.toNat % 64) rfl (by omega)
      (by omega)
  refine ⟨byteU32 (first &&& 7) <<< 18 ||| byteU32 (second &&& 63) <<< 12 |||
    byteU32 (third &&& 63) <<< 6 ||| byteU32 (fourth &&& 63), ?_, ?_⟩
  · simp only [nextScalar, byteAt, getElem?_cons_zero, getElem?_cons_succ,
      bind_eq_bind, bind_some, if_neg hone, if_neg htwo, if_neg hthree, zero_add]
  · rw [joined_toNat fourth
      (first.toNat % 8 * 4096 + second.toNat % 64 * 64 + third.toNat % 64) (by omega),
      hthird, hsnd, hlead]

theorem digits_three {code : Nat} (hcode : code < 65536) :
    (code / 4096 % 16 + 224) % 16 * 4096 + (code / 64 % 64 + 128) % 64 * 64 +
      (code % 64 + 128) % 64 = code := by
  omega

theorem digits_four {code : Nat} (hcode : code < 2097152) :
    (code / 262144 % 8 + 240) % 8 * 262144 + (code / 4096 % 64 + 128) % 64 * 4096 +
      (code / 64 % 64 + 128) % 64 * 64 + (code % 64 + 128) % 64 = code := by
  omega

theorem nextScalar_utf8EncodeChar (character : Char) (rest : List UInt8) :
    nextScalar (String.utf8EncodeChar character ++ rest) 0 =
      some (.ofChar character, (String.utf8EncodeChar character).length) := by
  have hvalid := toNat_valid character
  have hscalar : ∀ val : UInt32, val.toNat = character.val.toNat →
      UnicodeScalar.mk val = .ofChar character := by
    intro val hval
    rw [UInt32.toNat_inj.mp hval]
    rfl
  unfold String.utf8EncodeChar
  generalize hcode : character.val.toNat = code at hvalid hscalar ⊢
  have hbyte : ∀ {val : Nat}, val < 256 → (UInt8.ofNat val).toNat = val := toNat_ofNat
  have hbelow : ∀ val bound : Nat, val < 256 → bound < 256 → val ≤ bound →
      UInt8.ofNat val ≤ UInt8.ofNat bound := by
    intro val bound hval hbound hbelow
    rw [UInt8.le_iff_toNat_le, hbyte hval, hbyte hbound]
    exact hbelow
  have habove : ∀ val bound : Nat, val < 256 → bound < 256 → bound < val →
      ¬ UInt8.ofNat val ≤ UInt8.ofNat bound := by
    intro val bound hval hbound habove
    rw [UInt8.le_iff_toNat_le, hbyte hval, hbyte hbound]
    omega
  simp only
  split_ifs with hone htwo hthree
  · have hfst : UInt8.ofNat code ≤ 127 := hbelow code 127 (by omega) (by decide) hone
    have hval : (byteU32 (UInt8.ofNat code)).toNat = code := by
      rw [byteU32_toNat, hbyte (by omega)]
    simp only [nextScalar, byteAt, cons_append, getElem?_cons_zero, bind_eq_bind,
      bind_some, if_pos hfst, length_cons, length_nil]
    rw [hscalar _ hval]
  · obtain ⟨val, hnext, hval⟩ := nextScalar_two (UInt8.ofNat (code / 64 % 32 + 192))
      (UInt8.ofNat (code % 64 + 128)) rest (habove _ 127 (by omega) (by decide) (by omega))
      (hbelow _ 223 (by omega) (by decide) (by omega))
    rw [hbyte (by omega), hbyte (by omega)] at hval
    rw [cons_append, cons_append, nil_append, hnext, hscalar val (by omega)]
    rfl
  · obtain ⟨val, hnext, hval⟩ := nextScalar_three (UInt8.ofNat (code / 4096 % 16 + 224))
      (UInt8.ofNat (code / 64 % 64 + 128)) (UInt8.ofNat (code % 64 + 128)) rest
      (habove _ 127 (by omega) (by decide) (by omega)) (habove _ 223 (by omega) (by decide) (by omega))
      (hbelow _ 239 (by omega) (by decide) (by omega))
    rw [hbyte (by omega), hbyte (by omega), hbyte (by omega)] at hval
    rw [cons_append, cons_append, cons_append, nil_append, hnext,
      hscalar val (hval.trans (digits_three (by omega)))]
    rfl
  · obtain ⟨val, hnext, hval⟩ := nextScalar_four (UInt8.ofNat (code / 262144 % 8 + 240))
      (UInt8.ofNat (code / 4096 % 64 + 128)) (UInt8.ofNat (code / 64 % 64 + 128))
      (UInt8.ofNat (code % 64 + 128)) rest
      (habove _ 127 (by omega) (by decide) (by omega)) (habove _ 223 (by omega) (by decide) (by omega))
      (habove _ 239 (by omega) (by decide) (by omega))
    rw [hbyte (by omega), hbyte (by omega), hbyte (by omega), hbyte (by omega)] at hval
    rw [cons_append, cons_append, cons_append, cons_append, nil_append,
      hnext, hscalar val (hval.trans (digits_four (by omega)))]
    rfl

/-! ## Whole texts -/

theorem length_le_flatMap (characters : List Char) :
    characters.length ≤ (characters.flatMap String.utf8EncodeChar).length := by
  induction characters with
  | nil => exact le_refl 0
  | cons character rest ih =>
    have hpos := length_pos_iff.mpr (sequence_utf8EncodeChar character).ne_nil
    rw [flatMap_cons, length_append, length_cons]
    omega

/-- The iterator stands behind the characters that it has yielded. -/
theorem scalarsFrom_flatMap (front : List UInt8) (characters : List Char) {calls : Nat}
    (hcalls : characters.length ≤ calls) :
    scalarsFrom (front ++ characters.flatMap String.utf8EncodeChar) calls front.length =
      some (characters.map .ofChar) := by
  induction characters generalizing front calls with
  | nil =>
    have hend : front.length = (front ++ [].flatMap String.utf8EncodeChar).length := by
      rw [flatMap_nil, append_nil]
    cases calls with
    | zero => exact if_pos hend
    | succ calls => exact if_pos hend
  | cons character rest ih =>
    obtain ⟨calls, rfl⟩ : ∃ fewer, calls = fewer + 1 :=
      ⟨calls - 1, by rw [length_cons] at hcalls; omega⟩
    have hpos := length_pos_iff.mpr (sequence_utf8EncodeChar character).ne_nil
    have hinside : ¬ front.length =
        (front ++ (character :: rest).flatMap String.utf8EncodeChar).length := by
      rw [flatMap_cons, length_append, length_append]
      omega
    have hrest := ih (front ++ String.utf8EncodeChar character) (le_of_succ_le_succ hcalls)
    rw [append_assoc, ← flatMap_cons, length_append] at hrest
    rw [scalarsFrom, if_neg hinside, nextScalar_drop, drop_left, flatMap_cons,
      nextScalar_utf8EncodeChar, ← flatMap_cons]
    simp only [bind_eq_bind, bind_some]
    rw [hrest]
    rfl

theorem scalars_flatMap (characters : List Char) :
    scalars (characters.flatMap String.utf8EncodeChar) = some (characters.map .ofChar) :=
  scalarsFrom_flatMap [] characters (length_le_flatMap characters)

/-- Pushed scalars are read back, and what is read of a text are valid scalars that make it up
again. -/
theorem scalars_roundTrip :
    (∀ values : List UnicodeScalar, (∀ scalar ∈ values, scalar.Valid) →
      ∃ text, pushScalars [] values = some text ∧ Utf8.WellFormed text ∧
        scalars text = some values) ∧
    (∀ text, Utf8.WellFormed text →
      ∃ values, scalars text = some values ∧ (∀ scalar ∈ values, scalar.Valid) ∧
        pushScalars [] values = some text) := by
  constructor
  · intro values hvals
    obtain ⟨characters, rfl⟩ := UnicodeScalar.exists_chars hvals
    exact ⟨_, pushScalars_map_ofChar [] characters, wellFormed_iff.mpr ⟨characters, rfl⟩,
      scalars_flatMap characters⟩
  · intro text htext
    obtain ⟨characters, rfl⟩ := wellFormed_iff.mp htext
    refine ⟨_, scalars_flatMap characters, ?_, pushScalars_map_ofChar [] characters⟩
    intro scalar hscalar
    obtain ⟨character, _, rfl⟩ := mem_map.mp hscalar
    exact UnicodeScalar.ofChar_valid character

/-- A text with a character of each length. -/
theorem scalars_roundTrip_lengths :
    (∃ text, pushScalars [] [⟨0x41⟩, ⟨0xE9⟩, ⟨0x20AC⟩, ⟨0x1F600⟩] = some text ∧
      Utf8.WellFormed text ∧ scalars text = some [⟨0x41⟩, ⟨0xE9⟩, ⟨0x20AC⟩, ⟨0x1F600⟩]) ∧
    (∃ values, scalars [0xE2, 0x82, 0xAC] = some values ∧ (∀ scalar ∈ values, scalar.Valid) ∧
      pushScalars [] values = some [0xE2, 0x82, 0xAC]) :=
  ⟨scalars_roundTrip.1 _ (by decide),
    scalars_roundTrip.2 _ (.cons (.e1 (by decide) (by decide) (by decide)) .nil)⟩

end Salicin.Strings
