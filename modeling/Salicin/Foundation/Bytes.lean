import Mathlib.Data.UInt

/-!
# Bytes of texts and of numbers
-/

/-!
## Texts and their bytes
-/

namespace TextBytes

def encode (text : String) : List UInt8 := text.toByteArray.data.toList

/-- The text with these bytes, if they are well-formed. -/
def decode (bytes : List UInt8) : Option String := String.fromUTF8? ⟨bytes.toArray⟩

theorem decode_encode (text : String) : decode (encode text) = some text := by
  have hbytes : (⟨(encode text).toArray⟩ : ByteArray) = text.toByteArray := by
    rw [encode, Array.toArray_toList]
  rw [decode, hbytes, String.fromUTF8?, dif_pos text.isValidUTF8]
  rfl

theorem encode_of_decode {bytes : List UInt8} {text : String}
    (h : decode bytes = some text) : encode text = bytes := by
  rw [decode, String.fromUTF8?] at h
  by_cases hvalid : (⟨bytes.toArray⟩ : ByteArray).IsValidUTF8
  · rw [dif_pos hvalid] at h
    cases h
    rfl
  · rw [dif_neg hvalid] at h
    cases h

end TextBytes

/-!
## Little-endian bytes

A number as its lowest bytes, lowest first.
-/

namespace LittleEndian

/-- Byte after byte, by shifts. Bits above the width are lost. -/
def store (width value : Nat) : List UInt8 :=
  (List.range width).map fun index => UInt8.ofNat (value >>> (index * 8))

def load : List UInt8 → Nat
  | [] => 0
  | byte :: rest => byte.toNat + 256 * load rest

@[simp] theorem length_store (width val : Nat) : (store width val).length = width := by
  rw [store, List.length_map, List.length_range]

theorem store_succ (width val : Nat) :
    store (width + 1) val = UInt8.ofNat val :: store width (val / 256) := by
  have hshift : ∀ i : Nat, val >>> ((i + 1) * 8) = (val / 256) >>> (i * 8) := by
    intro i
    rw [Nat.add_mul, Nat.add_comm, Nat.shiftRight_add, Nat.shiftRight_eq_div_pow val]
  rw [store, store, List.range_succ_eq_map, List.map_cons, List.map_map]
  refine congrArg₂ List.cons rfl (List.map_congr_left fun i _ => ?_)
  rw [Function.comp_apply, Nat.succ_eq_add_one, hshift]

/-- What is stored is read back, without the bits above the width. -/
theorem load_store (width val : Nat) : load (store width val) = val % 256 ^ width := by
  induction width generalizing val with
  | zero => rw [Nat.pow_zero, Nat.mod_one]; rfl
  | succ width ih =>
    rw [store_succ, load, ih, Nat.pow_succ', Nat.mod_mul, UInt8.toNat_ofNat']

theorem store_load (bytes : List UInt8) : store bytes.length (load bytes) = bytes := by
  induction bytes with
  | nil => rfl
  | cons byte rest ih =>
    have hbyte := byte.toNat_lt
    have hlow : UInt8.ofNat (byte.toNat + 256 * load rest) = byte := by
      apply UInt8.toNat_inj.mp
      rw [UInt8.toNat_ofNat']
      omega
    have hhigh : (byte.toNat + 256 * load rest) / 256 = load rest := by omega
    rw [List.length_cons, load, store_succ, hlow, hhigh, ih]

end LittleEndian
