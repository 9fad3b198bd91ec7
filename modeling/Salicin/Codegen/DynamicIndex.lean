import Salicin.Codegen.Assignability
import Salicin.Codegen.IntegerEmission
import Salicin.Foundation.Bytes

/-!
# Dynamic indices

An index that is only known when the program runs is checked against the length of the array, once
where the address of an element is taken and once where its value is read. The value path compares
the index itself. The address path loads its low half and extends the sign.
-/

namespace Salicin.Codegen

/-! ## The emitted code -/

/-- How code that reaches for an element ends. -/
inductive IndexOutcome (α : Type)
  | value (value : α)
  | trap
  | undefined
  deriving DecidableEq

/-- Where a `getelementptr` into an array leads. -/
structure ElementPointer where
  root : BitVec 64
  index : BitVec 64
  deriving DecidableEq

/-- The address, with elements that take up a number of bytes each. -/
def ElementPointer.address (stride : BitVec 64) (pointer : ElementPointer) : BitVec 64 :=
  pointer.root + pointer.index * stride

/-- `store` of an integer, lowest byte first. -/
def storeInteger {w : Nat} (value : BitVec w) : List UInt8 := LittleEndian.store (w / 8) value.toNat

/-- `load` of an integer of a width. -/
def loadInteger (w : Nat) (memory : List UInt8) : BitVec w :=
  BitVec.ofNat w (LittleEndian.load (memory.take (w / 8)))

/-- `load` of an element of an array, which is not defined outside the array. -/
def loadElement {α : Type} {length : BitVec 64} (array : Fin length.toNat → α)
    (pointer : ElementPointer) : IndexOutcome α :=
  if hlt : pointer.index.toNat < length.toNat then .value (array ⟨pointer.index.toNat, hlt⟩)
  else .undefined

/-- The end of `emit_place_address`, with the slot of the local that holds the index. -/
def emitPlaceAddress (length root : BitVec 64) (indexPointer : List UInt8) :
    IndexOutcome ElementPointer :=
  let indexValue := loadInteger 32 indexPointer
  let wideIndex := indexValue.signExtend 64
  let inBounds := IcmpPredicate.ult.eval wideIndex length
  if inBounds then .value ⟨root, wideIndex⟩ else .trap

/-- `emit_index` with a dynamic index: the array is spilled and the element loaded from there. -/
def emitIndex {α : Type} {length : BitVec 64} (array : Fin length.toNat → α)
    (spill wideIndex : BitVec 64) : IndexOutcome α :=
  let inBounds := IcmpPredicate.ult.eval wideIndex length
  if inBounds then loadElement array ⟨spill, wideIndex⟩ else .trap

/-- What a use of an index is for: the element with that index if there is one, else a trap. -/
def indexed (length root index : BitVec 64) : IndexOutcome ElementPointer :=
  if index.toNat < length.toNat then .value ⟨root, index⟩ else .trap

/-- A load where the address is. -/
def IndexOutcome.load {α : Type} {length : BitVec 64} (array : Fin length.toNat → α) :
    IndexOutcome ElementPointer → IndexOutcome α
  | .value pointer => loadElement array pointer
  | .trap => .trap
  | .undefined => .undefined

/-! ## The address path -/

/-- The index that the address path makes of an index. -/
def narrowed (index : BitVec 64) : BitVec 64 := (index.setWidth 32).signExtend 64

theorem take_store {count width : Nat} (hle : count ≤ width) (value : Nat) :
    (LittleEndian.store width value).take count = LittleEndian.store count value := by
  rw [LittleEndian.store, LittleEndian.store, ← List.map_take, List.take_range, Nat.min_eq_left hle]

theorem loadInteger_storeInteger (index : BitVec 64) :
    loadInteger 32 (storeInteger index) = index.setWidth 32 := by
  apply BitVec.eq_of_toNat_eq
  rw [loadInteger, storeInteger, take_store (by omega), LittleEndian.load_store, BitVec.toNat_ofNat,
    BitVec.toNat_setWidth]
  exact Nat.mod_mod_of_dvd _ (by decide)

theorem toNat_narrowed (index : BitVec 64) : (narrowed index).toNat =
    index.toNat % 2 ^ 32 + if 2 ^ 31 ≤ index.toNat % 2 ^ 32 then 2 ^ 64 - 2 ^ 32 else 0 := by
  have hlow : (index.setWidth 32).toNat = index.toNat % 2 ^ 32 := BitVec.toNat_setWidth _ _
  have hwide : ((index.setWidth 32).setWidth 64).toNat = index.toNat % 2 ^ 32 := by
    rw [BitVec.toNat_setWidth, hlow]
    omega
  rw [narrowed, BitVec.toNat_signExtend, hwide, BitVec.msb_eq_decide, hlow]
  simp

/-- The indices that keep their value are those whose upper half repeats the sign of the lower. -/
theorem narrowed_eq_iff {index : BitVec 64} :
    narrowed index = index ↔ index.toNat < 2 ^ 31 ∨ 2 ^ 64 - 2 ^ 31 ≤ index.toNat := by
  have hlt := index.isLt
  rw [← BitVec.toNat_inj, toNat_narrowed]
  split <;> omega

theorem emitPlaceAddress_eq (length root index : BitVec 64) :
    emitPlaceAddress length root (storeInteger index) =
      indexed length root (narrowed index) := by
  rw [emitPlaceAddress, loadInteger_storeInteger, indexed, ← narrowed]
  simp [IcmpPredicate.eval, BitVec.ult]

/-! ## Both paths -/

variable {α : Type} {length : BitVec 64} {array : Fin length.toNat → α}

theorem load_indexed (root index : BitVec 64) : (indexed length root index).load array =
      if hlt : index.toNat < length.toNat then .value (array ⟨index.toNat, hlt⟩) else .trap := by
  unfold indexed
  split
  next hlt => simp [IndexOutcome.load, loadElement, hlt]
  next => rfl

theorem emitIndex_eq (spill index : BitVec 64) :
    emitIndex array spill index = (indexed length spill index).load array := by
  rw [load_indexed, emitIndex]
  split
  next hlt =>
    have hlt : index.toNat < length.toNat := by simpa [IcmpPredicate.eval, BitVec.ult] using hlt
    simp [loadElement, hlt]
  next hnot =>
    have hnot : ¬ index.toNat < length.toNat := by
      simpa [IcmpPredicate.eval, BitVec.ult] using hnot
    rw [dif_neg hnot]

theorem indexed_narrowed_iff {root index : BitVec 64} :
    indexed length root (narrowed index) = indexed length root index ↔ narrowed index = index ∨
        length.toNat ≤ index.toNat ∧ length.toNat ≤ (narrowed index).toNat := by
  by_cases hsame : narrowed index = index
  · exact iff_of_true (by rw [hsame]) (.inl hsame)
  unfold indexed
  split
  next hinside =>
    refine iff_of_false ?_ ?_
    · split <;> simp [hsame]
    · rintro (heq | ⟨-, hle⟩)
      · exact hsame heq
      · omega
  next houtside =>
    split
    next hlt =>
      refine iff_of_false (by simp) ?_
      rintro (heq | ⟨hle, -⟩)
      · exact hsame heq
      · omega
    next hnot => exact iff_of_true rfl (.inr ⟨by omega, by omega⟩)

/-- An index has the type `usize` on both paths. The value path gives the element or the trap that
the index stands for. The address path gives the same exactly for the indices that its load of 32
bits keeps, and for those that lie outside the array before and after it. -/
theorem dynamicIndex_exact (kind : IntegerTy) {α : Type} (length : BitVec 64)
    (array : Fin length.toNat → α) (root spill index : BitVec 64) :
    (Names.typeIsAssignable (.integer kind) (.integer .usize) ↔ kind = .usize) ∧
      IntegerTy.usize.width = 64 ∧ emitIndex array spill index =
        (indexed length spill index).load array ∧
      (emitPlaceAddress length root (storeInteger index) = indexed length root index ∧
          (emitPlaceAddress length root (storeInteger index)).load array =
            emitIndex array spill index ↔
        index.toNat < 2 ^ 31 ∨ 2 ^ 64 - 2 ^ 31 ≤ index.toNat ∨
          length.toNat ≤ index.toNat ∧ length.toNat ≤ (narrowed index).toNat) := by
  refine ⟨?_, rfl, emitIndex_eq spill index, ?_⟩
  · rw [Names.typeIsAssignable_other (.inl rfl), Names.Ty.integer.injEq]
  · rw [emitPlaceAddress_eq, ← or_assoc, ← narrowed_eq_iff, ← indexed_narrowed_iff, emitIndex_eq]
    constructor
    · exact And.left
    · intro heq
      rw [heq, load_indexed, load_indexed]
      exact ⟨rfl, rfl⟩

/-- The first index beyond 32 bits reaches the first element of an array with one element. -/
theorem emitPlaceAddress_wraps :
    emitPlaceAddress 1 0 (storeInteger (BitVec.ofNat 64 (2 ^ 32))) = .value ⟨0, 0⟩ ∧
      emitIndex (fun _ : Fin (1 : BitVec 64).toNat => ()) 0 (BitVec.ofNat 64 (2 ^ 32)) = .trap := by
  decide

end Salicin.Codegen
