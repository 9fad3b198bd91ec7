import Salicin.Vectors.Slots

/-!
# Slices

The operations of `memory.sc` that move elements inside of a borrowed slice. A slice is a part of
a block whose slots are all initialized.
-/

namespace Salicin.Vectors

open List Function StatefulResults

/-- A mutably borrowed slice; its elements begin at a slot of the block. -/
structure Slice where
  pointer : Nat
  first : Nat
  length : Nat

/-! ## Cells that have moved -/

section
variable {T : Type}

/-- The cells from one slot on are copied to those from another slot on, for a window of
offsets. -/
def copiedCells (cells : Nat → Option T) (src target low high : Nat) : Nat → Option T :=
  fun slot => if target + low ≤ slot ∧ slot < target + high then cells (slot - target + src)
    else cells slot

/-- The outer elements have changed places, up to this distance from the ends. -/
def reversedCells (cells : Nat → Option T) (first len left : Nat) : Nat → Option T :=
  fun slot =>
    if first ≤ slot ∧ slot < first + len ∧ (slot < first + left ∨ first + len ≤ slot + left) then
      cells (first + len - 1 - (slot - first))
    else cells slot

variable {cells : Nat → Option T} {src target low high first len left : Nat}

theorem copiedCells_none : copiedCells cells src target low low = cells := by
  funext slot
  exact if_neg (by omega)

theorem copiedCells_up :
    Function.update (copiedCells cells src target 0 high) (target + high)
      (cells (src + high)) = copiedCells cells src target 0 (high + 1) := by
  funext slot
  simp only [update_apply, copiedCells]
  grind

theorem copiedCells_down (hlow : low < high) :
    Function.update (copiedCells cells src target (low + 1) high) (target + low)
      (cells (src + low)) = copiedCells cells src target low high := by
  funext slot
  simp only [update_apply, copiedCells]
  grind

theorem reversedCells_none : reversedCells cells first len 0 = cells := by
  funext slot
  exact if_neg (by omega)

theorem reversedCells_step (hleft : left < len / 2) :
    Function.update (Function.update (Function.update (Function.update
      (reversedCells cells first len left) (first + left) none)
        (first + (len - 1 - left)) none)
          (first + left) (cells (first + (len - 1 - left))))
            (first + (len - 1 - left)) (cells (first + left)) =
      reversedCells cells first len (left + 1) := by
  funext slot
  simp only [update_apply, reversedCells]
  grind

end

/-! ## Operations on a slice -/

section
variable {T V : Type} [Stored T]

def sliceSwap (values : Slice) (left right : Nat) : Machine T V Unit :=
  if left ≥ values.length ∨ right ≥ values.length then throw .trap
  else if left ≠ right then do
    let leftValue ← rawTake values.pointer (values.first + left)
    let rightValue ← rawTake values.pointer (values.first + right)
    rawInit values.pointer (values.first + left) rightValue
    rawInit values.pointer (values.first + right) leftValue
  else pure ()

def sliceReverse (values : Slice) : Machine T V Unit := do
  let _ ← loopWhile (fun left => pure (decide (left < values.length / 2)))
    (fun left => do
      let last ← subU64 values.length 1
      let right ← subU64 last left
      sliceSwap values left right
      addU64 left 1) 0
  pure ()

/-- A copyable element is written over another one. -/
def copyElement (values : Slice) (src target : Nat) : Machine T V Unit := do
  let value ← rawBorrow values.pointer (values.first + src)
  rawInit values.pointer (values.first + target) value

def sliceCopyWithin (values : Slice) (sourceStart sourceEnd destinationStart : Nat) :
    Machine T V Unit :=
  if sourceStart > sourceEnd ∨ sourceEnd > values.length then throw .trap
  else do
    let count ← subU64 sourceEnd sourceStart
    if destinationStart > values.length then throw .trap
    else
      let room ← subU64 values.length destinationStart
      if count > room then throw .trap
      else if count > 0 then
        if destinationStart > sourceStart then
          let _ ← loopWhile (fun remaining => pure (decide (remaining > 0)))
            (fun remaining => do
              let remaining ← subU64 remaining 1
              let target ← addU64 destinationStart remaining
              let src ← addU64 sourceStart remaining
              copyElement values src target
              pure remaining) count
          pure ()
        else
          let _ ← loopWhile (fun offset => pure (decide (offset < count)))
            (fun offset => do
              let target ← addU64 destinationStart offset
              let src ← addU64 sourceStart offset
              copyElement values src target
              addU64 offset 1) 0
          pure ()
      else pure ()

/-! ## What the operations do -/

variable {cells : Nat → Option T} {src target left : Nat}

/-- The slots of the slice are initialized; an allocation ends before the address space does. -/
structure Slice.Holds (values : Slice) (state : State T V) (size : Nat)
    (cells : Nat → Option T) : Prop where
  block : state.Has values.pointer size cells
  filled : ∀ index < values.length, (cells (values.first + index)).isSome = true
  fits : (values.first + values.length) * Stored.sizeOf T ≤ size
  counted : values.length ≤ u64Max

variable {values : Slice} {state : State T V} {size : Nat}

/-- The slice after a change of its block. -/
abbrev Slice.write (values : Slice) (state : State T V) (size : Nat) (cells : Nat → Option T) :
    State T V := state.put values.pointer (some ⟨size, cells⟩)

theorem Slice.Holds.contains (hvalues : values.Holds state size cells) {i : Nat}
    (hidx : i < values.length) (cells' : Nat → Option T) :
    (Block.mk size cells').Contains (values.first + i) :=
  Nat.le_trans (Nat.mul_le_mul_right _ (by omega)) hvalues.fits

theorem Slice.Holds.copy (hvalues : values.Holds state size cells) {current : Nat → Option T}
    (hsrc : src < values.length) (htgt : target < values.length)
    (hsame : current (values.first + src) = cells (values.first + src)) :
    copyElement values src target (values.write state size current) =
      .ok () (values.write state size
        (Function.update current (values.first + target) (cells (values.first + src)))) := by
  obtain ⟨val, hval⟩ := Option.isSome_iff_exists.mp (hvalues.filled src hsrc)
  have hblock := hvalues.block.put size current
  rw [copyElement, run_bind (rawBorrow_ok hblock (hvalues.contains hsrc current)
    (hsame.trans hval)), rawInit_ok hblock (hvalues.contains htgt current), State.put_put,
    hval]

/-- The cells are copied as they were, in whatever order the ranges lie. -/
theorem sliceCopyWithin_ok (hvalues : values.Holds state size cells)
    {sourceStart sourceEnd destinationStart : Nat} (hstart : sourceStart ≤ sourceEnd)
    (hend : sourceEnd ≤ values.length)
    (hroom : destinationStart + (sourceEnd - sourceStart) ≤ values.length) :
    sliceCopyWithin values sourceStart sourceEnd destinationStart state =
      .ok () (values.write state size (copiedCells cells (values.first + sourceStart)
        (values.first + destinationStart) 0 (sourceEnd - sourceStart))) := by
  have hcounted := hvalues.counted
  rw [sliceCopyWithin, if_neg (by omega), run_bind (subU64_ok hstart state), if_neg (by omega),
    run_bind (subU64_ok (by omega) state), if_neg (by omega)]
  generalize hcount : sourceEnd - sourceStart = count at hroom ⊢
  by_cases hempty : count = 0
  · rw [if_neg (by omega), hempty, copiedCells_none, Slice.write, hvalues.block.put_self]
    rfl
  rw [if_pos (by omega)]
  split
  next hdirection =>
    -- Downwards, the window that is copied lies above what is still read.
    refine whileLoop_bind
      (fun remaining final => remaining ≤ count ∧ final = values.write state size
        (copiedCells cells (values.first + sourceStart) (values.first + destinationStart)
          remaining count))
      (fun remaining _ => remaining > 0) (fun remaining _ => remaining) (fun _ _ _ => rfl) ?_
      (by omega) ⟨Nat.le_refl _, by rw [copiedCells_none, Slice.write, hvalues.block.put_self]⟩ ?_
    · rintro remaining final ⟨hrem, rfl⟩ hmore
      obtain ⟨low, rfl⟩ := Nat.exists_eq_add_of_lt hmore
      rw [Nat.zero_add] at hrem ⊢
      refine ⟨low, _, ?_, ⟨by omega, rfl⟩, by omega⟩
      rw [run_bind (subU64_ok (by omega) _), Nat.add_sub_cancel,
        run_bind (addU64_ok (by omega) _), run_bind (addU64_ok (by omega) _),
        run_bind (hvalues.copy (by omega) (by omega) (if_neg (by omega))), ← Nat.add_assoc,
        ← Nat.add_assoc, copiedCells_down (by omega)]
      rfl
    · rintro remaining final ⟨-, rfl⟩ hdone
      rw [Nat.eq_zero_of_not_pos hdone]
      rfl
  next hdirection =>
    -- Upwards, it lies below.
    refine whileLoop_bind
      (fun offset final => offset ≤ count ∧ final = values.write state size
        (copiedCells cells (values.first + sourceStart) (values.first + destinationStart)
          0 offset))
      (fun offset _ => offset < count) (fun offset _ => count - offset) (fun _ _ _ => rfl) ?_
      (by omega) ⟨Nat.zero_le _, by rw [copiedCells_none, Slice.write, hvalues.block.put_self]⟩ ?_
    · rintro offset final ⟨-, rfl⟩ hmore
      refine ⟨offset + 1, _, ?_, ⟨hmore, rfl⟩, by omega⟩
      rw [run_bind (addU64_ok (by omega) _), run_bind (addU64_ok (by omega) _),
        run_bind (hvalues.copy (by omega) (by omega) (if_neg (by omega))), ← Nat.add_assoc,
        ← Nat.add_assoc, copiedCells_up, addU64_ok (by omega)]
    · rintro offset final ⟨hoffset, rfl⟩ hdone
      obtain rfl : offset = count := by omega
      rfl

theorem sliceCopyWithin_trap {sourceStart sourceEnd destinationStart : Nat}
    (hbounds : ¬ (sourceStart ≤ sourceEnd ∧ sourceEnd ≤ values.length ∧
      destinationStart + (sourceEnd - sourceStart) ≤ values.length)) :
    sliceCopyWithin values sourceStart sourceEnd destinationStart state =
      .error .trap state := by
  rw [sliceCopyWithin]
  split
  · rfl
  next hrange =>
    rw [run_bind (subU64_ok (by omega) state)]
    split
    · rfl
    next hdest =>
      rw [run_bind (subU64_ok (by omega) state), if_pos (by omega)]
      rfl

theorem sliceSwap_reverses (hvalues : values.Holds state size cells)
    (hleft : left < values.length / 2) :
    sliceSwap values left (values.length - 1 - left)
      (values.write state size (reversedCells cells values.first values.length left)) =
      .ok () (values.write state size
        (reversedCells cells values.first values.length (left + 1))) := by
  have hright : values.length - 1 - left < values.length := by omega
  obtain ⟨leftValue, hleftValue⟩ := Option.isSome_iff_exists.mp (hvalues.filled left (by omega))
  obtain ⟨rightValue, hrightValue⟩ := Option.isSome_iff_exists.mp (hvalues.filled _ hright)
  have hcont := fun i (hidx : i < values.length) => hvalues.contains hidx
  have hleftCell : reversedCells cells values.first values.length left (values.first + left) =
      some leftValue := (if_neg (by omega)).trans hleftValue
  have hrightCell : Function.update (reversedCells cells values.first values.length left)
      (values.first + left) none (values.first + (values.length - 1 - left)) =
        some rightValue := by
    rw [update_of_ne (by omega)]
    exact (if_neg (by omega)).trans hrightValue
  rw [sliceSwap, if_neg (by omega), if_pos (by omega),
    run_bind (rawTake_ok (hvalues.block.put ..) (hcont _ (by omega) _) hleftCell),
    State.put_put,
    run_bind (rawTake_ok (hvalues.block.put ..) (hcont _ hright _) hrightCell),
    State.put_put, run_bind (rawInit_ok (hvalues.block.put ..) (hcont _ (by omega) _) _),
    State.put_put, rawInit_ok (hvalues.block.put ..) (hcont _ hright _), State.put_put,
    ← hleftValue, ← hrightValue, reversedCells_step hleft]

theorem sliceReverse_ok (hvalues : values.Holds state size cells) :
    sliceReverse values state = .ok () (values.write state size
      (reversedCells cells values.first values.length (values.length / 2))) := by
  have hcounted := hvalues.counted
  refine whileLoop_bind
    (fun left final => left ≤ values.length / 2 ∧ final = values.write state size
      (reversedCells cells values.first values.length left))
    (fun left _ => left < values.length / 2) (fun left _ => values.length / 2 - left)
    (fun _ _ _ => rfl) ?_ (by omega)
    ⟨Nat.zero_le _, by rw [reversedCells_none, Slice.write, hvalues.block.put_self]⟩ ?_
  · rintro left final ⟨-, rfl⟩ hmore
    refine ⟨left + 1, _, ?_, ⟨hmore, rfl⟩, by omega⟩
    rw [run_bind (subU64_ok (by omega) _), run_bind (subU64_ok (by omega) _),
      run_bind (sliceSwap_reverses hvalues hmore), addU64_ok (by omega)]
  · rintro left final ⟨hleft, rfl⟩ hdone
    obtain rfl : left = values.length / 2 := by omega
    rfl

/-! ## What the caller sees -/

/-- The elements of the slice. -/
def Slice.elements (values : Slice) (cells : Nat → Option T) : List (Option T) :=
  (List.range values.length).map fun index => cells (values.first + index)

omit [Stored T] in
theorem elements_reversedCells :
    values.elements (reversedCells cells values.first values.length (values.length / 2)) =
      (values.elements cells).reverse := by
  refine ext_getElem (by simp [Slice.elements]) fun i hidx _ => ?_
  simp only [Slice.elements, length_map, length_range] at hidx
  simp only [Slice.elements, getElem_map, getElem_range, getElem_reverse,
    length_map, length_range, reversedCells]
  split
  · congr 1
    omega
  · congr 1
    omega

/-- Copying inside of a slice traps before it writes, or gives each destination element what its
source element was, and changes no other slot. Reversing reverses the elements and changes no
slot outside. -/
theorem slice_moves (hvalues : values.Holds state size cells)
    (sourceStart sourceEnd destinationStart : Nat) :
    (if sourceStart ≤ sourceEnd ∧ sourceEnd ≤ values.length ∧
        destinationStart + (sourceEnd - sourceStart) ≤ values.length then
      ∃ after : Nat → Option T,
        sliceCopyWithin values sourceStart sourceEnd destinationStart state =
          .ok () (values.write state size after) ∧
        (∀ offset < sourceEnd - sourceStart, after (values.first + (destinationStart + offset)) =
            cells (values.first + (sourceStart + offset))) ∧
        ∀ slot, (∀ offset < sourceEnd - sourceStart,
          slot ≠ values.first + (destinationStart + offset)) → after slot = cells slot
    else
      sliceCopyWithin values sourceStart sourceEnd destinationStart state = .error .trap state) ∧
    ∃ after : Nat → Option T, sliceReverse values state = .ok () (values.write state size after) ∧
      values.elements after = (values.elements cells).reverse ∧
      ∀ slot, (∀ index < values.length, slot ≠ values.first + index) → after slot = cells slot := by
  constructor
  · split
    next hbounds =>
      refine ⟨_, sliceCopyWithin_ok hvalues hbounds.1 hbounds.2.1 hbounds.2.2, ?_, ?_⟩
      · intro offset hoffset
        rw [copiedCells, if_pos (by omega)]
        congr 1
        omega
      · intro slot hslot
        refine if_neg fun hinside => ?_
        exact hslot (slot - (values.first + destinationStart)) (by omega) (by omega)
    next hbounds => exact sliceCopyWithin_trap hbounds
  · refine ⟨_, sliceReverse_ok hvalues, elements_reversedCells, ?_⟩
    intro slot hslot
    refine if_neg fun hinside => ?_
    exact hslot (slot - values.first) (by omega) (by omega)

end

/-- Two elements behind one of another owner. -/
theorem slice_moves_two :
    let state : State UInt64 Unit := ⟨[some ⟨24, fun slot => some slot.toUInt64⟩], [], ()⟩
    ∃ after, sliceCopyWithin ⟨0, 1, 2⟩ 0 1 1 state =
        .ok () (Slice.write ⟨0, 1, 2⟩ state 24 after) ∧ after 2 = some 1 := by
  intro state
  have hvalues : (⟨0, 1, 2⟩ : Slice).Holds state 24 fun slot => some slot.toUInt64 :=
    ⟨rfl, fun _ _ => rfl, by decide, by decide⟩
  obtain ⟨after, hrun, hcopied, -⟩ := (if_pos (by decide)).mp (slice_moves hvalues 0 1 1).1
  exact ⟨after, hrun, hcopied 0 (by decide)⟩

end Salicin.Vectors
