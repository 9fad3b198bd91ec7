import Salicin.Foundation.StatefulResults

/-!
# Vectors over raw storage

`vec.sc` of the library, for any type of elements: storage whose slots are initialized and moved
out by hand, the operations on a borrowed vector, and programs over variables that hold vectors
and their iterators.
-/

namespace Salicin.Vectors

open StatefulResults

def u64Max : Nat := 18446744073709551615

/-- The size in bytes of an element. It is zero for some types. -/
class Stored (T : Type) where
  sizeOf : Nat

instance : Stored UInt64 := ⟨8⟩

/-- Allocated storage, with its size in bytes. A slot that is not initialized holds no value. -/
structure Block (T : Type) where
  size : Nat
  cells : Nat → Option T

abbrev Memory (T : Type) := List (Option (Block T))

/-- Storage, the elements that have been dropped so far, and the variables that are in scope. -/
structure State (T V : Type) where
  memory : Memory T
  dropped : List T
  locals : V

/-- Why a program ends early. It only traps by design: the rest is undefined, an overflow, or a loop
that has more turns than its counter has values. -/
inductive Stop where
  | trap
  | fault
  | overflow
  | unending

abbrev Machine (T V : Type) := EStateM Stop (State T V)

section
variable {T V : Type}

/-! ## Arithmetic and loops -/

def addU64 (left right : Nat) : Machine T V Nat :=
  if left + right ≤ u64Max then pure (left + right) else throw .overflow

def subU64 (left right : Nat) : Machine T V Nat :=
  if right ≤ left then pure (left - right) else throw .overflow

def mulU64 (left right : Nat) : Machine T V Nat :=
  if left * right ≤ u64Max then pure (left * right) else throw .overflow

/-- A loop that counts in `u64`. -/
def loopWhile {α : Type} (condition : α → Machine T V Bool) (body : α → Machine T V α) (start : α) :
    Machine T V α :=
  whileLoop .unending condition body (u64Max + 2) start

def readLocals : Machine T V V := fun state => .ok state.locals state

def assign (change : V → V) : Machine T V Unit := fun state =>
  .ok () { state with locals := change state.locals }

/-- An item goes out of scope. -/
def dropItem (item : T) : Machine T V Unit := fun state =>
  .ok () { state with dropped := state.dropped ++ [item] }

/-! ## Raw operations -/

section
variable [Stored T]

/-- The slot lies within its block. -/
def Block.Contains (block : Block T) (offset : Nat) : Prop :=
  (offset + 1) * Stored.sizeOf T ≤ block.size

instance (block : Block T) (offset : Nat) : Decidable (block.Contains offset) :=
  inferInstanceAs (Decidable (_ ≤ _))

def blockAt (ptr : Nat) : Machine T V (Block T) := fun state =>
  match state.memory[ptr]? with
  | some (some block) => .ok block state
  | _ => .error .fault state

def putBlock (ptr : Nat) (block : Option (Block T)) : Machine T V Unit := fun state =>
  .ok () { state with memory := state.memory.set ptr block }

/-- Moves a value out of its slot. -/
def rawTake (ptr offset : Nat) : Machine T V T := do
  let block ← blockAt ptr
  if block.Contains offset then
    match block.cells offset with
    | some val => do
      putBlock ptr (some { block with cells := Function.update block.cells offset none })
      pure val
    | none => throw .fault
  else throw .fault

/-- Moves a value into a slot. What the slot holds is not dropped. -/
def rawInit (ptr offset : Nat) (val : T) : Machine T V Unit := do
  let block ← blockAt ptr
  if block.Contains offset then
    putBlock ptr (some { block with cells := Function.update block.cells offset (some val) })
  else throw .fault

def rawBorrow (ptr offset : Nat) : Machine T V T := do
  let block ← blockAt ptr
  if block.Contains offset then
    match block.cells offset with
    | some val => pure val
    | none => throw .fault
  else throw .fault

/-- The allocator aborts the program when it finds no room. -/
def rawAlloc (allocates : Memory T → Nat → Bool) (size : Nat) : Machine T V Nat := fun state =>
  if allocates state.memory size = true then
    .ok state.memory.length { state with memory := state.memory ++ [some ⟨size, fun _ => none⟩] }
  else .error .trap state

/-- Storage is released once, with the size of its allocation. -/
def rawDealloc (ptr size : Nat) : Machine T V Unit := do
  let block ← blockAt ptr
  if block.size = size then putBlock ptr none else throw .fault

/-! ## Storage of a vector -/

def vecLayoutSize (T : Type) [Stored T] (cap : Nat) : Machine T V Nat :=
  if Stored.sizeOf T ≠ 0 ∧ cap > u64Max / Stored.sizeOf T then throw .trap
  else mulU64 cap (Stored.sizeOf T)

variable (allocates : Memory T → Nat → Bool)

def vecAllocate (cap : Nat) : Machine T V Nat := do
  let size ← vecLayoutSize T cap
  rawAlloc allocates size

def vecDeallocate (ptr cap : Nat) : Machine T V Unit := do
  let size ← vecLayoutSize T cap
  rawDealloc ptr size

end

end

structure Vec where
  pointer : Nat
  length : Nat
  storageCapacity : Nat

/-- An owning iterator over a vector. -/
structure VecIntoIter where
  pointer : Nat
  nextIndex : Nat
  length : Nat
  storageCapacity : Nat

section
variable {T V : Type} [Stored T] (allocates : Memory T → Nat → Bool)

def vecNew : Machine T V Vec := do
  let ptr ← vecAllocate allocates 0
  pure ⟨ptr, 0, 0⟩

def vecWithCapacity (cap : Nat) : Machine T V Vec := do
  let ptr ← vecAllocate allocates cap
  pure ⟨ptr, 0, cap⟩

/-! ## Operations on a borrowed vector -/

def vecAt (i : Nat) : Machine T Vec T := do
  let values ← readLocals
  if i ≥ values.length then throw .trap else rawBorrow values.pointer i

def vecGet (i : Nat) : Machine T Vec (Option T) := do
  let values ← readLocals
  if i ≥ values.length then pure none
  else
    let val ← rawBorrow values.pointer i
    pure (some val)

/-- The elements below the count move to other storage, each to the slot that is computed for
it. -/
def moveElements (source target count : Nat) (slotOf : Nat → Machine T V Nat) :
    Machine T V Unit := do
  let _ ← loopWhile (fun i => pure (decide (i < count)))
    (fun i => do
      let item ← rawTake source i
      let slot ← slotOf i
      rawInit target slot item
      addU64 i 1) 0
  pure ()

/-- The elements move to new storage with this capacity. -/
def moveToCapacity (newCapacity : Nat) : Machine T Vec Unit := do
  let values ← readLocals
  let newPointer ← vecAllocate allocates newCapacity
  moveElements values.pointer newPointer values.length pure
  vecDeallocate values.pointer values.storageCapacity
  assign fun values => { values with pointer := newPointer }
  assign fun values => { values with storageCapacity := newCapacity }

/-- The capacity is doubled until it suffices. -/
def growCapacity (requiredCapacity cap : Nat) : Machine T V Nat :=
  loopWhile (fun newCapacity => pure (decide (newCapacity < requiredCapacity)))
    (fun newCapacity =>
      if newCapacity > 9223372036854775807 then pure requiredCapacity else mulU64 newCapacity 2)
    cap

/-- What the doubling starts from. -/
def Vec.startCapacity (values : Vec) : Nat :=
  if values.storageCapacity = 0 then 1 else values.storageCapacity

def vecReserve (additional : Nat) : Machine T Vec Unit := do
  let values ← readLocals
  let room ← subU64 u64Max values.length
  if additional > room then throw .trap
  else
    let requiredCapacity ← addU64 values.length additional
    if requiredCapacity > values.storageCapacity then
      let newCapacity ← growCapacity requiredCapacity values.startCapacity
      moveToCapacity allocates newCapacity
    else pure ()

def setLength (length : Nat) : Machine T Vec Unit :=
  assign fun values => { values with length := length }

def vecPush (val : T) : Machine T Vec Unit := do
  vecReserve allocates 1
  let values ← readLocals
  rawInit values.pointer values.length val
  let length ← addU64 values.length 1
  setLength length

def vecReplace (i : Nat) (val : T) : Machine T Vec T := do
  let values ← readLocals
  if i ≥ values.length then throw .trap
  else
    let prev ← rawTake values.pointer i
    rawInit values.pointer i val
    pure prev

def vecPop : Machine T Vec (Option T) := do
  let values ← readLocals
  if values.length = 0 then pure none
  else
    let length ← subU64 values.length 1
    setLength length
    let val ← rawTake values.pointer length
    pure (some val)

def vecTruncate (newLength : Nat) : Machine T Vec Unit :=
  loopWhile
    (fun _ => do
      let values ← readLocals
      pure (decide (values.length > newLength)))
    (fun _ => do
      let values ← readLocals
      let length ← subU64 values.length 1
      setLength length
      let item ← rawTake values.pointer length
      dropItem item) ()

def vecClear : Machine T Vec Unit := vecTruncate 0

def vecSwapRemove (i : Nat) : Machine T Vec T := do
  let values ← readLocals
  if i ≥ values.length then throw .trap
  else
    let lastIndex ← subU64 values.length 1
    let removed ← rawTake values.pointer i
    if i ≠ lastIndex then
      let last ← rawTake values.pointer lastIndex
      rawInit values.pointer i last
      setLength lastIndex
      pure removed
    else
      setLength lastIndex
      pure removed

def vecSwap (left right : Nat) : Machine T Vec Unit := do
  let values ← readLocals
  if left ≥ values.length ∨ right ≥ values.length then throw .trap
  else if left ≠ right then
    let leftValue ← rawTake values.pointer left
    let rightValue ← rawTake values.pointer right
    rawInit values.pointer left rightValue
    rawInit values.pointer right leftValue
  else pure ()

def vecReverse : Machine T Vec Unit := do
  let _ ← loopWhile
    (fun left => do
      let values ← readLocals
      pure (decide (left < values.length / 2)))
    (fun left => do
      let values ← readLocals
      let last ← subU64 values.length 1
      let right ← subU64 last left
      vecSwap left right
      addU64 left 1) 0
  pure ()

def vecInsert (i : Nat) (val : T) : Machine T Vec Unit := do
  let values ← readLocals
  if i > values.length then throw .trap
  else
    vecReserve allocates 1
    let values ← readLocals
    let _ ← loopWhile (fun moveIndex => pure (decide (moveIndex > i)))
      (fun moveIndex => do
        let previousIndex ← subU64 moveIndex 1
        let item ← rawTake values.pointer previousIndex
        rawInit values.pointer moveIndex item
        pure previousIndex) values.length
    rawInit values.pointer i val
    let length ← addU64 values.length 1
    setLength length

def vecRemove (i : Nat) : Machine T Vec T := do
  let values ← readLocals
  if i ≥ values.length then throw .trap
  else
    let removed ← rawTake values.pointer i
    let _ ← loopWhile
      (fun moveIndex => do
        let next ← addU64 moveIndex 1
        pure (decide (next < values.length)))
      (fun moveIndex => do
        let nextIndex ← addU64 moveIndex 1
        let item ← rawTake values.pointer nextIndex
        rawInit values.pointer moveIndex item
        pure nextIndex) i
    let length ← subU64 values.length 1
    setLength length
    pure removed

def vecShrinkToFit : Machine T Vec Unit := do
  let values ← readLocals
  if values.length ≠ values.storageCapacity then moveToCapacity allocates values.length
  else pure ()

def vecTake : Machine T Vec Vec := do
  let prev ← readLocals
  let ptr ← vecAllocate allocates 0
  assign fun values => { values with pointer := ptr }
  setLength 0
  assign fun values => { values with storageCapacity := 0 }
  pure prev

def vecDrop : Machine T Vec Unit := do
  let values ← readLocals
  let _ ← loopWhile (fun i => pure (decide (i < values.length)))
    (fun i => do
      let item ← rawTake values.pointer i
      let next ← addU64 i 1
      dropItem item
      pure next) 0
  vecDeallocate values.pointer values.storageCapacity

def Vec.intoIter (values : Vec) : VecIntoIter :=
  ⟨values.pointer, 0, values.length, values.storageCapacity⟩

/-! ## Iterators -/

def iteratorNext : Machine T VecIntoIter (Option T) := do
  let values ← readLocals
  if values.nextIndex = values.length then pure none
  else
    let val ← rawTake values.pointer values.nextIndex
    let next ← addU64 values.nextIndex 1
    assign fun values => { values with nextIndex := next }
    pure (some val)

def iteratorDrop : Machine T VecIntoIter Unit := do
  loopWhile
    (fun _ => do
      let values ← readLocals
      pure (decide (values.nextIndex < values.length)))
    (fun _ => do
      let values ← readLocals
      let item ← rawTake values.pointer values.nextIndex
      let next ← addU64 values.nextIndex 1
      assign fun values => { values with nextIndex := next }
      dropItem item) ()
  let values ← readLocals
  vecDeallocate values.pointer values.storageCapacity

/-! ## Two vectors -/

/-- A part of the variables is borrowed. -/
def borrowing {V W α : Type} (part : V → W) (put : V → W → V) (action : Machine T W α) :
    Machine T V α := fun state =>
  match action { state with locals := part state.locals } with
  | .ok result after => .ok result { after with locals := put state.locals after.locals }
  | .error stop after =>
    .error stop { after with locals := put state.locals after.locals }

/-- The elements of the second vector move behind those of the first one. -/
def vecAppend : Machine T (Vec × Vec) Unit := do
  let before ← readLocals
  borrowing Prod.fst (fun both values => (values, both.2))
    (vecReserve allocates before.2.length)
  let reserved ← readLocals
  moveElements before.2.pointer reserved.1.pointer before.2.length (addU64 before.1.length)
  let length ← addU64 before.1.length before.2.length
  assign fun both => ({ both.1 with length := length }, both.2)
  assign fun both => (both.1, { both.2 with length := 0 })

end

/-! ## Programs -/

inductive Owner where
  | vec (values : Vec)
  | iterator (values : VecIntoIter)

def Owner.pointer : Owner → Nat
  | .vec values => values.pointer
  | .iterator values => values.pointer

/-- A variable is empty when its value has moved away. -/
abbrev Variables := List (Option Owner)

/-- The operations. A new value is bound to the next variable. -/
inductive Operation (T : Type) where
  | new
  | withCapacity (cap : Nat)
  | len (slot : Nat)
  | isEmpty (slot : Nat)
  | index (slot key : Nat)
  | get (slot i : Nat)
  | reserve (slot additional : Nat)
  | push (slot : Nat) (val : T)
  | replace (slot i : Nat) (val : T)
  | pop (slot : Nat)
  | truncate (slot newLength : Nat)
  | clear (slot : Nat)
  | swapRemove (slot i : Nat)
  | swap (slot left right : Nat)
  | reverse (slot : Nat)
  | insert (slot i : Nat) (val : T)
  | remove (slot i : Nat)
  | append (slot other : Nat)
  | shrinkToFit (slot : Nat)
  | take (slot : Nat)
  | intoIter (slot : Nat)
  | next (slot : Nat)
  | drop (slot : Nat)

/-- What an operation returns. A borrowed element stays in its vector. -/
inductive Answer (T : Type) where
  | done
  | count (length : Nat)
  | flag (answer : Bool)
  | borrowed (element : Option T)
  | element (element : Option T)

section
variable {T : Type}

def onVec {α : Type} (slot : Nat) (action : Machine T Vec α) : Machine T Variables α := fun state =>
  match state.locals[slot]? with
  | some (some (.vec values)) =>
    borrowing (fun _ => values)
      (fun owners values => owners.set slot (some (.vec values))) action state
  | _ => .error .fault state

def onIterator {α : Type} (slot : Nat) (action : Machine T VecIntoIter α) :
    Machine T Variables α := fun state =>
  match state.locals[slot]? with
  | some (some (.iterator values)) =>
    borrowing (fun _ => values)
      (fun owners values => owners.set slot (some (.iterator values))) action state
  | _ => .error .fault state

def onVecs {α : Type} (slot other : Nat) (action : Machine T (Vec × Vec) α) :
    Machine T Variables α := fun state =>
  match state.locals[slot]?, state.locals[other]? with
  | some (some (.vec values)), some (some (.vec others)) =>
    borrowing (fun _ => (values, others))
      (fun owners both =>
        (owners.set slot (some (.vec both.1))).set other (some (.vec both.2)))
      action state
  | _, _ => .error .fault state

def bindOwner (owner : Owner) : Machine T Variables Unit :=
  assign fun owners => owners ++ [some owner]

def moveAway (slot : Nat) : Machine T Variables Unit := assign fun owners => owners.set slot none

variable [Stored T]

/-- A variable goes out of scope. -/
def dropVariable (slot : Nat) : Machine T Variables Unit := fun state =>
  match state.locals[slot]? with
  | some (some (.vec _)) => (onVec slot vecDrop >>= fun _ => moveAway slot) state
  | some (some (.iterator _)) => (onIterator slot iteratorDrop >>= fun _ => moveAway slot) state
  | _ => .error .fault state

variable (allocates : Memory T → Nat → Bool)

def execute : Operation T → Machine T Variables (Answer T)
  | .new => do
    let values ← vecNew allocates
    bindOwner (.vec values)
    pure .done
  | .withCapacity cap => do
    let values ← vecWithCapacity allocates cap
    bindOwner (.vec values)
    pure .done
  | .len slot => onVec slot do
      let values ← readLocals
      pure (.count values.length)
  | .isEmpty slot => onVec slot do
      let values ← readLocals
      pure (.flag (decide (values.length = 0)))
  | .index slot key => onVec slot do
      let val ← vecAt key
      pure (.borrowed (some val))
  | .get slot i => onVec slot do
      let val ← vecGet i
      pure (.borrowed val)
  | .reserve slot additional => onVec slot do
      vecReserve allocates additional
      pure .done
  | .push slot val => onVec slot do
      vecPush allocates val
      pure .done
  | .replace slot i val => onVec slot do
      let prev ← vecReplace i val
      pure (.element (some prev))
  | .pop slot => onVec slot do
      let val ← vecPop
      pure (.element val)
  | .truncate slot newLength => onVec slot do
      vecTruncate newLength
      pure .done
  | .clear slot => onVec slot do
      vecClear
      pure .done
  | .swapRemove slot i => onVec slot do
      let removed ← vecSwapRemove i
      pure (.element (some removed))
  | .swap slot left right => onVec slot do
      vecSwap left right
      pure .done
  | .reverse slot => onVec slot do
      vecReverse
      pure .done
  | .insert slot i val => onVec slot do
      vecInsert allocates i val
      pure .done
  | .remove slot i => onVec slot do
      let removed ← vecRemove i
      pure (.element (some removed))
  | .append slot other => onVecs slot other do
      vecAppend allocates
      pure .done
  | .shrinkToFit slot => onVec slot do
      vecShrinkToFit allocates
      pure .done
  | .take slot => do
    let prev ← onVec slot (vecTake allocates)
    bindOwner (.vec prev)
    pure .done
  | .intoIter slot => do
    let values ← onVec slot readLocals
    moveAway slot
    bindOwner (.iterator values.intoIter)
    pure .done
  | .next slot => onIterator slot do
      let val ← iteratorNext
      pure (.element val)
  | .drop slot => do
    dropVariable slot
    pure .done

def run : List (Operation T) → Machine T Variables (List (Answer T))
  | [] => pure []
  | operation :: rest => do
    let answer ← execute allocates operation
    let answers ← run rest
    pure (answer :: answers)

end

end Salicin.Vectors
