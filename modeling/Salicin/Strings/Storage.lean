import Salicin.Strings.Memory
import Salicin.Strings.Scalars

/-!
# Operations on strings

The functions of `core/src/string.sc` and `alloc/src/string.sc` that allocate, write or release
the storage of a string, and those of `alloc/src/vec.sc` that they rest on.
-/

namespace Salicin.Strings

/-- The loops that carry bytes from one place to another. -/
def forBytes (read : Nat → Machine UInt8) (write : Nat → UInt8 → Machine Unit) :
    Nat → Nat → Machine Unit
  | 0, _ => pure ()
  | remaining + 1, index => do
    let byte ← read index
    write index byte
    forBytes read write remaining (index + 1)

/-- The doubling loop of the reserving functions, with a bound on its turns. -/
def grownCapacity (required : Nat) : Nat → Nat → Option Nat
  | 0, _ => none
  | turns + 1, capacity =>
    if capacity < required then
      grownCapacity required turns
        (if capacity > 9223372036854775807 then required else capacity * 2)
    else some capacity

/-- Borrowed text or bytes. -/
structure View where
  data : Nat
  offset : Nat
  length : Nat

def Buffer.view (buffer : Buffer) : View := ⟨buffer.data, 0, buffer.length⟩

/-- `byte_at` on a slice in memory. -/
def View.at (view : View) (index : Nat) : Machine UInt8 :=
  if index < view.length then rawRead view.data (view.offset + index) else throw .trap

/-- `string_is_char_boundary` and `str.is_char_boundary` differ in how they read. -/
def isCharBoundary (read : Nat → Machine UInt8) (length index : Nat) : Machine Bool :=
  if index = 0 ∨ index = length then pure true
  else if index > length then pure false
  else do
    let byte ← read index
    pure (!isContinuation byte)

def stringIsCharBoundary (val : Buffer) (index : Nat) : Machine Bool :=
  isCharBoundary (rawRead val.data) val.length index

/-- `str.get` -/
def View.get (view : View) (start finish : Nat) : Machine (Option View) :=
  if start > finish then pure none
  else do
    if !(← isCharBoundary view.at view.length start) then pure none
    else if !(← isCharBoundary view.at view.length finish) then pure none
    else pure (some ⟨view.data, view.offset + start, finish - start⟩)

def loadFrom (view : View) : Nat → Nat → Machine (List UInt8)
  | 0, _ => pure []
  | remaining + 1, index => do
    let byte ← view.at index
    let rest ← loadFrom view remaining (index + 1)
    pure (byte :: rest)

/-- `utf8_error_offset` on a slice in memory. -/
def View.firstInvalidUtf8 (view : View) : Machine (Option Nat) := do
  let bytes ← loadFrom view view.length 0
  match utf8ErrorOffset bytes with
  | some answer => pure answer
  | none => throw .trap

/-- Borrowed text as safe code obtains it: a part of a string, or of a vector whose bytes are
valid. -/
structure Source where
  slot : Nat
  start : Nat
  finish : Nat

def borrowStr (source : Source) : Machine (Option View) := do
  let owner ← ownerAt source.slot
  match owner.kind with
  | .string => owner.buffer.view.get source.start source.finish
  | .bytes => do
    match ← owner.buffer.view.firstInvalidUtf8 with
    | some _ => pure none
    | none => owner.buffer.view.get source.start source.finish

/-- The literal `""`, which the program has among its static storage. -/
def emptyString : Buffer := ⟨0, 0, 0⟩

section
variable (allocates : List Block → Nat → Bool)

def releaseWhen (releases : Bool) (val : Buffer) : Machine Unit :=
  if releases then rawDealloc val.data val.storageCapacity else pure ()

/-- The growing part of the reserving functions: the bytes move to a new block. -/
def regrow (releases : Bool) (slot : Nat) (owner : Owner) (newCapacity : Nat) : Machine Unit := do
  let newData ← rawAlloc allocates newCapacity
  forBytes (rawRead owner.buffer.data) (rawInit newData) owner.buffer.length 0
  releaseWhen releases owner.buffer
  storeOwner slot (some ⟨owner.kind, ⟨newData, owner.buffer.length, newCapacity⟩⟩)

/-- `string_reserve` and `vec_reserve` differ in when they release the old storage. -/
def reserveWith (releases : Buffer → Bool) (slot additional : Nat) : Machine Unit := do
  let owner ← ownerAt slot
  if additional > u64Max - owner.buffer.length then throw .trap
  else if owner.buffer.length + additional > owner.buffer.storageCapacity then
    match grownCapacity (owner.buffer.length + additional)
      (owner.buffer.length + additional + 1)
      (if owner.buffer.storageCapacity = 0 then 1 else owner.buffer.storageCapacity) with
    | none => throw .fault
    | some newCapacity => regrow allocates (releases owner.buffer) slot owner newCapacity
  else pure ()

def stringReserve (slot additional : Nat) : Machine Unit :=
  reserveWith allocates (fun val => val.storageCapacity != 0) slot additional

def vecReserve (slot additional : Nat) : Machine Unit :=
  reserveWith allocates (fun _ => true) slot additional

/-- `string_push_byte`, and what `vec_push` does behind its reservation. -/
def pushByte (slot : Nat) (byte : UInt8) : Machine Unit := do
  let owner ← ownerAt slot
  rawInit owner.buffer.data owner.buffer.length byte
  storeOwner slot
    (some ⟨owner.kind, { owner.buffer with length := owner.buffer.length + 1 }⟩)

def pushBytes (slot : Nat) : List UInt8 → Machine Unit
  | [] => pure ()
  | byte :: rest => do
    pushByte slot byte
    pushBytes slot rest

def vecPush (slot : Nat) (byte : UInt8) : Machine Unit := do
  vecReserve allocates slot 1
  pushByte slot byte

def vecWithCapacity (capacity : Nat) : Machine Buffer := do
  let pointer ← rawAlloc allocates capacity
  pure ⟨pointer, 0, capacity⟩

/-- The elements are taken out before the storage is released. -/
def vecDrop (val : Buffer) : Machine Unit := do
  forBytes (rawRead val.data) (fun _ _ => pure ()) val.length 0
  rawDealloc val.data val.storageCapacity

def stringDrop (val : Buffer) : Machine Unit := releaseWhen (val.storageCapacity != 0) val

def dropOwner (owner : Owner) : Machine Unit :=
  match owner.kind with
  | .string => stringDrop owner.buffer
  | .bytes => vecDrop owner.buffer

def stringWithCapacity (capacity : Nat) : Machine Buffer :=
  if capacity = 0 then pure emptyString
  else do
    let data ← rawAlloc allocates capacity
    pure ⟨data, 0, capacity⟩

def stringCopyFromStr (val : View) : Machine Buffer :=
  if val.length = 0 then pure emptyString
  else do
    let data ← rawAlloc allocates val.length
    forBytes val.at (rawInit data) val.length 0
    pure ⟨data, val.length, val.length⟩

def pushStr (slot : Nat) (val : View) : Machine Unit := do
  stringReserve allocates slot val.length
  forBytes val.at (fun _ => pushByte slot) val.length 0

/-- The bytes of a scalar are computed one after the other as they are pushed. -/
def push (slot : Nat) (scalar : UnicodeScalar) : Machine Unit := do
  stringReserve allocates slot scalar.lenUtf8
  match scalarBytes scalar with
  | none => throw .trap
  | some bytes => pushBytes slot bytes

def fromUnicodeScalar (scalar : UnicodeScalar) : Machine Unit := do
  let val ← stringWithCapacity allocates scalar.lenUtf8
  let slot ← bindOwner ⟨.string, val⟩
  push allocates slot scalar

def truncate (slot newLength : Nat) : Machine Bool := do
  let owner ← ownerAt slot
  if !(← stringIsCharBoundary owner.buffer newLength) then pure false
  else do
    storeOwner slot (some ⟨owner.kind, { owner.buffer with length := newLength }⟩)
    pure true

def clear (slot : Nat) : Machine Unit := do
  let owner ← ownerAt slot
  storeOwner slot (some ⟨owner.kind, { owner.buffer with length := 0 }⟩)

/-- The value made from a consumed variable takes its slot. Rejected bytes stay in theirs: the
error owns them. -/
def stringFromUtf8 (slot : Nat) : Machine (Option Nat) := do
  let bytes ← ownerAt slot
  match ← bytes.buffer.view.firstInvalidUtf8 with
  | some validUpTo => pure (some validUpTo)
  | none =>
    if bytes.buffer.length = 0 then do
      vecDrop bytes.buffer
      storeOwner slot (some ⟨.string, emptyString⟩)
      pure none
    else do
      storeOwner slot (some ⟨.string, bytes.buffer⟩)
      pure none

def stringIntoBytes (slot : Nat) : Machine Unit := do
  let parts ← ownerAt slot
  if parts.buffer.storageCapacity = 0 then do
    let bytes ← vecWithCapacity allocates parts.buffer.length
    storeOwner slot (some ⟨.bytes, bytes⟩)
    forBytes (rawRead parts.buffer.data) (fun _ => vecPush allocates slot) parts.buffer.length 0
  else storeOwner slot (some ⟨.bytes, parts.buffer⟩)

/-! ## Programs -/

/-- A call in a program. `substring` is `fromStr` of a part of a string. -/
inductive Operation where
  | literal (index : Nat)
  | new
  | withCapacity (capacity : Nat)
  | fromStr (source : Source)
  | fromUnicodeScalar (scalar : UnicodeScalar)
  | reserve (slot additional : Nat)
  | pushStr (slot : Nat) (source : Source)
  | push (slot : Nat) (scalar : UnicodeScalar)
  | truncate (slot newLength : Nat)
  | clear (slot : Nat)
  | fromUtf8 (slot : Nat)
  | intoBytes (slot : Nat)
  | vecWithCapacity (capacity : Nat)
  | vecPush (slot : Nat) (byte : UInt8)
  | drop (slot : Nat)

inductive Answer where
  | done
  | flag (val : Bool)
  | absent
  | rejected (validPrefix : Nat)

/-- The answers by which an operation says that it has failed. -/
def Answer.Failed : Answer → Prop
  | .done => False
  | .flag val => val = false
  | .absent => True
  | .rejected _ => True

/-- A literal expression, with the representation that the compiler gives it. -/
def stringLiteral (index : Nat) : Machine Buffer := fun world =>
  match world.memory[index]? with
  | some (.literal bytes) => .ok ⟨index, bytes.length, 0⟩ world
  | _ => .error .fault world

/-- A variable for the value that an expression makes. -/
def bindResult (kind : Kind) (val : Machine Buffer) : Machine Answer := do
  let buffer ← val
  let _ ← bindOwner ⟨kind, buffer⟩
  pure .done

def answerDone (action : Machine Unit) : Machine Answer := do
  action
  pure .done

/-- A call with borrowed text, which is not made where `get` has none. -/
def withStr (source : Source) (call : View → Machine Answer) : Machine Answer := do
  match ← borrowStr source with
  | none => pure .absent
  | some view => call view

def run : Operation → Machine Answer
  | .literal index => bindResult .string (stringLiteral index)
  | .new => bindResult .string (pure emptyString)
  | .withCapacity capacity => bindResult .string (stringWithCapacity allocates capacity)
  | .fromStr source =>
    withStr source fun view => bindResult .string (stringCopyFromStr allocates view)
  | .fromUnicodeScalar scalar => answerDone (fromUnicodeScalar allocates scalar)
  | .reserve slot additional => answerDone (stringReserve allocates slot additional)
  | .pushStr slot source => withStr source fun view => answerDone (pushStr allocates slot view)
  | .push slot scalar => answerDone (push allocates slot scalar)
  | .truncate slot newLength => do
    let val ← truncate slot newLength
    pure (.flag val)
  | .clear slot => answerDone (clear slot)
  | .fromUtf8 slot => do
    match ← stringFromUtf8 slot with
    | some validPrefix => pure (.rejected validPrefix)
    | none => pure .done
  | .intoBytes slot => answerDone (stringIntoBytes allocates slot)
  | .vecWithCapacity capacity => bindResult .bytes (vecWithCapacity allocates capacity)
  | .vecPush slot byte => answerDone (vecPush allocates slot byte)
  | .drop slot => do
    let owner ← ownerAt slot
    dropOwner owner
    storeOwner slot none
    pure .done

end

/-- What the compiler checks of a call: its variables are live and of the right type, borrowed
text is not the string that is written, and scalars are values of their type. -/
def Fits (statics : List (List UInt8)) (world : World) : Operation → Prop
  | .literal index => index < statics.length
  | .new => True
  | .withCapacity _ => True
  | .fromStr source => ∃ owner, world.owners[source.slot]? = some (some owner)
  | .fromUnicodeScalar scalar => scalar.Valid
  | .reserve slot _ => ∃ val, world.owners[slot]? = some (some ⟨.string, val⟩)
  | .pushStr slot source =>
    (∃ val, world.owners[slot]? = some (some ⟨.string, val⟩)) ∧ source.slot ≠ slot ∧
      ∃ owner, world.owners[source.slot]? = some (some owner)
  | .push slot scalar =>
    (∃ val, world.owners[slot]? = some (some ⟨.string, val⟩)) ∧ scalar.Valid
  | .truncate slot _ => ∃ val, world.owners[slot]? = some (some ⟨.string, val⟩)
  | .clear slot => ∃ val, world.owners[slot]? = some (some ⟨.string, val⟩)
  | .fromUtf8 slot => ∃ val, world.owners[slot]? = some (some ⟨.bytes, val⟩)
  | .intoBytes slot => ∃ val, world.owners[slot]? = some (some ⟨.string, val⟩)
  | .vecWithCapacity _ => True
  | .vecPush slot _ => ∃ val, world.owners[slot]? = some (some ⟨.bytes, val⟩)
  | .drop slot => ∃ owner, world.owners[slot]? = some (some owner)

/-- The bytes of the literals of a program, with the empty one first. -/
def staticTexts (literals : List (List Char)) : List (List UInt8) :=
  [] :: literals.map fun characters => characters.flatMap String.utf8EncodeChar

/-- A program begins with its static storage and no variables. -/
def World.initial (literals : List (List Char)) : World := ⟨(staticTexts literals).map .literal, []⟩

/-- The worlds between the calls of a program. -/
inductive Reachable (allocates : List Block → Nat → Bool) (literals : List (List Char)) :
    World → Prop
  | initial : Reachable allocates literals (.initial literals)
  | step {world next : World} (operation : Operation) (answer : Answer)
      (hworld : Reachable allocates literals world)
      (hfits : Fits (staticTexts literals) world operation)
      (hrun : run allocates operation world = .ok answer next) :
      Reachable allocates literals next

end Salicin.Strings
