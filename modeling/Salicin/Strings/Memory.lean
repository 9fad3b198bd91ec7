import Mathlib.Data.UInt

/-!
# Memory behind strings and byte vectors

Static and allocated storage, the raw operations on it, and the values of a program that are
live. A borrowed variable is the number of its slot.
-/

namespace Salicin.Strings

open Nat Option

/-- Storage under one address. Bytes that are not initialized yet hold no value. -/
inductive Block where
  | literal (bytes : List UInt8)
  | allocated (cells : List (Option UInt8))
  | freed

def Block.cell : Block → Nat → Option UInt8
  | .literal bytes, offset => bytes[offset]?
  | .allocated cells, offset => cells[offset]?.join
  | .freed, _ => none

/-- The types `string` and `vec(u8)`. -/
inductive Kind where
  | string
  | bytes
deriving DecidableEq

/-- Both types have the same fields. -/
structure Buffer where
  data : Nat
  length : Nat
  storageCapacity : Nat

structure Owner where
  kind : Kind
  buffer : Buffer

/-- The variables of a program. A slot is empty when its value has moved away. -/
structure World where
  memory : List Block
  owners : List (Option Owner)

/-- Why a program ends early: it traps, or it does what the language leaves undefined. -/
inductive Stop where
  | trap
  | fault

/-- An operation. The world is kept when it stops. -/
abbrev Machine := EStateM Stop World

/-! ## Raw operations -/

def rawRead (block offset : Nat) : Machine UInt8 := fun world =>
  match (world.memory[block]?).bind (fun storage => storage.cell offset) with
  | some byte => .ok byte world
  | none => .error .fault world

/-- Static storage may not be written. -/
def rawInit (block offset : Nat) (byte : UInt8) : Machine Unit := fun world =>
  match world.memory[block]? with
  | some (.allocated cells) =>
    if offset < cells.length then
      .ok () { world with
        memory := world.memory.set block (.allocated (cells.set offset (some byte))) }
    else .error .fault world
  | _ => .error .fault world

def u64Max : Nat := 18446744073709551615

/-- The allocator aborts the program when it finds no room. -/
def rawAlloc (allocates : List Block → Nat → Bool) (size : Nat) : Machine Nat := fun world =>
  if size ≤ u64Max ∧ allocates world.memory size = true then
    .ok world.memory.length { world with
      memory := world.memory ++ [.allocated (List.replicate size none)] }
  else .error .trap world

/-- Storage is released once, with the size of its allocation. -/
def rawDealloc (block size : Nat) : Machine Unit := fun world =>
  match world.memory[block]? with
  | some (.allocated cells) =>
    if cells.length = size then .ok () { world with memory := world.memory.set block .freed }
    else .error .fault world
  | _ => .error .fault world

/-! ## Variables -/

def ownerAt (slot : Nat) : Machine Owner := fun world =>
  match world.owners[slot]? with
  | some (some owner) => .ok owner world
  | _ => .error .fault world

def storeOwner (slot : Nat) (owner : Option Owner) : Machine Unit := fun world =>
  .ok () { world with owners := world.owners.set slot owner }

def bindOwner (owner : Owner) : Machine Nat := fun world =>
  .ok world.owners.length { world with owners := world.owners ++ [some owner] }

section
variable {α β : Type} {first : Machine α} {rest : α → Machine β} {world world' : World}

theorem run_bind {val : α} (hfst : first world = .ok val world') :
    (first >>= rest) world = rest val world' := by
  change EStateM.bind first rest world = _
  rw [EStateM.bind, hfst]

theorem run_bind_error {stop : Stop} (hfst : first world = .error stop world') :
    (first >>= rest) world = .error stop world' := by
  change EStateM.bind first rest world = _
  rw [EStateM.bind, hfst]

end

/-! ## What a variable holds -/

/-- A vector owns its storage, also an empty one. A string does when its capacity is not zero. -/
def Owner.storage (owner : Owner) : Option Nat :=
  if owner.kind = .bytes ∨ owner.buffer.storageCapacity ≠ 0 then some owner.buffer.data else none

/-- The bytes below the length of a variable. -/
inductive Holds (statics : List (List UInt8)) (mem : List Block) : Owner → List UInt8 → Prop
  | static {data length : Nat} {bytes : List UInt8} (hstatic : statics[data]? = some bytes)
      (hblock : mem[data]? = some (.literal bytes)) (hlen : length ≤ bytes.length) :
      Holds statics mem ⟨.string, ⟨data, length, 0⟩⟩ (bytes.take length)
  | owned {kind : Kind} {data capacity : Nat} {cells : List (Option UInt8)} {text : List UInt8}
      (howned : kind = .bytes ∨ capacity ≠ 0)
      (hblock : mem[data]? = some (.allocated cells)) (hcap : cells.length = capacity)
      (hbound : capacity ≤ u64Max) (hroom : text.length ≤ capacity)
      (hcells : cells.take text.length = text.map some) :
      Holds statics mem ⟨kind, ⟨data, text.length, capacity⟩⟩ text

variable {statics : List (List UInt8)} {mem : List Block} {owner : Owner} {text : List UInt8}

section
variable (hholds : Holds statics mem owner text)
include hholds

theorem Holds.length_eq : owner.buffer.length = text.length := by
  cases hholds with
  | static hstatic hblock hlen => rw [List.length_take, min_eq_left hlen]
  | owned howned hblock hcap hbound hroom hcells => rfl

theorem Holds.cell {index : Nat} (hidx : index < text.length) :
    (mem[owner.buffer.data]?).bind (fun storage => storage.cell index) = text[index]? := by
  cases hholds with
  | @static data length bytes hstatic hblock hlen =>
    rw [List.length_take, min_eq_left hlen] at hidx
    rw [hblock, bind_some, Block.cell, List.getElem?_take_of_lt hidx]
  | @owned kind data capacity cells text howned hblock hcap hbound hroom hcells =>
    have hcell : cells[index]? = (text.map some)[index]? := by
      rw [← hcells, List.getElem?_take_of_lt hidx]
    rw [hblock, bind_some, Block.cell, hcell, List.getElem?_map, List.getElem?_eq_getElem hidx]
    rfl

theorem Holds.allocated {block : Nat} (hstorage : owner.storage = some block) :
    owner.buffer.data = block ∧ text.length ≤ owner.buffer.storageCapacity ∧
      owner.buffer.storageCapacity ≤ u64Max ∧ ∃ cells, mem[block]? = some (.allocated cells) ∧
        cells.length = owner.buffer.storageCapacity ∧
        cells.take text.length = text.map some := by
  cases hholds with
  | static hstatic hblock hlen => simp [Owner.storage] at hstorage
  | @owned kind data capacity cells text howned hblock hcap hbound hroom hcells =>
    rw [Owner.storage, if_pos howned, some_inj] at hstorage
    subst hstorage
    exact ⟨rfl, hroom, hbound, cells, hblock, hcap, hcells⟩

theorem Holds.of_block {mem' : List Block}
    (hblock : mem'[owner.buffer.data]? = mem[owner.buffer.data]?) :
    Holds statics mem' owner text := by
  cases hholds with
  | static hstatic hliteral hlen => exact .static hstatic (hblock.trans hliteral) hlen
  | owned howned hcells hcap hbound hroom htext =>
    exact .owned howned (hblock.trans hcells) hcap hbound hroom htext

end

/-! ## The texts of a world -/

/-- What the program sees of its variables. -/
abbrev Texts := List (Option (Kind × List UInt8))

/-- A slot of the world and the text it stands for. -/
inductive HoldsSlot (statics : List (List UInt8)) (mem : List Block) :
    Option (Option Owner) → Option (Option (Kind × List UInt8)) → Prop
  | outside : HoldsSlot statics mem none none
  | moved : HoldsSlot statics mem (some none) (some none)
  | live {owner : Owner} {text : List UInt8} (hholds : Holds statics mem owner text) :
      HoldsSlot statics mem (some (some owner)) (some (some (owner.kind, text)))

/-- A world stands for texts. Its static storage is that of the program, and allocated storage
has one owner. -/
structure Represents (statics : List (List UInt8)) (world : World) (texts : Texts) : Prop where
  literals : ∀ {index : Nat} {bytes : List UInt8}, statics[index]? = some bytes →
    world.memory[index]? = some (.literal bytes)
  slots : ∀ slot : Nat, HoldsSlot statics world.memory world.owners[slot]? texts[slot]?
  unique : ∀ {slot slot' block : Nat} {owner owner' : Owner}, world.owners[slot]? = some (some owner) →
    world.owners[slot']? = some (some owner') → owner.storage = some block →
    owner'.storage = some block → slot = slot'
  accounted : ∀ {block : Nat} {cells : List (Option UInt8)}, world.memory[block]? = some (.allocated cells) →
    ∃ (slot : Nat) (owner : Owner), world.owners[slot]? = some (some owner) ∧
      owner.storage = some block

section
variable {statics : List (List UInt8)} {world : World} {texts : Texts}

section
variable (hworld : Represents statics world texts)
include hworld

theorem Represents.holds {slot : Nat} (hslot : world.owners[slot]? = some (some owner)) :
    ∃ text, texts[slot]? = some (some (owner.kind, text)) ∧ Holds statics world.memory owner text := by
  have hrel := hworld.slots slot
  rw [hslot] at hrel
  generalize htext : texts[slot]? = entry at hrel
  cases hrel with
  | live hholds => exact ⟨_, rfl, hholds⟩

/-- A slot gets a new value. Storage of other variables is kept, and what is allocated of the
old storage and behind the old memory belongs to the new value. -/
theorem Represents.replace {slot : Nat} {old new : Option Owner}
    {entry : Option (Kind × List UInt8)} (hslot : world.owners[slot]? = some old)
    (hkeep : ∀ block < world.memory.length, old.bind Owner.storage ≠ some block →
      mem[block]? = world.memory[block]?)
    (hentry : HoldsSlot statics mem (some new) (some entry))
    (hfrom : ∀ block : Nat, new.bind Owner.storage = some block →
      old.bind Owner.storage = some block ∨ world.memory.length ≤ block)
    (howned : ∀ (block : Nat) (cells : List (Option UInt8)), mem[block]? = some (.allocated cells) →
      old.bind Owner.storage = some block ∨ world.memory.length ≤ block →
      new.bind Owner.storage = some block) :
    Represents statics ⟨mem, world.owners.set slot new⟩ (texts.set slot entry) := by
  have hin : slot < world.owners.length := (List.getElem?_eq_some_iff.mp hslot).1
  have hself : (world.owners.set slot new)[slot]? = some new := List.getElem?_set_self hin
  have hother : ∀ {other : Nat}, slot ≠ other → (world.owners.set slot new)[other]? =
      world.owners[other]? := fun hne => List.getElem?_set_ne hne
  -- The storage of the old value is allocated and belongs to no other variable.
  have hold : ∀ {block : Nat}, old.bind Owner.storage = some block →
      ∃ owner, old = some owner ∧ owner.storage = some block ∧
        ∃ cells, world.memory[block]? = some (.allocated cells) := by
    intro block hstorage
    obtain ⟨owner, rfl, hstorage⟩ := bind_eq_some_iff.mp hstorage
    obtain ⟨text, _, hholds⟩ := hworld.holds hslot
    obtain ⟨_, _, _, cells, hcells, _⟩ := hholds.allocated hstorage
    exact ⟨owner, rfl, hstorage, cells, hcells⟩
  have hinside : ∀ {block : Nat} {storage : Block}, world.memory[block]? = some storage →
      block < world.memory.length := fun h => (List.getElem?_eq_some_iff.mp h).1
  have hliteral : ∀ {block : Nat} {bytes : List UInt8}, world.memory[block]? = some (.literal bytes) →
      mem[block]? = some (.literal bytes) := by
    intro block bytes hblock
    rw [← hblock]
    apply hkeep block (hinside hblock)
    intro hstorage
    obtain ⟨_, _, _, cells, hcells⟩ := hold hstorage
    rw [hblock] at hcells
    cases hcells
  have hothers : ∀ {other block : Nat} {owner : Owner}, slot ≠ other → world.owners[other]? = some (some owner) →
      owner.storage = some block → old.bind Owner.storage ≠ some block := by
    intro other block owner hne howner hstorage holdStorage
    obtain ⟨prev, rfl, hprev, _⟩ := hold holdStorage
    exact hne (hworld.unique hslot howner hprev hstorage)
  have hinside' : ∀ {other block : Nat} {owner : Owner}, world.owners[other]? = some (some owner) →
      owner.storage = some block → block < world.memory.length := by
    intro other block owner howner hstorage
    obtain ⟨text, _, hholds⟩ := hworld.holds howner
    obtain ⟨_, _, _, cells, hcells, _⟩ := hholds.allocated hstorage
    exact hinside hcells
  refine ⟨fun hstatic => hliteral (hworld.literals hstatic), fun other => ?_, ?_, ?_⟩
  · by_cases hne : slot = other
    · subst hne
      have hrel := hworld.slots slot
      rw [hslot] at hrel
      have hin' : slot < texts.length := by
        by_contra hout
        rw [List.getElem?_eq_none (Nat.le_of_not_lt hout)] at hrel
        cases hrel
      rw [hself, List.getElem?_set_self hin']
      exact hentry
    · rw [hother hne, List.getElem?_set_ne hne]
      have hrel := hworld.slots other
      generalize howner : world.owners[other]? = owner at hrel
      generalize htext : texts[other]? = text at hrel
      cases hrel with
      | outside => exact .outside
      | moved => exact .moved
      | live hholds =>
        refine .live (hholds.of_block ?_)
        cases hholds with
        | static hstatic hblock hlen => rw [hliteral hblock, hblock]
        | owned howned' hblock hcap hbound hroom hcells =>
          apply hkeep _ (hinside hblock)
          exact hothers hne howner (if_pos howned')
  · intro first second block owner owner' hfst hsnd hstorage hstorage'
    by_cases hslot₁ : slot = first
    · by_cases hslot₂ : slot = second
      · exact hslot₁.symm.trans hslot₂
      · subst hslot₁
        rw [hself, some_inj] at hfst
        rw [hother hslot₂] at hsnd
        subst hfst
        rcases hfrom block hstorage with holdStorage | hge
        · exact absurd holdStorage (hothers hslot₂ hsnd hstorage')
        · exact absurd (hinside' hsnd hstorage') (not_lt.mpr hge)
    · rw [hother hslot₁] at hfst
      by_cases hslot₂ : slot = second
      · subst hslot₂
        rw [hself, some_inj] at hsnd
        subst hsnd
        rcases hfrom block hstorage' with holdStorage | hge
        · exact absurd holdStorage (hothers hslot₁ hfst hstorage)
        · exact absurd (hinside' hfst hstorage) (not_lt.mpr hge)
      · rw [hother hslot₂] at hsnd
        exact hworld.unique hfst hsnd hstorage hstorage'
  · intro block cells hcells
    by_cases hmine : old.bind Owner.storage = some block ∨ world.memory.length ≤ block
    · obtain ⟨owner, rfl, hstorage⟩ := bind_eq_some_iff.mp (howned block cells hcells hmine)
      exact ⟨slot, owner, hself, hstorage⟩
    · obtain ⟨hne, hlt⟩ := not_or.mp hmine
      rw [hkeep block (Nat.lt_of_not_le hlt) hne] at hcells
      obtain ⟨other, owner, howner, hstorage⟩ := hworld.accounted hcells
      have hdifferent : slot ≠ other := by
        rintro rfl
        rw [hslot, some_inj] at howner
        subst howner
        exact hne hstorage
      exact ⟨other, owner, (hother hdifferent).trans howner, hstorage⟩

theorem Represents.length_eq : world.owners.length = texts.length := by
  have hfst := hworld.slots world.owners.length
  have hsnd := hworld.slots texts.length
  rw [List.getElem?_eq_none (le_refl world.owners.length)] at hfst
  rw [List.getElem?_eq_none (le_refl texts.length)] at hsnd
  generalize htext : texts[world.owners.length]? = entry at hfst
  generalize howner : world.owners[texts.length]? = entry' at hsnd
  cases hfst
  cases hsnd
  rw [List.getElem?_eq_none_iff] at htext howner
  omega

theorem Represents.vacant :
    Represents statics ⟨world.memory, world.owners ++ [none]⟩ (texts ++ [none]) := by
  have hlen := hworld.length_eq
  have hvacant : ∀ {slot : Nat} {owner : Owner}, (world.owners ++ [none])[slot]? = some (some owner) →
      world.owners[slot]? = some (some owner) := by
    intro slot owner howner
    by_cases hlt : slot < world.owners.length
    · rwa [List.getElem?_append_left hlt] at howner
    · rw [List.getElem?_append_right (Nat.le_of_not_lt hlt)] at howner
      cases hrest : slot - world.owners.length with
      | zero => rw [hrest] at howner; cases howner
      | succ more => rw [hrest] at howner; cases howner
  refine ⟨hworld.literals, fun slot => ?_, fun hfst hsnd =>
    hworld.unique (hvacant hfst) (hvacant hsnd), fun hcells => ?_⟩
  · by_cases hlt : slot < world.owners.length
    · rw [List.getElem?_append_left hlt, List.getElem?_append_left (hlen ▸ hlt)]
      exact hworld.slots slot
    · rw [List.getElem?_append_right (Nat.le_of_not_lt hlt),
        List.getElem?_append_right (hlen ▸ Nat.le_of_not_lt hlt), hlen]
      cases slot - texts.length with
      | zero => exact .moved
      | succ more => exact .outside
  · obtain ⟨slot, owner, howner, hstorage⟩ := hworld.accounted hcells
    refine ⟨slot, owner, ?_, hstorage⟩
    rw [List.getElem?_append_left (List.getElem?_eq_some_iff.mp howner).1]
    exact howner

end

end

end Salicin.Strings
