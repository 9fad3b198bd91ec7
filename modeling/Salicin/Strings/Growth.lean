import Salicin.Strings.Reading

/-!
# Growing storage

A reservation traps before it changes anything, or it keeps every text and makes room. With
room, a byte is put behind a text.
-/

namespace Salicin.Strings

open List

/-! ## Reservation -/

theorem grownCapacity_ok {required turns cap : Nat} (hpos : 0 < cap)
    (hturns : required ≤ cap + turns) :
    ∃ grown, grownCapacity required (turns + 1) cap = some grown ∧ required ≤ grown := by
  induction turns generalizing cap with
  | zero => exact ⟨cap, if_neg (Nat.not_lt.mpr hturns), hturns⟩
  | succ turns ih =>
    rw [grownCapacity]
    by_cases hlt : cap < required
    · rw [if_pos hlt]
      apply ih <;> split_ifs <;> omega
    · exact ⟨cap, if_neg hlt, Nat.le_of_not_lt hlt⟩

variable {statics : List (List UInt8)} {text : List UInt8} {owner : Owner}

theorem releaseWhen_ok (world : World) {releases : Bool}
    (hholds : Holds statics world.memory owner text)
    (hrels : releases = true ↔ owner.storage = some owner.buffer.data) :
    ∃ mem, releaseWhen releases owner.buffer world = .ok () { world with memory := mem } ∧
      mem.length = world.memory.length ∧
      (∀ block, owner.storage ≠ some block → mem[block]? = world.memory[block]?) ∧
      ∀ block cells, owner.storage = some block → mem[block]? ≠ some (.allocated cells) := by
  cases hrel : releases with
  | true =>
    have hstorage := hrels.mp hrel
    obtain ⟨_, _, _, cells, hcells, hcap, _⟩ := hholds.allocated hstorage
    refine ⟨world.memory.set owner.buffer.data .freed, ?_, length_set, ?_, ?_⟩
    · rw [releaseWhen, if_pos rfl, ← hcap, rawDealloc_ok hcells]
    · intro block hne
      apply List.getElem?_set_ne
      rintro rfl
      exact hne hstorage
    · intro block others hblock
      rw [hstorage, Option.some_inj] at hblock
      rw [← hblock, List.getElem?_set_self (List.getElem?_eq_some_iff.mp hcells).1]
      intro h
      cases h
  | false =>
    refine ⟨world.memory, by rw [releaseWhen, if_neg Bool.false_ne_true]; rfl, rfl,
      fun _ _ => rfl, fun block cells hblock => ?_⟩
    obtain ⟨hdata, _⟩ := hholds.allocated hblock
    rw [← hdata] at hblock
    rw [hrels.mpr hblock] at hrel
    cases hrel

theorem forBytes_fresh (world : World) (read : Nat → Machine UInt8) (text : List UInt8)
    (cap : Nat) (hroom : text.length ≤ cap)
    (hread : ∀ (i : Nat) (hidx : i < text.length) (mem : List Block),
      (∀ block < world.memory.length, mem[block]? = world.memory[block]?) →
      read i { world with memory := mem } = .ok text[i] { world with memory := mem }) :
    ∃ mem, forBytes read (rawInit world.memory.length) text.length 0
        { world with
          memory := world.memory ++ [Block.allocated (List.replicate cap none)] } =
          .ok () { world with memory := mem } ∧
      mem.length = world.memory.length + 1 ∧
      (∀ block < world.memory.length, mem[block]? = world.memory[block]?) ∧
      mem[world.memory.length]? =
        some (.allocated (text.map some ++ List.replicate (cap - text.length) none)) := by
  have hfront : ∀ (storage : Block) (block : Nat), block < world.memory.length →
      ((world.memory ++ [Block.allocated (List.replicate cap none)]).set
        world.memory.length storage)[block]? = world.memory[block]? := by
    intro storage block hlt
    rw [getElem?_set_ne (by omega), getElem?_append_left hlt]
  have hlen : world.memory.length <
      (world.memory ++ [Block.allocated (List.replicate cap none)]).length := by
    rw [length_append, length_singleton]
    omega
  have hcopy := forBytes_copy read
    { world with memory := world.memory ++ [Block.allocated (List.replicate cap none)] }
    world.memory.length (List.replicate cap none) text
    getElem?_concat_length
    (by rw [length_replicate]; exact hroom)
    (fun i hidx storage => hread i hidx _ (hfront storage))
  refine ⟨_, hcopy, ?_, hfront _, ?_⟩
  · rw [length_set, length_append, length_singleton]
  · rw [getElem?_set_self hlen, drop_replicate]

variable {world : World} {texts : Texts} {slot : Nat}

theorem Represents.fresh (hworld : Represents statics world texts) {old : Option Owner}
    {mem : List Block} (kind : Kind) {spare : List (Option UInt8)}
    (hslot : world.owners[slot]? = some old) (hlen : mem.length = world.memory.length + 1)
    (hkeep : ∀ block < world.memory.length, old.bind Owner.storage ≠ some block →
      mem[block]? = world.memory[block]?)
    (hreleased : ∀ (block : Nat) (cells : List (Option UInt8)),
      old.bind Owner.storage = some block → mem[block]? ≠ some (.allocated cells))
    (hfresh : mem[world.memory.length]? = some (.allocated (text.map some ++ spare)))
    (howned : kind = .bytes ∨ text.length + spare.length ≠ 0)
    (hbound : text.length + spare.length ≤ u64Max) :
    Represents statics
      ⟨mem, world.owners.set slot (some ⟨kind, ⟨world.memory.length, text.length,
        text.length + spare.length⟩⟩)⟩
      (texts.set slot (some (kind, text))) := by
  have hstorage : ∀ block, Owner.storage ⟨kind, ⟨world.memory.length, text.length,
      text.length + spare.length⟩⟩ = some block ↔ world.memory.length = block := by
    intro block
    rw [Owner.storage, if_pos howned, Option.some_inj]
  have hcells : (text.map some ++ spare).take text.length = text.map some := by
    rw [take_append_of_le_length (by rw [length_map]), take_of_length_le (by rw [length_map])]
  apply hworld.replace hslot hkeep
  · exact .live (.owned howned hfresh (by rw [length_append, length_map]) hbound
      (Nat.le_add_right _ _) hcells)
  · intro block hblock
    exact .inr ((hstorage block).mp hblock).le
  · rintro block cells hblock (hold | hge)
    · exact absurd hblock (hreleased block cells hold)
    · have hlt := (List.getElem?_eq_some_iff.mp hblock).1
      exact (hstorage block).mpr (by omega)

theorem regrow_ok (hworld : Represents statics world texts) (allocates : List Block → Nat → Bool)
    {releases : Bool} (hslot : world.owners[slot]? = some (some owner))
    (hrels : releases = true ↔ owner.storage = some owner.buffer.data) {cap : Nat}
    (hroom : owner.buffer.length ≤ cap) (hpos : 0 < cap) :
    regrow allocates releases slot owner cap world = .error .trap world ∨
    ∃ next data, regrow allocates releases slot owner cap world = .ok () next ∧
      Represents statics next texts ∧
      next.owners = world.owners.set slot
        (some ⟨owner.kind, ⟨data, owner.buffer.length, cap⟩⟩) := by
  obtain ⟨text, htext, hholds⟩ := hworld.holds hslot
  have hlen : owner.buffer.length = text.length := hholds.length_eq
  have hdata : owner.buffer.data < world.memory.length := hholds.data_lt
  rw [regrow]
  rcases rawAlloc_cases world allocates cap with hrefused | ⟨hbound, halloc⟩
  · exact .inl (run_bind_error hrefused)
  right
  obtain ⟨copied, hcopy, hcopied, hfront, hfresh⟩ := forBytes_fresh world
    (rawRead owner.buffer.data) text cap (by omega)
    (fun i hidx mem hmemory => rawRead_ok (by
      rw [hmemory _ hdata, hholds.cell hidx, getElem?_eq_getElem hidx]))
  have hstill : Holds statics copied owner text := hholds.of_block (hfront _ hdata)
  obtain ⟨mem, hrel, hmemory, hkept, hreleased⟩ :=
    releaseWhen_ok { world with memory := copied } hstill hrels
  have hnew : mem[world.memory.length]? =
      some (.allocated (text.map some ++ List.replicate (cap - text.length) none)) := by
    rw [hkept, hfresh]
    intro hstorage
    have hblock := (hholds.allocated hstorage).1
    omega
  have hcap : text.length + (List.replicate (cap - text.length)
      (none : Option UInt8)).length = cap := by
    rw [length_replicate]
    omega
  have hnext := hworld.fresh owner.kind hslot (by rw [hmemory, hcopied])
    (fun block hlt hne => (hkept block hne).trans (hfront block hlt)) hreleased hnew
    (.inr (by omega)) (by omega)
  rw [set_of_getElem? htext, hcap] at hnext
  refine ⟨_, world.memory.length, ?_, hnext, by rw [hlen]⟩
  rw [run_bind halloc, hlen, run_bind hcopy, run_bind hrel]
  rfl

/-- The reservation traps before it changes anything, or the variable holds its text with room
for more. -/
theorem reserveWith_ok (hworld : Represents statics world texts)
    (allocates : List Block → Nat → Bool) {releases : Buffer → Bool}
    (hslot : world.owners[slot]? = some (some owner))
    (hrels : releases owner.buffer = true ↔ owner.storage = some owner.buffer.data)
    (additional : Nat) :
    reserveWith allocates releases slot additional world = .error .trap world ∨
    ∃ next reserved, reserveWith allocates releases slot additional world = .ok () next ∧
      Represents statics next texts ∧
      next.owners = world.owners.set slot (some ⟨owner.kind, reserved⟩) ∧
      reserved.length = owner.buffer.length ∧
      owner.buffer.length + additional ≤ reserved.storageCapacity := by
  rw [reserveWith, run_bind (ownerAt_ok hslot)]
  by_cases hoverflow : additional > u64Max - owner.buffer.length
  · exact .inl (by rw [if_pos hoverflow]; rfl)
  rw [if_neg hoverflow]
  by_cases hgrow : owner.buffer.length + additional > owner.buffer.storageCapacity
  swap
  · exact .inr ⟨world, owner.buffer, by rw [if_neg hgrow]; rfl, hworld,
      (set_of_getElem? hslot).symm, rfl, Nat.le_of_not_lt hgrow⟩
  have hstart : 0 < if owner.buffer.storageCapacity = 0 then 1
      else owner.buffer.storageCapacity := by
    split_ifs <;> omega
  obtain ⟨cap, hcap, hroom⟩ := grownCapacity_ok hstart
    (Nat.le_add_left (owner.buffer.length + additional) _)
  rw [if_pos hgrow]
  simp only [hcap]
  have hfits : owner.buffer.length ≤ cap ∧ 0 < cap := by omega
  rcases regrow_ok hworld allocates hslot hrels hfits.1 hfits.2 with
    htrap | ⟨next, data, hregrow, hnext, howners⟩
  · exact .inl htrap
  · exact .inr ⟨next, _, hregrow, hnext, howners, rfl, hroom⟩

theorem storage_iff : owner.storage = some owner.buffer.data ↔
    owner.kind = .bytes ∨ owner.buffer.storageCapacity ≠ 0 := by
  rw [Owner.storage]
  split_ifs with h
  · exact iff_of_true rfl h
  · exact iff_of_false (fun h => by cases h) h

/-! ## Appending -/

theorem pushByte_ok (hworld : Represents statics world texts)
    (hslot : world.owners[slot]? = some (some owner))
    (htext : texts[slot]? = some (some (owner.kind, text)))
    (hroom : owner.buffer.length < owner.buffer.storageCapacity) (byte : UInt8) :
    ∃ next, pushByte slot byte world = .ok () next ∧
      Represents statics next (texts.set slot (some (owner.kind, text ++ [byte]))) ∧
      next.owners = world.owners.set slot
        (some ⟨owner.kind, { owner.buffer with length := owner.buffer.length + 1 }⟩) := by
  obtain ⟨other, hother, hholds⟩ := hworld.holds hslot
  obtain rfl : text = other := by
    rw [htext] at hother
    cases hother
    rfl
  have hlen : owner.buffer.length = text.length := hholds.length_eq
  have hstorage : owner.storage = some owner.buffer.data := storage_iff.mpr (.inr (by omega))
  obtain ⟨_, _, hbound, cells, hcells, hcap, hfilled⟩ := hholds.allocated hstorage
  have hin := (List.getElem?_eq_some_iff.mp hcells).1
  have hinit := rawInit_ok byte hcells (show owner.buffer.length < cells.length by omega)
  have hset : (cells.set text.length (some byte)).take (text ++ [byte]).length =
      (text ++ [byte]).map some := by
    rw [length_append, length_singleton, map_append, ← hfilled,
      take_succ_eq_append_getElem (by rw [length_set]; omega), getElem_set_self,
      take_set_of_le (le_refl _)]
    rfl
  have hentry : Holds statics (world.memory.set owner.buffer.data
      (.allocated (cells.set owner.buffer.length (some byte))))
      ⟨owner.kind, { owner.buffer with length := owner.buffer.length + 1 }⟩ (text ++ [byte]) := by
    have hlonger : owner.buffer.length + 1 = (text ++ [byte]).length := by
      rw [length_append, length_singleton, hlen]
    rw [hlonger]
    exact .owned (storage_iff.mp hstorage) (List.getElem?_set_self hin)
      (by rw [length_set, hcap]) hbound (by omega) (by rw [hlen]; exact hset)
  have hlive : HoldsSlot statics (world.memory.set owner.buffer.data
      (.allocated (cells.set owner.buffer.length (some byte))))
      (some (some ⟨owner.kind, { owner.buffer with length := owner.buffer.length + 1 }⟩))
      (some (some (owner.kind, text ++ [byte]))) := .live hentry
  refine ⟨_, ?_, hworld.replace hslot ?_ hlive ?_ ?_, rfl⟩
  · rw [pushByte, run_bind (ownerAt_ok hslot), run_bind hinit]
    rfl
  · intro block hlt hne
    apply List.getElem?_set_ne
    rintro rfl
    exact hne hstorage
  · exact fun block hblock => .inl hblock
  · rintro block others hblock (hold | hge)
    · exact hold
    · have hlt := (List.getElem?_eq_some_iff.mp hblock).1
      rw [length_set] at hlt
      omega

/-- A world that differs from another one by the text of one variable, which has room for more
bytes. -/
structure Room (statics : List (List UInt8)) (origin : World) (texts : Texts) (slot : Nat)
    (kind : Kind) (text : List UInt8) (spare : Nat) (world : World) : Prop where
  inside : slot < texts.length
  bound : slot < origin.owners.length
  represents : Represents statics world (texts.set slot (some (kind, text)))
  value : ∃ val : Buffer, world.owners = origin.owners.set slot (some ⟨kind, val⟩) ∧
    val.length + spare ≤ val.storageCapacity

section
variable {statics : List (List UInt8)} {origin world : World} {texts : Texts} {slot : Nat}
  {kind : Kind} {text : List UInt8} {spare : Nat}

theorem Room.self {val : Buffer} (hworld : Represents statics world texts)
    (hslot : world.owners[slot]? = some (some ⟨kind, val⟩))
    (htext : texts[slot]? = some (some (kind, text)))
    (hspare : val.length + spare ≤ val.storageCapacity) :
    Room statics world texts slot kind text spare world :=
  ⟨(List.getElem?_eq_some_iff.mp htext).1, (List.getElem?_eq_some_iff.mp hslot).1,
    by rwa [set_of_getElem? htext], val, (set_of_getElem? hslot).symm, hspare⟩

theorem Room.other (hroom : Room statics origin texts slot kind text spare world) {other : Nat}
    (hne : other ≠ slot) : world.owners[other]? = origin.owners[other]? := by
  obtain ⟨val, howners, _⟩ := hroom.value
  rw [howners, getElem?_set_ne hne.symm]

theorem Room.text_self (hroom : Room statics origin texts slot kind text spare world) :
    (texts.set slot (some (kind, text)))[slot]? = some (some (kind, text)) :=
  getElem?_set_self hroom.inside

theorem Room.push (hroom : Room statics origin texts slot kind text (spare + 1) world)
    (byte : UInt8) :
    ∃ next, pushByte slot byte world = .ok () next ∧
      Room statics origin texts slot kind (text ++ [byte]) spare next := by
  obtain ⟨val, howners, hspare⟩ := hroom.value
  have hslot : world.owners[slot]? = some (some ⟨kind, val⟩) := by
    rw [howners, getElem?_set_self hroom.bound]
  have hless : (Owner.mk kind val).buffer.length < val.storageCapacity := by
    simp only
    omega
  obtain ⟨next, hpush, hnext, hafter⟩ :=
    pushByte_ok hroom.represents hslot hroom.text_self hless byte
  rw [set_set] at hnext
  rw [howners, set_set] at hafter
  refine ⟨next, hpush, hroom.inside, hroom.bound, hnext, _, hafter, ?_⟩
  simp only
  omega

theorem Room.pushBytes {bytes : List UInt8}
    (hroom : Room statics origin texts slot kind text (bytes.length + spare) world) :
    ∃ next, pushBytes slot bytes world = .ok () next ∧
      Room statics origin texts slot kind (text ++ bytes) spare next := by
  induction bytes generalizing text world with
  | nil =>
    rw [length_nil, Nat.zero_add] at hroom
    rw [append_nil]
    exact ⟨world, rfl, hroom⟩
  | cons byte rest ih =>
    have hcount : (byte :: rest).length + spare = rest.length + spare + 1 := by
      rw [length_cons]
      omega
    rw [hcount] at hroom
    obtain ⟨middle, hpush, hmid⟩ := hroom.push byte
    obtain ⟨next, hrest, hnext⟩ := ih hmid
    refine ⟨next, ?_, ?_⟩
    · rw [Strings.pushBytes, run_bind hpush, hrest]
    · rwa [append_assoc, singleton_append] at hnext

/-- The loops that push what they read, while the reads do not change. -/
theorem Room.forBytes (read : Nat → Machine UInt8) (write : Nat → UInt8 → Machine Unit)
    {piece : List UInt8}
    (hroom : Room statics origin texts slot kind text (piece.length + spare) world)
    (hread : ∀ {pushed more next}, Room statics origin texts slot kind pushed more next →
      ∀ (i : Nat) (hidx : i < piece.length), read i next = .ok piece[i] next)
    (hwrite : ∀ {pushed more next}, Room statics origin texts slot kind pushed (more + 1) next →
      ∀ i byte, write i byte next = pushByte slot byte next) :
    ∃ next, forBytes read write piece.length 0 world = .ok () next ∧
      Room statics origin texts slot kind (text ++ piece) spare next := by
  obtain ⟨next, hloop, hnext⟩ := forBytes_rule read write piece.length
    (fun i next => Room statics origin texts slot kind (text ++ piece.take i)
      (piece.length - i + spare) next)
    (by
      intro i next hidx hnext
      have hcount : piece.length - i + spare = piece.length - (i + 1) + spare + 1 := by
        omega
      rw [hcount] at hnext
      obtain ⟨last, hpush, hlast⟩ := hnext.push piece[i]
      refine ⟨piece[i], last, hread hnext i hidx, ?_, ?_⟩
      · rw [hwrite hnext, hpush]
      · rwa [append_assoc, ← take_succ_eq_append_getElem hidx] at hlast)
    (Nat.zero_add piece.length) world (by
      rw [take_zero, append_nil, Nat.sub_zero]
      exact hroom)
  rw [take_length, Nat.sub_self, Nat.zero_add] at hnext
  exact ⟨next, hloop, hnext⟩

end

theorem reserveWith_room (hworld : Represents statics world texts)
    (allocates : List Block → Nat → Bool) {releases : Buffer → Bool}
    (hslot : world.owners[slot]? = some (some owner))
    (htext : texts[slot]? = some (some (owner.kind, text)))
    (hrels : releases owner.buffer = true ↔ owner.storage = some owner.buffer.data)
    (additional : Nat) :
    reserveWith allocates releases slot additional world = .error .trap world ∨
    ∃ next, reserveWith allocates releases slot additional world = .ok () next ∧
      Room statics world texts slot owner.kind text additional next := by
  rcases reserveWith_ok hworld allocates hslot hrels additional with
    htrap | ⟨next, reserved, hreserve, hnext, howners, hlen, hspare⟩
  · exact .inl htrap
  · refine .inr ⟨next, hreserve, (List.getElem?_eq_some_iff.mp htext).1,
      (List.getElem?_eq_some_iff.mp hslot).1, ?_, reserved, howners, ?_⟩
    · rwa [set_of_getElem? htext]
    · rwa [hlen]

theorem stringReserve_room (hworld : Represents statics world texts)
    (allocates : List Block → Nat → Bool) {val : Buffer}
    (hslot : world.owners[slot]? = some (some ⟨.string, val⟩))
    (htext : texts[slot]? = some (some (.string, text))) (additional : Nat) :
    stringReserve allocates slot additional world = .error .trap world ∨
    ∃ next, stringReserve allocates slot additional world = .ok () next ∧
      Room statics world texts slot .string text additional next := by
  have hrels : (val.storageCapacity != 0) = true ↔
      Owner.storage ⟨.string, val⟩ = some val.data := by
    rw [storage_iff, bne_iff_ne]
    exact ⟨.inr, fun h => h.resolve_left (fun h => by cases h)⟩
  exact reserveWith_room hworld allocates hslot htext hrels additional

theorem vecReserve_room (hworld : Represents statics world texts)
    (allocates : List Block → Nat → Bool) {val : Buffer}
    (hslot : world.owners[slot]? = some (some ⟨.bytes, val⟩))
    (htext : texts[slot]? = some (some (.bytes, text))) (additional : Nat) :
    vecReserve allocates slot additional world = .error .trap world ∨
    ∃ next, vecReserve allocates slot additional world = .ok () next ∧
      Room statics world texts slot .bytes text additional next :=
  reserveWith_room hworld allocates hslot htext
    (iff_of_true rfl (storage_iff.mpr (.inl rfl))) additional

end Salicin.Strings
