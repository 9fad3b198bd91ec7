import Salicin.Strings.Growth

/-!
# String operations on texts

Each operation on the storage of a string does to the texts of the world what its name says, and
nothing else. It ends early with a trap only, and a trap leaves the world as it was.
-/

namespace Salicin.Strings

open Nat List

/-! ## The operations on texts -/

def textAt (texts : Texts) (slot : Nat) : List UInt8 :=
  match texts[slot]? with
  | some (some (_, text)) => text
  | _ => []

def sourceText (texts : Texts) (source : Source) : Option (List UInt8) :=
  match texts[source.slot]? with
  | some (some (kind, text)) => borrowed kind text source
  | _ => none

def encoding (scalar : UnicodeScalar) : List UInt8 := (scalarBytes scalar).getD []

/-- What a call answers and what it does to the texts. -/
def effect (statics : List (List UInt8)) (texts : Texts) : Operation → Answer × Texts
  | .literal index => (.done, texts ++ [some (.string, statics.getD index [])])
  | .new => (.done, texts ++ [some (.string, [])])
  | .withCapacity _ => (.done, texts ++ [some (.string, [])])
  | .fromStr source =>
    match sourceText texts source with
    | none => (.absent, texts)
    | some piece => (.done, texts ++ [some (.string, piece)])
  | .fromUnicodeScalar scalar => (.done, texts ++ [some (.string, encoding scalar)])
  | .reserve _ _ => (.done, texts)
  | .pushStr slot source =>
    match sourceText texts source with
    | none => (.absent, texts)
    | some piece => (.done, texts.set slot (some (.string, textAt texts slot ++ piece)))
  | .push slot scalar =>
    (.done, texts.set slot (some (.string, textAt texts slot ++ encoding scalar)))
  | .truncate slot newLength =>
    if Boundary (textAt texts slot) newLength then
      (.flag true, texts.set slot (some (.string, (textAt texts slot).take newLength)))
    else (.flag false, texts)
  | .clear slot => (.done, texts.set slot (some (.string, [])))
  | .fromUtf8 slot =>
    match utf8ErrorOffset (textAt texts slot) with
    | some (some validPrefix) => (.rejected validPrefix, texts)
    | _ => (.done, texts.set slot (some (.string, textAt texts slot)))
  | .intoBytes slot => (.done, texts.set slot (some (.bytes, textAt texts slot)))
  | .vecWithCapacity _ => (.done, texts ++ [some (.bytes, [])])
  | .vecPush slot byte => (.done, texts.set slot (some (.bytes, textAt texts slot ++ [byte])))
  | .drop slot => (.done, texts.set slot none)

/-! ## New variables -/

section
variable {statics : List (List UInt8)} {world : World} {texts : Texts}

theorem set_vacant {α : Type} (list : List (Option α)) (val : Option α) :
    (list ++ [none]).set list.length val = list ++ [val] := by
  rw [set_append_right _ _ (le_refl _), Nat.sub_self]
  rfl

section
variable (hworld : Represents statics world texts)
include hworld

theorem Represents.set_texts_vacant (entry : Option (Kind × List UInt8)) :
    (texts ++ [none]).set world.owners.length entry = texts ++ [entry] := by
  rw [hworld.length_eq, set_vacant]

theorem Represents.bind_static {index len : Nat} {bytes : List UInt8}
    (hstatic : statics[index]? = some bytes) (hlen : len ≤ bytes.length) :
    Represents statics ⟨world.memory, world.owners ++ [some ⟨.string, ⟨index, len, 0⟩⟩]⟩
      (texts ++ [some (.string, bytes.take len)]) := by
  have hlive : HoldsSlot statics world.memory (some (some ⟨.string, ⟨index, len, 0⟩⟩))
      (some (some (.string, bytes.take len))) :=
    .live (.static hstatic (hworld.literals hstatic) hlen)
  have hbound := hworld.vacant.replace List.getElem?_concat_length (fun _ _ _ => rfl) hlive
    (fun block hblock => by cases hblock)
    (fun block cells hcells hmine => by
      rcases hmine with hmine | hmine
      · cases hmine
      · exact absurd (List.getElem?_eq_some_iff.mp hcells).1 (not_lt.mpr hmine))
  rwa [hworld.set_texts_vacant, set_vacant] at hbound

theorem Represents.bind_fresh (kind : Kind) (mem : List Block) (text : List UInt8)
    (spare : List (Option UInt8)) (hlen : mem.length = world.memory.length + 1)
    (hkeep : ∀ block < world.memory.length, mem[block]? = world.memory[block]?)
    (hfresh : mem[world.memory.length]? = some (.allocated (text.map some ++ spare)))
    (howned : kind = .bytes ∨ text.length + spare.length ≠ 0)
    (hbound : text.length + spare.length ≤ u64Max) :
    Represents statics
      ⟨mem, world.owners ++ [some ⟨kind, ⟨world.memory.length, text.length,
        text.length + spare.length⟩⟩]⟩
      (texts ++ [some (kind, text)]) := by
  have hnext := hworld.vacant.fresh kind getElem?_concat_length hlen
    (fun block hlt _ => hkeep block hlt) (fun block cells hblock => by cases hblock) hfresh howned
    hbound
  rwa [hworld.set_texts_vacant, set_vacant] at hnext

/-- An expression that makes a value traps before it changes anything, or its value can be bound
to a variable. -/
def Makes (statics : List (List UInt8)) (world : World) (texts : Texts) (kind : Kind)
    (text : List UInt8) (val : Machine Buffer) : Prop :=
  val world = .error .trap world ∨
  ∃ mem buffer, val world = .ok buffer { world with memory := mem } ∧
    Represents statics ⟨mem, world.owners ++ [some ⟨kind, buffer⟩]⟩
      (texts ++ [some (kind, text)])

theorem stringLiteral_makes {index : Nat} (hidx : index < statics.length) :
    Makes statics world texts .string (statics.getD index []) (stringLiteral index) := by
  have hstatic : statics[index]? = some statics[index] := getElem?_eq_getElem hidx
  have hbound := hworld.bind_static hstatic (le_refl _)
  rw [take_length] at hbound
  refine .inr ⟨world.memory, ⟨index, statics[index].length, 0⟩, ?_, ?_⟩
  · rw [stringLiteral, hworld.literals hstatic]
  · rwa [getD_eq_getElem?_getD, hstatic, Option.getD_some]

theorem emptyString_makes (hempty : statics[0]? = some []) :
    Makes statics world texts .string [] (pure emptyString) :=
  .inr ⟨world.memory, emptyString, rfl, hworld.bind_static hempty (zero_le _)⟩

theorem rawAlloc_bound (allocates : List Block → Nat → Bool) (kind : Kind) {capacity : Nat}
    (howned : kind = .bytes ∨ capacity ≠ 0) :
    rawAlloc allocates capacity world = .error .trap world ∨
    ∃ mem data, rawAlloc allocates capacity world = .ok data { world with memory := mem } ∧
      capacity ≤ u64Max ∧
      Represents statics ⟨mem, world.owners ++ [some ⟨kind, ⟨data, 0, capacity⟩⟩]⟩
        (texts ++ [some (kind, [])]) := by
  rcases rawAlloc_cases world allocates capacity with hrefused | ⟨hbound, halloc⟩
  · exact .inl hrefused
  · have hcap : ([] : List UInt8).length +
        (List.replicate capacity (none : Option UInt8)).length = capacity := by
      rw [length_replicate, length_nil, Nat.zero_add]
    have hnext := hworld.bind_fresh kind
      (world.memory ++ [.allocated (List.replicate capacity none)]) []
      (List.replicate capacity none)
      (by rw [length_append, length_singleton])
      (fun block hlt => getElem?_append_left hlt)
      getElem?_concat_length
      (by rwa [hcap]) (by rwa [hcap])
    rw [hcap] at hnext
    exact .inr ⟨_, _, halloc, hbound, hnext⟩

theorem rawAlloc_makes (allocates : List Block → Nat → Bool) (kind : Kind) {capacity : Nat}
    (howned : kind = .bytes ∨ capacity ≠ 0) :
    Makes statics world texts kind [] (do
      let data ← rawAlloc allocates capacity
      pure ⟨data, 0, capacity⟩) := by
  rcases rawAlloc_bound hworld allocates kind howned with
    hrefused | ⟨mem, data, halloc, _, hnext⟩
  · exact .inl (run_bind_error hrefused)
  · exact .inr ⟨mem, _, by rw [run_bind halloc]; rfl, hnext⟩

theorem stringWithCapacity_makes (hempty : statics[0]? = some [])
    (allocates : List Block → Nat → Bool) (capacity : Nat) :
    Makes statics world texts .string [] (stringWithCapacity allocates capacity) := by
  rw [stringWithCapacity]
  by_cases hzero : capacity = 0
  · rw [if_pos hzero]
    exact emptyString_makes hworld hempty
  · rw [if_neg hzero]
    exact rawAlloc_makes hworld allocates .string (.inr hzero)

theorem stringCopyFromStr_makes (hempty : statics[0]? = some [])
    (allocates : List Block → Nat → Bool) {view : View} {piece : List UInt8}
    (hview : Shows world.memory view piece) (hdata : view.data < world.memory.length) :
    Makes statics world texts .string piece (stringCopyFromStr allocates view) := by
  have hlen := hview.length
  rw [stringCopyFromStr]
  by_cases hzero : view.length = 0
  · rw [if_pos hzero]
    have hnil : piece = [] := length_eq_zero_iff.mp (by omega)
    rw [hnil]
    exact emptyString_makes hworld hempty
  rw [if_neg hzero]
  rcases rawAlloc_cases world allocates view.length with hrefused | ⟨hbound, halloc⟩
  · exact .inl (run_bind_error hrefused)
  · obtain ⟨mem, hcopy, hmemory, hfront, hfresh⟩ := forBytes_fresh world view.at piece
      view.length hlen.ge (fun index hidx mem hmemory =>
        Shows.at_ok ⟨hlen, fun {other} hother => by
          rw [hmemory _ hdata]
          exact hview.cell hother⟩ hidx)
    rw [hlen, Nat.sub_self, replicate_zero] at hfresh
    have hnext := hworld.bind_fresh .string mem piece [] hmemory hfront hfresh
      (.inr (by rw [length_nil]; omega)) (by rw [length_nil]; omega)
    rw [length_nil, add_zero, ← hlen] at hnext
    refine .inr ⟨mem, _, ?_, hnext⟩
    rw [run_bind halloc, hlen, run_bind (by rw [hlen] at hcopy; exact hcopy)]
    rfl

/-! ## Changed variables -/

variable {slot : Nat} {text : List UInt8} {owner : Owner}

theorem Represents.relabel {owner' : Owner} (hslot : world.owners[slot]? = some (some owner))
    (hstorage : owner'.storage = owner.storage) (hholds : Holds statics world.memory owner' text) :
    Represents statics ⟨world.memory, world.owners.set slot (some owner')⟩
      (texts.set slot (some (owner'.kind, text))) := by
  apply hworld.replace hslot (fun _ _ _ => rfl) (.live hholds)
  · exact fun block hblock => .inl (hstorage.symm.trans hblock)
  · rintro block cells hcells (hmine | hmine)
    · exact hstorage.trans hmine
    · exact absurd (List.getElem?_eq_some_iff.mp hcells).1 (not_lt.mpr hmine)

theorem Represents.release {mem : List Block} {new : Option Owner}
    {entry : Option (Kind × List UInt8)} (hslot : world.owners[slot]? = some (some owner))
    (hlen : mem.length = world.memory.length)
    (hkept : ∀ block, owner.storage ≠ some block → mem[block]? = world.memory[block]?)
    (hreleased : ∀ (block : Nat) (cells : List (Option UInt8)), owner.storage = some block →
      mem[block]? ≠ some (.allocated cells)) (hnew : new.bind Owner.storage = none)
    (hentry : HoldsSlot statics mem (some new) (some entry)) :
    Represents statics ⟨mem, world.owners.set slot new⟩ (texts.set slot entry) := by
  apply hworld.replace hslot (fun block _ hne => hkept block hne) hentry
  · intro block hblock
    rw [hnew] at hblock
    cases hblock
  · rintro block cells hcells (hmine | hmine)
    · exact absurd hcells (hreleased block cells hmine)
    · have hlt := (List.getElem?_eq_some_iff.mp hcells).1
      omega

end

theorem Holds.take {mem : List Block} (hholds : Holds statics mem owner text) {len : Nat}
    (hlen : len ≤ text.length) :
    Holds statics mem ⟨owner.kind, { owner.buffer with length := len }⟩
      (text.take len) := by
  cases hholds with
  | @static data whole bytes hstatic hblock hwhole =>
    rw [length_take, min_eq_left hwhole] at hlen
    rw [take_take, min_eq_left hlen]
    exact .static hstatic hblock (hlen.trans hwhole)
  | @owned kind data capacity cells text howned hblock hcap hbound hroom hcells =>
    have hshorter : len = (text.take len).length := by
      rw [length_take, min_eq_left hlen]
    have hfilled : cells.take (text.take len).length = (text.take len).map some := by
      rw [← hshorter, map_take, ← hcells, take_take, min_eq_left hlen]
    have hshort : Holds statics mem ⟨kind, ⟨data, (text.take len).length, capacity⟩⟩
        (text.take len) := .owned howned hblock hcap hbound (by omega) hfilled
    rwa [← hshorter] at hshort

theorem textAt_eq {kind : Kind} (htext : texts[slot]? = some (some (kind, text))) :
    textAt texts slot = text := by
  rw [textAt, htext]

/-- A call traps before it changes anything, or answers and leaves these texts. A call that says
that it fails changes nothing. -/
def Does (statics : List (List UInt8)) (world : World) (call : Machine Answer)
    (result : Answer × Texts) : Prop :=
  call world = .error .trap world ∨
  ∃ next, call world = .ok result.1 next ∧ Represents statics next result.2 ∧
    (result.1.Failed → next = world)

theorem bindResult_does {kind : Kind} {val : Machine Buffer}
    (hval : Makes statics world texts kind text val) :
    Does statics world (bindResult kind val) (.done, texts ++ [some (kind, text)]) := by
  rcases hval with htrap | ⟨mem, buffer, hmade, hnext⟩
  · exact .inl (run_bind_error htrap)
  · exact .inr ⟨_, by rw [bindResult, run_bind hmade]; rfl, hnext, fun h => h.elim⟩

theorem answerDone_does {action : Machine Unit} {next : World} {texts' : Texts}
    (haction : action world = .ok () next) (hnext : Represents statics next texts') :
    Does statics world (answerDone action) (.done, texts') :=
  .inr ⟨next, by rw [answerDone, run_bind haction]; rfl, hnext, fun h => h.elim⟩

theorem answerDone_trap {action : Machine Unit} {result : Answer × Texts}
    (haction : action world = .error .trap world) :
    Does statics world (answerDone action) result :=
  .inl (run_bind_error haction)

theorem withStr_does (hworld : Represents statics world texts) {source : Source}
    (hslot : world.owners[source.slot]? = some (some owner)) {call : View → Machine Answer}
    {res : List UInt8 → Answer × Texts}
    (hcall : ∀ {text piece : List UInt8}, Holds statics world.memory owner text →
      texts[source.slot]? = some (some (owner.kind, text)) →
      borrowed owner.kind text source = some piece →
      Does statics world
        (call ⟨owner.buffer.data, source.start, source.finish - source.start⟩) (res piece)) :
    Does statics world (withStr source call)
      (match sourceText texts source with
      | none => (.absent, texts)
      | some piece => res piece) := by
  obtain ⟨text, htext, hholds⟩ := hworld.holds hslot
  have hsrc : sourceText texts source = borrowed owner.kind text source := by
    rw [sourceText, htext]
  have hborrow := borrowStr_ok hslot hholds
  rw [hsrc]
  cases hpiece : borrowed owner.kind text source with
  | none =>
    rw [hpiece] at hborrow
    exact .inr ⟨world, by rw [withStr, run_bind hborrow]; rfl, hworld, fun _ => rfl⟩
  | some piece =>
    rw [hpiece] at hborrow
    have hdoes := hcall hholds htext hpiece
    rw [Does, withStr, run_bind hborrow]
    exact hdoes

/-! ## Each call -/

theorem encoding_ofChar (character : Char) :
    encoding (.ofChar character) = String.utf8EncodeChar character := by
  rw [encoding, scalarBytes_ofChar, Option.getD_some]

variable {scalar : UnicodeScalar}

theorem scalarBytes_valid (hvalid : scalar.Valid) :
    scalarBytes scalar = some (encoding scalar) ∧ (encoding scalar).length = scalar.lenUtf8 := by
  obtain ⟨character, rfl⟩ := hvalid.exists_char
  have hle : ∀ bound : UInt32, character.val ≤ bound ↔ character.val.toNat ≤ bound.toNat :=
    fun bound => UInt32.le_iff_toNat_le
  rw [encoding_ofChar]
  refine ⟨scalarBytes_ofChar character, ?_⟩
  simp only [String.utf8EncodeChar, UnicodeScalar.lenUtf8, UnicodeScalar.ofChar, hle,
    UInt32.reduceToNat]
  split_ifs <;> rfl

theorem reserveWith_enough (allocates : List Block → Nat → Bool) (releases : Buffer → Bool)
    {additional : Nat} (hslot : world.owners[slot]? = some (some owner))
    (hroom : owner.buffer.length + additional ≤ owner.buffer.storageCapacity)
    (hbound : owner.buffer.storageCapacity ≤ u64Max) :
    reserveWith allocates releases slot additional world = .ok () world := by
  rw [reserveWith, run_bind (ownerAt_ok hslot), if_neg (by omega), if_neg (by omega)]
  rfl

theorem push_of_room {allocates : List Block → Nat → Bool} {origin next : World}
    (hvalid : scalar.Valid)
    (hreserve : stringReserve allocates slot scalar.lenUtf8 world = .ok () next)
    (hroom : Room statics origin texts slot .string text scalar.lenUtf8 next) :
    ∃ last, push allocates slot scalar world = .ok () last ∧
      Represents statics last (texts.set slot (some (.string, text ++ encoding scalar))) := by
  obtain ⟨hbytes, hlen⟩ := scalarBytes_valid hvalid
  rw [← hlen, ← add_zero (encoding scalar).length] at hroom
  obtain ⟨last, hpush, hlast⟩ := hroom.pushBytes
  refine ⟨last, ?_, hlast.represents⟩
  rw [push, run_bind hreserve, hbytes]
  exact hpush

variable {val : Buffer}

section
variable (hworld : Represents statics world texts)
include hworld

variable (allocates : List Block → Nat → Bool)

theorem push_does
    (hslot : world.owners[slot]? = some (some ⟨.string, val⟩)) (hvalid : scalar.Valid) :
    Does statics world (answerDone (push allocates slot scalar))
      (.done, texts.set slot (some (.string, textAt texts slot ++ encoding scalar))) := by
  obtain ⟨text, htext, _⟩ := hworld.holds hslot
  rw [textAt_eq htext]
  rcases stringReserve_room hworld allocates hslot htext scalar.lenUtf8 with
    htrap | ⟨next, hreserve, hroom⟩
  · exact answerDone_trap (run_bind_error htrap)
  · obtain ⟨last, hpush, hlast⟩ := push_of_room hvalid hreserve hroom
    exact answerDone_does hpush hlast

theorem fromUnicodeScalar_does (hvalid : scalar.Valid) :
    Does statics world (answerDone (fromUnicodeScalar allocates scalar))
      (.done, texts ++ [some (.string, encoding scalar)]) := by
  have hpos : scalar.lenUtf8 ≠ 0 := by
    rw [UnicodeScalar.lenUtf8]
    split_ifs <;> omega
  have hmake : stringWithCapacity allocates scalar.lenUtf8 = (do
      let data ← rawAlloc allocates scalar.lenUtf8
      pure ⟨data, 0, scalar.lenUtf8⟩) := by
    rw [stringWithCapacity, if_neg hpos]
  rcases rawAlloc_bound hworld allocates .string (.inr hpos) with
    hrefused | ⟨mem, data, halloc, hbound, hnext⟩
  · apply answerDone_trap
    rw [fromUnicodeScalar, hmake]
    exact run_bind_error (run_bind_error hrefused)
  · have hmade : stringWithCapacity allocates scalar.lenUtf8 world =
        .ok ⟨data, 0, scalar.lenUtf8⟩ { world with memory := mem } := by
      rw [hmake, run_bind halloc]
      rfl
    have hslot : (world.owners ++ [some ⟨.string, ⟨data, 0, scalar.lenUtf8⟩⟩])[
        world.owners.length]? = some (some ⟨.string, ⟨data, 0, scalar.lenUtf8⟩⟩) :=
      getElem?_concat_length
    have htext : (texts ++ [some (.string, [])])[world.owners.length]? =
        some (some (.string, [])) := by
      rw [hworld.length_eq, getElem?_concat_length]
    have hreserve : stringReserve allocates world.owners.length scalar.lenUtf8
        ⟨mem, world.owners ++ [some ⟨.string, ⟨data, 0, scalar.lenUtf8⟩⟩]⟩ = .ok () _ :=
      reserveWith_enough allocates _ hslot (Nat.zero_add _).le hbound
    obtain ⟨last, hpush, hlast⟩ :=
      push_of_room hvalid hreserve (Room.self hnext hslot htext (Nat.zero_add _).le)
    rw [hworld.length_eq, set_append_right _ _ (le_refl _), Nat.sub_self, nil_append] at hlast
    refine answerDone_does ?_ hlast
    rw [fromUnicodeScalar, run_bind hmade]
    exact hpush

theorem pushStr_does {source : Source} {piece : List UInt8}
    (hslot : world.owners[slot]? = some (some ⟨.string, val⟩)) (hne : source.slot ≠ slot)
    (hsrc : world.owners[source.slot]? = some (some owner))
    (htext : texts[source.slot]? = some (some (owner.kind, text)))
    (hpiece : borrowed owner.kind text source = some piece)
    (hlen : source.finish - source.start = piece.length) :
    Does statics world (answerDone (pushStr allocates slot
        ⟨owner.buffer.data, source.start, source.finish - source.start⟩))
      (.done, texts.set slot (some (.string, textAt texts slot ++ piece))) := by
  obtain ⟨own, hown, _⟩ := hworld.holds hslot
  rw [textAt_eq hown]
  rcases stringReserve_room hworld allocates hslot hown piece.length with
    htrap | ⟨next, hreserve, hroom⟩
  · apply answerDone_trap
    rw [pushStr, hlen]
    exact run_bind_error htrap
  · rw [← add_zero piece.length] at hroom
    obtain ⟨last, hloop, hlast⟩ := hroom.forBytes
      (View.at ⟨owner.buffer.data, source.start, source.finish - source.start⟩)
      (fun _ => pushByte slot)
      (fun {pushed more middle} hmid index hidx => by
        -- The source is another variable, so it holds its text still.
        have hstill : middle.owners[source.slot]? = some (some owner) := by
          rw [hmid.other hne, hsrc]
        obtain ⟨other, hother, hholds⟩ := hmid.represents.holds hstill
        rw [getElem?_set_ne hne.symm, htext] at hother
        cases hother
        exact (borrowed_shows hholds hpiece).at_ok hidx)
      (fun _ _ _ => rfl)
    refine answerDone_does ?_ hlast.represents
    rw [pushStr, hlen, run_bind hreserve, ← hlen]
    rw [← hlen] at hloop
    exact hloop

theorem truncate_does {newLength : Nat} (hslot : world.owners[slot]? = some (some ⟨.string, val⟩)) :
    Does statics world (do
        let val ← truncate slot newLength
        pure (.flag val))
      (if Boundary (textAt texts slot) newLength then
        (.flag true, texts.set slot (some (.string, (textAt texts slot).take newLength)))
      else (.flag false, texts)) := by
  obtain ⟨text, htext, hholds⟩ := hworld.holds hslot
  have hlen : val.length = text.length := hholds.length_eq
  have hread : ∀ index (hidx : index < text.length),
      rawRead val.data index world = .ok text[index] world := by
    intro index hidx
    apply rawRead_ok
    rw [hholds.cell hidx, getElem?_eq_getElem hidx]
  have hboundary : stringIsCharBoundary val newLength world =
      .ok (decide (Boundary text newLength)) world := by
    rw [stringIsCharBoundary, hlen]
    exact isCharBoundary_ok hread newLength
  rw [textAt_eq htext]
  right
  by_cases hinside : Boundary text newLength
  · have htruncate : truncate slot newLength world = .ok true ⟨world.memory,
        world.owners.set slot (some ⟨.string, { val with length := newLength }⟩)⟩ := by
      rw [truncate, run_bind (ownerAt_ok hslot), run_bind hboundary, decide_eq_true hinside]
      rfl
    rw [if_pos hinside, run_bind htruncate]
    exact ⟨_, rfl, hworld.relabel hslot rfl (hholds.take hinside.le), fun h => by cases h⟩
  · have htruncate : truncate slot newLength world = .ok false world := by
      rw [truncate, run_bind (ownerAt_ok hslot), run_bind hboundary, decide_eq_false hinside]
      rfl
    rw [if_neg hinside, run_bind htruncate]
    exact ⟨world, rfl, hworld, fun _ => rfl⟩

theorem clear_does (hslot : world.owners[slot]? = some (some ⟨.string, val⟩)) :
    Does statics world (answerDone (clear slot)) (.done, texts.set slot (some (.string, []))) := by
  obtain ⟨text, _, hholds⟩ := hworld.holds hslot
  have hnone : Holds statics world.memory ⟨.string, { val with length := 0 }⟩ [] :=
    hholds.take (zero_le _)
  have hstorage : Owner.storage ⟨.string, { val with length := 0 }⟩ =
      Owner.storage ⟨.string, val⟩ := rfl
  refine answerDone_does ?_ (hworld.relabel hslot hstorage hnone)
  rw [clear, run_bind (ownerAt_ok hslot)]
  rfl

theorem vecPush_does (byte : UInt8)
    (hslot : world.owners[slot]? = some (some ⟨.bytes, val⟩)) :
    Does statics world (answerDone (vecPush allocates slot byte))
      (.done, texts.set slot (some (.bytes, textAt texts slot ++ [byte]))) := by
  obtain ⟨text, htext, _⟩ := hworld.holds hslot
  rw [textAt_eq htext]
  rcases vecReserve_room hworld allocates hslot htext 1 with htrap | ⟨next, hreserve, hroom⟩
  · exact answerDone_trap (run_bind_error htrap)
  · obtain ⟨last, hpush, hlast⟩ := Room.push hroom byte
    refine answerDone_does ?_ hlast.represents
    rw [vecPush, run_bind hreserve, hpush]

end

/-! ## Released variables -/

theorem vecDrop_ok (hholds : Holds statics world.memory ⟨.bytes, val⟩ text) :
    ∃ mem, vecDrop val world = .ok () { world with memory := mem } ∧
      mem.length = world.memory.length ∧
      (∀ block, Owner.storage ⟨.bytes, val⟩ ≠ some block → mem[block]? = world.memory[block]?) ∧
      ∀ (block : Nat) (cells : List (Option UInt8)), Owner.storage ⟨.bytes, val⟩ = some block →
        mem[block]? ≠ some (.allocated cells) := by
  have hlen : val.length = text.length := hholds.length_eq
  obtain ⟨mem, hrel, hmemory⟩ := releaseWhen_ok world hholds
    (iff_of_true (rfl : true = true) (storage_iff.mpr (.inl rfl)))
  obtain ⟨next, hloop, hnext⟩ := forBytes_rule (rawRead val.data) (fun _ _ => pure ())
    text.length (fun _ next => next = world)
    (by
      intro index next hidx hnext
      refine ⟨text[index], next, rawRead_ok ?_, rfl, hnext⟩
      rw [hnext, hholds.cell hidx, getElem?_eq_getElem hidx])
    (Nat.zero_add _) world rfl
  refine ⟨mem, ?_, hmemory⟩
  rw [vecDrop, hlen, run_bind hloop, hnext]
  exact hrel

theorem fromUtf8_does (hworld : Represents statics world texts) (hempty : statics[0]? = some [])
    (hslot : world.owners[slot]? = some (some ⟨.bytes, val⟩)) :
    Does statics world (do
        match ← stringFromUtf8 slot with
        | some validPrefix => pure (.rejected validPrefix)
        | none => pure .done)
      (match utf8ErrorOffset (textAt texts slot) with
      | some (some validPrefix) => (.rejected validPrefix, texts)
      | _ => (.done, texts.set slot (some (.string, textAt texts slot)))) := by
  obtain ⟨text, htext, hholds⟩ := hworld.holds hslot
  have hlen : val.length = text.length := hholds.length_eq
  obtain ⟨answer, hans, hvalidate⟩ := firstInvalidUtf8_ok hholds.shows
  rw [textAt_eq htext, hans]
  right
  cases answer with
  | some validPrefix =>
    have hrejected : stringFromUtf8 slot world = .ok (some validPrefix) world := by
      rw [stringFromUtf8, run_bind (ownerAt_ok hslot), run_bind hvalidate]
      rfl
    rw [run_bind hrejected]
    exact ⟨world, rfl, hworld, fun _ => rfl⟩
  | none =>
    by_cases hzero : val.length = 0
    · have hnil : text = [] := length_eq_zero_iff.mp (by omega)
      obtain ⟨mem, hdrop, hmemory, hkept, hreleased⟩ := vecDrop_ok hholds
      have hmade : stringFromUtf8 slot world = .ok none
          ⟨mem, world.owners.set slot (some ⟨.string, emptyString⟩)⟩ := by
        rw [stringFromUtf8, run_bind (ownerAt_ok hslot), run_bind hvalidate]
        simp only [if_pos hzero]
        rw [run_bind hdrop]
        rfl
      have hblock : mem[0]? = some (.literal []) := by
        rw [hkept, hworld.literals hempty]
        intro hstorage
        obtain ⟨_, _, _, cells, hcells, _⟩ := hholds.allocated hstorage
        rw [hworld.literals hempty] at hcells
        cases hcells
      rw [run_bind hmade, hnil]
      exact ⟨_, rfl, hworld.release hslot hmemory hkept hreleased rfl
        (.live (.static hempty hblock (zero_le _))), fun h => h.elim⟩
    · have hmade : stringFromUtf8 slot world = .ok none
          ⟨world.memory, world.owners.set slot (some ⟨.string, val⟩)⟩ := by
        rw [stringFromUtf8, run_bind (ownerAt_ok hslot), run_bind hvalidate]
        simp only [if_neg hzero]
        rfl
      have hstorage : Owner.storage ⟨.bytes, val⟩ = some val.data := storage_iff.mpr (.inl rfl)
      obtain ⟨_, hroom, hbound, cells, hcells, hcap, hfilled⟩ := hholds.allocated hstorage
      have hcapacious : text.length ≤ val.storageCapacity := hroom
      have howned : val.storageCapacity ≠ 0 := by omega
      have hstring : Holds statics world.memory ⟨.string, val⟩ text := by
        obtain ⟨data, len, capacity⟩ := val
        obtain rfl : len = text.length := hlen
        exact .owned (.inr howned) hcells hcap hbound hroom hfilled
      rw [run_bind hmade]
      exact ⟨_, rfl, hworld.relabel hslot (by rw [hstorage]; exact storage_iff.mpr (.inr howned))
        hstring, fun h => h.elim⟩

theorem drop_does (hworld : Represents statics world texts)
    (hslot : world.owners[slot]? = some (some owner)) :
    Does statics world (do
        let owner ← ownerAt slot
        dropOwner owner
        storeOwner slot none
        pure .done)
      (.done, texts.set slot none) := by
  obtain ⟨text, htext, hholds⟩ := hworld.holds hslot
  have hdropped : ∃ mem, dropOwner owner world = .ok () { world with memory := mem } ∧
      mem.length = world.memory.length ∧
      (∀ block, owner.storage ≠ some block → mem[block]? = world.memory[block]?) ∧
      ∀ (block : Nat) (cells : List (Option UInt8)), owner.storage = some block →
        mem[block]? ≠ some (.allocated cells) := by
    obtain ⟨kind, val⟩ := owner
    cases kind with
    | string =>
      apply releaseWhen_ok world hholds
      rw [bne_iff_ne, storage_iff]
      exact ⟨.inr, fun h => h.resolve_left (fun h => by cases h)⟩
    | bytes => exact vecDrop_ok hholds
  obtain ⟨mem, hdrop, hmemory, hkept, hreleased⟩ := hdropped
  refine .inr ⟨⟨mem, world.owners.set slot none⟩, ?_,
    hworld.release hslot hmemory hkept hreleased rfl .moved, fun h => h.elim⟩
  rw [run_bind (ownerAt_ok hslot), run_bind hdrop]
  rfl

theorem Room.vecPush_eq {origin next : World} {more : Nat}
    (hroom : Room statics origin texts slot .bytes text (more + 1) next)
    (allocates : List Block → Nat → Bool) (byte : UInt8) :
    vecPush allocates slot byte next = pushByte slot byte next := by
  obtain ⟨val, howners, hspare⟩ := hroom.value
  have hslot : next.owners[slot]? = some (some ⟨.bytes, val⟩) := by
    rw [howners, getElem?_set_self hroom.bound]
  obtain ⟨text', _, hholds⟩ := hroom.represents.holds hslot
  obtain ⟨_, _, hbound, _⟩ := hholds.allocated (storage_iff.mpr (.inl rfl))
  have hreserve : vecReserve allocates slot 1 next = .ok () next :=
    reserveWith_enough allocates _ hslot (by simp only; omega) hbound
  rw [vecPush, run_bind hreserve]

theorem Represents.vec_room (hworld : Represents statics world texts) {data len : Nat}
    {entry : Option (Kind × List UInt8)}
    (hslot : world.owners[slot]? = some (some ⟨.string, ⟨data, len, 0⟩⟩))
    (hentry : texts[slot]? = some entry) (hbound : len ≤ u64Max) :
    Room statics world texts slot .bytes [] len
      ⟨world.memory ++ [.allocated (List.replicate len none)],
        world.owners.set slot (some ⟨.bytes, ⟨world.memory.length, 0, len⟩⟩)⟩ := by
  have hspare : ([] : List UInt8).length +
      (List.replicate len (none : Option UInt8)).length = len := by
    rw [length_replicate, length_nil, Nat.zero_add]
  have hfresh : (world.memory ++ [Block.allocated (List.replicate len none)])[
      world.memory.length]? = some (.allocated (([] : List UInt8).map some ++
        List.replicate len none)) := List.getElem?_concat_length
  have hnext := hworld.fresh .bytes hslot
    (by rw [length_append, length_singleton])
    (fun block hlt _ => List.getElem?_append_left hlt)
    (fun block cells hold => by cases hold) hfresh (.inl rfl) (by rwa [hspare])
  rw [hspare] at hnext
  exact ⟨(List.getElem?_eq_some_iff.mp hentry).1, (List.getElem?_eq_some_iff.mp hslot).1, hnext, _,
    rfl, (Nat.zero_add _).le⟩

/-- The new vector of a static string takes its slot before the bytes are copied. -/
theorem intoBytes_does (hworld : Represents statics world texts)
    (allocates : List Block → Nat → Bool)
    (hslot : world.owners[slot]? = some (some ⟨.string, val⟩)) :
    Does statics world (answerDone (stringIntoBytes allocates slot))
      (.done, texts.set slot (some (.bytes, textAt texts slot))) := by
  obtain ⟨text, htext, hholds⟩ := hworld.holds hslot
  rw [textAt_eq htext]
  cases hholds with
  | @owned kind data capacity cells text howned hblock hcap hbound hroom hcells =>
    have hne : capacity ≠ 0 := howned.resolve_left (fun h => by cases h)
    have hstorage : Owner.storage ⟨.bytes, ⟨data, text.length, capacity⟩⟩ =
        Owner.storage ⟨.string, ⟨data, text.length, capacity⟩⟩ := by
      rw [Owner.storage, Owner.storage, if_pos (.inl rfl), if_pos (.inr hne)]
    have hbytes : Holds statics world.memory ⟨.bytes, ⟨data, text.length, capacity⟩⟩ text :=
      .owned (.inl rfl) hblock hcap hbound hroom hcells
    refine answerDone_does ?_ (hworld.relabel hslot hstorage hbytes)
    rw [stringIntoBytes, run_bind (ownerAt_ok hslot), if_neg hne]
    rfl
  | @static data len bytes hstatic hblock hlen =>
    have hcount : len = (bytes.take len).length := by
      rw [length_take, min_eq_left hlen]
    have hstart : stringIntoBytes allocates slot world = (do
        let bytes ← vecWithCapacity allocates len
        storeOwner slot (some ⟨.bytes, bytes⟩)
        forBytes (rawRead data) (fun _ => vecPush allocates slot) len 0) world := by
      rw [stringIntoBytes, run_bind (ownerAt_ok hslot), if_pos rfl]
    rcases rawAlloc_cases world allocates len with hrefused | ⟨hbound, halloc⟩
    · apply answerDone_trap
      rw [hstart]
      exact run_bind_error (run_bind_error hrefused)
    have hmade : vecWithCapacity allocates len world =
        .ok ⟨world.memory.length, 0, len⟩ { world with
          memory := world.memory ++ [.allocated (List.replicate len none)] } := by
      rw [vecWithCapacity, run_bind halloc]
      rfl
    have hroom := hworld.vec_room hslot htext hbound
    have hspare : len = (bytes.take len).length + 0 := hcount
    rw [show Room statics world texts slot .bytes [] len = Room statics world texts slot .bytes
      [] ((bytes.take len).length + 0) from congrArg _ hspare] at hroom
    obtain ⟨last, hloop, hlast⟩ := hroom.forBytes (rawRead data)
      (fun _ => vecPush allocates slot)
      (fun {pushed more middle} hmid index hidx => by
        rw [length_take, min_eq_left hlen] at hidx
        apply rawRead_ok
        rw [hmid.represents.literals hstatic, Option.bind_some, Block.cell,
          getElem_take, getElem?_eq_getElem])
      (fun hmid index byte => hmid.vecPush_eq allocates byte)
    refine answerDone_does ?_ hlast.represents
    rw [← hcount] at hloop
    rw [hstart, run_bind hmade]
    exact (run_bind rfl).trans hloop

/-- Every call does to the texts what it says, or traps and changes nothing. -/
theorem run_does (hworld : Represents statics world texts) (hempty : statics[0]? = some [])
    (allocates : List Block → Nat → Bool) {op : Operation} (hfits : Fits statics world op) :
    Does statics world (run allocates op) (effect statics texts op) := by
  cases op with
  | literal index => exact bindResult_does (stringLiteral_makes hworld hfits)
  | new => exact bindResult_does (emptyString_makes hworld hempty)
  | withCapacity capacity =>
    exact bindResult_does (stringWithCapacity_makes hworld hempty allocates capacity)
  | fromStr source =>
    obtain ⟨owner, hsrc⟩ := hfits
    refine withStr_does hworld hsrc fun {text piece} hholds htext hpiece => ?_
    exact bindResult_does (stringCopyFromStr_makes hworld hempty allocates
      (borrowed_shows hholds hpiece) hholds.data_lt)
  | fromUnicodeScalar scalar => exact fromUnicodeScalar_does hworld allocates hfits
  | reserve slot additional =>
    obtain ⟨val, hslot⟩ := hfits
    obtain ⟨text, htext, _⟩ := hworld.holds hslot
    rcases stringReserve_room hworld allocates hslot htext additional with
      htrap | ⟨next, hreserve, hroom⟩
    · exact answerDone_trap htrap
    · have hnext := hroom.represents
      rw [set_of_getElem? htext] at hnext
      exact answerDone_does hreserve hnext
  | pushStr slot source =>
    obtain ⟨⟨val, hslot⟩, hne, owner, hsrc⟩ := hfits
    refine withStr_does hworld hsrc fun {text piece} hholds htext hpiece => ?_
    exact pushStr_does hworld allocates hslot hne hsrc htext hpiece
      (borrowed_shows hholds hpiece).length
  | push slot scalar =>
    obtain ⟨⟨val, hslot⟩, hvalid⟩ := hfits
    exact push_does hworld allocates hslot hvalid
  | truncate slot newLength =>
    obtain ⟨val, hslot⟩ := hfits
    exact truncate_does hworld hslot
  | clear slot =>
    obtain ⟨val, hslot⟩ := hfits
    exact clear_does hworld hslot
  | fromUtf8 slot =>
    obtain ⟨val, hslot⟩ := hfits
    exact fromUtf8_does hworld hempty hslot
  | intoBytes slot =>
    obtain ⟨val, hslot⟩ := hfits
    exact intoBytes_does hworld allocates hslot
  | vecWithCapacity capacity =>
    exact bindResult_does (rawAlloc_makes hworld allocates .bytes (.inl rfl))
  | vecPush slot byte =>
    obtain ⟨val, hslot⟩ := hfits
    exact vecPush_does hworld allocates byte hslot
  | drop slot =>
    obtain ⟨owner, hslot⟩ := hfits
    exact drop_does hworld hslot

end

end Salicin.Strings
