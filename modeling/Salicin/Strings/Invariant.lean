import Salicin.Strings.Texts

/-!
# The representation of strings in every run

Strings hold well-formed text, static storage stays as it is, and owned storage is released by
its one owner.
-/

namespace Salicin.Strings

open Nat List

/-! ## Text between boundaries -/

theorem continuation_of_sequence {sequence : List UInt8} (hseq : Utf8.Sequence sequence)
    {i : Nat} {byte : UInt8} (hpos : 0 < i) (hbyte : sequence[i]? = some byte) :
    isContinuation byte = true := by
  have hwithin : Utf8.Within 0x80 0xBF byte := by
    cases hseq <;> rcases i with _ | _ | _ | _ | i <;> first
      | exact absurd hpos (lt_irrefl 0)
      | cases hbyte
    all_goals
      unfold Utf8.Within at *
      omega
  rw [isContinuation_eq]
  exact decide_eq_true hwithin

variable {text : List UInt8}

theorem wellFormed_take (htext : Utf8.WellFormed text) {i : Nat} (hidx : Boundary text i) :
    Utf8.WellFormed (text.take i) := by
  induction htext generalizing i with
  | nil =>
    rw [take_nil]
    exact .nil
  | @cons sequence rest hseq hrest ih =>
    have hlen : 0 < sequence.length := length_pos_iff.mpr hseq.ne_nil
    rcases lt_or_ge i sequence.length with hlt | hge
    · rcases hidx with rfl | hend | ⟨byte, hbyte, hfst⟩
      · exact .nil
      · rw [length_append] at hend
        omega
      · rw [getElem?_append_left hlt] at hbyte
        rcases Nat.eq_zero_or_pos i with rfl | hpos
        · exact .nil
        · rw [continuation_of_sequence hseq hpos hbyte] at hfst
          cases hfst
    · rw [take_append, take_of_length_le hge]
      refine .cons hseq (ih ?_)
      rcases hidx with rfl | hend | ⟨byte, hbyte, hfst⟩
      · exact .inl (Nat.zero_sub _)
      · rw [length_append] at hend
        exact .inr (.inl (by omega))
      · rw [getElem?_append_right hge] at hbyte
        exact .inr (.inr ⟨byte, hbyte, hfst⟩)

theorem wellFormed_part {piece : List UInt8} (htext : Utf8.WellFormed text) {start finish : Nat}
    (hpiece : part text start finish = some piece) :
    Utf8.WellFormed piece := by
  rw [part] at hpiece
  split_ifs at hpiece with hbounds
  obtain ⟨hle, hstart, hfinish⟩ := hbounds
  obtain rfl := Option.some_inj.mp hpiece
  have hwhole := wellFormed_take htext hfinish
  rw [← take_append_drop start (text.take finish), take_take, min_eq_left hle] at hwhole
  exact (wellFormed_take htext hstart).of_append hwhole

/-! ## Valid texts -/

/-- Strings hold well-formed text. Vectors hold any bytes. -/
def Valid (texts : Texts) : Prop :=
  ∀ (slot : Nat) (text : List UInt8), texts[slot]? = some (some (.string, text)) →
    Utf8.WellFormed text

variable {texts : Texts}

theorem Valid.append (htexts : Valid texts) {kind : Kind}
    (htext : kind = .string → Utf8.WellFormed text) : Valid (texts ++ [some (kind, text)]) := by
  intro slot other hother
  by_cases hlt : slot < texts.length
  · rw [getElem?_append_left hlt] at hother
    exact htexts slot other hother
  · rw [getElem?_append_right (Nat.le_of_not_lt hlt)] at hother
    cases hrest : slot - texts.length with
    | zero =>
      rw [hrest] at hother
      cases hother
      exact htext rfl
    | succ more =>
      rw [hrest] at hother
      cases hother

theorem Valid.set (htexts : Valid texts) (slot : Nat) {entry : Option (Kind × List UInt8)}
    (hentry : ∀ text, entry = some (.string, text) → Utf8.WellFormed text) :
    Valid (texts.set slot entry) := by
  intro other text htext
  by_cases hne : slot = other
  · subst hne
    have hlt := (List.getElem?_eq_some_iff.mp htext).1
    rw [length_set] at hlt
    rw [List.getElem?_set_self hlt] at htext
    exact hentry text (Option.some_inj.mp htext)
  · rw [List.getElem?_set_ne hne] at htext
    exact htexts other text htext

theorem Valid.setText (htexts : Valid texts) (slot : Nat) (htext : Utf8.WellFormed text) :
    Valid (texts.set slot (some (.string, text))) :=
  htexts.set slot fun _ hentry => by
    cases hentry
    exact htext

theorem wellFormed_encoding {scalar : UnicodeScalar} (hvalid : scalar.Valid) :
    Utf8.WellFormed (encoding scalar) := by
  obtain ⟨character, rfl⟩ := hvalid.exists_char
  rw [encoding_ofChar]
  exact (Utf8.sequence_utf8EncodeChar character).wellFormed

theorem Valid.sourceText (htexts : Valid texts) {src : Source} {piece : List UInt8}
    (hpiece : sourceText texts src = some piece) :
    Utf8.WellFormed piece := by
  rw [Strings.sourceText] at hpiece
  split at hpiece
  · rename_i kind text htext
    obtain ⟨hpart, hvalid⟩ := borrowed_eq_some hpiece
    apply wellFormed_part _ hpart
    cases kind with
    | string => exact htexts src.slot text htext
    | bytes =>
      obtain ⟨answer, hans, hexact⟩ := @utf8ErrorOffset_total text
      cases hans.symm.trans (hvalid rfl)
      exact hexact
  · cases hpiece

theorem effect_valid {statics : List (List UInt8)} {world : World}
    (hworld : Represents statics world texts) (hstatics : ∀ bytes ∈ statics, Utf8.WellFormed bytes)
    (htexts : Valid texts) {operation : Operation} (hfits : Fits statics world operation) :
    Valid (effect statics texts operation).2 := by
  have htextAt : ∀ {slot value}, world.owners[slot]? = some (some ⟨.string, value⟩) →
      Utf8.WellFormed (textAt texts slot) := by
    intro slot value hslot
    obtain ⟨text, htext, _⟩ := hworld.holds hslot
    rw [textAt_eq htext]
    exact htexts slot text htext
  cases operation with
  | literal i =>
    refine htexts.append fun _ => hstatics _ ?_
    rw [getD_eq_getElem?_getD, getElem?_eq_getElem hfits, Option.getD_some]
    exact getElem_mem hfits
  | new => exact htexts.append fun _ => .nil
  | withCapacity capacity => exact htexts.append fun _ => .nil
  | fromStr src =>
    rw [effect]
    cases hpiece : sourceText texts src with
    | none => exact htexts
    | some piece => exact htexts.append fun _ => htexts.sourceText hpiece
  | fromUnicodeScalar scalar => exact htexts.append fun _ => wellFormed_encoding hfits
  | reserve slot additional => exact htexts
  | pushStr slot src =>
    obtain ⟨⟨value, hslot⟩, _⟩ := hfits
    rw [effect]
    cases hpiece : sourceText texts src with
    | none => exact htexts
    | some piece =>
      exact htexts.setText slot ((htextAt hslot).append (htexts.sourceText hpiece))
  | push slot scalar =>
    obtain ⟨⟨value, hslot⟩, hvalid⟩ := hfits
    exact htexts.setText slot ((htextAt hslot).append (wellFormed_encoding hvalid))
  | truncate slot newLength =>
    obtain ⟨value, hslot⟩ := hfits
    rw [effect]
    split_ifs with hinside
    · exact htexts.setText slot (wellFormed_take (htextAt hslot) hinside)
    · exact htexts
  | clear slot => exact htexts.setText slot .nil
  | fromUtf8 slot =>
    rw [effect]
    obtain ⟨answer, hans, hexact⟩ := utf8ErrorOffset_total (textAt texts slot)
    rw [hans]
    cases answer with
    | none => exact htexts.setText slot hexact
    | some validPrefix => exact htexts
  | intoBytes slot => exact htexts.set slot fun _ h => by cases h
  | vecWithCapacity capacity => exact htexts.append fun h => by cases h
  | vecPush slot byte => exact htexts.set slot fun _ h => by cases h
  | drop slot => exact htexts.set slot fun _ h => by cases h

/-! ## Every run -/

theorem staticTexts_wellFormed (literals : List (List Char)) :
    ∀ bytes ∈ staticTexts literals, Utf8.WellFormed bytes := by
  intro bytes hbytes
  rcases mem_cons.mp hbytes with rfl | hbytes
  · exact .nil
  · obtain ⟨characters, _, rfl⟩ := mem_map.mp hbytes
    exact Utf8.wellFormed_iff.mpr ⟨characters, rfl⟩

theorem initial_represents (literals : List (List Char)) :
    Represents (staticTexts literals) (.initial literals) [] := by
  refine ⟨fun {i bytes} hbytes => ?_, fun slot => .outside, fun hfst => (by cases hfst),
    fun {block cells} hcells => ?_⟩
  · rw [World.initial, getElem?_map, hbytes]
    rfl
  · rw [World.initial, getElem?_map, Option.map_eq_some_iff] at hcells
    obtain ⟨bytes, _, h⟩ := hcells
    cases h

theorem Reachable.represents {allocates : List Block → Nat → Bool} {literals : List (List Char)}
    {world : World} (hworld : Reachable allocates literals world) :
    ∃ texts, Represents (staticTexts literals) world texts ∧ Valid texts := by
  induction hworld with
  | initial => exact ⟨[], initial_represents literals, fun _ _ h => by cases h⟩
  | @step world next operation answer _ hfits hrun ih =>
    obtain ⟨texts, hrep, hvalid⟩ := ih
    have hkept := effect_valid hrep (staticTexts_wellFormed literals) hvalid hfits
    rcases run_does hrep rfl allocates hfits with htrap | ⟨after, hdone, hnext, _⟩
    · rw [htrap] at hrun
      cases hrun
    · rw [hdone] at hrun
      cases hrun
      exact ⟨_, hnext, hkept⟩

/-- The representation of strings in a world, and what a call can do there. -/
structure Sound (allocates : List Block → Nat → Bool) (literals : List (List Char))
    (world : World) : Prop where
  text : ∀ {slot : Nat} {value : Buffer}, world.owners[slot]? = some (some ⟨.string, value⟩) →
    ∃ text, Shows world.memory value.view text ∧ Utf8.WellFormed text
  capacity : ∀ {slot : Nat} {owner : Owner} {block : Nat},
    world.owners[slot]? = some (some owner) → owner.storage = some block →
    owner.buffer.length ≤ owner.buffer.storageCapacity ∧
      ∃ cells, world.memory[block]? = some (.allocated cells) ∧
        cells.length = owner.buffer.storageCapacity
  borrowed : ∀ {slot : Nat} {value : Buffer},
    world.owners[slot]? = some (some ⟨.string, value⟩) → value.storageCapacity = 0 →
    ∃ bytes, (staticTexts literals)[value.data]? = some bytes ∧ value.length ≤ bytes.length
  static : ∀ {i : Nat} {bytes : List UInt8}, (staticTexts literals)[i]? = some bytes →
    world.memory[i]? = some (.literal bytes)
  owned : ∀ {block : Nat} {cells : List (Option UInt8)},
    world.memory[block]? = some (.allocated cells) →
    ∃! slot : Nat, ∃ owner : Owner, world.owners[slot]? = some (some owner) ∧
      owner.storage = some block
  released : (∀ (slot : Nat) (owner : Owner), world.owners[slot]? ≠ some (some owner)) →
    ∀ (block : Nat) (cells : List (Option UInt8)), world.memory[block]? ≠ some (.allocated cells)
  call : ∀ {operation : Operation}, Fits (staticTexts literals) world operation →
    run allocates operation world = .error .trap world ∨
    ∃ answer next, run allocates operation world = .ok answer next ∧ (answer.Failed → next = world)

/-- In every run strings hold well-formed text within their storage, and static storage stays as
it is. Allocated storage has one owner, so that it is released once, and all of it is when no
variable is left. A call never writes or releases what it may not, and changes nothing when it
traps or fails. -/
theorem reachable_sound {allocates : List Block → Nat → Bool} {literals : List (List Char)}
    {world : World} (hworld : Reachable allocates literals world) :
    Sound allocates literals world := by
  obtain ⟨texts, hrep, hvalid⟩ := hworld.represents
  refine ⟨?_, ?_, ?_, hrep.literals, ?_, ?_, ?_⟩
  · intro slot value hslot
    obtain ⟨text, htext, hholds⟩ := hrep.holds hslot
    exact ⟨text, hholds.shows, hvalid slot text htext⟩
  · intro slot owner block hslot hstorage
    obtain ⟨text, _, hholds⟩ := hrep.holds hslot
    obtain ⟨_, hroom, _, cells, hcells, hcap, _⟩ := hholds.allocated hstorage
    rw [hholds.length_eq]
    exact ⟨hroom, cells, hcells, hcap⟩
  · intro slot value hslot hzero
    obtain ⟨text, _, hholds⟩ := hrep.holds hslot
    cases hholds with
    | static hstatic hblock hlen => exact ⟨_, hstatic, hlen⟩
    | owned howned hblock hcap hbound hroom hcells =>
      rcases howned with hkind | hcapacious
      · cases hkind
      · exact absurd hzero hcapacious
  · intro block cells hcells
    obtain ⟨slot, owner, hslot, hstorage⟩ := hrep.accounted hcells
    refine ⟨slot, ⟨owner, hslot, hstorage⟩, ?_⟩
    rintro other ⟨owner', hother, hstorage'⟩
    exact hrep.unique hother hslot hstorage' hstorage
  · intro hnone block cells hcells
    obtain ⟨slot, owner, hslot, _⟩ := hrep.accounted hcells
    exact hnone slot owner hslot
  · intro operation hfits
    rcases run_does hrep rfl allocates hfits with htrap | ⟨next, hdone, _, hfailed⟩
    · exact .inl htrap
    · exact .inr ⟨_, next, hdone, hfailed⟩

/-- A static string of one character that gets another one moves to storage of its own. -/
theorem reachable_sound_push : Sound (fun _ _ => true) [['a']]
    ⟨[.literal [], .literal [97], .allocated [some 97, some 98]],
      [some ⟨.string, ⟨2, 2, 2⟩⟩]⟩ := by
  have hliteral : Reachable (fun _ _ => true) [['a']]
      ⟨[.literal [], .literal [97]], [some ⟨.string, ⟨1, 1, 0⟩⟩]⟩ :=
    .step (.literal 1) .done .initial (lt_succ_self 1) rfl
  exact reachable_sound (.step (.push 0 ⟨98⟩) .done hliteral ⟨⟨_, rfl⟩, by decide⟩ rfl)

end Salicin.Strings
