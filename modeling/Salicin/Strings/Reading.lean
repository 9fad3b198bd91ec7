import Salicin.Strings.Storage

/-!
# Reading and carrying bytes

What the raw operations, the loops that carry bytes and the views of text do in a world that
holds texts.
-/

namespace Salicin.Strings

open Nat List

/-! ## Raw operations -/

variable {owner : Owner}

section
variable {world : World}

theorem rawRead_ok {block offset : Nat} {byte : UInt8}
    (hcell : (world.memory[block]?).bind (fun storage => storage.cell offset) = some byte) :
    rawRead block offset world = .ok byte world := by
  rw [rawRead, hcell]

theorem rawInit_ok {block offset : Nat} {cells : List (Option UInt8)} (byte : UInt8)
    (hblock : world.memory[block]? = some (.allocated cells)) (hoffset : offset < cells.length) :
    rawInit block offset byte world = .ok () { world with
      memory := world.memory.set block (.allocated (cells.set offset (some byte))) } := by
  rw [rawInit, hblock]
  exact if_pos hoffset

theorem rawDealloc_ok {block : Nat} {cells : List (Option UInt8)}
    (hblock : world.memory[block]? = some (.allocated cells)) :
    rawDealloc block cells.length world =
      .ok () { world with memory := world.memory.set block .freed } := by
  rw [rawDealloc, hblock]
  exact if_pos rfl

theorem rawAlloc_cases (world : World) (allocates : List Block → Nat → Bool) (size : Nat) :
    rawAlloc allocates size world = .error .trap world ∨
    (size ≤ u64Max ∧ rawAlloc allocates size world = .ok world.memory.length { world with
      memory := world.memory ++ [.allocated (List.replicate size none)] }) := by
  rw [rawAlloc]
  split_ifs with hroom
  · exact .inr ⟨hroom.1, rfl⟩
  · exact .inl rfl

theorem ownerAt_ok {slot : Nat} (hslot : world.owners[slot]? = some (some owner)) :
    ownerAt slot world = .ok owner world := by
  rw [ownerAt, hslot]

end

variable {i : Nat}

theorem set_of_getElem? {α : Type} {list : List α} {val : α} (hval : list[i]? = some val) :
    list.set i val = list := by
  obtain ⟨hidx, rfl⟩ := List.getElem?_eq_some_iff.mp hval
  exact set_getElem_self hidx

/-! ## Loops -/

theorem forBytes_rule (read : Nat → Machine UInt8) (write : Nat → UInt8 → Machine Unit)
    (count : Nat) (P : Nat → World → Prop) (hstep : ∀ i world, i < count → P i world →
      ∃ byte next, read i world = .ok byte world ∧ write i byte world = .ok () next ∧
        P (i + 1) next) {remaining : Nat} (hcount : i + remaining = count) (world : World)
    (hworld : P i world) :
    ∃ next, forBytes read write remaining i world = .ok () next ∧ P count next := by
  induction remaining generalizing i world with
  | zero =>
    obtain rfl : i = count := hcount
    exact ⟨world, rfl, hworld⟩
  | succ remaining ih =>
    obtain ⟨byte, next, hread, hwrite, hnext⟩ := hstep i world (by omega) hworld
    obtain ⟨last, hlast, hcounted⟩ := ih (by omega) next hnext
    refine ⟨last, ?_, hcounted⟩
    rw [forBytes, run_bind hread, run_bind hwrite, hlast]

/-- Copying into allocated storage. The bytes that are read do not change under the writes. -/
theorem forBytes_copy (read : Nat → Machine UInt8) (world : World) (target : Nat)
    (cells : List (Option UInt8)) (text : List UInt8)
    (htgt : world.memory[target]? = some (.allocated cells))
    (hroom : text.length ≤ cells.length)
    (hread : ∀ i (hidx : i < text.length) (storage : Block),
      read i { world with memory := world.memory.set target storage } =
        .ok text[i] { world with memory := world.memory.set target storage }) :
    forBytes read (rawInit target) text.length 0 world = .ok () { world with
      memory := world.memory.set target
        (.allocated (text.map some ++ cells.drop text.length)) } := by
  have hin : target < world.memory.length := (List.getElem?_eq_some_iff.mp htgt).1
  -- The cells below the index hold the text already.
  obtain ⟨next, hloop, hnext⟩ := forBytes_rule read (rawInit target) text.length
    (fun i next => next = { world with
      memory := world.memory.set target
        (.allocated ((text.take i).map some ++ cells.drop i)) })
    (by
      rintro i _ hidx rfl
      have hcells : (text.take i).map some ++ cells.drop i =
          (text.take i).map some ++ cells[i] :: cells.drop (i + 1) := by
        rw [drop_eq_getElem_cons]
      refine ⟨text[i], _, hread i hidx _, rawInit_ok (text[i])
        (List.getElem?_set_self hin) ?_, ?_⟩
      · rw [length_append, length_map, length_take, length_drop]
        omega
      · rw [set_set, hcells, take_succ_eq_append_getElem hidx]
        have hfront : ((text.take i).map some).length = i := by
          rw [length_map, length_take, Nat.min_eq_left hidx.le]
        rw [set_append_right _ _ (by rw [hfront]), hfront, Nat.sub_self, set_cons_zero,
          map_append, append_assoc]
        rfl)
    (zero_add text.length) world (by
      rw [take_zero, map_nil, nil_append, drop_zero]
      rw [set_of_getElem? htgt])
  rw [hloop, hnext, take_length]

variable {text : List UInt8} {statics : List (List UInt8)} {mem : List Block}

theorem Holds.data_lt (hholds : Holds statics mem owner text) : owner.buffer.data < mem.length := by
  cases hholds with
  | static hstatic hblock hlen => exact (List.getElem?_eq_some_iff.mp hblock).1
  | owned howned hblock hcap hbound hroom hcells => exact (List.getElem?_eq_some_iff.mp hblock).1

/-- What a view shows of the memory. -/
structure Shows (mem : List Block) (view : View) (text : List UInt8) : Prop where
  length : view.length = text.length
  cell : ∀ {i : Nat} (hidx : i < text.length),
    (mem[view.data]?).bind (fun storage => storage.cell (view.offset + i)) = some text[i]

theorem Holds.shows (hholds : Holds statics mem owner text) : Shows mem owner.buffer.view text := by
  refine ⟨hholds.length_eq, fun {i} hidx => ?_⟩
  rw [Buffer.view, zero_add, hholds.cell hidx, getElem?_eq_getElem hidx]

variable {world : World} {view : View}

theorem Shows.at_ok (hview : Shows world.memory view text) (hidx : i < text.length) :
    view.at i world = .ok text[i] world := by
  rw [View.at, if_pos (by rw [hview.length]; exact hidx)]
  exact rawRead_ok (hview.cell hidx)

theorem Shows.part (hview : Shows mem view text) {start finish : Nat}
    (hfinish : finish ≤ text.length) :
    Shows mem ⟨view.data, view.offset + start, finish - start⟩
      ((text.take finish).drop start) := by
  refine ⟨by rw [length_drop, length_take, Nat.min_eq_left hfinish], fun {i} hidx => ?_⟩
  rw [length_drop, length_take, Nat.min_eq_left hfinish] at hidx
  rw [add_assoc, hview.cell (by omega), getElem_drop, getElem_take]

theorem loadFrom_ok (hview : Shows world.memory view text) {remaining : Nat}
    (hcount : i + remaining = text.length) :
    loadFrom view remaining i world = .ok (text.drop i) world := by
  induction remaining generalizing i with
  | zero =>
    rw [loadFrom, drop_of_length_le (by omega)]
    rfl
  | succ remaining ih =>
    have hidx : i < text.length := by omega
    rw [loadFrom, run_bind (hview.at_ok hidx), run_bind (ih (by omega)), drop_eq_getElem_cons hidx]
    rfl

theorem firstInvalidUtf8_ok (hview : Shows world.memory view text) :
    ∃ answer, utf8ErrorOffset text = some answer ∧
      view.firstInvalidUtf8 world = .ok answer world := by
  obtain ⟨answer, hans, _⟩ := utf8ErrorOffset_total text
  refine ⟨answer, hans, ?_⟩
  rw [View.firstInvalidUtf8, run_bind (loadFrom_ok hview (by rw [hview.length, zero_add])),
    drop_zero]
  simp only [hans]
  rfl

/-! ## Boundaries -/

/-- An index between the sequences of a text. -/
def Boundary (text : List UInt8) (i : Nat) : Prop :=
  i = 0 ∨ i = text.length ∨ ∃ byte, text[i]? = some byte ∧ isContinuation byte = false

instance (text : List UInt8) (i : Nat) : Decidable (Boundary text i) :=
  decidable_of_iff (i = 0 ∨ i = text.length ∨
    (text[i]?.any fun byte => !isContinuation byte) = true) (by
    unfold Boundary
    cases text[i]? <;> simp)

theorem Boundary.le (hidx : Boundary text i) : i ≤ text.length := by
  rcases hidx with rfl | rfl | ⟨byte, hbyte, _⟩
  · exact zero_le _
  · exact le_refl _
  · exact (List.getElem?_eq_some_iff.mp hbyte).1.le

theorem isCharBoundary_ok {read : Nat → Machine UInt8}
    (hread : ∀ i (hidx : i < text.length), read i world = .ok text[i] world) (i : Nat) :
    isCharBoundary read text.length i world = .ok (decide (Boundary text i)) world := by
  rw [isCharBoundary]
  by_cases hends : i = 0 ∨ i = text.length
  · have hboundary : Boundary text i := or_assoc.mp (.inl hends)
    rw [if_pos hends, decide_eq_true hboundary]
    rfl
  rw [if_neg hends]
  by_cases hgt : i > text.length
  · rw [if_pos hgt, decide_eq_false fun hidx => not_lt.mpr hidx.le hgt]
    rfl
  · have hlt : i < text.length := by omega
    have hiff : (!isContinuation text[i]) = decide (Boundary text i) := by
      rw [Bool.eq_iff_iff, decide_eq_true_iff, Bool.not_eq_true', Boundary, getElem?_eq_getElem hlt]
      constructor
      · exact fun h => .inr (.inr ⟨_, rfl, h⟩)
      · rintro (h | h | ⟨byte, hbyte, h⟩)
        · exact absurd (.inl h) hends
        · exact absurd (.inr h) hends
        · cases hbyte
          exact h
    rw [if_neg hgt, run_bind (hread i hlt), hiff]
    rfl

/-- The part of a text that `get` returns. -/
def part (text : List UInt8) (start finish : Nat) : Option (List UInt8) :=
  if start ≤ finish ∧ Boundary text start ∧ Boundary text finish then
    some ((text.take finish).drop start)
  else none

theorem get_ok (hview : Shows world.memory view text) (start finish : Nat) :
    view.get start finish world = .ok ((part text start finish).map fun _ =>
      ⟨view.data, view.offset + start, finish - start⟩) world := by
  have hboundary : ∀ i, isCharBoundary view.at view.length i world =
      .ok (decide (Boundary text i)) world := by
    intro i
    rw [hview.length]
    exact isCharBoundary_ok (fun i hidx => hview.at_ok hidx) i
  rw [View.get]
  by_cases hgt : start > finish
  · have hpart : part text start finish = none := if_neg fun h => not_lt.mpr h.1 hgt
    rw [if_pos hgt, hpart]
    rfl
  rw [if_neg hgt, run_bind (hboundary start)]
  by_cases hstart : Boundary text start
  · rw [decide_eq_true hstart, Bool.not_true, if_neg Bool.false_ne_true,
      run_bind (hboundary finish)]
    by_cases hfinish : Boundary text finish
    · have hpart : part text start finish = some ((text.take finish).drop start) :=
        if_pos ⟨Nat.le_of_not_lt hgt, hstart, hfinish⟩
      rw [decide_eq_true hfinish, hpart]
      rfl
    · have hpart : part text start finish = none := if_neg fun h => hfinish h.2.2
      rw [decide_eq_false hfinish, hpart]
      rfl
  · have hpart : part text start finish = none := if_neg fun h => hstart h.2.1
    rw [decide_eq_false hstart, hpart]
    rfl

theorem part_eq_some {piece : List UInt8} {start finish : Nat}
    (hpart : part text start finish = some piece) :
    Boundary text start ∧ Boundary text finish ∧ piece = (text.take finish).drop start := by
  rw [part] at hpart
  split_ifs at hpart with hbounds
  exact ⟨hbounds.2.1, hbounds.2.2, (Option.some_inj.mp hpart).symm⟩

/-- The text that a source stands for. -/
def borrowed (kind : Kind) (text : List UInt8) (source : Source) : Option (List UInt8) :=
  match kind with
  | .string => part text source.start source.finish
  | .bytes =>
    if utf8ErrorOffset text = some none then part text source.start source.finish else none

theorem borrowed_eq_some {kind : Kind} {piece : List UInt8} {src : Source}
    (hpiece : borrowed kind text src = some piece) :
    part text src.start src.finish = some piece ∧
      (kind = .bytes → utf8ErrorOffset text = some none) := by
  cases kind with
  | string => exact ⟨hpiece, fun h => by cases h⟩
  | bytes =>
    rw [borrowed] at hpiece
    split_ifs at hpiece with hvalid
    exact ⟨hpiece, fun _ => hvalid⟩

theorem borrowStr_ok {src : Source} (hslot : world.owners[src.slot]? = some (some owner))
    (hholds : Holds statics world.memory owner text) :
    borrowStr src world = .ok ((borrowed owner.kind text src).map fun _ =>
      ⟨owner.buffer.data, src.start, src.finish - src.start⟩) world := by
  have hget := get_ok hholds.shows src.start src.finish
  have hoffset : owner.buffer.view.offset + src.start = src.start := zero_add _
  rw [hoffset] at hget
  rw [borrowStr, run_bind (ownerAt_ok hslot)]
  cases hkind : owner.kind with
  | string => exact hget
  | bytes =>
    obtain ⟨answer, hans, hvalidate⟩ := firstInvalidUtf8_ok hholds.shows
    simp only [borrowed, hans, Option.some_inj]
    rw [run_bind hvalidate]
    cases answer with
    | none =>
      rw [if_pos rfl]
      exact hget
    | some offset =>
      rw [if_neg (fun h => by cases h)]
      rfl

theorem borrowed_shows {src : Source} {piece : List UInt8} (hholds : Holds statics mem owner text)
    (hpiece : borrowed owner.kind text src = some piece) :
    Shows mem ⟨owner.buffer.data, src.start, src.finish - src.start⟩ piece := by
  obtain ⟨_, hfinish, rfl⟩ := part_eq_some (borrowed_eq_some hpiece).1
  have hoffset : owner.buffer.view.offset + src.start = src.start := zero_add _
  have hshown : Shows mem ⟨owner.buffer.view.data, owner.buffer.view.offset + src.start,
    src.finish - src.start⟩ ((text.take src.finish).drop src.start) :=
    hholds.shows.part hfinish.le
  rwa [hoffset] at hshown

end Salicin.Strings
