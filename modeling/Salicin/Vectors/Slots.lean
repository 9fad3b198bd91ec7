import Salicin.Vectors.Storage

/-!
# The slots of a vector

A vector holds its elements in the slots below its length and no other ones. What the raw
operations do to its slots, and what they leave of other storage.
-/

namespace Salicin.Vectors

open Function List StatefulResults

/-! ## Slots -/

variable {right left : Nat}

section
variable {T : Type}

/-- The elements lie in the slots from the first one on. -/
def cellsFrom (first : Nat) (items : List T) : Nat → Option T :=
  fun slot => if slot < first then none else items[slot - first]?

/-- The elements lie around a slot that holds none. -/
def opened (items : List T) (gap : Nat) : Nat → Option T :=
  fun slot => if slot < gap then items[slot]? else if slot = gap then none else items[slot - 1]?

variable (items : List T)

theorem cellsFrom_zero : cellsFrom 0 items = fun slot => items[slot]? := by
  funext slot
  rw [cellsFrom, if_neg (Nat.not_lt_zero slot), Nat.sub_zero]

theorem cellsFrom_zero_eq {i : Nat} (hidx : i < items.length) :
    cellsFrom 0 items i = some items[i] := by
  rw [cellsFrom_zero]
  exact getElem?_eq_getElem hidx

theorem cellsFrom_nil (first : Nat) : cellsFrom first ([] : List T) = fun _ => none := by
  funext slot
  rw [cellsFrom, getElem?_nil, ite_self]

theorem cellsFrom_cons_self (first : Nat) (item : T) (rest : List T) :
    cellsFrom first (item :: rest) first = some item := by
  rw [cellsFrom, if_neg (Nat.lt_irrefl first), Nat.sub_self, getElem?_cons_zero]

theorem update_cellsFrom_cons (first : Nat) (item : T) (rest : List T) :
    Function.update (cellsFrom first (item :: rest)) first none = cellsFrom (first + 1) rest := by
  funext slot
  by_cases hslot : slot = first
  · rw [hslot, update_self, cellsFrom, if_pos (Nat.lt_succ_self first)]
  · rw [update_of_ne hslot, cellsFrom, cellsFrom]
    by_cases hlt : slot < first
    · rw [if_pos hlt, if_pos (Nat.lt_succ_of_lt hlt)]
    · have hnext : slot - first = slot - (first + 1) + 1 := by omega
      rw [if_neg hlt, if_neg (by omega), hnext, getElem?_cons_succ]

theorem update_push (val : T) :
    Function.update (cellsFrom 0 items) items.length (some val) =
      cellsFrom 0 (items ++ [val]) := by
  rw [cellsFrom_zero, cellsFrom_zero]
  funext slot
  by_cases hslot : slot = items.length
  · rw [hslot, update_self, getElem?_concat_length]
  · rw [update_of_ne hslot]
    grind

theorem update_last (val : T) :
    Function.update (cellsFrom 0 (items ++ [val])) items.length none = cellsFrom 0 items := by
  rw [← update_push, update_idem, update_eq_self_iff, cellsFrom_zero]
  exact (getElem?_eq_none (Nat.le_refl _)).symm

theorem update_set {i : Nat} (hidx : i < items.length) (val : T) :
    Function.update (cellsFrom 0 items) i (some val) =
      cellsFrom 0 (items.set i val) := by
  rw [cellsFrom_zero, cellsFrom_zero]
  funext slot
  by_cases hslot : slot = i
  · rw [hslot, update_self, getElem?_set_self hidx]
  · rw [update_of_ne hslot, getElem?_set_ne (Ne.symm hslot)]

theorem opened_length : opened items items.length = cellsFrom 0 items := by
  rw [cellsFrom_zero]
  funext slot
  rw [opened]
  grind

theorem update_erase (index : Nat) :
    Function.update (cellsFrom 0 items) index none = opened (items.eraseIdx index) index := by
  rw [cellsFrom_zero]
  funext slot
  rw [opened]
  by_cases hslot : slot = index
  · rw [hslot, update_self, if_neg (Nat.lt_irrefl index), if_pos rfl]
  · rw [update_of_ne hslot, getElem?_eraseIdx, getElem?_eraseIdx]
    grind

theorem update_insert {i : Nat} (hidx : i ≤ items.length) (val : T) :
    Function.update (opened items i) i (some val) =
      cellsFrom 0 (items.insertIdx i val) := by
  rw [cellsFrom_zero]
  funext slot
  by_cases hslot : slot = i
  · rw [hslot, update_self, getElem?_insertIdx_self, if_pos hidx]
  · rw [update_of_ne hslot, opened, getElem?_insertIdx]
    grind

theorem update_again (cells : Nat → Option T) (first second : Nat) (val : Option T) :
    Function.update (Function.update (Function.update cells first none) second none) first val =
      Function.update (Function.update cells second none) first val := by
  funext slot
  simp only [update_apply]
  grind

/-- The list with two elements in each other's place. -/
def swapped (items : List T) (left right : Nat) : List T :=
  match items[left]?, items[right]? with
  | some leftValue, some rightValue => (items.set left rightValue).set right leftValue
  | _, _ => items

theorem swapped_eq {items : List T} (hleft : left < items.length) (hright : right < items.length) :
    swapped items left right = (items.set left items[right]).set right items[left] := by
  rw [swapped, getElem?_eq_getElem hleft, getElem?_eq_getElem hright]

theorem swapped_length (left right : Nat) :
    (swapped items left right).length = items.length := by
  rw [swapped]
  split
  · rw [length_set, length_set]
  · rfl

theorem getElem?_swapped {items : List T} (hleft : left < items.length)
    (hright : right < items.length) (i : Nat) : (swapped items left right)[i]? =
      if i = right then items[left]? else if i = left then items[right]?
      else items[i]? := by
  rw [swapped_eq hleft hright, getElem?_set, getElem?_set]
  grind

theorem update_swapped (hleft : left < items.length)
    (hright : right < items.length) :
    Function.update (Function.update (Function.update (Function.update (cellsFrom 0 items)
      left none) right none) left (some items[right])) right (some items[left]) =
      cellsFrom 0 (swapped items left right) := by
  have hset := update_set (items.set left items[right])
    (show right < _ by rw [length_set]; exact hright) items[left]
  rw [swapped_eq hleft hright, ← hset, ← update_set items hleft]
  funext slot
  simp only [update_apply]
  grind

theorem opened_up {gap : Nat} (hgap : gap < items.length) :
    Function.update (Function.update (opened items (gap + 1)) gap none) (gap + 1)
      (some items[gap]) = opened items gap := by
  funext slot
  simp only [update_apply, opened]
  grind

theorem opened_down {gap : Nat} (hgap : gap < items.length) :
    Function.update (Function.update (opened items gap) (gap + 1) none) gap (some items[gap]) =
      opened items (gap + 1) := by
  funext slot
  simp only [update_apply, opened]
  grind

end

/-! ## Raw operations -/

section
variable {T V : Type}

def State.put (state : State T V) (ptr : Nat) (block : Option (Block T)) : State T V :=
  { state with memory := state.memory.set ptr block }

/-- The block is allocated. -/
def State.Has (state : State T V) (ptr : Nat) (size : Nat) (cells : Nat → Option T) : Prop :=
  state.memory[ptr]? = some (some ⟨size, cells⟩)

section
variable {state : State T V} {ptr size : Nat} {cells : Nat → Option T}

theorem State.put_put (state : State T V) (ptr : Nat) (first second : Option (Block T)) :
    (state.put ptr first).put ptr second = state.put ptr second := by
  rw [put, put, put, set_set]

theorem State.Has.lt (hblock : state.Has ptr size cells) : ptr < state.memory.length :=
  (List.getElem?_eq_some_iff.mp hblock).1

theorem State.Has.put_self (hblock : state.Has ptr size cells) :
    state.put ptr (some ⟨size, cells⟩) = state := by
  obtain ⟨hlt, hcell⟩ := List.getElem?_eq_some_iff.mp hblock
  rw [put, ← hcell, set_getElem_self hlt]

theorem State.Has.put (hblock : state.Has ptr size cells) (size' : Nat)
    (cells' : Nat → Option T) :
    (state.put ptr (some ⟨size', cells'⟩)).Has ptr size' cells' :=
  getElem?_set_self hblock.lt

theorem State.put_comm (state : State T V) {first second : Nat} (hne : first ≠ second)
    (block block' : Option (Block T)) :
    (state.put first block).put second block' = (state.put second block').put first block := by
  rw [State.put, State.put, State.put, State.put, set_comm _ _ hne]

theorem State.Has.put_other (hblock : state.Has ptr size cells) {other : Nat}
    (hne : other ≠ ptr) (block : Option (Block T)) :
    (state.put other block).Has ptr size cells :=
  (getElem?_set_ne hne).trans hblock

theorem blockAt_ok (hblock : state.Has ptr size cells) :
    blockAt ptr state = .ok ⟨size, cells⟩ state := by
  rw [blockAt, hblock]

theorem rawDealloc_ok (hblock : state.Has ptr size cells) :
    rawDealloc ptr size state = .ok () (state.put ptr none) := by
  rw [rawDealloc, run_bind (blockAt_ok hblock), if_pos rfl]
  rfl

variable [Stored T] {cap : Nat}

theorem Block.contains_of_lt {offset : Nat} (hoffset : offset < cap) (cells : Nat → Option T) :
    (Block.mk (cap * Stored.sizeOf T) cells).Contains offset :=
  Nat.mul_le_mul_right _ hoffset

theorem rawTake_ok (hblock : state.Has ptr size cells) {offset : Nat}
    (hinside : (Block.mk size cells).Contains offset) {val : T} (hval : cells offset = some val) :
    rawTake ptr offset state = .ok val
      (state.put ptr (some ⟨size, Function.update cells offset none⟩)) := by
  rw [rawTake, run_bind (blockAt_ok hblock), if_pos hinside]
  simp only [hval]
  rfl

theorem rawInit_ok (hblock : state.Has ptr size cells) {offset : Nat}
    (hinside : (Block.mk size cells).Contains offset) (val : T) :
    rawInit ptr offset val state = .ok ()
      (state.put ptr (some ⟨size, Function.update cells offset (some val)⟩)) := by
  rw [rawInit, run_bind (blockAt_ok hblock), if_pos hinside]
  rfl

theorem rawBorrow_ok (hblock : state.Has ptr size cells) {offset : Nat}
    (hinside : (Block.mk size cells).Contains offset) {val : T}
    (hval : cells offset = some val) : rawBorrow ptr offset state = .ok val state := by
  rw [rawBorrow, run_bind (blockAt_ok hblock), if_pos hinside]
  simp only [hval]
  rfl

/-- There is storage for so many elements. -/
def Available (allocates : Memory T → Nat → Bool) (mem : Memory T) (cap : Nat) : Prop :=
  cap ≤ u64Max ∧ cap * Stored.sizeOf T ≤ u64Max ∧ allocates mem (cap * Stored.sizeOf T) = true

theorem vecLayoutSize_ok (hsize : cap * Stored.sizeOf T ≤ u64Max) :
    vecLayoutSize T cap state = .ok (cap * Stored.sizeOf T) state := by
  have hcheck : ¬ (Stored.sizeOf T ≠ 0 ∧ cap > u64Max / Stored.sizeOf T) := by
    rintro ⟨hzero, hlarge⟩
    have := (Nat.div_lt_iff_lt_mul (Nat.pos_of_ne_zero hzero)).mp hlarge
    omega
  rw [vecLayoutSize, if_neg hcheck, mulU64, if_pos hsize]
  rfl

theorem vecLayoutSize_trap (hsize : u64Max < cap * Stored.sizeOf T) :
    vecLayoutSize T cap state = .error .trap state := by
  have hcheck : Stored.sizeOf T ≠ 0 ∧ cap > u64Max / Stored.sizeOf T := by
    have hzero : Stored.sizeOf T ≠ 0 := by
      intro hzero
      rw [hzero, Nat.mul_zero] at hsize
      exact Nat.not_lt_zero _ hsize
    exact ⟨hzero, (Nat.div_lt_iff_lt_mul (Nat.pos_of_ne_zero hzero)).mpr hsize⟩
  rw [vecLayoutSize, if_pos hcheck]
  rfl

variable {allocates : Memory T → Nat → Bool}

theorem vecAllocate_ok (havail : Available allocates state.memory cap) :
    vecAllocate allocates cap state = .ok state.memory.length { state with
      memory := state.memory ++ [some ⟨cap * Stored.sizeOf T, fun _ => none⟩] } := by
  rw [vecAllocate, run_bind (vecLayoutSize_ok havail.2.1), rawAlloc, if_pos havail.2.2]

theorem vecAllocate_trap (hcap : cap ≤ u64Max) (hrefused : ¬ Available allocates state.memory cap) :
    vecAllocate allocates cap state = .error .trap state := by
  rcases Nat.lt_or_ge u64Max (cap * Stored.sizeOf T) with hlarge | hsize
  · rw [vecAllocate, run_bind_error (vecLayoutSize_trap hlarge)]
  · rw [vecAllocate, run_bind (vecLayoutSize_ok hsize), rawAlloc,
      if_neg fun hfound => hrefused ⟨hcap, hsize, hfound⟩]

theorem vecDeallocate_ok (hsize : cap * Stored.sizeOf T ≤ u64Max)
    (hblock : state.Has ptr (cap * Stored.sizeOf T) cells) :
    vecDeallocate ptr cap state = .ok () (state.put ptr none) := by
  rw [vecDeallocate, run_bind (vecLayoutSize_ok hsize), rawDealloc_ok hblock]

end

/-! ## Arithmetic and loops -/

theorem addU64_ok (hsum : left + right ≤ u64Max) (state : State T V) :
    addU64 left right state = .ok (left + right) state := by
  rw [addU64, if_pos hsum]
  rfl

theorem subU64_ok (hle : right ≤ left) (state : State T V) :
    subU64 left right state = .ok (left - right) state := by
  rw [subU64, if_pos hle]
  rfl

theorem mulU64_ok (hproduct : left * right ≤ u64Max) (state : State T V) :
    mulU64 left right state = .ok (left * right) state := by
  rw [mulU64, if_pos hproduct]
  rfl

theorem readLocals_ok (state : State T V) : readLocals state = .ok state.locals state := rfl

theorem borrowing_ok {W α : Type} {part : V → W} {put : V → W → V} {action : Machine T W α}
    {state : State T V} {answer : α} {next : State T W}
    (hrun : action { state with locals := part state.locals } = .ok answer next) :
    borrowing part put action state =
      .ok answer { next with locals := put state.locals next.locals } := by
  rw [borrowing, hrun]

theorem borrowing_error {W α : Type} {part : V → W} {put : V → W → V} {action : Machine T W α}
    {state : State T V} {stop : Stop} {next : State T W}
    (hrun : action { state with locals := part state.locals } = .error stop next) :
    borrowing part put action state =
      .error stop { next with locals := put state.locals next.locals } := by
  rw [borrowing, hrun]

end

/-! ## What stays -/

section
variable {T : Type}

/-- Other storage stays as it is, and new storage has an owner. -/
structure Frame (mem : Memory T) (old : Option Nat) (mem' : Memory T) (new : Option Nat) :
    Prop where
  length_le : mem.length ≤ mem'.length
  kept : ∀ ptr < mem.length, old ≠ some ptr → mem'[ptr]? = mem[ptr]?
  owned : ∀ {ptr : Nat} {block : Block T}, mem'[ptr]? = some (some block) →
    old = some ptr ∨ mem.length ≤ ptr → new = some ptr
  source : ∀ {ptr : Nat}, new = some ptr → old = some ptr ∨ mem.length ≤ ptr

section
variable {mem : Memory T} {ptr : Nat}

theorem Frame.set (block : Option (Block T)) (hptr : ptr < mem.length) :
    Frame mem (some ptr) (mem.set ptr block)
      (if block.isSome = true then some ptr else none) := by
  have hinside : ∀ {other : Nat} {entry : Block T},
      (mem.set ptr block)[other]? = some (some entry) → other < mem.length := by
    intro other entry hentry
    rw [← length_set]
    exact (List.getElem?_eq_some_iff.mp hentry).1
  refine ⟨Nat.le_of_eq length_set.symm, fun other _ hne => ?_, fun hentry hother => ?_, ?_⟩
  · exact List.getElem?_set_ne fun h => hne (congrArg some h)
  · rcases hother with hsame | hge
    · cases hsame
      rw [List.getElem?_set_self hptr, Option.some_inj] at hentry
      rw [hentry, Option.isSome_some, if_pos rfl]
    · exact absurd (hinside hentry) (Nat.not_lt.mpr hge)
  · intro other hother
    split_ifs at hother
    exact .inl hother

theorem Frame.put (block : Block T) (hptr : ptr < mem.length) :
    Frame mem (some ptr) (mem.set ptr (some block)) (some ptr) :=
  Frame.set (some block) hptr

theorem Frame.free (hptr : ptr < mem.length) : Frame mem (some ptr) (mem.set ptr none) none :=
  Frame.set none hptr

theorem Frame.alloc (mem : Memory T) (block : Block T) :
    Frame mem none (mem ++ [some block]) (some mem.length) := by
  refine ⟨by rw [length_append]; omega, fun other hlt _ => List.getElem?_append_left hlt,
    fun {other entry} hentry hother => ?_, fun h => .inr (Nat.le_of_eq (Option.some_inj.mp h))⟩
  have hge : mem.length ≤ other := hother.resolve_left nofun
  have hlt := (List.getElem?_eq_some_iff.mp hentry).1
  rw [length_append, length_singleton] at hlt
  exact congrArg some (by omega)

/-- The elements are in new storage, and the old one is released. -/
theorem Frame.regrow (block : Block T) (hptr : ptr < mem.length) :
    Frame mem (some ptr) ((mem ++ [some block]).set ptr none)
      (some mem.length) := by
  have hlonger : (mem ++ [some block]).length = mem.length + 1 := length_append
  refine ⟨by rw [length_set]; omega, fun other hlt hne => ?_,
    fun {other entry} hentry hother => ?_, fun h => .inr (Nat.le_of_eq (Option.some_inj.mp h))⟩
  · rw [List.getElem?_set_ne fun h => hne (congrArg some h), List.getElem?_append_left hlt]
  · rcases hother with hsame | hge
    · cases hsame
      rw [List.getElem?_set_self (by omega)] at hentry
      cases hentry
    · have hlt := (List.getElem?_eq_some_iff.mp hentry).1
      rw [length_set] at hlt
      exact congrArg some (by omega)

theorem Frame.refl (mem : Memory T) (old : Option Nat) : Frame mem old mem old := by
  refine ⟨Nat.le_refl _, fun _ _ _ => rfl, fun hentry hother => ?_, .inl⟩
  exact hother.resolve_right (Nat.not_le.mpr (List.getElem?_eq_some_iff.mp hentry).1)

theorem Frame.trans {old middle new : Option Nat} {mem' mem'' : Memory T}
    (hfst : Frame mem old mem' middle) (hsnd : Frame mem' middle mem'' new) :
    Frame mem old mem'' new := by
  refine ⟨Nat.le_trans hfst.length_le hsnd.length_le, fun other hlt hne => ?_,
    fun {other block} hblock hother => ?_, fun {other} hnew => ?_⟩
  · have hmid : middle ≠ some other := by
      intro h
      rcases hfst.source h with hold | hge
      · exact hne hold
      · exact absurd hlt (Nat.not_lt.mpr hge)
    rw [hsnd.kept other (Nat.lt_of_lt_of_le hlt hfst.length_le) hmid, hfst.kept other hlt hne]
  · by_cases hmid : middle = some other ∨ mem'.length ≤ other
    · exact hsnd.owned hblock hmid
    · obtain ⟨hne, hlt⟩ := not_or.mp hmid
      rw [hsnd.kept other (Nat.lt_of_not_le hlt) hne] at hblock
      exact absurd (hfst.owned hblock hother) hne
  · rcases hsnd.source hnew with hmid | hge
    · exact hfst.source hmid
    · exact .inr (Nat.le_trans hfst.length_le hge)

end

end

/-! ## What a vector holds -/

section
variable {T : Type} [Stored T]

/-- The elements lie in the slots from the first one to the length. -/
structure Holds (mem : Memory T) (ptr first length cap : Nat) (items : List T) :
    Prop where
  block : mem[ptr]? = some (some ⟨cap * Stored.sizeOf T, cellsFrom first items⟩)
  length_eq : length = first + items.length
  length_le : length ≤ cap
  capacity_le : cap ≤ u64Max
  size_le : cap * Stored.sizeOf T ≤ u64Max

def Vec.Holds (values : Vec) (mem : Memory T) (items : List T) : Prop :=
  Vectors.Holds mem values.pointer 0 values.length values.storageCapacity items

def VecIntoIter.Holds (values : VecIntoIter) (mem : Memory T) (items : List T) : Prop :=
  Vectors.Holds mem values.pointer values.nextIndex values.length values.storageCapacity items

theorem Vec.Holds.length {values : Vec} {mem : Memory T} {items : List T}
    (hvals : values.Holds mem items) : values.length = items.length := by
  rw [hvals.length_eq, Nat.zero_add]

/-- The operation leaves these elements and drops those. -/
def Does {α : Type} (op : Machine T Vec α) (state : State T Vec) (answer : α)
    (dropped items : List T) : Prop :=
  ∃ next, op state = .ok answer next ∧ next.dropped = state.dropped ++ dropped ∧
    next.locals.Holds next.memory items ∧
    Frame state.memory (some state.locals.pointer) next.memory (some next.locals.pointer)

section
variable {α : Type} {op : Machine T Vec α} {state : State T Vec} {answer : α}
  {items : List T}

theorem Vec.Holds.has (hvals : state.locals.Holds state.memory items) :
    state.Has state.locals.pointer (state.locals.storageCapacity * Stored.sizeOf T)
      (cellsFrom 0 items) :=
  hvals.block

/-- The storage stays. Slots and the length change, and elements are dropped. -/
def State.after (state : State T Vec) (cells : Nat → Option T) (dropped : List T) (length : Nat) :
    State T Vec :=
  ⟨state.memory.set state.locals.pointer
      (some ⟨state.locals.storageCapacity * Stored.sizeOf T, cells⟩),
    state.dropped ++ dropped, ⟨state.locals.pointer, length, state.locals.storageCapacity⟩⟩

theorem Vec.Holds.start (hvals : state.locals.Holds state.memory items) :
    state.after (cellsFrom 0 items) [] items.length = state := by
  rw [State.after, append_nil, ← hvals.length]
  exact hvals.has.put_self

theorem Does.inPlace {dropped items' : List T} (hvals : state.locals.Holds state.memory items)
    (hlen : items'.length ≤ state.locals.storageCapacity)
    (hrun : op (state.after (cellsFrom 0 items) [] items.length) =
      .ok answer (state.after (cellsFrom 0 items') dropped items'.length)) :
    Does op state answer dropped items' := by
  rw [hvals.start] at hrun
  exact ⟨_, hrun, rfl, ⟨getElem?_set_self hvals.has.lt, (Nat.zero_add _).symm, hlen,
    hvals.capacity_le, hvals.size_le⟩, Frame.put _ hvals.has.lt⟩

theorem Does.of_eq {op' : Machine T Vec α} {dropped : List T} (hsame : op state = op' state)
    (hdoes : Does op' state answer dropped items) :
    Does op state answer dropped items := by
  obtain ⟨next, hrun, hnext⟩ := hdoes
  exact ⟨next, hsame.trans hrun, hnext⟩

theorem Does.same (hvals : state.locals.Holds state.memory items)
    (hrun : op state = .ok answer state) : Does op state answer [] items := by
  refine Does.inPlace hvals (hvals.length ▸ hvals.length_le) ?_
  rw [hvals.start, hrun]

end

end

end Salicin.Vectors
