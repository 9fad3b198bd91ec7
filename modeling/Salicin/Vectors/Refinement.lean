import Mathlib.Logic.Equiv.Basic
import Salicin.Vectors.Lists

/-!
# Vectors are lists

A program over variables that hold vectors and their iterators does what it does with lists in
their place. It ends early only in a trap, before anything has changed, and every element that
enters a vector is returned or dropped once, or it is still in one.
-/

namespace Salicin.Vectors

open Nat Option List StatefulResults

/-! ## Variables -/

section
variable {T α : Type} {state : State T Variables} {contents : Contents T} {slot : Nat}
  {values : Vec}

/-- The vector in a variable. -/
def vecIn (owners : Variables) (slot : Nat) : Vec :=
  match owners[slot]? with
  | some (some (.vec values)) => values
  | _ => ⟨0, 0, 0⟩

theorem onVec_eq (hslot : state.locals[slot]? = some (some (.vec values)))
    (action : Machine T Vec α) :
    onVec slot action state = borrowing (fun _ => values)
      (fun owners values => owners.set slot (some (.vec values))) action state := by
  rw [onVec, hslot]

theorem onVec_trap (hslot : state.locals[slot]? = some (some (.vec values)))
    {action : Machine T Vec α}
    (htrap : action ⟨state.memory, state.dropped, values⟩ =
      .error .trap ⟨state.memory, state.dropped, values⟩) :
    onVec slot action state = .error .trap state := by
  rw [onVec_eq hslot, borrowing_error htrap]
  exact congrArg (EStateM.Result.error Stop.trap) (by rw [set_same hslot])

end

section
variable {T : Type} [Stored T]

/-- What a variable stands for. -/
inductive HoldsSlot (mem : Memory T) :
    Option (Option Owner) → Option (Option (Value T)) → Prop
  | outside : HoldsSlot mem none none
  | moved : HoldsSlot mem (some none) (some none)
  | vec {values : Vec} {items : List T} (hholds : values.Holds mem items) :
      HoldsSlot mem (some (some (.vec values))) (some (some (.vec items)))
  | iterator {values : VecIntoIter} {remaining : List T}
      (hholds : values.Holds mem remaining) :
      HoldsSlot mem (some (some (.iterator values))) (some (some (.iterator remaining)))

/-- Every variable holds its elements, and allocated storage has one owner. -/
structure Represents (mem : Memory T) (owners : Variables) (contents : Contents T) : Prop where
  slots : ∀ slot : Nat, HoldsSlot mem owners[slot]? contents[slot]?
  unique : ∀ {slot slot' : Nat} {owner owner' : Owner}, owners[slot]? = some (some owner) →
    owners[slot']? = some (some owner') → owner.pointer = owner'.pointer → slot = slot'
  accounted : ∀ {pointer : Nat} {block : Block T}, mem[pointer]? = some (some block) →
    ∃ (slot : Nat) (owner : Owner), owners[slot]? = some (some owner) ∧ owner.pointer = pointer

section
variable {mem : Memory T} {owners : Variables} {contents : Contents T} {new : Option Owner}
  {entry : Option (Value T)}

theorem HoldsSlot.allocated {owner : Owner} {entry : Option (Option (Value T))}
    (hslot : HoldsSlot mem (some (some owner)) entry) :
    ∃ block, mem[owner.pointer]? = some (some block) := by
  cases hslot with
  | vec hholds => exact ⟨_, hholds.block⟩
  | iterator hholds => exact ⟨_, hholds.block⟩

variable {mem' : Memory T}

theorem HoldsSlot.of_block {owner : Option (Option Owner)} {entry : Option (Option (Value T))}
    (hslot : HoldsSlot mem owner entry) (hsame : ∀ val, owner = some (some val) →
      mem'[val.pointer]? = mem[val.pointer]?) : HoldsSlot mem' owner entry := by
  cases hslot with
  | outside => exact .outside
  | moved => exact .moved
  | vec hholds => exact .vec (Holds.of_block hholds (hsame _ rfl))
  | iterator hholds => exact .iterator (Holds.of_block hholds (hsame _ rfl))

variable {slot : Nat}

section
variable (hstate : Represents mem owners contents)
include hstate

theorem Represents.lt {owner : Owner} (hslot : owners[slot]? = some (some owner)) :
    owner.pointer < mem.length := by
  have hrel := hstate.slots slot
  rw [hslot] at hrel
  obtain ⟨block, hblock⟩ := hrel.allocated
  exact (List.getElem?_eq_some_iff.mp hblock).1

theorem Represents.length_eq : owners.length = contents.length := by
  have hfst := hstate.slots owners.length
  have hsnd := hstate.slots contents.length
  rw [getElem?_eq_none (Nat.le_refl owners.length)] at hfst
  rw [getElem?_eq_none (Nat.le_refl contents.length)] at hsnd
  generalize hentry : contents[owners.length]? = entry at hfst
  generalize howner : owners[contents.length]? = owner at hsnd
  cases hfst
  cases hsnd
  rw [getElem?_eq_none_iff] at hentry howner
  omega

theorem Represents.vec (hvec : IsVec contents slot) :
    owners[slot]? = some (some (.vec (vecIn owners slot))) ∧
      (vecIn owners slot).Holds mem (itemsAt contents slot) := by
  have hrel := hstate.slots slot
  rw [hvec.entry] at hrel
  rw [vecIn]
  generalize owners[slot]? = owner at hrel
  cases hrel with
  | vec hholds => exact ⟨rfl, hholds⟩

theorem Represents.iterator {remaining : List T}
    (hslot : contents[slot]? = some (some (.iterator remaining))) :
    ∃ values, owners[slot]? = some (some (.iterator values)) ∧
      values.Holds mem remaining := by
  have hrel := hstate.slots slot
  rw [hslot] at hrel
  generalize howner : owners[slot]? = owner at hrel
  cases hrel with
  | iterator hholds => exact ⟨_, rfl, hholds⟩

theorem Represents.replace {old new : Option Owner} {entry : Option (Value T)}
    (hslot : owners[slot]? = some old)
    (hframe : Frame mem (old.map Owner.pointer) mem' (new.map Owner.pointer))
    (hentry : HoldsSlot mem' (some new) (some entry)) :
    Represents mem' (owners.set slot new) (contents.set slot entry) := by
  have hin : slot < owners.length := (List.getElem?_eq_some_iff.mp hslot).1
  have hself : (owners.set slot new)[slot]? = some new := List.getElem?_set_self hin
  have hother : ∀ {other : Nat}, slot ≠ other → (owners.set slot new)[other]? = owners[other]? :=
    fun hne => List.getElem?_set_ne hne
  -- Storage of another variable is not that of the old value.
  have hkept : ∀ {other : Nat} {owner : Owner}, slot ≠ other →
      owners[other]? = some (some owner) → old.map Owner.pointer ≠ some owner.pointer := by
    intro other owner hne howner hsame
    obtain ⟨prev, rfl, hptr⟩ := map_eq_some_iff.mp hsame
    exact hne (hstate.unique hslot howner hptr)
  have hnew : ∀ {other : Nat} {owner owner' : Owner}, slot ≠ other → new = some owner →
      owners[other]? = some (some owner') → owner.pointer ≠ owner'.pointer := by
    rintro other owner owner' hne rfl howner hsame
    rcases hframe.source rfl with hold | hge
    · exact hkept hne howner (hsame ▸ hold)
    · exact absurd (hstate.lt howner) (Nat.not_lt.mpr (hsame ▸ hge))
  refine ⟨fun other => ?_, ?_, ?_⟩
  · by_cases hne : slot = other
    · subst hne
      rw [hself, List.getElem?_set_self (hstate.length_eq ▸ hin)]
      exact hentry
    · rw [hother hne, List.getElem?_set_ne hne]
      refine (hstate.slots other).of_block fun owner howner => ?_
      exact hframe.kept _ (hstate.lt howner) (hkept hne howner)
  · intro first second owner owner' hfst hsnd hptr
    by_cases hslot₁ : slot = first
    · by_cases hslot₂ : slot = second
      · exact hslot₁.symm.trans hslot₂
      · subst hslot₁
        rw [hself, some_inj] at hfst
        rw [hother hslot₂] at hsnd
        exact absurd hptr (hnew hslot₂ hfst hsnd)
    · rw [hother hslot₁] at hfst
      by_cases hslot₂ : slot = second
      · subst hslot₂
        rw [hself, some_inj] at hsnd
        exact absurd hptr.symm (hnew hslot₁ hsnd hfst)
      · rw [hother hslot₂] at hsnd
        exact hstate.unique hfst hsnd hptr
  · intro pointer block hblock
    by_cases hmine : old.map Owner.pointer = some pointer ∨ mem.length ≤ pointer
    · obtain ⟨owner, rfl, hptr⟩ := map_eq_some_iff.mp (hframe.owned hblock hmine)
      exact ⟨slot, owner, hself, hptr⟩
    · obtain ⟨hne, hlt⟩ := not_or.mp hmine
      rw [hframe.kept pointer (Nat.lt_of_not_le hlt) hne] at hblock
      obtain ⟨other, owner, howner, hptr⟩ := hstate.accounted hblock
      have hdifferent : slot ≠ other := by
        rintro rfl
        rw [hslot, some_inj] at howner
        subst howner
        exact hne (congrArg some hptr)
      exact ⟨other, owner, (hother hdifferent).trans howner, hptr⟩

theorem Represents.permute (order : Nat ≃ Nat) {owners' : Variables} {contents' : Contents T}
    (howners : ∀ slot, owners'[slot]? = owners[order slot]?)
    (hcontents : ∀ slot, contents'[slot]? = contents[order slot]?) :
    Represents mem owners' contents' := by
  refine ⟨fun slot => ?_, fun hfst hsnd hptr => ?_, fun hblock => ?_⟩
  · rw [howners, hcontents]
    exact hstate.slots (order slot)
  · rw [howners] at hfst hsnd
    exact order.injective (hstate.unique hfst hsnd hptr)
  · obtain ⟨slot, owner, howner, hptr⟩ := hstate.accounted hblock
    exact ⟨order.symm slot, owner, by rw [howners, Equiv.apply_symm_apply, howner], hptr⟩

end

theorem getElem?_append_none {α : Type} (list : List (Option α)) (slot : Nat) :
    (list ++ [none])[slot]? = if slot = list.length then some none else list[slot]? := by
  grind

theorem Represents.vacant (hstate : Represents mem owners contents) :
    Represents mem (owners ++ [none]) (contents ++ [none]) := by
  have hlen := hstate.length_eq
  have hold : ∀ {slot : Nat} {owner : Owner}, (owners ++ [none])[slot]? = some (some owner) →
      owners[slot]? = some (some owner) := by
    intro slot owner howner
    rw [getElem?_append_none] at howner
    by_cases hlast : slot = owners.length
    · rw [if_pos hlast] at howner
      cases howner
    · rwa [if_neg hlast] at howner
  refine ⟨fun slot => ?_, fun hfst hsnd => hstate.unique (hold hfst) (hold hsnd),
    fun hblock => ?_⟩
  · rw [getElem?_append_none, getElem?_append_none, hlen]
    split_ifs
    · exact .moved
    · exact hstate.slots slot
  · obtain ⟨slot, owner, howner, hptr⟩ := hstate.accounted hblock
    exact ⟨slot, owner, by
      rw [List.getElem?_append_left (List.getElem?_eq_some_iff.mp howner).1, howner], hptr⟩

theorem set_append_none {α : Type} (list : List (Option α)) (val : Option α) :
    (list ++ [none]).set list.length val = list ++ [val] := by
  rw [set_append_right _ _ (Nat.le_refl _), Nat.sub_self, set_cons_zero]

theorem Represents.bind (hstate : Represents mem owners contents) {owner : Owner}
    {val : Value T} (hframe : Frame mem none mem' (some owner.pointer))
    (hentry : HoldsSlot mem' (some (some owner)) (some (some val))) :
    Represents mem' (owners ++ [some owner]) (contents ++ [some val]) := by
  have hvacant : (owners ++ [none])[owners.length]? = some none := getElem?_concat_length
  have hbound : Represents mem' ((owners ++ [none]).set owners.length (some owner))
      ((contents ++ [none]).set owners.length (some val)) :=
    hstate.vacant.replace hvacant hframe hentry
  rwa [set_append_none, hstate.length_eq, set_append_none] at hbound

theorem getElem?_set_append {α : Type} {list : List α} {val : α} (hval : list[slot]? = some val)
    (new : α) (other : Nat) : (list.set slot new ++ [val])[other]? =
      (list ++ [new])[Equiv.swap slot list.length other]? := by
  have hslot := (List.getElem?_eq_some_iff.mp hval).1
  rw [Equiv.swap_apply_def]
  grind

/-- A value moves out of its variable, which gets the new one, into the next variable. -/
theorem Represents.moveOut (hstate : Represents mem (owners ++ [new]) (contents ++ [entry]))
    (hlen : owners.length = contents.length) {owner : Option Owner} {val : Option (Value T)}
    (howner : owners[slot]? = some owner) (hval : contents[slot]? = some val) :
    Represents mem (owners.set slot new ++ [owner]) (contents.set slot entry ++ [val]) :=
  hstate.permute (Equiv.swap slot owners.length) (getElem?_set_append howner new)
    (hlen ▸ getElem?_set_append hval entry)

theorem Represents.take {values fresh : Vec} {items : List T}
    (hstate : Represents mem owners contents) (howner : owners[slot]? = some (some (.vec values)))
    (hval : contents[slot]? = some (some (.vec items)))
    (hframe : Frame mem none mem' (some fresh.pointer)) (hfresh : fresh.Holds mem' []) :
    Represents mem' (owners.set slot (some (.vec fresh)) ++ [some (.vec values)])
      (contents.set slot (some (.vec [])) ++ [some (.vec items)]) :=
  have hbound : Represents mem' (owners ++ [some (.vec fresh)]) (contents ++ [some (.vec [])]) :=
    hstate.bind hframe (.vec hfresh)
  hbound.moveOut hstate.length_eq howner hval

theorem Represents.intoIter {values : Vec} {items : List T}
    (hstate : Represents mem owners contents) (howner : owners[slot]? = some (some (.vec values)))
    (hval : contents[slot]? = some (some (.vec items))) (hholds : values.Holds mem items) :
    Represents mem (owners.set slot none ++ [some (.iterator values.intoIter)])
      (contents.set slot none ++ [some (.iterator items)]) := by
  have hiterator : Represents mem (owners.set slot (some (.iterator values.intoIter)))
      (contents.set slot (some (.iterator items))) :=
    hstate.replace howner (Frame.refl mem (some values.pointer)) (.iterator hholds)
  have hself : ∀ {α : Type} {list : List α} {old : α} (new : α), list[slot]? = some old →
      (list.set slot new)[slot]? = some new := fun new hold =>
    List.getElem?_set_self (List.getElem?_eq_some_iff.mp hold).1
  have hmoved := hiterator.vacant.moveOut hiterator.length_eq (hself _ howner) (hself _ hval)
  rwa [set_set, set_set] at hmoved

end

/-! ## Steps -/

/-- The capacity that an operation asks the allocator for. -/
def request (owners : Variables) : Operation T → Option Nat
  | .new | .take _ => some 0
  | .withCapacity cap => some cap
  | .reserve slot additional => reserveRequest (vecIn owners slot) additional
  | .push slot _ | .insert slot _ _ => reserveRequest (vecIn owners slot) 1
  | .append slot other => reserveRequest (vecIn owners slot) (vecIn owners other).length
  | .shrinkToFit slot =>
    if (vecIn owners slot).length = (vecIn owners slot).storageCapacity then none
    else some (vecIn owners slot).length
  | _ => none

section
variable (allocates : Memory T → Nat → Bool) (state : State T Variables) (contents : Contents T)
  (op : Operation T)

/-- The operation traps where an index is out of range or storage is refused, and nothing has
changed. Else it does what it does to lists. -/
def Steps : Prop :=
  ((effect contents op = none ∨ Refused allocates state.memory (request state.locals op)) ∧
    execute allocates op state = .error .trap state) ∨
  (¬ Refused allocates state.memory (request state.locals op) ∧
    ∃ outcome next, effect contents op = some outcome ∧
      execute allocates op state = .ok outcome.answer next ∧
      Represents next.memory next.locals outcome.contents ∧
      next.dropped = state.dropped ++ outcome.dropped)

end

section
variable {α : Type} {allocates : Memory T → Nat → Bool} {state : State T Variables}
  {contents : Contents T} {op : Operation T} {slot : Nat}

theorem not_refused_none (mem : Memory T) : ¬ Refused allocates mem none := by
  rintro ⟨cap, hreq, _⟩
  cases hreq

theorem not_refused_some {mem : Memory T} {cap : Nat} (havail : Available allocates mem cap) :
    ¬ Refused allocates mem (some cap) := by
  rintro ⟨_, hreq, hrefused⟩
  cases hreq
  exact hrefused havail

/-- The state behind a variable that is borrowed. -/
def State.vecAt (state : State T Variables) (slot : Nat) : State T Vec :=
  ⟨state.memory, state.dropped, vecIn state.locals slot⟩

theorem Vec.Holds.fresh {mem : Memory T} {cap : Nat} (hcap : cap ≤ u64Max)
    (hsize : cap * Stored.sizeOf T ≤ u64Max) :
    Vec.Holds ⟨mem.length, 0, cap⟩
      (mem ++ [some ⟨cap * Stored.sizeOf T, fun _ => none⟩]) ([] : List T) := by
  refine ⟨?_, rfl, zero_le _, hcap, hsize⟩
  rw [cellsFrom_nil]
  exact getElem?_concat_length

theorem Does.map {state : State T Vec} {items dropped : List T} {action : Machine T Vec α}
    {res : α} (hdoes : Does action state res dropped items) (answer : α → Answer T) :
    Does (do
      let res ← action
      pure (answer res)) state (answer res) dropped items := by
  obtain ⟨next, hrun, hnext⟩ := hdoes
  exact ⟨next, by rw [run_bind hrun]; rfl, hnext⟩

variable (hstate : Represents state.memory state.locals contents)
include hstate

section
variable (hvec : IsVec contents slot)
include hvec

theorem Represents.vecAt :
    (state.vecAt slot).locals.Holds (state.vecAt slot).memory (itemsAt contents slot) :=
  (hstate.vec hvec).2

theorem onVec_does {action : Machine T Vec α} {answer : α} {dropped items : List T}
    (hdoes : Does action (state.vecAt slot) answer dropped items) :
    ∃ next, onVec slot action state = .ok answer next ∧
      Represents next.memory next.locals (contents.set slot (some (.vec items))) ∧
      next.dropped = state.dropped ++ dropped := by
  obtain ⟨hslot, _⟩ := hstate.vec hvec
  obtain ⟨next, hrun, hdropped, hholds, hframe⟩ := hdoes
  exact ⟨_, (onVec_eq hslot action).trans (borrowing_ok hrun),
    hstate.replace hslot hframe (.vec hholds), hdropped⟩

section
variable {action : Machine T Vec α} (answer : α → Answer T)
  (hexecute : execute allocates op = onVec slot do
    let res ← action
    pure (answer res))
include hexecute

theorem Steps.vecTrap (htrap : action (state.vecAt slot) = .error .trap (state.vecAt slot))
    (hreason : effect contents op = none ∨
      Refused allocates state.memory (request state.locals op)) :
    Steps allocates state contents op :=
  .inl ⟨hreason, by rw [hexecute]; exact onVec_trap (hstate.vec hvec).1 (run_bind_error htrap)⟩

theorem Steps.vecDoes {res : α} {dropped items : List T}
    (hdoes : Does action (state.vecAt slot) res dropped items)
    (heff : effect contents op = some (changed contents slot (answer res) dropped items))
    (hallowed : ¬ Refused allocates state.memory (request state.locals op)) :
    Steps allocates state contents op := by
  obtain ⟨next, hrun, hnext, hdropped⟩ := onVec_does hstate hvec (hdoes.map answer)
  exact .inr ⟨hallowed, _, next, heff, hexecute ▸ hrun, hnext, hdropped⟩

end

/-- An operation that returns an element in range, and traps out of range. -/
theorem Steps.vecIndexed {action : Machine T Vec T} (answer : T → Answer T)
    (hexecute : execute allocates op = onVec slot do
      let res ← action
      pure (answer res)) (index : Nat) (after : T → List T)
    (heff : effect contents op = (itemsAt contents slot)[index]?.map fun element =>
      changed contents slot (answer element) [] (after element))
    (hreq : request state.locals op = none)
    (htrap : (state.vecAt slot).locals.length ≤ index →
      action (state.vecAt slot) = .error .trap (state.vecAt slot))
    (hdoes : ∀ hidx : index < (itemsAt contents slot).length,
      Does action (state.vecAt slot) (itemsAt contents slot)[index] []
        (after (itemsAt contents slot)[index])) :
    Steps allocates state contents op := by
  by_cases hidx : index < (itemsAt contents slot).length
  · refine Steps.vecDoes hstate hvec answer hexecute (hdoes hidx) ?_
      (hreq ▸ not_refused_none _)
    rw [heff, getElem?_eq_getElem hidx]
    rfl
  · have hge := Nat.le_of_not_lt hidx
    refine Steps.vecTrap hstate hvec answer hexecute (htrap ?_) (.inl ?_)
    · rwa [(hstate.vecAt hvec).length]
    · rw [heff, getElem?_eq_none hge]
      rfl

end

variable (allocates)

theorem create_steps {cap : Nat} (hcap : cap ≤ u64Max)
    {create : Machine T Variables Vec} (hcreate : create = do
      let pointer ← vecAllocate allocates cap
      pure ⟨pointer, 0, cap⟩) (hexecute : execute allocates op = do
      let values ← create
      bindOwner (.vec values)
      pure .done)
    (heff : effect contents op = some ⟨.done, [], contents ++ [some (.vec [])]⟩)
    (hreq : request state.locals op = some cap) :
    Steps allocates state contents op := by
  by_cases havail : Available allocates state.memory cap
  · let created : State T Variables := ⟨state.memory ++ [some ⟨cap * Stored.sizeOf T,
      fun _ => none⟩], state.dropped,
      state.locals ++ [some (.vec ⟨state.memory.length, 0, cap⟩)]⟩
    have hrun : create state = .ok ⟨state.memory.length, 0, cap⟩
        { created with locals := state.locals } := by
      rw [hcreate, run_bind (vecAllocate_ok havail)]
      rfl
    refine .inr ⟨hreq ▸ not_refused_some havail, _, created, heff, ?_,
      hstate.bind (Frame.alloc _ _) (.vec (Vec.Holds.fresh hcap havail.2.1)),
      (append_nil _).symm⟩
    rw [hexecute, run_bind hrun]
    rfl
  · refine .inl ⟨.inr ⟨cap, hreq, havail⟩, ?_⟩
    have hrun : create state = .error .trap state := by
      rw [hcreate, run_bind_error (vecAllocate_trap hcap havail)]
    rw [hexecute, run_bind_error hrun]

theorem append_steps {other : Nat} (hvec : IsVec contents slot) (hmoved : IsVec contents other)
    (hne : slot ≠ other) : Steps allocates state contents (.append slot other) := by
  obtain ⟨hslot, hvals⟩ := hstate.vec hvec
  obtain ⟨hother, hothers⟩ := hstate.vec hmoved
  generalize hfst : vecIn state.locals slot = values at hslot hvals
  generalize hsnd : vecIn state.locals other = others at hother hothers
  let both : State T (Vec × Vec) := ⟨state.memory, state.dropped, (values, others)⟩
  have hpointers : others.pointer ≠ values.pointer :=
    fun hsame => hne (hstate.unique hslot hother hsame.symm)
  have hborrow : execute allocates (.append slot other) state = borrowing
      (fun _ => (values, others))
      (fun owners both => (owners.set slot (some (.vec both.1))).set other (some (.vec both.2)))
      (vecAppend allocates >>= fun _ => pure .done) state := by
    rw [execute, onVecs, hslot, hother]
  have hreq : request state.locals (.append slot other : Operation T) =
      reserveRequest values others.length := by
    rw [request, hfst, hsnd]
  by_cases hrefused : Refused allocates state.memory (reserveRequest values others.length)
  · have htrap : vecAppend allocates both = .error .trap both := vecAppend_trap hvals hrefused
    refine .inl ⟨.inr (hreq ▸ hrefused), ?_⟩
    rw [hborrow, borrowing_error (run_bind_error htrap)]
    exact congrArg (EStateM.Result.error Stop.trap) (by rw [set_same hslot, set_same hother])
  · obtain ⟨mem, mem', values', others', hrun, hfull, hgrown, hempty, hptr, hframe⟩ :=
      vecAppend_ok (show both.locals.1.Holds both.memory _ from hvals) hothers hpointers hrefused
    have hfst : Represents mem (state.locals.set slot (some (.vec values'))) _ :=
      hstate.replace hslot hgrown (.vec hfull)
    have hkept : (state.locals.set slot (some (.vec values')))[other]? =
        some (some (.vec others)) := (getElem?_set_ne hne).trans hother
    have hreleased : Frame mem (some others.pointer) mem' (some others'.pointer) := by
      nth_rewrite 1 [← hptr]
      exact hframe
    have hdone : (vecAppend allocates >>= fun _ => pure .done : Machine T (Vec × Vec) (Answer T))
        both = .ok .done ⟨mem', state.dropped, (values', others')⟩ := by
      rw [run_bind hrun]
      rfl
    exact .inr ⟨hreq ▸ hrefused, _, _, rfl, hborrow.trans (borrowing_ok hdone),
      hfst.replace hkept hreleased (.vec hempty), (append_nil _).symm⟩

theorem take_steps (hvec : IsVec contents slot) : Steps allocates state contents (.take slot) := by
  obtain ⟨hslot, hvals⟩ := hstate.vec hvec
  by_cases havail : Available allocates state.memory 0
  · let fresh : Vec := ⟨state.memory.length, 0, 0⟩
    let taken : State T Variables := ⟨state.memory ++ [some ⟨0 * Stored.sizeOf T, fun _ => none⟩],
      state.dropped,
      state.locals.set slot (some (.vec fresh)) ++ [some (.vec (vecIn state.locals slot))]⟩
    have htake : vecTake allocates (state.vecAt slot) =
        .ok (vecIn state.locals slot) ⟨taken.memory, state.dropped, fresh⟩ :=
      vecTake_ok havail
    have hrun : onVec slot (vecTake allocates) state = .ok (vecIn state.locals slot)
        { taken with locals := state.locals.set slot (some (.vec fresh)) } := by
      rw [onVec_eq hslot, borrowing_ok htake]
    refine .inr ⟨not_refused_some havail, _, taken, rfl, ?_, hstate.take hslot hvec.entry
      (Frame.alloc _ _) (Vec.Holds.fresh (zero_le _) havail.2.1), (append_nil _).symm⟩
    rw [execute, run_bind hrun]
    rfl
  · have htrap : vecTake allocates (state.vecAt slot) = .error .trap (state.vecAt slot) :=
      vecTake_trap havail
    refine .inl ⟨.inr ⟨0, rfl, havail⟩, ?_⟩
    rw [execute, run_bind_error (onVec_trap hslot htrap)]

theorem intoIter_steps (hvec : IsVec contents slot) :
    Steps allocates state contents (.intoIter slot) := by
  obtain ⟨hslot, hvals⟩ := hstate.vec hvec
  have hread : onVec slot readLocals state = .ok (vecIn state.locals slot) state := by
    rw [onVec_eq hslot, borrowing_ok (readLocals_ok _)]
    exact congrArg (EStateM.Result.ok (vecIn state.locals slot)) (by rw [set_same hslot])
  refine .inr ⟨not_refused_none _, _, ⟨state.memory, state.dropped,
    state.locals.set slot none ++ [some (.iterator (vecIn state.locals slot).intoIter)]⟩, rfl, ?_,
    hstate.intoIter hslot hvec.entry hvals, (append_nil _).symm⟩
  rw [execute, run_bind hread]
  rfl

theorem next_steps (hiterator : IsIterator contents slot) :
    Steps allocates state contents (.next slot) := by
  obtain ⟨values, hslot, hvals⟩ := hstate.iterator hiterator.entry
  have hborrow : execute allocates (.next slot) state = borrowing (fun _ => values)
      (fun owners values => owners.set slot (some (.iterator values)))
      (iteratorNext >>= fun val => pure (.element val)) state := by
    rw [execute, onIterator, hslot]
  obtain ⟨next, hrun, hdropped, hholds, hframe⟩ := iteratorNext_ok
    (show VecIntoIter.Holds (State.mk state.memory state.dropped values).locals _ _ from hvals)
  have hdone : (iteratorNext >>= fun val => pure (.element val) :
      Machine T VecIntoIter (Answer T)) ⟨state.memory, state.dropped, values⟩ =
        .ok (.element (itemsAt contents slot).head?) next := by
    rw [run_bind hrun]
    rfl
  exact .inr ⟨not_refused_none _, _,
    { next with locals := state.locals.set slot (some (.iterator next.locals)) }, rfl,
    hborrow.trans (borrowing_ok hdone), hstate.replace hslot hframe (.iterator hholds),
    hdropped.trans (append_nil _).symm⟩

theorem drop_steps {val : Value T} (hval : contents[slot]? = some (some val)) :
    Steps allocates state contents (.drop slot) := by
  have hdrop : ∃ next, dropVariable slot state = .ok () next ∧
      next.dropped = state.dropped ++ val.items ∧
      Represents next.memory next.locals (contents.set slot none) := by
    cases val with
    | vec items =>
      obtain ⟨hslot, hvals⟩ := hstate.vec ⟨items, hval⟩
      rw [itemsAt_eq hval] at hvals
      have hrun := vecDrop_ok
        (show (state.vecAt slot).locals.Holds state.memory items from hvals)
      refine ⟨⟨state.memory.set (vecIn state.locals slot).pointer none, state.dropped ++ items,
        state.locals.set slot none⟩, ?_, rfl,
        hstate.replace hslot (Frame.free (hstate.lt hslot)) .moved⟩
      rw [dropVariable, hslot]
      dsimp only
      rw [run_bind ((onVec_eq hslot _).trans (borrowing_ok hrun)), moveAway, assign, set_set]
      rfl
    | iterator remaining =>
      obtain ⟨values, hslot, hvals⟩ := hstate.iterator hval
      obtain ⟨values', hrun⟩ := iteratorDrop_ok
        (show VecIntoIter.Holds (State.mk state.memory state.dropped values).locals _ _ from
          hvals)
      refine ⟨⟨state.memory.set values.pointer none, state.dropped ++ remaining,
        state.locals.set slot none⟩, ?_, rfl,
        hstate.replace hslot (Frame.free (hstate.lt hslot)) .moved⟩
      have hborrow : onIterator slot iteratorDrop state =
          .ok () ⟨state.memory.set values.pointer none, state.dropped ++ remaining,
            state.locals.set slot (some (.iterator values'))⟩ := by
        rw [onIterator, hslot]
        dsimp only
        rw [borrowing_ok hrun]
      rw [dropVariable, hslot]
      dsimp only
      rw [run_bind hborrow, moveAway, assign, set_set]
  obtain ⟨next, hrun, hdropped, hnext⟩ := hdrop
  refine .inr ⟨not_refused_none _, _, next, rfl, ?_, hnext, ?_⟩
  · rw [execute, run_bind hrun]
    rfl
  · rw [hdropped, itemsAt_eq hval]

theorem reserve_steps (hvec : IsVec contents slot) {action : Machine T Vec Unit}
    (hexecute : execute allocates op = onVec slot do
      action
      pure .done) {items : List T}
    (heff : effect contents op = some (changed contents slot .done [] items))
    (htrap : (state.vecAt slot).locals.Holds (state.vecAt slot).memory (itemsAt contents slot) →
      Refused allocates state.memory (request state.locals op) →
      action (state.vecAt slot) = .error .trap (state.vecAt slot))
    (hdoes : (state.vecAt slot).locals.Holds (state.vecAt slot).memory (itemsAt contents slot) →
      ¬ Refused allocates state.memory (request state.locals op) →
      Does action (state.vecAt slot) () [] items) : Steps allocates state contents op := by
  have hvals := hstate.vecAt hvec
  by_cases hrefused : Refused allocates state.memory (request state.locals op)
  · exact .vecTrap hstate hvec _ hexecute (htrap hvals hrefused) (.inr hrefused)
  · exact .vecDoes hstate hvec _ hexecute (hdoes hvals hrefused) heff hrefused

theorem steps (hfits : Fits contents op) : Steps allocates state contents op := by
  cases op with
  | new => exact create_steps allocates hstate (zero_le _) rfl rfl rfl rfl
  | withCapacity cap => exact create_steps allocates hstate hfits rfl rfl rfl rfl
  | len slot =>
    have hvals := hstate.vecAt hfits
    refine .vecDoes hstate hfits (fun values : Vec => .count values.length) rfl
      (Does.same hvals rfl) ?_ (not_refused_none _)
    rw [changed_same hfits, effect, hvals.length]
  | isEmpty slot =>
    have hvals := hstate.vecAt hfits
    refine .vecDoes hstate hfits (fun values : Vec => .flag (decide (values.length = 0))) rfl
      (Does.same hvals rfl) ?_ (not_refused_none _)
    rw [changed_same hfits, effect, hvals.length]
  | index slot key =>
    refine .vecIndexed hstate hfits (fun val => .borrowed (some val)) rfl key
      (fun _ => itemsAt contents slot) ?_ rfl vecAt_trap (vecAt_does (hstate.vecAt hfits))
    simp only [changed_same hfits, effect]
  | get slot index =>
    refine .vecDoes hstate hfits .borrowed rfl (vecGet_does (hstate.vecAt hfits) index) ?_
      (not_refused_none _)
    rw [changed_same hfits, effect]
  | reserve slot additional =>
    refine reserve_steps allocates hstate hfits rfl ?_ vecReserve_trap fun hvals hallowed =>
      (vecReserve_moves hvals hallowed).does
    rw [changed_same hfits, effect]
  | push slot val =>
    exact reserve_steps allocates hstate hfits rfl rfl (fun hvals => vecPush_trap hvals)
      fun hvals => vecPush_does hvals val
  | replace slot index val =>
    exact .vecIndexed hstate hfits (fun prev => .element (some prev)) rfl index
      (fun _ => (itemsAt contents slot).set index val) rfl rfl vecReplace_trap
      fun hidx => vecReplace_does (hstate.vecAt hfits) hidx val
  | pop slot =>
    exact .vecDoes hstate hfits .element rfl (vecPop_does (hstate.vecAt hfits)) rfl
      (not_refused_none _)
  | truncate slot newLength =>
    exact .vecDoes hstate hfits (fun _ => .done) rfl
      (vecTruncate_does (hstate.vecAt hfits) newLength) rfl (not_refused_none _)
  | clear slot =>
    exact .vecDoes hstate hfits (fun _ => .done) rfl (vecTruncate_does (hstate.vecAt hfits) 0) rfl
      (not_refused_none _)
  | swapRemove slot index =>
    refine .vecIndexed hstate hfits (fun removed => .element (some removed)) rfl index
      (fun removed => ((itemsAt contents slot).set index
        ((itemsAt contents slot).getLast?.getD removed)).dropLast) rfl rfl vecSwapRemove_trap
      fun hidx => ?_
    have hne := ne_nil_of_length_pos (zero_lt_of_lt hidx)
    rw [getLast?_eq_some_getLast hne]
    exact vecSwapRemove_does (hstate.vecAt hfits) hidx
  | swap slot left right =>
    have hvals := hstate.vecAt hfits
    by_cases hinside :
        left < (itemsAt contents slot).length ∧ right < (itemsAt contents slot).length
    · exact .vecDoes hstate hfits (fun _ => .done) rfl
        (vecSwap_does hvals hinside.1 hinside.2) (if_pos hinside) (not_refused_none _)
    · refine .vecTrap hstate hfits (fun _ => .done) rfl (vecSwap_trap ?_) (.inl (if_neg hinside))
      rw [hvals.length]
      omega
  | reverse slot =>
    exact .vecDoes hstate hfits (fun _ => .done) rfl (vecReverse_does (hstate.vecAt hfits)) rfl
      (not_refused_none _)
  | insert slot index val =>
    by_cases hidx : index ≤ (itemsAt contents slot).length
    · exact reserve_steps allocates hstate hfits rfl (if_pos hidx)
        (fun hvals hrefused => vecInsert_trap hvals (.inr hrefused))
        fun hvals => vecInsert_does hvals hidx val
    · obtain ⟨_, hvals⟩ := hstate.vec hfits
      have hless := hvals.length ▸ Nat.lt_of_not_le hidx
      exact .vecTrap hstate hfits (fun _ => .done) rfl (vecInsert_trap hvals (.inl hless))
        (.inl (if_neg hidx))
  | remove slot index =>
    exact .vecIndexed hstate hfits (fun removed => .element (some removed)) rfl index
      (fun _ => (itemsAt contents slot).eraseIdx index) rfl rfl vecRemove_trap
      (vecRemove_does (hstate.vecAt hfits))
  | append slot other => exact append_steps allocates hstate hfits.1 hfits.2.1 hfits.2.2
  | shrinkToFit slot =>
    refine reserve_steps allocates hstate hfits rfl ?_ (fun hvals hrefused => ?_)
      fun hvals hallowed => vecShrinkToFit_does hvals fun hsame => ?_
    · rw [changed_same hfits, effect]
    · obtain ⟨cap, hcap, hunavailable⟩ := hrefused
      rw [request] at hcap
      split_ifs at hcap with hsame
      cases hcap
      exact vecShrinkToFit_trap hvals hsame hunavailable
    · by_contra hunavailable
      exact hallowed ⟨_, if_neg hsame, hunavailable⟩
  | take slot => exact take_steps allocates hstate hfits
  | intoIter slot => exact intoIter_steps allocates hstate hfits
  | next slot => exact next_steps allocates hstate hfits
  | drop slot =>
    obtain ⟨val, hval⟩ := hfits
    exact drop_steps allocates hstate hval

end

end

/-! ## Runs -/

section
variable {T : Type} [Stored T] (allocates : Memory T → Nat → Bool)

/-- The run of a program: what has been done of it is what is done to lists, and the operation
that it may end with traps. -/
structure Runs (state : State T Variables) (contents : Contents T)
    (operations finished : List (Operation T)) (answers : List (Answer T)) (dropped : List T)
    (last : Contents T) (after : State T Variables) : Prop where
  started : finished <+: operations
  lists : listRun contents finished = some (answers, dropped, last)
  finishes : run allocates finished state = .ok answers after
  represents : Represents after.memory after.locals last
  dropped_eq : after.dropped = state.dropped ++ dropped
  ends : finished = operations ∨ ∃ op more, operations = finished ++ op :: more ∧
    (effect last op = none ∨ Refused allocates after.memory (request after.locals op)) ∧
    run allocates operations state = .error .trap after

theorem exists_runs {state : State T Variables} {contents : Contents T}
    (hstate : Represents state.memory state.locals contents) {ops : List (Operation T)}
    (htyped : WellTyped contents ops) :
    ∃ finished answers dropped last after,
      Runs allocates state contents ops finished answers dropped last after := by
  induction ops generalizing state contents with
  | nil =>
    exact ⟨[], [], [], contents, state, prefix_refl [], rfl, rfl, hstate,
      (append_nil _).symm, .inl rfl⟩
  | cons op rest ih =>
    rcases steps allocates hstate htyped.1 with
      ⟨hreason, htrap⟩ | ⟨_, outcome, next, heff, hrun, hnext, hdropped⟩
    · refine ⟨[], [], [], contents, state, nil_prefix, rfl, rfl, hstate,
        (append_nil _).symm, .inr ⟨op, rest, rfl, hreason, ?_⟩⟩
      rw [run, run_bind_error htrap]
    · obtain ⟨finished, answers, dropped, last, after, hruns⟩ :=
        ih hnext (htyped.2 outcome heff)
      refine ⟨op :: finished, outcome.answer :: answers, outcome.dropped ++ dropped, last,
        after, (prefix_cons_inj op).mpr hruns.started, ?_, ?_, hruns.represents,
        ?_, ?_⟩
      · rw [listRun, heff, bind_eq_bind, bind_some, hruns.lists]
        rfl
      · rw [run, run_bind hrun, run_bind hruns.finishes]
        rfl
      · rw [hruns.dropped_eq, hdropped, append_assoc]
      · rcases hruns.ends with rfl | ⟨stopped, more, rfl, hreason, htrap⟩
        · exact .inl rfl
        · refine .inr ⟨stopped, more, rfl, hreason, ?_⟩
          rw [run, run_bind hrun, run_bind_error htrap]

/-- Every program on vectors is one on lists. The elements that have entered a vector have been
returned or dropped once, or they are still held. -/
theorem vec_refines_list (operations : List (Operation T)) (htyped : WellTyped [] operations) :
    ∃ finished answers dropped last after,
      Runs allocates ⟨[], [], []⟩ [] operations finished answers dropped last after ∧
      (finished.flatMap Operation.entered).Perm
        (answers.flatMap Answer.returned ++ after.dropped ++ held last) := by
  have hempty : Represents (State.mk [] [] [] : State T Variables).memory [] [] :=
    ⟨fun _ => .outside, nofun, nofun⟩
  obtain ⟨finished, answers, dropped, last, after, hruns⟩ := exists_runs allocates hempty htyped
  refine ⟨finished, answers, dropped, last, after, hruns, ?_⟩
  rw [hruns.dropped_eq, nil_append]
  exact listRun_conserves (htyped.of_prefix hruns.started) hruns.lists

/-- The program is stopped by an index that is out of range. -/
theorem vec_refines_list_trap : WellTyped ([] : Contents UInt64) [.new, .push 0 7, .remove 0 1] ∧
    ∃ finished answers dropped last after,
      Runs (fun _ _ => true) ⟨[], [], []⟩ [] [.new, .push 0 (7 : UInt64), .remove 0 1]
        finished answers dropped last after ∧
      (finished.flatMap Operation.entered).Perm
        (answers.flatMap Answer.returned ++ after.dropped ++ held last) := by
  have htyped : WellTyped ([] : Contents UInt64) [.new, .push 0 7, .remove 0 1] := by
    refine ⟨trivial, fun _ hnew => ⟨?_, fun _ hpush => ⟨?_, fun _ _ => trivial⟩⟩⟩
    · cases hnew
      exact ⟨[], rfl⟩
    · cases hnew
      cases hpush
      exact ⟨[7], rfl⟩
  exact ⟨htyped, vec_refines_list (fun _ _ => true) _ htyped⟩

end

end Salicin.Vectors
