import Salicin.Vectors.Slots

/-!
# What the operations on a vector do

Each operation traps before it changes anything, or it leaves the elements of a changed list.
-/

namespace Salicin.Vectors

open Function Nat List StatefulResults State Does Block

/-! ## Elements in place -/

variable {i : Nat}

section
variable {T : Type} [Stored T]

section
variable {state : State T Vec} {items dropped : List T} {cells : Nat → Option T} {len : Nat}

theorem readLocals_after (state : State T Vec) (cells : Nat → Option T) (dropped : List T)
    (len : Nat) :
    readLocals (state.after cells dropped len) =
      .ok ⟨state.locals.pointer, len, state.locals.storageCapacity⟩
        (state.after cells dropped len) :=
  rfl

theorem setLength_after (state : State T Vec) (cells : Nat → Option T) (dropped : List T)
    (len len' : Nat) :
    setLength len' (state.after cells dropped len) = .ok () (state.after cells dropped len') :=
  rfl

theorem dropItem_after (state : State T Vec) (cells : Nat → Option T) (dropped : List T)
    (len : Nat) (item : T) :
    dropItem item (state.after cells dropped len) =
      .ok () (state.after cells (dropped ++ [item]) len) := by
  rw [dropItem, State.after, State.after, append_assoc]

theorem Vec.Holds.after_has (hvals : state.locals.Holds state.memory items) (cells : Nat → Option T)
    (dropped : List T) (len : Nat) : (state.after cells dropped len).Has state.locals.pointer
      (state.locals.storageCapacity * Stored.sizeOf T) cells :=
  getElem?_set_self hvals.has.lt

theorem Vec.Holds.take (hvals : state.locals.Holds state.memory items)
    (hidx : i < state.locals.storageCapacity) {val : T} (hval : cells i = some val) :
    rawTake state.locals.pointer i (state.after cells dropped len) =
      .ok val (state.after (Function.update cells i none) dropped len) := by
  rw [rawTake_ok (hvals.after_has cells dropped len) (contains_of_lt hidx cells)
    hval, State.put, State.after, set_set]
  rfl

theorem Vec.Holds.init (hvals : state.locals.Holds state.memory items)
    (hidx : i < state.locals.storageCapacity) (val : T) :
    rawInit state.locals.pointer i val (state.after cells dropped len) =
      .ok () (state.after (Function.update cells i (some val)) dropped len) := by
  rw [rawInit_ok (hvals.after_has cells dropped len) (contains_of_lt hidx cells)
    val, State.put, State.after, set_set]
  rfl

theorem Vec.Holds.borrow (hvals : state.locals.Holds state.memory items)
    (hidx : i < state.locals.storageCapacity) {val : T} (hval : cells i = some val) :
    rawBorrow state.locals.pointer i (state.after cells dropped len) =
      .ok val (state.after cells dropped len) :=
  rawBorrow_ok (hvals.after_has cells dropped len) (contains_of_lt hidx cells) hval

theorem Vec.Holds.capacity {values : Vec} {mem : Memory T}
    (hvals : values.Holds mem items) : items.length ≤ values.storageCapacity :=
  hvals.length ▸ hvals.length_le

theorem vecAt_trap (hidx : state.locals.length ≤ i) : vecAt i state = .error .trap state := by
  rw [vecAt, run_bind (readLocals_ok state), if_pos hidx]
  rfl

theorem vecAt_does (hvals : state.locals.Holds state.memory items) (hidx : i < items.length) :
    Does (vecAt i) state items[i] [] items := by
  apply inPlace hvals hvals.capacity
  rw [vecAt, run_bind (readLocals_after ..), if_neg (Nat.not_le.mpr hidx),
    hvals.borrow (Nat.lt_of_lt_of_le hidx hvals.capacity) (cellsFrom_zero_eq items hidx)]

theorem vecGet_does (hvals : state.locals.Holds state.memory items) (i : Nat) :
    Does (vecGet i) state items[i]? [] items := by
  apply inPlace hvals hvals.capacity
  rw [vecGet, run_bind (readLocals_after ..)]
  by_cases hidx : i < items.length
  · rw [if_neg (Nat.not_le.mpr hidx), run_bind (hvals.borrow
      (Nat.lt_of_lt_of_le hidx hvals.capacity) (cellsFrom_zero_eq items hidx)),
      getElem?_eq_getElem hidx]
    rfl
  · have hge : items.length ≤ i := Nat.le_of_not_lt hidx
    rw [if_pos hge, getElem?_eq_none hge]
    rfl

theorem vecReplace_trap {val : T} (hidx : state.locals.length ≤ i) :
    vecReplace i val state = .error .trap state := by
  rw [vecReplace, run_bind (readLocals_ok state), if_pos hidx]
  rfl

theorem vecReplace_does (hvals : state.locals.Holds state.memory items)
    (hidx : i < items.length) (val : T) :
    Does (vecReplace i val) state items[i] [] (items.set i val) := by
  have hinside := Nat.lt_of_lt_of_le hidx hvals.capacity
  apply inPlace hvals (by rw [length_set]; exact hvals.capacity)
  rw [vecReplace, run_bind (readLocals_after ..), if_neg (Nat.not_le.mpr hidx),
    run_bind (hvals.take hinside (cellsFrom_zero_eq items hidx)),
    run_bind (hvals.init hinside val), update_idem, update_set items hidx,
    length_set]
  rfl

theorem Vec.Holds.takeLast (hvals : state.locals.Holds state.memory items) {front : List T}
    (hfront : front.length < state.locals.storageCapacity) (last : T) :
    rawTake state.locals.pointer front.length
        (state.after (cellsFrom 0 (front ++ [last])) dropped len) =
      .ok last (state.after (cellsFrom 0 front) dropped len) := by
  have hlast : cellsFrom 0 (front ++ [last]) front.length = some last := by
    rw [← update_push, update_self]
  rw [hvals.take hfront hlast, update_last]

theorem vecPop_does (hvals : state.locals.Holds state.memory items) :
    Does vecPop state items.getLast? [] items.dropLast := by
  rcases eq_nil_or_concat' items with rfl | ⟨front, last, rfl⟩
  · exact inPlace hvals (Nat.zero_le _) rfl
  · have hlen : (front ++ [last]).length = front.length + 1 := length_append
    have hinside : front.length < state.locals.storageCapacity := by
      have hcap := hvals.capacity
      omega
    rw [getLast?_append_of_ne_nil _ (cons_ne_nil last []), dropLast_concat]
    apply inPlace hvals (Nat.le_of_lt hinside)
    rw [vecPop, run_bind (readLocals_after ..), if_neg (by rw [hlen]; exact Nat.succ_ne_zero _),
      run_bind (subU64_ok (by rw [hlen]; exact Nat.succ_le_succ (Nat.zero_le _)) _),
      run_bind (setLength_after ..)]
    dsimp only
    rw [hlen, Nat.add_sub_cancel, run_bind (hvals.takeLast hinside last)]
    rfl

theorem Vec.Holds.counted {values : Vec} {mem : Memory T}
    (hvals : values.Holds mem items) : items.length ≤ u64Max :=
  Nat.le_trans hvals.capacity hvals.capacity_le

theorem vecTruncate_does (hvals : state.locals.Holds state.memory items) (newLength : Nat) :
    Does (vecTruncate newLength) state () (items.drop newLength).reverse
      (items.take newLength) := by
  -- The elements behind the front have been dropped, the last one first.
  let reached (front back : List T) : State T Vec :=
    state.after (cellsFrom 0 front) back.reverse front.length
  have hloop : ∃ last final, vecTruncate newLength (reached items []) = .ok last final ∧
      (∃ front back, items = front ++ back ∧ (newLength ≤ front.length ∨ back = []) ∧
        final = reached front back) ∧ ¬ final.locals.length > newLength := by
    refine whileLoop_rule (fun _ final => ∃ front back, items = front ++ back ∧
      (newLength ≤ front.length ∨ back = []) ∧ final = reached front back)
      _ (fun _ final => final.locals.length) (fun _ _ _ => rfl) ?_
      (Nat.lt_of_le_of_lt hvals.counted (by omega))
      ⟨items, [], (append_nil items).symm, .inr rfl, rfl⟩
    rintro ⟨⟩ final ⟨front, back, hitems, hkept, rfl⟩ hmore
    change front.length > newLength at hmore
    obtain ⟨front, last, rfl⟩ :=
      (eq_nil_or_concat' front).resolve_left (ne_nil_of_length_pos (by omega))
    have hlen : (front ++ [last]).length = front.length + 1 := length_append
    have hinside : front.length < state.locals.storageCapacity := by
      have hcap := hvals.capacity
      rw [hitems, length_append] at hcap
      omega
    refine ⟨(), reached front (last :: back), ?_, ⟨front, last :: back, ?_, .inl (by omega), rfl⟩,
      ?_⟩
    · rw [run_bind (readLocals_after ..), run_bind (subU64_ok (by dsimp only; omega) _),
        run_bind (setLength_after ..)]
      dsimp only
      rw [hlen, Nat.add_sub_cancel, run_bind (hvals.takeLast hinside last),
        dropItem_after, ← reverse_cons]
    · rw [hitems, append_assoc, singleton_append]
    · change front.length < (front ++ [last]).length
      omega
  obtain ⟨⟨⟩, _, hrun, ⟨front, back, rfl, hkept, rfl⟩, hend⟩ := hloop
  change ¬ front.length > newLength at hend
  have hparts : (front ++ back).take newLength = front ∧
      (front ++ back).drop newLength = back := by
    rcases hkept with hle | rfl
    · obtain rfl : newLength = front.length := by omega
      exact ⟨take_left, drop_left⟩
    · rw [append_nil]
      exact ⟨take_of_length_le (by omega), drop_of_length_le (by omega)⟩
  rw [hparts.1, hparts.2]
  refine inPlace hvals ?_ hrun
  have hcap := hvals.capacity
  rw [length_append] at hcap
  omega

theorem vecSwapRemove_trap (hidx : state.locals.length ≤ i) :
    vecSwapRemove i state = .error .trap state := by
  rw [vecSwapRemove, run_bind (readLocals_ok state), if_pos hidx]
  rfl

theorem vecSwapRemove_does (hvals : state.locals.Holds state.memory items)
    (hidx : i < items.length) :
    Does (vecSwapRemove i) state items[i] []
      (items.set i (items.getLast (ne_nil_of_length_pos (by omega)))).dropLast := by
  obtain ⟨front, last, rfl⟩ :=
    (eq_nil_or_concat' items).resolve_left (ne_nil_of_length_pos (by omega))
  have hlen : (front ++ [last]).length = front.length + 1 := length_append
  have hcap := hvals.capacity
  have hinside : i < state.locals.storageCapacity := by omega
  rw [getLast_concat]
  have hlast : ((front ++ [last]).set i last).dropLast.length = front.length := by
    rw [length_dropLast, length_set, hlen, Nat.add_sub_cancel]
  apply inPlace hvals (by omega)
  rw [vecSwapRemove, run_bind (readLocals_after ..), if_neg (Nat.not_le.mpr hidx),
    run_bind (subU64_ok (by dsimp only; omega) _)]
  dsimp only
  rw [hlen, Nat.add_sub_cancel, run_bind (hvals.take hinside (cellsFrom_zero_eq _ hidx)), hlast]
  by_cases hend : i = front.length
  · subst hend
    rw [if_neg (not_not.mpr rfl), update_last, set_append_right _ _ (Nat.le_refl _),
      Nat.sub_self, set_cons_zero, dropLast_concat]
    rfl
  · have hmoved : Function.update (cellsFrom 0 (front ++ [last])) i none front.length =
        some last := by
      rw [update_of_ne (Ne.symm hend), ← update_push, update_self]
    have hcells : Function.update (Function.update (Function.update
        (cellsFrom 0 (front ++ [last])) i none) front.length none) i (some last) =
        cellsFrom 0 ((front ++ [last]).set i last).dropLast := by
      rw [update_again, update_last, update_set _ (by omega),
        set_append_left _ _ (by omega), dropLast_concat]
    rw [if_pos hend, run_bind (hvals.take (by omega) hmoved),
      run_bind (hvals.init hinside last), hcells]
    rfl

theorem vecSwap_trap {left right : Nat}
    (hidx : state.locals.length ≤ left ∨ state.locals.length ≤ right) :
    vecSwap left right state = .error .trap state := by
  rw [vecSwap, run_bind (readLocals_ok state), if_pos hidx]
  rfl

theorem vecSwap_after (hvals : state.locals.Holds state.memory items) {current : List T}
    (hlen : current.length = items.length) {left right : Nat} (hleft : left < current.length)
    (hright : right < current.length) :
    vecSwap left right (state.after (cellsFrom 0 current) dropped current.length) =
      .ok () (state.after (cellsFrom 0 (swapped current left right)) dropped current.length) := by
  have hcap := hvals.capacity
  rw [vecSwap, run_bind (readLocals_after ..), if_neg (by dsimp only; omega)]
  by_cases hne : left = right
  · subst hne
    rw [if_neg (not_not.mpr rfl), swapped_eq hleft hleft, set_getElem_self, set_getElem_self]
    rfl
  · have hmoved : Function.update (cellsFrom 0 current) left none right = some current[right] := by
      rw [update_of_ne (Ne.symm hne), cellsFrom_zero_eq _ hright]
    rw [if_pos hne, run_bind (hvals.take (by omega) (cellsFrom_zero_eq _ hleft)),
      run_bind (hvals.take (by omega) hmoved), run_bind (hvals.init (by omega) _),
      hvals.init (by omega), update_swapped current hleft hright]

theorem vecSwap_does (hvals : state.locals.Holds state.memory items) {left right : Nat}
    (hleft : left < items.length) (hright : right < items.length) :
    Does (vecSwap left right) state () [] (swapped items left right) := by
  apply inPlace hvals (swapped_length items left right ▸ hvals.capacity)
  rw [vecSwap_after hvals rfl hleft hright, swapped_length]

theorem vecReverse_does (hvals : state.locals.Holds state.memory items) :
    Does vecReverse state () [] items.reverse := by
  -- The elements outside the two indices are reversed already.
  let reached (left : Nat) (final : State T Vec) : Prop := left ≤ items.length / 2 ∧
    ∃ current, current.length = items.length ∧ (∀ i < items.length, current[i]? =
        if i < left ∨ items.length - left ≤ i then items[items.length - 1 - i]?
        else items[i]?) ∧
      final = state.after (cellsFrom 0 current) [] items.length
  have hcounted := hvals.counted
  apply inPlace hvals (by rw [length_reverse]; exact hvals.capacity)
  refine whileLoop_bind reached (fun left final => left < final.locals.length / 2)
    (fun left _ => items.length / 2 - left) (fun _ _ _ => rfl) ?_ (by omega)
    ⟨Nat.zero_le _, items, rfl, fun i hidx => by grind, rfl⟩ ?_
  · rintro left final ⟨hleft, current, hlen, hcur, rfl⟩ hmore
    change left < items.length / 2 at hmore
    have hright : items.length - 1 - left < current.length := by omega
    refine ⟨left + 1, state.after (cellsFrom 0 (swapped current left (items.length - 1 - left))) []
      items.length, ?_, ⟨hmore, _, by rw [swapped_length, hlen], fun i hidx => ?_, rfl⟩,
      by omega⟩
    · rw [run_bind (readLocals_after ..), run_bind (subU64_ok (by dsimp only; omega) _),
        run_bind (subU64_ok (by dsimp only; omega) _)]
      have hswap : vecSwap left (items.length - 1 - left)
          (state.after (cellsFrom 0 current) [] items.length) = _ :=
        hlen ▸ vecSwap_after hvals hlen (show left < current.length by omega) hright
      rw [run_bind hswap, addU64_ok (by omega)]
    · rw [getElem?_swapped (by omega) hright, hcur left (by omega),
        hcur (items.length - 1 - left) (by omega), hcur i hidx]
      grind
  · rintro left final ⟨hleft, current, hlen, hcur, rfl⟩ hend
    change ¬ left < items.length / 2 at hend
    have hreverse : current = items.reverse := by
      apply ext_getElem?
      intro i
      by_cases hidx : i < items.length
      · rw [hcur i hidx, getElem?_reverse hidx]
        grind
      · rw [getElem?_eq_none (by omega), getElem?_eq_none (by rw [length_reverse]; omega)]
    rw [hreverse, length_reverse]
    rfl

theorem vecRemove_trap (hidx : state.locals.length ≤ i) :
    vecRemove i state = .error .trap state := by
  rw [vecRemove, run_bind (readLocals_ok state), if_pos hidx]
  rfl

theorem vecRemove_does (hvals : state.locals.Holds state.memory items) (hidx : i < items.length) :
    Does (vecRemove i) state items[i] [] (items.eraseIdx i) := by
  have hcap := hvals.capacity
  have hcounted := hvals.counted
  have hlen : (items.eraseIdx i).length = items.length - 1 := length_eraseIdx_of_lt hidx
  -- The gap moves up from the index.
  let reached (gap : Nat) (final : State T Vec) : Prop := gap + 1 ≤ items.length ∧
    final = state.after (opened (items.eraseIdx i) gap) [] items.length
  apply inPlace hvals (by omega)
  rw [vecRemove, run_bind (readLocals_after ..), if_neg (Nat.not_le.mpr hidx),
    run_bind (hvals.take (by omega) (cellsFrom_zero_eq items hidx)), update_erase]
  refine whileLoop_bind reached (fun gap _ => gap + 1 < items.length)
    (fun gap _ => items.length - gap) ?_ ?_ (by omega) ⟨hidx, rfl⟩ ?_
  · rintro gap final ⟨hgap, rfl⟩
    rw [run_bind (addU64_ok (by omega) _)]
    rfl
  · rintro gap final ⟨hgap, rfl⟩ hmore
    have hnext : opened (items.eraseIdx i) gap (gap + 1) =
        some (items.eraseIdx i)[gap] := by
      rw [opened, if_neg (by omega), if_neg (by omega), Nat.add_sub_cancel,
        getElem?_eq_getElem (by omega)]
    refine ⟨gap + 1, state.after (opened (items.eraseIdx i) (gap + 1)) [] items.length, ?_,
      ⟨hmore, rfl⟩, by omega⟩
    rw [run_bind (addU64_ok (by omega) _), run_bind (hvals.take (by omega) hnext),
      run_bind (hvals.init (by omega) _), opened_down _ (by omega)]
    rfl
  · rintro gap final ⟨hgap, rfl⟩ hend
    have hclosed : gap = (items.eraseIdx i).length := by omega
    rw [run_bind (subU64_ok (by dsimp only; omega) _), run_bind (setLength_after ..), hclosed,
      opened_length, hlen]
    rfl

end

end

/-! ## Elements that move to other storage -/

section
variable {T V : Type} [Stored T]

/-- The elements go to the slots behind those that the other storage holds. -/
theorem moveElements_ok {state : State T V} {src target sourceCapacity targetCapacity : Nat}
    {base moved : List T} (slotOf : Nat → Machine T V Nat) (hne : src ≠ target)
    (hsrc : state.Has src (sourceCapacity * Stored.sizeOf T) (cellsFrom 0 moved))
    (htgt : state.Has target (targetCapacity * Stored.sizeOf T) (cellsFrom 0 base))
    (hslots : ∀ i < moved.length, ∀ now, slotOf i now = .ok (base.length + i) now)
    (hfrom : moved.length ≤ sourceCapacity) (hroom : base.length + moved.length ≤ targetCapacity)
    (hcounted : moved.length ≤ u64Max) :
    moveElements src target moved.length slotOf state = .ok ()
      ((state.put src (some ⟨sourceCapacity * Stored.sizeOf T, fun _ => none⟩)).put target
        (some ⟨targetCapacity * Stored.sizeOf T, cellsFrom 0 (base ++ moved)⟩)) := by
  let between (first : Nat) (front back : List T) : State T V :=
    (state.put src (some ⟨sourceCapacity * Stored.sizeOf T, cellsFrom first back⟩)).put
      target (some ⟨targetCapacity * Stored.sizeOf T, cellsFrom 0 (base ++ front)⟩)
  let reached (front back : List T) : State T V := between front.length front back
  have hhasSource : ∀ front back, (reached front back).Has src
      (sourceCapacity * Stored.sizeOf T) (cellsFrom front.length back) := fun front back =>
    (hsrc.put _ _).put_other hne.symm _
  have hhasTarget : ∀ first front back, (between first front back).Has target
      (targetCapacity * Stored.sizeOf T) (cellsFrom 0 (base ++ front)) := fun first front back =>
    (htgt.put_other hne _).put _ _
  refine whileLoop_bind (fun i final => ∃ front back, moved = front ++ back ∧
    i = front.length ∧ final = reached front back) _ (fun i _ => moved.length - i)
    (fun _ _ _ => rfl) ?_ (by omega) ⟨[], moved, rfl, rfl, ?_⟩ ?_
  · rintro _ _ ⟨front, back, hmoved, rfl, rfl⟩ hmore
    have hlen : moved.length = front.length + back.length := by
      rw [hmoved, length_append]
    cases back with
    | nil => exact absurd hmore (by rw [hlen]; exact Nat.lt_irrefl _)
    | cons item rest =>
      rw [length_cons] at hlen
      refine ⟨front.length + 1, reached (front ++ [item]) rest, ?_,
        ⟨front ++ [item], rest, ?_, by rw [length_append]; rfl, rfl⟩, by omega⟩
      · have htake : rawTake src front.length (reached front (item :: rest)) =
            .ok item (between (front.length + 1) front rest) := by
          rw [rawTake_ok (hhasSource front (item :: rest)) (contains_of_lt (by omega) _)
            (cellsFrom_cons_self front.length item rest), update_cellsFrom_cons]
          apply congrArg (EStateM.Result.ok item)
          exact (put_comm _ hne.symm _ _).trans
            (congrArg (State.put · target _) (put_put state src _ _))
        have hinit := rawInit_ok (hhasTarget (front.length + 1) front rest)
          (contains_of_lt (show base.length + front.length < targetCapacity by omega) _)
          item
        rw [put_put, ← length_append, update_push, append_assoc] at hinit
        rw [run_bind htake, run_bind (hslots _ (by omega) _), ← length_append,
          run_bind hinit, addU64_ok (by omega)]
        have hnext : front.length + 1 = (front ++ [item]).length := by
          rw [length_append]
          rfl
        rw [hnext]
      · rw [hmoved, append_assoc, singleton_append]
  · change state = (state.put src _).put target (some ⟨_, cellsFrom 0 (base ++ [])⟩)
    rw [append_nil, length_nil, hsrc.put_self, htgt.put_self]
  · rintro _ _ ⟨front, back, rfl, rfl, rfl⟩ hend
    obtain rfl : back = [] := by
      rw [length_append] at hend
      exact eq_nil_of_length_eq_zero (by omega)
    rw [append_nil, ← cellsFrom_nil front.length]
    rfl

end

/-! ## Growth -/

/-- The capacity that doubling leads to. -/
def grownCapacity (required cap : Nat) : Nat :=
  if 0 < cap ∧ cap < required then
    grownCapacity required (if cap > 9223372036854775807 then required else cap * 2)
  else cap
termination_by required - cap
decreasing_by split_ifs <;> omega

variable {cap : Nat}

theorem grownCapacity_ge (required : Nat) (hpos : 0 < cap) :
    required ≤ grownCapacity required cap := by
  induction cap using grownCapacity.induct required with
  | case1 cap hless ih =>
    rw [grownCapacity, if_pos hless]
    exact ih (by split_ifs <;> omega)
  | case2 cap hdone =>
    rw [grownCapacity, if_neg hdone]
    omega

theorem grownCapacity_le {required : Nat} (hrequired : required ≤ u64Max)
    (hcap : cap ≤ u64Max) : grownCapacity required cap ≤ u64Max := by
  induction cap using grownCapacity.induct required with
  | case1 cap hless ih =>
    rw [grownCapacity, if_pos hless]
    refine ih ?_
    rw [u64Max] at *
    split_ifs <;> omega
  | case2 cap hdone =>
    rw [grownCapacity, if_neg hdone]
    exact hcap

theorem growCapacity_ok {T V : Type} (state : State T V) {required : Nat} (hpos : 0 < cap)
    (hcap : cap ≤ u64Max) (hrequired : required ≤ u64Max) :
    growCapacity required cap state = .ok (grownCapacity required cap) state := by
  obtain ⟨grown, final, hrun, ⟨hpos, hgrown, hsame, rfl⟩, hend⟩ :
      ∃ grown final, growCapacity required cap state = .ok grown final ∧
      (0 < grown ∧ grown ≤ u64Max ∧
        grownCapacity required grown = grownCapacity required cap ∧ final = state) ∧
      ¬ grown < required := by
    refine whileLoop_rule (fun grown final => 0 < grown ∧ grown ≤ u64Max ∧
      grownCapacity required grown = grownCapacity required cap ∧ final = state)
      _ (fun grown _ => required - grown) (fun _ _ _ => rfl) ?_ (by omega)
      ⟨hpos, hcap, rfl, rfl⟩
    rintro grown _ ⟨hpos, hgrown, hsame, rfl⟩ hless
    rw [grownCapacity, if_pos ⟨hpos, hless⟩] at hsame
    by_cases hhalf : grown > 9223372036854775807
    · rw [if_pos hhalf] at hsame
      refine ⟨required, _, ?_, ⟨by omega, hrequired, hsame, rfl⟩, by omega⟩
      rw [if_pos hhalf]
      rfl
    · have hdoubled : grown * 2 ≤ u64Max := by
        rw [u64Max]
        omega
      rw [if_neg hhalf] at hsame
      refine ⟨grown * 2, _, ?_, ⟨by omega, hdoubled, hsame, rfl⟩, by omega⟩
      rw [if_neg hhalf, mulU64_ok hdoubled]
  rw [hrun, ← hsame, grownCapacity, if_neg fun h => hend h.2]

section
variable {T : Type} [Stored T] {allocates : Memory T → Nat → Bool} {state : State T Vec}
  {items : List T}

/-- The elements are in storage with another capacity. -/
def Moves (operation : Machine T Vec Unit) (state : State T Vec) (items : List T)
    (enough : Nat → Prop) : Prop :=
  ∃ next, operation state = .ok () next ∧ next.dropped = state.dropped ∧
    next.locals.Holds next.memory items ∧ enough next.locals.storageCapacity ∧
    Frame state.memory (some state.locals.pointer) next.memory (some next.locals.pointer)

theorem moveToCapacity_trap {newCapacity : Nat} (hcap : newCapacity ≤ u64Max)
    (hrefused : ¬ Available allocates state.memory newCapacity) :
    moveToCapacity allocates newCapacity state = .error .trap state := by
  rw [moveToCapacity, run_bind (readLocals_ok state),
    run_bind_error (vecAllocate_trap hcap hrefused)]

theorem moveToCapacity_moves (hvals : state.locals.Holds state.memory items) {newCapacity : Nat}
    (hroom : items.length ≤ newCapacity) (havail : Available allocates state.memory newCapacity) :
    Moves (moveToCapacity allocates newCapacity) state items (· = newCapacity) := by
  let allocated : State T Vec := { state with
    memory := state.memory ++ [some ⟨newCapacity * Stored.sizeOf T, fun _ => none⟩] }
  have hlt : state.locals.pointer < state.memory.length := hvals.has.lt
  have hsrc : allocated.Has state.locals.pointer
      (state.locals.storageCapacity * Stored.sizeOf T) (cellsFrom 0 items) :=
    (getElem?_append_left hlt).trans hvals.has
  have htgt : allocated.Has state.memory.length (newCapacity * Stored.sizeOf T)
      (cellsFrom 0 ([] : List T)) := by
    rw [cellsFrom_nil]
    exact getElem?_concat_length
  have hmove := moveElements_ok pure (Nat.ne_of_lt hlt) hsrc htgt
    (fun i _ now => by rw [length_nil, Nat.zero_add]; rfl) hvals.capacity
    (by rw [length_nil, Nat.zero_add]; exact hroom) hvals.counted
  have hbefore : State.Has (allocated.put state.locals.pointer
      (some ⟨state.locals.storageCapacity * Stored.sizeOf T, fun _ => none⟩)) state.locals.pointer
      (state.locals.storageCapacity * Stored.sizeOf T) (fun _ => none) := hsrc.put _ _
  let block : Block T := ⟨newCapacity * Stored.sizeOf T, cellsFrom 0 items⟩
  have hmemory : (allocated.memory.set state.locals.pointer none).set state.memory.length
      (some block) = (state.memory ++ [some block]).set state.locals.pointer none := by
    rw [set_comm _ _ (Nat.ne_of_lt hlt), set_append_right _ _ (Nat.le_refl _), Nat.sub_self]
    rfl
  have hrun : moveToCapacity allocates newCapacity state = .ok ()
      ⟨(state.memory ++ [some block]).set state.locals.pointer none, state.dropped,
        ⟨state.memory.length, state.locals.length, newCapacity⟩⟩ := by
    rw [hvals.length, moveToCapacity, run_bind (readLocals_ok state),
      run_bind (vecAllocate_ok havail), hvals.length, run_bind hmove,
      run_bind (vecDeallocate_ok hvals.size_le (hbefore.put_other (Nat.ne_of_gt hlt) _)),
      put_comm _ (Nat.ne_of_gt hlt), put_put]
    change EStateM.Result.ok () (State.mk ((allocated.memory.set _ none).set _ (some block)) _
      (Vec.mk _ state.locals.length _)) = _
    rw [hmemory, hvals.length]
    rfl
  refine ⟨_, hrun, rfl, ⟨?_, hvals.length_eq, hvals.length ▸ hroom, havail.1,
    havail.2.1⟩, rfl, Frame.regrow block hlt⟩
  exact (getElem?_set_ne (Nat.ne_of_lt hlt)).trans getElem?_concat_length

/-- The capacity that a reservation asks the allocator for. -/
def reserveRequest (values : Vec) (additional : Nat) : Option Nat :=
  if values.length + additional ≤ values.storageCapacity then none
  else some (grownCapacity (values.length + additional) values.startCapacity)

/-- An operation asks for storage that there is none of. -/
def Refused (allocates : Memory T → Nat → Bool) (mem : Memory T) (request : Option Nat) : Prop :=
  ∃ cap, request = some cap ∧ ¬ Available allocates mem cap

theorem Vec.startCapacity_pos (values : Vec) : 0 < values.startCapacity := by
  rw [Vec.startCapacity]
  split_ifs <;> omega

theorem Vec.startCapacity_le {values : Vec} (hcap : values.storageCapacity ≤ u64Max) :
    values.startCapacity ≤ u64Max := by
  rw [Vec.startCapacity]
  split_ifs
  · exact le_of_ble_eq_true rfl
  · exact hcap

variable {additional : Nat}

section
variable (hvals : state.locals.Holds state.memory items)
include hvals

theorem vecReserve_enough
    (henough : state.locals.length + additional ≤ state.locals.storageCapacity) :
    vecReserve allocates additional state = .ok () state := by
  have hcap := hvals.capacity_le
  rw [vecReserve, run_bind (readLocals_ok state), run_bind (subU64_ok (by omega) state),
    if_neg (by omega), run_bind (addU64_ok (by omega) state), if_neg (by omega)]
  rfl

theorem vecReserve_grows (hlarge : state.locals.length + additional ≤ u64Max)
    (hless : state.locals.storageCapacity < state.locals.length + additional) :
    vecReserve allocates additional state = moveToCapacity allocates
      (grownCapacity (state.locals.length + additional) state.locals.startCapacity) state := by
  rw [vecReserve, run_bind (readLocals_ok state), run_bind (subU64_ok (by omega) state),
    if_neg (by omega), run_bind (addU64_ok (by omega) state), if_pos hless,
    run_bind (growCapacity_ok state state.locals.startCapacity_pos
      (Vec.startCapacity_le hvals.capacity_le) hlarge)]

theorem vecReserve_trap
    (hrefused : Refused allocates state.memory (reserveRequest state.locals additional)) :
    vecReserve allocates additional state = .error .trap state := by
  obtain ⟨cap, hreq, hrefused⟩ := hrefused
  have hcounted : state.locals.length ≤ u64Max := hvals.length ▸ hvals.counted
  rw [reserveRequest] at hreq
  split_ifs at hreq with henough
  rw [Option.some_inj] at hreq
  subst hreq
  by_cases hlarge : state.locals.length + additional ≤ u64Max
  · rw [vecReserve_grows hvals hlarge (Nat.lt_of_not_le henough), moveToCapacity_trap
      (grownCapacity_le hlarge (Vec.startCapacity_le hvals.capacity_le)) hrefused]
  · rw [vecReserve, run_bind (readLocals_ok state), run_bind (subU64_ok hcounted state),
      if_pos (by omega)]
    rfl

theorem vecReserve_moves
    (hallowed : ¬ Refused allocates state.memory (reserveRequest state.locals additional)) :
    Moves (vecReserve allocates additional) state items (items.length + additional ≤ ·) := by
  by_cases henough : state.locals.length + additional ≤ state.locals.storageCapacity
  · exact ⟨state, vecReserve_enough hvals henough, rfl, hvals, hvals.length ▸ henough,
      Frame.refl _ _⟩
  · have hgrown := grownCapacity_ge (state.locals.length + additional)
      state.locals.startCapacity_pos
    have havail : Available allocates state.memory
        (grownCapacity (state.locals.length + additional) state.locals.startCapacity) := by
      by_contra hrefused
      exact hallowed ⟨_, if_neg henough, hrefused⟩
    rw [← hvals.length]
    obtain ⟨next, hrun, hdropped, hnext, hcap, hframe⟩ := moveToCapacity_moves hvals
      (Nat.le_trans (hvals.length ▸ Nat.le_add_right _ _) hgrown) havail
    refine ⟨next, ?_, hdropped, hnext, hcap ▸ hgrown, hframe⟩
    rw [vecReserve_grows hvals (Nat.le_trans hgrown havail.1) (Nat.lt_of_not_le henough), hrun]

end

theorem Moves.andThen {α : Type} {first : Machine T Vec Unit} {rest : Unit → Machine T Vec α}
    {enough : Nat → Prop} {answer : α} {dropped items' : List T}
    (hfst : Moves first state items enough)
    (hrest : ∀ next : State T Vec, next.locals.Holds next.memory items →
      enough next.locals.storageCapacity → Does (rest ()) next answer dropped items') :
    Does (first >>= rest) state answer dropped items' := by
  obtain ⟨next, hrun, hdropped, hnext, henough, hframe⟩ := hfst
  obtain ⟨last, hlast, hdroppedLast, hholds, hframeLast⟩ := hrest next hnext henough
  exact ⟨last, by rw [run_bind hrun, hlast], by rw [hdroppedLast, hdropped], hholds,
    hframe.trans hframeLast⟩

theorem Moves.does {operation : Machine T Vec Unit} {enough : Nat → Prop}
    (hmoves : Moves operation state items enough) : Does operation state () [] items := by
  obtain ⟨next, hrun, hdropped, hnext, _, hframe⟩ := hmoves
  exact ⟨next, hrun, by rw [hdropped, append_nil], hnext, hframe⟩

section
variable (hvals : state.locals.Holds state.memory items)
include hvals

theorem vecPush_trap {val : T}
    (hrefused : Refused allocates state.memory (reserveRequest state.locals 1)) :
    vecPush allocates val state = .error .trap state := by
  rw [vecPush, run_bind_error (vecReserve_trap hvals hrefused)]

theorem vecPush_does (val : T)
    (hallowed : ¬ Refused allocates state.memory (reserveRequest state.locals 1)) :
    Does (vecPush allocates val) state () [] (items ++ [val]) := by
  refine (vecReserve_moves hvals hallowed).andThen fun next hnext hroom => ?_
  have hlen : (items ++ [val]).length = items.length + 1 := length_append
  have hcap := hnext.capacity_le
  apply inPlace hnext (hlen ▸ hroom)
  rw [run_bind (readLocals_after ..), run_bind (hnext.init (lt_of_succ_le hroom) val),
    run_bind (addU64_ok (by dsimp only; omega) _), setLength_after, update_push, hlen]

theorem vecShrinkToFit_trap (hne : state.locals.length ≠ state.locals.storageCapacity)
    (hrefused : ¬ Available allocates state.memory state.locals.length) :
    vecShrinkToFit allocates state = .error .trap state := by
  rw [vecShrinkToFit, run_bind (readLocals_ok state), if_pos hne,
    moveToCapacity_trap (hvals.length ▸ hvals.counted) hrefused]

theorem vecShrinkToFit_does (hallowed : state.locals.length ≠ state.locals.storageCapacity →
      Available allocates state.memory state.locals.length) :
    Does (vecShrinkToFit allocates) state () [] items := by
  by_cases hne : state.locals.length ≠ state.locals.storageCapacity
  · have hmoves := moveToCapacity_moves hvals (Nat.le_of_eq hvals.length.symm) (hallowed hne)
    obtain ⟨next, hrun, hnext⟩ := hmoves.does
    refine ⟨next, ?_, hnext⟩
    rw [vecShrinkToFit, run_bind (readLocals_ok state), if_pos hne, hrun]
  · apply same hvals
    rw [vecShrinkToFit, run_bind (readLocals_ok state), if_neg hne]
    rfl

theorem vecInsert_trap {val : T} (htrap : state.locals.length < i ∨
      Refused allocates state.memory (reserveRequest state.locals 1)) :
    vecInsert allocates i val state = .error .trap state := by
  rw [vecInsert, run_bind (readLocals_ok state)]
  by_cases hidx : i > state.locals.length
  · rw [if_pos hidx]
    rfl
  · rw [if_neg hidx, run_bind_error (vecReserve_trap hvals (htrap.resolve_left hidx))]

theorem vecInsert_does (hidx : i ≤ items.length) (val : T)
    (hallowed : ¬ Refused allocates state.memory (reserveRequest state.locals 1)) :
    Does (vecInsert allocates i val) state () [] (items.insertIdx i val) := by
  refine of_eq (by
    rw [vecInsert, run_bind (readLocals_ok state), if_neg (Nat.not_lt.mpr (hvals.length ▸ hidx))])
    ((vecReserve_moves hvals hallowed).andThen fun next hnext hroom => ?_)
  have hcap := hnext.capacity_le
  have hlen : (items.insertIdx i val).length = items.length + 1 :=
    length_insertIdx_of_le_length hidx val
  -- The gap moves down to the index.
  let reached (gap : Nat) (final : State T Vec) : Prop := i ≤ gap ∧ gap ≤ items.length ∧
    final = next.after (opened items gap) [] items.length
  apply inPlace hnext (hlen ▸ hroom)
  rw [run_bind (readLocals_after ..)]
  have hcounted := hvals.counted
  refine whileLoop_bind reached (fun gap _ => gap > i) (fun gap _ => gap)
    (fun _ _ _ => rfl) ?_ (Nat.lt_of_le_of_lt hcounted (by omega))
    ⟨hidx, Nat.le_refl _, by rw [opened_length]⟩ ?_
  · rintro gap final ⟨hge, hgap, rfl⟩ hmore
    obtain ⟨gap, rfl⟩ : ∃ previous, gap = previous + 1 := ⟨gap - 1, by omega⟩
    have hcell : opened items (gap + 1) gap = some items[gap] := by
      rw [opened, if_pos (lt_succ_self gap), getElem?_eq_getElem (by omega)]
    refine ⟨gap, next.after (opened items gap) [] items.length, ?_, ⟨by omega, by omega, rfl⟩,
      lt_succ_self gap⟩
    rw [run_bind (subU64_ok (by omega) _), Nat.add_sub_cancel,
      run_bind (hnext.take (by omega) hcell), run_bind (hnext.init (by omega) _),
      opened_up items (by omega)]
    rfl
  · rintro gap final ⟨hge, hgap, rfl⟩ hend
    obtain rfl : i = gap := Nat.le_antisymm hge (Nat.le_of_not_lt hend)
    rw [run_bind (hnext.init (by omega) val), run_bind (addU64_ok (by dsimp only; omega) _),
      setLength_after, update_insert items hidx, hlen]

end

/-! ## The end of a vector -/

theorem vecTake_trap (hrefused : ¬ Available allocates state.memory 0) :
    vecTake allocates state = .error .trap state := by
  rw [vecTake, run_bind (readLocals_ok state),
    run_bind_error (vecAllocate_trap (Nat.zero_le _) hrefused)]

theorem vecTake_ok (havail : Available allocates state.memory 0) :
    vecTake allocates state = .ok state.locals
      ⟨state.memory ++ [some ⟨0 * Stored.sizeOf T, fun _ => none⟩], state.dropped,
        ⟨state.memory.length, 0, 0⟩⟩ := by
  rw [vecTake, run_bind (readLocals_ok state), run_bind (vecAllocate_ok havail)]
  rfl

theorem vecDrop_ok (hvals : state.locals.Holds state.memory items) :
    vecDrop state = .ok () ⟨state.memory.set state.locals.pointer none, state.dropped ++ items,
      state.locals⟩ := by
  have hcounted := hvals.counted
  have hcap := hvals.capacity
  have hrun : vecDrop (state.after (cellsFrom 0 items) [] items.length) = .ok ()
      ((state.after (cellsFrom items.length []) items items.length).put state.locals.pointer
        none) := by
    rw [vecDrop, run_bind (readLocals_after ..)]
    refine whileLoop_bind (fun i final => ∃ front back, items = front ++ back ∧
      i = front.length ∧ final = state.after (cellsFrom front.length back) front items.length)
      (fun i _ => i < items.length) (fun i _ => items.length - i)
      (fun _ _ _ => rfl) ?_ (by omega) ⟨[], items, rfl, rfl, rfl⟩ ?_
    · rintro _ _ ⟨front, back, hitems, rfl, rfl⟩ hmore
      have hlen : items.length = front.length + back.length := by
        rw [hitems, length_append]
      cases back with
      | nil => exact absurd hmore (by rw [hlen]; exact Nat.lt_irrefl _)
      | cons item rest =>
        rw [length_cons] at hlen
        refine ⟨front.length + 1, state.after (cellsFrom (front.length + 1) rest)
          (front ++ [item]) items.length, ?_, ⟨front ++ [item], rest, ?_,
            by rw [length_append]; rfl, by rw [length_append]; rfl⟩, by omega⟩
        · rw [run_bind (hvals.take (by omega) (cellsFrom_cons_self front.length item rest)),
            update_cellsFrom_cons, run_bind (addU64_ok (by omega) _),
            run_bind (dropItem_after ..)]
          rfl
        · rw [hitems, append_assoc, singleton_append]
    · rintro _ _ ⟨front, back, hitems, rfl, rfl⟩ hend
      obtain rfl : back = [] := by
        rw [hitems, length_append] at hend
        exact eq_nil_of_length_eq_zero (by omega)
      obtain rfl : items = front := hitems.trans (append_nil front)
      exact vecDeallocate_ok hvals.size_le (hvals.after_has _ _ _)
  rw [hvals.start] at hrun
  rw [hrun, State.put, State.after, set_set, ← hvals.length]

/-! ## Iterators -/

variable {items : List T}

section
variable {state : State T VecIntoIter}

theorem VecIntoIter.Holds.has (hvals : state.locals.Holds state.memory items) :
    state.Has state.locals.pointer (state.locals.storageCapacity * Stored.sizeOf T)
      (cellsFrom state.locals.nextIndex items) :=
  hvals.block

theorem iteratorNext_none (hvals : state.locals.Holds state.memory ([] : List T)) :
    iteratorNext state = .ok none state := by
  have hlen : state.locals.nextIndex = state.locals.length := by
    rw [hvals.length_eq]
    rfl
  rw [iteratorNext, run_bind (readLocals_ok state), if_pos hlen]
  rfl

/-- The first element has been moved out of its slot. -/
def State.advanced (state : State T VecIntoIter) (rest dropped : List T) : State T VecIntoIter :=
  ⟨state.memory.set state.locals.pointer (some ⟨state.locals.storageCapacity * Stored.sizeOf T,
    cellsFrom (state.locals.nextIndex + 1) rest⟩), state.dropped ++ dropped,
    { state.locals with nextIndex := state.locals.nextIndex + 1 }⟩

theorem VecIntoIter.Holds.taken {item : T} {rest : List T}
    (hvals : state.locals.Holds state.memory (item :: rest)) :
    state.locals.nextIndex < state.locals.length ∧
    rawTake state.locals.pointer state.locals.nextIndex state = .ok item
      (state.put state.locals.pointer (some ⟨state.locals.storageCapacity * Stored.sizeOf T,
        cellsFrom (state.locals.nextIndex + 1) rest⟩)) ∧
    state.locals.nextIndex + 1 ≤ u64Max ∧
    ∀ dropped, (state.advanced rest dropped).locals.Holds (state.advanced rest dropped).memory
      rest := by
  have hlen := hvals.length_eq
  have hle := hvals.length_le
  have hcap := hvals.capacity_le
  rw [length_cons] at hlen
  refine ⟨by omega, ?_, by omega, fun dropped => ⟨getElem?_set_self hvals.has.lt, ?_, hle,
    hcap, hvals.size_le⟩⟩
  · rw [rawTake_ok hvals.has (contains_of_lt (by omega) _) (cellsFrom_cons_self _ _ _),
      update_cellsFrom_cons]
  · change state.locals.length = state.locals.nextIndex + 1 + rest.length
    omega

theorem iteratorNext_some {item : T} {rest : List T}
    (hvals : state.locals.Holds state.memory (item :: rest)) :
    ∃ next, iteratorNext state = .ok (some item) next ∧ next.dropped = state.dropped ∧
      next.locals.Holds next.memory rest ∧ next.locals.pointer = state.locals.pointer ∧
      Frame state.memory (some state.locals.pointer) next.memory (some state.locals.pointer) := by
  obtain ⟨hless, htake, hcounted, hrest⟩ := hvals.taken
  refine ⟨state.advanced rest [], ?_, append_nil _, hrest [], rfl, Frame.put _ hvals.has.lt⟩
  rw [advanced, append_nil, iteratorNext, run_bind (readLocals_ok state),
    if_neg (Nat.ne_of_lt hless), run_bind htake,
    run_bind (addU64_ok hcounted _)]
  rfl

theorem iteratorNext_ok (hvals : state.locals.Holds state.memory items) :
    ∃ next, iteratorNext state = .ok items.head? next ∧ next.dropped = state.dropped ∧
      next.locals.Holds next.memory items.tail ∧
      Frame state.memory (some state.locals.pointer) next.memory (some next.locals.pointer) := by
  cases items with
  | nil => exact ⟨state, iteratorNext_none hvals, rfl, hvals, Frame.refl _ _⟩
  | cons item rest =>
    obtain ⟨next, hrun, hdropped, hholds, hptr, hframe⟩ := iteratorNext_some hvals
    exact ⟨next, hrun, hdropped, hholds, hptr ▸ hframe⟩

theorem iteratorDrop_ok (hvals : state.locals.Holds state.memory items) :
    ∃ values, iteratorDrop state = .ok () ⟨state.memory.set state.locals.pointer none,
      state.dropped ++ items, values⟩ := by
  -- The elements in front have been dropped, and the iterator holds the others.
  let reached (final : State T VecIntoIter) : Prop := ∃ front back block, items = front ++ back ∧
    final.memory = state.memory.set state.locals.pointer block ∧
    final.dropped = state.dropped ++ front ∧ final.locals.Holds final.memory back ∧
    final.locals.pointer = state.locals.pointer
  have hlen := hvals.length_eq
  have hle := hvals.length_le
  have hcap := hvals.capacity_le
  obtain ⟨⟨⟩, final, hrun, ⟨front, back, block, hitems, hmemory, hdropped, hholds, hptr⟩,
      hend⟩ : ∃ last final, loopWhile
        (fun _ : Unit => do
          let values ← readLocals
          pure (decide (values.nextIndex < values.length)))
        (fun _ => do
          let values ← readLocals
          let item ← rawTake values.pointer values.nextIndex
          let next ← addU64 values.nextIndex 1
          assign fun values => { values with nextIndex := next }
          dropItem item) () state = .ok last final ∧ reached final ∧
      ¬ final.locals.nextIndex < final.locals.length := by
    refine whileLoop_rule (fun _ => reached) _
      (fun _ final => final.locals.length - final.locals.nextIndex) (fun _ _ _ => rfl) ?_
      (by omega) ⟨[], items, _, rfl, (congrArg State.memory hvals.has.put_self).symm,
        (append_nil _).symm, hvals, rfl⟩
    rintro ⟨⟩ final ⟨front, back, block, hitems, hmemory, hdropped, hholds, hptr⟩ hmore
    cases back with
    | nil => exact absurd hmore (by rw [hholds.length_eq]; exact Nat.lt_irrefl _)
    | cons item rest =>
      obtain ⟨hless, htake, hcounted, hrest⟩ := hholds.taken
      let taken : Block T := ⟨final.locals.storageCapacity * Stored.sizeOf T,
        cellsFrom (final.locals.nextIndex + 1) rest⟩
      refine ⟨(), final.advanced rest [item], ?_, ⟨front ++ [item], rest, some taken, ?_, ?_, ?_,
        hrest [item], hptr⟩, ?_⟩
      · rw [run_bind (readLocals_ok final), run_bind htake, run_bind (addU64_ok hcounted _)]
        rfl
      · rw [hitems, append_assoc, singleton_append]
      · change final.memory.set final.locals.pointer _ = _
        rw [hmemory, hptr, set_set]
      · change final.dropped ++ [item] = _
        rw [hdropped, append_assoc]
      · change final.locals.length - (final.locals.nextIndex + 1) < _
        omega
  rw [hholds.length_eq] at hend
  obtain rfl : back = [] := eq_nil_of_length_eq_zero (by omega)
  rw [append_nil] at hitems
  refine ⟨final.locals, ?_⟩
  rw [iteratorDrop, run_bind hrun, run_bind (readLocals_ok final),
    vecDeallocate_ok hholds.size_le hholds.has, State.put, hmemory, hptr, set_set,
    hdropped, hitems]

end

/-! ## Two vectors -/

section
variable {allocates : Memory T → Nat → Bool} {state : State T (Vec × Vec)} {items moved : List T}

theorem Holds.of_block {mem mem' : Memory T} {ptr first len : Nat}
    (hvals : Holds mem ptr first len cap items) (hsame : mem'[ptr]? = mem[ptr]?) :
    Holds mem' ptr first len cap items :=
  ⟨hsame.trans hvals.block, hvals.length_eq, hvals.length_le, hvals.capacity_le, hvals.size_le⟩

theorem vecAppend_trap (hvals : state.locals.1.Holds state.memory items)
    (hrefused : Refused allocates state.memory
      (reserveRequest state.locals.1 state.locals.2.length)) :
    vecAppend allocates state = .error .trap state := by
  have htrap : vecReserve allocates state.locals.2.length
      ⟨state.memory, state.dropped, state.locals.1⟩ = .error .trap _ :=
    vecReserve_trap hvals hrefused
  have hfst : borrowing Prod.fst (fun both values => (values, both.2))
      (vecReserve allocates state.locals.2.length) state = .error .trap state :=
    borrowing_error htrap
  rw [vecAppend, run_bind (readLocals_ok state), run_bind_error hfst]

/-- The elements of both vectors are in the first one, and its old storage is released. Then the
slots of the second one are empty. -/
theorem vecAppend_ok (hvals : state.locals.1.Holds state.memory items)
    (hother : state.locals.2.Holds state.memory moved)
    (hne : state.locals.2.pointer ≠ state.locals.1.pointer)
    (hallowed : ¬ Refused allocates state.memory
      (reserveRequest state.locals.1 state.locals.2.length)) :
    ∃ (mem mem' : Memory T) (values other : Vec),
      vecAppend allocates state = .ok () ⟨mem', state.dropped, (values, other)⟩ ∧
      values.Holds mem (items ++ moved) ∧
      Frame state.memory (some state.locals.1.pointer) mem (some values.pointer) ∧
      other.Holds mem' [] ∧ other.pointer = state.locals.2.pointer ∧
      Frame mem (some other.pointer) mem' (some other.pointer) := by
  have hreserve : Moves (vecReserve allocates state.locals.2.length)
      ⟨state.memory, state.dropped, state.locals.1⟩ items
      (items.length + state.locals.2.length ≤ ·) := vecReserve_moves hvals hallowed
  obtain ⟨next, hrun, hdropped, hnext, hroom, hframe⟩ := hreserve
  rw [hother.length] at hroom
  have hkept := hframe.kept state.locals.2.pointer (List.getElem?_eq_some_iff.mp hother.block).1
    (fun h => hne (Option.some_inj.mp h).symm)
  have hotherNext : state.locals.2.Holds next.memory moved := hother.of_block hkept
  have hsrc : state.locals.2.pointer ≠ next.locals.pointer := by
    intro h
    rcases hframe.source (congrArg some h.symm) with hold | hge
    · exact hne (Option.some_inj.mp hold).symm
    · exact absurd (List.getElem?_eq_some_iff.mp hother.block).1 (Nat.not_lt.mpr hge)
  have hcounted : items.length + moved.length ≤ u64Max := Nat.le_trans hroom hnext.capacity_le
  let grown : State T (Vec × Vec) := ⟨next.memory, next.dropped, (next.locals, state.locals.2)⟩
  have hhas : grown.Has state.locals.2.pointer
      (state.locals.2.storageCapacity * Stored.sizeOf T) (cellsFrom 0 moved) := hotherNext.block
  have hmove := moveElements_ok (addU64 items.length) hsrc hhas hnext.block
    (fun i hidx now => addU64_ok (by omega) now)
    hotherNext.capacity hroom hotherNext.counted
  have hfst : borrowing Prod.fst (fun both values => (values, both.2))
      (vecReserve allocates state.locals.2.length) state = .ok () grown := borrowing_ok hrun
  let full : Block T :=
    ⟨next.locals.storageCapacity * Stored.sizeOf T, cellsFrom 0 (items ++ moved)⟩
  let empty : Block T := ⟨state.locals.2.storageCapacity * Stored.sizeOf T, fun _ => none⟩
  have hlen : (items ++ moved).length = items.length + moved.length := length_append
  have hsame : state.locals.1.length + state.locals.2.length = items.length + moved.length := by
    rw [hvals.length, hother.length]
  have hsum : state.locals.1.length + state.locals.2.length ≤ u64Max := hsame ▸ hcounted
  have hinside : state.locals.2.pointer <
      (next.memory.set next.locals.pointer (some full)).length := by
    rw [length_set]
    exact (List.getElem?_eq_some_iff.mp hotherNext.block).1
  rw [← hother.length, ← hvals.length] at hmove
  refine ⟨next.memory.set next.locals.pointer (some full),
    (next.memory.set next.locals.pointer (some full)).set state.locals.2.pointer (some empty),
    { next.locals with length := state.locals.1.length + state.locals.2.length },
    { state.locals.2 with length := 0 }, ?_, ?_, ?_, ?_, rfl, Frame.put empty hinside⟩
  · rw [vecAppend, run_bind (readLocals_ok state), run_bind hfst, run_bind (readLocals_ok grown),
      run_bind hmove, run_bind (addU64_ok hsum _), put_comm _ hsrc, ← hdropped]
    rfl
  · exact ⟨List.getElem?_set_self hnext.has.lt, by rw [hlen, Nat.zero_add, hsame],
      hsame ▸ hroom, hnext.capacity_le, hnext.size_le⟩
  · exact hframe.trans (Frame.put full hnext.has.lt)
  · exact ⟨List.getElem?_set_self hinside, rfl, Nat.zero_le _, hother.capacity_le, hother.size_le⟩

end

end

end Salicin.Vectors
