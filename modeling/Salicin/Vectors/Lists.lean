import Mathlib.Data.List.Perm.Basic
import Salicin.Vectors.Operations

/-!
# Programs on lists

What a program on vectors does when its variables hold lists. The elements that enter are returned
or dropped once, or they are still held.
-/

namespace Salicin.Vectors

open Option List

/-! ## Lists -/

inductive Value (T : Type) where
  | vec (items : List T)
  | iterator (remaining : List T)

def Value.items {T : Type} : Value T → List T
  | .vec items => items
  | .iterator remaining => remaining

abbrev Contents (T : Type) := List (Option (Value T))

structure Outcome (T : Type) where
  answer : Answer T
  dropped : List T
  contents : Contents T

section
variable {T : Type}

def itemsAt (contents : Contents T) (slot : Nat) : List T :=
  match contents[slot]? with
  | some (some val) => val.items
  | _ => []

/-- A vector holds another list. -/
def changed (contents : Contents T) (slot : Nat) (answer : Answer T) (dropped items : List T) :
    Outcome T :=
  ⟨answer, dropped, contents.set slot (some (.vec items))⟩

/-- What an operation does to lists. An index that is out of range has no outcome. -/
def effect (contents : Contents T) : Operation T → Option (Outcome T)
  | .new | .withCapacity _ => some ⟨.done, [], contents ++ [some (.vec [])]⟩
  | .len slot => some ⟨.count (itemsAt contents slot).length, [], contents⟩
  | .isEmpty slot => some ⟨.flag (decide ((itemsAt contents slot).length = 0)), [], contents⟩
  | .index slot key =>
    (itemsAt contents slot)[key]?.map fun val => ⟨.borrowed (some val), [], contents⟩
  | .get slot index => some ⟨.borrowed (itemsAt contents slot)[index]?, [], contents⟩
  | .reserve _ _ | .shrinkToFit _ => some ⟨.done, [], contents⟩
  | .push slot val => some (changed contents slot .done [] (itemsAt contents slot ++ [val]))
  | .replace slot index val => (itemsAt contents slot)[index]?.map fun previous =>
    changed contents slot (.element (some previous)) [] ((itemsAt contents slot).set index val)
  | .pop slot => some (changed contents slot (.element (itemsAt contents slot).getLast?) []
      (itemsAt contents slot).dropLast)
  | .truncate slot newLength => some (changed contents slot .done
      ((itemsAt contents slot).drop newLength).reverse ((itemsAt contents slot).take newLength))
  | .clear slot => some (changed contents slot .done (itemsAt contents slot).reverse [])
  | .swapRemove slot index => (itemsAt contents slot)[index]?.map fun removed =>
    changed contents slot (.element (some removed)) []
      ((itemsAt contents slot).set index
        ((itemsAt contents slot).getLast?.getD removed)).dropLast
  | .swap slot left right =>
    if left < (itemsAt contents slot).length ∧ right < (itemsAt contents slot).length then
      some (changed contents slot .done [] (swapped (itemsAt contents slot) left right))
    else none
  | .reverse slot => some (changed contents slot .done [] (itemsAt contents slot).reverse)
  | .insert slot index val =>
    if index ≤ (itemsAt contents slot).length then
      some (changed contents slot .done [] ((itemsAt contents slot).insertIdx index val))
    else none
  | .remove slot index => (itemsAt contents slot)[index]?.map fun removed =>
    changed contents slot (.element (some removed)) [] ((itemsAt contents slot).eraseIdx index)
  | .append slot other => some ⟨.done, [],
      (contents.set slot (some (.vec (itemsAt contents slot ++ itemsAt contents other)))).set other
        (some (.vec []))⟩
  | .take slot => some ⟨.done, [],
      contents.set slot (some (.vec [])) ++ [some (.vec (itemsAt contents slot))]⟩
  | .intoIter slot => some ⟨.done, [],
      contents.set slot none ++ [some (.iterator (itemsAt contents slot))]⟩
  | .next slot => some ⟨.element (itemsAt contents slot).head?, [],
      contents.set slot (some (.iterator (itemsAt contents slot).tail))⟩
  | .drop slot => some ⟨.done, itemsAt contents slot, contents.set slot none⟩

def listRun : Contents T → List (Operation T) → Option (List (Answer T) × List T × Contents T)
  | contents, [] => some ([], [], contents)
  | contents, operation :: rest => do
    let outcome ← effect contents operation
    let (answers, dropped, last) ← listRun outcome.contents rest
    return (outcome.answer :: answers, outcome.dropped ++ dropped, last)

def IsVec (contents : Contents T) (slot : Nat) : Prop :=
  ∃ items, contents[slot]? = some (some (.vec items))

def IsIterator (contents : Contents T) (slot : Nat) : Prop :=
  ∃ remaining, contents[slot]? = some (some (.iterator remaining))

/-- The operation is well typed: its variables have values of its types, a number is one of `u64`,
and a vector is not borrowed twice. -/
def Fits (contents : Contents T) : Operation T → Prop
  | .new => True
  | .withCapacity capacity => capacity ≤ u64Max
  | .len slot | .isEmpty slot | .index slot _ | .get slot _ | .reserve slot _ | .push slot _
  | .replace slot _ _ | .pop slot | .truncate slot _ | .clear slot | .swapRemove slot _
  | .swap slot _ _ | .reverse slot | .insert slot _ _ | .remove slot _ | .shrinkToFit slot
  | .take slot | .intoIter slot => IsVec contents slot
  | .append slot other => IsVec contents slot ∧ IsVec contents other ∧ slot ≠ other
  | .next slot => IsIterator contents slot
  | .drop slot => ∃ val, contents[slot]? = some (some val)

/-- Every operation of a program is well typed where it runs. -/
def WellTyped : Contents T → List (Operation T) → Prop
  | _, [] => True
  | contents, operation :: rest => Fits contents operation ∧
      ∀ outcome, effect contents operation = some outcome → WellTyped outcome.contents rest

end

/-! ## Entries -/

section
variable {T α : Type} {contents : Contents T} {slot : Nat}

theorem itemsAt_eq {val : Value T} (hval : contents[slot]? = some (some val)) :
    itemsAt contents slot = val.items := by
  rw [itemsAt, hval]

theorem IsVec.entry (hvec : IsVec contents slot) :
    contents[slot]? = some (some (.vec (itemsAt contents slot))) := by
  obtain ⟨items, hitems⟩ := hvec
  rw [itemsAt_eq hitems, hitems]
  rfl

theorem IsIterator.entry (hiterator : IsIterator contents slot) :
    contents[slot]? = some (some (.iterator (itemsAt contents slot))) := by
  obtain ⟨remaining, hrem⟩ := hiterator
  rw [itemsAt_eq hrem, hrem]
  rfl

theorem set_same {list : List α} {val : α} (hval : list[slot]? = some val) :
    list.set slot val = list := by
  obtain ⟨hlt, rfl⟩ := List.getElem?_eq_some_iff.mp hval
  exact set_getElem_self hlt

/-- An operation that leaves the elements of a vector as they are. -/
theorem changed_same (hvec : IsVec contents slot) (answer : Answer T) :
    changed contents slot answer [] (itemsAt contents slot) = ⟨answer, [], contents⟩ := by
  rw [changed, set_same hvec.entry]

end

/-! ## Elements are kept -/

section
variable {T : Type} {contents : Contents T} {slot : Nat} {items : List T}

def itemsOf (entry : Option (Value T)) : List T :=
  match entry with
  | some val => val.items
  | none => []

/-- The elements in vectors and iterators. -/
def held (contents : Contents T) : List T := contents.flatMap itemsOf

/-- The elements that an operation hands to a vector. -/
def Operation.entered : Operation T → List T
  | .push _ val | .replace _ _ val | .insert _ _ val => [val]
  | _ => []

/-- The elements that are moved to the caller. -/
def Answer.returned : Answer T → List T
  | .element val => val.toList
  | _ => []

theorem held_append (contents : Contents T) (entry : Option (Value T)) :
    held (contents ++ [entry]) = held contents ++ itemsOf entry := by
  rw [held, flatMap_append, flatMap_singleton]
  rfl

theorem held_perm {entry : Option (Value T)} (hentry : contents[slot]? = some entry) :
    (held contents).Perm (itemsOf entry ++ held (contents.eraseIdx slot)) := by
  obtain ⟨hslot, rfl⟩ := List.getElem?_eq_some_iff.mp hentry
  exact ((getElem_cons_eraseIdx_perm hslot).symm.flatMap_right _)

theorem held_set_perm {entry : Option (Value T)} (hentry : contents[slot]? = some entry)
    (new : Option (Value T)) :
    (held (contents.set slot new)).Perm (itemsOf new ++ held (contents.eraseIdx slot)) :=
  (set_perm_cons_eraseIdx (List.getElem?_eq_some_iff.mp hentry).1 new).flatMap_right _

theorem held_changed {entry new : Option (Value T)} (hentry : contents[slot]? = some entry)
    {entered out : List T} (hitems : (itemsOf entry ++ entered).Perm (out ++ itemsOf new)) :
    (held contents ++ entered).Perm (out ++ held (contents.set slot new)) := by
  have hrest := hitems.append_right (held (contents.eraseIdx slot))
  rw [append_assoc, append_assoc] at hrest
  have hbefore : (held contents ++ entered).Perm
      (itemsOf entry ++ (entered ++ held (contents.eraseIdx slot))) := by
    refine ((held_perm hentry).append_right entered).trans ?_
    rw [append_assoc]
    exact perm_append_comm.append_left _
  exact hbefore.trans (hrest.trans ((held_set_perm hentry new).symm.append_left out))

theorem set_perm {i : Nat} (hidx : i < items.length) (val : T) :
    (items ++ [val]).Perm (items[i] :: items.set i val) := by
  have htaken := getElem_cons_eraseIdx_perm hidx
  have hset := set_perm_cons_eraseIdx hidx val
  exact (perm_append_singleton val items).trans (((htaken.symm.cons val).trans
    (List.Perm.swap _ _ _)).trans (hset.symm.cons _))

theorem swapped_perm {left right : Nat} (hleft : left < items.length)
    (hright : right < items.length) : (swapped items left right).Perm items := by
  rw [swapped_eq hleft hright]
  have hfst := set_perm hleft items[right]
  have hright' : right < (items.set left items[right]).length := by
    rw [length_set]
    exact hright
  have hsnd := set_perm hright' items[left]
  have hsame : (items.set left items[right])[right] = items[right] := by
    rw [getElem_set]
    split_ifs <;> rfl
  rw [hsame] at hsnd
  have hboth := (hfst.trans (perm_append_singleton _ _).symm).trans hsnd
  exact ((perm_append_singleton _ _).symm.trans hboth).cons_inv.symm

theorem swapRemove_perm {i : Nat} (hidx : i < items.length) :
    items.Perm (items[i] :: (items.set i (items.getLast?.getD items[i])).dropLast) := by
  obtain ⟨front, last, rfl⟩ :=
    (eq_nil_or_concat' items).resolve_left (ne_nil_of_length_pos (by omega))
  have hlast : ((front ++ [last]).getLast?).getD (front ++ [last])[i] = last := by
    rw [getLast?_concat, getD_some]
  have hmoved := set_perm hidx last
  have hend : (front ++ [last]).set i last = ((front ++ [last]).set i last).dropLast ++
      [last] := by
    rw [length_append, length_singleton] at hidx
    by_cases hless : i < front.length
    · rw [set_append_left _ _ hless, dropLast_concat]
    · obtain rfl : i = front.length := by omega
      rw [set_append_right _ _ (Nat.le_refl _), Nat.sub_self, set_cons_zero, dropLast_concat]
  rw [hlast]
  rw [hend, ← cons_append] at hmoved
  exact (perm_append_right_iff [last]).mp hmoved

theorem append_perm {other : Nat} {moved : List T}
    (hitems : contents[slot]? = some (some (.vec items)))
    (hmoved : contents[other]? = some (some (.vec moved))) (hne : slot ≠ other) :
    (held contents).Perm (held ((contents.set slot (some (.vec (items ++ moved)))).set other
      (some (.vec [])))) := by
  have hkept : (contents.set slot (some (.vec (items ++ moved))))[other]? =
      some (some (.vec moved)) := (getElem?_set_ne hne).trans hmoved
  have hfst : (held contents ++ moved).Perm
      ([] ++ held (contents.set slot (some (.vec (items ++ moved))))) :=
    held_changed hitems (List.Perm.refl (items ++ moved))
  have hsnd : (held (contents.set slot (some (.vec (items ++ moved)))) ++ []).Perm
      (moved ++ held ((contents.set slot (some (.vec (items ++ moved)))).set other
        (some (.vec [])))) := held_changed hkept (List.Perm.refl (moved ++ []))
  rw [append_nil] at hsnd
  exact (perm_append_left_iff moved).mp
    (perm_append_comm.trans (hfst.trans hsnd))

theorem changed_conserves (hitems : contents[slot]? = some (some (.vec items)))
    {answer : Answer T} {entered dropped items' : List T}
    (hperm : (items ++ entered).Perm (answer.returned ++ dropped ++ items')) :
    (held contents ++ entered).Perm
      ((changed contents slot answer dropped items').answer.returned ++
      (changed contents slot answer dropped items').dropped ++
      held (changed contents slot answer dropped items').contents) :=
  held_changed hitems hperm

theorem changed_keeps (hitems : contents[slot]? = some (some (.vec items)))
    {answer : Answer T} {dropped items' : List T}
    (hperm : items.Perm (answer.returned ++ dropped ++ items')) :
    (held contents ++ []).Perm ((changed contents slot answer dropped items').answer.returned ++
      (changed contents slot answer dropped items').dropped ++
      held (changed contents slot answer dropped items').contents) :=
  changed_conserves hitems ((append_nil items).symm ▸ hperm)

theorem effect_conserves {operation : Operation T} {outcome : Outcome T}
    (hfits : Fits contents operation) (heff : effect contents operation = some outcome) :
    (held contents ++ operation.entered).Perm
      (outcome.answer.returned ++ outcome.dropped ++ held outcome.contents) := by
  have hsame : ∀ answer : Answer T, answer.returned = [] → operation.entered = [] →
      outcome = ⟨answer, [], contents⟩ → (held contents ++ operation.entered).Perm
        (outcome.answer.returned ++ outcome.dropped ++ held outcome.contents) := by
    rintro answer hreturned hentered rfl
    rw [hreturned, hentered, append_nil]
    rfl
  cases operation with
  | new =>
    cases heff
    rw [held_append]
    exact List.Perm.refl _
  | withCapacity cap =>
    cases heff
    rw [held_append]
    exact List.Perm.refl _
  | len slot => exact hsame _ rfl rfl (some_inj.mp heff).symm
  | isEmpty slot => exact hsame _ rfl rfl (some_inj.mp heff).symm
  | index slot key =>
    obtain ⟨val, _, hval⟩ := map_eq_some_iff.mp heff
    exact hsame _ rfl rfl hval.symm
  | get slot index => exact hsame _ rfl rfl (some_inj.mp heff).symm
  | reserve slot additional => exact hsame _ rfl rfl (some_inj.mp heff).symm
  | shrinkToFit slot => exact hsame _ rfl rfl (some_inj.mp heff).symm
  | push slot val =>
    cases heff
    exact changed_conserves hfits.entry (List.Perm.refl _)
  | replace slot index val =>
    obtain ⟨prev, hprev, rfl⟩ := map_eq_some_iff.mp heff
    obtain ⟨hidx, rfl⟩ := List.getElem?_eq_some_iff.mp hprev
    exact changed_conserves hfits.entry (set_perm hidx val)
  | pop slot =>
    cases heff
    refine changed_keeps hfits.entry ?_
    generalize itemsAt contents slot = items
    rcases eq_nil_or_concat' items with rfl | ⟨front, last, rfl⟩
    · exact List.Perm.refl _
    · rw [List.getLast?_concat, dropLast_concat]
      exact perm_append_singleton last front
  | truncate slot newLength =>
    cases heff
    refine changed_keeps hfits.entry ?_
    nth_rewrite 1 [← take_append_drop newLength (itemsAt contents slot)]
    exact perm_append_comm.trans ((reverse_perm _).symm.append_right _)
  | clear slot =>
    cases heff
    refine changed_keeps hfits.entry ?_
    rw [append_nil]
    exact (reverse_perm _).symm
  | swapRemove slot index =>
    obtain ⟨removed, hremoved, rfl⟩ := map_eq_some_iff.mp heff
    obtain ⟨hidx, rfl⟩ := List.getElem?_eq_some_iff.mp hremoved
    refine changed_keeps hfits.entry ?_
    exact swapRemove_perm hidx
  | swap slot left right =>
    rw [effect] at heff
    split_ifs at heff with hinside
    cases heff
    refine changed_keeps hfits.entry ?_
    exact (swapped_perm hinside.1 hinside.2).symm
  | reverse slot =>
    cases heff
    refine changed_keeps hfits.entry ?_
    exact (reverse_perm _).symm
  | insert slot index val =>
    rw [effect] at heff
    split_ifs at heff with hidx
    cases heff
    exact changed_conserves hfits.entry ((perm_append_singleton val _).trans
      (perm_insertIdx val _ hidx).symm)
  | remove slot index =>
    obtain ⟨removed, hremoved, rfl⟩ := map_eq_some_iff.mp heff
    obtain ⟨hidx, rfl⟩ := List.getElem?_eq_some_iff.mp hremoved
    refine changed_keeps hfits.entry ?_
    exact (getElem_cons_eraseIdx_perm hidx).symm
  | append slot other =>
    obtain ⟨hvec, hother, hne⟩ := hfits
    cases heff
    change (held contents ++ []).Perm _
    rw [append_nil]
    exact append_perm hvec.entry hother.entry hne
  | take slot =>
    cases heff
    rw [held_append]
    have hmoved : (held contents ++ []).Perm
        (itemsAt contents slot ++ held (contents.set slot (some (.vec [])))) :=
      held_changed hfits.entry (List.Perm.refl (_ ++ []))
    exact hmoved.trans perm_append_comm
  | intoIter slot =>
    cases heff
    rw [held_append]
    have hmoved : (held contents ++ []).Perm
        (itemsAt contents slot ++ held (contents.set slot none)) :=
      held_changed hfits.entry (List.Perm.refl (_ ++ []))
    exact hmoved.trans perm_append_comm
  | next slot =>
    cases heff
    have hmoved : (held contents ++ []).Perm
        ((itemsAt contents slot).head?.toList ++
          held (contents.set slot (some (.iterator (itemsAt contents slot).tail)))) :=
      held_changed hfits.entry (by
        cases hitems : itemsAt contents slot <;>
          exact List.Perm.of_eq (append_nil _))
    rw [Answer.returned, append_nil]
    exact hmoved
  | drop slot =>
    obtain ⟨val, hval⟩ := hfits
    cases heff
    rw [itemsAt_eq hval]
    have hdropped : (held contents ++ []).Perm
        (val.items ++ held (contents.set slot none)) :=
      held_changed hval (List.Perm.refl (val.items ++ []))
    exact hdropped

end

/-! ## Programs -/

section
variable {T : Type}

theorem WellTyped.of_prefix {contents : Contents T} {front ops : List (Operation T)}
    (htyped : WellTyped contents ops) (hfront : front <+: ops) :
    WellTyped contents front := by
  obtain ⟨back, rfl⟩ := hfront
  induction front generalizing contents with
  | nil => trivial
  | cons operation rest ih =>
    exact ⟨htyped.1, fun outcome heff => ih (htyped.2 outcome heff)⟩

theorem listRun_conserves {contents last : Contents T} {ops : List (Operation T)}
    {answers : List (Answer T)} {dropped : List T} (htyped : WellTyped contents ops)
    (hrun : listRun contents ops = some (answers, dropped, last)) :
    (held contents ++ ops.flatMap Operation.entered).Perm
      (answers.flatMap Answer.returned ++ dropped ++ held last) := by
  induction ops generalizing contents answers dropped with
  | nil =>
    cases hrun
    rw [flatMap_nil, append_nil]
    exact List.Perm.refl _
  | cons operation rest ih =>
    obtain ⟨outcome, heff, hrest⟩ := bind_eq_some_iff.mp hrun
    obtain ⟨⟨answers, dropped, final⟩, hlast, hres⟩ := bind_eq_some_iff.mp hrest
    cases hres
    have hstep := effect_conserves htyped.1 heff
    have hafter := ih (htyped.2 outcome heff) hlast
    rw [flatMap_cons, flatMap_cons, ← append_assoc]
    refine (hstep.append_right _).trans ?_
    simp only [append_assoc] at hafter ⊢
    exact ((hafter.append_left _).trans (perm_append_comm_assoc _ _ _)).append_left _

end

end Salicin.Vectors
