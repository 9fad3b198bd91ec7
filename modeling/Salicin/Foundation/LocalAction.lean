import Mathlib.Data.List.Infix
import Mathlib.Data.List.Nodup
import Mathlib.Data.Set.Basic

/-!
# Actions that touch a region of a store

An action on a store that maps cells to values is *local* to a region when it changes no
cell outside the region and its output depends only on the cells inside. Actions on
disjoint regions can be run one after another as if each saw the initial store.
-/

/-!
## Paths that overlap

Two projection paths overlap when one is a prefix of the other: they then name a
place and one of its own parts. Paths that do not overlap have disjoint extensions.
-/

namespace PrefixPath

open List

variable {α : Type*} {a b c : List α}

/-- One path is a prefix of the other. -/
def Overlaps (a b : List α) : Prop := a <+: b ∨ b <+: a

instance [DecidableEq α] (a b : List α) : Decidable (Overlaps a b) :=
  inferInstanceAs (Decidable (_ ∨ _))

theorem Overlaps.symm (h : Overlaps a b) : Overlaps b a := Or.symm h

theorem overlaps_of_isPrefix_of_isPrefix (ha : a <+: c) (hb : b <+: c) : Overlaps a b :=
  prefix_or_prefix_of_prefix ha hb

/-- Extending one of two overlapping paths downward past the other keeps them comparable:
a path that overlaps an extension of `a` overlaps `a`. -/
theorem Overlaps.of_isPrefix (h : Overlaps b c) (ha : a <+: b) : Overlaps a c := by
  rcases h with hbc | hcb
  · exact Or.inl (ha.trans hbc)
  · exact overlaps_of_isPrefix_of_isPrefix ha hcb

theorem overlaps_nil (a : List α) : Overlaps [] a := Or.inl nil_prefix

/-- Paths that leave a common stem by different indices do not overlap. -/
theorem not_overlaps_of_ne {i j : α} (hij : i ≠ j) (stem x y : List α) :
    ¬ Overlaps (stem ++ i :: x) (stem ++ j :: y) := by
  rintro (h | h)
  · rw [prefix_append_right_inj, cons_prefix_cons] at h
    exact hij h.1
  · rw [prefix_append_right_inj, cons_prefix_cons] at h
    exact hij h.1.symm

end PrefixPath

namespace LocalAction

open List

variable {Cell Value Output Item : Type*}

/-- The action reads and writes cells of the region only. -/
structure Local (region : Set Cell)
    (action : (Cell → Value) → List Output × (Cell → Value)) : Prop where
  outside : ∀ store cell, cell ∉ region → (action store).2 cell = store cell
  output_congr : ∀ first second : Cell → Value,
    (∀ cell ∈ region, first cell = second cell) → (action first).1 = (action second).1

/-- Run the actions of the items in order and collect their outputs. -/
def sequence (action : Item → (Cell → Value) → List Output × (Cell → Value))
    (items : List Item) (init : List Output × (Cell → Value)) : List Output × (Cell → Value) :=
  items.foldl (fun state item =>
    let result := action item state.2
    (state.1 ++ result.1, result.2)) init

variable {action : Item → (Cell → Value) → List Output × (Cell → Value)}
  {region : Item → Set Cell}

theorem sequence_outside {items : List Item} {cell : Cell}
    (hlocal : ∀ item ∈ items, Local (region item) (action item))
    (hcell : ∀ item ∈ items, cell ∉ region item) (init : List Output × (Cell → Value)) :
    (sequence action items init).2 cell = init.2 cell := by
  induction items generalizing init with
  | nil => rfl
  | cons item rest ih =>
    have hrest := ih (fun next hnext => hlocal next (mem_cons_of_mem _ hnext))
      (fun next hnext => hcell next (mem_cons_of_mem _ hnext))
      (init.1 ++ (action item init.2).1, (action item init.2).2)
    exact hrest.trans ((hlocal item mem_cons_self).outside _ _ (hcell item mem_cons_self))

/-- Actions on pairwise disjoint regions do not see each other's effects. -/
theorem sequence_output {items : List Item}
    (hlocal : ∀ item ∈ items, Local (region item) (action item))
    (hdisj : items.Pairwise fun first second =>
      ∀ cell ∈ region first, cell ∉ region second)
    (store : Cell → Value) (init : List Output × (Cell → Value))
    (hagree : ∀ item ∈ items, ∀ cell ∈ region item, init.2 cell = store cell) :
    (sequence action items init).1 =
      init.1 ++ items.flatMap fun item => (action item store).1 := by
  induction items generalizing init with
  | nil => simp [sequence]
  | cons item rest ih =>
    obtain ⟨hhead, htail⟩ := pairwise_cons.mp hdisj
    have hitem := hlocal item mem_cons_self
    have hrest := ih (fun next hnext => hlocal next (mem_cons_of_mem _ hnext)) htail
      (init.1 ++ (action item init.2).1, (action item init.2).2) ?_
    · rw [flatMap_cons, ← append_assoc, ← hitem.output_congr _ _ (hagree item mem_cons_self)]
      exact hrest
    · intro next hnext cell hcell
      have hnot : cell ∉ region item := fun hmem =>
        hhead next hnext cell hmem hcell
      exact (hitem.outside _ _ hnot).trans (hagree next (mem_cons_of_mem _ hnext) cell hcell)

end LocalAction
