import Mathlib.Data.List.Sort
import Mathlib.Data.Prod.Lex

/-!
# Sorting by a comparison

What is sorted does not show in which order it was listed, as long as items with one key are
alike in what is read of them.
-/

namespace ComparisonSort

open List

variable {α β γ κ μ : Type*}

/-- A stable sort. -/
def sortBy (compare : α → α → Ordering) (items : List α) : List α :=
  items.mergeSort fun left right => (compare left right).isLE

theorem perm_sortBy (compare : α → α → Ordering) (items : List α) :
    (sortBy compare items).Perm items :=
  mergeSort_perm _ _

@[simp] theorem length_sortBy (compare : α → α → Ordering) (items : List α) :
    (sortBy compare items).length = items.length :=
  (perm_sortBy compare items).length_eq

variable {compare : α → α → Ordering}

@[simp] theorem mem_sortBy {items : List α} {item : α} :
    item ∈ sortBy compare items ↔ item ∈ items :=
  (perm_sortBy compare items).mem_iff

/-- Items are compared as their keys are. -/
def Compares [LinearOrder κ] (compare : α → α → Ordering) (key : α → κ) : Prop :=
  ∀ left right, compare left right = cmp (key left) (key right)

def byKey [LinearOrder κ] (key : α → κ) (left right : α) : Ordering := cmp (key left) (key right)

theorem compares_byKey [LinearOrder κ] (key : α → κ) : Compares (byKey key) key := fun _ _ => rfl

theorem cmp_toLex [LinearOrder κ] [LinearOrder μ] (first second : κ × μ) :
    cmp (toLex first) (toLex second) = (cmp first.1 second.1).then (cmp first.2 second.2) := by
  obtain hlt | heq | hgt := lt_trichotomy first.1 second.1
  · rw [(cmp_eq_lt_iff _ _).mpr hlt, (cmp_eq_lt_iff _ _).mpr (Prod.Lex.toLex_lt_toLex.mpr (.inl hlt))]
    rfl
  · rw [(cmp_eq_eq_iff _ _).mpr heq, Ordering.then]
    obtain hlow | hsame | hhigh := lt_trichotomy first.2 second.2
    · rw [(cmp_eq_lt_iff _ _).mpr hlow,
        (cmp_eq_lt_iff _ _).mpr (Prod.Lex.toLex_lt_toLex.mpr (.inr ⟨heq, hlow⟩))]
    · rw [(cmp_eq_eq_iff _ _).mpr hsame, Prod.ext heq hsame, cmp_self_eq_eq]
    · rw [(cmp_eq_gt_iff _ _).mpr hhigh,
        (cmp_eq_gt_iff _ _).mpr (Prod.Lex.toLex_lt_toLex.mpr (.inr ⟨heq.symm, hhigh⟩))]
  · rw [(cmp_eq_gt_iff _ _).mpr hgt, (cmp_eq_gt_iff _ _).mpr (Prod.Lex.toLex_lt_toLex.mpr (.inl hgt))]
    rfl

/-- One comparison, and another where the first finds no difference. -/
theorem Compares.then [LinearOrder κ] [LinearOrder μ] {other : α → α → Ordering} {key : α → κ}
    {otherKey : α → μ} (hcompare : Compares compare key) (hother : Compares other otherKey) :
    Compares (fun left right => (compare left right).then (other left right))
      fun item => toLex (key item, otherKey item) := by
  intro left right
  beta_reduce
  rw [hcompare, hother, cmp_toLex]

theorem sorted_sortBy [LinearOrder κ] {key : α → κ} (hcompare : Compares compare key)
    (items : List α) :
    (sortBy compare items).Pairwise fun left right => key left ≤ key right := by
  have hle : ∀ left right, (compare left right).isLE = true ↔ key left ≤ key right := by
    intro left right
    rw [hcompare, ← not_lt, ← cmp_eq_gt_iff]
    cases cmp (key left) (key right) <;> simp
  refine (pairwise_mergeSort ?_ ?_ items).imp fun {left right} => (hle left right).mp
  · intro first second third hfst hsnd
    exact (hle _ _).mpr (((hle _ _).mp hfst).trans ((hle _ _).mp hsnd))
  · intro first second
    rw [Bool.or_eq_true, hle, hle]
    exact le_total _ _

/-- What is read of the items in their order is the same for two listings of the same. -/
theorem map_sortBy_eq_of_perm [LinearOrder κ] {key : α → κ} (hcompare : Compares compare key)
    {read read' : α → γ} (readKey : γ → κ) {first second : List α}
    (hread : ∀ item ∈ first, readKey (read item) = key item)
    (hread' : ∀ item ∈ second, readKey (read' item) = key item)
    (hdetermined : ∀ left ∈ first, ∀ right ∈ second, key left = key right → read left = read' right)
    (hperm : (first.map read).Perm (second.map read')) :
    (sortBy compare first).map read = (sortBy compare second).map read' := by
  have hfst : ((sortBy compare first).map read).Pairwise fun left right =>
      readKey left ≤ readKey right := by
    refine pairwise_map.mpr ((sorted_sortBy hcompare first).imp_of_mem ?_)
    intro left right hleft hright hle
    rwa [hread _ (mem_sortBy.mp hleft), hread _ (mem_sortBy.mp hright)]
  have hsnd : ((sortBy compare second).map read').Pairwise fun left right =>
      readKey left ≤ readKey right := by
    refine pairwise_map.mpr ((sorted_sortBy hcompare second).imp_of_mem ?_)
    intro left right hleft hright hle
    rwa [hread' _ (mem_sortBy.mp hleft), hread' _ (mem_sortBy.mp hright)]
  have hlistings : ((sortBy compare first).map read).Perm ((sortBy compare second).map read') :=
    ((perm_sortBy compare first).map read).trans
      (hperm.trans ((perm_sortBy compare second).map read').symm)
  refine List.Perm.eq_of_pairwise ?_ hfst hsnd hlistings
  intro left right hleft hright hle hge
  obtain ⟨item, hitem, rfl⟩ := mem_map.mp hleft
  obtain ⟨other, hother, rfl⟩ := mem_map.mp hright
  rw [mem_sortBy] at hitem hother
  rw [hread _ hitem, hread' _ hother] at hle hge
  exact hdetermined item hitem other hother (le_antisymm hle hge)

end ComparisonSort
