import Salicin.Cleanup.VerifyStructure

/-!
# The subtree intervals of an accepted forest

The analyses ask the topology for the paths inside a path and whether a path lies inside another
one. It answers from the tables of one walk from every root. In a forest that the verification
accepts these answers follow the parent links, and every path belongs to one root.
-/

namespace Salicin.Cleanup

open List PreorderIntervals

namespace CleanupPlan

variable (plan : CleanupPlan)

/-- The loops of the topology: the walk from every root over a stack of its own, to a bound
on its turns. -/
def preorderTables : Option (Numbering MovePathId) :=
  plan.roots.foldlM (fun numbering root =>
    drain plan.children (2 * plan.movePaths.length) [(root, false)] numbering) .empty

/-- The path is the ancestor, or the links from parent to child lead from the ancestor to it. -/
def IsAncestorOrSelf : MovePathId → MovePathId → Prop :=
  Relation.ReflTransGen fun parent child => plan.parent child = some parent

namespace PathsValid

variable {plan} (hvalid : plan.PathsValid) {path top : MovePathId}

include hvalid

theorem isAncestorOrSelf_eq : plan.IsAncestorOrSelf = Reaches plan.children := by
  have hlink : (fun parent child => plan.parent child = some parent) =
      fun parent child => child ∈ plan.children parent := by
    funext parent child
    exact propext hvalid.mem_children.symm
  rw [IsAncestorOrSelf, hlink]
  rfl

theorem below_iff_isAncestorOrSelf (htop : plan.Has top) (hpath : plan.Has path) :
    plan.Below top path ↔ plan.IsAncestorOrSelf top path := by
  rw [hvalid.isAncestorOrSelf_eq, hvalid.reaches_iff_below htop hpath]

/-- No subtree has more paths than the plan. -/
theorem length_preorder_le (htop : plan.Has top) :
    (preorder plan.children plan.height top).length ≤ plan.movePaths.length := by
  have hnodup := hvalid.forest.preorder_nodup (hvalid.fits htop)
  have hsub : preorder plan.children plan.height top ⊆ List.range plan.movePaths.length :=
    fun path hpath => mem_range.mpr ((hvalid.mem_preorder_iff htop).mp hpath).1
  calc (preorder plan.children plan.height top).length
      ≤ (List.range plan.movePaths.length).length := (subperm_of_subset hnodup hsub).length_le
    _ = plan.movePaths.length := length_range

theorem drain_root (htop : plan.Has top) (numbering : Numbering MovePathId) :
    drain plan.children (2 * plan.movePaths.length) [(top, false)] numbering =
      some (visit plan.children plan.height top numbering) := by
  obtain ⟨rest, hrest⟩ := Nat.exists_eq_add_of_le (hvalid.length_preorder_le htop)
  rw [hrest, Nat.mul_add, drain_visit (hvalid.fits htop)]
  cases 2 * rest <;> rfl

/-- The loops end, with the tables of the recursive walk. -/
theorem preorderTables_eq : plan.preorderTables = some plan.numbering := by
  have hwalk : ∀ roots : List MovePathId, (∀ root ∈ roots, plan.Has root) →
      ∀ numbering : Numbering MovePathId,
        roots.foldlM (fun numbering root =>
            drain plan.children (2 * plan.movePaths.length) [(root, false)] numbering) numbering =
          some (roots.foldl (fun numbering root =>
            visit plan.children plan.height root numbering) numbering) := by
    intro roots
    induction roots with
    | nil => exact fun _ _ => rfl
    | cons head rest ih =>
      intro hlt numbering
      rw [foldlM_cons, hvalid.drain_root (hlt head mem_cons_self), foldl_cons]
      exact ih (fun root hroot => hlt root (mem_cons_of_mem _ hroot)) _
  exact hwalk plan.roots (fun root hroot => (hvalid.mem_roots.mp hroot).1) .empty

theorem existsUnique_root (hpath : plan.Has path) :
    ∃! root, root ∈ plan.roots ∧ path ∈ plan.subtree root := by
  obtain ⟨root, hroot, hbelow⟩ := hvalid.exists_root hpath
  obtain ⟨hlt, hparent, -⟩ := hvalid.rootByLocal_eq_some.mp hroot
  refine ⟨root, ⟨hvalid.mem_roots.mpr ⟨hlt, hparent⟩, (hvalid.mem_subtree hlt).mpr ⟨hpath, hbelow⟩⟩,
    fun other ⟨hother, hmem⟩ => ?_⟩
  obtain ⟨hlt', hparent'⟩ := hvalid.mem_roots.mp hother
  have hbelow' := ((hvalid.mem_subtree hlt').mp hmem).2
  rcases below_or_below hbelow hbelow' with hroots | hroots
  · exact (hvalid.eq_of_below_root hparent' hlt' hlt hroots).symm
  · exact hvalid.eq_of_below_root hparent hlt hlt' hroots

end PathsValid

/-- In an accepted forest the walks end, an interval contains exactly the paths below its own
one, a subtree lists them once each, and every path lies below one root. -/
theorem subtree_intervals (plan : CleanupPlan) (hacc : plan.verifyMovePaths = []) :
    plan.preorderTables = some plan.numbering ∧
      (∀ ancestor < plan.movePaths.length, ∀ path < plan.movePaths.length,
        plan.containsPath ancestor path = true ↔ plan.IsAncestorOrSelf ancestor path) ∧
      (∀ top < plan.movePaths.length, (plan.subtree top).Nodup ∧ ∀ path, path ∈ plan.subtree top ↔
          path < plan.movePaths.length ∧ plan.IsAncestorOrSelf top path) ∧
      (∀ root, root ∈ plan.roots ↔ root < plan.movePaths.length ∧ plan.parent root = none) ∧
      ∀ path < plan.movePaths.length, ∃! root, root ∈ plan.roots ∧ path ∈ plan.subtree root := by
  have hvalid := pathsValid_of_verifyMovePaths hacc
  refine ⟨hvalid.preorderTables_eq, fun ancestor habove path hpath => ?_,
    fun top htop => ⟨?_, fun path => ?_⟩, fun root => hvalid.mem_roots,
    fun path hpath => hvalid.existsUnique_root hpath⟩
  · rw [hvalid.containsPath_iff habove hpath, hvalid.below_iff_isAncestorOrSelf habove hpath]
  · rw [hvalid.subtree_eq htop]
    exact hvalid.forest.preorder_nodup (hvalid.fits htop)
  · rw [hvalid.mem_subtree htop]
    exact and_congr_right fun hpath => hvalid.below_iff_isAncestorOrSelf htop hpath

/-- A pair and a scalar: the first local has a path for each field. -/
def pairPlan : CleanupPlan where
  rootScope := 0
  entry := 0
  scopes := [{ id := 0, parent := none, kind := .root, locals := [0, 1] }]
  locals := [
    { id := 0, sourceLocal := none, debugName := none, scope := 0, kind := .user
      ownership := .owned, isMutable := false, declarationOrder := 0 },
    { id := 1, sourceLocal := none, debugName := none, scope := 0, kind := .user
      ownership := .owned, isMutable := false, declarationOrder := 1 }]
  movePaths := [
    { id := 0, place := ⟨0, []⟩, parent := none, needsDrop := true },
    { id := 1, place := ⟨0, [.field 0]⟩, parent := some 0, needsDrop := true },
    { id := 2, place := ⟨0, [.field 1]⟩, parent := some 0, needsDrop := false },
    { id := 3, place := ⟨1, []⟩, parent := none, needsDrop := false }]
  blocks := []

theorem subtree_intervals_pair : pairPlan.IsAncestorOrSelf 0 2 ∧
    ∃! root, root ∈ pairPlan.roots ∧ 2 ∈ pairPlan.subtree root := by
  obtain ⟨-, hcontains, -, -, hroot⟩ := subtree_intervals pairPlan rfl
  exact ⟨(hcontains 0 (by decide) 2 (by decide)).mp (by decide), hroot 2 (by decide)⟩

end CleanupPlan

end Salicin.Cleanup
