import Salicin.Cleanup.PathStates

/-!
# Marking a path whole

What becomes of each path when a path is marked whole: the path itself, and the parts of each
of its children as if the child had been marked, or cleared, alone.
-/

namespace Salicin.Cleanup

open List PreorderIntervals

open CleanupPlan.PathsValid (below_refl below_trans lt_of_parent)

variable {plan : CleanupPlan} {path : MovePathId} {state : MoveState plan}

theorem CleanupPlan.PathsValid.completion_of_discriminant {known : DiscriminantState}
    (hknown : state.discriminant path = some known) :
    plan.completion path = .enumRoot (plan.variantChildren path) := by
  obtain ⟨slot, hslot, -⟩ := Option.map_eq_some_iff.mp hknown
  exact completion_of_discriminantIndex hslot

namespace MoveState

theorem discriminant_eq_none (state : MoveState plan)
    (hrule : ∀ variants, plan.completion path ≠ .enumRoot variants) :
    state.discriminant path = none := by
  rw [discriminant, Option.map_eq_none_iff]
  cases hslot : plan.discriminantIndex path with
  | none => rfl
  | some slot =>
    exact absurd (CleanupPlan.PathsValid.completion_of_discriminantIndex hslot) (hrule _)

/-- What is known of a path that has just been marked. -/
def markedPath (state : MoveState plan) (path : MovePathId)
    (certainty : InitializationCertainty) : PathState :=
  { may := true
    must := certainty = .must
    discriminant := (state.discriminant path).map
      (markDiscriminant certainty ((plan.variantChildren path).map (·.1))) }

/-- The variants that are possible once the path is marked. -/
def possibleAfter (state : MoveState plan) (path : MovePathId)
    (certainty : InitializationCertainty) : Finset Nat :=
  match (state.markedPath path certainty).discriminant with
  | some discriminant => discriminant.possibleVariants
  | none => ∅

theorem possibleAfter_eq {certainty : InitializationCertainty} {known : DiscriminantState}
    (hknown : state.discriminant path = some known) :
    state.possibleAfter path certainty = (markDiscriminant certainty
      ((plan.variantChildren path).map (·.1)) known).possibleVariants := by
  rw [possibleAfter, markedPath, hknown]
  rfl

/-- The discriminant of an enum path, once it is marked. -/
def markEnum (state : MoveState plan) (path : MovePathId) (certainty : InitializationCertainty)
    (variants : List (Nat × MovePathId)) : MoveState plan :=
  (state.markInit path certainty).updateDiscriminant path
    (markDiscriminant certainty (variants.map (·.1)))

theorem pathState_markEnum (state : MoveState plan) (path other : MovePathId)
    (certainty : InitializationCertainty) :
    (state.markEnum path certainty (plan.variantChildren path)).pathState other =
      if other = path then state.markedPath path certainty else state.pathState other := by
  rw [markEnum, pathState_updateDiscriminant, pathState_markInit]
  by_cases hsame : other = path
  · simp only [hsame, if_true]
    rfl
  · simp only [hsame, if_false]

theorem possibleVariants_markEnum (state : MoveState plan) (path : MovePathId)
    (certainty : InitializationCertainty) :
    (state.markEnum path certainty (plan.variantChildren path)).possibleVariants path =
      state.possibleAfter path certainty := by
  have hmarked := pathState_markEnum state path path certainty
  rw [if_pos rfl] at hmarked
  rw [possibleVariants, possibleAfter, ← hmarked]
  rfl

variable (hvalid : plan.PathsValid)

include hvalid

theorem pathState_markWhole_of_not_below {bound : Nat} {other : MovePathId}
    (hpath : plan.Has path) (hother : plan.Has other)
    (hbelow : ¬ plan.Below path other) (certainty : InitializationCertainty)
    (state : MoveState plan) :
    (markWhole bound path certainty state).pathState other = state.pathState other := by
  induction bound generalizing path certainty state with
  | zero => rfl
  | succ bound ih =>
    have hne : other ≠ path := fun heq =>
      hbelow (heq ▸ CleanupPlan.PathsValid.below_refl other)
    have hchild {child : MovePathId} (hchild : child ∈ plan.children path) :
        child < plan.movePaths.length ∧ ¬ plan.Below child other :=
      ⟨CleanupPlan.PathsValid.lt_of_parent (hvalid.mem_children.mp hchild), fun hin =>
        hbelow (CleanupPlan.PathsValid.below_trans (hvalid.below_child hchild) hin)⟩
    rw [markWhole]
    split
    · rw [pathState_markInit, if_neg hne]
    · rw [pathState_foldl_of_not, pathState_markInit, if_neg hne]
      intro child hmem state
      obtain ⟨hlt, hout⟩ := hchild (mem_reverse.mp hmem)
      exact ih hlt hout _ _
    · next variants henum =>
        have hlisted {variants' : List (Nat × MovePathId)} {child : MovePathId}
            (hsub : variants' ⊆ variants) (hmem : child ∈ variants'.map (·.2)) :
            child < plan.movePaths.length ∧ ¬ plan.Below child other := by
          obtain ⟨⟨variant, _⟩, hentry, rfl⟩ := mem_map.mp hmem
          have hentry := hsub hentry
          rw [← CleanupPlan.PathsValid.variants_eq henum] at hentry
          exact hchild (CleanupPlan.PathsValid.mem_variantChildren.mp hentry).1
        dsimp only
        rw [pathState_foldl_of_not, pathState_foldl_of_not, pathState_updateDiscriminant,
          if_neg hne, pathState_markInit, if_neg hne]
        · intro child hmem state
          obtain ⟨hlt, hout⟩ := hlisted filter_sublist.subset hmem
          rw [pathState_clearSubtreeOnly hvalid state hlt hother, if_neg hout]
        · intro child hmem state
          obtain ⟨hlt, hout⟩ := hlisted filter_sublist.subset (mem_reverse.mp hmem)
          exact ih hlt hout _ _

variable {items : List MovePathId}

/-- What marking the children leaves of the paths that are in none of them. -/
theorem pathState_foldl_children {other : MovePathId}
    {change : MoveState plan → MovePathId → MoveState plan}
    (hchange : ∀ item < plan.movePaths.length, ∀ state, ¬ plan.Below item other →
      (change state item).pathState other = state.pathState other)
    (hitems : ∀ child ∈ items, child ∈ plan.children path)
    (hout : ∀ child ∈ items, ¬ plan.Below child other) (state : MoveState plan) :
    (items.foldl change state).pathState other = state.pathState other :=
  pathState_foldl_of_not (fun item hitem state => hchange item
    (CleanupPlan.PathsValid.lt_of_parent (hvalid.mem_children.mp (hitems item hitem))) state
    (hout item hitem)) state

section Children

variable (bound : Nat) {path child : MovePathId} (certainty : InitializationCertainty)
  (state : MoveState plan)

/-- Of children that are marked one after the other, each is marked as if alone. -/
theorem exists_foldl_markWhole (hitems : ∀ item ∈ items, item ∈ plan.children path)
    (hnodup : items.Nodup) (hchild : child ∈ items) :
    ∃ before : MoveState plan, ∀ part < plan.movePaths.length, plan.Below child part →
      before.pathState part = state.pathState part ∧
        (items.foldl (fun state item => markWhole bound item certainty state) state).pathState
          part = (markWhole bound child certainty before).pathState part :=
  exists_pathState_foldl
    (fun item hitem state _ hpath hout => pathState_markWhole_of_not_below hvalid
      (lt_of_parent (hvalid.mem_children.mp (hitems item hitem))) hpath hout certainty state)
    (hvalid.children_pairwise hnodup hitems) state hchild

/-- Of children that are cleared one after the other, each is cleared. -/
theorem pathState_foldl_clear (hitems : ∀ item ∈ items, item ∈ plan.children path)
    (hnodup : items.Nodup) (hchild : child ∈ items) {part : MovePathId}
    (hpart : plan.Has part) (hbelow : plan.Below child part) :
    (items.foldl clearSubtreeOnly state).pathState part = clearedPath plan part := by
  have hlt {item : MovePathId} (hitem : item ∈ items) : plan.Has item :=
    lt_of_parent (hvalid.mem_children.mp (hitems item hitem))
  obtain ⟨before, hbefore⟩ := exists_pathState_foldl
    (fun item hitem state path hpath hout => by
      rw [pathState_clearSubtreeOnly hvalid state (hlt hitem) hpath, if_neg hout])
    (hvalid.children_pairwise hnodup hitems) state hchild
  rw [(hbefore part hpart hbelow).2,
    pathState_clearSubtreeOnly hvalid before (hlt hchild) hpart, if_pos hbelow]

theorem exists_markWhole_of_allChildren (hrule : plan.completion path = .allChildren)
    (hchild : child ∈ plan.children path) :
    ∃ before : MoveState plan, ∀ part < plan.movePaths.length, plan.Below child part →
      before.pathState part = state.pathState part ∧
        (markWhole (bound + 1) path certainty state).pathState part =
          (markWhole bound child certainty before).pathState part := by
  obtain ⟨before, hbefore⟩ := exists_foldl_markWhole hvalid bound certainty
    (state.markInit path certainty) (fun item => mem_reverse.mp)
    (nodup_reverse.mpr (hvalid.children_nodup path)) (mem_reverse.mpr hchild)
  refine ⟨before, fun part hpart hbelow => ?_⟩
  have hne : part ≠ path := fun heq => hvalid.not_below_child hchild (heq ▸ hbelow)
  obtain ⟨hstart, hend⟩ := hbefore part hpart hbelow
  rw [pathState_markInit, if_neg hne] at hstart
  rw [markWhole, hrule]
  exact ⟨hstart, hend⟩

variable {certainty} {state} {variant : Nat} {variants : List (Nat × MovePathId)}

section
variable (hrule : plan.completion path = .enumRoot variants)
include hrule

omit hvalid in
/-- The children of an enum path, sorted by whether they stay possible. -/
theorem markWhole_enum :
    markWhole (bound + 1) path certainty state =
      ((variants.filter fun entry => entry.1 ∈ state.possibleAfter path certainty).map
        (·.2)).reverse.foldl
        (fun item child => markWhole bound child
          (childCertainty certainty (state.possibleAfter path certainty)) item)
        (((variants.filter fun entry => entry.1 ∉ state.possibleAfter path certainty).map
          (·.2)).foldl clearSubtreeOnly
          (state.markEnum path certainty (plan.variantChildren path))) := by
  have hvars := CleanupPlan.PathsValid.variants_eq hrule
  subst hvars
  rw [markWhole, hrule]
  dsimp only
  rw [← markEnum, possibleVariants_markEnum]

/-- What marking leaves of the clearing of the variants that are ruled out. -/
theorem pathState_foldl_clear_of_possible (hentry : (variant, child) ∈ variants)
    (hin : variant ∈ state.possibleAfter path certainty) {part : MovePathId}
    (hpart : plan.Has part) (hbelow : plan.Below child part) :
    (((variants.filter fun entry => entry.1 ∉ state.possibleAfter path certainty).map
      (·.2)).foldl clearSubtreeOnly
      (state.markEnum path certainty (plan.variantChildren path))).pathState part =
        state.pathState part := by
  have hchild := CleanupPlan.PathsValid.mem_children_of_variants hrule hentry
  have hne : part ≠ path := fun heq => hvalid.not_below_child hchild (heq ▸ hbelow)
  rw [pathState_foldl_children hvalid (fun item hitem state hout => by
      rw [pathState_clearSubtreeOnly hvalid state hitem hpart, if_neg hout])
    (fun item => CleanupPlan.PathsValid.mem_children_of_filter hrule)
    (hvalid.not_below_of_filter hrule hentry (by simpa using hin) hpart hbelow),
    pathState_markEnum, if_neg hne]

/-- The parts of a possible variant are marked: certainly, if it is the only one. -/
theorem exists_markWhole_of_possible (hentry : (variant, child) ∈ variants)
    (hin : variant ∈ state.possibleAfter path certainty) :
    ∃ before : MoveState plan, ∀ part < plan.movePaths.length, plan.Below child part →
      before.pathState part = state.pathState part ∧
        (markWhole (bound + 1) path certainty state).pathState part = (markWhole bound child
            (childCertainty certainty (state.possibleAfter path certainty)) before).pathState
            part := by
  have hlisted : child ∈ ((variants.filter fun entry =>
      entry.1 ∈ state.possibleAfter path certainty).map (·.2)).reverse :=
    mem_reverse.mpr
      (mem_map.mpr ⟨_, mem_filter.mpr ⟨hentry, by simpa using hin⟩, rfl⟩)
  obtain ⟨before, hbefore⟩ := exists_foldl_markWhole hvalid bound _ _
    (fun item hitem => CleanupPlan.PathsValid.mem_children_of_filter hrule
      (mem_reverse.mp hitem))
    (nodup_reverse.mpr (hvalid.filter_nodup hrule)) hlisted
  refine ⟨before, fun part hpart hbelow => ?_⟩
  obtain ⟨hstart, hend⟩ := hbefore part hpart hbelow
  rw [pathState_foldl_clear_of_possible hvalid hrule hentry hin hpart hbelow] at hstart
  rw [markWhole_enum bound hrule]
  exact ⟨hstart, hend⟩

theorem pathState_markWhole_of_impossible (hentry : (variant, child) ∈ variants)
    (hout : variant ∉ state.possibleAfter path certainty) {part : MovePathId}
    (hpart : plan.Has part) (hbelow : plan.Below child part) :
    (markWhole (bound + 1) path certainty state).pathState part = clearedPath plan part := by
  have hlisted : child ∈ (variants.filter fun entry =>
      entry.1 ∉ state.possibleAfter path certainty).map (·.2) :=
    mem_map.mpr ⟨_, mem_filter.mpr ⟨hentry, by simpa using hout⟩, rfl⟩
  rw [markWhole_enum bound hrule, pathState_foldl_children hvalid (fun item hitem state hout =>
      pathState_markWhole_of_not_below hvalid hitem hpart hout _ state)
    (fun item hitem => CleanupPlan.PathsValid.mem_children_of_filter hrule
      (mem_reverse.mp hitem))
    (fun item hitem => hvalid.not_below_of_filter hrule hentry (by simpa using hout) hpart hbelow
      item (mem_reverse.mp hitem))]
  exact pathState_foldl_clear hvalid _
    (fun item => CleanupPlan.PathsValid.mem_children_of_filter hrule) (hvalid.filter_nodup hrule)
    hlisted hpart hbelow

end

end Children

theorem pathState_markWhole_self {bound : Nat} {certainty : InitializationCertainty}
    (hfits : Fits plan.children bound path) (hpath : plan.Has path) :
    (markWhole bound path certainty state).pathState path = state.markedPath path certainty := by
  have hmark (item : MovePathId) (hitem : plan.Has item)
      (certainty : InitializationCertainty) (bound : Nat) (state : MoveState plan)
      (hout : ¬ plan.Below item path) :
      (markWhole bound item certainty state).pathState path = state.pathState path :=
    pathState_markWhole_of_not_below hvalid hitem hpath hout certainty state
  have hplain (hrule : ∀ variants, plan.completion path ≠ .enumRoot variants) :
      (state.markInit path certainty).pathState path = state.markedPath path certainty := by
    rw [pathState_markInit, if_pos rfl, markedPath]
    have hnone : (state.pathState path).discriminant = none := discriminant_eq_none state hrule
    dsimp only
    rw [hnone, discriminant_eq_none state hrule, Option.map_none]
  cases bound with
  | zero => exact hfits.elim
  | succ bound =>
    cases hrule : plan.completion path with
    | explicit =>
      rw [markWhole, hrule]
      exact hplain (by simp [hrule])
    | allChildren =>
      rw [markWhole, hrule]
      dsimp only
      rw [pathState_foldl_children hvalid
        (fun item hitem state => hmark item hitem certainty bound state)
        (fun item => mem_reverse.mp)
        (fun item hitem => hvalid.not_below_child (mem_reverse.mp hitem))]
      exact hplain (by simp [hrule])
    | enumRoot variants =>
      have hout {keep : Nat × MovePathId → Bool} {item : MovePathId}
          (hitem : item ∈ (variants.filter keep).map (·.2)) : ¬ plan.Below item path :=
        hvalid.not_below_child (CleanupPlan.PathsValid.mem_children_of_filter hrule hitem)
      rw [markWhole_enum bound hrule, pathState_foldl_children hvalid
          (fun item hitem state => hmark item hitem _ bound state)
          (fun item hitem => CleanupPlan.PathsValid.mem_children_of_filter hrule
            (mem_reverse.mp hitem))
          (fun item hitem => hout (mem_reverse.mp hitem)),
        pathState_foldl_children hvalid (fun item hitem state hout => by
            rw [pathState_clearSubtreeOnly hvalid state hitem hpath, if_neg hout])
          (fun item => CleanupPlan.PathsValid.mem_children_of_filter hrule)
          (fun item => hout),
        pathState_markEnum, if_pos rfl]

end MoveState

end Salicin.Cleanup
