import Salicin.Codegen.LeafPaths

/-!
# Moves tracked through leaf keys

Starting from a flow in which a whole local is initialized, moving one of its places makes
another place unavailable when their leaf keys meet. For overlapping places they do, unless
a tuple lies between the two: leaf keys stop at a tuple, so a component of a tuple and the
tuple itself have unrelated keys.
-/

namespace Salicin.Codegen

open List PrefixPath

variable {layouts : Layouts}

/-- The longer of two overlapping places is reached from the shorter one through a tuple. -/
def TupleBetween (p q : HirPlace layouts) : Prop :=
  ∃ path, (q.projections = p.projections ++ path ∧ layouts.CrossesTuple p.ty path) ∨
    (p.projections = q.projections ++ path ∧ layouts.CrossesTuple q.ty path)

/-- Some leaf key belongs to both places. -/
def ShareLeaf (p q : HirPlace layouts) : Prop :=
  ∃ key, key ∈ placeLeafKeys p ∧ key ∈ placeLeafKeys q

variable {p q : HirPlace layouts}

theorem ShareLeaf.symm (h : ShareLeaf p q) : ShareLeaf q p := h.imp fun _ => And.symm

theorem ShareLeaf.overlaps (h : ShareLeaf p q) : Overlaps p.projections q.projections := by
  obtain ⟨key, hp, hq⟩ := h
  exact overlaps_of_isPrefix_of_isPrefix (isPrefix_of_mem_placeLeafKeys hp)
    (isPrefix_of_mem_placeLeafKeys hq)

theorem HirPlace.typeAt_of_append (hroot : p.rootTy = q.rootTy) {path : List Nat}
    (hpath : q.projections = p.projections ++ path) :
    layouts.typeAt p.ty path = some q.ty := by
  have htyped := q.typed
  rw [hpath, ← hroot, layouts.typeAt_append, p.typed] at htyped
  exact htyped

theorem shareLeaf_of_append_iff (hlocal : p.localId = q.localId) (hroot : p.rootTy = q.rootTy)
    {path : List Nat} (hpath : q.projections = p.projections ++ path) :
    ShareLeaf p q ↔ ¬ layouts.CrossesTuple p.ty path := by
  have hpart := HirPlace.typeAt_of_append hroot hpath
  constructor
  · rintro ⟨key, hp, hq⟩ hcross
    obtain ⟨_, first, hfst, hkeyp⟩ := mem_placeLeafKeys.mp hp
    obtain ⟨_, second, _, hkeyq⟩ := mem_placeLeafKeys.mp hq
    rw [hkeyp, hpath, append_assoc, append_cancel_left_eq] at hkeyq
    exact layouts.not_mem_leafPaths_of_crossesTuple hcross second (hkeyq ▸ hfst)
  · intro hcross
    obtain ⟨rest, hrest⟩ := layouts.exists_mem_leafPaths q.ty
    refine ⟨q.key.extend rest, mem_placeLeafKeys.mpr ⟨hlocal.symm, path ++ rest, ?_, ?_⟩,
      mem_placeLeafKeys.mpr ⟨rfl, rest, hrest, rfl⟩⟩
    · exact (layouts.append_mem_leafPaths hpart hcross rest).mpr hrest
    · simp [hpath]

/-- Two places of one local share a leaf key exactly when they overlap and no tuple lies
between them. -/
theorem shareLeaf_iff (hlocal : p.localId = q.localId) (hroot : p.rootTy = q.rootTy) :
    ShareLeaf p q ↔ Overlaps p.projections q.projections ∧ ¬ TupleBetween p q := by
  constructor
  · intro hshare
    refine ⟨hshare.overlaps, ?_⟩
    rintro ⟨path, ⟨hpath, hcross⟩ | ⟨hpath, hcross⟩⟩
    · exact (shareLeaf_of_append_iff hlocal hroot hpath).mp hshare hcross
    · exact (shareLeaf_of_append_iff hlocal.symm hroot.symm hpath).mp hshare.symm hcross
  · rintro ⟨⟨path, hpath⟩ | ⟨path, hpath⟩, hbetween⟩
    · exact (shareLeaf_of_append_iff hlocal hroot hpath.symm).mpr
        fun hcross => hbetween ⟨path, Or.inl ⟨hpath.symm, hcross⟩⟩
    · exact ((shareLeaf_of_append_iff hlocal.symm hroot.symm hpath.symm).mpr
        fun hcross => hbetween ⟨path, Or.inr ⟨hpath.symm, hcross⟩⟩).symm

namespace FlowState

/-- No part of the local has been recorded as moved. -/
def WholeInitialized (flow : FlowState) (localId : LocalId) : Prop :=
  ∀ alternative ∈ flow.uninitialized, ∀ key ∈ alternative, key.localId ≠ localId

variable {flow : FlowState} {q : HirPlace layouts}

theorem WholeInitialized.disjoint (hwhole : flow.WholeInitialized q.localId)
    {alternative : Finset PlaceKey} (halternative : alternative ∈ flow.uninitialized) :
    Disjoint alternative (placeLeafKeys q).toFinset := by
  rw [Finset.disjoint_left]
  intro key hkey hleaf
  exact hwhole alternative halternative key hkey
    (mem_placeLeafKeys.mp (mem_toFinset.mp hleaf)).1

/-- A move out of an initialized local adds the same leaves to every alternative. -/
theorem markMoved_eq (hflow : flow.Normalized) (hreach : flow.reachable)
    (hwhole : flow.WholeInitialized q.localId) :
    flow.markMoved q =
      { flow with
        uninitialized := flow.uninitialized.map (· ∪ (placeLeafKeys q).toFinset) } := by
  rw [markMoved, if_neg (not_not.mpr hreach)]
  refine Normalized.normalizeUninitialized_eq ⟨?_, ?_, ?_⟩ hreach
  · refine hflow.distinct.map_on fun first hfst second hsnd heq => ?_
    rw [← (hwhole.disjoint hfst).sup_sdiff_cancel_right,
      ← (hwhole.disjoint hsnd).sup_sdiff_cancel_right]
    exact congrArg (· \ (placeLeafKeys q).toFinset) heq
  · simpa using hflow.bounded
  · simpa using hflow.inhabited

/-- Reinitializing the moved place restores the flow as it was before the move. -/
theorem markInitialized_markMoved (hflow : flow.Normalized) (hreach : flow.reachable)
    (hwhole : flow.WholeInitialized q.localId) :
    ((flow.markMoved q).markInitialized q).2 = flow := by
  have hrestored : (flow.uninitialized.map (· ∪ (placeLeafKeys q).toFinset)).map
      (· \ (placeLeafKeys q).toFinset) = flow.uninitialized := by
    rw [map_map]
    refine (map_congr_left fun alternative halternative => ?_).trans (map_id _)
    exact (hwhole.disjoint halternative).sup_sdiff_cancel_right
  rw [markMoved_eq hflow hreach hwhole, markInitialized, if_neg (not_not.mpr hreach)]
  simp only [hrestored]
  exact hflow.normalizeUninitialized_eq hreach

/-- After the move a place of the same local is unavailable in every alternative or in
none, as its leaf keys meet the moved ones or not. -/
theorem placeStatus_markMoved_eq_initialized_iff (hflow : flow.Normalized) (hreach : flow.reachable)
    (hwhole : flow.WholeInitialized q.localId) (hlocal : p.localId = q.localId) :
    (flow.markMoved q).placeStatus p = .initialized ↔ ¬ ShareLeaf p q := by
  have hmeets (alternative : Finset PlaceKey) (halternative : alternative ∈ flow.uninitialized) :
      ((placeLeafKeys p).any (· ∈ alternative ∪ (placeLeafKeys q).toFinset)) = true ↔
        ShareLeaf p q := by
    simp only [any_eq_true, decide_eq_true_eq, Finset.mem_union, mem_toFinset]
    constructor
    · rintro ⟨key, hp, hkey | hq⟩
      · exact absurd ((mem_placeLeafKeys.mp hp).1.trans hlocal)
          (hwhole alternative halternative key hkey)
      · exact ⟨key, hp, hq⟩
    · rintro ⟨key, hp, hq⟩
      exact ⟨key, hp, Or.inr hq⟩
  have hempty : (flow.markMoved q).unavailable (placeLeafKeys p) = [] ↔ ¬ ShareLeaf p q := by
    rw [markMoved_eq hflow hreach hwhole, unavailable, filter_eq_nil_iff]
    constructor
    · intro hall hshare
      obtain ⟨alternative, halternative⟩ := exists_mem_of_ne_nil _ (hflow.inhabited hreach)
      exact hall _ (mem_map_of_mem halternative) ((hmeets _ halternative).mpr hshare)
    · intro hshare _ hmem
      obtain ⟨alternative, halternative, rfl⟩ := mem_map.mp hmem
      exact fun hany => hshare ((hmeets alternative halternative).mp hany)
  rw [← hempty, ← length_eq_zero_iff, placeStatus, initializationStatus,
    if_neg (by simpa [markMoved_eq hflow hreach hwhole] using hreach)]
  by_cases hzero : ((flow.markMoved q).unavailable (placeLeafKeys p)).length = 0
  · simp [hzero]
  · simp only [hzero, if_false, iff_false]
    split <;> simp

/-- The move of `q` is tracked exactly for `p`: the status of `p` is that of a place that
does not overlap `q`, and reinitializing `q` restores every status. -/
structure MoveTracked (flow : FlowState) (p q : HirPlace layouts) : Prop where
  status : (flow.markMoved q).placeStatus p = .initialized ↔ ¬ Overlaps p.projections q.projections
  restored : ∀ place : HirPlace layouts,
    ((flow.markMoved q).markInitialized q).2.placeStatus place = flow.placeStatus place

/-- Dead code records no move: every place passes for initialized there. -/
theorem moveTracked_of_unreachable (hreach : flow.reachable = false) :
    flow.MoveTracked p q ↔ ¬ Overlaps p.projections q.projections := by
  have hmoved : flow.markMoved q = flow := if_pos (by simp [hreach])
  have hstatus (place : HirPlace layouts) : flow.placeStatus place = .initialized :=
    if_pos (by simp [hreach])
  have hrestored : (flow.markInitialized q).2 = flow := by
    simp [markInitialized, hreach]
  constructor
  · intro htracked
    exact htracked.status.mp (hmoved.symm ▸ hstatus p)
  · intro hover
    refine ⟨iff_of_true (hmoved.symm ▸ hstatus p) hover, fun place => ?_⟩
    rw [hmoved, hrestored]

/-- Moves out of an initialized local are tracked exactly for the pairs of places that do
not overlap or, in reachable code, have no tuple between them. -/
theorem moveTracked_iff {layouts : Layouts} (flow : FlowState) (hflow : flow.Normalized)
    (p q : HirPlace layouts) (hlocal : p.localId = q.localId) (hroot : p.rootTy = q.rootTy)
    (hwhole : flow.WholeInitialized q.localId) :
    flow.MoveTracked p q ↔
      (¬ Overlaps p.projections q.projections ∨ flow.reachable ∧ ¬ TupleBetween p q) := by
  by_cases hreach : flow.reachable
  · have hstatus := placeStatus_markMoved_eq_initialized_iff hflow hreach hwhole hlocal
    rw [shareLeaf_iff hlocal hroot] at hstatus
    constructor
    · intro htracked
      by_contra hcon
      simp only [not_or, not_and, not_not] at hcon
      exact htracked.status.mp (hstatus.mpr fun h => h.2 (hcon.2 hreach)) hcon.1
    · intro hcond
      refine ⟨hstatus.trans ⟨?_, fun hover h => hover h.1⟩, fun place => ?_⟩
      · intro hshare hover
        exact hcond.elim (· hover) fun hbetween => hshare ⟨hover, hbetween.2⟩
      · rw [markInitialized_markMoved hflow hreach hwhole]
  · rw [moveTracked_of_unreachable (by simpa using hreach)]
    simp [hreach]

/-- The pair of a local and its first component, and the move of that component. -/
theorem moveTracked_iff_pair :
    let fields := [Ty.enum "left", Ty.enum "right"]
    let layouts := Layouts.structural fun _ => false
    let pair : HirPlace layouts := ⟨0, .tuple fields, [], .tuple fields, rfl⟩
    let left : HirPlace layouts := ⟨0, .tuple fields, [0], .enum "left", rfl⟩
    let right : HirPlace layouts := ⟨0, .tuple fields, [1], .enum "right", rfl⟩
    start.MoveTracked right left ∧ ¬ start.MoveTracked pair left := by
  intro fields layouts pair left right
  have hwhole : start.WholeInitialized 0 := by simp [WholeInitialized, start]
  constructor
  · refine (moveTracked_iff start start_normalized right left rfl rfl hwhole).mpr (.inl ?_)
    decide
  · rw [moveTracked_iff start start_normalized pair left rfl rfl hwhole]
    rintro (hover | hbetween)
    · exact hover (overlaps_nil _)
    · exact hbetween.2 ⟨[0], .inl ⟨rfl, .inl ⟨fields, rfl⟩⟩⟩

/-- Moving a component of a tuple leaves the tuple itself available. -/
theorem not_moveTracked_tuple :
    ¬ ∀ (layouts : Layouts) (p q : HirPlace layouts), p.localId = q.localId →
      p.rootTy = q.rootTy → start.MoveTracked p q := by
  intro hall
  let fields := [Ty.enum "left", Ty.enum "right"]
  let layouts := Layouts.structural fun _ => false
  let pair : HirPlace layouts := ⟨0, .tuple fields, [], .tuple fields, rfl⟩
  let left : HirPlace layouts := ⟨0, .tuple fields, [0], .enum "left", rfl⟩
  have hstatus : (start.markMoved left).placeStatus pair = .initialized := by
    rw [placeStatus, markMoved, placeLeafKeys, placeLeafKeys, appendLeafKeys, appendLeafKeys]
    · decide
    all_goals simp [left, pair]
  exact (hall layouts pair left rfl rfl).status.mp hstatus (overlaps_nil _)

end FlowState

end Salicin.Codegen
