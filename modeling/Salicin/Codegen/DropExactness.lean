import Salicin.Codegen.PlaceExecution

/-!
# Exact drops along tracked runs

The invariant of a local's execution relates its recorded keys, its live leaves and its
flags. Each tracked step keeps it, and it makes the drops of an overwrite and of the scope's
end exact.
-/

namespace Salicin.Codegen

open Finset Option List PrefixPath DropSlot Layouts

variable {layouts : Layouts}

/-! ## Flows with one alternative -/

variable {place : HirPlace layouts}

namespace FlowState

/-- Straight-line code keeps a single alternative. -/
def single (moved : Finset PlaceKey) : FlowState := { reachable := true, uninitialized := [moved] }

variable (moved : Finset PlaceKey)

theorem normalizeUninitialized_single :
    (single moved).normalizeUninitialized = single moved :=
  Normalized.normalizeUninitialized_eq
    ⟨nodup_singleton _, by simp [single, maxInitializationAlternatives], by simp [single]⟩ rfl

theorem markMoved_single (place : HirPlace layouts) :
    (single moved).markMoved place = single (moved ∪ (placeLeafKeys place).toFinset) :=
  normalizeUninitialized_single _

theorem markInitialized_single (place : HirPlace layouts) :
    (single moved).markInitialized place = ((single moved).assignmentKind (placeLeafKeys place),
      single (moved \ (placeLeafKeys place).toFinset)) :=
  congrArg (Prod.mk _) (normalizeUninitialized_single _)

/-- The kind that an assignment to the place is lowered with. -/
def assignmentOf (flow : FlowState) (place : HirPlace layouts) : AssignmentKind :=
  (flow.markInitialized place).1

theorem placeStatus_single {moved : Finset PlaceKey}
    (hstatus : (single moved).placeStatus place = .initialized) :
    ∀ key ∈ placeLeafKeys place, key ∉ moved := by
  intro key hkey hmoved
  have hany : (placeLeafKeys place).any (· ∈ moved) = true :=
    any_eq_true.mpr ⟨key, hkey, by simpa using hmoved⟩
  simp [placeStatus, initializationStatus, single, unavailable, hany] at hstatus

theorem assignmentKind_single (leaves : List PlaceKey) :
    (single moved).assignmentKind leaves = if (leaves.filter (· ∈ moved)).length = 0 then .overwrite
      else if (leaves.filter (· ∈ moved)).length = leaves.length then .initializing
      else .maybeOverwrite := by
  by_cases hnone : (leaves.filter (· ∈ moved)).length = 0
  · simp [assignmentKind, single, hnone]
  · by_cases hall : (leaves.filter (· ∈ moved)).length = leaves.length <;>
      simp only [assignmentKind, single, List.map_cons, map_nil, any_cons, any_nil,
        hnone, hall, ne_eq, not_true, not_false_eq_true, and_true, and_false, decide_true,
        decide_false, Bool.or_false, if_true, if_false]
    simp [hall ▸ hnone]

theorem mem_of_assignmentKind_single {moved : Finset PlaceKey} {leaves : List PlaceKey}
    (hkind : (single moved).assignmentKind leaves = .initializing) :
    ∀ key ∈ leaves, key ∈ moved := by
  rw [assignmentKind_single] at hkind
  split_ifs at hkind with hnone hall
  simpa using length_filter_eq_length_iff.mp hall

theorem notMem_of_assignmentKind_single {moved : Finset PlaceKey} {leaves : List PlaceKey}
    (hkind : (single moved).assignmentKind leaves = .overwrite) :
    ∀ key ∈ leaves, key ∉ moved := by
  rw [assignmentKind_single] at hkind
  split_ifs at hkind with hnone hall
  simpa [filter_eq_nil_iff] using hnone

end FlowState

/-! ## Flag updates -/

variable {projs : List Nat}

namespace LocalState

variable {ty : Ty} {flags flags' : DropFlags} {live : Finset (List Nat)}

theorem updatePlaceDropFlags_slot {part : Ty} {rest : List Nat} (hneeds : layouts.needsDrop ty)
    (hslot : SlotPart layouts ty rest part) (initialized rootInitialized : Bool) :
    updatePlaceDropFlags layouts ty flags projs initialized rootInitialized rest =
      (flagUpdate rest projs initialized rootInitialized).getD (flags rest) := by
  rw [updatePlaceDropFlags, if_pos hneeds]
  exact storeFlags_collect hslot [] initialized rootInitialized flags

end LocalState

variable {leaf : List Nat}

namespace FlagsExact

variable {ty : Ty} {flags flags' : DropFlags} {live : Finset (List Nat)}

theorem mem_whole {part : Ty} {rest : List Nat} (hslot : SlotPart layouts ty rest part)
    (hleaf : leaf ∈ dropGlue layouts part rest) : leaf ∈ dropGlue layouts ty [] :=
  ((hslot.mem_dropGlue_iff []).mpr hleaf).1

/-- It is enough to look at locals that need drop; the others have no leaf at all. -/
theorem intro_of_needsDrop
    (hcomplete : layouts.needsDrop ty → ∀ rest part, SlotPart layouts ty rest part →
      flags rest = true → ∀ leaf ∈ dropGlue layouts part rest, leaf ∈ live)
    (hleaf : layouts.needsDrop ty → ∀ rest part, SlotPart layouts ty rest part →
      rest ∈ dropGlue layouts part rest → rest ∈ live → flags rest = true) :
    FlagsExact layouts live flags ty [] where
  complete rest part hslot hset leaf hmem :=
    hcomplete (needsDrop_of_mem_dropGlue (mem_whole hslot hmem)) rest part hslot hset leaf hmem
  leaf rest part hslot hmem hlive :=
    hleaf (needsDrop_of_mem_dropGlue (mem_whole hslot hmem)) rest part hslot hmem hlive

/-- Moving a place out keeps the flags exact for the remaining leaves. -/
theorem moved (hexact : FlagsExact layouts live flags ty []) (hroot : place.rootTy = ty)
    (hcross : crossesCustomDrop layouts ty place.projections = false) :
    FlagsExact layouts (live.filter fun leaf => ¬ place.projections <+: leaf)
      (LocalState.updatePlaceDropFlags layouts ty flags place.projections false false) ty [] := by
  refine intro_of_needsDrop ?_ ?_
  · intro hneeds rest part hslot hset leaf hleaf
    rw [LocalState.updatePlaceDropFlags_slot hneeds hslot] at hset
    by_cases hover : Overlaps rest place.projections
    · have hupdate : flagUpdate rest place.projections false false = some false := by
        rcases hover with h | h <;> simp [flagUpdate, h]
      simp [hupdate] at hset
    · have hupdate : flagUpdate rest place.projections false false = none := by
        simp only [Overlaps, not_or] at hover
        simp [flagUpdate, hover.1, hover.2]
      rw [hupdate] at hset
      refine Finset.mem_filter.mpr ⟨hexact.complete rest part hslot hset leaf hleaf, ?_⟩
      exact fun hbelow => hover
        (overlaps_of_isPrefix_of_isPrefix (isPrefix_of_mem_dropGlue hleaf) hbelow)
  · intro hneeds rest part hslot hleaf hlive
    obtain ⟨hlive, hbelow⟩ := Finset.mem_filter.mp hlive
    have habove : ¬ rest <+: place.projections := by
      intro habove
      have heq := eq_of_mem_dropGlue_of_isPrefix [] (hroot ▸ place.typed) hcross
        (mem_whole hslot hleaf) habove
      exact hbelow (heq ▸ prefix_refl _)
    have hupdate : flagUpdate rest place.projections false false = none := by
      simp [flagUpdate, habove, hbelow]
    rw [LocalState.updatePlaceDropFlags_slot hneeds hslot, hupdate]
    exact hexact.leaf rest part hslot hleaf hlive

/-- Assigning a place makes its leaves live and sets the flags of its own slots. -/
theorem assigned (hexact : FlagsExact layouts live flags ty [])
    (houtside : ∀ slot, ¬ projs <+: slot → flags' slot = flags slot) :
    FlagsExact layouts
      (live ∪ (dropGlue layouts ty []).toFinset.filter fun leaf => projs <+: leaf)
      (LocalState.updatePlaceDropFlags layouts ty flags' projs true false) ty [] := by
  refine intro_of_needsDrop ?_ ?_
  · intro hneeds rest part hslot hset leaf hleaf
    rw [Finset.mem_union, Finset.mem_filter, List.mem_toFinset]
    by_cases hbelow : projs <+: rest
    · exact .inr ⟨mem_whole hslot hleaf, hbelow.trans (isPrefix_of_mem_dropGlue hleaf)⟩
    · rw [LocalState.updatePlaceDropFlags_slot hneeds hslot] at hset
      simp only [flagUpdate, isPrefixOf_iff_prefix, hbelow, if_false, if_true,
        Bool.false_eq_true, getD_none, houtside rest hbelow] at hset
      exact .inl (hexact.complete rest part hslot hset leaf hleaf)
  · intro hneeds rest part hslot hleaf hlive
    rw [LocalState.updatePlaceDropFlags_slot hneeds hslot]
    by_cases hbelow : projs <+: rest
    · simp [flagUpdate, hbelow]
    · simp only [Finset.mem_union, Finset.mem_filter, hbelow, and_false, or_false] at hlive
      simp only [flagUpdate, isPrefixOf_iff_prefix, hbelow, if_false, if_true,
        Bool.false_eq_true, getD_none, houtside rest hbelow]
      exact hexact.leaf rest part hslot hleaf hlive

/-- Setting every flag is exact once the whole local holds a value. -/
theorem whole (hall : ∀ leaf ∈ dropGlue layouts ty [], leaf ∈ live) :
    FlagsExact layouts live
      (LocalState.updatePlaceDropFlags layouts ty flags projs true true) ty [] := by
  refine intro_of_needsDrop ?_ ?_
  · exact fun _ rest part hslot _ leaf hleaf => hall leaf (mem_whole hslot hleaf)
  · intro hneeds rest part hslot _ _
    rw [LocalState.updatePlaceDropFlags_slot hneeds hslot]
    simp [flagUpdate]

end FlagsExact

/-! ## The invariant of a local -/

/-- Every drop leaf below a place meets one of the leaf keys of the place. -/
theorem exists_leafKey_overlaps (hleaf : leaf ∈ dropGlue layouts place.rootTy [])
    (hbelow : place.projections <+: leaf) :
    ∃ key ∈ placeLeafKeys place, Overlaps key.projections leaf := by
  have hpart : leaf ∈ dropGlue layouts place.ty place.projections :=
    mem_dropGlue_of_isPrefix place.typed hleaf hbelow
  obtain ⟨rest, rfl⟩ := hbelow
  obtain ⟨path, hpath, hover⟩ := exists_leafPath_overlaps hpart
  refine ⟨place.key.extend path, mem_placeLeafKeys.mpr ⟨rfl, path, hpath, rfl⟩, ?_⟩
  exact hover.imp (prefix_append_right_inj _).mpr (prefix_append_right_inj _).mpr

/-- A drop leaf that meets a leaf key of a place lies below the place, unless the place is
inside a value with a user destructor. -/
theorem isPrefix_of_overlaps_leafKey {key : PlaceKey}
    (hcross : crossesCustomDrop layouts place.rootTy place.projections = false)
    (hleaf : leaf ∈ dropGlue layouts place.rootTy []) (hkey : key ∈ placeLeafKeys place)
    (hover : Overlaps key.projections leaf) : place.projections <+: leaf := by
  rcases hover.of_isPrefix (isPrefix_of_mem_placeLeafKeys hkey) with hbelow | habove
  · exact hbelow
  · have heq := eq_of_mem_dropGlue_of_isPrefix [] place.typed hcross hleaf habove
    exact heq ▸ prefix_refl _

theorem needsDrop_of_leaf_below (hleaf : leaf ∈ dropGlue layouts place.rootTy [])
    (hbelow : place.projections <+: leaf) :
    layouts.needsDrop place.ty :=
  needsDrop_of_mem_dropGlue (mem_dropGlue_of_isPrefix place.typed hleaf hbelow)

/-- The recorded keys, the live leaves and the flags describe the same local. -/
structure LocalState.Consistent (layouts : Layouts) (ty : Ty) (moved : Finset PlaceKey)
    (state : LocalState) : Prop where
  flow : state.flow = FlowState.single moved
  owned : ∀ leaf ∈ state.live, leaf ∈ dropGlue layouts ty []
  live : ∀ leaf ∈ dropGlue layouts ty [],
    (leaf ∈ state.live ↔ ∀ key ∈ moved, ¬ Overlaps key.projections leaf)
  flags : FlagsExact layouts state.live state.flags ty []

namespace LocalState

variable {ty : Ty} {moved : Finset PlaceKey} {state next : LocalState}
  {place : HirPlace layouts} {dropped : List (List Nat)}

theorem start_consistent (layouts : Layouts) (ty : Ty) :
    Consistent layouts ty ∅ (start layouts ty) where
  flow := rfl
  owned _ hleaf := mem_toFinset.mp hleaf
  live _ hleaf := by simp [start, hleaf]
  flags :=
    { complete := fun _ _ hslot _ _ hleaf =>
        mem_toFinset.mpr (FlagsExact.mem_whole hslot hleaf)
      leaf := fun _ _ _ _ _ => rfl }

theorem Consistent.endExact (hstate : Consistent layouts ty moved state) :
    state.EndExact layouts ty := by
  unfold EndExact scopeEnd
  split
  · obtain ⟨hnodup, hmem⟩ := conditionalDrop_exact hstate.flags
    exact ⟨hnodup, fun leaf => (hmem leaf).trans (and_iff_right_of_imp (hstate.owned leaf))⟩
  next hneeds =>
    refine ⟨nodup_nil, fun leaf => ?_⟩
    simp only [not_mem_nil, false_iff]
    exact fun hlive => hneeds (needsDrop_of_mem_dropGlue (hstate.owned leaf hlive))

theorem move_eq_some (hmove : move layouts ty state place = some next) :
    (state.flow.placeStatus place = .initialized ∧
        crossesCustomDrop layouts ty place.projections = false) ∧
      next = { flow := state.flow.markMoved place
               flags := updatePlaceDropFlags layouts ty state.flags place.projections false false
               live := state.live.filter fun leaf => ¬ place.projections <+: leaf } := by
  unfold move at hmove
  split at hmove
  next hacc => exact ⟨hacc, (Option.some.inj hmove).symm⟩
  · contradiction

theorem Consistent.move_exact (hstate : Consistent layouts ty moved state)
    (htracked : ∀ key ∈ moved, ¬ Overlaps key.projections place.projections)
    (leaf : List Nat) (hleaf : leaf ∈ dropGlue layouts ty [])
    (hbelow : place.projections <+: leaf) : leaf ∈ state.live :=
  (hstate.live leaf hleaf).mpr fun key hkey hover =>
    htracked key hkey (hover.symm.of_isPrefix hbelow).symm

theorem Consistent.move (hstate : Consistent layouts ty moved state) (hroot : place.rootTy = ty)
    (hmove : move layouts ty state place = some next) :
    Consistent layouts ty (moved ∪ (placeLeafKeys place).toFinset) next := by
  obtain ⟨⟨_, hcross⟩, rfl⟩ := move_eq_some hmove
  constructor
  · rw [hstate.flow, FlowState.markMoved_single]
  · exact fun leaf hleaf => hstate.owned leaf (Finset.mem_filter.mp hleaf).1
  · intro leaf hleaf
    rw [Finset.mem_filter, hstate.live leaf hleaf]
    subst hroot
    constructor
    · rintro ⟨hlive, hbelow⟩ key hkey
      rcases Finset.mem_union.mp hkey with hkey | hkey
      · exact hlive key hkey
      · exact fun hover =>
          hbelow (isPrefix_of_overlaps_leafKey hcross hleaf (mem_toFinset.mp hkey) hover)
    · intro hnone
      refine ⟨fun key hkey => hnone key (mem_union_left _ hkey), fun hbelow => ?_⟩
      obtain ⟨key, hkey, hover⟩ := exists_leafKey_overlaps hleaf hbelow
      exact hnone key (mem_union_right _ (mem_toFinset.mpr hkey)) hover
  · exact hstate.flags.moved hroot hcross

/-- The condition on the recorded keys under which an assignment is exact. -/
def AssignTracked (moved : Finset PlaceKey) (place : HirPlace layouts) : Prop :=
  ∀ key ∈ moved, if Overlaps key.projections place.projections then key ∈ placeLeafKeys place
    else key ∈ placeLeafKeys place.root

theorem Consistent.assigned_live (hstate : Consistent layouts ty moved state)
    (hroot : place.rootTy = ty) (htracked : AssignTracked moved place)
    (hacc : crossesCustomDrop layouts ty place.projections = false ∨
      ∀ key ∈ placeLeafKeys place, key ∉ moved)
    (leaf : List Nat) (hleaf : leaf ∈ dropGlue layouts ty []) :
    (leaf ∈ state.live ∨ place.projections <+: leaf) ↔
      ∀ key ∈ moved \ (placeLeafKeys place).toFinset, ¬ Overlaps key.projections leaf := by
  subst hroot
  rw [hstate.live leaf hleaf]
  simp only [mem_sdiff, List.mem_toFinset]
  constructor
  · rintro (hlive | hbelow) key ⟨hkey, hnew⟩ hover
    · exact hlive key hkey hover
    · have := htracked key hkey
      rw [if_pos (hover.symm.of_isPrefix hbelow).symm] at this
      exact hnew this
  · intro hnone
    by_contra hcon
    simp only [not_or, not_forall, not_not] at hcon
    obtain ⟨⟨key, hkey, hover⟩, hbelow⟩ := hcon
    by_cases hleafKey : key ∈ placeLeafKeys place
    · rcases hacc with hcross | hfresh
      · exact hbelow (isPrefix_of_overlaps_leafKey hcross hleaf hleafKey hover)
      · exact hfresh key hleafKey hkey
    · exact hnone key ⟨hkey, hleafKey⟩ hover

/-- A tracked assignment that finds the whole local initialized leaves no key recorded. -/
theorem sdiff_eq_empty_of_rootInitialized (htracked : AssignTracked moved place)
    (hstatus : (FlowState.single (moved \ (placeLeafKeys place).toFinset)).placeStatus place.root =
      .initialized) : moved \ (placeLeafKeys place).toFinset = ∅ := by
  rw [eq_empty_iff_forall_notMem]
  intro key hkey
  obtain ⟨hmoved, hnew⟩ := mem_sdiff.mp hkey
  have := htracked key hmoved
  split at this
  · exact hnew (mem_toFinset.mpr this)
  · exact FlowState.placeStatus_single hstatus key this hkey

/-- The drop before the store ends exactly the live leaves of the place, and touches no
flag of another place. -/
theorem Consistent.overwriteDrop_exact (hstate : Consistent layouts ty moved state)
    (hroot : place.rootTy = ty) {flags : DropFlags}
    (hdrop : overwriteDrop layouts ty place
      ((FlowState.single moved).assignmentKind (placeLeafKeys place)) state.flags =
        some (dropped, flags)) :
    DropsExactly dropped (fun leaf => place.projections <+: leaf ∧ leaf ∈ state.live) ∧
      ∀ slot, ¬ place.projections <+: slot → flags slot = state.flags slot := by
  subst hroot
  unfold overwriteDrop at hdrop
  split at hdrop
  next hneeds =>
    obtain ⟨slot, hslot, hres⟩ := map_eq_some_iff.mp hdrop
    obtain ⟨rest, part, hpart, hpath, rfl⟩ := findDropSlot_buildDropSlot hslot
    rw [nil_append] at hpath hres
    subst hpath
    have hexact := conditionalDrop_exact (hstate.flags.slot hpart)
    have hlocal := @conditionalDrop_local layouts part place.projections
    rw [nil_append, hres] at hexact
    refine ⟨⟨hexact.1, fun leaf => ?_⟩, fun slot hslot => ?_⟩
    · have hglue : leaf ∈ dropGlue layouts place.rootTy [] ∧ place.projections <+: leaf ↔
          leaf ∈ dropGlue layouts part place.projections := hpart.mem_dropGlue_iff []
      refine (hexact.2 leaf).trans ((and_congr_left' hglue.symm).trans ?_)
      constructor
      · rintro ⟨⟨_, hbelow⟩, hlive⟩
        exact ⟨hbelow, hlive⟩
      · rintro ⟨hbelow, hlive⟩
        exact ⟨⟨hstate.owned leaf hlive, hbelow⟩, hlive⟩
    · have houtside := hlocal.outside state.flags slot hslot
      rwa [hres] at houtside
  next hskip =>
    simp only [Option.some.injEq, Prod.mk.injEq] at hdrop
    obtain ⟨rfl, rfl⟩ := hdrop
    refine ⟨⟨nodup_nil, fun leaf => ?_⟩, fun _ _ => rfl⟩
    simp only [not_mem_nil, false_iff, not_and]
    intro hbelow hlive
    have hleaf := hstate.owned leaf hlive
    have hkind : (FlowState.single moved).assignmentKind (placeLeafKeys place) = .initializing := by
      by_contra hkind
      exact hskip ⟨needsDrop_of_leaf_below hleaf hbelow, hkind⟩
    obtain ⟨key, hkey, hover⟩ := exists_leafKey_overlaps hleaf hbelow
    exact (hstate.live leaf hleaf).mp hlive key
      (FlowState.mem_of_assignmentKind_single hkind key hkey) hover

/-- What an assignment that is accepted does. A unit place has no store. -/
theorem assign_eq_some (hassign : assign layouts ty state place = some (dropped, next)) :
    (state.flow.assignmentOf place = .overwrite ∨
        crossesCustomDrop layouts ty place.projections = false) ∧
      next.flow = (state.flow.markInitialized place).2 ∧
      next.live = state.live ∪
        (dropGlue layouts ty []).toFinset.filter (fun leaf => place.projections <+: leaf) ∧
      (place.ty = .unit ∧ dropped = [] ∧ next.flags = state.flags ∨
        ∃ flags, overwriteDrop layouts ty place (state.flow.assignmentOf place) state.flags =
            some (dropped, flags) ∧
          next.flags = updatePlaceDropFlags layouts ty flags place.projections true
            (next.flow.placeStatus place.root = .initialized)) := by
  unfold assign at hassign
  dsimp only at hassign
  split at hassign
  · contradiction
  next hacc =>
    have hkind : state.flow.assignmentOf place = .overwrite ∨
        crossesCustomDrop layouts ty place.projections = false := by
      by_contra hcon
      rw [not_or, Bool.not_eq_false] at hcon
      exact hacc hcon
    refine ⟨hkind, ?_⟩
    split at hassign
    next hunit =>
      cases hassign
      exact ⟨rfl, rfl, .inl ⟨hunit, rfl, rfl⟩⟩
    · obtain ⟨⟨dropped, flags⟩, hdrop, hres⟩ := map_eq_some_iff.mp hassign
      cases hres
      exact ⟨rfl, rfl, .inr ⟨flags, hdrop, rfl⟩⟩

theorem Consistent.assign (hstate : Consistent layouts ty moved state)
    (hroot : place.rootTy = ty) (htracked : AssignTracked moved place)
    (hassign : assign layouts ty state place = some (dropped, next)) :
    DropsExactly dropped (fun leaf => place.projections <+: leaf ∧ leaf ∈ state.live) ∧
      Consistent layouts ty (moved \ (placeLeafKeys place).toFinset) next := by
  obtain ⟨hacc, hflow, hlive, hflags⟩ := assign_eq_some hassign
  rw [FlowState.assignmentOf, hstate.flow, FlowState.markInitialized_single] at hacc hflags
  rw [hstate.flow, FlowState.markInitialized_single] at hflow
  have hfresh := hacc.symm.imp_right FlowState.notMem_of_assignmentKind_single
  have hmem (leaf : List Nat) (hleaf : leaf ∈ dropGlue layouts ty []) :
      leaf ∈ next.live ↔ leaf ∈ state.live ∨ place.projections <+: leaf := by
    simp [hlive, hleaf]
  have hnext (leaf : List Nat) (hleaf : leaf ∈ dropGlue layouts ty []) :=
    (hmem leaf hleaf).trans (hstate.assigned_live hroot htracked hfresh leaf hleaf)
  have howned : ∀ leaf ∈ next.live, leaf ∈ dropGlue layouts ty [] := by
    intro leaf hleaf
    rw [hlive] at hleaf
    rcases Finset.mem_union.mp hleaf with hleaf | hleaf
    · exact hstate.owned leaf hleaf
    · exact mem_toFinset.mp (Finset.mem_filter.mp hleaf).1
  suffices hgoal : DropsExactly dropped
      (fun leaf => place.projections <+: leaf ∧ leaf ∈ state.live) ∧
        FlagsExact layouts next.live next.flags ty [] from
    ⟨hgoal.1, hflow, howned, hnext, hgoal.2⟩
  rcases hflags with ⟨hunit, rfl, hflags⟩ | ⟨flags, hdrop, hflags⟩
  · have hnone : ∀ leaf ∈ dropGlue layouts ty [], ¬ place.projections <+: leaf := by
      intro leaf hleaf hbelow
      have hneeds := needsDrop_of_leaf_below (hroot ▸ hleaf) hbelow
      simp [hunit, needsDrop] at hneeds
    refine ⟨⟨nodup_nil, fun leaf => ?_⟩, ?_⟩
    · simp only [not_mem_nil, false_iff, not_and]
      exact fun hbelow hleaf => hnone leaf (hstate.owned leaf hleaf) hbelow
    · have hsame : next.live = state.live := by
        ext leaf
        by_cases hleaf : leaf ∈ dropGlue layouts ty []
        · rw [hmem leaf hleaf, or_iff_left (hnone leaf hleaf)]
        · exact iff_of_false (mt (howned leaf) hleaf) (mt (hstate.owned leaf) hleaf)
      rw [hsame, hflags]
      exact hstate.flags
  · obtain ⟨hexact, houtside⟩ := hstate.overwriteDrop_exact hroot hdrop
    refine ⟨hexact, ?_⟩
    rw [hflags]
    by_cases hwhole : next.flow.placeStatus place.root = .initialized
    · rw [decide_eq_true hwhole]
      rw [hflow] at hwhole
      have hempty := sdiff_eq_empty_of_rootInitialized htracked hwhole
      exact FlagsExact.whole fun leaf hleaf => (hnext leaf hleaf).mpr (by simp [hempty])
    · rw [decide_eq_false hwhole, hlive]
      exact hstate.flags.assigned houtside

end LocalState

/-! ## Runs -/

namespace LocalRun

variable {localId : LocalId} {ty : Ty} {state : LocalState}

theorem AssignTracked.of_tracked {moved : Finset PlaceKey}
    (hflow : state.flow = FlowState.single moved)
    (htracked : (PlaceStep.assign place).Tracked state) :
    LocalState.AssignTracked moved place :=
  htracked moved (by simp [hflow, FlowState.single])

theorem step_consistent {moved : Finset PlaceKey} {next : LocalState} {dropped : List (List Nat)}
    {step : PlaceStep layouts} (hstate : state.Consistent layouts ty moved)
    (hplace : step.place.Of localId ty) (htracked : step.Tracked state)
    (hstep : state.execute layouts ty step = some (dropped, next)) :
    step.Exact ty state dropped ∧ ∃ moved, next.Consistent layouts ty moved := by
  cases step with
  | move place =>
    obtain ⟨moved', hmove, hres⟩ := map_eq_some_iff.mp hstep
    cases hres
    have hkeys := htracked moved (by simp [hstate.flow, FlowState.single])
    exact ⟨⟨rfl, hstate.move_exact hkeys⟩, _, hstate.move hplace.2 hmove⟩
  | assign place =>
    have hkeys := AssignTracked.of_tracked hstate.flow htracked
    obtain ⟨hexact, hnext⟩ := hstate.assign hplace.2 hkeys hstep
    exact ⟨hexact, _, hnext⟩

theorem consistent (hrun : LocalRun layouts localId ty PlaceStep.Tracked state) :
    ∃ moved, state.Consistent layouts ty moved := by
  induction hrun with
  | start => exact ⟨∅, LocalState.start_consistent layouts ty⟩
  | step step hrun hplace htracked hstep ih =>
    obtain ⟨moved, hstate⟩ := ih
    exact (step_consistent hstate hplace htracked hstep).2

end LocalRun

/-- Along every run of tracked steps each overwrite drops the live leaves of its place once,
and the end of the scope drops what is still live once. -/
theorem dropsExactly_of_tracked {layouts : Layouts} {localId : LocalId} {ty : Ty}
    {state : LocalState} (hrun : LocalRun layouts localId ty PlaceStep.Tracked state) :
    state.EndExact layouts ty ∧
      ∀ (step : PlaceStep layouts) (dropped : List (List Nat)) (next : LocalState),
        step.place.Of localId ty → step.Tracked state →
          state.execute layouts ty step = some (dropped, next) → step.Exact ty state dropped := by
  obtain ⟨moved, hstate⟩ := hrun.consistent
  exact ⟨hstate.endExact, fun step dropped next hplace htracked hstep =>
    (LocalRun.step_consistent hstate hplace htracked hstep).1⟩

/-- The step selects no component of a tuple. -/
def PlaceStep.OutsideTuples {layouts : Layouts} (ty : Ty) (step : PlaceStep layouts) : Prop :=
  ¬ layouts.CrossesTuple ty step.place.projections

namespace LocalRun

variable {localId : LocalId} {ty : Ty} {state : LocalState}

/-- Every recorded key is a leaf key of the whole local. -/
def KeysOfRoot (layouts : Layouts) (localId : LocalId) (ty : Ty) (state : LocalState) : Prop :=
  ∃ moved, state.flow = FlowState.single moved ∧
    ∀ key ∈ moved, key.localId = localId ∧ key.projections ∈ layouts.leafPaths ty

theorem mem_placeLeafKeys_root (hplace : place.Of localId ty) (key : PlaceKey) :
    key ∈ placeLeafKeys place.root ↔
      key.localId = localId ∧ key.projections ∈ layouts.leafPaths ty := by
  obtain ⟨rfl, rfl⟩ := hplace
  rw [mem_placeLeafKeys]
  exact and_congr_right fun _ => ⟨fun ⟨_, hpath, heq⟩ => heq ▸ hpath, fun hpath => ⟨_, hpath, rfl⟩⟩

/-- A step outside tuples is tracked by keys of the root, and keeps them so. -/
theorem step_keysOfRoot {next : LocalState} {dropped : List (List Nat)} {step : PlaceStep layouts}
    (hkeys : KeysOfRoot layouts localId ty state) (hplace : step.place.Of localId ty)
    (houtside : step.OutsideTuples ty)
    (hstep : state.execute layouts ty step = some (dropped, next)) :
    step.Tracked state ∧ KeysOfRoot layouts localId ty next := by
  obtain ⟨moved, hflow, hkeys⟩ := hkeys
  have hroot (key : PlaceKey) (hkey : key ∈ moved) : key ∈ placeLeafKeys step.place.root :=
    (mem_placeLeafKeys_root hplace key).mpr (hkeys key hkey)
  have hcross : ¬ layouts.CrossesTuple step.place.rootTy step.place.projections :=
    hplace.2 ▸ houtside
  have hbelow (key : PlaceKey) (hkey : key ∈ moved) :
      Overlaps key.projections step.place.projections → key ∈ placeLeafKeys step.place :=
    mem_placeLeafKeys_of_overlaps hcross (hroot key hkey)
  cases step with
  | move place =>
    obtain ⟨_, hmove, hres⟩ := map_eq_some_iff.mp hstep
    cases hres
    obtain ⟨⟨hstatus, _⟩, rfl⟩ := LocalState.move_eq_some hmove
    rw [hflow] at hstatus
    constructor
    · intro alternative halternative key hkey hover
      obtain rfl : alternative = moved := by
        simpa [hflow, FlowState.single] using halternative
      exact FlowState.placeStatus_single hstatus key (hbelow key hkey hover) hkey
    · refine ⟨_, (congrArg (·.markMoved place) hflow).trans
        (FlowState.markMoved_single moved place), fun key hkey => ?_⟩
      rcases Finset.mem_union.mp hkey with hkey | hkey
      · exact hkeys key hkey
      · obtain ⟨hlocal, path, hpath, hprojs⟩ :=
          mem_placeLeafKeys.mp (mem_toFinset.mp hkey)
        refine ⟨hlocal.trans hplace.1, ?_⟩
        rw [hprojs, ← hplace.2]
        exact (layouts.append_mem_leafPaths place.typed hcross path).mpr hpath
  | assign place =>
    obtain ⟨_, hnext, _⟩ := LocalState.assign_eq_some hstep
    rw [hflow, FlowState.markInitialized_single] at hnext
    constructor
    · intro alternative halternative key hkey
      obtain rfl : alternative = moved := by
        simpa [hflow, FlowState.single] using halternative
      split
      next hover => exact hbelow key hkey hover
      · exact hroot key hkey
    · exact ⟨_, hnext, fun key hkey => hkeys key (mem_sdiff.mp hkey).1⟩

theorem tracked_of_outsideTuples
    (hrun : LocalRun layouts localId ty (fun _ step => step.OutsideTuples ty) state) :
    LocalRun layouts localId ty PlaceStep.Tracked state ∧
      KeysOfRoot layouts localId ty state := by
  induction hrun with
  | start => exact ⟨.start, ∅, rfl, by simp⟩
  | step step hrun hplace houtside hstep ih =>
    obtain ⟨hrun, hkeys⟩ := ih
    obtain ⟨htracked, hnext⟩ := step_keysOfRoot hkeys hplace houtside hstep
    exact ⟨.step step hrun hplace htracked hstep, hnext⟩

end LocalRun

/-- As long as no step selects a component of a tuple, every overwrite and the end of the scope are
exact, whatever is moved and assigned. -/
theorem dropsExactly_outsideTuples {layouts : Layouts} {localId : LocalId} {ty : Ty}
    {state : LocalState}
    (hrun : LocalRun layouts localId ty (fun _ step => step.OutsideTuples ty) state) :
    state.EndExact layouts ty ∧
      ∀ (step : PlaceStep layouts) (dropped : List (List Nat)) (next : LocalState),
        step.place.Of localId ty → step.OutsideTuples ty →
          state.execute layouts ty step = some (dropped, next) → step.Exact ty state dropped := by
  obtain ⟨htracked, hkeys⟩ := hrun.tracked_of_outsideTuples
  obtain ⟨moved, hstate⟩ := htracked.consistent
  refine ⟨hstate.endExact, fun step dropped next hplace houtside hstep => ?_⟩
  have hstep' := (LocalRun.step_keysOfRoot hkeys hplace houtside hstep).1
  exact (LocalRun.step_consistent hstate hplace hstep' hstep).1

/-! ## A pair of resources -/

namespace ResourcePair

/-- An enum whose values have a destructor. -/
def resource : Ty := .enum "Resource"

def enumsDrop : Layouts := structural fun ty =>
  match ty with
  | .enum _ => true
  | _ => false

def pair : Ty := .tuple [resource, resource]

def first : HirPlace enumsDrop := ⟨0, pair, [0], resource, rfl⟩

def second : HirPlace enumsDrop := ⟨0, pair, [1], resource, rfl⟩

theorem needsDrop_resource : enumsDrop.needsDrop resource = true := by
  simp [needsDrop, resource, enumsDrop, structural]

theorem needsDrop_pair : enumsDrop.needsDrop pair = true := by
  rw [pair, needsDrop]
  simp [needsDrop_resource]

theorem dropChildren_pair : enumsDrop.dropChildren pair = [(0, resource), (1, resource)] := by
  simp [dropChildren, pair, needsDrop_resource]

theorem dropGlue_resource (path : List Nat) : dropGlue enumsDrop resource path = [path] := by
  rw [dropGlue_eq, needsDrop_resource]
  rfl

theorem dropGlue_pair : dropGlue enumsDrop pair [] = [[0], [1]] := by
  have hunit : dropsAsUnit enumsDrop pair = false := rfl
  rw [dropGlue_eq, needsDrop_pair, dropChildren_pair, hunit]
  simp [dropGlue_resource]

theorem buildDropSlot_resource (path : List Nat) :
    buildDropSlot enumsDrop resource path = .node resource path [] := by
  rw [buildDropSlot_eq]
  rfl

theorem buildDropSlot_pair : buildDropSlot enumsDrop pair [] =
    .node pair [] [.node resource [0] [], .node resource [1] []] := by
  have hmethod : enumsDrop.hasDropMethod pair = false := rfl
  rw [buildDropSlot_eq, dropChildren_pair, hmethod]
  simp [buildDropSlot_resource]

theorem placeLeafKeys_first : placeLeafKeys first = [first.key] := by
  simp [placeLeafKeys, first, resource, appendLeafKeys]

theorem placeLeafKeys_second : placeLeafKeys second = [second.key] := by
  simp [placeLeafKeys, second, resource, appendLeafKeys]

theorem placeLeafKeys_root : placeLeafKeys first.root = [first.root.key] := by
  simp [placeLeafKeys, first, HirPlace.root, pair, appendLeafKeys]

/-- The pair after its second component has been moved out. -/
def afterMove : LocalState where
  flow := .single {second.key}
  flags := LocalState.updatePlaceDropFlags enumsDrop pair (fun _ => true) [1] false false
  live := {[0]}

theorem move_second : (LocalState.start enumsDrop pair).execute enumsDrop pair (.move second) =
      some ([], afterMove) := by
  have hflow : (LocalState.start enumsDrop pair).flow = .single ∅ := rfl
  have hstatus : (FlowState.single ∅).placeStatus second = .initialized := by
    rw [FlowState.placeStatus, placeLeafKeys_second]
    rfl
  rw [LocalState.execute, LocalState.move, hflow, if_pos ⟨hstatus, rfl⟩,
    FlowState.markMoved_single, placeLeafKeys_second]
  simp only [LocalState.start, dropGlue_pair]
  rfl

theorem run_afterMove (allowed : LocalState → PlaceStep enumsDrop → Prop)
    (hallowed : allowed (LocalState.start enumsDrop pair) (.move second)) :
    LocalRun enumsDrop 0 pair allowed afterMove :=
  .step (.move second) .start ⟨rfl, rfl⟩ hallowed move_second

/-- Moving the second component out is exact, and so is the end of the scope after it. -/
theorem dropsExactly_afterMove :
    (PlaceStep.move second).Exact pair (LocalState.start enumsDrop pair) [] ∧
      afterMove.EndExact enumsDrop pair := by
  have htracked : (PlaceStep.move second).Tracked (LocalState.start enumsDrop pair) := by
    simp [PlaceStep.Tracked, LocalState.start, FlowState.start]
  exact ⟨(dropsExactly_of_tracked .start).2 (.move second) [] afterMove ⟨rfl, rfl⟩ htracked
    move_second, (dropsExactly_of_tracked (run_afterMove _ htracked)).1⟩

/-- The whole pair is moved out, and the end of the scope is exact after it. -/
theorem dropsExactly_outsideTuples_whole : ∃ next : LocalState,
    (LocalState.start enumsDrop pair).execute enumsDrop pair (.move first.root) = some ([], next) ∧
      next.EndExact enumsDrop pair := by
  have hstatus : (LocalState.start enumsDrop pair).flow.placeStatus first.root = .initialized := by
    rw [FlowState.placeStatus, placeLeafKeys_root]
    rfl
  have hmoved : ∃ next, (LocalState.start enumsDrop pair).execute enumsDrop pair
      (.move first.root) = some ([], next) := by
    rw [LocalState.execute, LocalState.move, if_pos ⟨hstatus, rfl⟩]
    exact ⟨_, rfl⟩
  exact hmoved.imp fun next hnext => ⟨hnext, (dropsExactly_outsideTuples
    (.step (.move first.root) .start ⟨rfl, rfl⟩ id hnext)).1⟩

/-- Assigning the first component sets every flag: the leaf key of the pair is not among the
recorded keys, so the whole pair passes for initialized. -/
theorem assign_first : ∃ dropped next,
    afterMove.execute enumsDrop pair (.assign first) = some (dropped, next) ∧
      next.flags [] = true ∧ [1] ∉ next.live := by
  have hkind : (FlowState.single {second.key}).assignmentKind (placeLeafKeys first) =
      .overwrite := by
    rw [placeLeafKeys_first]
    rfl
  have hslot : findDropSlot first.projections (buildDropSlot enumsDrop pair []) =
      some (.node resource [0] []) := by
    simp [buildDropSlot_pair, findDropSlot, first]
  have hroot : (FlowState.single ({second.key} \ (placeLeafKeys first).toFinset)).placeStatus
      first.root = .initialized := by
    rw [FlowState.placeStatus, placeLeafKeys_root, placeLeafKeys_first]
    rfl
  have hdrop : LocalState.overwriteDrop enumsDrop pair first .overwrite afterMove.flags =
      some (conditionalDrop enumsDrop (.node resource [0] []) afterMove.flags) := by
    have hneeds : enumsDrop.needsDrop first.ty = true := needsDrop_resource
    rw [LocalState.overwriteDrop, if_pos ⟨hneeds, by decide⟩, hslot]
    rfl
  have hres : afterMove.execute enumsDrop pair (.assign first) = some
      ((conditionalDrop enumsDrop (.node resource [0] []) afterMove.flags).1,
        { flow := .single ({second.key} \ (placeLeafKeys first).toFinset)
          flags := LocalState.updatePlaceDropFlags enumsDrop pair
            (conditionalDrop enumsDrop (.node resource [0] []) afterMove.flags).2
            [0] true true
          live := afterMove.live ∪
            (dropGlue enumsDrop pair []).toFinset.filter fun leaf => [0] <+: leaf }) := by
    have hflow : afterMove.flow = .single {second.key} := rfl
    rw [LocalState.execute, LocalState.assign, hflow, FlowState.markInitialized_single, hkind]
    simp only [hroot, hdrop]
    rfl
  refine ⟨_, _, hres, ?_, ?_⟩
  · exact LocalState.updatePlaceDropFlags_slot needsDrop_pair (.self pair) true true
  · simp [dropGlue_pair, afterMove]

/-- An accepted run in which a leaf that was moved out is dropped at the end of the scope. -/
theorem exists_run_not_endExact : ∃ state,
    LocalRun enumsDrop 0 pair (fun _ _ => True) state ∧ ¬ state.EndExact enumsDrop pair := by
  obtain ⟨dropped, next, hassign, hflag, hlive⟩ := assign_first
  refine ⟨next, .step (.assign first) (run_afterMove _ trivial) ⟨rfl, rfl⟩ trivial hassign, ?_⟩
  rintro ⟨_, hdrops⟩
  have hend : next.scopeEnd enumsDrop pair = [[0], [1]] := by
    rw [LocalState.scopeEnd, if_pos needsDrop_pair, conditionalDrop_eq, if_pos hflag, dropGlue_pair]
  exact hlive ((hdrops [1]).mp (by simp [hend]))

end ResourcePair

end Salicin.Codegen
