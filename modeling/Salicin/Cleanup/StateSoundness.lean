import Salicin.Cleanup.Marking
import Salicin.Cleanup.Storage

/-!
# Move states describe storage

A move state describes the storage of an execution when what must be live or complete is so,
what is live or complete may be so, and the selected variants are among the possible ones.
Every operation whose path lies in variants known to be selected keeps the description.
-/

namespace Salicin.Cleanup

open Finset PreorderIntervals

open CleanupPlan.PathsValid (below_refl below_trans lt_of_parent)

variable {plan : CleanupPlan}

/-- The selected variant, or its absence, is possible. -/
def DiscriminantState.Allows (state : DiscriminantState) : Option Nat → Prop
  | some variant => variant ∈ state.possibleVariants
  | none => state.mayBeUnset

/-- A discriminant that must be set has a possible variant, if it is set. -/
def DiscriminantState.Keeps (state : DiscriminantState) (selected : Option Nat) : Prop :=
  ¬ state.mayBeUnset → ∀ variant, selected = some variant → variant ∈ state.possibleVariants

structure PathState.Describes (known : PathState) (storage : Storage plan) (path : MovePathId) :
    Prop where
  full : known.must → storage.Full path
  may : storage.Full path → known.may
  variant : ∀ discriminant ∈ known.discriminant, discriminant.Allows (storage.variant path)

structure MoveState.Describes (state : MoveState plan) (storage : Storage plan) : Prop where
  reachable : state.reachable
  mustLive : ∀ localId ∈ state.mustLive, localId ∈ storage.live
  mayLive : ∀ localId ∈ storage.live, localId ∈ state.mayLive
  paths : ∀ path < plan.movePaths.length, (state.pathState path).Describes storage path

/-- Every variant that the path projects through is known to be selected. -/
def MoveState.KnownActive (state : MoveState plan) (path : MovePathId) : Prop :=
  ∀ enumRoot child variant, child ∈ plan.children enumRoot → plan.Below child path →
    plan.downcastVariant child = some variant → state.discriminant enumRoot = some (.known variant)

namespace DiscriminantState

theorem Allows.keeps {state : DiscriminantState} {selected : Option Nat}
    (hallows : state.Allows selected) : state.Keeps selected := by
  rintro - variant rfl
  exact hallows

theorem eq_of_allows_known {variant : Nat} {selected : Option Nat}
    (hallows : (known variant).Allows selected) : selected = some variant := by
  cases selected with
  | none => exact absurd hallows Bool.false_ne_true
  | some other => rw [mem_singleton.mp hallows]

end DiscriminantState

variable {path : MovePathId} {storage : Storage plan} {before after : Storage plan}

namespace PathState

theorem describes_cleared (hfull : ¬ storage.Full path) (hvar : storage.variant path = none) :
    (MoveState.clearedPath plan path).Describes storage path where
  full := fun hmust => absurd hmust Bool.false_ne_true
  may := fun h => absurd h hfull
  variant := by
    intro discriminant hmem
    obtain ⟨slot, -, rfl⟩ := Option.map_eq_some_iff.mp hmem
    rw [hvar]
    rfl

theorem Describes.incomplete {known : PathState} (hknown : known.Describes before path)
    (hfull : ¬ after.Full path) (hvar : after.variant path = before.variant path) :
    known.incomplete.Describes after path where
  full := fun hmust => absurd hmust Bool.false_ne_true
  may := fun h => absurd h hfull
  variant := hvar ▸ hknown.variant

theorem Describes.congr {known : PathState} (hknown : known.Describes before path)
    (hfull : after.Full path ↔ before.Full path)
    (hvar : after.variant path = before.variant path) : known.Describes after path where
  full := fun hmust => hfull.mpr (hknown.full hmust)
  may := fun h => hknown.may (hfull.mp h)
  variant := hvar ▸ hknown.variant

theorem Describes.of_live {known : PathState} (hvalid : plan.PathsValid)
    (hpath : plan.Has path) (hknown : known.Describes before path)
    (hinit : after.init = before.init) (hvar : after.variant = before.variant) :
    known.Describes after path := by
  refine hknown.congr ⟨fun hfull => ?_, fun hfull => ?_⟩ (congrFun hvar path)
  · exact hfull.congr hvalid hpath fun part _ _ => by rw [hinit, hvar]; exact ⟨Iff.rfl, rfl⟩
  · exact hfull.congr hvalid hpath fun part _ _ => by rw [hinit, hvar]; exact ⟨Iff.rfl, rfl⟩

end PathState

namespace MoveState

variable {state : MoveState plan}

theorem Describes.storage_congr {next : MoveState plan} (hstate : state.Describes before)
    (hstorage : next.storage = state.storage) (hlive : after.live = before.live)
    (hpaths : ∀ path < plan.movePaths.length, (next.pathState path).Describes after path) :
    next.Describes after := by
  obtain ⟨hreach, hlives⟩ := Prod.mk.inj hstorage
  obtain ⟨hmay, hmust⟩ := Prod.mk.inj hlives
  exact {
    reachable := hreach ▸ hstate.reachable
    mustLive := fun localId hmem => hlive ▸ hstate.mustLive localId (hmust ▸ hmem)
    mayLive := fun localId hmem => hmay ▸ hstate.mayLive localId (hlive ▸ hmem)
    paths := hpaths }

variable (hvalid : plan.PathsValid) {variants : List (Nat × MovePathId)}

theorem discriminant_isSome (state : MoveState plan) (hpath : plan.Has path)
    (hrule : plan.completion path = .enumRoot variants) :
    ∃ discriminant, state.discriminant path = some discriminant := by
  obtain ⟨slot, hslot⟩ := CleanupPlan.PathsValid.exists_discriminantIndex hpath hrule
  exact ⟨state.discriminants slot, by rw [discriminant, hslot]; rfl⟩

theorem KnownActive.active (hactive : state.KnownActive path) (hstate : state.Describes storage)
    (hvalid : plan.PathsValid) : storage.Active path := by
  intro enumRoot child variant hchild hbelow hdowncast
  have hparent := (hvalid.parent_spec (hvalid.mem_children.mp hchild)).1
  exact DiscriminantState.eq_of_allows_known ((hstate.paths enumRoot hparent).variant _
    (hactive enumRoot child variant hchild hbelow hdowncast))

/-! ## Marking a value -/

/-- The value that a certainty speaks of. -/
def Whole (certainty : InitializationCertainty) (storage : Storage plan) (path : MovePathId) :
    Prop :=
  match certainty with
  | .must => storage.Full path
  | .may => storage.Full path ∨ storage.Empty path

variable {certainty : InitializationCertainty}

theorem Whole.full_or_empty (hwhole : Whole certainty storage path) :
    storage.Full path ∨ storage.Empty path := by
  cases certainty with
  | may => exact hwhole
  | must => exact .inl hwhole

theorem Whole.child {child : MovePathId} (hwhole : Whole certainty storage path)
    (hvalid : plan.PathsValid) (hrule : plan.completion path = .allChildren)
    (hchild : child ∈ plan.children path) :
    Whole certainty storage child := by
  cases certainty with
  | must => exact (Storage.full_allChildren hrule).mp hwhole child hchild
  | may =>
    exact hwhole.imp (fun hfull => (Storage.full_allChildren hrule).mp hfull child hchild)
      fun hempty => hempty.of_below (hvalid.below_child hchild)

/-- A variant of a whole enum is complete when it is selected, and empty otherwise. -/
theorem Whole.variant {child : MovePathId} {variant : Nat} (hwhole : Whole certainty storage path)
    (hvalid : plan.PathsValid) (hpath : plan.Has path)
    (hrule : plan.completion path = .enumRoot variants) (hcons : storage.ConsistentAt path)
    (hchild : (variant, child) ∈ variants) :
    if storage.variant path = some variant then storage.Full child else storage.Empty child := by
  rcases hwhole.full_or_empty with hfull | hempty
  · exact hfull.variant_full_or_empty hvalid hrule hcons hchild
  · rw [(hempty path hpath (CleanupPlan.PathsValid.below_refl path)).2, if_neg (by simp)]
    rw [← CleanupPlan.PathsValid.variants_eq hrule] at hchild
    exact hempty.of_below
      (hvalid.below_child (CleanupPlan.PathsValid.mem_variantChildren.mp hchild).1)

theorem allows_markDiscriminant {discriminant : DiscriminantState}
    (hpath : plan.Has path) (hrule : plan.completion path = .enumRoot variants)
    (hwhole : Whole certainty storage path) (hkeeps : discriminant.Keeps (storage.variant path)) :
    (markDiscriminant certainty (variants.map (·.1)) discriminant).Allows
      (storage.variant path) := by
  have hlisted : storage.Full path → ∃ variant, storage.variant path = some variant ∧
      variant ∈ (variants.map (·.1)).toFinset := by
    intro hfull
    obtain ⟨variant, child, hvar, hchild, -⟩ := (Storage.full_enumRoot hrule).mp hfull
    exact ⟨variant, hvar, List.mem_toFinset.mpr (List.mem_map.mpr ⟨_, hchild, rfl⟩)⟩
  cases certainty with
  | must =>
    obtain ⟨variant, hvar, hmem⟩ := hlisted hwhole
    rw [hvar, markDiscriminant]
    change variant ∈ DiscriminantState.possibleVariants _
    split_ifs with hunset
    · exact mem_union_right _ hmem
    · exact hkeeps hunset variant hvar
  | may =>
    rcases hwhole with hfull | hempty
    · obtain ⟨variant, hvar, hmem⟩ := hlisted hfull
      rw [hvar]
      exact mem_union_right _ hmem
    · rw [(hempty path hpath (CleanupPlan.PathsValid.below_refl path)).2]
      rfl

include hvalid

/-- The discriminants below a path keep the selected variants. -/
def KeepsBelow (state : MoveState plan) (storage : Storage plan) (path : MovePathId) : Prop :=
  ∀ part < plan.movePaths.length, plan.Below path part →
    ∀ discriminant ∈ (state.pathState part).discriminant, discriminant.Keeps (storage.variant part)

/-- All that is known below a path is right. -/
def DescribesBelow (state : MoveState plan) (storage : Storage plan) (path : MovePathId) : Prop :=
  ∀ part < plan.movePaths.length, plan.Below path part →
    (state.pathState part).Describes storage part

theorem DescribesBelow.of_children (hpath : plan.Has path)
    (hself : (state.pathState path).Describes storage path)
    (hchildren : ∀ child ∈ plan.children path, state.DescribesBelow storage child) :
    state.DescribesBelow storage path := by
  intro part hpart hbelow
  rcases (hvalid.below_iff_child hpath hpart).mp hbelow with rfl | ⟨child, hchild, hdown⟩
  · exact hself
  · exact hchildren child hchild part hpart hdown

omit hvalid in
/-- What is known of a path that has just been marked, and its discriminant with it. -/
theorem describes_marked (hwhole : Whole certainty storage path)
    {discriminant : Option DiscriminantState}
    (hvar : ∀ known ∈ discriminant, known.Allows (storage.variant path)) :
    PathState.Describes { may := true, must := certainty = .must, discriminant } storage path where
  full := by
    intro hmust
    obtain rfl : certainty = .must := of_decide_eq_true hmust
    exact hwhole
  may _ := rfl
  variant := hvar

/-- Marking a path whole describes a value that is whole at the path. -/
theorem describes_markWhole {bound : Nat} (hfits : Fits plan.children bound path)
    (hpath : plan.Has path)
    (hcons : ∀ part, plan.Below path part → storage.ConsistentAt part)
    (hwhole : Whole certainty storage path) (hkeeps : state.KeepsBelow storage path) :
    (markWhole bound path certainty state).DescribesBelow storage path := by
  induction bound generalizing path certainty state with
  | zero => exact hfits.elim
  | succ bound ih =>
    have hmark {child : MovePathId} (hchild : child ∈ plan.children path)
        {certainty : InitializationCertainty} (hpart : Whole certainty storage child)
        {before : MoveState plan} (hbefore : ∀ part < plan.movePaths.length,
          plan.Below child part → before.pathState part = state.pathState part) :
        (markWhole bound child certainty before).DescribesBelow storage child := by
      refine ih (hfits child hchild) (lt_of_parent (hvalid.mem_children.mp hchild))
        (fun part hin => hcons part (below_trans (hvalid.below_child hchild) hin)) hpart ?_
      intro part hparts hin
      rw [hbefore part hparts hin]
      exact hkeeps part hparts (below_trans (hvalid.below_child hchild) hin)
    have hmarked : ∀ known ∈ (state.markedPath path certainty).discriminant,
        known.Allows (storage.variant path) := by
      intro known hknown
      obtain ⟨old, hold, rfl⟩ := Option.map_eq_some_iff.mp hknown
      exact allows_markDiscriminant hpath
        (CleanupPlan.PathsValid.completion_of_discriminant hold) hwhole
        (hkeeps path hpath (below_refl path) old hold)
    refine .of_children hvalid hpath ?_ fun child hchild part hpart hdown => ?_
    · rw [pathState_markWhole_self hvalid hfits hpath]
      exact describes_marked hwhole hmarked
    · cases hrule : plan.completion path with
      | explicit =>
        rw [CleanupPlan.PathsValid.children_of_explicit hrule] at hchild
        exact absurd hchild List.not_mem_nil
      | allChildren =>
        obtain ⟨before, hbefore⟩ :=
          exists_markWhole_of_allChildren hvalid bound certainty state hrule hchild
        rw [(hbefore part hpart hdown).2]
        exact hmark hchild (hwhole.child hvalid hrule hchild)
          (fun part hpart hdown => (hbefore part hpart hdown).1) part hpart hdown
      | enumRoot variants =>
        obtain ⟨variant, hentry⟩ := hvalid.exists_variant hrule hchild
        obtain ⟨known, hknown⟩ := discriminant_isSome state hpath hrule
        have hallows := hmarked _ (Option.map_eq_some_iff.mpr ⟨known, hknown, rfl⟩)
        have hself := hwhole.variant hvalid hpath hrule (hcons path (below_refl path))
          hentry
        by_cases hin : variant ∈ state.possibleAfter path certainty
        · obtain ⟨before, hbefore⟩ :=
            exists_markWhole_of_possible hvalid bound hrule hentry hin
          rw [(hbefore part hpart hdown).2]
          refine hmark hchild ?_ (fun part hpart hdown => (hbefore part hpart hdown).1)
            part hpart hdown
          rw [childCertainty]
          split_ifs with hsingle
          · -- the only possible variant is the selected one
            obtain ⟨rfl, hcard⟩ := hsingle
            obtain ⟨only, honly⟩ := card_eq_one.mp hcard
            obtain ⟨selected, -, hsel, -, -⟩ := (Storage.full_enumRoot hrule).mp hwhole
            rw [hsel] at hallows
            have hallows : selected ∈ state.possibleAfter path .must := by
              rw [possibleAfter_eq hknown]
              exact hallows
            rw [honly, mem_singleton] at hallows hin
            rw [hsel, hallows, hin, if_pos rfl] at hself
            exact hself
          · split_ifs at hself with hsel
            · exact .inl hself
            · exact .inr hself
        · have hempty : storage.Empty child := by
            rw [if_neg] at hself
            · exact hself
            · intro hsel
              rw [hsel] at hallows
              rw [possibleAfter_eq hknown] at hin
              exact hin hallows
          rw [pathState_markWhole_of_impossible hvalid bound hrule hentry hin hpart hdown]
          exact PathState.describes_cleared
            (fun hfull => hfull.not_empty hvalid hpart (hempty.of_below hdown))
            (hempty part hpart hdown).2

end MoveState

end Salicin.Cleanup
