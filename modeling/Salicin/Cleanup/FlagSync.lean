import Salicin.Cleanup.DropFlags
import Salicin.Cleanup.VerifierSoundness

/-!
# Flags and storage

A flag is in step with the storage when it is set for complete paths only, and for a leaf
whenever the leaf is initialized. The flags of the payload of a complete enum whose variant is
not known do not matter as long as the enum's own flag is set: nothing can touch the payload
before a match tells the variant. All other flags are kept in step by the updates that the
analysis attaches to the operations.
-/

namespace Salicin.Cleanup

open Finset List PreorderIntervals Storage

open CleanupPlan.PathsValid (below_refl below_trans lt_of_parent)

variable {plan : CleanupPlan}

/-- More than one variant is possible. -/
def MoveState.Ambiguous (state : MoveState plan) (path : MovePathId) : Prop :=
  ∃ known, state.discriminant path = some known ∧ 1 < known.possibleVariants.card

/-- The value of a flag is right for its path. -/
structure Storage.InStep (storage : Storage plan) (path : MovePathId) (val : Bool) : Prop where
  full : val → storage.Full path
  leaf : plan.completion path = .explicit → storage.Full path → val

/-- The flagged paths and the values of their flags. -/
structure FlagView where
  flagged : MovePathId → Prop
  value : MovePathId → Bool

namespace FlagView

variable (view : FlagView)

/-- No set flag of a complete enum with several possible variants stands in for the path. -/
def Exposed (state : MoveState plan) (storage : Storage plan) (path : MovePathId) : Prop :=
  ∀ above < plan.movePaths.length, plan.Below above path → above ≠ path → storage.Full above →
    state.Ambiguous above → view.flagged above ∧ view.value above = false

/-- Every exposed flag is in step. -/
def Synced (state : MoveState plan) (storage : Storage plan) : Prop :=
  ∀ path < plan.movePaths.length, view.flagged path → view.Exposed state storage path →
    storage.InStep path (view.value path)

end FlagView

namespace Storage

variable {storage before after : Storage plan} {path : MovePathId} {val : Bool}

theorem inStep_false (hfull : plan.completion path = .explicit → ¬ storage.Full path) :
    storage.InStep path false where
  full h := absurd h Bool.false_ne_true
  leaf hrule hin := absurd hin (hfull hrule)

theorem inStep_true (hfull : storage.Full path) : storage.InStep path true where
  full _ := hfull
  leaf _ _ := rfl

theorem InStep.congr (hstep : before.InStep path val)
    (hfull : after.Full path ↔ before.Full path) : after.InStep path val where
  full hval := hfull.mpr (hstep.full hval)
  leaf hrule hin := hstep.leaf hrule (hfull.mp hin)

theorem completion_ne_of_child {child : MovePathId} (hchild : child ∈ plan.children path) :
    plan.completion path ≠ .explicit := by
  intro hrule
  rw [CleanupPlan.PathsValid.children_of_explicit hrule] at hchild
  exact absurd hchild not_mem_nil

/-- A complete path stays complete when one of its parts is completed anew. -/
theorem Full.of_completed (hvalid : plan.PathsValid) (hfull : before.Full path)
    (hpath : plan.Has path) {part : MovePathId}
    (hpart : plan.Has part) (hbelow : plan.Below path part)
    (hdone : after.Full part)
    (hsame : ∀ other < plan.movePaths.length, plan.Below path other → ¬ plan.Below part other →
      (other ∈ after.init ↔ other ∈ before.init) ∧ after.variant other = before.variant other) :
    after.Full path := by
  have hreach := (hvalid.reaches_iff_below hpath hpart).mpr hbelow
  induction hreach using Relation.ReflTransGen.head_induction_on with
  | refl => exact hdone
  | @head path child hchild hreach ih =>
    have hlt := lt_of_parent (hvalid.mem_children.mp hchild)
    have hin := (hvalid.reaches_iff_below hlt hpart).mp hreach
    have hup : ¬ plan.Below part path := hvalid.not_below_parent hchild hin
    -- the other children do not meet the part
    have hother {other : MovePathId} (hmem : other ∈ plan.children path) (hne : other ≠ child)
        (hfull : before.Full other) : after.Full other := by
      have hlt' := lt_of_parent (hvalid.mem_children.mp hmem)
      refine hfull.congr hvalid hlt' fun third hthird hdown => ?_
      refine hsame third hthird (below_trans (hvalid.below_child hmem) hdown) fun hdown' => ?_
      exact hne (hvalid.children_disjoint hmem hchild hthird hdown (below_trans hin hdown'))
    have hsame' : ∀ other < plan.movePaths.length, plan.Below child other →
        ¬ plan.Below part other → (other ∈ after.init ↔ other ∈ before.init) ∧
          after.variant other = before.variant other :=
      fun other hlt hdown => hsame other hlt (below_trans (hvalid.below_child hchild) hdown)
    cases hfull with
    | explicit hrule => exact absurd hrule (completion_ne_of_child hchild)
    | allChildren hrule hchildren =>
      refine .allChildren hrule fun other hmem => ?_
      by_cases hne : other = child
      · subst hne
        exact ih (hchildren other hmem) hlt hin hsame'
      · exact hother hmem hne (hchildren other hmem)
    | @enumRoot _ selected variant hrule hvar hsel hfull =>
      have hmem := (CleanupPlan.PathsValid.mem_variantChildren.mp hsel).1
      refine .enumRoot hrule ?_ hsel ?_
      · rw [(hsame path hpath (below_refl path) hup).2, hvar]
      · by_cases hne : selected = child
        · subst hne
          exact ih hfull hlt hin hsame'
        · exact hother hmem hne hfull

end Storage

namespace MoveState

variable {state : MoveState plan} {storage : Storage plan} {path : MovePathId}
  (hvalid : plan.PathsValid)

include hvalid

/-- The enums above a path are not ambiguous when their variants are known. -/
theorem KnownActive.not_ambiguous (hactive : state.KnownActive path) {above : MovePathId}
    (hpath : plan.Has path) (habove : plan.Has above)
    (hbelow : plan.Below above path) (hne : above ≠ path) : ¬ state.Ambiguous above := by
  rintro ⟨known, hknown, hcard⟩
  rcases (hvalid.below_iff_child habove hpath).mp hbelow with rfl | ⟨child, hchild, hdown⟩
  · exact hne rfl
  · have hrule := CleanupPlan.PathsValid.completion_of_discriminant hknown
    obtain ⟨variant, hentry⟩ := hvalid.exists_variant hrule hchild
    have hsingle := hactive above child variant hchild hdown
      (CleanupPlan.PathsValid.mem_variantChildren.mp hentry).2
    cases hknown.symm.trans hsingle
    exact absurd hcard (by simp [DiscriminantState.known])

/-- Where a part of a value that is marked certain ends up: it is certain itself, or it lies in
a certain enum with several possible variants, or in a variant that was ruled out before. -/
inductive Fate (before after : MoveState plan) (storage : Storage plan) (path part : MovePathId) :
    Prop
  | certain (hmust : (after.pathState part).must) : Fate before after storage path part
  | hidden {above : MovePathId} {known : DiscriminantState}
      (habove : above < plan.movePaths.length) (hbelow : plan.Below path above)
      (hin : plan.Below above part) (hne : above ≠ part) (hfull : storage.Full above)
      (hmust : (after.pathState above).must)
      (hknown : (after.pathState above).discriminant = some known)
      (hseveral : 1 < known.possibleVariants.card) : Fate before after storage path part
  | ruledOut {above child : MovePathId} {variant : Nat} {known : DiscriminantState}
      (habove : above < plan.movePaths.length) (hbelow : plan.Below path above)
      (hentry : (variant, child) ∈ plan.variantChildren above) (hin : plan.Below child part)
      (hknown : (before.pathState above).discriminant = some known) (hset : ¬ known.mayBeUnset)
      (hout : variant ∉ known.possibleVariants) (hempty : storage.Empty child)
      (hsingle : ∀ other < plan.movePaths.length, plan.Below path other →
        plan.Below other above → ∀ known, (before.pathState other).discriminant = some known →
          known.possibleVariants.card ≤ 1) : Fate before after storage path part

/-- The fate in a child is the fate in its parent, unless the parent has several variants. -/
theorem Fate.of_child {before before' after after' : MoveState plan} {child part : MovePathId}
    (hfate : Fate before' after' storage child part) (hpath : plan.Has path)
    (hchild : child ∈ plan.children path) (hpart : plan.Has part)
    (hbelow : plan.Below child part)
    (hsame : ∀ part < plan.movePaths.length, plan.Below child part →
      before'.pathState part = before.pathState part ∧ after.pathState part = after'.pathState part)
    (hcard : ∀ known, (before.pathState path).discriminant = some known →
      known.possibleVariants.card ≤ 1) : Fate before after storage path part := by
  have hdown := hvalid.below_child hchild
  cases hfate with
  | certain hmust => exact .certain ((hsame part hpart hbelow).2 ▸ hmust)
  | hidden habove hin hin' hne hfull hmust hknown hseveral =>
    have hstate := (hsame _ habove hin).2
    exact .hidden habove (below_trans hdown hin) hin' hne hfull (hstate ▸ hmust)
      (hstate ▸ hknown) hseveral
  | @ruledOut above _ _ _ habove hin hentry hin' hknown hset hout hempty hsingle =>
    refine .ruledOut habove (below_trans hdown hin) hentry hin'
      ((hsame above habove hin).1 ▸ hknown) hset hout hempty fun other hother hup hup' => ?_
    -- what lies between the parent and the enum is the parent, or lies below the child
    rcases CleanupPlan.PathsValid.below_or_below hin hup' with hbetween | hbetween
    · rw [← (hsame other hother hbetween).1]
      exact hsingle other hother hbetween hup'
    · by_cases hsame' : other = child
      · subst hsame'
        rw [← (hsame other hother (below_refl other)).1]
        exact hsingle other hother (below_refl other) hup'
      · have hself := hvalid.below_parent (hvalid.mem_children.mp hchild) hother hbetween hsame'
        rw [hvalid.below_antisymm hother hpath hself hup]
        exact hcard

omit hvalid in
/-- The variant of a complete enum is possible once the enum is marked. -/
theorem selected_possible {variants : List (Nat × MovePathId)} {known : DiscriminantState}
    (hpath : plan.Has path) (hrule : plan.completion path = .enumRoot variants)
    (hfull : storage.Full path) (hknown : state.discriminant path = some known)
    (hkeeps : known.Keeps (storage.variant path)) {selected : Nat}
    (hsel : storage.variant path = some selected) :
    selected ∈ state.possibleAfter path .must := by
  have hwhole : Whole .must storage path := hfull
  have hallows := allows_markDiscriminant hpath hrule hwhole hkeeps
  rw [hsel] at hallows
  rw [possibleAfter_eq hknown, CleanupPlan.PathsValid.variants_eq hrule]
  exact hallows

/-- Every part of a complete value that is marked certain has one of the three fates. -/
theorem markWhole_fate {bound : Nat} {part : MovePathId} (hfits : Fits plan.children bound path)
    (hpath : plan.Has path) (hcons : ∀ part, plan.Below path part → storage.ConsistentAt part)
    (hfull : storage.Full path) (hkeeps : state.KeepsBelow storage path) (hpart : plan.Has part)
    (hbelow : plan.Below path part) :
    Fate state (markWhole bound path .must state) storage path part := by
  induction bound generalizing path state with
  | zero => exact hfits.elim
  | succ bound ih =>
    have hself : (markWhole (bound + 1) path .must state).pathState path =
        state.markedPath path .must := pathState_markWhole_self hvalid hfits hpath
    have hcertain : ((markWhole (bound + 1) path .must state).pathState path).must := by
      rw [hself]
      rfl
    rcases (hvalid.below_iff_child hpath hpart).mp hbelow with rfl | ⟨child, hchild, hdown⟩
    · exact .certain hcertain
    have hlt := lt_of_parent (hvalid.mem_children.mp hchild)
    -- a complete child is marked as if alone
    have hmark (hfull : storage.Full child) {before : MoveState plan}
        (hbefore : ∀ part < plan.movePaths.length, plan.Below child part →
          before.pathState part = state.pathState part ∧
            (markWhole (bound + 1) path .must state).pathState part =
              (markWhole bound child .must before).pathState part)
        (hcard : ∀ known, (state.pathState path).discriminant = some known →
          known.possibleVariants.card ≤ 1) :
        Fate state (markWhole (bound + 1) path .must state) storage path part := by
      refine Fate.of_child hvalid (ih (hfits child hchild) hlt ?_ hfull ?_ hdown) hpath hchild
        hpart hdown hbefore hcard
      · exact fun part hin => hcons part (below_trans (hvalid.below_child hchild) hin)
      · intro part hpart hin
        rw [(hbefore part hpart hin).1]
        exact hkeeps part hpart (below_trans (hvalid.below_child hchild) hin)
    cases hrule : plan.completion path with
    | explicit => exact absurd hrule (Storage.completion_ne_of_child hchild)
    | allChildren =>
      obtain ⟨before, hbefore⟩ :=
        exists_markWhole_of_allChildren hvalid bound .must state hrule hchild
      refine hmark ((full_allChildren hrule).mp hfull child hchild) hbefore ?_
      intro known hknown
      have hnone : state.discriminant path = none := discriminant_eq_none state (by simp [hrule])
      exact absurd (hnone.symm.trans hknown) (by simp)
    | enumRoot variants =>
      obtain ⟨known, hknown⟩ := discriminant_isSome state hpath hrule
      obtain ⟨variant, hentry⟩ := hvalid.exists_variant hrule hchild
      have hpossible := @possibleAfter_eq _ _ _ .must _ hknown
      have hgrows : known.possibleVariants ⊆ state.possibleAfter path .must := by
        rw [hpossible, markDiscriminant]
        dsimp only
        split_ifs
        · exact subset_union_left
        · exact fun _ => id
      by_cases hseveral : 1 < (state.possibleAfter path .must).card
      · -- the enum hides its payload
        refine .hidden hpath (below_refl path) hbelow ?_ hfull hcertain ?_ (hpossible ▸ hseveral)
        · rintro rfl
          exact hvalid.not_below_child hchild hdown
        · rw [hself, markedPath, hknown]
          rfl
      · have hsingle : ∀ known, (state.pathState path).discriminant = some known →
            known.possibleVariants.card ≤ 1 := by
          intro known' hknown'
          cases hknown.symm.trans hknown'
          exact (card_le_card hgrows).trans (Nat.le_of_not_lt hseveral)
        have hvar := hfull.variant_full_or_empty hvalid hrule
          (hcons path (below_refl path)) hentry
        have hsel {selected : Nat} (heq : storage.variant path = some selected) :=
          selected_possible hpath hrule hfull hknown
            (hkeeps path hpath (below_refl path) known hknown) heq
        by_cases hin : variant ∈ state.possibleAfter path .must
        · obtain ⟨before, hbefore⟩ := exists_markWhole_of_possible hvalid bound hrule hentry hin
          have hcard : (state.possibleAfter path .must).card = 1 :=
            le_antisymm (Nat.le_of_not_lt hseveral) (card_pos.mpr ⟨variant, hin⟩)
          rw [childCertainty, if_pos ⟨rfl, hcard⟩] at hbefore
          refine hmark ?_ hbefore hsingle
          obtain ⟨selected, -, heq, -, -⟩ := (full_enumRoot hrule).mp hfull
          obtain ⟨only, honly⟩ := card_eq_one.mp hcard
          have hsame := hsel heq
          rw [honly, Finset.mem_singleton] at hsame hin
          rw [heq, hsame, hin, if_pos rfl] at hvar
          exact hvar
        · rw [if_neg fun heq => hin (hsel heq)] at hvar
          rw [← CleanupPlan.PathsValid.variants_eq hrule] at hentry
          refine .ruledOut hpath (below_refl path) hentry hdown hknown ?_
            (fun hmem => hin (hgrows hmem)) hvar fun other hother hup hup' => ?_
          · -- otherwise every variant would have become possible
            intro hunset
            refine hin ?_
            rw [hpossible, markDiscriminant, hunset]
            exact mem_union_right _
              (mem_toFinset.mpr (mem_map.mpr ⟨_, hentry, rfl⟩))
          · rw [hvalid.below_antisymm hother hpath hup' hup]
            exact hsingle

omit hvalid in
theorem pathState_initializePath (hvalid : plan.PathsValid) (hpath : plan.Has path)
    {part : MovePathId} (hbelow : plan.Below path part) :
    (state.initializePath path).pathState part =
      (markWhole plan.height path .must state).pathState part := by
  rw [initializePath, recomposeAncestors, pathState_foldl_of_not]
  intro above habove state
  obtain ⟨hlt, hup, hne⟩ := (hvalid.mem_ancestors hpath).mp habove
  refine pathState_recompose_of_ne state ?_
  rintro rfl
  exact hne (hvalid.below_antisymm hlt hpath hup hbelow)

omit hvalid in
/-- The discriminants of paths that are not below the completed one stay. -/
theorem discriminant_initializePath (hvalid : plan.PathsValid) (hpath : plan.Has path)
    {other : MovePathId} (hother : plan.Has other)
    (hout : ¬ plan.Below path other) :
    (state.initializePath path).discriminant other = state.discriminant other := by
  have hrecompose (paths : List MovePathId) (state : MoveState plan) :
      (paths.foldl recompose state).discriminants = state.discriminants := by
    induction paths generalizing state with
    | nil => rfl
    | cons head rest ih => rw [foldl_cons, ih, discriminants_recompose]
  have hmarked : (markWhole plan.height path .must state).pathState other = state.pathState other :=
    pathState_markWhole_of_not_below hvalid hpath hother hout .must state
  rw [discriminant, initializePath, recomposeAncestors, hrecompose]
  exact congrArg PathState.discriminant hmarked

omit hvalid in
/-- What a state knows of the discriminants is kept by a value that keeps the variants. -/
theorem Describes.keepsBelow {before : Storage plan} (hstate : state.Describes before)
    (hdone : Storage.Completed path before storage) : state.KeepsBelow storage path := by
  intro part hpart hin disc hmem hset variant hvar
  have hallows := (hstate.paths part hpart).variant disc hmem
  cases hbefore : before.variant part with
  | none =>
    rw [hbefore] at hallows
    exact absurd hallows hset
  | some selected =>
    have hkept := hdone.kept part selected hin hbefore
    rw [hbefore] at hallows
    rw [Option.some.inj (hvar.symm.trans hkept)]
    exact hallows

omit hvalid in
theorem initialized_of_must (hmust : (state.pathState path).must) :
    state.pathInitialization path = .initialized :=
  if_pos (of_decide_eq_true hmust)

end MoveState

/-! ## What keeps the flags in step -/

namespace FlagView

variable {view next : FlagView} {state after : MoveState plan} {before storage : Storage plan}

theorem Synced.weaken {strong weak : MoveState plan} (hsync : view.Synced strong storage)
    (hweaker : weak.WeakerThan strong) : view.Synced weak storage := by
  intro path hpath hflagged hexposed
  apply hsync path hpath hflagged
  intro above habove hbelow hne hfull hamb
  obtain ⟨known, hknown, hseveral⟩ := hamb
  obtain ⟨slot, hslot, rfl⟩ := Option.map_eq_some_iff.mp hknown
  refine hexposed above habove hbelow hne hfull ⟨weak.discriminants slot, ?_, ?_⟩
  · exact Option.map_eq_some_iff.mpr ⟨slot, hslot, rfl⟩
  · exact hseveral.trans_le (card_le_card (hweaker.possibleVariants slot))

theorem synced_start (hclear : ∀ path, view.value path = false) :
    view.Synced state (.start plan) := by
  intro path _ _ _
  rw [hclear path]
  exact Storage.inStep_false fun hrule hfull =>
    absurd ((full_explicit hrule).mp hfull) (notMem_empty path)

/-- Flags outside a touched region stay in step, when no enum in the region above them hides
them. -/
theorem Synced.frame (hsync : view.Synced state before) (touched : MovePathId → Prop)
    (hflagged : next.flagged = view.flagged)
    (hfull : ∀ path < plan.movePaths.length, ¬ touched path →
      (storage.Full path ↔ before.Full path))
    (hknown : ∀ path < plan.movePaths.length, ¬ touched path →
      after.discriminant path = state.discriminant path)
    (hval : ∀ path < plan.movePaths.length, ¬ touched path → view.flagged path →
      next.value path = view.value path)
    (hclear : ∀ path < plan.movePaths.length, ¬ touched path → ∀ above < plan.movePaths.length,
      plan.Below above path → above ≠ path → touched above → ¬ state.Ambiguous above)
    {path : MovePathId} (hpath : plan.Has path) (hout : ¬ touched path)
    (hflag : next.flagged path) (hexposed : next.Exposed after storage path) :
    storage.InStep path (next.value path) := by
  rw [hflagged] at hflag
  rw [hval path hpath hout hflag]
  refine (hsync path hpath hflag fun above habove hbelow hne hcomplete hamb => ?_).congr
    (hfull path hpath hout)
  have hout' : ¬ touched above := fun hin => hclear path hpath hout above habove hbelow hne hin hamb
  have hamb' : after.Ambiguous above := by
    rw [MoveState.Ambiguous, hknown above habove hout']
    exact hamb
  obtain ⟨hflag', hclear'⟩ :=
    hexposed above habove hbelow hne ((hfull above habove hout').mpr hcomplete) hamb'
  rw [hflagged] at hflag'
  rw [hval above habove hout' hflag'] at hclear'
  exact ⟨hflag', hclear'⟩

theorem Synced.clearLocal (hvalid : plan.PathsValid) (hsync : view.Synced state before)
    {localId : LocalId} (hflagged : next.flagged = view.flagged)
    (hknown : ∀ path < plan.movePaths.length, (plan.place path).localId ≠ localId →
      after.discriminant path = state.discriminant path)
    (hinit : storage.init = (before.clearLocal localId).init)
    (hvar : storage.variant = (before.clearLocal localId).variant)
    (hval : ∀ path < plan.movePaths.length, view.flagged path →
      next.value path = if (plan.place path).localId = localId then false else view.value path) :
    next.Synced after storage := by
  intro path hpath hflag hexposed
  by_cases hlocal : (plan.place path).localId = localId
  · rw [hval path hpath (hflagged ▸ hflag), if_pos hlocal]
    apply Storage.inStep_false
    intro hrule hfull
    have hin := (full_explicit hrule).mp hfull
    rw [hinit] at hin
    exact ((before.mem_init_erase).mp hin).2 hlocal
  · have hsame (part : MovePathId) (hout : (plan.place part).localId ≠ localId) :
        (part ∈ storage.init ↔ part ∈ before.init) ∧
          storage.variant part = before.variant part := by
      rw [hinit, hvar]
      exact before.erase_of_not hout
    refine hsync.frame (fun path => (plan.place path).localId = localId) hflagged
      (fun path hpath hout => ⟨fun hfull => ?_, fun hfull => ?_⟩) hknown
      (fun path hpath hout hflag => (hval path hpath hflag).trans (if_neg hout))
      (fun path _ hout above _ hbelow _ hin => absurd (hbelow.1.symm.trans hin) hout)
      hpath hlocal hflag hexposed
    · refine hfull.congr hvalid hpath fun part _ hbelow => ?_
      obtain ⟨hinit, hvar⟩ := hsame part fun hin => hout (hbelow.1.trans hin)
      exact ⟨hinit.symm, hvar.symm⟩
    · exact hfull.congr hvalid hpath fun part _ hbelow =>
        hsame part fun hin => hout (hbelow.1.trans hin)

/-- The paths whose flags an operation on a path affects. -/
def Affects (plan : CleanupPlan) (path other : MovePathId) : Prop :=
  plan.Below path other ∨ plan.Below other path

instance (path other : MovePathId) : Decidable (Affects plan path other) :=
  inferInstanceAs (Decidable (_ ∨ _))

section Paths

variable {path : MovePathId} (hvalid : plan.PathsValid) (hpath : path < plan.movePaths.length)

include hvalid hpath

/-- Flags away from a path whose variants are known are not affected. -/
theorem Synced.frame_of_apart (hsync : view.Synced state before) (hactive : state.KnownActive path)
    (hflagged : next.flagged = view.flagged)
    (hsame : ∀ other, ¬ plan.Below path other →
      (other ∈ storage.init ↔ other ∈ before.init) ∧ storage.variant other = before.variant other)
    (hknown : ∀ other < plan.movePaths.length, ¬ plan.Below path other →
      after.discriminant other = state.discriminant other)
    (hval : ∀ other < plan.movePaths.length, ¬ Affects plan path other →
      next.value other = view.value other)
    {other : MovePathId} (hother : plan.Has other)
    (hout : ¬ Affects plan path other) (hflag : next.flagged other)
    (hexposed : next.Exposed after storage other) : storage.InStep other (next.value other) := by
  refine hsync.frame (Affects plan path) hflagged (fun other hother hout => ?_)
    (fun other hother hout => hknown other hother (not_or.mp hout).1)
    (fun other hother hout _ => hval other hother hout)
    (fun other hother hout above habove hbelow hne hin => ?_) hother hout hflag hexposed
  · obtain ⟨hdown, hup⟩ := not_or.mp hout
    exact full_congr_of_apart hvalid hother hsame hdown hup
  · rcases hin with hdown | hup
    · exact absurd (.inl (below_trans hdown hbelow)) hout
    · refine hactive.not_ambiguous hvalid hpath habove hup ?_
      rintro rfl
      exact hout (.inl hbelow)

omit hpath in
theorem not_explicit_of_below {other : MovePathId} (hother : plan.Has other)
    (hpath : plan.Has path) (hbelow : plan.Below other path) (hne : path ≠ other) :
    plan.completion other ≠ .explicit := by
  obtain ⟨child, hchild, -⟩ := ((hvalid.below_iff_child hother hpath).mp hbelow).resolve_left hne
  exact Storage.completion_ne_of_child hchild

theorem Synced.clear (hsync : view.Synced state before) (hactive : state.KnownActive path)
    (hflagged : next.flagged = view.flagged)
    (hsame : ∀ other, ¬ plan.Below path other →
      (other ∈ storage.init ↔ other ∈ before.init) ∧ storage.variant other = before.variant other)
    (hgone : ∀ other, plan.Below path other → other ∉ storage.init)
    (hknown : ∀ other < plan.movePaths.length, ¬ plan.Below path other →
      after.discriminant other = state.discriminant other)
    (hval : ∀ other < plan.movePaths.length,
      next.value other = if Affects plan path other then false else view.value other) :
    next.Synced after storage := by
  intro other hother hflag hexposed
  by_cases haffects : Affects plan path other
  · rw [hval other hother, if_pos haffects]
    apply Storage.inStep_false
    intro hrule hfull
    have hin := (full_explicit hrule).mp hfull
    by_cases hbelow : plan.Below path other
    · exact hgone other hbelow hin
    · refine not_explicit_of_below hvalid hother hpath (haffects.resolve_left hbelow) ?_ hrule
      rintro rfl
      exact hbelow (below_refl path)
  · exact hsync.frame_of_apart hvalid hpath hactive hflagged hsame hknown
      (fun other hother hout => (hval other hother).trans (if_neg hout)) hother haffects hflag
      hexposed

/-- Completing a path sets the flags of what is certainly complete. The flags of variants that
the value does not select have to be clear before. -/
theorem Synced.install (hsync : view.Synced state before) (hactive : state.KnownActive path)
    {ready : MoveState plan} {cleared : Storage plan} (hready : ready.Describes cleared)
    (hflagged : next.flagged = view.flagged)
    (hsame : ∀ other, ¬ plan.Below path other →
      (other ∈ cleared.init ↔ other ∈ before.init) ∧ cleared.variant other = before.variant other)
    (hknown : ∀ other < plan.movePaths.length, ¬ plan.Below path other →
      ready.discriminant other = state.discriminant other)
    (hdone : Storage.Completed path cleared storage)
    (hval : ∀ other < plan.movePaths.length, next.value other = if Affects plan path other ∧
        (ready.initializePath path).pathInitialization other = .initialized then true
      else view.value other)
    (hstale : ∀ above < plan.movePaths.length, plan.Below path above →
      ∀ variant child, (variant, child) ∈ plan.variantChildren above →
        ∀ known, ready.discriminant above = some known → ¬ known.mayBeUnset →
          variant ∉ known.possibleVariants →
          (∀ other < plan.movePaths.length, plan.Below path other → plan.Below other above →
            ¬ ready.Ambiguous other) →
          ∀ other < plan.movePaths.length, plan.Below child other → view.flagged other →
            view.value other = false) :
    next.Synced (ready.initializePath path) storage := by
  have hactive' : ready.KnownActive path := hactive.congr fun enumRoot child hchild hin =>
    hknown enumRoot (hvalid.parent_spec (hvalid.mem_children.mp hchild)).1
      (hvalid.not_below_parent hchild hin)
  have hstate := hready.initializePath hvalid hpath hactive' hdone
  have houtside (other : MovePathId) (hout : ¬ plan.Below path other) :
      (other ∈ storage.init ↔ other ∈ before.init) ∧
        storage.variant other = before.variant other := by
    obtain ⟨hinit, hvar⟩ := hsame other hout
    obtain ⟨hinit', hvar'⟩ := hdone.outside other hout
    exact ⟨hinit'.trans hinit, hvar'.trans hvar⟩
  intro other hother hflag hexposed
  by_cases hset : Affects plan path other ∧
      (ready.initializePath path).pathInitialization other = .initialized
  · rw [hval other hother, if_pos hset]
    exact Storage.inStep_true (hstate.full hother hset.2)
  by_cases hbelow : plan.Below path other
  · have hbelowState {part : MovePathId} (hin : plan.Below path part) :
        (ready.initializePath path).pathState part =
          (MoveState.markWhole plan.height path .must ready).pathState part :=
      MoveState.pathState_initializePath hvalid hpath hin
    have hcertain {part : MovePathId} (hin : plan.Below path part)
        (hmust : ((MoveState.markWhole plan.height path .must ready).pathState part).must) :
        Affects plan path part ∧
          (ready.initializePath path).pathInitialization part = .initialized :=
      ⟨.inl hin, MoveState.initialized_of_must (hbelowState hin ▸ hmust)⟩
    cases MoveState.markWhole_fate hvalid (hvalid.fits hpath) hpath hdone.consistent hdone.full
      (hready.keepsBelow hdone) hother hbelow with
    | certain hmust => exact absurd (hcertain hbelow hmust) hset
    | @hidden above known habove hdown hin hne hfull hmust hknown hseveral =>
      -- the flag of the enum is set, so the payload is not exposed
      have hamb : (ready.initializePath path).Ambiguous above := by
        refine ⟨known, ?_, hseveral⟩
        rw [← hknown, ← hbelowState hdown]
        rfl
      have hclear := (hexposed above habove hin hne hfull hamb).2
      rw [hval above habove, if_pos (hcertain hdown hmust)] at hclear
      exact absurd hclear (by simp)
    | @ruledOut above child variant known habove hdown hentry hin hknown hunset hout hempty hsingle =>
      rw [hval other hother, if_neg hset]
      rw [hstale above habove hdown variant child hentry known hknown hunset hout ?_ other hother
        hin (hflagged ▸ hflag)]
      · exact Storage.inStep_false fun hrule hfull =>
          (hempty other hother hin).1 ((full_explicit hrule).mp hfull)
      · rintro third hthird hup hup' ⟨known, hknown, hseveral⟩
        exact absurd hseveral (Nat.not_lt_of_le (hsingle third hthird hup hup' known hknown))
  by_cases habove : plan.Below other path
  · -- a path above stays complete if it was
    rw [hval other hother, if_neg hset]
    have hne : path ≠ other := fun heq => hbelow (heq ▸ below_refl path)
    have hbefore := hsync other hother (hflagged ▸ hflag) fun above hlt hup hne' _ hamb =>
      absurd hamb (hactive.not_ambiguous hvalid hpath hlt (below_trans hup habove) fun heq =>
        hne' (hvalid.below_antisymm hlt hother hup (heq ▸ habove)))
    refine ⟨fun hflag => ?_, fun hrule =>
      absurd hrule (not_explicit_of_below hvalid hother hpath habove hne)⟩
    exact (hbefore.full hflag).of_completed hvalid hother hpath habove hdone.full
      fun part _ _ hout => houtside part hout
  · refine hsync.frame_of_apart hvalid hpath hactive hflagged houtside (fun other hother hout => ?_)
      (fun other hother hout => (hval other hother).trans (if_neg fun hset => hout hset.1))
      hother (not_or.mpr ⟨hbelow, habove⟩) hflag hexposed
    rw [MoveState.discriminant_initializePath hvalid hpath hother hout, hknown other hother hout]

end Paths

end FlagView

end Salicin.Cleanup
