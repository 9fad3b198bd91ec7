import Salicin.Cleanup.BoundedStates
import Salicin.Cleanup.VerifierSoundness

/-!
# Operations are monotone on checked states

A state that knows less stays one that knows less through every operation that its checks pass.
Of states in general this is not so: an enum path is recomposed only while its variant is known,
so a state that knows the variant could find the enum complete where the other finds nothing. The
checks require the variants around a path to be known to the state that knows less.
-/

namespace Salicin.Cleanup

open Finset List PreorderIntervals

open CleanupPlan.PathsValid (below_refl below_trans lt_of_parent)

variable {plan : CleanupPlan}

/-! ## What is known about one path -/

/-- A discriminant that may be more. -/
structure DiscriminantState.Wider (wide known : DiscriminantState) : Prop where
  mayBeUnset : known.mayBeUnset = true → wide.mayBeUnset = true
  possibleVariants : known.possibleVariants ⊆ wide.possibleVariants

/-- Less is known about the path. -/
structure PathState.Weaker (weak strong : PathState) : Prop where
  may : strong.may = true → weak.may = true
  must : weak.must = true → strong.must = true
  discriminant : ∀ known ∈ strong.discriminant, ∀ wide ∈ weak.discriminant, wide.Wider known

theorem DiscriminantState.Wider.refl (known : DiscriminantState) : known.Wider known :=
  ⟨id, subset_rfl⟩

variable {path : MovePathId}

namespace PathState.Weaker

variable {weak strong : PathState}

theorem refl (known : PathState) : known.Weaker known where
  may := id
  must := id
  discriminant first hfst second hsnd := by
    cases hfst.symm.trans hsnd
    exact .refl first

theorem incomplete (hweaker : weak.Weaker strong) : weak.incomplete.Weaker strong.incomplete where
  may := id
  must := id
  discriminant := hweaker.discriminant

/-- Nothing is complete in the part, and nothing is known to be selected. -/
theorem of_cleared (hmust : weak.must = false)
    (hunset : ∀ wide ∈ weak.discriminant, wide.mayBeUnset = true) :
    weak.Weaker (MoveState.clearedPath plan path) where
  may hmay := absurd hmay Bool.false_ne_true
  must hmust' := absurd (hmust.symm.trans hmust') Bool.false_ne_true
  discriminant known hknown wide hwide := by
    obtain ⟨slot, -, rfl⟩ := Option.map_eq_some_iff.mp hknown
    exact ⟨fun _ => hunset wide hwide, empty_subset _⟩

end PathState.Weaker

namespace MoveState

/-- Less is known about every path of the plan. -/
def Under (weak strong : MoveState plan) : Prop :=
  ∀ path < plan.movePaths.length, (weak.pathState path).Weaker (strong.pathState path)

/-! ## Marking -/

variable {certainty certainty' : InitializationCertainty}

/-- A marking that is less certain of a discriminant that may be more leaves it so. -/
theorem wider_markDiscriminant {wide known : DiscriminantState} (hwider : wide.Wider known)
    (names : List Nat) (hcertain : certainty = .must → certainty' = .must) :
    (markDiscriminant certainty names wide).Wider (markDiscriminant certainty' names known) := by
  have hall : known.possibleVariants ∪ names.toFinset ⊆ wide.possibleVariants ∪ names.toFinset :=
    union_subset_union hwider.possibleVariants subset_rfl
  cases certainty' with
  | may =>
    cases certainty with
    | may => exact ⟨id, hall⟩
    | must => cases hcertain rfl
  | must =>
    have hmarked : (markDiscriminant .must names known).possibleVariants ⊆
        known.possibleVariants ∪ names.toFinset := by
      rw [markDiscriminant]
      dsimp only
      split_ifs
      · exact subset_rfl
      · exact subset_union_left
    refine ⟨fun hunset => absurd hunset Bool.false_ne_true, ?_⟩
    cases certainty with
    | may => exact hmarked.trans hall
    | must =>
      rw [markDiscriminant, markDiscriminant]
      dsimp only
      split_ifs with hknown hwide
      · exact hall
      · exact absurd (hwider.mayBeUnset hknown) hwide
      · exact hwider.possibleVariants.trans subset_union_left
      · exact hwider.possibleVariants

variable {entries : List (Nat × MovePathId)}

section
variable (hvalid : plan.PathsValid)
include hvalid

/-- Marked as perhaps complete, a path and its parts are certain of nothing. -/
theorem uncertain_markWhole {bound : Nat} (state : MoveState plan)
    (hfits : Fits plan.children bound path) (hpath : plan.Has path) :
    ∀ part < plan.movePaths.length, plan.Below path part →
      ((markWhole bound path .may state).pathState part).must = false ∧
        ∀ wide ∈ ((markWhole bound path .may state).pathState part).discriminant,
          wide.mayBeUnset = true := by
  induction bound generalizing path state with
  | zero => exact hfits.elim
  | succ bound ih =>
    intro part hpart hbelow
    rcases (hvalid.below_iff_child hpath hpart).mp hbelow with rfl | ⟨child, hchild, hdown⟩
    · rw [pathState_markWhole_self hvalid hfits hpath]
      refine ⟨rfl, fun wide hwide => ?_⟩
      obtain ⟨known, -, rfl⟩ := Option.map_eq_some_iff.mp hwide
      rfl
    · have hin := lt_of_parent (hvalid.mem_children.mp hchild)
      cases hrule : plan.completion path with
      | explicit =>
        rw [CleanupPlan.PathsValid.children_of_explicit hrule] at hchild
        exact absurd hchild not_mem_nil
      | allChildren =>
        obtain ⟨before, hbefore⟩ :=
          exists_markWhole_of_allChildren hvalid bound .may state hrule hchild
        rw [(hbefore part hpart hdown).2]
        exact ih before (hfits child hchild) hin part hpart hdown
      | enumRoot variants =>
        obtain ⟨variant, hentry⟩ := hvalid.exists_variant hrule hchild
        by_cases hpossible : variant ∈ state.possibleAfter path .may
        · obtain ⟨before, hbefore⟩ :=
            exists_markWhole_of_possible hvalid bound hrule hentry hpossible
          rw [(hbefore part hpart hdown).2]
          exact ih before (hfits child hchild) hin part hpart hdown
        · rw [pathState_markWhole_of_impossible hvalid bound hrule hentry hpossible hpart hdown]
          refine ⟨rfl, fun wide hwide => ?_⟩
          obtain ⟨slot, -, rfl⟩ := Option.map_eq_some_iff.mp hwide
          rfl

variable {locals variants : Finset Nat} {strong weak : MoveState plan}

omit hvalid in
theorem weaker_markedPath (hweaker : (weak.pathState path).Weaker (strong.pathState path))
    (hcertain : certainty = .must → certainty' = .must) :
    (weak.markedPath path certainty).Weaker (strong.markedPath path certainty') where
  may := id
  must hmust := decide_eq_true (hcertain (of_decide_eq_true hmust))
  discriminant known hknown wide hwide := by
    obtain ⟨old, hold, rfl⟩ := Option.map_eq_some_iff.mp hknown
    obtain ⟨old', hold', rfl⟩ := Option.map_eq_some_iff.mp hwide
    exact wider_markDiscriminant (hweaker.discriminant old hold old' hold') _ hcertain

theorem possibleAfter_nonempty {state : MoveState plan}
    (hstate : ∀ known ∈ state.discriminant path, known.Bounded variants)
    (hpath : plan.Has path) (hrule : plan.completion path = .enumRoot entries)
    (certainty : InitializationCertainty) :
    (state.possibleAfter path certainty).Nonempty := by
  obtain ⟨known, hknown⟩ := discriminant_isSome state hpath hrule
  have hnames : ((plan.variantChildren path).map (·.1)).toFinset.Nonempty := by
    rw [CleanupPlan.PathsValid.variants_eq hrule]
    exact (toFinset_nonempty_iff _).mpr (hvalid.variants_ne_nil hrule)
  rw [possibleAfter_eq hknown]
  cases certainty with
  | may => exact hnames.mono subset_union_right
  | must =>
    rw [markDiscriminant]
    dsimp only
    split_ifs with hunset
    · exact hnames.mono subset_union_right
    · exact (hstate known hknown).selected.resolve_left hunset

omit hvalid in
/-- The variants that stay possible are more where less is known. -/
theorem possibleAfter_subset (hweaker : (weak.pathState path).Weaker (strong.pathState path))
    (hpath : plan.Has path) (hrule : plan.completion path = .enumRoot entries)
    (hcertain : certainty = .must → certainty' = .must) :
    strong.possibleAfter path certainty' ⊆ weak.possibleAfter path certainty := by
  obtain ⟨known, hknown⟩ := discriminant_isSome strong hpath hrule
  obtain ⟨wide, hwide⟩ := discriminant_isSome weak hpath hrule
  rw [possibleAfter_eq hknown, possibleAfter_eq hwide]
  exact (wider_markDiscriminant (hweaker.discriminant known hknown wide hwide) _
    hcertain).possibleVariants

omit hvalid in
/-- A child that is certain where less is known is certain where more is known. -/
theorem childCertainty_must {wide known : Finset Nat}
    (hcertain : certainty = .must → certainty' = .must) (hsub : known ⊆ wide)
    (hnonempty : known.Nonempty) (hmust : childCertainty certainty wide = .must) :
    childCertainty certainty' known = .must := by
  rw [childCertainty] at hmust ⊢
  split_ifs at hmust with hsingle
  have hcard := card_le_card hsub
  have hpositive := hnonempty.card_pos
  exact if_pos ⟨hcertain hsingle.1, by omega⟩

omit hvalid in
theorem childCertainty_may {possible : Finset Nat} (hmany : possible.card ≠ 1) :
    childCertainty certainty possible = .may :=
  if_neg fun hsingle => hmany hsingle.2

/-- Marking keeps the order below the path, when it marks less certainly where less is known. -/
theorem weaker_markWhole {bound : Nat} (hfits : Fits plan.children bound path)
    (hpath : plan.Has path) (hcertain : certainty = .must → certainty' = .must)
    (hbounded : ∀ part < plan.movePaths.length, plan.Below path part →
      ∀ known ∈ strong.discriminant part, known.Bounded variants)
    (hweaker : ∀ part < plan.movePaths.length, plan.Below path part →
      (weak.pathState part).Weaker (strong.pathState part)) :
    ∀ part < plan.movePaths.length, plan.Below path part →
      ((markWhole bound path certainty weak).pathState part).Weaker
        ((markWhole bound path certainty' strong).pathState part) := by
  induction bound generalizing path certainty certainty' weak strong with
  | zero => exact hfits.elim
  | succ bound ih =>
    intro part hpart hbelow
    rcases (hvalid.below_iff_child hpath hpart).mp hbelow with rfl | ⟨child, hchild, hdown⟩
    · rw [pathState_markWhole_self hvalid hfits hpath, pathState_markWhole_self hvalid hfits hpath]
      exact weaker_markedPath (hweaker part hpart (below_refl part)) hcertain
    · have hin := lt_of_parent (hvalid.mem_children.mp hchild)
      have hlower {other : MovePathId} (hother : plan.Below child other) : plan.Below path other :=
        below_trans (hvalid.below_child hchild) hother
      have hmark {certainty certainty' : InitializationCertainty}
          (hcertain : certainty = .must → certainty' = .must) {before before' : MoveState plan}
          (hbefore : ∀ part < plan.movePaths.length, plan.Below child part →
            before.pathState part = weak.pathState part)
          (hbefore' : ∀ part < plan.movePaths.length, plan.Below child part →
            before'.pathState part = strong.pathState part) :
          ((markWhole bound child certainty before).pathState part).Weaker
            ((markWhole bound child certainty' before').pathState part) := by
        refine ih (hfits child hchild) hin hcertain (fun other hother hdown => ?_)
          (fun other hother hdown => ?_) part hpart hdown
        · have hsame : before'.discriminant other = strong.discriminant other :=
            congrArg PathState.discriminant (hbefore' other hother hdown)
          rw [hsame]
          exact hbounded other hother (hlower hdown)
        · rw [hbefore other hother hdown, hbefore' other hother hdown]
          exact hweaker other hother (hlower hdown)
      cases hrule : plan.completion path with
      | explicit =>
        rw [CleanupPlan.PathsValid.children_of_explicit hrule] at hchild
        exact absurd hchild not_mem_nil
      | allChildren =>
        obtain ⟨before, hbefore⟩ :=
          exists_markWhole_of_allChildren hvalid bound certainty weak hrule hchild
        obtain ⟨before', hbefore'⟩ :=
          exists_markWhole_of_allChildren hvalid bound certainty' strong hrule hchild
        rw [(hbefore part hpart hdown).2, (hbefore' part hpart hdown).2]
        exact hmark hcertain (fun other hother hdown => (hbefore other hother hdown).1)
          fun other hother hdown => (hbefore' other hother hdown).1
      | enumRoot entries =>
        obtain ⟨variant, hentry⟩ := hvalid.exists_variant hrule hchild
        have hsub := possibleAfter_subset (hweaker path hpath (below_refl path)) hpath hrule
          hcertain
        have hnonempty := possibleAfter_nonempty hvalid (hbounded path hpath (below_refl path))
          hpath hrule certainty'
        by_cases hwide : variant ∈ weak.possibleAfter path certainty
        · obtain ⟨before, hbefore⟩ :=
            exists_markWhole_of_possible hvalid bound hrule hentry hwide
          rw [(hbefore part hpart hdown).2]
          by_cases hknown : variant ∈ strong.possibleAfter path certainty'
          · obtain ⟨before', hbefore'⟩ :=
              exists_markWhole_of_possible hvalid bound hrule hentry hknown
            rw [(hbefore' part hpart hdown).2]
            exact hmark (childCertainty_must hcertain hsub hnonempty)
              (fun other hother hdown => (hbefore other hother hdown).1)
              fun other hother hdown => (hbefore' other hother hdown).1
          · -- the variant is possible only where less is known, so it is not certain there
            have huncertain : childCertainty certainty (weak.possibleAfter path certainty) =
                .may := by
              refine childCertainty_may fun hsingle => hknown ?_
              obtain ⟨selected, hsel⟩ := hnonempty
              rwa [card_le_one.mp hsingle.le variant hwide selected (hsub hsel)]
            rw [huncertain, pathState_markWhole_of_impossible hvalid bound hrule hentry hknown
              hpart hdown]
            obtain ⟨hmust, hunset⟩ := uncertain_markWhole hvalid before (hfits child hchild) hin
              part hpart hdown
            exact .of_cleared hmust hunset
        · have hknown : variant ∉ strong.possibleAfter path certainty' := fun h => hwide (hsub h)
          rw [pathState_markWhole_of_impossible hvalid bound hrule hentry hwide hpart hdown,
            pathState_markWhole_of_impossible hvalid bound hrule hentry hknown hpart hdown]
          exact .refl _

end

/-! ## Single operations on paths -/

section
variable {weak strong : MoveState plan} (hunder : weak.Under strong)
include hunder

theorem under_updateDiscriminant (path : MovePathId)
    {update update' : DiscriminantState → DiscriminantState}
    (hupdate : ∀ wide known, weak.discriminant path = some wide →
      strong.discriminant path = some known → (update wide).Wider (update' known)) :
    (weak.updateDiscriminant path update).Under (strong.updateDiscriminant path update') := by
  intro other hother
  rw [pathState_updateDiscriminant, pathState_updateDiscriminant]
  split_ifs with hsame
  · subst hsame
    refine ⟨(hunder other hother).may, (hunder other hother).must, fun known hknown wide hwide => ?_⟩
    obtain ⟨old, hold, rfl⟩ := Option.map_eq_some_iff.mp hknown
    obtain ⟨old', hold', rfl⟩ := Option.map_eq_some_iff.mp hwide
    exact hupdate old' old hold' hold
  · exact hunder other hother

theorem under_clearSubtreeOnly (hvalid : plan.PathsValid) (hpath : plan.Has path) :
    (weak.clearSubtreeOnly path).Under (strong.clearSubtreeOnly path) := by
  intro other hother
  rw [pathState_clearSubtreeOnly hvalid weak hpath hother,
    pathState_clearSubtreeOnly hvalid strong hpath hother]
  split_ifs
  · exact .refl _
  · exact hunder other hother

theorem under_clearPath (hvalid : plan.PathsValid) (hpath : plan.Has path) :
    (weak.clearPath path).Under (strong.clearPath path) := by
  intro other hother
  rw [pathState_clearPath hvalid weak hpath hother, pathState_clearPath hvalid strong hpath hother]
  split_ifs
  · exact .refl _
  · exact (hunder other hother).incomplete
  · exact hunder other hother

theorem under_clearLocalValue (hvalid : plan.PathsValid) (localId : LocalId) :
    (weak.clearLocalValue localId).Under (strong.clearLocalValue localId) := by
  intro other hother
  rw [pathState_clearLocalValue hvalid weak localId hother,
    pathState_clearLocalValue hvalid strong localId hother]
  split_ifs
  · exact .refl _
  · exact hunder other hother

theorem under_markWhole (hvalid : plan.PathsValid) {locals variants : Finset Nat}
    (hstrong : strong.Bounded locals variants) (hpath : plan.Has path)
    (certainty : InitializationCertainty) : (markWhole plan.height path certainty weak).Under
      (markWhole plan.height path certainty strong) := by
  intro other hother
  by_cases hbelow : plan.Below path other
  · have hbounded : ∀ part < plan.movePaths.length, plan.Below path part →
        ∀ known ∈ strong.discriminant part, known.Bounded variants := by
      intro part _ _ known hknown
      obtain ⟨slot, -, rfl⟩ := Option.map_eq_some_iff.mp hknown
      exact hstrong.discriminants slot
    exact weaker_markWhole hvalid (hvalid.fits hpath) hpath id hbounded
      (fun part hpart _ => hunder part hpart) other hother hbelow
  · rw [pathState_markWhole_of_not_below hvalid hpath hother hbelow,
      pathState_markWhole_of_not_below hvalid hpath hother hbelow]
    exact hunder other hother

end

/-! ## Recomposing -/

theorem pathState_level {must may : Prop} [Decidable must] [Decidable may] (state : MoveState plan)
    (path : MovePathId) :
    (if must then state.markInit path .must else if may then state.markInit path .may
      else state.removeInit path).pathState path =
        { state.pathState path with may := decide (must ∨ may), must := decide must } := by
  by_cases hmust : must
  · simp [hmust, pathState_markInit]
  by_cases hmay : may
  · simp [hmust, hmay, pathState_markInit]
  · simp [hmust, hmay, pathState_removeInit, PathState.incomplete]

section
variable {weak strong : MoveState plan} {locals variants : Finset Nat}

theorem mem_children_of_activeChild {state : MoveState plan} {child : MovePathId}
    (hrule : plan.completion path = .enumRoot entries)
    (hchild : state.activeChild path entries = some child) : child ∈ plan.children path := by
  rw [activeChild] at hchild
  split at hchild
  · split_ifs at hchild
    obtain ⟨⟨variant, _⟩, hentry, rfl⟩ := Option.map_eq_some_iff.mp hchild
    exact CleanupPlan.PathsValid.mem_children_of_variants hrule (mem_of_find?_eq_some hentry)
  · cases hchild

/-- The one variant that less knowledge leaves is the one that more knowledge leaves. -/
theorem activeChild_of_weaker {child : MovePathId}
    (hweaker : (weak.pathState path).Weaker (strong.pathState path))
    (hstrong : strong.Bounded locals variants)
    (hchild : weak.activeChild path entries = some child) :
    strong.activeChild path entries = some child := by
  rw [activeChild] at hchild
  split at hchild
  · next wide hwide =>
      obtain ⟨slot, hslot, rfl⟩ := Option.map_eq_some_iff.mp hwide
      have hknown : strong.discriminant path = some (strong.discriminants slot) := by
        rw [discriminant, hslot]
        rfl
      obtain ⟨hunset, hpossible⟩ := hweaker.discriminant _ hknown _ hwide
      split_ifs at hchild with hwideUnset
      obtain ⟨entry, hentry, rfl⟩ := Option.map_eq_some_iff.mp hchild
      have hsingle : (weak.discriminants slot).possibleVariants = {entry.1} := by
        simpa using List.find?_some hentry
      have hset : ¬ (strong.discriminants slot).mayBeUnset = true := fun h => hwideUnset (hunset h)
      have hsame : (strong.discriminants slot).possibleVariants =
          (weak.discriminants slot).possibleVariants := by
        have hsome := (hstrong.discriminants slot).selected.resolve_left hset
        rw [hsingle] at hpossible ⊢
        exact (subset_singleton_iff.mp hpossible).resolve_left hsome.ne_empty
      rw [activeChild, hknown]
      dsimp only
      rw [if_neg hset, hsame, hentry]
      rfl
  · cases hchild

/-- Recomposing keeps the order, if the variant of an enum path is known where less is known. -/
theorem under_recompose (hunder : weak.Under strong) (hvalid : plan.PathsValid)
    (hstrong : strong.Bounded locals variants) (hpath : plan.Has path)
    (hknown : ∀ entries, plan.completion path = .enumRoot entries →
      ∃ child, weak.activeChild path entries = some child) :
    (weak.recompose path).Under (strong.recompose path) := by
  have hchild {child : MovePathId} (hchild : child ∈ plan.children path) :=
    hunder child (lt_of_parent (hvalid.mem_children.mp hchild))
  have hlevel {mustWeak mayWeak mustStrong mayStrong : Prop} [Decidable mustWeak]
      [Decidable mayWeak] [Decidable mustStrong] [Decidable mayStrong]
      (hmust : mustWeak → mustStrong) (hmay : mayStrong → mayWeak)
      (hboth : mustStrong → mayStrong) :
      ((if mustWeak then weak.markInit path .must else if mayWeak then weak.markInit path .may
        else weak.removeInit path).pathState path).Weaker
        ((if mustStrong then strong.markInit path .must
          else if mayStrong then strong.markInit path .may
          else strong.removeInit path).pathState path) := by
    rw [pathState_level, pathState_level]
    refine ⟨fun h => ?_, fun h => ?_, (hunder path hpath).discriminant⟩
    · exact decide_eq_true ((of_decide_eq_true h).elim (fun h => .inr (hmay (hboth h)))
        fun h => .inr (hmay h))
    · exact decide_eq_true (hmust (of_decide_eq_true h))
  intro other hother
  by_cases hsame : other = path
  · subst hsame
    rw [recompose, recompose]
    cases hrule : plan.completion other with
    | explicit => exact hunder other hother
    | allChildren =>
      dsimp only
      apply hlevel
      · intro hall
        rw [all_eq_true] at hall ⊢
        exact fun child hmem => (hchild hmem).must (hall child hmem)
      · intro hall
        rw [all_eq_true] at hall ⊢
        exact fun child hmem => (hchild hmem).may (hall child hmem)
      · intro hall
        rw [all_eq_true] at hall ⊢
        exact fun child hmem =>
          decide_eq_true (hstrong.init (of_decide_eq_true (hall child hmem)))
    | enumRoot entries =>
      obtain ⟨child, hweak⟩ := hknown entries hrule
      have hactive := activeChild_of_weaker (hunder other hother) hstrong hweak
      dsimp only
      rw [hweak, hactive]
      have hlisted := mem_children_of_activeChild hrule hweak
      apply hlevel
      · exact fun hmem => of_decide_eq_true ((hchild hlisted).must (decide_eq_true hmem))
      · exact fun hmem => of_decide_eq_true ((hchild hlisted).may (decide_eq_true hmem))
      · exact fun hmem => hstrong.init hmem
  · rw [pathState_recompose_of_ne weak hsame, pathState_recompose_of_ne strong hsame]
    exact hunder other hother

/-- A path whose variants are known has an active child in every enum path above it. -/
theorem exists_activeChild (hvalid : plan.PathsValid) {above : MovePathId}
    (hactive : weak.KnownActive path) (hpath : plan.Has path)
    (habove : above ∈ plan.ancestors path) (hrule : plan.completion above = .enumRoot entries) :
    ∃ child, weak.activeChild above entries = some child := by
  obtain ⟨hlt, hbelow, hne⟩ := (hvalid.mem_ancestors hpath).mp habove
  obtain ⟨child, hchild, hdown⟩ :=
    ((hvalid.below_iff_child hlt hpath).mp hbelow).resolve_left hne.symm
  obtain ⟨variant, hentry⟩ := hvalid.exists_variant hrule hchild
  rw [← CleanupPlan.PathsValid.variants_eq hrule] at hentry ⊢
  have hknown := hactive above child variant hchild hdown
    (CleanupPlan.PathsValid.mem_variantChildren.mp hentry).2
  exact ⟨child, activeChild_eq hvalid hknown hentry⟩

theorem activeChild_recompose (state : MoveState plan) (path other : MovePathId)
    (entries : List (Nat × MovePathId)) :
    (state.recompose path).activeChild other entries = state.activeChild other entries := by
  rw [activeChild, activeChild, discriminant, discriminant, discriminants_recompose]

theorem under_foldl_recompose (hvalid : plan.PathsValid) {paths : List MovePathId}
    (hpaths : ∀ path ∈ paths, plan.Has path) (hunder : weak.Under strong)
    (hstrong : strong.Bounded locals variants)
    (hknown : ∀ path ∈ paths, ∀ entries, plan.completion path = .enumRoot entries →
      ∃ child, weak.activeChild path entries = some child) :
    (paths.foldl recompose weak).Under (paths.foldl recompose strong) := by
  induction paths generalizing weak strong with
  | nil => exact hunder
  | cons head rest ih =>
    have hhead := hpaths head mem_cons_self
    refine ih (fun path hpath => hpaths path (mem_cons_of_mem head hpath))
      (under_recompose hunder hvalid hstrong hhead (hknown head mem_cons_self))
      (hstrong.recompose hhead) fun path hpath entries hrule => ?_
    rw [activeChild_recompose]
    exact hknown path (mem_cons_of_mem head hpath) entries hrule

/-- Initializing a path keeps the order, if its variants are known where less is known. -/
theorem under_initializePath (hvalid : plan.PathsValid) (hvars : plan.VariantsWithin variants)
    (hunder : weak.Under strong) (hstrong : strong.Bounded locals variants)
    (hpath : plan.Has path) (hactive : weak.KnownActive path) :
    (weak.initializePath path).Under (strong.initializePath path) := by
  refine under_foldl_recompose hvalid
    (fun above habove => ((hvalid.mem_ancestors hpath).mp habove).1)
    (under_markWhole hunder hvalid hstrong hpath .must)
    (hstrong.markWhole hvalid hvars hpath .must) fun above habove entries hrule => ?_
  refine exists_activeChild hvalid (hactive.congr fun enumRoot child hchild hbelow => ?_) hpath
    habove hrule
  have hparent := (hvalid.parent_spec (hvalid.mem_children.mp hchild)).1
  have hout := hvalid.not_below_parent hchild hbelow
  exact congrArg PathState.discriminant
    (pathState_markWhole_of_not_below hvalid hpath hparent hout .must weak)

/-! ## Operations -/

theorem under_transfer (hvalid : plan.PathsValid) (hvars : plan.VariantsWithin variants)
    (hunder : weak.Under strong) (hstrong : strong.Bounded locals variants)
    {src dest : MovePathId} (hsrc : plan.Has src)
    (hdest : plan.Has dest)
    (hactive : weak.KnownActive dest) (hapart : ¬ plan.Below src dest) :
    (weak.transfer src dest).Under (strong.transfer src dest) := by
  have hcleared := under_clearPath (under_clearPath hunder hvalid hsrc) hvalid hdest
  have hmoved : (weak.moved src dest).Under (strong.moved src dest) := by
    have hknown := (hunder src hsrc).discriminant
    change ∀ known ∈ strong.discriminant src, ∀ wide ∈ weak.discriminant src, _ at hknown
    rw [moved, moved]
    rw [discriminant, discriminant] at hknown ⊢
    cases hslot : plan.discriminantIndex src with
    | none => exact hcleared
    | some slot =>
      rw [hslot] at hknown
      exact under_updateDiscriminant hcleared dest
        fun _ _ _ _ => hknown _ rfl _ rfl
  exact under_initializePath hvalid hvars hmoved (hstrong.moved src dest)
    hdest (KnownActive.moved hvalid hsrc hdest hactive hapart)

theorem under_foldl {α : Type*} {change : MoveState plan → α → MoveState plan} {items : List α}
    (hchange : ∀ item ∈ items, ∀ weak strong : MoveState plan, weak.Under strong →
      strong.Bounded locals variants →
        (change weak item).Under (change strong item) ∧ (change strong item).Bounded locals variants)
    (hunder : weak.Under strong) (hstrong : strong.Bounded locals variants) :
    (items.foldl change weak).Under (items.foldl change strong) := by
  induction items generalizing weak strong with
  | nil => exact hunder
  | cons head rest ih =>
    obtain ⟨hhead, hbounded⟩ := hchange head mem_cons_self weak strong hunder hstrong
    exact ih (fun item hitem => hchange item (mem_cons_of_mem head hitem)) hhead hbounded

theorem under_assumeDiscriminant (hvalid : plan.PathsValid)
    (hvars : plan.VariantsWithin variants) (hunder : weak.Under strong)
    (hstrong : strong.Bounded locals variants) {variant : Nat} (hvar : variant ∈ variants)
    (src : MovePathId) :
    (weak.assumeDiscriminant src variant).Under (strong.assumeDiscriminant src variant) := by
  have hknown := under_updateDiscriminant hunder src
    fun _ _ _ _ => DiscriminantState.Wider.refl (.known variant)
  have hbounded := hstrong.updateDiscriminant src
    fun _ _ => DiscriminantState.Bounded.known hvar
  rw [assumeDiscriminant, assumeDiscriminant]
  cases hrule : plan.completion src with
  | explicit | allChildren => exact hknown
  | enumRoot entries =>
    refine under_foldl (fun entry hentry weak strong hunder hstrong => ?_) hknown hbounded
    have hchild := lt_of_parent (hvalid.mem_children.mp
      (CleanupPlan.PathsValid.mem_children_of_variants hrule hentry))
    split_ifs
    · exact ⟨under_markWhole hunder hvalid hstrong hchild .must,
        hstrong.markWhole hvalid hvars hchild .must⟩
    · exact ⟨under_clearSubtreeOnly hunder hvalid hchild, hstrong.clearSubtreeOnly _⟩

theorem under_applyOperation (hvalid : plan.PathsValid) (hvars : plan.VariantsWithin variants)
    (hunder : weak.Under strong) (hstrong : strong.Bounded locals variants)
    {op : CleanupOp} (hop : plan.OperationValid op)
    (hwithin : op.Within locals variants) (hactive : weak.KnowsActive op) :
    (weak.applyOperation op).Under (strong.applyOperation op) := by
  cases op with
  | storageLive localId => exact under_clearLocalValue hunder hvalid localId
  | storageDead localId => exact under_clearLocalValue hunder hvalid localId
  | init path => exact under_initializePath hvalid hvars hunder hstrong hop hactive
  | moveOut path => exact under_clearPath hunder hvalid hop
  | overwrite path =>
    exact under_initializePath hvalid hvars (under_clearPath hunder hvalid hop)
      (hstrong.clearPath path) hop (hactive.clearPath hvalid hop fun _ => rfl)
  | transfer src dest kind =>
    exact under_transfer hvalid hvars hunder hstrong hop.1 hop.2.1 hactive.2
      hop.2.2.1
  | setDiscriminant dest variant =>
    exact under_updateDiscriminant (under_clearPath hunder hvalid hop) dest
      fun _ _ _ _ => .refl _
  | assumeDiscriminant src variant =>
    exact under_assumeDiscriminant hvalid hvars hunder hstrong hwithin src

end

end MoveState

end Salicin.Cleanup
