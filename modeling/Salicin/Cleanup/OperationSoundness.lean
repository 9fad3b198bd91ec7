import Salicin.Cleanup.StateSoundness

/-!
# Operations keep move states right

A move state that describes the storage before an operation describes the storage after it
once the operation is applied to both, as long as the operation's path projects through
variants that are known to be selected.
-/

namespace Salicin.Cleanup

open Finset List Storage

variable {plan : CleanupPlan} {state : MoveState plan} {storage before after : Storage plan}
  {path : MovePathId}

namespace CleanupPlan.PathsValid

theorem not_below_parent (hvalid : plan.PathsValid) {parent child : MovePathId}
    (hchild : child ∈ plan.children parent) (hbelow : plan.Below child path) :
    ¬ plan.Below path parent :=
  fun hup => hvalid.not_below_child hchild (below_trans hbelow hup)

end CleanupPlan.PathsValid

open CleanupPlan.PathsValid (below_refl below_trans lt_of_parent)

namespace Storage

theorem Active.congr (hactive : before.Active path)
    (hsame : ∀ enumRoot child, child ∈ plan.children enumRoot → plan.Below child path →
      after.variant enumRoot = before.variant enumRoot) : after.Active path := by
  intro enumRoot child variant hchild hbelow hdowncast
  rw [hsame enumRoot child hchild hbelow]
  exact hactive enumRoot child variant hchild hbelow hdowncast

/-- Storage that differs below one path only has the same complete paths elsewhere. -/
theorem full_congr_of_apart (hvalid : plan.PathsValid) {other : MovePathId}
    (hother : plan.Has other)
    (hsame : ∀ part, ¬ plan.Below path part →
      (part ∈ after.init ↔ part ∈ before.init) ∧ after.variant part = before.variant part)
    (hbelow : ¬ plan.Below path other) (habove : ¬ plan.Below other path) :
    after.Full other ↔ before.Full other := by
  have hout (part : MovePathId) (hpart : plan.Below other part) : ¬ plan.Below path part :=
    fun hin => (CleanupPlan.PathsValid.below_or_below hin hpart).elim hbelow habove
  constructor
  · intro hfull
    refine hfull.congr hvalid hother fun part _ hpart => ?_
    obtain ⟨hinit, hvar⟩ := hsame part (hout part hpart)
    exact ⟨hinit.symm, hvar.symm⟩
  · exact fun hfull => hfull.congr hvalid hother fun part _ hpart => hsame part (hout part hpart)

end Storage

namespace MoveState

variable (hvalid : plan.PathsValid)

/-- The check for inactive variants finds those that are not known to be selected. -/
theorem knownActive_of_inactiveDowncast (hvalid : plan.PathsValid)
    (hpath : plan.Has path) (hnone : state.inactiveDowncast path = none) :
    state.KnownActive path := by
  intro enumRoot child variant hchild hbelow hdowncast
  have hparent := hvalid.mem_children.mp hchild
  have hlisted : child ∈ path :: plan.ancestors path := by
    by_cases hsame : child = path
    · exact hsame ▸ mem_cons_self
    · exact mem_cons_of_mem _ ((hvalid.mem_ancestors hpath).mpr
        ⟨lt_of_parent hparent, hbelow, hsame⟩)
  have hchecked := findSome?_eq_none_iff.mp hnone child hlisted
  rw [inactiveDowncastAt, hdowncast, hparent] at hchecked
  dsimp only at hchecked
  split at hchecked
  · next known hknown =>
      split_ifs at hchecked with hbad
      rw [not_or, Bool.not_eq_true, ne_eq, not_not] at hbad
      rw [hknown]
      obtain ⟨unset, possible⟩ := known
      obtain ⟨rfl, rfl⟩ := hbad
      rfl
  · exact absurd hchecked (by simp)

theorem KnownActive.of_below {part : MovePathId} (hactive : state.KnownActive part)
    (hbelow : plan.Below path part) : state.KnownActive path :=
  fun enumRoot child variant hchild hin hdowncast =>
    hactive enumRoot child variant hchild (below_trans hin hbelow) hdowncast

theorem KnownActive.congr {next : MoveState plan} (hactive : state.KnownActive path)
    (hsame : ∀ enumRoot child, child ∈ plan.children enumRoot → plan.Below child path →
      next.discriminant enumRoot = state.discriminant enumRoot) : next.KnownActive path := by
  intro enumRoot child variant hchild hbelow hdowncast
  rw [hsame enumRoot child hchild hbelow]
  exact hactive enumRoot child variant hchild hbelow hdowncast

include hvalid

/-- Clearing keeps the variants above the paths that are not cleared. -/
theorem KnownActive.clearPath {cleared : MovePathId} (hactive : state.KnownActive path)
    (hcleared : plan.Has cleared)
    (hapart : plan.Below cleared path → cleared = path) :
    (state.clearPath cleared).KnownActive path := by
  refine hactive.congr fun enumRoot child hchild hbelow => ?_
  have hparent := (hvalid.parent_spec (hvalid.mem_children.mp hchild)).1
  have hout : ¬ plan.Below cleared enumRoot := by
    intro hin
    have hdown := below_trans hin (below_trans (hvalid.below_child hchild) hbelow)
    exact hvalid.not_below_parent hchild hbelow (hapart hdown ▸ hin)
  change ((state.clearPath cleared).pathState enumRoot).discriminant = _
  rw [pathState_clearPath hvalid state hcleared hparent, if_neg hout]
  split_ifs <;> rfl

/-! ## Clearing -/

theorem Describes.clearPath (hstate : state.Describes storage)
    (hpath : plan.Has path) (hactive : state.KnownActive path) :
    (state.clearPath path).Describes (storage.clearPath path) := by
  refine hstate.storage_congr (storage_clearPath _ _) rfl fun other hother => ?_
  have hempty := storage.clearPath_empty path
  rw [pathState_clearPath hvalid state hpath hother]
  split_ifs with hbelow habove
  · exact PathState.describes_cleared
      (fun hfull => hfull.not_empty hvalid hother (hempty.of_below hbelow))
      (hempty other hother hbelow).2
  · refine (hstate.paths other hother).incomplete ?_ (storage.erase_of_not hbelow).2
    refine hempty.not_full_above hvalid hpath hother habove ?_
    refine (hactive.active hstate hvalid).congr fun enumRoot child hchild hin => ?_
    exact (storage.erase_of_not (hvalid.not_below_parent hchild hin)).2
  · exact (hstate.paths other hother).congr
      (Storage.full_congr_of_apart hvalid hother (fun part => storage.erase_of_not) hbelow habove)
      (storage.erase_of_not hbelow).2

theorem describes_clearLocalValue (hstate : state.Describes storage) (localId : LocalId)
    {other : MovePathId} (hother : plan.Has other) :
    ((state.clearLocalValue localId).pathState other).Describes (storage.clearLocal localId)
      other := by
  rw [pathState_clearLocalValue hvalid state localId hother]
  split_ifs with hlocal
  · have hempty : (storage.clearLocal localId).Empty other :=
      fun part _ hbelow => storage.erase_of (hbelow.1.symm.trans hlocal)
    exact PathState.describes_cleared (fun hfull => hfull.not_empty hvalid hother hempty)
      (hempty other hother (below_refl other)).2
  · have hsame (part : MovePathId) (hbelow : plan.Below other part) :
        (part ∈ (storage.clearLocal localId).init ↔ part ∈ storage.init) ∧
          (storage.clearLocal localId).variant part = storage.variant part :=
      storage.erase_of_not fun hin => hlocal (hbelow.1.trans hin)
    refine (hstate.paths other hother).congr ⟨fun hfull => ?_, fun hfull => ?_⟩
      (hsame other (below_refl other)).2
    · refine hfull.congr hvalid hother fun part _ hbelow => ?_
      exact ⟨(hsame part hbelow).1.symm, (hsame part hbelow).2.symm⟩
    · exact hfull.congr hvalid hother fun part _ hbelow => hsame part hbelow

theorem Describes.startStorage (hstate : state.Describes storage) (localId : LocalId) :
    (state.startStorage localId).Describes (storage.startStorage localId) := by
  have hstorage := storage_clearLocalValue state localId
  obtain ⟨hreach, hlives⟩ := Prod.mk.inj hstorage
  obtain ⟨hmay, hmust⟩ := Prod.mk.inj hlives
  refine ⟨hreach.trans hstate.reachable, fun other hother => ?_, fun other hother => ?_,
    fun other hother => ?_⟩
  · change other ∈ insert localId (state.clearLocalValue localId).mustLive at hother
    change other ∈ insert localId storage.live
    rw [hmust, mem_insert] at hother
    exact mem_insert.mpr (hother.imp_right (hstate.mustLive other))
  · change other ∈ insert localId storage.live at hother
    change other ∈ insert localId (state.clearLocalValue localId).mayLive
    rw [hmay, mem_insert]
    exact (mem_insert.mp hother).imp_right (hstate.mayLive other)
  · exact (describes_clearLocalValue hvalid hstate localId hother).of_live hvalid hother rfl rfl

theorem Describes.endStorage (hstate : state.Describes storage) (localId : LocalId) :
    (state.endStorage localId).Describes (storage.endStorage localId) := by
  have hstorage := storage_clearLocalValue state localId
  obtain ⟨hreach, hlives⟩ := Prod.mk.inj hstorage
  obtain ⟨hmay, hmust⟩ := Prod.mk.inj hlives
  refine ⟨hreach.trans hstate.reachable, fun other hother => ?_, fun other hother => ?_,
    fun other hother => ?_⟩
  · change other ∈ (state.clearLocalValue localId).mustLive.erase localId at hother
    change other ∈ storage.live.erase localId
    rw [hmust, mem_erase] at hother
    exact mem_erase.mpr (hother.imp_right (hstate.mustLive other))
  · change other ∈ storage.live.erase localId at hother
    change other ∈ (state.clearLocalValue localId).mayLive.erase localId
    rw [hmay, mem_erase]
    exact (mem_erase.mp hother).imp_right (hstate.mayLive other)
  · exact (describes_clearLocalValue hvalid hstate localId hother).of_live hvalid hother rfl rfl

/-! ## Completing a value -/

omit hvalid in
theorem describes_level {must may : Prop} [Decidable must] [Decidable may]
    (hmust : must → storage.Full path) (hmay : storage.Full path → may)
    (hallows : ∀ discriminant ∈ state.discriminant path,
      discriminant.Allows (storage.variant path)) :
    ((if must then state.markInit path .must else if may then state.markInit path .may
      else state.removeInit path).pathState path).Describes storage path := by
  split_ifs with hin hperhaps
  · rw [pathState_markInit, if_pos rfl]
    exact ⟨fun _ => hmust hin, fun _ => rfl, hallows⟩
  · rw [pathState_markInit, if_pos rfl]
    exact ⟨fun h => absurd h (by simp), fun _ => rfl, hallows⟩
  · rw [pathState_removeInit, if_pos rfl]
    exact ⟨fun h => absurd h Bool.false_ne_true, fun hfull => absurd (hmay hfull) hperhaps, hallows⟩

omit hvalid in
theorem activeChild_eq {variant : Nat} {child : MovePathId} (hvalid : plan.PathsValid)
    (hknown : state.discriminant path = some (.known variant))
    (hchild : (variant, child) ∈ plan.variantChildren path) :
    state.activeChild path (plan.variantChildren path) = some child := by
  have hfound : ((plan.variantChildren path).find? fun entry =>
      (DiscriminantState.known variant).possibleVariants = {entry.1}).isSome :=
    List.find?_isSome.mpr ⟨_, hchild, decide_eq_true rfl⟩
  obtain ⟨⟨variant', child'⟩, hentry⟩ := Option.isSome_iff_exists.mp hfound
  have hpossible := List.find?_some hentry
  have hsame : variant = variant' := singleton_injective (of_decide_eq_true hpossible)
  subst hsame
  rw [activeChild, hknown]
  dsimp only
  rw [if_neg (by simp [DiscriminantState.known]), hentry, Option.map_some,
    hvalid.variant_unique (mem_of_find?_eq_some hentry) hchild]

/-- An aggregate, or an enum whose selected variant is known, is as complete as its parts. -/
theorem describes_recompose (hnonempty : plan.children path ≠ [])
    (hchildren : ∀ child ∈ plan.children path, (state.pathState child).Describes storage child)
    (hallows : ∀ discriminant ∈ state.discriminant path, discriminant.Allows (storage.variant path))
    (hknown : plan.completion path = .enumRoot (plan.variantChildren path) →
      ∃ variant child, state.discriminant path = some (.known variant) ∧
        storage.variant path = some variant ∧ (variant, child) ∈ plan.variantChildren path) :
    ((state.recompose path).pathState path).Describes storage path := by
  rw [recompose]
  split
  · next hrule => exact absurd (CleanupPlan.PathsValid.children_of_explicit hrule) hnonempty
  · next hrule =>
      refine describes_level (fun hall => ?_) (fun hfull => ?_) hallows
      · rw [full_allChildren hrule]
        intro child hchild
        exact (hchildren child hchild).full (all_eq_true.mp hall child hchild)
      · rw [all_eq_true]
        intro child hchild
        exact (hchildren child hchild).may ((full_allChildren hrule).mp hfull child hchild)
  · next variants hrule =>
      obtain rfl := CleanupPlan.PathsValid.variants_eq hrule
      obtain ⟨variant, child, hdisc, hsel, hchild⟩ := hknown hrule
      have hdescribed := hchildren child (CleanupPlan.PathsValid.mem_variantChildren.mp hchild).1
      rw [activeChild_eq hvalid hdisc hchild]
      refine describes_level (fun hmust => ?_) (fun hfull => ?_) hallows
      · exact .enumRoot hrule hsel hchild (hdescribed.full (decide_eq_true hmust))
      · obtain ⟨variant', child', hsel', hchild', hpart⟩ := (full_enumRoot hrule).mp hfull
        cases hsel.symm.trans hsel'
        obtain rfl := hvalid.variant_unique hchild hchild'
        exact of_decide_eq_true (hdescribed.may hpart)

/-- Recomposing the paths above a described path describes all paths. -/
theorem describes_recomposeAncestors (hpath : plan.Has path)
    (hactive : state.KnownActive path)
    (hbase : ∀ other < plan.movePaths.length, ¬ (plan.Below other path ∧ other ≠ path) →
      (state.pathState other).Describes storage other)
    (hallows : ∀ other < plan.movePaths.length, ∀ discriminant ∈ state.discriminant other,
      discriminant.Allows (storage.variant other)) :
    ∀ other < plan.movePaths.length,
      ((state.recomposeAncestors path).pathState other).Describes storage other := by
  have hwalk (bound : Nat) : ∀ (state : MoveState plan), ∀ path < plan.movePaths.length,
      (plan.place path).projections.length < bound → state.KnownActive path →
      (∀ other < plan.movePaths.length, ¬ (plan.Below other path ∧ other ≠ path) →
        (state.pathState other).Describes storage other) →
      (∀ other < plan.movePaths.length, ∀ discriminant ∈ state.discriminant other,
        discriminant.Allows (storage.variant other)) →
      ∀ other < plan.movePaths.length,
        (((plan.ancestorsUpTo bound path).foldl recompose state).pathState other).Describes
          storage other := by
    induction bound with
    | zero => exact fun _ _ _ hlen => absurd hlen (Nat.not_lt_zero _)
    | succ bound ih =>
      intro state path hpath hlen hactive hbase hallows other hother
      rw [CleanupPlan.ancestorsUpTo]
      cases hparent : plan.parent path with
      | none =>
        refine hbase other hother ?_
        rintro ⟨hbelow, hne⟩
        exact hne (hvalid.eq_of_below_root hparent hpath hother hbelow)
      | some parent =>
        have hchild := hvalid.mem_children.mpr hparent
        obtain ⟨hlt, -, last, hlast⟩ := hvalid.parent_spec hparent
        rw [hlast, length_append, length_singleton] at hlen
        have hdisc (other : MovePathId) :
            (state.recompose parent).discriminant other = state.discriminant other := by
          rw [discriminant, discriminants_recompose]
          rfl
        refine ih (state.recompose parent) parent hlt (by omega) ?_ (fun other hother hout => ?_)
          (fun other hother => ?_) other hother
        · exact (hactive.of_below (hvalid.below_child hchild)).congr
            fun enumRoot _ _ _ => hdisc enumRoot
        · by_cases hsame : other = parent
          · subst hsame
            refine describes_recompose hvalid (ne_nil_of_mem hchild)
              (fun child hmem => hbase child (lt_of_parent (hvalid.mem_children.mp hmem)) ?_)
              (hallows other hother) fun hrule => ?_
            · rintro ⟨hbelow, hne⟩
              exact hne (hvalid.children_disjoint hmem hchild hpath hbelow (below_refl path))
            · -- the path lies in the one variant that is known to be selected
              obtain ⟨variant, hentry⟩ := hvalid.exists_variant hrule hchild
              have hknown := hactive other path variant hchild (below_refl path)
                (CleanupPlan.PathsValid.mem_variantChildren.mp hentry).2
              exact ⟨variant, path, hknown,
                DiscriminantState.eq_of_allows_known (hallows other hother _ hknown), hentry⟩
          · rw [pathState_recompose_of_ne _ hsame]
            refine hbase other hother ?_
            rintro ⟨hbelow, hne⟩
            exact hout ⟨hvalid.below_parent hparent hother hbelow hne, hsame⟩
        · rw [hdisc]
          exact hallows other hother
  exact hwalk plan.height state path hpath (CleanupPlan.PathsValid.length_lt_height hpath) hactive
    hbase hallows

/-- Completing a path whose variants are known describes the storage with the value. -/
theorem Describes.initializePath (hstate : state.Describes before)
    (hpath : plan.Has path) (hactive : state.KnownActive path)
    (hdone : Storage.Completed path before after) :
    (state.initializePath path).Describes after := by
  have hframe {other : MovePathId} (hother : plan.Has other)
      (hout : ¬ plan.Below path other) :
      (markWhole plan.height path .must state).pathState other = state.pathState other :=
    pathState_markWhole_of_not_below hvalid hpath hother hout _ _
  have hbelow : (markWhole plan.height path .must state).DescribesBelow after path := by
    refine describes_markWhole hvalid (hvalid.fits hpath) hpath hdone.consistent hdone.full ?_
    intro part hpart hin discriminant hmem hset variant hvar
    have hallows := (hstate.paths part hpart).variant discriminant hmem
    cases hbefore : before.variant part with
    | none =>
      rw [hbefore] at hallows
      exact absurd hallows hset
    | some selected =>
      have hkept := hdone.kept part selected hin hbefore
      rw [hbefore] at hallows
      rw [Option.some.inj (hvar.symm.trans hkept)]
      exact hallows
  refine hstate.storage_congr (storage_initializePath _ _) hdone.live fun other hother => ?_
  refine describes_recomposeAncestors hvalid hpath ?_ (fun other hother hout => ?_)
    (fun other hother => ?_) other hother
  · refine hactive.congr fun enumRoot child hchild hin => ?_
    exact congrArg PathState.discriminant
      (hframe (hvalid.parent_spec (hvalid.mem_children.mp hchild)).1
        (hvalid.not_below_parent hchild hin))
  · by_cases hin : plan.Below path other
    · exact hbelow other hother hin
    · rw [hframe hother hin]
      refine (hstate.paths other hother).congr ?_ (hdone.outside other hin).2
      refine Storage.full_congr_of_apart hvalid hother hdone.outside hin fun habove => ?_
      exact hout ⟨habove, fun heq => hin (heq ▸ below_refl other)⟩
  · by_cases hin : plan.Below path other
    · exact (hbelow other hother hin).variant
    · change ∀ discriminant ∈ ((markWhole plan.height path .must state).pathState other).discriminant, _
      rw [hframe hother hin, (hdone.outside other hin).2]
      exact (hstate.paths other hother).variant

/-! ## Selecting variants -/

omit hvalid in
theorem KnownActive.updateDiscriminant (hactive : state.KnownActive path)
    (hvalid : plan.PathsValid) (update : DiscriminantState → DiscriminantState) :
    (state.updateDiscriminant path update).KnownActive path := by
  refine hactive.congr fun enumRoot child hchild hbelow => ?_
  rw [discriminant_updateDiscriminant, if_neg]
  rintro rfl
  exact hvalid.not_below_child hchild hbelow

/-- An empty path whose variant is selected is not complete, nor is a path above it. -/
theorem not_full_select (hpath : plan.Has path) (hempty : storage.Empty path)
    (hactive : storage.Active path) {other : MovePathId} (hother : plan.Has other)
    (hbelow : plan.Below other path) (selected : Option Nat) :
    ¬ (storage.select path selected).Full other := by
  intro hfull
  have hactive' : (storage.select path selected).Active path := by
    refine hactive.congr fun enumRoot child hchild hin => storage.select_of_ne ?_ selected
    rintro rfl
    exact hvalid.not_below_child hchild hin
  have hpart {child : MovePathId} (hchild : child ∈ plan.children path)
      (hfull : (storage.select path selected).Full child) : False := by
    have hlt := lt_of_parent (hvalid.mem_children.mp hchild)
    have hsame (part : MovePathId) (hin : plan.Below child part) :
        (storage.select path selected).variant part = storage.variant part := by
      refine storage.select_of_ne ?_ _
      rintro rfl
      exact hvalid.not_below_child hchild hin
    have hfull' : storage.Full child :=
      hfull.congr hvalid hlt fun part _ hin => ⟨Iff.rfl, (hsame part hin).symm⟩
    exact hfull'.not_empty hvalid hlt (hempty.of_below (hvalid.below_child hchild))
  cases hfull.of_below hvalid hother hpath hbelow hactive' with
  | explicit _ hinit => exact (hempty path hpath (below_refl path)).1 hinit
  | allChildren hrule hchildren =>
    obtain ⟨child, hchild⟩ := exists_mem_of_ne_nil _
      (CleanupPlan.PathsValid.children_ne_nil_of_allChildren hrule)
    exact hpart hchild (hchildren child hchild)
  | enumRoot _ _ hchild hfull =>
    exact hpart (CleanupPlan.PathsValid.mem_variantChildren.mp hchild).1 hfull

/-- An empty enum path gets a variant that its new discriminant allows. -/
theorem Describes.select (hstate : state.Describes storage) (hpath : plan.Has path)
    (hempty : storage.Empty path) (hactive : storage.Active path) {known : DiscriminantState}
    {selected : Option Nat} (hallows : known.Allows selected) :
    (state.updateDiscriminant path fun _ => known).Describes (storage.select path selected) := by
  refine hstate.storage_congr (storage_updateDiscriminant _ _ _) rfl fun other hother => ?_
  have hold := hstate.paths other hother
  rw [pathState_updateDiscriminant]
  by_cases hbelow : plan.Below other path
  · have hfull := not_full_select hvalid hpath hempty hactive hother hbelow selected
    have hfull' := hempty.not_full_above hvalid hpath hother hbelow hactive
    split_ifs with hsame
    · subst hsame
      refine ⟨fun hmust => absurd (hold.full hmust) hfull', fun h => absurd h hfull, ?_⟩
      intro discriminant hmem
      obtain ⟨old, hdisc, rfl⟩ := Option.map_eq_some_iff.mp hmem
      obtain ⟨slot, hslot, -⟩ := Option.map_eq_some_iff.mp hdisc
      have hsel : (storage.select other selected).variant other = selected :=
        if_pos ⟨rfl, by rw [hslot]; rfl⟩
      rw [hsel]
      exact hallows
    · refine ⟨fun hmust => absurd (hold.full hmust) hfull', fun h => absurd h hfull, ?_⟩
      rw [storage.select_of_ne hsame]
      exact hold.variant
  · have hne : other ≠ path := fun heq => hbelow (heq ▸ below_refl other)
    rw [if_neg hne]
    have hpart (part : MovePathId) (hin : plan.Below other part) : part ≠ path :=
      fun heq => hbelow (heq ▸ hin)
    refine hold.congr ⟨fun hfull => ?_, fun hfull => ?_⟩ (storage.select_of_ne hne _)
    · refine hfull.congr hvalid hother fun part _ hin => ⟨Iff.rfl, ?_⟩
      exact (storage.select_of_ne (hpart part hin) _).symm
    · refine hfull.congr hvalid hother fun part _ hin => ⟨Iff.rfl, ?_⟩
      exact storage.select_of_ne (hpart part hin) _

theorem Describes.setDiscriminant (hstate : state.Describes storage)
    (hpath : plan.Has path) (hactive : state.KnownActive path) (variant : Nat) :
    (state.setDiscriminant path variant).Describes
      ((storage.clearPath path).select path (some variant)) := by
  have hcleared := hstate.clearPath hvalid hpath hactive
  refine hcleared.select hvalid hpath (storage.clearPath_empty path) ?_
    (Finset.mem_singleton_self variant)
  exact (hactive.clearPath hvalid hpath fun _ => rfl).active hcleared hvalid

theorem Describes.assumeDiscriminant (hstate : state.Describes storage)
    (hproper : storage.Proper) (hpath : plan.Has path)
    (hmust : path ∈ state.mustInit) {variant : Nat}
    (hsel : storage.variant path = some variant) :
    (state.assumeDiscriminant path variant).Describes storage := by
  have hfull : storage.Full path := (hstate.paths path hpath).full (decide_eq_true hmust)
  obtain ⟨slot, hslot⟩ := Option.isSome_iff_exists.mp
    (storage.variant_enum path (by rw [hsel]; rfl))
  have hrule := CleanupPlan.PathsValid.completion_of_discriminantIndex hslot
  have hchild {entry : Nat × MovePathId} (hentry : entry ∈ plan.variantChildren path) :=
    (CleanupPlan.PathsValid.mem_variantChildren.mp hentry).1
  have hlt {entry : Nat × MovePathId} (hentry : entry ∈ plan.variantChildren path) :=
    lt_of_parent (hvalid.mem_children.mp (hchild hentry))
  let known := state.updateDiscriminant path fun _ => .known variant
  -- each entry changes what is known below its own child
  let change (state : MoveState plan) (entry : Nat × MovePathId) : MoveState plan :=
    if entry.1 = variant then markWhole plan.height entry.2 .must state
    else state.clearSubtreeOnly entry.2
  have hframe (entry : Nat × MovePathId) (hentry : entry ∈ plan.variantChildren path)
      (state : MoveState plan) (other : MovePathId) (hother : plan.Has other)
      (hout : ¬ plan.Below entry.2 other) :
      (change state entry).pathState other = state.pathState other := by
    dsimp only [change]
    split_ifs
    · exact pathState_markWhole_of_not_below hvalid (hlt hentry) hother hout _ _
    · rw [pathState_clearSubtreeOnly hvalid state (hlt hentry) hother, if_neg hout]
  have hknown {other : MovePathId} (hne : other ≠ path) :
      known.pathState other = state.pathState other := by
    rw [pathState_updateDiscriminant, if_neg hne]
  have hres : state.assumeDiscriminant path variant =
      (plan.variantChildren path).foldl change known := by
    rw [MoveState.assumeDiscriminant, hrule]
  rw [hres]
  refine hstate.storage_congr ?_ rfl fun other hother => ?_
  · rw [storage_foldl, storage_updateDiscriminant]
    intro state entry
    dsimp only [change]
    split_ifs <;> simp
  · by_cases hin : ∃ entry ∈ plan.variantChildren path, plan.Below entry.2 other
    · obtain ⟨entry, hentry, hin⟩ := hin
      have hdisj := pairwise_map.mp
        (hvalid.children_pairwise (hvalid.variantChildren_nodup path) fun child hmem => by
          obtain ⟨entry, hentry, rfl⟩ := mem_map.mp hmem
          exact hchild hentry)
      obtain ⟨start, hstart⟩ := exists_pathState_foldl hframe hdisj known hentry
      rw [(hstart other hother hin).2]
      have hpart := hfull.variant_full_or_empty hvalid hrule (hproper.consistent path) hentry
      dsimp only [change]
      split_ifs with hsame
      · rw [if_pos (hsame ▸ hsel)] at hpart
        have hwhole : Whole .must storage entry.2 := hpart
        refine describes_markWhole hvalid (hvalid.fits (hlt hentry)) (hlt hentry)
          (fun part _ => hproper.consistent part) hwhole ?_ other hother hin
        intro part hparts hbelow discriminant hmem
        have hne : part ≠ path := fun heq => hvalid.not_below_child (hchild hentry) (heq ▸ hbelow)
        rw [(hstart part hparts hbelow).1, hknown hne] at hmem
        exact ((hstate.paths part hparts).variant discriminant hmem).keeps
      · rw [if_neg fun heq => hsame (Option.some.inj (heq.symm.trans hsel))] at hpart
        rw [pathState_clearSubtreeOnly hvalid start (hlt hentry) hother, if_pos hin]
        exact PathState.describes_cleared
          (fun hfull => hfull.not_empty hvalid hother (hpart.of_below hin))
          (hpart other hother hin).2
    · rw [pathState_foldl_of_not fun entry hentry state =>
        hframe entry hentry state other hother fun hbelow => hin ⟨entry, hentry, hbelow⟩]
      by_cases hsame : other = path
      · subst hsame
        have hold := hstate.paths other hother
        rw [pathState_updateDiscriminant, if_pos rfl]
        refine ⟨hold.full, hold.may, fun discriminant hmem => ?_⟩
        obtain ⟨old, -, rfl⟩ := Option.map_eq_some_iff.mp hmem
        rw [hsel]
        exact Finset.mem_singleton_self variant
      · rw [hknown hsame]
        exact hstate.paths other hother

/-- The state of a transfer once the source is gone and the destination knows its variants. -/
def moved (state : MoveState plan) (src dest : MovePathId) : MoveState plan :=
  let cleared := (state.clearPath src).clearPath dest
  match state.discriminant src with
  | some discriminant => cleared.updateDiscriminant dest fun _ => discriminant
  | none => cleared

omit hvalid in
theorem transfer_eq (state : MoveState plan) (src dest : MovePathId) :
    state.transfer src dest = (state.moved src dest).initializePath dest := rfl

section Transfer

variable {src dest : MovePathId} (hsrc : src < plan.movePaths.length)
  (hdest : dest < plan.movePaths.length) (hactive : state.KnownActive src)
  (hactive' : state.KnownActive dest) (hapart : ¬ plan.Below src dest)

include hsrc hdest hactive' hapart

theorem KnownActive.moved : (state.moved src dest).KnownActive dest := by
  have hknown := (hactive'.clearPath hvalid hsrc fun hbelow => absurd hbelow hapart).clearPath
    hvalid hdest fun _ => rfl
  rw [MoveState.moved]
  split
  · exact hknown.updateDiscriminant hvalid _
  · exact hknown

include hactive

theorem Describes.moved (hstate : state.Describes before) : (state.moved src dest).Describes
      (((before.clearPath src).clearPath dest).select dest
        (before.variant src)) := by
  have hmoved := hstate.clearPath hvalid hsrc hactive
  have hknown := hactive'.clearPath hvalid hsrc fun hbelow => absurd hbelow hapart
  have hcleared := hmoved.clearPath hvalid hdest hknown
  have hknown' := hknown.clearPath hvalid hdest fun _ => rfl
  rw [MoveState.moved]
  cases hdisc : state.discriminant src with
  | some discriminant =>
    have hallows := (hstate.paths src hsrc).variant discriminant hdisc
    exact hcleared.select hvalid hdest (clearPath_empty _ _)
      (hknown'.active hcleared hvalid) hallows
  | none =>
    have hnone : before.variant src = none := by
      by_contra hsel
      have hslot := before.variant_enum src (Option.isSome_iff_ne_none.mpr hsel)
      rw [discriminant, Option.map_eq_none_iff] at hdisc
      rw [hdisc] at hslot
      exact absurd hslot Bool.false_ne_true
    rw [hnone, select_none]
    · exact hcleared
    · exact (clearPath_empty _ dest dest hdest
        (below_refl dest)).2

/-- A transferred value describes the storage that it is installed in. -/
theorem Describes.transfer (hstate : state.Describes before)
    (hdone : Storage.Completed dest
      (((before.clearPath src).clearPath dest).select dest
        (before.variant src)) after) :
    (state.transfer src dest).Describes after :=
  (hstate.moved hvalid hsrc hdest hactive hactive' hapart).initializePath hvalid
    hdest (KnownActive.moved hvalid hsrc hdest hactive' hapart) hdone

end Transfer

end MoveState

/-! ## Proper storage -/

namespace Storage

variable (hvalid : plan.PathsValid)

include hvalid

theorem Proper.erase {region : MovePathId → Prop} [DecidablePred region]
    (hproper : storage.Proper)
    (hdown : ∀ above part, plan.Below above part → region above → region part) :
    (storage.erase region).Proper where
  consistent := by
    intro enumRoot child hchild variant hdowncast hne
    by_cases hin : region enumRoot
    · intro part _ hbelow
      exact storage.erase_of (hdown _ _ (below_trans (hvalid.below_child hchild) hbelow) hin)
    · rw [(storage.erase_of_not hin).2] at hne
      exact (hproper.consistent enumRoot child hchild variant hdowncast hne).erase
  deadEmpty := by
    intro other hother hdead
    by_cases hin : region other
    · exact storage.erase_of hin
    · rw [(storage.erase_of_not hin).1, (storage.erase_of_not hin).2]
      exact hproper.deadEmpty other hother hdead

omit hvalid in
theorem Proper.clearPath (hproper : storage.Proper) (hvalid : plan.PathsValid)
    (path : MovePathId) : (storage.clearPath path).Proper :=
  hproper.erase hvalid fun _ _ hbelow habove => below_trans habove hbelow

omit hvalid in
theorem Proper.clearLocal (hproper : storage.Proper) (hvalid : plan.PathsValid)
    (localId : LocalId) : (storage.clearLocal localId).Proper :=
  hproper.erase hvalid fun _ _ hbelow habove => hbelow.1.symm.trans habove

theorem Proper.startStorage (hproper : storage.Proper) (localId : LocalId) :
    (storage.startStorage localId).Proper where
  consistent := (hproper.clearLocal hvalid localId).consistent
  deadEmpty := fun other hother hdead => (hproper.clearLocal hvalid localId).deadEmpty other hother
    fun hlive => hdead (mem_insert_of_mem hlive)

theorem Proper.endStorage (hproper : storage.Proper) (localId : LocalId) :
    (storage.endStorage localId).Proper where
  consistent := (hproper.clearLocal hvalid localId).consistent
  deadEmpty := by
    intro other hother hdead
    by_cases hlocal : (plan.place other).localId = localId
    · exact storage.erase_of hlocal
    · exact (hproper.clearLocal hvalid localId).deadEmpty other hother fun hlive =>
        hdead (mem_erase.mpr ⟨hlocal, hlive⟩)

/-- Completing a path in live storage, below selected variants, keeps the storage proper. -/
theorem Proper.completed (hproper : before.Proper) (hpath : plan.Has path)
    (hactive : before.Active path) (hlive : (plan.place path).localId ∈ before.live)
    (hdone : Completed path before after) : after.Proper where
  consistent := by
    intro enumRoot child hchild variant hdowncast hne
    by_cases hin : plan.Below path enumRoot
    · exact hdone.consistent enumRoot hin child hchild variant hdowncast hne
    · rw [(hdone.outside enumRoot hin).2] at hne
      have hempty := hproper.consistent enumRoot child hchild variant hdowncast hne
      have hparent := hvalid.mem_children.mp hchild
      refine hempty.congr fun part _ hpart => hdone.outside part fun hbelow => ?_
      -- a common part would put the path in a variant that is not selected
      rcases CleanupPlan.PathsValid.below_or_below hpart hbelow with hup | hdown
      · exact hne (hactive enumRoot child variant hchild hup hdowncast)
      · by_cases hsame : path = child
        · exact hne (hactive enumRoot child variant hchild (hsame ▸ below_refl path) hdowncast)
        · exact hin (hvalid.below_parent hparent hpath hdown hsame)
  deadEmpty := by
    intro other hother hdead
    rw [hdone.live] at hdead
    have hout : ¬ plan.Below path other := fun hbelow => hdead (hbelow.1 ▸ hlive)
    rw [(hdone.outside other hout).1, (hdone.outside other hout).2]
    exact hproper.deadEmpty other hother hdead

theorem Proper.select (hproper : storage.Proper) (hempty : storage.Empty path)
    (hactive : storage.Active path) (hlive : (plan.place path).localId ∈ storage.live)
    (selected : Option Nat) : (storage.select path selected).Proper where
  consistent := by
    intro enumRoot child hchild variant hdowncast hne
    by_cases hsame : enumRoot = path
    · subst hsame
      refine (hempty.of_below (hvalid.below_child hchild)).congr fun part _ hin =>
        ⟨Iff.rfl, storage.select_of_ne ?_ _⟩
      rintro rfl
      exact hvalid.not_below_child hchild hin
    · rw [storage.select_of_ne hsame] at hne
      refine (hproper.consistent enumRoot child hchild variant hdowncast hne).congr
        fun part _ hin => ⟨Iff.rfl, storage.select_of_ne ?_ _⟩
      rintro rfl
      exact hne (hactive enumRoot child variant hchild hin hdowncast)
  deadEmpty := by
    intro other hother hdead
    have hne : other ≠ path := fun heq => hdead (heq ▸ hlive)
    rw [storage.select_of_ne hne]
    exact hproper.deadEmpty other hother hdead

omit hvalid in
theorem endStorage_of_dead (storage : Storage plan) (hproper : storage.Proper) {localId : LocalId}
    (hdead : localId ∉ storage.live) : storage.endStorage localId = storage := by
  have hgone {other : MovePathId} (hother : plan.Has other)
      (hlocal : (plan.place other).localId = localId) :=
    hproper.deadEmpty other hother (hlocal ▸ hdead)
  have hlive : storage.live.erase localId = storage.live := erase_eq_of_notMem hdead
  have hinit : (storage.init.filter fun path => ¬ (plan.place path).localId = localId) =
      storage.init := by
    rw [Finset.filter_eq_self]
    exact fun other hmem hlocal => (hgone (storage.init_explicit other hmem).1 hlocal).1 hmem
  have hvar : (fun path => if (plan.place path).localId = localId then none
      else storage.variant path) = storage.variant := by
    funext other
    split_ifs with hlocal
    · by_contra hsome
      have hslot := storage.variant_enum other
        (Option.isSome_iff_ne_none.mpr fun hnone => hsome hnone.symm)
      rw [CleanupPlan.discriminantIndex] at hslot
      split_ifs at hslot with henum
      · exact hsome (hgone henum.2 hlocal).2.symm
      · exact absurd hslot Bool.false_ne_true
    · rfl
  cases storage with
  | mk live init variant init_explicit variant_enum =>
    simp only [endStorage, clearLocal, erase] at *
    congr

end Storage

end Salicin.Cleanup
