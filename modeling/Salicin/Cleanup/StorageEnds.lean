import Salicin.Cleanup.FlagSync

/-!
# The end of storage

With all exposed flags in step, the obligations of a path drop the initialized leaves below
the path that have a destructor, each once.
-/

namespace Salicin.Cleanup

open List PreorderIntervals

open CleanupPlan.PathsValid (below_refl below_trans lt_of_parent)

variable {plan : CleanupPlan}

namespace Storage

variable (storage : Storage plan)

/-- A leaf below a path that holds a value with a destructor. -/
def Owes (path leaf : MovePathId) : Prop :=
  plan.Below path leaf ∧ (plan.path leaf).needsDrop ∧ leaf ∈ storage.init

/-- The leaves are those that a path owes, each once. -/
structure Settles (path : MovePathId) (leaves : List MovePathId) : Prop where
  nodup : leaves.Nodup
  mem_iff : ∀ leaf, leaf ∈ leaves ↔ storage.Owes path leaf

variable {storage} {path : MovePathId} {flags : Flags}

theorem settles_nil (hnone : ∀ leaf, ¬ storage.Owes path leaf) : storage.Settles path [] :=
  ⟨nodup_nil, fun leaf => iff_of_false not_mem_nil (hnone leaf)⟩

theorem droppedAll_append (first second : List DropObligation) :
    storage.droppedAll flags (first ++ second) =
      storage.droppedAll flags first ++ storage.droppedAll flags second := by
  induction first with
  | nil => simp [droppedAll]
  | cons head rest ih => rw [cons_append, droppedAll, droppedAll, ih, append_assoc]

theorem droppedAll_flatMap {α : Type*} (items : List α) (obligations : α → List DropObligation) :
    storage.droppedAll flags (items.flatMap obligations) =
      items.flatMap fun item => storage.droppedAll flags (obligations item) := by
  induction items with
  | nil => simp [droppedAll]
  | cons head rest ih => rw [flatMap_cons, flatMap_cons, droppedAll_append, ih]

theorem droppedAll_singleton (path : MovePathId) (cond : DropCondition)
    (children : List DropObligation) :
    storage.droppedAll flags [.mk path cond children] =
      if cond.Holds flags then storage.glue plan.height path
      else storage.droppedAll flags children := by
  rw [droppedAll, droppedAll, append_nil, dropped]

variable (hvalid : plan.PathsValid)

include hvalid

theorem not_owes_of_not_needsDrop (hpath : plan.Has path)
    (hneeds : ¬ (plan.path path).needsDrop) (leaf : MovePathId) : ¬ storage.Owes path leaf := by
  rintro ⟨hbelow, hleaf, hinit⟩
  have hlt := (storage.init_explicit leaf hinit).1
  have hreach := (hvalid.reaches_iff_below hpath hlt).mpr hbelow
  induction hreach using Relation.ReflTransGen.head_induction_on with
  | refl => exact hneeds hleaf
  | @head path child hchild hreach ih =>
    have hdown := lt_of_parent (hvalid.mem_children.mp hchild)
    exact ih hdown (fun hchildNeeds => hneeds (hvalid.needsDrop_of_child hchild hchildNeeds))
      ((hvalid.reaches_iff_below hdown hlt).mp hreach)

theorem Owes.eq_of_explicit {leaf : MovePathId} (howed : storage.Owes path leaf)
    (hpath : plan.Has path) (hrule : plan.completion path = .explicit) :
    leaf = path := by
  obtain ⟨hbelow, -, hinit⟩ := howed
  rcases (hvalid.below_iff_child hpath (storage.init_explicit leaf hinit).1).mp hbelow with
    heq | ⟨child, hchild, -⟩
  · exact heq
  · exact absurd hrule (completion_ne_of_child hchild)

theorem settles_children (hpath : plan.Has path)
    (hrule : plan.completion path ≠ .explicit) {drops : MovePathId → List MovePathId}
    (hdrops : ∀ child ∈ plan.children path, storage.Settles child (drops child)) :
    storage.Settles path ((plan.children path).flatMap drops) where
  nodup := by
    refine nodup_flatMap.mpr ⟨fun child hchild => (hdrops child hchild).nodup, ?_⟩
    have hpair := hvalid.children_pairwise (hvalid.children_nodup path) fun _ => id
    refine List.Pairwise.imp_of_mem ?_ hpair
    intro first second hfst hsnd hdisj leaf hin hin'
    obtain ⟨hbelow, -, hinit⟩ := ((hdrops first hfst).mem_iff leaf).mp hin
    obtain ⟨hbelow', -⟩ := ((hdrops second hsnd).mem_iff leaf).mp hin'
    exact hdisj leaf (storage.init_explicit leaf hinit).1 hbelow hbelow'
  mem_iff leaf := by
    rw [mem_flatMap]
    constructor
    · rintro ⟨child, hchild, hin⟩
      obtain ⟨hbelow, howed⟩ := ((hdrops child hchild).mem_iff leaf).mp hin
      exact ⟨below_trans (hvalid.below_child hchild) hbelow, howed⟩
    · rintro ⟨hbelow, howed⟩
      obtain ⟨hlt, hleaf⟩ := storage.init_explicit leaf howed.2
      rcases (hvalid.below_iff_child hpath hlt).mp hbelow with rfl | ⟨child, hchild, hdown⟩
      · exact absurd hleaf hrule
      · exact ⟨child, hchild, ((hdrops child hchild).mem_iff leaf).mpr ⟨hdown, howed⟩⟩

theorem settles_variant (hpath : plan.Has path) (hproper : storage.Proper)
    {variant : Nat} {child : MovePathId} (hvar : storage.variant path = some variant)
    (hentry : (variant, child) ∈ plan.variantChildren path) {leaves : List MovePathId}
    (hchild : storage.Settles child leaves) : storage.Settles path leaves where
  nodup := hchild.nodup
  mem_iff leaf := by
    obtain ⟨hmem, hvar'⟩ := CleanupPlan.PathsValid.mem_variantChildren.mp hentry
    rw [hchild.mem_iff leaf]
    constructor
    · rintro ⟨hbelow, howed⟩
      exact ⟨below_trans (hvalid.below_child hmem) hbelow, howed⟩
    · rintro ⟨hbelow, howed⟩
      obtain ⟨hlt, hleaf⟩ := storage.init_explicit leaf howed.2
      rcases (hvalid.below_iff_child hpath hlt).mp hbelow with rfl | ⟨other, hother, hdown⟩
      · exact absurd hleaf (completion_ne_of_child hmem)
      · -- the other variants are empty
        have hrule := hvalid.completion_of_downcast hmem hvar'
        obtain ⟨variant', hentry'⟩ := hvalid.exists_variant hrule hother
        have hdowncast := (CleanupPlan.PathsValid.mem_variantChildren.mp hentry').2
        by_cases hsame : variant' = variant
        · subst hsame
          rw [hvalid.variant_unique hentry hentry']
          exact ⟨hdown, howed⟩
        · have hempty := hproper.consistent path other hother variant' hdowncast fun heq =>
            hsame (Option.some.inj (heq.symm.trans hvar))
          exact absurd howed.2 (hempty leaf hlt hdown).1

theorem glue_settles {bound : Nat} (hfits : Fits plan.children bound path)
    (hpath : plan.Has path) (hproper : storage.Proper) (hfull : storage.Full path) :
    storage.Settles path (storage.glue bound path) := by
  induction bound generalizing path with
  | zero => exact hfits.elim
  | succ bound ih =>
    have hlt {child : MovePathId} (hchild : child ∈ plan.children path) :=
      lt_of_parent (hvalid.mem_children.mp hchild)
    rw [glue]
    cases hrule : plan.completion path with
    | explicit =>
      have hinit := (full_explicit hrule).mp hfull
      have honly {leaf : MovePathId} (howed : storage.Owes path leaf) : leaf = path :=
        howed.eq_of_explicit hvalid hpath hrule
      dsimp only
      split_ifs with hneeds
      · refine ⟨nodup_singleton path, fun leaf => ?_⟩
        rw [mem_singleton]
        constructor
        · rintro rfl
          exact ⟨below_refl leaf, hneeds, hinit⟩
        · exact honly
      · exact settles_nil fun leaf howed => hneeds (honly howed ▸ howed.2.1)
    | allChildren =>
      refine settles_children hvalid hpath (by simp [hrule]) fun child hchild =>
        ih (hfits child hchild) (hlt hchild) ((full_allChildren hrule).mp hfull child hchild)
    | enumRoot variants =>
      obtain ⟨variant, child, hvar, hentry, hchild⟩ := (full_enumRoot hrule).mp hfull
      have hvars := CleanupPlan.PathsValid.variants_eq hrule
      subst hvars
      dsimp only
      have hfound : ((plan.variantChildren path).find? fun entry =>
          storage.variant path = some entry.1).isSome :=
        List.find?_isSome.mpr ⟨_, hentry, decide_eq_true hvar⟩
      obtain ⟨⟨variant', child'⟩, hfind⟩ := Option.isSome_iff_exists.mp hfound
      have hsel : storage.variant path = some variant' := by
        simpa using List.find?_some hfind
      cases hvar.symm.trans hsel
      obtain rfl := hvalid.variant_unique hentry (mem_of_find?_eq_some hfind)
      obtain ⟨hmem, -⟩ := CleanupPlan.PathsValid.mem_variantChildren.mp hentry
      rw [hfind]
      exact settles_variant hvalid hpath hproper hvar hentry
        (ih (hfits child hmem) (hlt hmem) hchild)

end Storage

/-! ## Obligations -/

namespace MoveState

variable {state : MoveState plan} {storage : Storage plan} {path : MovePathId}
  {flagForPath : MovePathId → DropFlagId}

theorem obligationsForPath_of_not_needsDrop (hvalid : plan.PathsValid) (bound : Nat)
    (hneeds : ¬ (plan.path path).needsDrop) :
    state.obligationsForPath flagForPath bound path = [] := by
  induction bound generalizing path with
  | zero => rfl
  | succ bound ih =>
    have hchildren : (plan.children path).flatMap (state.obligationsForPath flagForPath bound) =
        [] := by
      rw [flatMap_eq_nil_iff]
      intro child hchild
      exact ih fun hchildNeeds => hneeds (hvalid.needsDrop_of_child hchild hchildNeeds)
    rw [obligationsForPath, hchildren, Bool.eq_false_of_not_eq_true hneeds]
    cases state.pathInitialization path <;> rfl

/-- The obligations of a path settle it, when the flags above it that could stand in for it are
clear. -/
theorem obligationsForPath_settles {view : FlagView} {flags : Flags} {bound : Nat}
    (hvalid : plan.PathsValid) (hstate : state.Describes storage) (hproper : storage.Proper)
    (hsync : view.Synced state storage)
    (hval : ∀ path, view.flagged path → flags (flagForPath path) = view.value path)
    (hfits : Fits plan.children bound path) (hpath : plan.Has path)
    (hflagged : ∀ other < plan.movePaths.length, other ∈ state.conditionalPaths bound path →
      view.flagged other)
    (hclear : ∀ above < plan.movePaths.length, plan.Below above path → above ≠ path →
      storage.Full above → view.flagged above ∧ view.value above = false) :
    storage.Settles path
      (storage.droppedAll flags (state.obligationsForPath flagForPath bound path)) := by
  induction bound generalizing path with
  | zero => exact hfits.elim
  | succ bound ih =>
    by_cases hneeds : (plan.path path).needsDrop
    swap
    · rw [obligationsForPath_of_not_needsDrop hvalid _ hneeds, Storage.droppedAll]
      exact Storage.settles_nil (Storage.not_owes_of_not_needsDrop hvalid hpath hneeds)
    rw [obligationsForPath, hneeds]
    rw [conditionalPaths, hneeds] at hflagged
    have hglue (hfull : storage.Full path) : storage.Settles path (storage.glue plan.height path) :=
      Storage.glue_settles hvalid (hvalid.fits hpath) hpath hproper hfull
    cases hstatus : state.pathInitialization path with
    | uninitialized =>
      have hempty := hstate.empty hvalid hpath hstatus
      rw [Storage.droppedAll]
      exact Storage.settles_nil fun leaf howed =>
        (hempty leaf (storage.init_explicit leaf howed.2.2).1 howed.1).1 howed.2.2
    | initialized =>
      dsimp only
      rw [if_pos rfl, Storage.droppedAll_singleton]
      exact hglue (hstate.full hpath hstatus)
    | maybeOrPartial =>
      rw [hstatus, if_neg (not_not.mpr rfl)] at hflagged
      have hexposed : view.Exposed state storage path :=
        fun above habove hbelow hne hfull _ => hclear above habove hbelow hne hfull
      -- when the flag does not stand in for the path, its children settle it
      have hchildren (hopen : storage.Full path → view.flagged path ∧ view.value path = false) :
          storage.Settles path (storage.droppedAll flags
            ((plan.children path).flatMap (state.obligationsForPath flagForPath bound))) := by
        rw [Storage.droppedAll_flatMap]
        by_cases hrule : plan.completion path = .explicit
        · rw [CleanupPlan.PathsValid.children_of_explicit hrule]
          refine Storage.settles_nil fun leaf howed => ?_
          have hfull : storage.Full path :=
            .explicit hrule (howed.eq_of_explicit hvalid hpath hrule ▸ howed.2.2)
          obtain ⟨hflag, hval⟩ := hopen hfull
          have hset := (hsync path hpath hflag hexposed).leaf hrule hfull
          rw [hval] at hset
          exact absurd hset Bool.false_ne_true
        · refine Storage.settles_children hvalid hpath hrule fun child hchild => ?_
          have hparent := hvalid.mem_children.mp hchild
          refine ih (hfits child hchild) (lt_of_parent hparent) (fun other hlt hother => ?_)
            fun above habove hbelow hne hfull => ?_
          · exact hflagged other hlt
              (mem_append_right _ (mem_flatMap.mpr ⟨child, hchild, hother⟩))
          · by_cases hsame : above = path
            · subst hsame
              exact hopen hfull
            · exact hclear above habove (hvalid.below_parent hparent habove hbelow hne) hsame
                hfull
      rw [Bool.true_and] at hflagged
      dsimp only
      rw [Bool.true_and]
      by_cases hmay : state.pathMayBeFullyInitialized path = true
      · rw [if_pos hmay] at hflagged ⊢
        have hflag := hflagged path hpath (mem_append_left _ (mem_singleton_self path))
        rw [Storage.droppedAll_singleton]
        split_ifs with hset
        · exact hglue ((hsync path hpath hflag hexposed).full ((hval path hflag).symm.trans hset))
        · refine hchildren fun _ => ⟨hflag, ?_⟩
          rw [← hval path hflag]
          exact Bool.eq_false_of_not_eq_true hset
      · rw [if_neg hmay]
        exact hchildren fun hfull =>
          absurd (of_decide_eq_true ((hstate.paths path hpath).may hfull)) fun hin =>
            hmay (decide_eq_true hin)

end MoveState

end Salicin.Cleanup
