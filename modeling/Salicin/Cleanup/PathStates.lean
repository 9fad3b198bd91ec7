import Salicin.Cleanup.MoveState

/-!
# Move states path by path

An operation rewrites what a move state knows path by path. Each part of an operation gets
one lemma that tells what becomes of every path, and the parts that work on a subtree leave
all other paths alone.
-/

namespace Salicin.Cleanup

open List

/-- What a move state knows about one path. -/
structure PathState where
  may : Bool
  must : Bool
  discriminant : Option DiscriminantState

/-- The same path, known not to be complete. -/
def PathState.incomplete (known : PathState) : PathState :=
  { known with may := false, must := false }

namespace MoveState

variable {plan : CleanupPlan}

def pathState (state : MoveState plan) (path : MovePathId) : PathState :=
  { may := path ∈ state.mayInit
    must := path ∈ state.mustInit
    discriminant := state.discriminant path }

/-- What is known about a path that has just been cleared. -/
def clearedPath (plan : CleanupPlan) (path : MovePathId) : PathState :=
  { may := false, must := false
    discriminant := (plan.discriminantIndex path).map fun _ => .unset }

/-- What is known about the storage of locals. -/
def storage (state : MoveState plan) : Bool × Finset LocalId × Finset LocalId :=
  (state.reachable, state.mayLive, state.mustLive)

/-! ## Single paths -/

variable (state : MoveState plan)

theorem pathState_removeInit (path other : MovePathId) :
    (state.removeInit path).pathState other =
      if other = path then (state.pathState other).incomplete else state.pathState other := by
  by_cases hsame : other = path
  · simp [pathState, removeInit, discriminant, hsame, PathState.incomplete]
  · simp [pathState, removeInit, discriminant, hsame]

theorem pathState_markInit (path other : MovePathId)
    (certainty : InitializationCertainty) :
    (state.markInit path certainty).pathState other = if other = path then
        { state.pathState other with may := true, must := certainty = .must }
      else state.pathState other := by
  by_cases hsame : other = path
  · cases certainty <;> simp [pathState, markInit, discriminant, hsame]
  · cases certainty <;> simp [pathState, markInit, discriminant, hsame]

theorem discriminant_updateDiscriminant (path other : MovePathId)
    (update : DiscriminantState → DiscriminantState) :
    (state.updateDiscriminant path update).discriminant other =
      if other = path then (state.discriminant other).map update
      else state.discriminant other := by
  rw [updateDiscriminant]
  split
  · next slot hslot =>
      by_cases hsame : other = path
      · subst hsame
        simp [discriminant, hslot]
      · rw [if_neg hsame, discriminant, discriminant]
        cases hother : plan.discriminantIndex other with
        | none => rfl
        | some slot' =>
          have hne : slot' ≠ slot := fun heq =>
            hsame (CleanupPlan.PathsValid.discriminantIndex_inj (heq ▸ hother) hslot)
          exact congrArg some (Function.update_of_ne hne _ _)
  · next hnone =>
      split_ifs with hsame
      · rw [discriminant, hsame, hnone]
        rfl
      · rfl

theorem pathState_updateDiscriminant (path other : MovePathId)
    (update : DiscriminantState → DiscriminantState) :
    (state.updateDiscriminant path update).pathState other = if other = path then
        { state.pathState other with
          discriminant := (state.pathState other).discriminant.map update }
      else state.pathState other := by
  have hmay : (state.updateDiscriminant path update).mayInit = state.mayInit := by
    rw [updateDiscriminant]
    split <;> rfl
  have hmust : (state.updateDiscriminant path update).mustInit = state.mustInit := by
    rw [updateDiscriminant]
    split <;> rfl
  rw [pathState, hmay, hmust, discriminant_updateDiscriminant]
  split_ifs <;> rfl

@[simp]
theorem storage_removeInit (path : MovePathId) :
    (state.removeInit path).storage = state.storage := rfl

@[simp]
theorem storage_markInit (path : MovePathId)
    (certainty : InitializationCertainty) :
    (state.markInit path certainty).storage = state.storage := rfl

@[simp]
theorem storage_updateDiscriminant (path : MovePathId)
    (update : DiscriminantState → DiscriminantState) :
    (state.updateDiscriminant path update).storage = state.storage := by
  rw [updateDiscriminant]
  split <;> rfl

/-! ## Lists of paths -/

section Folds

variable {α : Type*} {change : MoveState plan → α → MoveState plan}

theorem storage_foldl (hchange : ∀ state item, (change state item).storage = state.storage)
    (items : List α) (state : MoveState plan) :
    (items.foldl change state).storage = state.storage := by
  induction items generalizing state with
  | nil => rfl
  | cons head rest ih => rw [foldl_cons, ih, hchange]

theorem pathState_foldl_of_not {path : MovePathId} {items : List α}
    (hchange : ∀ item ∈ items, ∀ state, (change state item).pathState path = state.pathState path)
    (state : MoveState plan) :
    (items.foldl change state).pathState path = state.pathState path := by
  induction items generalizing state with
  | nil => rfl
  | cons head rest ih =>
    rw [foldl_cons, ih fun item hitem => hchange item (mem_cons_of_mem _ hitem),
      hchange head mem_cons_self]

/-- When each change keeps to a region of its own, what happens in one region is what the one
change does there. -/
theorem exists_pathState_foldl {region : α → MovePathId → Prop} {items : List α}
    (hframe : ∀ item ∈ items, ∀ state, ∀ path < plan.movePaths.length, ¬ region item path →
      (change state item).pathState path = state.pathState path)
    (hdisj : items.Pairwise fun first second =>
      ∀ path < plan.movePaths.length, region first path → ¬ region second path)
    (state : MoveState plan) {item : α} (hitem : item ∈ items) :
    ∃ before : MoveState plan, ∀ path < plan.movePaths.length, region item path →
      before.pathState path = state.pathState path ∧
        (items.foldl change state).pathState path = (change before item).pathState path := by
  induction items generalizing state with
  | nil => exact absurd hitem not_mem_nil
  | cons head rest ih =>
    obtain ⟨hhead, hrest⟩ := pairwise_cons.mp hdisj
    have hlater := fun item hitem => hframe item (mem_cons_of_mem head hitem)
    rw [foldl_cons]
    by_cases hmem : item ∈ rest
    · obtain ⟨before, hbefore⟩ := ih hlater hrest (change state head) hmem
      refine ⟨before, fun path hpath hin => ?_⟩
      obtain ⟨hstart, hend⟩ := hbefore path hpath hin
      refine ⟨hstart.trans (hframe head mem_cons_self state path hpath ?_), hend⟩
      exact fun hout => hhead item hmem path hpath hout hin
    · obtain rfl := (mem_cons.mp hitem).resolve_right hmem
      refine ⟨state, fun path hpath hin => ⟨rfl, ?_⟩⟩
      exact pathState_foldl_of_not
        (fun other hother state => hlater other hother state path hpath
          (hhead other hother path hpath hin)) _

end Folds

/-! ## Subtrees -/

section Subtrees

variable (hvalid : plan.PathsValid)

include hvalid

variable (state : MoveState plan)

theorem pathState_clearSubtreeOnly {path other : MovePathId}
    (hpath : plan.Has path) (hother : plan.Has other) :
    (state.clearSubtreeOnly path).pathState other =
      if plan.Below path other then clearedPath plan other else state.pathState other := by
  have hstep (paths : List MovePathId) (state : MoveState plan) :
      (paths.foldl (fun state descendant =>
        (state.removeInit descendant).updateDiscriminant descendant fun _ => .unset)
        state).pathState other =
        if other ∈ paths then clearedPath plan other else state.pathState other := by
    induction paths generalizing state with
    | nil => rfl
    | cons head rest ih =>
      rw [foldl_cons, ih, pathState_updateDiscriminant, pathState_removeInit]
      by_cases hrest : other ∈ rest
      · simp [hrest]
      · by_cases hhead : other = head
        · simp [hhead, clearedPath, pathState, discriminant, Function.comp_def,
            PathState.incomplete]
        · simp [hhead, hrest]
  rw [clearSubtreeOnly, hstep]
  refine if_congr ?_ rfl rfl
  rw [hvalid.mem_subtree hpath]
  exact and_iff_right hother

omit hvalid in
@[simp]
theorem storage_clearSubtreeOnly (path : MovePathId) :
    (state.clearSubtreeOnly path).storage = state.storage :=
  storage_foldl (by simp) _ _

omit hvalid in
theorem pathState_foldl_removeInit (paths : List MovePathId) (state : MoveState plan)
    (other : MovePathId) : (paths.foldl removeInit state).pathState other =
      if other ∈ paths then (state.pathState other).incomplete else state.pathState other := by
  induction paths generalizing state with
  | nil => rfl
  | cons head rest ih =>
    rw [foldl_cons, ih, pathState_removeInit]
    by_cases hhead : other = head
    · simp [hhead, PathState.incomplete]
    · simp [hhead]

/-- Clearing a path leaves nothing of it, and no path above it complete. -/
theorem pathState_clearPath {path other : MovePathId}
    (hpath : plan.Has path) (hother : plan.Has other) :
    (state.clearPath path).pathState other = if plan.Below path other then clearedPath plan other
      else if plan.Below other path then (state.pathState other).incomplete
      else state.pathState other := by
  rw [clearPath, pathState_foldl_removeInit, pathState_clearSubtreeOnly hvalid state hpath hother]
  have habove : other ∈ plan.ancestors path ↔ _ := hvalid.mem_ancestors hpath
  by_cases hbelow : plan.Below path other
  · rw [if_pos hbelow, if_pos hbelow]
    split_ifs <;> rfl
  · rw [if_neg hbelow, if_neg hbelow]
    refine if_congr (habove.trans ⟨fun hin => hin.2.1, fun hin => ⟨hother, hin, ?_⟩⟩) rfl rfl
    rintro rfl
    exact hbelow hin

omit hvalid in
@[simp]
theorem storage_clearPath (path : MovePathId) :
    (state.clearPath path).storage = state.storage := by
  rw [clearPath, storage_foldl (by simp), storage_clearSubtreeOnly]

theorem pathState_clearLocalValue (localId : LocalId) {other : MovePathId}
    (hother : plan.Has other) : (state.clearLocalValue localId).pathState other =
      if (plan.place other).localId = localId then clearedPath plan other
      else state.pathState other := by
  rw [clearLocalValue]
  split
  · next root hroot =>
      rw [pathState_clearSubtreeOnly hvalid state (hvalid.rootByLocal_eq_some.mp hroot).1 hother]
      exact if_congr (hvalid.below_root_iff hroot) rfl rfl
  · next hnone =>
      rw [if_neg]
      rintro rfl
      obtain ⟨root, hroot, -⟩ := hvalid.exists_root hother
      exact absurd (hnone.symm.trans hroot) (by simp)

omit hvalid in
@[simp]
theorem storage_clearLocalValue (localId : LocalId) :
    (state.clearLocalValue localId).storage = state.storage := by
  rw [clearLocalValue]
  split
  · exact storage_clearSubtreeOnly _ _
  · rfl

omit hvalid in
@[simp]
theorem storage_markWhole (bound : Nat) (path : MovePathId)
    (certainty : InitializationCertainty) (state : MoveState plan) :
    (markWhole bound path certainty state).storage = state.storage := by
  induction bound generalizing path certainty state with
  | zero => rfl
  | succ bound ih =>
    rw [markWhole]
    split
    · exact storage_markInit _ _ _
    · rw [storage_foldl fun state child => ih child certainty state, storage_markInit]
    · dsimp only
      rw [storage_foldl fun state child => ih child _ state, storage_foldl (by simp),
        storage_updateDiscriminant, storage_markInit]

omit hvalid in
@[simp]
theorem storage_recompose (path : MovePathId) :
    (state.recompose path).storage = state.storage := by
  rw [recompose]
  split
  · rfl
  · split_ifs <;> simp
  · split
    · rw [copyInit]
      split_ifs <;> simp
    · rfl

omit hvalid in
@[simp]
theorem storage_initializePath (path : MovePathId) :
    (state.initializePath path).storage = state.storage := by
  rw [initializePath, recomposeAncestors, storage_foldl (by simp), storage_markWhole]

omit hvalid in
/-- Recomposing a path touches only what is known of its own completion. -/
theorem pathState_recompose_of_ne {path other : MovePathId}
    (hne : other ≠ path) : (state.recompose path).pathState other = state.pathState other := by
  rw [recompose]
  split
  · rfl
  · split_ifs <;> simp [pathState_markInit, pathState_removeInit, hne]
  · split
    · rw [copyInit]
      split_ifs <;> simp [pathState_markInit, pathState_removeInit, hne]
    · rfl

omit hvalid in
theorem discriminants_recompose (path : MovePathId) :
    (state.recompose path).discriminants = state.discriminants := by
  rw [recompose]
  split
  · rfl
  · split_ifs <;> rfl
  · split
    · rw [copyInit]
      split_ifs <;> rfl
    · rfl

end Subtrees

/-! ## Reachability -/

theorem reachable_eq {state next : MoveState plan} (hstorage : next.storage = state.storage) :
    next.reachable = state.reachable := congrArg Prod.fst hstorage

@[simp]
theorem reachable_endStorage (localId : LocalId) :
    (state.endStorage localId).reachable = state.reachable :=
  congrArg Prod.fst (storage_clearLocalValue state localId)

theorem storage_assumeDiscriminant (src : MovePathId) (variant : Nat) :
    (state.assumeDiscriminant src variant).storage = state.storage := by
  rw [assumeDiscriminant]
  split
  · rw [storage_foldl, storage_updateDiscriminant]
    intro state entry
    split_ifs <;> simp
  · exact storage_updateDiscriminant _ _ _

theorem storage_transfer (src dest : MovePathId) :
    (state.transfer src dest).storage = state.storage := by
  rw [transfer, storage_initializePath]
  split <;> simp

@[simp]
theorem reachable_applyOperation (op : CleanupOp) :
    (state.applyOperation op).reachable = state.reachable := by
  cases op with
  | storageLive localId => exact congrArg Prod.fst (storage_clearLocalValue state localId)
  | storageDead localId => exact reachable_endStorage state localId
  | init path => exact reachable_eq (storage_initializePath state path)
  | moveOut path => exact reachable_eq (storage_clearPath state path)
  | overwrite path =>
    exact reachable_eq ((storage_initializePath _ path).trans (storage_clearPath state path))
  | transfer src dest kind => exact reachable_eq (storage_transfer _ _ _)
  | setDiscriminant dest variant =>
    exact reachable_eq ((storage_updateDiscriminant _ _ _).trans (storage_clearPath _ _))
  | assumeDiscriminant src variant => exact reachable_eq (storage_assumeDiscriminant _ _ _)

end MoveState

end Salicin.Cleanup
