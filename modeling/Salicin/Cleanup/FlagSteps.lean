import Salicin.Cleanup.StorageEnds

/-!
# Steps with drop flags

Each operation performs the flag updates that the analysis attaches to it. A checked operation
keeps the flags in step with the storage, unless it lays open flags that nothing has kept in
step: a match does so with the payload of the matched enum, and a transfer with the variants
that the transferred enum does not have. An edge that ends storage touches no flags.
-/

namespace Salicin.Cleanup

open List MoveState

open CleanupPlan.PathsValid (below_refl below_trans lt_of_parent)

variable {plan : CleanupPlan} {entry : BasicBlockId → MoveState plan}

/-! ## Updates of single flags -/

variable {dest : MovePathId}

namespace FlagView

/-- The flags after an operation, in the state after it. -/
def update (view : FlagView) (state : MoveState plan) (op : CleanupOp) : FlagView where
  flagged := view.flagged
  value path :=
    match state.flagValue path op with
    | some value => value = .set
    | none => view.value path

variable {view : FlagView} {state : MoveState plan} {path other : MovePathId}
  (hvalid : plan.PathsValid) (hpath : path < plan.movePaths.length)
  (hother : other < plan.movePaths.length)

theorem update_storageLive (localId : LocalId) :
    (view.update state (.storageLive localId)).value path =
      if (plan.place path).localId = localId then false else view.value path := by
  simp only [update, flagValue, eq_comm]
  split_ifs <;> simp

theorem update_storageDead (localId : LocalId) :
    (view.update state (.storageDead localId)).value path =
      if (plan.place path).localId = localId then false else view.value path := by
  simp only [update, flagValue, eq_comm]
  split_ifs <;> simp

include hvalid hpath hother

theorem affects_iff : (plan.containsPath path other || plan.containsPath other path) = true ↔
      Affects plan path other := by
  rw [Bool.or_eq_true, hvalid.containsPath_iff hpath hother, hvalid.containsPath_iff hother hpath]
  exact Iff.rfl

theorem update_init : (view.update state (.init path)).value other =
      if Affects plan path other ∧ state.pathInitialization other = .initialized then true
      else view.value other := by
  simp only [update, flagValue, affects_iff hvalid hpath hother]
  split_ifs <;> simp

theorem update_overwrite : (view.update state (.overwrite path)).value other =
      if Affects plan path other ∧ state.pathInitialization other = .initialized then true
      else view.value other := by
  simp only [update, flagValue, affects_iff hvalid hpath hother]
  split_ifs <;> simp

theorem update_moveOut : (view.update state (.moveOut path)).value other =
      if Affects plan path other then false else view.value other := by
  simp only [update, flagValue, affects_iff hvalid hpath hother]
  split_ifs <;> simp

theorem update_setDiscriminant (variant : Nat) :
    (view.update state (.setDiscriminant path variant)).value other =
      if Affects plan path other then false else view.value other := by
  simp only [update, flagValue, affects_iff hvalid hpath hother]
  split_ifs <;> simp

theorem update_transfer (hdest : plan.Has dest) (kind : TransferKind) :
    (view.update state (.transfer path dest kind)).value other =
      if Affects plan dest other ∧ state.pathInitialization other = .initialized then true
      else if Affects plan path other then false else view.value other := by
  simp only [update, flagValue, affects_iff hvalid hpath hother, affects_iff hvalid hdest hother]
  split_ifs <;> simp

end FlagView

namespace CleanupPlan.BlocksValid

variable (hblocks : plan.BlocksValid)

include hblocks

theorem blockOperations_id {data : BasicBlock} (hdata : data ∈ plan.blocks) :
    plan.blockOperations data.id = data.operations := by
  obtain ⟨position, hpos⟩ := mem_iff_getElem?.mp hdata
  rw [hblocks.ids position data hpos, CleanupPlan.blockOperations, hpos]

theorem exists_block {block : BasicBlockId} {i : Nat} {op : CleanupOp}
    (hop : (plan.blockOperations block)[i]? = some op) :
    ∃ data ∈ plan.blocks, data.id = block ∧ plan.blockOperations block = data.operations := by
  rw [CleanupPlan.blockOperations] at hop ⊢
  split at hop
  · next data hdata => exact ⟨data, mem_of_getElem? hdata, hblocks.ids block data hdata, rfl⟩
  · exact absurd hop (by simp)

end CleanupPlan.BlocksValid

namespace DropFlagAnalysis

/-- The flags of a plan by their paths. -/
def view (plan : CleanupPlan) (entry : BasicBlockId → MoveState plan) (flags : Flags) :
    FlagView where
  flagged path := path ∈ flaggedPaths plan entry
  value path := flags (flagForPath plan entry path)

/-- Updates that agree on the value of a flag give it that value. -/
theorem foldl_update {block : BasicBlockId} {i : Nat} {flag : DropFlagId} {value : Bool}
    {actions : List DropFlagAction} {flags : Flags}
    (hall : ∀ action ∈ actions, action.block = block ∧ action.operationIndex = i →
      action.flag = flag → decide (action.value = .set) = value)
    (hsome : flags flag = value ∨ ∃ action ∈ actions,
      (action.block = block ∧ action.operationIndex = i) ∧ action.flag = flag) :
    actions.foldl (fun flags action =>
      if action.block = block ∧ action.operationIndex = i then
        Function.update flags action.flag (action.value = .set)
      else flags) flags flag = value := by
  induction actions generalizing flags with
  | nil =>
    rcases hsome with hval | ⟨action, hmem, -⟩
    · exact hval
    · exact absurd hmem not_mem_nil
  | cons head rest ih =>
    rw [foldl_cons]
    apply ih fun action hmem => hall action (mem_cons_of_mem head hmem)
    by_cases hhead : (head.block = block ∧ head.operationIndex = i) ∧ head.flag = flag
    · left
      rw [if_pos hhead.1, hhead.2, Function.update_self]
      exact hall head mem_cons_self hhead.1 hhead.2
    · rcases hsome with hval | ⟨action, hmem, hmatch⟩
      · left
        split_ifs with hplace
        · rw [Function.update_of_ne fun heq => hhead ⟨hplace, heq.symm⟩]
          exact hval
        · exact hval
      · refine .inr ⟨action, (mem_cons.mp hmem).resolve_left ?_, hmatch⟩
        rintro rfl
        exact hhead hmatch

theorem mem_computeFlags {path : MovePathId} (hflagged : path ∈ flaggedPaths plan entry)
    {flag : DropFlag} : (flag ∈ computeFlags plan entry ∧ flag.id = flagForPath plan entry path) ↔
      flag = ⟨flagForPath plan entry path, path⟩ := by
  have hget : (flaggedPaths plan entry)[flagForPath plan entry path]? = some path :=
    getElem?_idxOf hflagged
  constructor
  · intro hflag
    obtain ⟨hmem, hid⟩ := hflag
    obtain ⟨⟨other, id⟩, hentry, rfl⟩ := mem_map.mp hmem
    have hsame := mem_zipIdx_iff_getElem?.mp hentry
    dsimp only at hid hsame
    rw [hid, hget] at hsame
    rw [hid, Option.some.inj hsame]
  · rintro rfl
    refine ⟨mem_map.mpr ⟨(path, flagForPath plan entry path), ?_, rfl⟩, rfl⟩
    exact mem_zipIdx_iff_getElem?.mpr hget

section
variable (hblocks : plan.BlocksValid)
include hblocks

theorem mem_computeActions {block : BasicBlockId} {i : Nat} {op : CleanupOp}
    (hreach : (entry block).reachable)
    (hop : (plan.blockOperations block)[i]? = some op) {path : MovePathId}
    (hflagged : path ∈ flaggedPaths plan entry) {action : DropFlagAction} :
    (action ∈ computeActions plan entry ∧ (action.block = block ∧ action.operationIndex = i) ∧
      action.flag = flagForPath plan entry path) ↔
      ∃ value, (stateBefore plan entry block (i + 1)).flagValue path op = some value ∧
        action = ⟨block, i, flagForPath plan entry path, value⟩ := by
  constructor
  · rintro ⟨hmem, ⟨hblock, hidx⟩, hflag⟩
    obtain ⟨data, hdata, haction⟩ := mem_flatMap.mp hmem
    split_ifs at haction with hskip
    swap
    · exact absurd haction not_mem_nil
    obtain ⟨⟨other, position⟩, hentry, haction⟩ := mem_flatMap.mp haction
    obtain ⟨flag, hlisted, hmap⟩ := mem_filterMap.mp haction
    obtain ⟨value, hval, rfl⟩ := Option.map_eq_some_iff.mp hmap
    dsimp only at hblock hidx hflag hval
    obtain rfl := (mem_computeFlags hflagged).mp ⟨hlisted, hflag⟩
    subst hblock hidx
    have hget := mem_zipIdx_iff_getElem?.mp hentry
    rw [hblocks.blockOperations_id hdata] at hop
    cases hget.symm.trans hop
    exact ⟨value, hval, rfl⟩
  · rintro ⟨value, hval, rfl⟩
    obtain ⟨data, hdata, hid, hops⟩ := hblocks.exists_block hop
    refine ⟨mem_flatMap.mpr ⟨data, hdata, ?_⟩, ⟨rfl, rfl⟩, rfl⟩
    rw [hid, if_neg (not_not.mpr hreach)]
    refine mem_flatMap.mpr ⟨(op, i), mem_zipIdx_iff_getElem?.mpr ?_, ?_⟩
    · rw [← hops]
      exact hop
    · obtain ⟨hlisted, -⟩ := (mem_computeFlags hflagged).mpr rfl
      refine mem_filterMap.mpr ⟨_, hlisted, ?_⟩
      rw [hval]
      rfl

theorem view_update {block : BasicBlockId} {i : Nat} {op : CleanupOp}
    (hreach : (entry block).reachable) (hop : (plan.blockOperations block)[i]? = some op)
    {path : MovePathId} (hflagged : path ∈ flaggedPaths plan entry)
    (flags : Flags) : (view plan entry ((compute plan entry).update block i flags)).value path =
      ((view plan entry flags).update (stateBefore plan entry block (i + 1)) op).value
        path := by
  have hactions (action : DropFlagAction) :=
    @mem_computeActions _ _ hblocks _ _ _ hreach hop _ hflagged action
  apply foldl_update
  · intro action hmem hplace hflag
    obtain ⟨value, hval, rfl⟩ := (hactions action).mp ⟨hmem, hplace, hflag⟩
    rw [FlagView.update]
    dsimp only
    rw [hval]
  · rw [FlagView.update]
    dsimp only
    cases hval : (stateBefore plan entry block (i + 1)).flagValue path op with
    | none => exact .inl rfl
    | some value =>
      obtain ⟨hmem, hplace, hflag⟩ := (hactions _).mpr ⟨value, hval, rfl⟩
      exact .inr ⟨_, hmem, hplace, hflag⟩

variable {localId : LocalId}

theorem mem_storageEnds {block : BasicBlockId} {i : Nat} {root : MovePathId} :
    (block, i, localId, root) ∈ storageEnds plan ↔
      (plan.blockOperations block)[i]? = some (.storageDead localId) ∧
        plan.rootByLocal localId = some root := by
  constructor
  · intro hmem
    obtain ⟨data, hdata, hend⟩ := mem_flatMap.mp hmem
    obtain ⟨⟨op, position⟩, hentry, hend⟩ := mem_filterMap.mp hend
    cases op with
    | storageDead other =>
      obtain ⟨root', hroot, hsame⟩ := Option.map_eq_some_iff.mp hend
      obtain ⟨rfl, rfl, rfl, rfl⟩ : data.id = block ∧ position = i ∧ other = localId ∧
          root' = root := by simpa using hsame
      rw [hblocks.blockOperations_id hdata]
      exact ⟨mem_zipIdx_iff_getElem?.mp hentry, hroot⟩
    | _ => exact absurd hend (by simp)
  · rintro ⟨hop, hroot⟩
    obtain ⟨data, hdata, rfl, hops⟩ := hblocks.exists_block hop
    rw [hops] at hop
    refine mem_flatMap.mpr ⟨data, hdata, mem_filterMap.mpr
      ⟨(.storageDead localId, i), mem_zipIdx_iff_getElem?.mpr hop, ?_⟩⟩
    dsimp only
    rw [hroot]
    rfl

theorem spec_of_mem_computeSites {site : DropSite} (hmem : site ∈ computeSites plan entry) :
    ∃ root, (plan.blockOperations site.block)[site.operationIndex]? =
        some (.storageDead site.localId) ∧
      plan.rootByLocal site.localId = some root ∧
      site.obligations = (stateBefore plan entry site.block site.operationIndex).obligationsForPath
        (flagForPath plan entry) plan.height root := by
  obtain ⟨⟨block, i, localId, root⟩, hlisted, hbuilt⟩ := mem_filterMap.mp hmem
  dsimp only at hbuilt
  split_ifs at hbuilt
  cases hbuilt
  obtain ⟨hend, hroot⟩ := (mem_storageEnds hblocks).mp hlisted
  exact ⟨root, hend, hroot, rfl⟩

/-- The site that is found at an end of storage is the site of its local. -/
theorem spec_of_find {block : BasicBlockId} {i : Nat}
    (hend : (plan.blockOperations block)[i]? = some (.storageDead localId)) {site : DropSite}
    (hsite : ((compute plan entry).sites.find? fun site =>
      site.block = block ∧ site.operationIndex = i) = some site) :
    ∃ root, plan.rootByLocal localId = some root ∧ site.obligations =
      (stateBefore plan entry block i).obligationsForPath (flagForPath plan entry) plan.height
        root := by
  have hmatch : site.block = block ∧ site.operationIndex = i := by
    simpa using List.find?_some hsite
  obtain ⟨rfl, rfl⟩ := hmatch
  obtain ⟨root, hend', hroot, hobls⟩ :=
    spec_of_mem_computeSites hblocks (mem_of_find?_eq_some hsite)
  obtain rfl : site.localId = localId := by simpa using hend'.symm.trans hend
  exact ⟨root, hroot, hobls⟩

theorem obligationsAt_eq {block : BasicBlockId} {i : Nat} {root : MovePathId}
    (hend : (plan.blockOperations block)[i]? = some (.storageDead localId))
    (hroot : plan.rootByLocal localId = some root) : (compute plan entry).obligationsAt block i =
      (stateBefore plan entry block i).obligationsForPath (flagForPath plan entry) plan.height
        root := by
  rw [obligationsAt]
  split
  · next site hsite =>
      obtain ⟨root', hroot', hobls⟩ := spec_of_find hblocks hend hsite
      cases hroot'.symm.trans hroot
      exact hobls
  · next hnone =>
      by_contra hne
      have hsite := List.find?_eq_none.mp hnone
        ⟨block, i, localId, (stateBefore plan entry block i).obligationsForPath
          (flagForPath plan entry) plan.height root⟩ (mem_filterMap.mpr ⟨_,
            (mem_storageEnds hblocks).mpr ⟨hend, hroot⟩, if_neg fun hempty =>
              hne (isEmpty_iff.mp hempty).symm⟩)
      exact hsite (decide_eq_true ⟨rfl, rfl⟩)

theorem obligationsAt_eq_nil {block : BasicBlockId} {i : Nat}
    (hend : (plan.blockOperations block)[i]? = some (.storageDead localId))
    (hroot : plan.rootByLocal localId = none) :
    (compute plan entry).obligationsAt block i = [] := by
  rw [obligationsAt]
  split
  · next site hsite =>
      obtain ⟨root, hroot', -⟩ := spec_of_find hblocks hend hsite
      exact absurd (hroot'.symm.trans hroot) (by simp)
  · rfl

theorem flagged_of_conditional {block : BasicBlockId} {i : Nat} {root path : MovePathId}
    (hend : (plan.blockOperations block)[i]? = some (.storageDead localId))
    (hroot : plan.rootByLocal localId = some root) (hpath : plan.Has path)
    (hconditional : path ∈
      (stateBefore plan entry block i).conditionalPaths plan.height root) :
    path ∈ flaggedPaths plan entry := by
  refine mem_filter.mpr ⟨mem_range.mpr hpath, decide_eq_true ?_⟩
  exact mem_flatMap.mpr ⟨_, (mem_storageEnds hblocks).mpr ⟨hend, hroot⟩, hconditional⟩

end

end DropFlagAnalysis

/-! ## Steps that keep the flags in step -/

/-- The operation does not lay open flags that nothing has kept in step: those of a payload whose
variant becomes known by a match, and those of the other variants of a transferred enum. -/
def OperationKeeps (state : MoveState plan) (storage : Storage plan) (view : FlagView) :
    CleanupOp → Prop
  | .assumeDiscriminant src variant =>
    ∀ path < plan.movePaths.length, view.flagged path → plan.Below src path → src ≠ path →
      view.Exposed (state.assumeDiscriminant src variant) storage path →
        storage.InStep path (view.value path)
  | .transfer src dest _ =>
    ∀ known, state.discriminant src = some known → ¬ known.mayBeUnset →
      known.possibleVariants.card ≤ 1 →
        ∀ variant child, (variant, child) ∈ plan.variantChildren dest →
          variant ∉ known.possibleVariants →
            ∀ path < plan.movePaths.length, view.flagged path → plan.Below child path →
              view.value path = false
  | _ => True

namespace FlagView

variable {view : FlagView} {state : MoveState plan} {before after : Storage plan}
  {path : MovePathId} {next : FlagView}

theorem Synced.congr (hsync : view.Synced state before) (hflagged : next.flagged = view.flagged)
    (hval : ∀ path, view.flagged path → next.value path = view.value path) :
    next.Synced state before := by
  intro path hpath hflag hexposed
  rw [hflagged] at hflag
  rw [hval path hflag]
  refine hsync path hpath hflag fun above habove hbelow hne hfull hamb => ?_
  obtain ⟨hflag', hclear⟩ := hexposed above habove hbelow hne hfull hamb
  rw [hflagged] at hflag'
  rw [hval above hflag'] at hclear
  exact ⟨hflag', hclear⟩

variable (hvalid : plan.PathsValid)

include hvalid

variable {other : MovePathId}

theorem discriminant_clearPath (hpath : plan.Has path)
    (hother : plan.Has other) (hout : ¬ plan.Below path other) :
    (state.clearPath path).discriminant other = state.discriminant other := by
  have hcleared := pathState_clearPath hvalid state hpath hother
  rw [if_neg hout] at hcleared
  split_ifs at hcleared
  · exact congrArg PathState.discriminant hcleared
  · exact congrArg PathState.discriminant hcleared

theorem mayBeUnset_clearPath (hpath : plan.Has path)
    (hother : plan.Has other) (hbelow : plan.Below path other)
    {known : DiscriminantState} (hknown : (state.clearPath path).discriminant other = some known) :
    known.mayBeUnset := by
  have hcleared := pathState_clearPath hvalid state hpath hother
  rw [if_pos hbelow] at hcleared
  have hsame : (clearedPath plan other).discriminant = some known :=
    (congrArg PathState.discriminant hcleared).symm.trans hknown
  obtain ⟨slot, -, rfl⟩ := Option.map_eq_some_iff.mp hsame
  rfl

theorem Synced.moveOut (hsync : view.Synced state before) (hpath : plan.Has path)
    (hactive : state.KnownActive path) (hflagged : next.flagged = view.flagged)
    (hval : ∀ other < plan.movePaths.length,
      next.value other = if Affects plan path other then false else view.value other) :
    next.Synced (state.clearPath path) (before.clearPath path) :=
  hsync.clear hvalid hpath hactive hflagged (fun _ hout => before.erase_of_not hout)
    (fun _ hin => (before.erase_of hin).1)
    (fun _ hother hout => discriminant_clearPath hvalid hpath hother hout) hval

theorem Synced.setDiscriminant (hsync : view.Synced state before)
    (hpath : plan.Has path) (hactive : state.KnownActive path) (variant : Nat)
    (hflagged : next.flagged = view.flagged) (hval : ∀ other < plan.movePaths.length,
      next.value other = if Affects plan path other then false else view.value other) :
    next.Synced (state.setDiscriminant path variant)
      ((before.clearPath path).select path (some variant)) := by
  have hne {other : MovePathId} (hout : ¬ plan.Below path other) : other ≠ path :=
    fun heq => hout (heq ▸ below_refl other)
  refine hsync.clear hvalid hpath hactive hflagged (fun other hout => ?_)
    (fun _ hin => (before.erase_of hin).1) (fun other hother hout => ?_) hval
  · obtain ⟨hinit, hvar⟩ := before.erase_of_not hout
    exact ⟨hinit, (Storage.select_of_ne _ (hne hout) _).trans hvar⟩
  · rw [MoveState.setDiscriminant, discriminant_updateDiscriminant, if_neg (hne hout)]
    exact discriminant_clearPath hvalid hpath hother hout

/-- The flags of variants that an initialized enum did not select before are clear. -/
theorem Synced.init (hsync : view.Synced state before) (hstate : state.Describes before)
    (hproper : before.Proper) (hpath : plan.Has path)
    (hactive : state.KnownActive path) (hdone : Storage.Completed path before after)
    (hflagged : next.flagged = view.flagged) (hval : ∀ other < plan.movePaths.length,
      next.value other = if Affects plan path other ∧
        (state.initializePath path).pathInitialization other = .initialized then true
      else view.value other) :
    next.Synced (state.initializePath path) after := by
  refine hsync.install hvalid hpath hactive hstate hflagged (fun _ _ => ⟨Iff.rfl, rfl⟩)
    (fun _ _ _ => rfl) hdone hval ?_
  intro above habove hdown variant child hentry known hknown hset hout hclear other hother hin hflag
  obtain ⟨hchild, hdowncast⟩ := CleanupPlan.PathsValid.mem_variantChildren.mp hentry
  have hallows := (hstate.paths above habove).variant known hknown
  have hempty : before.Empty child := by
    refine hproper.consistent above child hchild variant hdowncast fun hsel => ?_
    rw [hsel] at hallows
    exact hout hallows
  have hstep := hsync other hother hflag fun third hthird hup hne hfull hamb => by
    -- an enum above the flag is empty, or its variant is known
    exfalso
    by_cases hlow : plan.Below child third
    · exact hfull.not_empty hvalid hthird (hempty.of_below hlow)
    have hhigh : plan.Below third above := by
      have hcomparable := (CleanupPlan.PathsValid.below_or_below hup hin).resolve_right hlow
      exact hvalid.below_parent (hvalid.mem_children.mp hchild) hthird hcomparable fun heq =>
        hlow (heq ▸ below_refl third)
    rcases CleanupPlan.PathsValid.below_or_below hhigh hdown with habove' | hbelow'
    · by_cases hsame : third = path
      · exact hclear third hthird (hsame ▸ below_refl third) hhigh hamb
      · exact hactive.not_ambiguous hvalid hpath hthird habove' hsame hamb
    · exact hclear third hthird hbelow' hhigh hamb
  by_contra hval
  exact (hstep.full (Bool.eq_true_of_not_eq_false hval)).not_empty hvalid hother
    (hempty.of_below hin)

theorem Synced.overwrite (hsync : view.Synced state before) (hstate : state.Describes before)
    (hpath : plan.Has path) (hactive : state.KnownActive path)
    (hdone : Storage.Completed path (before.clearPath path) after)
    (hflagged : next.flagged = view.flagged) (hval : ∀ other < plan.movePaths.length,
      next.value other = if Affects plan path other ∧
        ((state.clearPath path).initializePath path).pathInitialization other = .initialized
      then true else view.value other) :
    next.Synced ((state.clearPath path).initializePath path) after := by
  refine hsync.install hvalid hpath hactive (hstate.clearPath hvalid hpath hactive) hflagged
    (fun _ hout => before.erase_of_not hout)
    (fun other hother hout => discriminant_clearPath hvalid hpath hother hout) hdone hval ?_
  intro above habove hdown _ _ _ known hknown hset
  exact absurd (mayBeUnset_clearPath hvalid hpath habove hdown hknown) hset

variable {src : MovePathId}

/-- What a transfer leaves of the discriminants away from the destination. -/
theorem discriminant_moved (hdest : plan.Has dest) (hother : plan.Has other)
    (hout : ¬ plan.Below dest other) : (state.moved src dest).discriminant other =
      (state.clearPath src).discriminant other := by
  have hne : other ≠ dest := fun heq => hout (heq ▸ below_refl other)
  rw [moved]
  split
  · rw [discriminant_updateDiscriminant, if_neg hne]
    exact discriminant_clearPath hvalid hdest hother hout
  · exact discriminant_clearPath hvalid hdest hother hout

/-- Below the destination of a transfer, only the destination itself may have a variant. -/
theorem set_moved {above : MovePathId} (hdest : plan.Has dest)
    (habove : plan.Has above) (hbelow : plan.Below dest above)
    {known : DiscriminantState}
    (hknown : (state.moved src dest).discriminant above = some known)
    (hset : ¬ known.mayBeUnset) : above = dest ∧ state.discriminant src = some known := by
  have hcleared {known : DiscriminantState}
      (hknown : ((state.clearPath src).clearPath dest).discriminant above = some known) :=
    mayBeUnset_clearPath hvalid hdest habove hbelow hknown
  rw [moved] at hknown
  split at hknown
  · next discriminant hdisc =>
      rw [discriminant_updateDiscriminant] at hknown
      split_ifs at hknown with hsame
      · obtain ⟨old, -, rfl⟩ := Option.map_eq_some_iff.mp hknown
        exact ⟨hsame, hdisc⟩
      · exact absurd (hcleared hknown) hset
  · exact absurd (hcleared hknown) hset

/-- A transfer first clears the source, then completes the destination. -/
theorem Synced.transfer (hsync : view.Synced state before) (hstate : state.Describes before)
    (kind : TransferKind) (hsrc : plan.Has src)
    (hdest : plan.Has dest) (hactive : state.KnownActive src)
    (hactive' : state.KnownActive dest) (hapart : ¬ plan.Below src dest)
    (hkeeps : OperationKeeps state before view (.transfer src dest kind))
    (hdone : Storage.Completed dest
      (((before.clearPath src).clearPath dest).select dest
        (before.variant src)) after) (hflagged : next.flagged = view.flagged)
    (hval : ∀ other < plan.movePaths.length, next.value other = if Affects plan dest other ∧
        (state.transfer src dest).pathInitialization other = .initialized then true
      else if Affects plan src other then false else view.value other) :
    next.Synced (state.transfer src dest) after := by
  let middle : FlagView :=
    { flagged := view.flagged
      value := fun other => if Affects plan src other then false else view.value other }
  have hmid : middle.Synced (state.clearPath src) (before.clearPath src) :=
    hsync.moveOut hvalid hsrc hactive rfl fun _ _ => rfl
  have hknown := hactive'.clearPath hvalid hsrc fun hbelow => absurd hbelow hapart
  have hne {other : MovePathId} (hout : ¬ plan.Below dest other) : other ≠ dest :=
    fun heq => hout (heq ▸ below_refl other)
  rw [transfer_eq]
  refine hmid.install hvalid hdest hknown
    (hstate.moved hvalid hsrc hdest hactive hactive' hapart) hflagged
    (fun other hout => ?_)
    (fun other hother hout => discriminant_moved hvalid hdest hother hout) hdone
    hval ?_
  · obtain ⟨hinit, hvar⟩ := (before.clearPath src).erase_of_not hout
    exact ⟨hinit, (Storage.select_of_ne _ (hne hout) _).trans hvar⟩
  · intro above habove hdown variant child hentry known hknown' hset hout hclear other hother hin
      hflag
    have hsingle : known.possibleVariants.card ≤ 1 :=
      Nat.le_of_not_lt fun hseveral => hclear above habove hdown (below_refl above)
        ⟨known, hknown', hseveral⟩
    obtain ⟨rfl, hsourceKnown⟩ := set_moved hvalid hdest habove hdown hknown' hset
    dsimp only [middle]
    split_ifs
    · rfl
    · exact hkeeps known hsourceKnown hset hsingle variant child hentry hout other hother hflag hin

theorem discriminant_assumeDiscriminant (variant : Nat) (hother : plan.Has other)
    (hout : ¬ plan.Below src other) :
    (state.assumeDiscriminant src variant).discriminant other = state.discriminant other := by
  have hne : other ≠ src := fun heq => hout (heq ▸ below_refl other)
  have hknown : (state.updateDiscriminant src fun _ => .known variant).pathState other =
      state.pathState other := by
    rw [pathState_updateDiscriminant, if_neg hne]
  suffices hstate : (state.assumeDiscriminant src variant).pathState other =
      state.pathState other from congrArg PathState.discriminant hstate
  rw [MoveState.assumeDiscriminant]
  split
  · next variants hrule =>
      rw [pathState_foldl_of_not, hknown]
      intro entry hentry state
      have hchild := CleanupPlan.PathsValid.mem_children_of_variants hrule hentry
      have hlt := lt_of_parent (hvalid.mem_children.mp hchild)
      have hout' : ¬ plan.Below entry.2 other :=
        fun hin => hout (below_trans (hvalid.below_child hchild) hin)
      split_ifs
      · exact pathState_markWhole_of_not_below hvalid hlt hother hout' _ _
      · rw [pathState_clearSubtreeOnly hvalid state hlt hother, if_neg hout']
  · exact hknown

/-- A match lays open flags of the payload only, which are in step by assumption. -/
theorem Synced.assumeDiscriminant (hsync : view.Synced state before) {variant : Nat}
    (hsrc : plan.Has src)
    (hkeeps : OperationKeeps state before view (.assumeDiscriminant src variant)) :
    view.Synced (state.assumeDiscriminant src variant) before := by
  intro other hother hflag hexposed
  by_cases hpayload : plan.Below src other ∧ src ≠ other
  · exact hkeeps other hother hflag hpayload.1 hpayload.2 hexposed
  · refine hsync other hother hflag fun above habove hup hne hfull hamb => ?_
    refine hexposed above habove hup hne hfull ?_
    rw [MoveState.Ambiguous, discriminant_assumeDiscriminant hvalid variant habove]
    · exact hamb
    · intro hin
      refine hpayload ⟨below_trans hin hup, ?_⟩
      rintro rfl
      exact hne (hvalid.below_antisymm habove hsrc hup hin)

/-- The flags of a local are clear once its storage starts or ends. -/
theorem Synced.clearLocalValue (hsync : view.Synced state before) (localId : LocalId)
    (hflagged : next.flagged = view.flagged)
    (hval : ∀ path < plan.movePaths.length, view.flagged path →
      next.value path = if (plan.place path).localId = localId then false else view.value path) :
    next.Synced (state.clearLocalValue localId) (before.clearLocal localId) := by
  refine hsync.clearLocal hvalid hflagged (fun path hpath hout => ?_) rfl rfl hval
  have hstate := pathState_clearLocalValue hvalid state localId hpath
  rw [if_neg hout] at hstate
  exact congrArg PathState.discriminant hstate

omit hvalid in
theorem Synced.of_live {next : MoveState plan} (hvalid : plan.PathsValid)
    (hsync : view.Synced state before) (hinit : after.init = before.init)
    (hvar : after.variant = before.variant) (hknown : next.discriminants = state.discriminants) :
    view.Synced next after := by
  have hfull {path : MovePathId} (hpath : plan.Has path) : after.Full path ↔ before.Full path :=
    ⟨fun hfull => hfull.congr hvalid hpath fun _ _ _ => by rw [hinit, hvar]; exact ⟨Iff.rfl, rfl⟩,
      fun hfull => hfull.congr hvalid hpath fun _ _ _ => by rw [hinit, hvar]; exact ⟨Iff.rfl, rfl⟩⟩
  intro path hpath hflag hexposed
  refine (hsync path hpath hflag fun above habove hbelow hne hcomplete hamb => ?_).congr
    (hfull hpath)
  refine hexposed above habove hbelow hne ((hfull habove).mpr hcomplete) ?_
  rw [MoveState.Ambiguous, MoveState.discriminant, hknown]
  exact hamb

/-- An edge that leaves no set flag behind keeps the flags in step. -/
theorem Synced.exitScopes (hsync : view.Synced state before) {scopes : List ScopeId}
    (hclear : ∀ scope ∈ scopes, ∀ localId ∈ plan.scopeLocals scope,
      ∀ path < plan.movePaths.length, view.flagged path → (plan.place path).localId = localId →
        view.value path = false) :
    view.Synced (state.exitScopes scopes) (before.exitScopes scopes) := by
  have hlocals (locals : List LocalId) : ∀ {state : MoveState plan} {before : Storage plan},
      view.Synced state before →
      (∀ localId ∈ locals, ∀ path < plan.movePaths.length, view.flagged path →
        (plan.place path).localId = localId → view.value path = false) →
      view.Synced (locals.foldl endStorage state)
        (locals.foldl Storage.endStorage before) := by
    induction locals with
    | nil => exact fun hsync _ => hsync
    | cons head rest ih =>
      intro state before hsync hclear
      refine ih ?_ fun localId hmem => hclear localId (mem_cons_of_mem head hmem)
      have hended : view.Synced (state.clearLocalValue head) (before.clearLocal head) :=
        hsync.clearLocalValue hvalid head rfl fun path hpath hflag => by
          split_ifs with hlocal
          · exact hclear head mem_cons_self path hpath hflag hlocal
          · rfl
      exact hended.of_live hvalid rfl rfl rfl
  induction scopes generalizing state before with
  | nil => exact hsync
  | cons head rest ih =>
    exact ih (hlocals _ hsync (hclear head mem_cons_self)) fun scope hmem =>
      hclear scope (mem_cons_of_mem head hmem)

/-- A checked operation that lays nothing open keeps the flags in step. -/
theorem Synced.step (hsync : view.Synced state before) (hstate : state.Describes before)
    (hproper : before.Proper) {op : CleanupOp} (hop : plan.OperationValid op)
    (hactive : state.KnowsActive op) (hkeeps : OperationKeeps state before view op)
    (hstep : Storage.Step op before after) : (view.update (state.applyOperation op) op).Synced
      (state.applyOperation op) after := by
  cases hstep with
  | storageLive localId =>
    have hcleared : (view.update (state.startStorage localId) (.storageLive localId)).Synced
        (state.clearLocalValue localId) (before.clearLocal localId) :=
      hsync.clearLocalValue hvalid localId rfl fun path _ _ => update_storageLive localId
    exact hcleared.of_live hvalid rfl rfl rfl
  | storageDead localId =>
    have hcleared : (view.update (state.endStorage localId) (.storageDead localId)).Synced
        (state.clearLocalValue localId) (before.clearLocal localId) :=
      hsync.clearLocalValue hvalid localId rfl fun path _ _ => update_storageDead localId
    exact hcleared.of_live hvalid rfl rfl rfl
  | @init path _ _ hdone =>
    exact hsync.init hvalid hstate hproper hop hactive hdone rfl
      fun other hother => update_init hvalid hop hother
  | moveOut path =>
    exact hsync.moveOut hvalid hop hactive rfl
      fun other hother => update_moveOut hvalid hop hother
  | @overwrite path _ _ hdone =>
    exact hsync.overwrite hvalid hstate hop hactive hdone rfl
      fun other hother => update_overwrite hvalid hop hother
  | @transfer src dest kind _ _ hdone =>
    obtain ⟨hsrc, hdest, hapart, -⟩ := hop
    exact hsync.transfer hvalid hstate kind hsrc hdest hactive.1 hactive.2 hapart hkeeps
      hdone rfl fun other hother => update_transfer hvalid hsrc hother hdest kind
  | setDiscriminant dest variant =>
    exact hsync.setDiscriminant hvalid hop hactive variant rfl
      fun other hother => update_setDiscriminant hvalid hop hother variant
  | @assumeDiscriminant src variant _ hsel =>
    exact (hsync.assumeDiscriminant hvalid hop hkeeps).congr rfl fun _ _ => rfl

end FlagView

end Salicin.Cleanup
