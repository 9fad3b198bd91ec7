import Mathlib.Algebra.Order.BigOperators.Group.Finset
import Salicin.Cleanup.Analysis
import Salicin.Cleanup.OperationSoundness

/-!
# Bounded move states

What is certain is possible, a discriminant that is set has a possible variant, and all that is
possible is part of the plan. Every operation and every join keep states so, and a join that
changes a state takes it further up in a finite order, so the analysis terminates.
-/

namespace Salicin.Cleanup

open Function Finset MoveStateAnalysis

open CleanupPlan.PathsValid (lt_of_parent)

variable {path : MovePathId}

theorem CleanupPlan.PathsValid.variants_ne_nil {plan : CleanupPlan} (hvalid : plan.PathsValid)
    {entries : List (Nat × MovePathId)} (hrule : plan.completion path = .enumRoot entries) :
    entries.map (·.1) ≠ [] := by
  obtain ⟨child, hchild⟩ := List.exists_mem_of_ne_nil _ (children_ne_nil_of_enumRoot hrule)
  obtain ⟨variant, hentry⟩ := hvalid.exists_variant hrule hchild
  exact List.ne_nil_of_mem (List.mem_map_of_mem hentry)

/-- A discriminant that is set has a variant, and its variants are among the given ones. -/
structure DiscriminantState.Bounded (variants : Finset Nat) (state : DiscriminantState) : Prop where
  selected : state.mayBeUnset = true ∨ state.possibleVariants.Nonempty
  within : state.possibleVariants ⊆ variants

/-- Every variant of an enum path is among the given ones. -/
def CleanupPlan.VariantsWithin (plan : CleanupPlan) (variants : Finset Nat) : Prop :=
  ∀ path < plan.movePaths.length, ∀ entry ∈ plan.variantChildren path, entry.1 ∈ variants

/-- What an operation puts into a state is among the given. -/
def CleanupOp.Within (locals variants : Finset Nat) : CleanupOp → Prop
  | .storageLive localId => localId ∈ locals
  | .setDiscriminant _ variant => variant ∈ variants
  | .assumeDiscriminant _ variant => variant ∈ variants
  | _ => True

namespace DiscriminantState

/-- How far up the order a discriminant is. -/
def rank (state : DiscriminantState) : Nat :=
  (if state.mayBeUnset then 1 else 0) + state.possibleVariants.card

theorem Bounded.rank_le {variants : Finset Nat} {state : DiscriminantState}
    (hstate : state.Bounded variants) : state.rank ≤ 1 + variants.card := by
  refine Nat.add_le_add ?_ (card_le_card hstate.within)
  split_ifs
  · exact Nat.le_refl 1
  · exact Nat.zero_le 1

theorem rank_le_joinWith (state other : DiscriminantState) :
    state.rank ≤ (state.joinWith other).rank := by
  refine Nat.add_le_add ?_ (card_le_card subset_union_left)
  cases hunset : state.mayBeUnset with
  | false => exact Nat.zero_le _
  | true => rw [joinWith, hunset, Bool.true_or]

/-- A join that takes a discriminant no further up leaves it alone. -/
theorem joinWith_eq_of_rank_le {state other : DiscriminantState}
    (hle : (state.joinWith other).rank ≤ state.rank) : state.joinWith other = state := by
  obtain ⟨unset, possible⟩ := state
  have hcard : possible.card ≤ (possible ∪ other.possibleVariants).card :=
    card_le_card subset_union_left
  rw [rank, rank, joinWith] at hle
  rw [joinWith]
  dsimp only at hle ⊢
  have hflag : (if unset = true then 1 else 0) ≤
      if (unset || other.mayBeUnset) = true then 1 else 0 := by
    cases unset with
    | false => exact Nat.zero_le _
    | true => exact Nat.le_refl 1
  have hpossible : possible ∪ other.possibleVariants = possible :=
    (Finset.eq_of_subset_of_card_le subset_union_left (by omega)).symm
  have hunset : (unset || other.mayBeUnset) = unset := by
    cases unset with
    | true => rfl
    | false =>
      cases hother : other.mayBeUnset with
      | false => rfl
      | true =>
        rw [hother] at hle
        simp only [Bool.or_true, if_true, Bool.false_eq_true, if_false] at hle
        omega
  rw [hpossible, hunset]

end DiscriminantState

namespace DiscriminantState.Bounded

variable {variants : Finset Nat} {state : DiscriminantState}

theorem unset : DiscriminantState.unset.Bounded variants := ⟨.inl rfl, empty_subset _⟩

theorem known {variant : Nat} (hvar : variant ∈ variants) :
    (DiscriminantState.known variant).Bounded variants :=
  ⟨.inr (singleton_nonempty variant), singleton_subset_iff.mpr hvar⟩

theorem joinWith {other : DiscriminantState} (hstate : state.Bounded variants)
    (hother : other.Bounded variants) : (state.joinWith other).Bounded variants where
  selected := by
    rcases hstate.selected with hunset | hsome
    · exact .inl (Bool.or_eq_true_iff.mpr (.inl hunset))
    · exact .inr (hsome.mono subset_union_left)
  within := union_subset hstate.within hother.within

theorem markDiscriminant (hstate : state.Bounded variants) {names : List Nat} (hsome : names ≠ [])
    (hnames : ∀ name ∈ names, name ∈ variants) (certainty : InitializationCertainty) :
    (MoveState.markDiscriminant certainty names state).Bounded variants := by
  have hwithin : state.possibleVariants ∪ names.toFinset ⊆ variants :=
    union_subset hstate.within fun name hname => hnames name (List.mem_toFinset.mp hname)
  cases certainty with
  | may => exact ⟨.inl rfl, hwithin⟩
  | must =>
    rw [MoveState.markDiscriminant]
    split_ifs with hunset
    · refine ⟨.inr ?_, hwithin⟩
      exact (List.toFinset_nonempty_iff _).mpr hsome |>.mono subset_union_right
    · exact ⟨.inr (hstate.selected.resolve_left hunset), hstate.within⟩

end DiscriminantState.Bounded

namespace MoveState

variable {plan : CleanupPlan}

structure Bounded (locals variants : Finset Nat) (state : MoveState plan) : Prop where
  live : state.mustLive ⊆ state.mayLive
  locals : state.mayLive ⊆ locals
  init : state.mustInit ⊆ state.mayInit
  paths : ∀ path ∈ state.mayInit, path < plan.movePaths.length
  discriminants : ∀ slot, (state.discriminants slot).Bounded variants

namespace Bounded

variable {locals variants : Finset Nat} {state incoming : MoveState plan}

theorem new (reachable : Bool) : (MoveState.new reachable : MoveState plan).Bounded locals variants where
  live := empty_subset _
  locals := empty_subset _
  init := empty_subset _
  paths _ hmem := absurd hmem (notMem_empty _)
  discriminants _ := .unset

theorem joinFrom (hstate : state.Bounded locals variants)
    (hincoming : incoming.Bounded locals variants) :
    (state.joinFrom incoming).1.Bounded locals variants := by
  rw [MoveState.joinFrom]
  split_ifs
  · exact
      { live := inter_subset_left.trans (hstate.live.trans subset_union_left)
        locals := union_subset hstate.locals hincoming.locals
        init := inter_subset_left.trans (hstate.init.trans subset_union_left)
        paths := fun path hmem =>
          (mem_union.mp hmem).elim (hstate.paths path) (hincoming.paths path)
        discriminants := fun slot =>
          (hstate.discriminants slot).joinWith (hincoming.discriminants slot) }
  · exact hincoming
  · exact hstate

/-! ### Parts of operations -/

variable (hstate : state.Bounded locals variants)
include hstate

theorem removeInit (path : MovePathId) : (state.removeInit path).Bounded locals variants where
  live := hstate.live
  locals := hstate.locals
  init := erase_subset_erase path hstate.init
  paths other hmem := hstate.paths other (mem_of_mem_erase hmem)
  discriminants := hstate.discriminants

theorem markInit (hpath : plan.Has path) (certainty : InitializationCertainty) :
    (state.markInit path certainty).Bounded locals variants where
  live := hstate.live
  locals := hstate.locals
  init := by
    cases certainty with
    | must => exact insert_subset_insert path hstate.init
    | may => exact (erase_subset path _).trans (hstate.init.trans (subset_insert _ _))
  paths other hmem := by
    rcases mem_insert.mp hmem with rfl | hmem
    · exact hpath
    · exact hstate.paths other hmem
  discriminants := hstate.discriminants

theorem updateDiscriminant (path : MovePathId) {update : DiscriminantState → DiscriminantState}
    (hupdate : ∀ known : DiscriminantState, known.Bounded variants → (update known).Bounded variants) :
    (state.updateDiscriminant path update).Bounded locals variants := by
  rw [MoveState.updateDiscriminant]
  split
  · next slot hslot =>
      refine { hstate with discriminants := fun other => ?_ }
      by_cases hsame : other = slot
      · subst hsame
        dsimp only
        rw [update_self]
        exact hupdate _ (hstate.discriminants other)
      · dsimp only
        rw [update_of_ne hsame]
        exact hstate.discriminants other
  · exact hstate

omit hstate in
theorem foldl {α : Type*} {change : MoveState plan → α → MoveState plan} {items : List α}
    (hchange : ∀ item ∈ items, ∀ state : MoveState plan, state.Bounded locals variants →
      (change state item).Bounded locals variants)
    {state : MoveState plan} (hstate : state.Bounded locals variants) :
    (items.foldl change state).Bounded locals variants := by
  induction items generalizing state with
  | nil => exact hstate
  | cons head rest ih =>
    exact ih (fun item hitem => hchange item (List.mem_cons_of_mem head hitem))
      (hchange head List.mem_cons_self state hstate)

theorem clearSubtreeOnly (path : MovePathId) :
    (state.clearSubtreeOnly path).Bounded locals variants :=
  foldl (fun descendant _ _ hstate =>
    (hstate.removeInit descendant).updateDiscriminant descendant fun _ _ => .unset) hstate

theorem clearPath (path : MovePathId) : (state.clearPath path).Bounded locals variants :=
  foldl (fun ancestor _ _ hstate => hstate.removeInit ancestor) (hstate.clearSubtreeOnly path)

theorem clearLocalValue (localId : LocalId) :
    (state.clearLocalValue localId).Bounded locals variants := by
  rw [MoveState.clearLocalValue]
  split
  · exact hstate.clearSubtreeOnly _
  · exact hstate

theorem startStorage {localId : LocalId} (hlocal : localId ∈ locals) :
    (state.startStorage localId).Bounded locals variants :=
  have hcleared := hstate.clearLocalValue localId
  { hcleared with
    live := insert_subset_insert localId hcleared.live
    locals := insert_subset hlocal hcleared.locals }

theorem endStorage (localId : LocalId) : (state.endStorage localId).Bounded locals variants :=
  have hcleared := hstate.clearLocalValue localId
  { hcleared with
    live := erase_subset_erase localId hcleared.live
    locals := (erase_subset localId _).trans hcleared.locals }

theorem exitScopes (scopes : List ScopeId) : (state.exitScopes scopes).Bounded locals variants :=
  foldl (fun _ _ _ hstate => foldl (fun localId _ _ hstate => hstate.endStorage localId) hstate)
    hstate

/-! ### Operations -/

section
variable (hvalid : plan.PathsValid) (hvars : plan.VariantsWithin variants)
include hvalid hvars

omit hstate in
theorem markWhole {bound : Nat} (hpath : plan.Has path)
    (certainty : InitializationCertainty) {state : MoveState plan}
    (hstate : state.Bounded locals variants) :
    (MoveState.markWhole bound path certainty state).Bounded locals variants := by
  induction bound generalizing path certainty state with
  | zero => exact hstate
  | succ bound ih =>
    have hmarked := hstate.markInit hpath certainty
    rw [MoveState.markWhole]
    split
    · exact hmarked
    · refine foldl (fun child hchild _ hstate => ih ?_ certainty hstate) hmarked
      exact lt_of_parent (hvalid.mem_children.mp (List.mem_reverse.mp hchild))
    · next entries hrule =>
        have hentries := CleanupPlan.PathsValid.variants_eq hrule
        have hsome := hvalid.variants_ne_nil hrule
        have hwithin : ∀ name ∈ entries.map (·.1), name ∈ variants := by
          intro name hname
          obtain ⟨entry, hentry, rfl⟩ := List.mem_map.mp hname
          exact hvars path hpath entry (hentries ▸ hentry)
        have hknown := hmarked.updateDiscriminant path
          fun _ hknown => hknown.markDiscriminant hsome hwithin certainty
        refine foldl (fun child hchild _ hstate => ih ?_ _ hstate)
          (foldl (fun child _ _ hstate => hstate.clearSubtreeOnly child) hknown)
        exact lt_of_parent (hvalid.mem_children.mp
          (CleanupPlan.PathsValid.mem_children_of_filter hrule (List.mem_reverse.mp hchild)))

omit hvalid hvars in
theorem recompose (hpath : plan.Has path) : (state.recompose path).Bounded locals variants := by
  rw [MoveState.recompose]
  split
  · exact hstate
  · split_ifs
    · exact hstate.markInit hpath .must
    · exact hstate.markInit hpath .may
    · exact hstate.removeInit path
  · split
    · rw [copyInit]
      split_ifs
      · exact hstate.markInit hpath .must
      · exact hstate.markInit hpath .may
      · exact hstate.removeInit path
    · exact hstate

theorem initializePath (hpath : plan.Has path) :
    (state.initializePath path).Bounded locals variants :=
  foldl (fun _ hancestor _ hstate =>
      hstate.recompose ((hvalid.mem_ancestors hpath).mp hancestor).1)
    (markWhole hvalid hvars hpath .must hstate)

omit hvalid hvars in
theorem moved (source destination : MovePathId) :
    (state.moved source destination).Bounded locals variants := by
  have hcleared := (hstate.clearPath source).clearPath destination
  rw [MoveState.moved]
  split
  · next known hknown =>
      obtain ⟨slot, -, rfl⟩ := Option.map_eq_some_iff.mp hknown
      exact hcleared.updateDiscriminant destination fun _ _ => hstate.discriminants slot
  · exact hcleared

theorem transfer (source : MovePathId) {destination : MovePathId}
    (hdest : plan.Has destination) :
    (state.transfer source destination).Bounded locals variants :=
  (hstate.moved source destination).initializePath hvalid hvars hdest

theorem assumeDiscriminant {source : MovePathId} {variant : Nat}
    (hvar : variant ∈ variants) :
    (state.assumeDiscriminant source variant).Bounded locals variants := by
  have hknown := hstate.updateDiscriminant source
    fun _ _ => DiscriminantState.Bounded.known hvar
  rw [MoveState.assumeDiscriminant]
  split
  · next entries hrule =>
      refine foldl (fun entry hentry state hstate => ?_) hknown
      split_ifs
      · refine markWhole hvalid hvars ?_ .must hstate
        exact lt_of_parent (hvalid.mem_children.mp
          (CleanupPlan.PathsValid.mem_children_of_variants hrule hentry))
      · exact hstate.clearSubtreeOnly _
  · exact hknown

theorem applyOperation {op : CleanupOp} (hop : plan.OperationValid op)
    (hwithin : op.Within locals variants) :
    (state.applyOperation op).Bounded locals variants := by
  cases op with
  | storageLive localId => exact hstate.startStorage hwithin
  | storageDead localId => exact hstate.endStorage localId
  | init path => exact hstate.initializePath hvalid hvars hop
  | moveOut path => exact hstate.clearPath path
  | overwrite path => exact (hstate.clearPath path).initializePath hvalid hvars hop
  | transfer source destination kind =>
    exact hstate.transfer hvalid hvars source hop.2.1
  | setDiscriminant destination variant =>
    exact (hstate.clearPath destination).updateDiscriminant destination fun _ _ => .known hwithin
  | assumeDiscriminant source variant => exact hstate.assumeDiscriminant hvalid hvars hwithin

theorem applyOperations {operations : List CleanupOp}
    (hops : ∀ op ∈ operations, plan.OperationValid op ∧ op.Within locals variants) :
    (state.applyOperations operations).Bounded locals variants :=
  foldl (fun op hmem _ hstate =>
    hstate.applyOperation hvalid hvars (hops op hmem).1
      (hops op hmem).2) hstate

end

end Bounded

/-! ## The rank of a state -/

/-- How far up the order a state is. -/
def rank (locals : Finset Nat) (state : MoveState plan) : Nat :=
  if state.reachable then
    1 + state.mayLive.card + (locals \ state.mustLive).card + state.mayInit.card +
      (Finset.range plan.movePaths.length \ state.mustInit).card +
      ∑ slot, (state.discriminants slot).rank
  else 0

def maxRank (plan : CleanupPlan) (locals variants : Finset Nat) : Nat :=
  1 + locals.card + locals.card + plan.movePaths.length + plan.movePaths.length +
    plan.discriminantCount * (1 + variants.card)

section Rank

variable {locals variants : Finset Nat} {state incoming : MoveState plan}

theorem rank_le_maxRank (hstate : state.Bounded locals variants) :
    state.rank locals ≤ maxRank plan locals variants := by
  have hpaths : state.mayInit ⊆ Finset.range plan.movePaths.length :=
    fun path hmem => mem_range.mpr (hstate.paths path hmem)
  have hmayLive := card_le_card hstate.locals
  have hmustLive : (locals \ state.mustLive).card ≤ locals.card := card_le_card sdiff_subset
  have hmayInit := card_le_card hpaths
  have hmustInit : (Finset.range plan.movePaths.length \ state.mustInit).card ≤
      (Finset.range plan.movePaths.length).card := card_le_card sdiff_subset
  have hslots : ∑ slot, (state.discriminants slot).rank ≤
      plan.discriminantCount * (1 + variants.card) := by
    calc _ ≤ ∑ _slot : Fin plan.discriminantCount, (1 + variants.card) :=
          sum_le_sum fun slot _ => (hstate.discriminants slot).rank_le
      _ = plan.discriminantCount * (1 + variants.card) := by
          rw [sum_const_nat fun _ _ => rfl, card_univ, Fintype.card_fin]
  rw [card_range] at hmayInit hmustInit
  rw [rank, maxRank]
  split_ifs <;> omega

/-- A subset of as many elements that leaves as many others out is the whole set. -/
theorem eq_of_sdiff_card_le {small large all : Finset Nat} (hsmall : small ⊆ large)
    (hlarge : large ⊆ all) (hcard : (all \ small).card ≤ (all \ large).card) : small = large := by
  have hsame := Finset.eq_of_subset_of_card_le (Finset.sdiff_subset_sdiff subset_rfl hsmall) hcard
  rw [← Finset.sdiff_sdiff_eq_self (hsmall.trans hlarge), ← hsame,
    Finset.sdiff_sdiff_eq_self hlarge]

theorem rank_lt_joinFrom (hstate : state.Bounded locals variants)
    (hchanged : (state.joinFrom incoming).2 = true) :
    state.rank locals < (state.joinFrom incoming).1.rank locals := by
  rw [joinFrom] at hchanged ⊢
  split_ifs at hchanged ⊢ with hincoming hreach
  · -- both are reachable
    dsimp only at hchanged ⊢
    by_contra hlarge
    refine absurd ?_ (of_decide_eq_true hchanged)
    rw [rank, rank, if_pos hreach, if_pos hreach] at hlarge
    dsimp only at hlarge
    have hunion (known other : Finset Nat) : known.card ≤ (known ∪ other).card :=
      card_le_card subset_union_left
    have hmiss (all known other : Finset Nat) : (all \ known).card ≤ (all \ (known ∩ other)).card :=
      card_le_card (Finset.sdiff_subset_sdiff (subset_refl all) inter_subset_left)
    have hmayLive := hunion state.mayLive incoming.mayLive
    have hmustLive := hmiss locals state.mustLive incoming.mustLive
    have hmayInit := hunion state.mayInit incoming.mayInit
    have hmustInit := hmiss (Finset.range plan.movePaths.length) state.mustInit incoming.mustInit
    have hslots := sum_le_sum fun slot (_ : slot ∈ Finset.univ) =>
      (state.discriminants slot).rank_le_joinWith (incoming.discriminants slot)
    have hlive : state.mayLive ∪ incoming.mayLive = state.mayLive :=
      (Finset.eq_of_subset_of_card_le subset_union_left (by omega)).symm
    have hinit : state.mayInit ∪ incoming.mayInit = state.mayInit :=
      (Finset.eq_of_subset_of_card_le subset_union_left (by omega)).symm
    have hmustLive' : state.mustLive ∩ incoming.mustLive = state.mustLive :=
      eq_of_sdiff_card_le inter_subset_left (hstate.live.trans hstate.locals) (by omega)
    have hmustInit' : state.mustInit ∩ incoming.mustInit = state.mustInit :=
      eq_of_sdiff_card_le inter_subset_left
        (fun path hmem => mem_range.mpr (hstate.paths path (hstate.init hmem))) (by omega)
    have hsame := (sum_eq_sum_iff_of_le fun slot (_ : slot ∈ Finset.univ) =>
      (state.discriminants slot).rank_le_joinWith (incoming.discriminants slot)).mp (by omega)
    have hdiscs : (fun slot =>
        (state.discriminants slot).joinWith (incoming.discriminants slot)) = state.discriminants :=
      funext fun slot =>
        DiscriminantState.joinWith_eq_of_rank_le (hsame slot (mem_univ slot)).ge
    rw [hlive, hinit, hmustLive', hmustInit', hdiscs]
  · rw [rank, if_neg hreach, rank, if_pos hincoming]
    omega

end Rank

/-! ## Termination -/

end MoveState

namespace CleanupPlan

variable (plan : CleanupPlan)

/-- The locals whose storage some operation starts. -/
def startedLocals : Finset LocalId :=
  ((plan.blocks.flatMap (·.operations)).filterMap fun op =>
    match op with
    | .storageLive localId => some localId
    | _ => none).toFinset

/-- The variants of the enum paths, and those that operations name. -/
def namedVariants : Finset Nat :=
  ((List.range plan.movePaths.length).flatMap fun path =>
    (plan.variantChildren path).map (·.1)).toFinset ∪
  ((plan.blocks.flatMap (·.operations)).filterMap fun op =>
    match op with
    | .setDiscriminant _ variant => some variant
    | .assumeDiscriminant _ variant => some variant
    | _ => none).toFinset

theorem variantsWithin_named : plan.VariantsWithin plan.namedVariants := by
  intro path hpath entry hentry
  refine mem_union_left _ (List.mem_toFinset.mpr (List.mem_flatMap.mpr ?_))
  exact ⟨path, List.mem_range.mpr hpath, List.mem_map_of_mem hentry⟩

variable {plan}

theorem within_of_mem {block : BasicBlock} (hblock : block ∈ plan.blocks) {op : CleanupOp}
    (hop : op ∈ block.operations) :
    op.Within plan.startedLocals plan.namedVariants := by
  have hmem : op ∈ plan.blocks.flatMap (·.operations) := List.mem_flatMap.mpr ⟨block, hblock, hop⟩
  cases op with
  | storageLive localId =>
    exact List.mem_toFinset.mpr (List.mem_filterMap.mpr ⟨_, hmem, rfl⟩)
  | setDiscriminant destination variant | assumeDiscriminant source variant =>
    refine mem_union_right _ (List.mem_toFinset.mpr ?_)
    exact List.mem_filterMap.mpr ⟨_, hmem, rfl⟩
  | _ => exact trivial

theorem bounded_blockOperations (hvalid : plan.PathsValid) (hblocks : plan.BlocksValid)
    {state : MoveState plan}
    (hstate : state.Bounded plan.startedLocals plan.namedVariants) (block : BasicBlockId) :
    (state.applyOperations (plan.blockOperations block)).Bounded plan.startedLocals
      plan.namedVariants := by
  refine hstate.applyOperations hvalid plan.variantsWithin_named fun op hop => ?_
  rw [blockOperations] at hop
  split at hop
  · next data hdata =>
      have hmem := List.mem_of_getElem? hdata
      exact ⟨hblocks.operations data hmem op hop, within_of_mem hmem hop⟩
  · exact absurd hop List.not_mem_nil

theorem analysis_ranked (hvalid : plan.PathsValid) (hblocks : plan.BlocksValid) :
    Worklist.Ranked (MoveStateAnalysis.analysis plan)
      (MoveState.Bounded plan.startedLocals plan.namedVariants)
      (MoveState.rank plan.startedLocals)
      (MoveState.maxRank plan plan.startedLocals plan.namedVariants)
      (Finset.range plan.blocks.length) where
  transfer block state hstate := bounded_blockOperations hvalid hblocks hstate block
  edges block state hstate := by
    intro arrival harrival
    rw [MoveStateAnalysis.analysis] at harrival
    dsimp only at harrival
    split at harrival
    · next terminator hterm =>
        obtain ⟨edge, hedge, rfl⟩ := List.mem_map.mp harrival
        refine ⟨?_, hstate.exitScopes _⟩
        obtain ⟨data, hdata, hfound⟩ := Option.bind_eq_some_iff.mp hterm
        obtain ⟨found, hterm', htargets⟩ := hblocks.terminator data (List.mem_of_getElem? hdata)
        cases hterm'.symm.trans hfound
        obtain ⟨target, htgt⟩ := htargets edge hedge
        exact mem_range.mpr (List.getElem?_eq_some_iff.mp htgt).1
    · exact absurd harrival List.not_mem_nil
  join _ _ hstate hincoming := hstate.joinFrom hincoming
  le_bound _ hstate := MoveState.rank_le_maxRank hstate
  same state incoming hsame := by
    change (state.joinFrom incoming).2 = false at hsame
    change (state.joinFrom incoming).1 = state
    rw [MoveState.joinFrom] at hsame ⊢
    split_ifs at hsame ⊢
    · simpa using hsame
    · rfl
  grows _ _ hstate _ hchanged := MoveState.rank_lt_joinFrom hstate hchanged

theorem bounded_start (block : BasicBlockId) :
    ((start plan).entry block).Bounded plan.startedLocals plan.namedVariants := by
  rw [start]
  by_cases hentry : block = plan.entry
  · subst hentry
    dsimp only
    rw [update_self]
    exact .new true
  · dsimp only
    rw [update_of_ne hentry]
    exact .new false

theorem exists_compute (hvalid : plan.PathsValid) (hblocks : plan.BlocksValid) :
    ∃ bound, ∀ fuel, bound ≤ fuel → ∃ entry, compute plan fuel = some entry := by
  refine ⟨Worklist.remaining (MoveState.rank plan.startedLocals)
    (MoveState.maxRank plan plan.startedLocals plan.namedVariants)
    (Finset.range plan.blocks.length) (start plan), fun fuel hfuel => ?_⟩
  obtain ⟨tables, hrun⟩ := Worklist.exists_run (analysis_ranked hvalid hblocks) bounded_start hfuel
  exact ⟨tables.entry, by rw [compute, hrun]; rfl⟩

theorem bounded_of_compute (hvalid : plan.PathsValid) (hblocks : plan.BlocksValid) {fuel : Nat}
    {entry : BasicBlockId → MoveState plan}
    (hcompute : compute plan fuel = some entry) (block : BasicBlockId) :
    (entry block).Bounded plan.startedLocals plan.namedVariants := by
  obtain ⟨tables, hrun, rfl⟩ := Option.map_eq_some_iff.mp hcompute
  exact Worklist.good_run (analysis_ranked hvalid hblocks) bounded_start hrun block

end CleanupPlan

end Salicin.Cleanup
