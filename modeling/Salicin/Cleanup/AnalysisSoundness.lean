import Salicin.Cleanup.FlagRuns
import Salicin.Cleanup.Monotone

/-!
# The move-state analysis is a sound fixpoint

The analysis of a structurally valid plan ends. When the plan is accepted, the entry state of a
block knows no more than what the operations make of the start along any path to the block.
-/

namespace Salicin.Cleanup

open List ConditionalStorage

variable {plan : CleanupPlan}

namespace MoveState

variable {locals variants : Finset Nat} {weak strong : MoveState plan}

/-! ## Both halves of a state -/

theorem WeakerThan.under (hweaker : weak.WeakerThan strong) : weak.Under strong := by
  intro path _
  refine ⟨fun hmay => ?_, fun hmust => ?_, fun known hknown wide hwide => ?_⟩
  · exact decide_eq_true (hweaker.mayInit (of_decide_eq_true hmay))
  · exact decide_eq_true (hweaker.mustInit (of_decide_eq_true hmust))
  · obtain ⟨slot, hslot, rfl⟩ := Option.map_eq_some_iff.mp hknown
    obtain ⟨slot', hslot', rfl⟩ := Option.map_eq_some_iff.mp hwide
    cases hslot.symm.trans hslot'
    exact ⟨hweaker.mayBeUnset slot, hweaker.possibleVariants slot⟩

theorem exists_discriminantIndex_eq (slot : Fin plan.discriminantCount) :
    ∃ path < plan.movePaths.length, plan.discriminantIndex path = some slot := by
  have hcount (len : Nat) : ∀ rank < Nat.count (plan.isEnumRoot ·) len,
      ∃ path < len, plan.isEnumRoot path ∧ Nat.count (plan.isEnumRoot ·) path = rank := by
    induction len with
    | zero => exact fun rank hrank => absurd hrank (Nat.not_lt_zero rank)
    | succ len ih =>
      intro rank hrank
      by_cases hbefore : rank < Nat.count (plan.isEnumRoot ·) len
      · obtain ⟨path, hpath, henum⟩ := ih rank hbefore
        exact ⟨path, Nat.lt_succ_of_lt hpath, henum⟩
      · rw [Nat.count_succ] at hrank
        split_ifs at hrank with henum
        · exact ⟨len, Nat.lt_succ_self len, henum, by omega⟩
        · exact absurd hrank hbefore
  obtain ⟨path, hpath, henum, hrank⟩ := hcount plan.movePaths.length slot.val slot.isLt
  refine ⟨path, hpath, ?_⟩
  rw [CleanupPlan.discriminantIndex, dif_pos ⟨henum, hpath⟩]
  exact congrArg some (Fin.ext hrank)

theorem weakerThan_of_under (hreach : weak.reachable)
    (hmayLive : strong.mayLive ⊆ weak.mayLive) (hmustLive : weak.mustLive ⊆ strong.mustLive)
    (hunder : weak.Under strong) (hweak : weak.Bounded locals variants)
    (hstrong : strong.Bounded locals variants) : weak.WeakerThan strong := by
  have hdiscs (slot : Fin plan.discriminantCount) :
      (weak.discriminants slot).Wider (strong.discriminants slot) := by
    obtain ⟨path, hpath, hslot⟩ := exists_discriminantIndex_eq slot
    have hknown (state : MoveState plan) :
        (state.pathState path).discriminant = some (state.discriminants slot) := by
      rw [pathState, discriminant, hslot]
      rfl
    exact (hunder path hpath).discriminant _ (hknown strong) _ (hknown weak)
  refine ⟨hreach, hmayLive, hmustLive, fun path hmem => ?_, fun path hmem => ?_,
    fun slot => (hdiscs slot).mayBeUnset, fun slot => (hdiscs slot).possibleVariants⟩
  · exact of_decide_eq_true
      ((hunder path (hstrong.paths path hmem)).may (decide_eq_true hmem))
  · exact of_decide_eq_true
      ((hunder path (hweak.paths path (hweak.init hmem))).must (decide_eq_true hmem))

/-! ## Steps -/

theorem storage_applyOperation (state : MoveState plan) (op : CleanupOp) :
    (state.applyOperation op).storage =
      match op with
      | .storageLive localId =>
        (state.reachable, insert localId state.mayLive, insert localId state.mustLive)
      | .storageDead localId =>
        (state.reachable, state.mayLive.erase localId, state.mustLive.erase localId)
      | _ => state.storage := by
  cases op with
  | storageLive localId | storageDead localId =>
    obtain ⟨hreach, hlive⟩ := Prod.mk.inj (storage_clearLocalValue state localId)
    obtain ⟨hmay, hmust⟩ := Prod.mk.inj hlive
    simp only [applyOperation, startStorage, endStorage, storage, hreach, hmay, hmust]
  | init path => exact storage_initializePath state path
  | moveOut path => exact storage_clearPath state path
  | overwrite path =>
    exact (storage_initializePath _ path).trans (storage_clearPath state path)
  | transfer source destination kind => exact storage_transfer _ _ _
  | setDiscriminant destination variant =>
    exact (storage_updateDiscriminant _ _ _).trans (storage_clearPath _ _)
  | assumeDiscriminant source variant => exact storage_assumeDiscriminant _ _ _

theorem live_applyOperation (hmayLive : strong.mayLive ⊆ weak.mayLive)
    (hmustLive : weak.mustLive ⊆ strong.mustLive) (op : CleanupOp) :
    (strong.applyOperation op).mayLive ⊆ (weak.applyOperation op).mayLive ∧
      (weak.applyOperation op).mustLive ⊆ (strong.applyOperation op).mustLive := by
  have hmay (state : MoveState plan) : (state.applyOperation op).mayLive = _ :=
    congrArg (·.2.1) (storage_applyOperation state op)
  have hmust (state : MoveState plan) : (state.applyOperation op).mustLive = _ :=
    congrArg (·.2.2) (storage_applyOperation state op)
  rw [hmay, hmay, hmust, hmust]
  cases op with
  | storageLive localId =>
    exact ⟨Finset.insert_subset_insert localId hmayLive,
      Finset.insert_subset_insert localId hmustLive⟩
  | storageDead localId =>
    exact ⟨Finset.erase_subset_erase localId hmayLive, Finset.erase_subset_erase localId hmustLive⟩
  | _ => exact ⟨hmayLive, hmustLive⟩

section
variable (hvalid : plan.PathsValid) (hvars : plan.VariantsWithin variants)
  (hweaker : weak.WeakerThan strong) (hweak : weak.Bounded locals variants)
  (hstrong : strong.Bounded locals variants)
include hvalid hvars hweaker hweak hstrong

/-- An operation that the weaker state knows the variants for keeps it the weaker one. -/
theorem WeakerThan.applyOperation {op : CleanupOp}
    (hop : plan.OperationValid op) (hwithin : op.Within locals variants)
    (hactive : weak.KnowsActive op) :
    (weak.applyOperation op).WeakerThan (strong.applyOperation op) := by
  obtain ⟨hmayLive, hmustLive⟩ := live_applyOperation hweaker.mayLive hweaker.mustLive op
  exact weakerThan_of_under ((reachable_applyOperation weak op).trans hweaker.reachable)
    hmayLive hmustLive
    (under_applyOperation hvalid hvars hweaker.under hstrong hop hwithin hactive)
    (hweak.applyOperation hvalid hvars hop hwithin)
    (hstrong.applyOperation hvalid hvars hop hwithin)

/-- The operations of a list, each of which passes its checks in the weaker state. -/
theorem WeakerThan.applyOperations {block : BasicBlockId} {start : Nat}
    {ops : List CleanupOp}
    (hops : ∀ op ∈ ops, plan.OperationValid op ∧ op.Within locals variants)
    (hchecked : verifyOperations block start weak ops = []) :
    (weak.applyOperations ops).WeakerThan (strong.applyOperations ops) := by
  induction ops generalizing weak strong start with
  | nil => exact hweaker
  | cons head rest ih =>
    obtain ⟨hvalidHead, hwithin⟩ := hops head mem_cons_self
    rw [verifyOperations, append_eq_nil_iff, append_eq_nil_iff] at hchecked
    have hactive := knowsActive_of_accepted hvalid hvalidHead hchecked.1.1
    exact ih
      (hweaker.applyOperation hvalid hvars hweak hstrong hvalidHead hwithin hactive)
      (hweak.applyOperation hvalid hvars hvalidHead hwithin)
      (hstrong.applyOperation hvalid hvars hvalidHead hwithin)
      (fun op hmem => hops op (mem_cons_of_mem head hmem))
      hchecked.2

omit hvars in
theorem WeakerThan.endStorage (localId : LocalId) :
    (weak.endStorage localId).WeakerThan (strong.endStorage localId) := by
  obtain ⟨hmayLive, hmustLive⟩ :=
    live_applyOperation hweaker.mayLive hweaker.mustLive (.storageDead localId)
  exact weakerThan_of_under ((reachable_endStorage weak localId).trans hweaker.reachable)
    hmayLive hmustLive (under_clearLocalValue hweaker.under hvalid localId)
    (hweak.endStorage localId) (hstrong.endStorage localId)

omit hvars in
theorem WeakerThan.foldl_endStorage (ended : List LocalId) :
    (ended.foldl MoveState.endStorage weak).WeakerThan
        (ended.foldl MoveState.endStorage strong) := by
  induction ended generalizing weak strong with
  | nil => exact hweaker
  | cons head rest ih =>
    exact ih (hweaker.endStorage hvalid hweak hstrong head) (hweak.endStorage head)
      (hstrong.endStorage head)

omit hvars in
theorem WeakerThan.exitScopes (scopes : List ScopeId) :
    (weak.exitScopes scopes).WeakerThan (strong.exitScopes scopes) := by
  have hended {state : MoveState plan} (hstate : state.Bounded locals variants) (scope : ScopeId) :
      ((plan.scopeLocals scope).foldl MoveState.endStorage state).Bounded locals variants :=
    Bounded.foldl (fun localId _ _ hstate => hstate.endStorage localId) hstate
  induction scopes generalizing weak strong with
  | nil => exact hweaker
  | cons head rest ih =>
    exact ih (hweaker.foldl_endStorage hvalid hweak hstrong _) (hended hweak head)
      (hended hstrong head)

end

end MoveState

/-! ## Paths of the graph -/

/-- What the operations make of the start along some path from the entry to a block. Each edge
ends the storage of the scopes that it leaves. -/
inductive Walked (plan : CleanupPlan) : BasicBlockId → MoveState plan → Prop
  | start : Walked plan plan.entry (.new true)
  | edge {block : BasicBlockId} {state : MoveState plan} {terminator : Terminator}
      {edge : CleanupEdge} (hwalked : Walked plan block state)
      (hterm : plan.blockTerminator block = some terminator)
      (hedge : edge ∈ terminator.edges) :
      Walked plan edge.target
        ((state.applyOperations (plan.blockOperations block)).exitScopes edge.exitedScopes)

namespace CleanupPlan

variable {entry : BasicBlockId → MoveState plan}

theorem valid_of_structuralErrors (hstruct : plan.structuralErrors = []) :
    plan.PathsValid ∧ plan.BlocksValid := by
  rw [structuralErrors, append_eq_nil_iff, append_eq_nil_iff] at hstruct
  exact ⟨pathsValid_of_verifyMovePaths hstruct.1.2, blocksValid_of_verifyBlocks hstruct.2⟩

/-- The entry state of a block knows no more than any path to the block tells. -/
theorem Accepted.weakerThan_walked (hacc : plan.Accepted entry) {block : BasicBlockId}
    {state : MoveState plan} (hwalked : Walked plan block state) :
    (∃ data, plan.blocks[block]? = some data) ∧
      state.Bounded plan.startedLocals plan.namedVariants ∧ (entry block).WeakerThan state := by
  obtain ⟨hvalid, hblocks, -, fuel, hcompute⟩ := hacc.checks
  obtain ⟨hstart, hedges⟩ := hacc.stable
  have hvars := plan.variantsWithin_named
  induction hwalked with
  | start => exact ⟨hblocks.entry, .new true, hstart⟩
  | @edge block state terminator edge _ hterm hedge ih =>
    obtain ⟨⟨data, hdata⟩, hstate, hweaker⟩ := ih
    have hentry := bounded_of_compute hvalid hblocks hcompute block
    have hmem := mem_of_getElem? hdata
    obtain ⟨hops, hchecked, -⟩ := hacc.block hweaker.reachable hdata
    have happlied := hweaker.applyOperations hvalid hvars hentry hstate
      (fun op hop =>
        ⟨hblocks.operations data hmem op hop, within_of_mem hmem hop⟩)
      hchecked
    rw [← hops] at happlied
    have hleft := happlied.exitScopes hvalid
      (bounded_blockOperations hvalid hblocks hentry block)
      (bounded_blockOperations hvalid hblocks hstate block) edge.exitedScopes
    refine ⟨?_, (bounded_blockOperations hvalid hblocks hstate block).exitScopes _, ?_⟩
    · obtain ⟨terminator', hterm', htargets⟩ := hblocks.terminator data hmem
      rw [blockTerminator, hdata] at hterm
      cases hterm'.symm.trans hterm
      exact htargets edge hedge
    · exact hleft.trans (hedges block hweaker.reachable terminator hterm edge hedge
        hleft.reachable)

end CleanupPlan

/-- The analysis of a structurally valid plan ends with any fuel from some bound on. When the plan
is accepted, the computed entry state of a block over-approximates what every path from the entry
to the block makes of the start. -/
theorem analysis_terminates_and_sound (plan : CleanupPlan) :
    (plan.structuralErrors = [] → ∃ bound, ∀ fuel, bound ≤ fuel →
      ∃ entry, MoveStateAnalysis.compute plan fuel = some entry) ∧
    ∀ entry, plan.Accepted entry → ∀ block state, Walked plan block state →
      (entry block).WeakerThan state := by
  refine ⟨fun hstruct => ?_, fun entry hacc block state hwalked => ?_⟩
  · obtain ⟨hvalid, hblocks⟩ := CleanupPlan.valid_of_structuralErrors hstruct
    exact CleanupPlan.exists_compute hvalid hblocks
  · exact (hacc.weakerThan_walked hwalked).2.2

/-- Where two branches meet, the state covers the branch that initializes the second local. -/
theorem analysis_terminates_and_sound_conditional :
    (∃ bound, ∀ fuel, bound ≤ fuel →
      ∃ entry, MoveStateAnalysis.compute conditionalPlan fuel = some entry) ∧
    ∃ state, Walked conditionalPlan 3 state ∧ 1 ∈ state.mayInit ∧
      (states 3).WeakerThan state := by
  obtain ⟨hends, hsound⟩ := analysis_terminates_and_sound conditionalPlan
  have hbranch : (⟨1, []⟩ : CleanupEdge) ∈ (Terminator.branch 0 ⟨1, []⟩ ⟨2, []⟩).edges :=
    mem_cons_self
  have hgoto : (⟨3, []⟩ : CleanupEdge) ∈ (Terminator.goto ⟨3, []⟩).edges := mem_cons_self
  have hfst : Walked conditionalPlan 1 _ := .edge .start rfl hbranch
  have hsnd : Walked conditionalPlan 3 _ := .edge hfst rfl hgoto
  exact ⟨hends (by decide), _, hsnd, by decide +kernel,
    hsound _ ConditionalStorage.accepted _ _ hsnd⟩

end Salicin.Cleanup
