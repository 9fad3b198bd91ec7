import Salicin.Cleanup.PathStates
import Salicin.Cleanup.VerifyStructure
import Salicin.Foundation.Worklist

/-!
# The move-state analysis and its verification

The move states at the entry of every block, as the fixpoint of a worklist, and the checks that
each operation and terminator passes in the state that reaches it. A plan is accepted when its
structure and its move states pass.
-/

namespace Salicin.Cleanup

namespace CleanupPlan

variable (plan : CleanupPlan)

def scopeLocals (scope : ScopeId) : List LocalId :=
  match plan.scopes[scope]? with
  | some data => data.locals
  | none => []

def blockOperations (block : BasicBlockId) : List CleanupOp :=
  match plan.blocks[block]? with
  | some data => data.operations
  | none => []

def blockTerminator (block : BasicBlockId) : Option Terminator :=
  (plan.blocks[block]?).bind fun data => data.terminator

end CleanupPlan

namespace MoveState

variable {plan : CleanupPlan}

def applyOperations (state : MoveState plan) (ops : List CleanupOp) : MoveState plan :=
  ops.foldl applyOperation state

/-- An edge ends the storage of the scopes that it leaves. -/
def exitScopes (state : MoveState plan) (scopes : List ScopeId) : MoveState plan :=
  scopes.foldl (fun state scope => (plan.scopeLocals scope).foldl endStorage state) state

@[simp]
theorem reachable_applyOperations (state : MoveState plan) (ops : List CleanupOp) :
    (state.applyOperations ops).reachable = state.reachable := by
  induction ops generalizing state with
  | nil => rfl
  | cons head rest ih => exact (ih _).trans (reachable_applyOperation state head)

@[simp]
theorem reachable_exitScopes (state : MoveState plan) (scopes : List ScopeId) :
    (state.exitScopes scopes).reachable = state.reachable := by
  have hlocals (locals : List LocalId) (state : MoveState plan) :
      (locals.foldl endStorage state).reachable = state.reachable := by
    induction locals generalizing state with
    | nil => rfl
    | cons head rest ih => exact (ih _).trans (reachable_endStorage state head)
  induction scopes generalizing state with
  | nil => rfl
  | cons head rest ih => exact (ih _).trans (hlocals _ state)

end MoveState

namespace MoveStateAnalysis

variable (plan : CleanupPlan)

def analysis : Worklist.Analysis BasicBlockId (MoveState plan) where
  transfer block state := state.applyOperations (plan.blockOperations block)
  edges block state :=
    match plan.blockTerminator block with
    | some terminator =>
      terminator.edges.map fun edge => (edge.target, state.exitScopes edge.exitedScopes)
    | none => []
  join := MoveState.joinFrom

def start : Worklist.Tables BasicBlockId (MoveState plan) where
  entry := Function.update (fun _ => .new false) plan.entry (.new true)
  exit := fun _ => .new false
  queue := [plan.entry]
  queued := Function.update (fun _ => false) plan.entry true

/-- The states at the entries of the blocks, if the fuel suffices. -/
def compute (fuel : Nat) : Option (BasicBlockId → MoveState plan) :=
  (Worklist.run (analysis plan) fuel (start plan)).map fun tables => tables.entry

end MoveStateAnalysis

/-! ## Verification of the stable move states -/

namespace Debug

def liveness : StorageLiveness → String
  | .live => "Live"
  | .maybeLive => "MaybeLive"
  | .dead => "Dead"

def initialization : PathInitialization → String
  | .uninitialized => "Uninitialized"
  | .maybeOrPartial => "MaybeOrPartial"
  | .initialized => "Initialized"

def kind : TransferKind → String
  | .initializing => "Initialize"
  | .overwrite => "Overwrite"
  | .maybeOverwrite => "MaybeOverwrite"

end Debug

namespace MoveState

variable {plan : CleanupPlan} (state : MoveState plan)

def requireLive (block : BasicBlockId) (i : Nat) (path : MovePathId) (role : String) :
    List VerifyError :=
  let localId := (plan.place path).localId
  require (state.storageLiveness localId = .live)
    (s!"{role} in {Debug.block block} at operation {i} requires live storage " ++
      s!"{Debug.localId localId}, found {Debug.liveness (state.storageLiveness localId)}")

def requireActiveDowncasts (block : BasicBlockId) (i : Nat) (path : MovePathId)
    (role : String) : List VerifyError :=
  match state.inactiveDowncast path with
  | none => []
  | some inactive =>
    [⟨s!"{role} in {Debug.block block} at operation {i} projects variant " ++
      s!"{inactive.required} through enum path {Debug.path inactive.enumRoot}, whose " ++
      s!"discriminant is unset={inactive.mayBeUnset} with possible variants " ++
      Debug.list toString inactive.possible⟩]

/-- The state of the destination that a kind of transfer requires. -/
def requiredDestination : TransferKind → PathInitialization
  | .initializing => .uninitialized
  | .overwrite => .initialized
  | .maybeOverwrite => .maybeOrPartial

def verifyOperation (block : BasicBlockId) (i : Nat) : CleanupOp → List VerifyError
  | .storageLive localId =>
    require (state.storageLiveness localId = .dead)
      (s!"StorageLive in {Debug.block block} at operation {i} requires dead storage " ++
        s!"{Debug.localId localId}, found {Debug.liveness (state.storageLiveness localId)}")
  -- ending storage is idempotent: a local that is live on some paths only ends at the merge
  | .storageDead _ => []
  | .init path =>
    state.requireLive block i path "Init" ++
    state.requireActiveDowncasts block i path "Init"
  | .moveOut path =>
    state.requireLive block i path "MoveOut" ++
    state.requireActiveDowncasts block i path "MoveOut" ++
    require (state.pathInitialization path = .initialized)
      (s!"MoveOut in {Debug.block block} at operation {i} requires an initialized source " ++
        s!"{Debug.path path}, found {Debug.initialization (state.pathInitialization path)}")
  | .overwrite path =>
    state.requireLive block i path "Overwrite" ++
    state.requireActiveDowncasts block i path "Overwrite" ++
    require (state.pathInitialization path = .initialized)
      (s!"Overwrite in {Debug.block block} at operation {i} requires an initialized " ++
        s!"destination {Debug.path path}, found " ++
        Debug.initialization (state.pathInitialization path))
  | .transfer source destination kind =>
    state.requireLive block i source "Transfer source" ++
    state.requireLive block i destination "Transfer destination" ++
    state.requireActiveDowncasts block i source "Transfer source" ++
    state.requireActiveDowncasts block i destination "Transfer destination" ++
    require (state.pathInitialization source = .initialized)
      (s!"Transfer in {Debug.block block} at operation {i} requires an initialized " ++
        s!"source {Debug.path source}, found " ++
        Debug.initialization (state.pathInitialization source)) ++
    require (state.pathInitialization destination = requiredDestination kind)
      (s!"{Debug.kind kind} Transfer in {Debug.block block} at operation {i} has " ++
        s!"destination {Debug.path destination} in incompatible state " ++
        Debug.initialization (state.pathInitialization destination))
  | .setDiscriminant destination _ =>
    state.requireLive block i destination "SetDiscriminant" ++
    state.requireActiveDowncasts block i destination "SetDiscriminant" ++
    require (state.pathInitialization destination = .uninitialized)
      (s!"SetDiscriminant in {Debug.block block} at operation {i} requires an " ++
        s!"uninitialized destination {Debug.path destination}, found " ++
        Debug.initialization (state.pathInitialization destination))
  | .assumeDiscriminant source _ =>
    state.requireLive block i source "AssumeDiscriminant" ++
    require (state.pathInitialization source = .initialized)
      (s!"AssumeDiscriminant in {Debug.block block} at operation {i} requires an " ++
        s!"initialized enum source {Debug.path source}, found " ++
        Debug.initialization (state.pathInitialization source))

/-- What must be so also may be so. -/
def verifyInvariants (block : BasicBlockId) (i : Nat) : List VerifyError :=
  (List.range plan.locals.length).flatMap (fun localId =>
    require (localId ∈ state.mustLive → localId ∈ state.mayLive)
      (s!"storage-liveness invariant failed after operation {i} in {Debug.block block}: " ++
        s!"{localId} is must-live but not may-live")) ++
  (List.range plan.movePaths.length).flatMap fun path =>
    require (path ∈ state.mustInit → path ∈ state.mayInit)
      (s!"move-state invariant failed after operation {i} in {Debug.block block}: " ++
        s!"{path} is must-init but not may-init")

/-- The checks of a list of operations, from the given position on. -/
def verifyOperations (block : BasicBlockId) :
    Nat → MoveState plan → List CleanupOp → List VerifyError
  | _, _, [] => []
  | i, state, operation :: rest =>
    state.verifyOperation block i operation ++
    (state.applyOperation operation).verifyInvariants block i ++
    verifyOperations block (i + 1) (state.applyOperation operation) rest

def verifyCondition (block : BasicBlockId) (condition : LocalId) : List VerifyError :=
  require (state.storageLiveness condition = .live)
    (s!"branch in {Debug.block block} requires live condition storage " ++
      s!"{Debug.localId condition}, found {Debug.liveness (state.storageLiveness condition)}") ++
  match plan.rootByLocal condition with
  | some root =>
    require (state.pathInitialization root = .initialized)
      (s!"branch in {Debug.block block} requires initialized condition storage " ++
        s!"{Debug.localId condition}, found " ++
        Debug.initialization (state.pathInitialization root))
  | none =>
    [⟨s!"branch in {Debug.block block} has no owned root move path for condition storage " ++
      Debug.localId condition⟩]

def verifyReturnPlace (block : BasicBlockId) (decl : LocalDecl) : List VerifyError :=
  require (state.storageLiveness decl.id = .live)
    (s!"return in {Debug.block block} requires live return place {Debug.localId decl.id}, found " ++
      Debug.liveness (state.storageLiveness decl.id)) ++
  match plan.rootByLocal decl.id with
  | some root =>
    require (state.pathInitialization root = .initialized)
      (s!"return in {Debug.block block} requires initialized return place " ++
        s!"{Debug.localId decl.id}, found " ++
        Debug.initialization (state.pathInitialization root))
  | none => [⟨s!"return place {Debug.localId decl.id} has no root move path"⟩]

def verifyTerminator (block : BasicBlockId) : Terminator → List VerifyError
  | .branch condition _ _ => state.verifyCondition block condition
  | .return _ =>
    (plan.locals.filter fun decl => decl.kind = .returnPlace).flatMap
      (state.verifyReturnPlace block)
  | _ => []

end MoveState

namespace CleanupPlan

variable (plan : CleanupPlan)

def verifyStableBlock (entry : BasicBlockId → MoveState plan) (block : BasicBlock) :
    List VerifyError :=
  let state := entry block.id
  if ¬ state.reachable then []
  else
    MoveState.verifyOperations block.id 0 state block.operations ++
    match block.terminator with
    | some terminator =>
      (state.applyOperations block.operations).verifyTerminator block.id terminator
    | none => []

def verifyStableMoveState (entry : BasicBlockId → MoveState plan) : List VerifyError :=
  plan.blocks.flatMap (plan.verifyStableBlock entry)

/-- The verified entry states, or the errors; nothing when the fuel of the analysis runs out. -/
def analyzeAndVerify (fuel : Nat) :
    Option (Except (List VerifyError) (BasicBlockId → MoveState plan)) :=
  if plan.structuralErrors ≠ [] then some (.error plan.structuralErrors)
  else if plan.verifyTopologyOperations ≠ [] then some (.error plan.verifyTopologyOperations)
  else
    (MoveStateAnalysis.compute plan fuel).map fun entry =>
      if plan.verifyStableMoveState entry ≠ [] then .error (plan.verifyStableMoveState entry)
      else .ok entry

/-- The plan finishes with the given move states. -/
def Accepted (entry : BasicBlockId → MoveState plan) : Prop :=
  ∃ fuel, plan.analyzeAndVerify fuel = some (.ok entry)

def accepts (fuel : Nat) : Bool :=
  match plan.analyzeAndVerify fuel with
  | some (.ok _) => true
  | _ => false

theorem exists_accepted {plan : CleanupPlan} {fuel : Nat} (haccepts : plan.accepts fuel) :
    ∃ entry, plan.Accepted entry := by
  rw [accepts] at haccepts
  split at haccepts
  · next entry hentry => exact ⟨entry, fuel, hentry⟩
  · exact absurd haccepts Bool.false_ne_true

theorem accepted_entryStates {plan : CleanupPlan} {fuel : Nat} (haccepts : plan.accepts fuel) :
    plan.Accepted ((MoveStateAnalysis.compute plan fuel).getD fun _ => .new false) := by
  rw [accepts] at haccepts
  split at haccepts
  · next entry hentry =>
      refine ⟨fuel, ?_⟩
      rw [analyzeAndVerify] at hentry ⊢
      split_ifs at hentry ⊢ with hstruct htopology
      · exact absurd hentry (by simp)
      · exact absurd hentry (by simp)
      · obtain ⟨computed, hcomputed, -⟩ := Option.map_eq_some_iff.mp hentry
        rw [hcomputed] at hentry ⊢
        rw [Option.map_some] at hentry ⊢
        split_ifs at hentry ⊢
        · exact absurd hentry (by simp)
        · rfl
  · exact absurd haccepts Bool.false_ne_true

end CleanupPlan

end Salicin.Cleanup
