import Salicin.Cleanup.Analysis
import Salicin.Cleanup.Storage

/-!
# Drop flags

At the end of a storage a path is dropped as a whole when it is certainly complete, not at all
when it is certainly empty, and otherwise when its run-time flag is set; a clear flag leaves
the decision to the children. The analysis collects the paths that need a flag, attaches flag
updates to the operations and lists the obligations of every storage end.
-/

namespace Salicin.Cleanup

abbrev DropFlagId := Nat

structure DropFlag where
  id : DropFlagId
  path : MovePathId

inductive DropCondition
  | static
  | flag (value : DropFlagId)

/-- When the condition holds, the path is complete and its drop glue owns the recursive cleanup.
Otherwise only the listed children may be dropped. -/
inductive DropObligation
  | mk (path : MovePathId) (condition : DropCondition) (childrenWhenClear : List DropObligation)

structure DropSite where
  block : BasicBlockId
  operationIndex : Nat
  localId : LocalId
  obligations : List DropObligation

inductive DropFlagValue
  | clear
  | set
  deriving DecidableEq

/-- A flag update performed immediately after the indexed operation. -/
structure DropFlagAction where
  block : BasicBlockId
  operationIndex : Nat
  flag : DropFlagId
  value : DropFlagValue

structure DropFlagAnalysis where
  flags : List DropFlag
  actions : List DropFlagAction
  sites : List DropSite

namespace MoveState

variable {plan : CleanupPlan}

/-- The paths from a path downward that need a flag in this state. -/
def conditionalPaths (state : MoveState plan) : Nat → MovePathId → List MovePathId
  | 0, _ => []
  | bound + 1, path =>
    if state.pathInitialization path ≠ .maybeOrPartial then []
    else
      (if (plan.path path).needsDrop && state.pathMayBeFullyInitialized path then [path]
        else []) ++
      (plan.children path).flatMap (state.conditionalPaths bound)

/-- The obligations of a path; the flags are looked up by their paths. -/
def obligationsForPath (state : MoveState plan) (flagForPath : MovePathId → DropFlagId) :
    Nat → MovePathId → List DropObligation
  | 0, _ => []
  | bound + 1, path =>
    let children := (plan.children path).flatMap (state.obligationsForPath flagForPath bound)
    match state.pathInitialization path with
    | .uninitialized => []
    | .initialized =>
      if (plan.path path).needsDrop then [.mk path .static []] else children
    | .maybeOrPartial =>
      if (plan.path path).needsDrop && state.pathMayBeFullyInitialized path then
        [.mk path (.flag (flagForPath path)) children]
      else children

/-- The value that a flag gets from an operation, in the state after the operation. -/
def flagValue (state : MoveState plan) (flagPath : MovePathId) :
    CleanupOp → Option DropFlagValue
  | .storageLive localId =>
    if localId = (plan.place flagPath).localId then some .clear else none
  | .storageDead localId =>
    if localId = (plan.place flagPath).localId then some .clear else none
  | .init path =>
    if (plan.containsPath path flagPath || plan.containsPath flagPath path) ∧
        state.pathInitialization flagPath = .initialized then some .set else none
  | .overwrite path =>
    if (plan.containsPath path flagPath || plan.containsPath flagPath path) ∧
        state.pathInitialization flagPath = .initialized then some .set else none
  | .moveOut path =>
    if plan.containsPath path flagPath || plan.containsPath flagPath path then some .clear
    else none
  | .setDiscriminant destination _ =>
    if plan.containsPath destination flagPath || plan.containsPath flagPath destination then
      some .clear
    else none
  | .transfer source destination _ =>
    let sourceAffects := plan.containsPath source flagPath || plan.containsPath flagPath source
    let destinationAffects :=
      plan.containsPath destination flagPath || plan.containsPath flagPath destination
    if destinationAffects ∧ state.pathInitialization flagPath = .initialized then some .set
    else if sourceAffects then some .clear
    else none
  | .assumeDiscriminant _ _ => none

end MoveState

namespace DropFlagAnalysis

variable (plan : CleanupPlan) (entry : BasicBlockId → MoveState plan)

def stateBefore (block : BasicBlockId) (i : Nat) : MoveState plan :=
  (entry block).applyOperations ((plan.blockOperations block).take i)

/-- The ends of storage with the roots of their locals. -/
def storageEnds : List (BasicBlockId × Nat × LocalId × MovePathId) :=
  plan.blocks.flatMap fun block =>
    block.operations.zipIdx.filterMap fun (operation, i) =>
      match operation with
      | .storageDead localId =>
        (plan.rootByLocal localId).map fun root => (block.id, i, localId, root)
      | _ => none

/-- The paths that need a flag somewhere, in the order of their numbers. -/
def flaggedPaths : List MovePathId :=
  let conditional := (storageEnds plan).flatMap fun (block, i, _, root) =>
    (stateBefore plan entry block i).conditionalPaths plan.height root
  (List.range plan.movePaths.length).filter (· ∈ conditional)

def computeFlags : List DropFlag :=
  (flaggedPaths plan entry).zipIdx.map fun (path, id) => { id, path }

def flagForPath (path : MovePathId) : DropFlagId := (flaggedPaths plan entry).idxOf path

/-- The flag updates of one operation. -/
def operationActions (block : BasicBlockId) (i : Nat) (operation : CleanupOp) :
    List DropFlagAction :=
  (computeFlags plan entry).filterMap fun flag =>
    ((stateBefore plan entry block (i + 1)).flagValue flag.path operation).map fun value =>
      { block, operationIndex := i, flag := flag.id, value }

def computeActions : List DropFlagAction :=
  plan.blocks.flatMap fun block =>
    if ¬ (entry block.id).reachable then []
    else block.operations.zipIdx.flatMap fun (operation, i) =>
      operationActions plan entry block.id i operation

def computeSites : List DropSite :=
  (storageEnds plan).filterMap fun (block, operationIndex, localId, root) =>
    let obligations := (stateBefore plan entry block operationIndex).obligationsForPath
      (flagForPath plan entry) plan.height root
    if obligations.isEmpty then none else some { block, operationIndex, localId, obligations }

def compute : DropFlagAnalysis :=
  { flags := computeFlags plan entry
    actions := computeActions plan entry
    sites := computeSites plan entry }

end DropFlagAnalysis

/-! ## Flags while a function runs -/

/-- The run-time values of the flags. -/
abbrev Flags := DropFlagId → Bool

namespace DropFlagAnalysis

/-- The updates that the analysis attaches to an operation. -/
def update (analysis : DropFlagAnalysis) (block : BasicBlockId) (i : Nat) (flags : Flags) : Flags :=
  analysis.actions.foldl
    (fun flags action =>
      if action.block = block ∧ action.operationIndex = i then
        Function.update flags action.flag (action.value = .set)
      else flags) flags

/-- The obligations at a position, none when it has no site. -/
def obligationsAt (analysis : DropFlagAnalysis) (block : BasicBlockId) (i : Nat) :
    List DropObligation :=
  match analysis.sites.find? fun site => site.block = block ∧ site.operationIndex = i with
  | some site => site.obligations
  | none => []

end DropFlagAnalysis

namespace DropCondition

def Holds (flags : Flags) : DropCondition → Prop
  | .static => True
  | .flag value => flags value

instance (flags : Flags) : DecidablePred (Holds flags) := fun condition =>
  match condition with
  | .static => isTrue trivial
  | .flag value => inferInstanceAs (Decidable (flags value = true))

end DropCondition

namespace Storage

variable {plan : CleanupPlan} (storage : Storage plan)

/-- The leaves that the drop glue of a path drops; an enum's glue reads its discriminant. -/
def glue : Nat → MovePathId → List MovePathId
  | 0, _ => []
  | bound + 1, path =>
    match plan.completion path with
    | .explicit => if (plan.path path).needsDrop then [path] else []
    | .allChildren => (plan.children path).flatMap (glue bound)
    | .enumRoot variants =>
      match variants.find? fun entry => storage.variant path = some entry.1 with
      | some entry => glue bound entry.2
      | none => []

mutual

/-- The leaves that an obligation drops. -/
def dropped (flags : Flags) : DropObligation → List MovePathId
  | .mk path condition childrenWhenClear =>
    if condition.Holds flags then storage.glue plan.height path
    else droppedAll flags childrenWhenClear

def droppedAll (flags : Flags) : List DropObligation → List MovePathId
  | [] => []
  | obligation :: rest => dropped flags obligation ++ droppedAll flags rest

end

/-- The leaves of a local that hold a value with a destructor. -/
def OwedDrop (localId : LocalId) (path : MovePathId) : Prop :=
  (plan.place path).localId = localId ∧ (plan.path path).needsDrop ∧ path ∈ storage.init

/-- The drops at the end of a storage are those that are owed, each once. -/
def DropsExactly (flags : Flags) (obligations : List DropObligation) (localId : LocalId) : Prop :=
  (storage.droppedAll flags obligations).Nodup ∧
    ∀ path, path ∈ storage.droppedAll flags obligations ↔ storage.OwedDrop localId path

end Storage

end Salicin.Cleanup
