import Mathlib.Data.Finset.Basic

/-!
# Cleanup plans

The type-independent ownership and cleanup control-flow graph of a function: scopes with
their locals, the move paths of owned storage, and basic blocks of cleanup operations whose
edges name the scopes they leave. Identities are positions in the plan's own tables.
-/

namespace Salicin.Cleanup

abbrev ScopeId := Nat
abbrev LocalId := Nat
abbrev MovePathId := Nat
abbrev BasicBlockId := Nat

inductive ScopeKind
  | root
  | functionBody
  | lexical
  | loop
  | matchArm
  | temporary
  deriving DecidableEq

structure ScopeData where
  id : ScopeId
  parent : Option ScopeId
  kind : ScopeKind
  locals : List LocalId

inductive LocalKind
  | argument
  | user
  | pattern
  | temporary
  | returnPlace
  deriving DecidableEq

/-- Whether storage owns a value or aliases storage owned elsewhere. -/
inductive LocalOwnership
  | owned
  | sharedBorrow
  | mutableBorrow
  deriving DecidableEq

structure LocalDecl where
  id : LocalId
  sourceLocal : Option Nat
  debugName : Option String
  scope : ScopeId
  kind : LocalKind
  ownership : LocalOwnership
  isMutable : Bool
  declarationOrder : Nat

inductive Projection
  | deref
  | field (index : Nat)
  | tupleIndex (index : Nat)
  | constantIndex (index : Nat)
  | index (localId : LocalId)
  | downcast (variant : Nat)
  | capture (index : Nat)
  deriving DecidableEq

structure Place where
  localId : LocalId
  projections : List Projection
  deriving DecidableEq

structure MovePath where
  id : MovePathId
  place : Place
  parent : Option MovePathId
  /-- Supplied by typed semantic analysis. -/
  needsDrop : Bool

instance : Inhabited MovePath := ⟨⟨0, ⟨0, []⟩, none, false⟩⟩

/-- What the destination of a transfer holds before it. -/
inductive TransferKind
  | initializing
  | overwrite
  | maybeOverwrite

inductive CleanupOp
  | storageLive (localId : LocalId)
  | init (path : MovePathId)
  | moveOut (path : MovePathId)
  | overwrite (path : MovePathId)
  /-- Consume the source place and install it into the destination. -/
  | transfer (source destination : MovePathId) (kind : TransferKind)
  /-- An enum destination selects a variant before the variant's fields are initialized. -/
  | setDiscriminant (destination : MovePathId) (variant : Nat)
  /-- A match edge refines a complete enum value to one variant. -/
  | assumeDiscriminant (source : MovePathId) (variant : Nat)
  | storageDead (localId : LocalId)

structure CleanupEdge where
  target : BasicBlockId
  /-- Scopes left by the edge, innermost first. -/
  exitedScopes : List ScopeId

inductive Terminator
  | goto (edge : CleanupEdge)
  | branch (condition : LocalId) (thenEdge elseEdge : CleanupEdge)
  | return (exitedScopes : List ScopeId)
  | abort
  | unreachable

namespace Terminator

/-- The outgoing edges that the analysis follows. -/
def edges : Terminator → List CleanupEdge
  | goto edge => [edge]
  | branch _ thenEdge elseEdge => [thenEdge, elseEdge]
  | _ => []

end Terminator

structure BasicBlock where
  id : BasicBlockId
  scope : ScopeId
  operations : List CleanupOp
  terminator : Option Terminator

structure CleanupPlan where
  rootScope : ScopeId
  entry : BasicBlockId
  scopes : List ScopeData
  locals : List LocalDecl
  movePaths : List MovePath
  blocks : List BasicBlock

namespace CleanupPlan

variable (plan : CleanupPlan)

/-- `move_paths[path]`; every use is behind a check that the index is valid. -/
def path (path : MovePathId) : MovePath := plan.movePaths[path]?.getD default

abbrev Has (path : MovePathId) : Prop := path < plan.movePaths.length

def place (path : MovePathId) : Place := (plan.path path).place

def parent (path : MovePathId) : Option MovePathId := (plan.path path).parent

/-- The final projection of a path's place. -/
def lastProjection (path : MovePathId) : Option Projection := (plan.place path).projections.getLast?

/-- The path of `descendant` is that of `ancestor` or lies inside it. -/
def Below (ancestor descendant : MovePathId) : Prop :=
  (plan.place ancestor).localId = (plan.place descendant).localId ∧
    (plan.place ancestor).projections <+: (plan.place descendant).projections

instance (ancestor descendant : MovePathId) : Decidable (plan.Below ancestor descendant) :=
  inferInstanceAs (Decidable (_ ∧ _))

end CleanupPlan

end Salicin.Cleanup
