import Mathlib.Data.Finset.Sort
import Mathlib.Data.Fintype.Pi
import Salicin.Cleanup.Topology

/-!
# Move states

What the cleanup analysis knows at one point of the graph: which storage may and must be
live, which move paths may and must be completely initialized, and for each enum path
which variants it may have selected. The operations of a block rewrite this state.
-/

namespace Salicin.Cleanup

structure DiscriminantState where
  mayBeUnset : Bool
  possibleVariants : Finset Nat
  deriving DecidableEq

namespace DiscriminantState

def unset : DiscriminantState := { mayBeUnset := true, possibleVariants := ∅ }

def known (variant : Nat) : DiscriminantState :=
  { mayBeUnset := false, possibleVariants := {variant} }

def includeVariants (state : DiscriminantState) (variants : List Nat) : DiscriminantState :=
  { state with possibleVariants := state.possibleVariants ∪ variants.toFinset }

def joinWith (state other : DiscriminantState) : DiscriminantState :=
  { mayBeUnset := state.mayBeUnset || other.mayBeUnset
    possibleVariants := state.possibleVariants ∪ other.possibleVariants }

end DiscriminantState

structure MoveState (plan : CleanupPlan) where
  reachable : Bool
  mayLive : Finset LocalId
  mustLive : Finset LocalId
  mayInit : Finset MovePathId
  mustInit : Finset MovePathId
  discriminants : Fin plan.discriminantCount → DiscriminantState
  deriving DecidableEq

inductive PathInitialization
  | uninitialized
  | maybeOrPartial
  | initialized
  deriving DecidableEq

inductive StorageLiveness
  | dead
  | maybeLive
  | live
  deriving DecidableEq

inductive InitializationCertainty
  | may
  | must
  deriving DecidableEq

namespace MoveState

variable {plan : CleanupPlan}

def new (reachable : Bool) : MoveState plan :=
  { reachable, mayLive := ∅, mustLive := ∅, mayInit := ∅, mustInit := ∅
    discriminants := fun _ => .unset }

/-- The joined state, and whether it differs from the state before. -/
def joinFrom (state incoming : MoveState plan) : MoveState plan × Bool :=
  if ¬ incoming.reachable then (state, false)
  else if ¬ state.reachable then (incoming, true)
  else
    let joined : MoveState plan :=
      { reachable := state.reachable
        mayLive := state.mayLive ∪ incoming.mayLive
        mustLive := state.mustLive ∩ incoming.mustLive
        mayInit := state.mayInit ∪ incoming.mayInit
        mustInit := state.mustInit ∩ incoming.mustInit
        discriminants := fun slot => (state.discriminants slot).joinWith
          (incoming.discriminants slot) }
    (joined, joined ≠ state)

def discriminant (state : MoveState plan) (path : MovePathId) : Option DiscriminantState :=
  (plan.discriminantIndex path).map state.discriminants

def updateDiscriminant (state : MoveState plan) (path : MovePathId)
    (update : DiscriminantState → DiscriminantState) : MoveState plan :=
  match plan.discriminantIndex path with
  | some slot =>
    { state with
      discriminants :=
        Function.update state.discriminants slot (update (state.discriminants slot)) }
  | none => state

/-- The path is known not to be complete. -/
def removeInit (state : MoveState plan) (path : MovePathId) : MoveState plan :=
  { state with mayInit := state.mayInit.erase path, mustInit := state.mustInit.erase path }

/-- The path is certainly, or only perhaps, complete. -/
def markInit (state : MoveState plan) (path : MovePathId) (certainty : InitializationCertainty) :
    MoveState plan :=
  { state with
    mayInit := insert path state.mayInit
    mustInit :=
      match certainty with
      | .must => insert path state.mustInit
      | .may => state.mustInit.erase path }

def clearSubtreeOnly (state : MoveState plan) (path : MovePathId) : MoveState plan :=
  (plan.subtree path).foldl
    (fun state descendant =>
      (state.removeInit descendant).updateDiscriminant descendant fun _ => .unset)
    state

def clearPath (state : MoveState plan) (path : MovePathId) : MoveState plan :=
  (plan.ancestors path).foldl removeInit (state.clearSubtreeOnly path)

def clearLocalValue (state : MoveState plan) (localId : LocalId) : MoveState plan :=
  match plan.rootByLocal localId with
  | some root => state.clearSubtreeOnly root
  | none => state

def startStorage (state : MoveState plan) (localId : LocalId) : MoveState plan :=
  let cleared := state.clearLocalValue localId
  { cleared with
    mayLive := insert localId cleared.mayLive
    mustLive := insert localId cleared.mustLive }

def endStorage (state : MoveState plan) (localId : LocalId) : MoveState plan :=
  let cleared := state.clearLocalValue localId
  { cleared with
    mayLive := cleared.mayLive.erase localId
    mustLive := cleared.mustLive.erase localId }

/-- What a discriminant becomes when its enum path is marked. -/
def markDiscriminant (certainty : InitializationCertainty) (variants : List Nat)
    (discriminant : DiscriminantState) : DiscriminantState :=
  match certainty with
  | .must =>
    { (if discriminant.mayBeUnset then discriminant.includeVariants variants
        else discriminant) with mayBeUnset := false }
  | .may => { discriminant.includeVariants variants with mayBeUnset := true }

/-- The variants that a path's discriminant may have selected. -/
def possibleVariants (state : MoveState plan) (path : MovePathId) : Finset Nat :=
  match state.discriminant path with
  | some discriminant => discriminant.possibleVariants
  | none => ∅

/-- A variant is certain only as the single possible one of a certain enum. -/
def childCertainty (certainty : InitializationCertainty) (possible : Finset Nat) :
    InitializationCertainty :=
  if certainty = .must ∧ possible.card = 1 then .must else .may

/-- The stack of the source takes the children last to first, and the subtree of each before
the next; the bound stands for the height of the forest. -/
def markWhole : Nat → MovePathId → InitializationCertainty → MoveState plan → MoveState plan
  | 0, _, _, state => state
  | bound + 1, path, certainty, state =>
    let marked := state.markInit path certainty
    match plan.completion path with
    | .explicit => marked
    | .allChildren =>
      (plan.children path).reverse.foldl
        (fun state child => markWhole bound child certainty state) marked
    | .enumRoot variants =>
      let marked := marked.updateDiscriminant path
        (markDiscriminant certainty (variants.map (·.1)))
      let possible := marked.possibleVariants path
      let impossibleChildren := (variants.filter fun entry => entry.1 ∉ possible).map (·.2)
      let possibleChildren := (variants.filter fun entry => entry.1 ∈ possible).map (·.2)
      possibleChildren.reverse.foldl
        (fun state child => markWhole bound child (childCertainty certainty possible) state)
        (impossibleChildren.foldl clearSubtreeOnly marked)

/-- The path is as complete as the given one. -/
def copyInit (state : MoveState plan) (path child : MovePathId) : MoveState plan :=
  if child ∈ state.mustInit then state.markInit path .must
  else if child ∈ state.mayInit then state.markInit path .may
  else state.removeInit path

/-- The child of the only variant that an enum path can have selected. -/
def activeChild (state : MoveState plan) (path : MovePathId)
    (variants : List (Nat × MovePathId)) : Option MovePathId :=
  match state.discriminant path with
  | some discriminant =>
    if discriminant.mayBeUnset then none
    else (variants.find? fun entry => discriminant.possibleVariants = {entry.1}).map (·.2)
  | none => none

/-- One round of `recompose_ancestors`. -/
def recompose (state : MoveState plan) (path : MovePathId) : MoveState plan :=
  match plan.completion path with
  | .explicit => state
  | .allChildren =>
    if (plan.children path).all (· ∈ state.mustInit) then state.markInit path .must
    else if (plan.children path).all (· ∈ state.mayInit) then state.markInit path .may
    else state.removeInit path
  | .enumRoot variants =>
    match state.activeChild path variants with
    | some child => state.copyInit path child
    | none => state

def recomposeAncestors (state : MoveState plan) (path : MovePathId) : MoveState plan :=
  (plan.ancestors path).foldl recompose state

def initializePath (state : MoveState plan) (path : MovePathId) : MoveState plan :=
  (markWhole plan.height path .must state).recomposeAncestors path

def setDiscriminant (state : MoveState plan) (destination : MovePathId) (variant : Nat) :
    MoveState plan :=
  (state.clearPath destination).updateDiscriminant destination fun _ => .known variant

def assumeDiscriminant (state : MoveState plan) (source : MovePathId) (variant : Nat) :
    MoveState plan :=
  let known := state.updateDiscriminant source fun _ => .known variant
  match plan.completion source with
  | .enumRoot variants =>
    variants.foldl
      (fun state entry =>
        if entry.1 = variant then markWhole plan.height entry.2 .must state
        else state.clearSubtreeOnly entry.2)
      known
  | _ => known

def transfer (state : MoveState plan) (source destination : MovePathId) : MoveState plan :=
  let cleared := (state.clearPath source).clearPath destination
  let moved :=
    match state.discriminant source with
    | some discriminant => cleared.updateDiscriminant destination fun _ => discriminant
    | none => cleared
  moved.initializePath destination

def applyOperation (state : MoveState plan) : CleanupOp → MoveState plan
  | .storageLive localId => state.startStorage localId
  | .storageDead localId => state.endStorage localId
  | .init path => state.initializePath path
  | .overwrite path => (state.clearPath path).initializePath path
  | .moveOut path => state.clearPath path
  | .transfer source destination _ => state.transfer source destination
  | .setDiscriminant destination variant => state.setDiscriminant destination variant
  | .assumeDiscriminant source variant => state.assumeDiscriminant source variant

def storageLiveness (state : MoveState plan) (localId : LocalId) : StorageLiveness :=
  if localId ∈ state.mustLive then .live
  else if localId ∈ state.mayLive then .maybeLive
  else .dead

def pathInitialization (state : MoveState plan) (path : MovePathId) : PathInitialization :=
  if path ∈ state.mustInit then .initialized
  else if (plan.subtree path).any fun descendant =>
      descendant ∈ state.mayInit || (state.discriminant descendant).any fun discriminant =>
        ¬ discriminant.mayBeUnset || discriminant.possibleVariants ≠ ∅ then .maybeOrPartial
  else .uninitialized

def pathMayBeFullyInitialized (state : MoveState plan) (path : MovePathId) : Bool :=
  path ∈ state.mayInit

/-- A variant that a projection of the path requires and that is not known to be active. -/
structure InactiveDowncast where
  enumRoot : MovePathId
  required : Nat
  mayBeUnset : Bool
  possible : List Nat

def inactiveDowncastAt (state : MoveState plan) (path : MovePathId) : Option InactiveDowncast :=
  match plan.downcastVariant path, plan.parent path with
  | some required, some enumRoot =>
    match state.discriminant enumRoot with
    | some discriminant =>
      if discriminant.mayBeUnset ∨ discriminant.possibleVariants ≠ {required} then
        some { enumRoot, required, mayBeUnset := discriminant.mayBeUnset
               possible := discriminant.possibleVariants.sort (· ≤ ·) }
      else none
    -- a downcast parent is an enum root
    | none => some { enumRoot, required, mayBeUnset := true, possible := [] }
  | _, _ => none

def inactiveDowncast (state : MoveState plan) (path : MovePathId) : Option InactiveDowncast :=
  (path :: plan.ancestors path).findSome? state.inactiveDowncastAt

end MoveState

end Salicin.Cleanup
