import Salicin.Codegen.SlotTree

/-!
# Moves and assignments of a local's places

One owned local goes through a sequence of place moves and place assignments that the flow
analysis accepts. Beside the flow state the execution tracks what the emitted code does: the
drop flags of the local's slot tree and the leaves that hold a value. Every overwrite and
the end of the scope report the leaves that the emitted conditional drops end.

The flow's leaf keys stop at tuples, so the recorded keys describe the local only as long
as no step looks at a tuple from one side and at a component of it from the other.
`PlaceStep.Tracked` is that condition, and under it every drop is exact.
-/

namespace Salicin.Codegen

open PrefixPath DropSlot

inductive PlaceStep (layouts : Layouts)
  | move (place : HirPlace layouts)
  | assign (place : HirPlace layouts)

namespace PlaceStep

variable {layouts : Layouts}

def place : PlaceStep layouts → HirPlace layouts
  | move place => place
  | assign place => place

end PlaceStep

structure LocalState where
  flow : FlowState
  flags : DropFlags
  /-- The drop leaves that hold a value. -/
  live : Finset (List Nat)

namespace LocalState

variable (layouts : Layouts) (ty : Ty)

/-- The local right after its initialization, when `register_drop_slot` has set its flags. -/
def start : LocalState where
  flow := FlowState.start
  flags := fun _ => true
  live := (dropGlue layouts ty []).toFinset

/-- `update_place_drop_flags`; a local that needs no drop has no slot. -/
def updatePlaceDropFlags (flags : DropFlags) (projections : List Nat)
    (initialized rootInitialized : Bool) : DropFlags :=
  if layouts.needsDrop ty then
    storeFlags flags (collectPlaceFlagUpdates projections initialized
      rootInitialized (buildDropSlot layouts ty []))
  else flags

/-- The conditional drop before the store of an assignment. A place without a slot of its
own is an internal error of the emitter. -/
def overwriteDrop (place : HirPlace layouts) (assignment : AssignmentKind) (flags : DropFlags) :
    Option (List (List Nat) × DropFlags) :=
  if layouts.needsDrop place.ty ∧ assignment ≠ .initializing then
    (findDropSlot place.projections (buildDropSlot layouts ty [])).map
      (conditionalDrop layouts · flags)
  else some ([], flags)

/-- Reading a place by move: `access_place`, then the emitted flag updates. -/
def move (state : LocalState) (place : HirPlace layouts) : Option LocalState :=
  if state.flow.placeStatus place = .initialized ∧
      crossesCustomDrop layouts ty place.projections = false then
    some
      { flow := state.flow.markMoved place
        flags := updatePlaceDropFlags layouts ty state.flags place.projections false false
        live := state.live.filter fun leaf => ¬ place.projections <+: leaf }
  else none

/-- Lowering of an assignment to a place, then its emission. -/
def assign (state : LocalState) (place : HirPlace layouts) :
    Option (List (List Nat) × LocalState) :=
  let (assignment, flow) := state.flow.markInitialized place
  let rootInitialized := flow.placeStatus place.root = .initialized
  if assignment ≠ .overwrite ∧ crossesCustomDrop layouts ty place.projections then none
  else
    let live := state.live ∪
      (dropGlue layouts ty []).toFinset.filter fun leaf => place.projections <+: leaf
    match place.ty with
    | .unit => some ([], { flow, flags := state.flags, live })
    | _ =>
      (overwriteDrop layouts ty place assignment state.flags).map fun (dropped, flags) =>
        (dropped,
          { flow
            flags := updatePlaceDropFlags layouts ty flags place.projections true rootInitialized
            live })

/-- One accepted step with the leaves it drops. -/
def execute (state : LocalState) : PlaceStep layouts → Option (List (List Nat) × LocalState)
  | .move place => (move layouts ty state place).map ([], ·)
  | .assign place => assign layouts ty state place

/-- The drops at the end of the scope. -/
def scopeEnd (state : LocalState) : List (List Nat) :=
  if layouts.needsDrop ty then
    (conditionalDrop layouts (buildDropSlot layouts ty []) state.flags).1
  else []

end LocalState

/-- The place belongs to the local. -/
def HirPlace.Of {layouts : Layouts} (place : HirPlace layouts) (localId : LocalId) (ty : Ty) :
    Prop :=
  place.localId = localId ∧ place.rootTy = ty

/-- What the step has to do: a move takes leaves that all hold a value and drops nothing,
an assignment drops the live leaves of its place, each once. -/
def PlaceStep.Exact {layouts : Layouts} (ty : Ty) (state : LocalState)
    (dropped : List (List Nat)) : PlaceStep layouts → Prop
  | .move place => dropped = [] ∧
      ∀ leaf ∈ dropGlue layouts ty [], place.projections <+: leaf → leaf ∈ state.live
  | .assign place =>
    DropsExactly dropped fun leaf => place.projections <+: leaf ∧ leaf ∈ state.live

/-- The scope can end here with every live leaf dropped once. -/
def LocalState.EndExact (layouts : Layouts) (ty : Ty) (state : LocalState) : Prop :=
  DropsExactly (state.scopeEnd layouts ty) (· ∈ state.live)

/-- The recorded keys describe the place of the step: a moved place overlaps no recorded
key; a recorded key that overlaps an assigned place is one of its leaf keys, and any other
is a leaf key of the whole local. -/
def PlaceStep.Tracked {layouts : Layouts} (state : LocalState) : PlaceStep layouts → Prop
  | .move place => ∀ alternative ∈ state.flow.uninitialized, ∀ key ∈ alternative,
      ¬ Overlaps key.projections place.projections
  | .assign place => ∀ alternative ∈ state.flow.uninitialized, ∀ key ∈ alternative,
      if Overlaps key.projections place.projections then key ∈ placeLeafKeys place
      else key ∈ placeLeafKeys place.root

/-- The states of the local after a sequence of accepted steps that are all allowed. -/
inductive LocalRun (layouts : Layouts) (localId : LocalId) (ty : Ty)
    (allowed : LocalState → PlaceStep layouts → Prop) : LocalState → Prop
  | start : LocalRun layouts localId ty allowed (LocalState.start layouts ty)
  | step {state next : LocalState} {dropped : List (List Nat)} (step : PlaceStep layouts)
      (hrun : LocalRun layouts localId ty allowed state) (hplace : step.place.Of localId ty)
      (hallowed : allowed state step)
      (hstep : state.execute layouts ty step = some (dropped, next)) :
      LocalRun layouts localId ty allowed next

end Salicin.Codegen
