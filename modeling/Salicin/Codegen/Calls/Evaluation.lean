import Salicin.Codegen.Calls.State
import Salicin.Foundation.Runs

/-!
# Evaluating calls

The locals that a block binds are kept in an environment; the locals of the function around it
are part of the world. A machine says what the world does with all that is not a block, an
argument or a local of a block. Evaluation does not end, or comes to a value, or leaves the
block.
-/

namespace Salicin.Codegen.Calls

open Runs

/-- The values of the locals that the blocks around an expression bind. -/
abbrev Env (Value : Type) := LocalId → Option Value

/-- Bind locals one after the other. -/
def Env.extend {Value : Type} (env : Env Value) (bound : List (LocalId × Value)) : Env Value :=
  bound.foldl (fun env entry => Function.update env entry.1 (some entry.2)) env

/-- What a call is handed for an argument. -/
inductive Passed (Value Address : Type)
  | value (value : Value)
  /-- A place of the function around the call. -/
  | place (mutable : Bool) (place : HirPlace) (address : Address)
  /-- A local of a block, with what it holds. -/
  | stored (mutable : Bool) (place : HirPlace) (held : Value)
  | capture (mutable : Bool) (address : Address)

structure Machine (Code Value Address World Exit : Type) where
  unit : Value
  function : String → Value
  field : Value → Nat → Value
  read : HirPlace → HirReadKind → Run World Exit Value
  address : HirPlace → World → Address
  captureAddress : LocalId → Nat → Ty → World → Address
  partialCapture : LocalId → Nat → Bool → Ty → Run World Exit Value
  closure : ClosureInfo → Run World Exit Value
  call : String → List (Passed Value Address) → Option LocalId → Run World Exit Value
  callIndirect : Value → List (Passed Value Address) → Run World Exit Value
  partialCall : String → Nat → List (Passed Value Address) → Run World Exit Value
  arms : Code → Value → Run World Exit Value
  other : Code → Run World Exit Value

variable {Code Value Address World Exit : Type} (machine : Machine Code Value Address World Exit)

/-- Borrow a place. -/
def Machine.borrow (env : Env Value) (mutable : Bool) (place : HirPlace) :
    Run World Exit (Passed Value Address) :=
  match env place.localId with
  | some held => pure (.stored mutable place held)
  | none => do
    let world ← get
    pure (.place mutable place (machine.address place world))

/-- Read a place. -/
def Machine.readPlace (env : Env Value) (place : HirPlace) (kind : HirReadKind) :
    Run World Exit Value :=
  match env place.localId with
  | some held => pure (place.projections.foldl machine.field held)
  | none => machine.read place kind

mutual

def HirExprKind.eval (env : Env Value) : HirExprKind Code → Run World Exit Value
  | .unit => pure machine.unit
  | .function name => pure (machine.function name)
  | .read place kind => machine.readPlace env place kind
  | .call name arguments consumedCallable _ => do
    let passed ← evalArguments env arguments
    machine.call name passed consumedCallable
  | .indirectCall callee arguments _ => do
    let callee ← callee.eval env
    let passed ← evalArguments env arguments
    machine.callIndirect callee passed
  | .partialCall name consumedGroups captures => do
    let passed ← evalArguments env captures
    machine.partialCall name consumedGroups passed
  | .partialCapture binding index moves callableTy =>
    machine.partialCapture binding index moves callableTy
  | .localClosure closure => machine.closure closure
  | .block statements none => do
    let _ ← evalStatements env statements
    pure machine.unit
  | .block statements (some tail) => do
    let bound ← evalStatements env statements
    tail.eval (env.extend bound)
  | .matchExpr scrutinee arms => do
    let value ← scrutinee.eval env
    machine.arms arms value
  | .other code => machine.other code

def HirExpr.eval (env : Env Value) : HirExpr Code → Run World Exit Value
  | ⟨_, kind⟩ => kind.eval env

def HirArgument.eval (env : Env Value) :
    HirArgument Code → Run World Exit (Passed Value Address)
  | .copy value | .move value => do
    let value ← value.eval env
    pure (.value value)
  | .sharedBorrow place => machine.borrow env false place
  | .mutBorrow place => machine.borrow env true place
  | .callableCaptureBorrow binding index callableTy _ mutable => do
    let world ← get
    pure (.capture mutable (machine.captureAddress binding index callableTy world))

def evalArguments (env : Env Value) :
    List (HirArgument Code) → Run World Exit (List (Passed Value Address))
  | [] => pure []
  | argument :: rest => do
    let passed ← argument.eval env
    let others ← evalArguments env rest
    pure (passed :: others)

/-- The locals that statements bind. -/
def evalStatements (env : Env Value) :
    List (HirStmt Code) → Run World Exit (List (LocalId × Value))
  | [] => pure []
  | statement :: rest => do
    let bound ← statement.eval env
    let others ← evalStatements (env.extend bound) rest
    pure (bound ++ others)

def HirStmt.eval (env : Env Value) : HirStmt Code → Run World Exit (List (LocalId × Value))
  | .letBinding binding => binding.eval env
  | .expr value => do
    let _ ← value.eval env
    pure []

def HirBinding.eval (env : Env Value) : HirBinding Code → Run World Exit (List (LocalId × Value))
  | ⟨id, _, _, _, value⟩ => do
    let value ← value.eval env
    pure [(id, value)]

end

end Salicin.Codegen.Calls
