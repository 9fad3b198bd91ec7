import Salicin.Codegen.Places

/-!
# The expressions that call lowering builds

Types with their signatures, places, and the kinds of the high-level IR that the lowering of a
call builds or looks at. An expression of any other kind is code that stays as it is.
-/

namespace Salicin.Codegen.Calls

/-! ## Types -/

/-- The mode of an argument: a pass mode that is not inferred. -/
inductive ArgumentMode
  | copy
  | move
  | borrow
  | mutBorrow
  deriving DecidableEq

inductive CallableKind
  | partialCall (function : String) (consumedGroups : Nat) (isFnMut isFnOnce : Bool)
  | closure (function : String) (isFnMut isFnOnce : Bool)
  deriving DecidableEq

mutual

inductive Ty
  | integer (kind : IntegerTy)
  | bool
  | unit
  | tuple (fields : List Ty)
  | pointer (pointee : Ty) (mutable : Bool)
  | reference (pointee : Ty) (mutable : Bool) (region : Option String)
  | str
  | slice (element : Ty)
  | array (element : Ty) (length : Nat)
  | struct (name : String)
  | enum (name : String)
  | never
  | function (signature : FunctionTy)
  | callable (callable : CallableTy)
  | continuation (input output : Ty)
  | effectCallable (input output answer : Ty)
  | effectRow (unsafety : Bool) (failureError : Option Ty) (customEffects : List String)
  | error

structure FunctionTy where
  groups : List (List Ty)
  unsafety : Bool
  failureError : Option Ty
  customEffects : List String
  result : Ty

structure CallableTy where
  signature : FunctionTy
  captures : List CallableCaptureTy
  kind : CallableKind

structure CallableCaptureTy where
  ty : Ty
  mode : ArgumentMode

end

mutual

/-- The derived equality of types. -/
def Ty.same : Ty → Ty → Bool
  | .integer first, .integer second => first = second
  | .bool, .bool | .unit, .unit | .str, .str | .never, .never | .error, .error => true
  | .tuple first, .tuple second => sameTypes first second
  | .pointer first mutable, .pointer second mutable' => first.same second && mutable == mutable'
  | .reference first mutable region, .reference second mutable' region' =>
    first.same second && mutable == mutable' && region == region'
  | .slice first, .slice second => first.same second
  | .array first length, .array second length' => first.same second && length == length'
  | .struct first, .struct second => first == second
  | .enum first, .enum second => first == second
  | .function first, .function second => first.same second
  | .callable first, .callable second => first.same second
  | .continuation input output, .continuation input' output' =>
    input.same input' && output.same output'
  | .effectCallable input output answer, .effectCallable input' output' answer' =>
    input.same input' && output.same output' && answer.same answer'
  | .effectRow unsafety failure custom, .effectRow unsafety' failure' custom' =>
    unsafety == unsafety' && sameOption failure failure' && custom == custom'
  | _, _ => false
termination_by structural first => first

def FunctionTy.same : FunctionTy → FunctionTy → Bool
  | ⟨groups, unsafety, failure, custom, result⟩, ⟨groups', unsafety', failure', custom', result'⟩ =>
    sameGroups groups groups' && unsafety == unsafety' && sameOption failure failure' &&
      custom == custom' && result.same result'
termination_by structural first => first

def CallableTy.same : CallableTy → CallableTy → Bool
  | ⟨signature, captures, kind⟩, ⟨signature', captures', kind'⟩ =>
    signature.same signature' && sameCaptures captures captures' && kind = kind'
termination_by structural first => first

def CallableCaptureTy.same : CallableCaptureTy → CallableCaptureTy → Bool
  | ⟨ty, mode⟩, ⟨ty', mode'⟩ => ty.same ty' && mode = mode'
termination_by structural first => first

def sameTypes : List Ty → List Ty → Bool
  | [], [] => true
  | first :: rest, second :: rest' => first.same second && sameTypes rest rest'
  | _, _ => false
termination_by structural first => first

def sameGroups : List (List Ty) → List (List Ty) → Bool
  | [], [] => true
  | first :: rest, second :: rest' => sameTypes first second && sameGroups rest rest'
  | _, _ => false
termination_by structural first => first

def sameOption : Option Ty → Option Ty → Bool
  | none, none => true
  | some first, some second => first.same second
  | _, _ => false
termination_by structural first => first

def sameCaptures : List CallableCaptureTy → List CallableCaptureTy → Bool
  | [], [] => true
  | first :: rest, second :: rest' => first.same second && sameCaptures rest rest'
  | _, _ => false
termination_by structural first => first

end

/-- `contextual_reference_result`. -/
def contextualReferenceResult (result : Ty) (expected : Option Ty) : Ty :=
  match result, expected with
  | .reference pointee mutable none, some (.reference expectedPointee expectedMutable region) =>
    if pointee.same expectedPointee && mutable == expectedMutable then
      .reference expectedPointee expectedMutable region
    else result
  | _, _ => result

def referenceValueTypesCompatible : Ty → Ty → Bool
  | .reference pointee mutable _, .reference expectedPointee expectedMutable _ =>
    pointee.same expectedPointee && mutable == expectedMutable
  | _, _ => false

/-! ## Places and expressions -/

abbrev LoanId := Nat

inductive LocalCapability
  | owned
  | sharedParam
  | mutParam
  deriving DecidableEq

/-- The local that holds the index of a staged array access. -/
structure HirDynamicIndex where
  localId : LocalId
  length : Nat
  arrayTy : Ty

structure HirPlace where
  localId : LocalId
  rootTy : Ty
  projections : List Nat
  dynamicIndex : Option HirDynamicIndex
  ty : Ty
  capability : LocalCapability
  rootMutable : Bool
  loan : Option LoanId
  indirect : Bool

/-- The place of a whole local. -/
def HirPlace.whole (localId : LocalId) (ty : Ty) (mutable : Bool) : HirPlace where
  localId := localId
  rootTy := ty
  projections := []
  dynamicIndex := none
  ty := ty
  capability := .owned
  rootMutable := mutable
  loan := none
  indirect := false

inductive HirReadKind
  | copy
  | inspect
  | move

inductive ClosureCaptureMode
  | shared
  | mutable
  | move

structure ForwardedClosureCapture where
  binding : LocalId
  index : Nat
  callableTy : Ty

structure ClosureCapture where
  place : HirPlace
  mode : ClosureCaptureMode
  forwarded : Option ForwardedClosureCapture

structure ParamSig where
  name : String
  ty : Ty
  mode : PassMode

structure ClosureInfo where
  function : String
  groups : List (List ParamSig)
  unsafety : Bool
  failureError : Option Ty
  customEffects : List String
  result : Ty
  captures : List ClosureCapture
  isFnOnce : Bool

structure PartialInfo where
  function : String
  consumedGroups : Nat
  captureCount : Nat
  isFnOnce : Bool

structure LocalInfo where
  id : LocalId
  ty : Ty
  mutable : Bool
  capability : LocalCapability
  partialInfo : Option PartialInfo
  closure : Option ClosureInfo

mutual

/-- `HirExprKind`. The arms of a match and the kinds that call lowering neither builds nor
looks at are code. -/
inductive HirExprKind (Code : Type)
  | unit
  | function (name : String)
  | read (place : HirPlace) (kind : HirReadKind)
  | call (function : String) (arguments : List (HirArgument Code))
      (consumedCallable : Option LocalId) (diverges : Bool)
  | indirectCall (callee : HirExpr Code) (arguments : List (HirArgument Code)) (diverges : Bool)
  | partialCall (function : String) (consumedGroups : Nat) (captures : List (HirArgument Code))
  | partialCapture (binding : LocalId) (index : Nat) (moves : Bool) (callableTy : Ty)
  | localClosure (closure : ClosureInfo)
  | block (statements : List (HirStmt Code)) (tail : Option (HirExpr Code))
  | matchExpr (scrutinee : HirExpr Code) (arms : Code)
  | other (code : Code)

structure HirExpr (Code : Type) where
  ty : Ty
  kind : HirExprKind Code

inductive HirArgument (Code : Type)
  | copy (value : HirExpr Code)
  | move (value : HirExpr Code)
  | sharedBorrow (place : HirPlace)
  | mutBorrow (place : HirPlace)
  | callableCaptureBorrow (binding : LocalId) (index : Nat) (callableTy captureTy : Ty)
      (mutable : Bool)

inductive HirStmt (Code : Type)
  | letBinding (binding : HirBinding Code)
  | expr (value : HirExpr Code)

structure HirBinding (Code : Type) where
  id : LocalId
  name : String
  ty : Ty
  mutable : Bool
  value : HirExpr Code

end

variable {Code : Type}

def errorExpr : HirExpr Code where
  ty := .error
  kind := .unit

/-- The capture that a callable keeps for an argument. -/
def HirArgument.captureTy : HirArgument Code → CallableCaptureTy
  | .copy value => { ty := value.ty, mode := .copy }
  | .move value => { ty := value.ty, mode := .move }
  | .sharedBorrow place => { ty := place.ty, mode := .borrow }
  | .mutBorrow place => { ty := place.ty, mode := .mutBorrow }
  | .callableCaptureBorrow _ _ _ captureTy mutable =>
    { ty := captureTy, mode := if mutable then .mutBorrow else .borrow }

/-- `partial_callable_ty`. -/
def partialCallableTy (function : String) (consumedGroups : Nat) (signature : FunctionTy)
    (arguments : List (HirArgument Code)) : Ty :=
  let captures := arguments.map HirArgument.captureTy
  let isFnOnce := captures.any fun capture => capture.mode = .move
  let isFnMut := !isFnOnce && captures.any fun capture => capture.mode = .mutBorrow
  .callable { signature, captures, kind := .partialCall function consumedGroups isFnMut isFnOnce }

/-- An argument that a partial application may not keep. -/
def HirArgument.isBorrowed : HirArgument Code → Bool
  | .sharedBorrow _ | .mutBorrow _ => true
  | .copy value | .move value =>
    match value.ty with
    | .reference _ _ _ => true
    | _ => false
  | .callableCaptureBorrow _ _ _ _ _ => false

end Salicin.Codegen.Calls
