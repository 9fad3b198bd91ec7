import Salicin.Codegen.Calls.State
import Salicin.Codegen.CompileTime
import Salicin.Source.Ast

/-!
# Lowering a call argument

`lower_call_argument` turns an argument into a value to copy or move or into a place to borrow.
A borrowed argument that is not a place is bound to a fresh temporary. The loans it takes and
the temporary are returned beside the argument; the caller collects them.
-/

namespace Salicin.Source

/-- `unlocated`. -/
def Expr.unlocated : Expr → Expr
  | .located _ _ _ _ value => value.unlocated
  | expression => expression

end Salicin.Source

namespace Salicin.Codegen.Calls

open Salicin.Source (Expr CallArg MatchArm Param Pattern)

/-! ## What argument lowering calls -/

inductive AccessKind
  | auto
  | copy
  | move
  | sharedBorrow
  | mutBorrow

inductive LoanKind
  | shared
  | mutable

inductive TypeProbe
  | known (ty : Ty)
  | knownSource (ty : Ty)
  | defaultable (ty : Ty)
  | unsupported

/-- The locals that a call to the local reads or borrows. -/
def LocalInfo.Mentions (local_ : LocalInfo) (id : LocalId) : Prop :=
  local_.id = id ∨ ∃ closure, local_.closure = some closure ∧
      ∃ capture ∈ closure.captures, capture.place.localId = id

/-- The parts of lowering that the lowering of an argument calls. -/
structure ArgumentLowering (Rest : Type) (Code : Type) where
  lookup : String → Step Rest (Option LocalInfo)
    fun found id => ∃ local_, found = some local_ ∧ local_.Mentions id
  requireSameType : Ty → Ty → String → Step Rest PUnit
  isCopyType : Ty → Step Rest Bool
  isMoveType : Ty → Step Rest Bool
  diagnosticTypeName : Ty → Step Rest String
  probeExprTy : Expr → Step Rest TypeProbe
  lowerPlace : Expr → Step Rest (Option HirPlace)
    fun found id => ∃ place, found = some place ∧ place.localId = id
  lowerPlaceWithoutDiagnostic : Expr → Step Rest (Option HirPlace)
    fun found id => ∃ place, found = some place ∧ place.localId = id
  lowerExpr : Expr → Option Ty → Step Rest (HirExpr Code) HirExpr.Mentions
  lowerReferenceValueExprWithAccess : Expr → Ty → AccessKind →
    Step Rest (HirExpr Code) HirExpr.Mentions
  closureLiteralCaptureUses : List Param → Expr →
    Step Rest (Option (List (String × ClosureCaptureMode)))
  lowerLocalClosure : List Param → Expr → FunctionTy → Step Rest (HirExpr Code) HirExpr.Mentions
  lowerLocalPatternClosure : Pattern → Option Expr → Expr → FunctionTy →
    Step Rest (HirExpr Code) HirExpr.Mentions
  ensureAvailable : HirPlace → Step Rest PUnit
  ensureNoConflictingLoan : HirPlace → AccessKind → Step Rest PUnit
  projectedPlaceCrossesCustomDrop : HirPlace → Step Rest Bool
  guardMoveRestricted : LocalId → Step Rest Bool
  markMoved : HirPlace → Step Rest PUnit
  acquireLoan : HirPlace → LoanKind → Bool → Step Rest (Option LoanId)
  releaseLoans : List LoanId → Step Rest PUnit

/-- A lowered argument with the loans and the temporaries that it adds to those of the call. -/
structure LoweredArgument (Code : Type) where
  argument : HirArgument Code
  loans : List LoanId
  bindings : List (HirBinding Code)

/-- An argument that adds nothing. -/
def LoweredArgument.plain {Code : Type} (argument : HirArgument Code) : LoweredArgument Code where
  argument := argument
  loans := []
  bindings := []

section

variable {Rest : Type} {Code : Type} (lowering : ArgumentLowering Rest Code)

/-! ## Modes and places -/

def effectivePassMode (mode : PassMode) (ty : Ty) : Lower Rest ArgumentMode :=
  match mode with
  | .inferred => do
    if ← (lowering.isCopyType ty).run then pure .copy else pure .move
  | .copy => pure .copy
  | .move => pure .move
  | .borrow => pure .borrow
  | .mutBorrow => pure .mutBorrow

def ensureWritable (place : HirPlace) : Lower Rest PUnit :=
  match place.capability with
  | .mutParam => pure ()
  | .sharedParam => report "cannot assign through a shared borrow"
  | .owned =>
    if place.rootMutable then pure () else report "cannot assign to immutable binding"

/-- The complaint about a copied place whose type is not copyable. -/
def checkCopied (place : HirPlace) : Lower Rest PUnit := do
  if !(← (lowering.isCopyType place.ty).run) then
    let ty ← (lowering.diagnosticTypeName place.ty).run
    report s!"type `{ty}` does not implement copyable and cannot be copied"

/-- The copy that `access_place` reads. -/
def copyPlace (place : HirPlace) : Lower Rest (HirExpr Code) := do
  (lowering.ensureAvailable place).run
  (lowering.ensureNoConflictingLoan place .copy).run
  checkCopied lowering place
  pure { ty := place.ty, kind := .read place .copy }

/-- Mark a place as moved, or complain that it cannot be moved. -/
def moveOut (place : HirPlace) : Lower Rest PUnit := do
  if !(← (lowering.isMoveType place.ty).run) then
    let ty ← (lowering.diagnosticTypeName place.ty).run
    report s!"type `{ty}` does not implement movable and cannot be relocated"
  else if place.capability ≠ .owned then
    report "cannot move out of a borrowed value"
  else if ← (lowering.projectedPlaceCrossesCustomDrop place).run then
    report ("moving a field out through a type with custom droppable is not allowed because " ++
      "its destructor requires a complete value")
  else if (← (lowering.guardMoveRestricted place.localId).run) &&
      !(← (lowering.isCopyType place.ty).run) then
    report "cannot move a non-copyable pattern binding in a match guard"
  else
    (lowering.markMoved place).run

/-- The move that `access_place` reads. -/
def movePlace (place : HirPlace) : Lower Rest (HirExpr Code) := do
  (lowering.ensureAvailable place).run
  (lowering.ensureNoConflictingLoan place .move).run
  moveOut lowering place
  pure { ty := place.ty, kind := .read place .move }

/-- `access_place` with `AccessKind::Auto`. -/
def accessPlace (place : HirPlace) : Lower Rest (HirExpr Code) := do
  if ← (lowering.isCopyType place.ty).run then copyPlace lowering place
  else movePlace lowering place

/-- A value as the argument for its mode. -/
def valueArgument (mode : ArgumentMode) (value : HirExpr Code) : HirArgument Code :=
  if mode = .copy then .copy value else .move value

/-- A place as the argument that borrows it. -/
def borrowArgument (mutable : Bool) (place : HirPlace) : HirArgument Code :=
  if mutable then .mutBorrow place else .sharedBorrow place

def loanKind (mutable : Bool) : LoanKind := if mutable then .mutable else .shared

/-! ## References -/

def lowerReferencePlaceCallArgument (place : HirPlace) (parameter : ParamSig) (expected : Ty) :
    Lower Rest (Option (LoweredArgument Code)) := do
  if referenceValueTypesCompatible place.ty expected then
    let value ← accessPlace lowering place
    let value := { value with ty := expected }
    let mode ← effectivePassMode lowering parameter.mode expected
    pure (some (.plain (valueArgument mode value)))
  else
    match expected with
    | .reference pointee mutable _ =>
      if !place.ty.same pointee then pure none
      else
        onlyIf mutable (ensureWritable place)
        let loan ← (lowering.acquireLoan place (loanKind mutable) false).run
        let place :=
          { place with
            loan := loan <|> place.loan
            capability := if mutable then .mutParam else .sharedParam }
        pure (some
          { argument := borrowArgument mutable place, loans := loan.toList, bindings := [] })
    | _ => pure none

/-- The complaint about a copied argument whose type is not copyable. -/
def requireCopyable (parameter : ParamSig) : Lower Rest PUnit := do
  if !(← (lowering.isCopyType parameter.ty).run) then
    let ty ← (lowering.diagnosticTypeName parameter.ty).run
    report s!"parameter `{parameter.name}` requires copyable, but `{ty}` does not implement copyable"

/-- What the types of an argument and its parameter are compared for. -/
def argumentSubject (parameter : ParamSig) : String := s!"argument for parameter `{parameter.name}`"

def lowerReferenceValueCallArgument (argument : Expr) (parameter : ParamSig) :
    Lower Rest (LoweredArgument Code) := do
  let mode ← effectivePassMode lowering parameter.mode parameter.ty
  let access : AccessKind :=
    match mode with
    | .copy => .copy
    | .move => .move
    | .borrow | .mutBorrow => .auto
  let value ← (lowering.lowerReferenceValueExprWithAccess argument parameter.ty access).run
  (lowering.requireSameType value.ty parameter.ty (argumentSubject parameter)).run
  onlyIf (mode = .copy) (requireCopyable lowering parameter)
  pure (.plain (valueArgument mode value))

/-- An array that a slice is expected for. -/
def unsizesToSlice : Ty → Ty → Bool
  | .array actual _, .slice expected => actual.same expected
  | _, _ => false

/-- The temporary of an argument that is not a place. -/
def temporaryBinding (id : LocalId) (parameter : ParamSig) (mutable : Bool)
    (value : HirExpr Code) : HirBinding Code where
  id := id
  name := s!"$temporary argument for {parameter.name}"
  ty := value.ty
  mutable := mutable
  value := value

/-- Whether the probe of an argument shows a reference that fits the parameter, and whether it
shows a shared reference. -/
def probeReference (argument : Expr) (parameter : ParamSig) : Lower Rest (Bool × Bool) := do
  match ← (lowering.probeExprTy argument).run with
  | .known actual | .knownSource actual =>
    pure (referenceValueTypesCompatible actual parameter.ty,
      match actual with
      | .reference _ false _ => true
      | _ => false)
  | .defaultable _ | .unsupported => pure (false, false)

/-- The argument that a place gives for a reference parameter, if it is a place that fits. -/
def lowerReferencePlace (argument : Expr) (parameter : ParamSig) :
    Lower Rest (Option (LoweredArgument Code)) := do
  match ← (lowering.lowerPlaceWithoutDiagnostic argument).run with
  | some place => lowerReferencePlaceCallArgument lowering place parameter parameter.ty
  | none => pure none

/-- An argument for a reference parameter that is neither a reference nor a place is bound to a
temporary. -/
def lowerReferenceTemporary (argument : Expr) (parameter : ParamSig) (pointee : Ty)
    (mutable : Bool) : Lower Rest (LoweredArgument Code) := do
  let value ← (lowering.lowerExpr argument (some pointee)).run
  onlyIf (!unsizesToSlice value.ty pointee)
    (lowering.requireSameType value.ty pointee (argumentSubject parameter)).run
  let id ← freshLocal
  let place := HirPlace.whole id value.ty mutable
  let loan ← (lowering.acquireLoan place (loanKind mutable) false).run
  let place :=
    { place with
      loan := loan
      capability := if mutable then .mutParam else .sharedParam }
  pure
    { argument := borrowArgument mutable place
      loans := loan.toList
      bindings := [temporaryBinding id parameter mutable value] }

/-- The argument of a parameter that is a reference to the pointee. -/
def lowerReferenceCallArgument (argument : Expr) (parameter : ParamSig) (pointee : Ty)
    (mutable : Bool) : Lower Rest (LoweredArgument Code) := do
  let (isReferenceValue, isSharedReference) ← probeReference lowering argument parameter
  if isReferenceValue && (parameter.mode ≠ .inferred || isSharedReference) then
    lowerReferenceValueCallArgument lowering argument parameter
  else
    match ← lowerReferencePlace lowering argument parameter with
    | some lowered => pure lowered
    | none =>
      if isReferenceValue then lowerReferenceValueCallArgument lowering argument parameter
      else lowerReferenceTemporary lowering argument parameter pointee mutable

/-! ## Arguments that lowering itself writes -/

/-- `parse::<usize>`. -/
def parseUsize (text : List Char) : Option Nat :=
  let digits :=
    match text with
    | '+' :: rest => rest
    | _ => text
  if digits ≠ [] ∧ digits.all Char.isDigit then
    let value := digits.foldl (fun value digit => 10 * value + (digit.toNat - '0'.toNat)) 0
    if value < 2 ^ 64 then some value else none
  else none

def internalStoredCallableCapture : Expr → Option (String × Nat)
  | .call (.name name) [⟨none, .name localName⟩] => do
    let digits ← CompileTime.stripStart "$handler$stored$capture$" name
    let index ← parseUsize digits.toList
    some (localName, index)
  | _ => none

def lowerStoredCallableCapture (localName : String) (index : Nat) (parameter : ParamSig) :
    Lower Rest (LoweredArgument Code) := do
  match ← (lowering.lookup localName).run with
  | none =>
    report "internal stored callable capture refers to an unknown local"
    pure (.plain (.move errorExpr))
  | some local_ =>
    match local_.closure with
    | none =>
      report "internal stored callable capture requires a closure local"
      pure (.plain (.move errorExpr))
    | some closure =>
      match closure.captures[index]? with
      | none =>
        report "internal stored callable capture index is out of bounds"
        pure (.plain (.move errorExpr))
      | some capture =>
        (lowering.requireSameType capture.place.ty parameter.ty
          s!"lifted handler capture `{parameter.name}`").run
        match capture.mode with
        | .shared =>
          pure (.plain
            (.callableCaptureBorrow local_.id index local_.ty capture.place.ty false))
        | .mutable =>
          pure (.plain
            (.callableCaptureBorrow local_.id index local_.ty capture.place.ty true))
        | .move =>
          pure (.plain (.move
            { ty := capture.place.ty
              kind := .partialCapture local_.id index true local_.ty }))

def lowerInternalAsyncStoredBorrowArgument (expression : Expr) (parameter : ParamSig) :
    Lower Rest (Option (LoweredArgument Code)) := do
  match expression.unlocated with
  | .call callee arguments =>
    match callee.unlocated with
    | .name "$async$copy$stored$borrow" =>
      match arguments with
      | [⟨none, value⟩] =>
        match ← (lowering.lowerPlace value).run with
        | none => pure none
        | some place =>
          match place.ty with
          | .reference pointee mutable _ =>
            if !pointee.same parameter.ty then pure none
            else
              onlyIf (parameter.mode ≠ .borrow ∧ parameter.mode ≠ .mutBorrow)
                (report
                  "internal async stored-borrow argument requires a borrow parameter")
              onlyIf (parameter.mode = .mutBorrow && !mutable)
                (report
                  "internal async stored shared borrow cannot satisfy a mutable borrow")
              (lowering.requireSameType pointee parameter.ty
                (argumentSubject parameter)).run
              pure (some (.plain
                (.copy { ty := place.ty, kind := .read place .copy })))
          | _ =>
            report "internal async stored-borrow argument requires a reference field"
            pure (some (.plain (.move errorExpr)))
      | _ =>
        report "internal async stored-borrow argument received an invalid shape"
        pure (some (.plain (.move errorExpr)))
    | _ => pure none
  | _ => pure none

/-! ## Closures for function-typed parameters -/

/-- The function of a closure. -/
def ClosureInfo.asFunction (closure : ClosureInfo) : HirExpr Code where
  ty := .function
    { groups := closure.groups.map fun group => group.map ParamSig.ty
      unsafety := closure.unsafety
      failureError := closure.failureError
      customEffects := closure.customEffects
      result := closure.result }
  kind := .function closure.function

/-- The function of a lowered closure literal that captures nothing. -/
def closureAsFunction (complaint : String) (lowered : HirExpr Code) : Lower Rest (HirExpr Code) :=
  match lowered.kind with
  | .localClosure closure =>
    if closure.captures ≠ [] then do
      report complaint
      pure errorExpr
    else pure closure.asFunction
  | _ => pure errorExpr

def lowerNoncapturingClosureArgumentAsFunction (parameters : List Param) (body : Expr)
    (functionTy : FunctionTy) (parameterName : String) : Lower Rest (HirExpr Code) := do
  let complaint :=
    s!"capturing closure cannot be passed to function-typed parameter `{parameterName}` yet"
  match ← (lowering.closureLiteralCaptureUses parameters body).run with
  | none => pure errorExpr
  | some captures =>
    if captures ≠ [] then
      report complaint
      pure errorExpr
    else
      closureAsFunction complaint
        (← (lowering.lowerLocalClosure parameters body functionTy).run)

def lowerNoncapturingPatternClosureArgumentAsFunction (pattern : Pattern) (guard : Option Expr)
    (body : Expr) (functionTy : FunctionTy) (parameterName : String) :
    Lower Rest (HirExpr Code) := do
  closureAsFunction
    s!"capturing pattern closure cannot be passed to function-typed parameter `{parameterName}` yet"
    (← (lowering.lowerLocalPatternClosure pattern guard body functionTy).run)

/-! ## Arguments -/

/-- The value of an argument that is copied or moved. -/
def lowerArgumentValue (argument : Expr) (parameter : ParamSig) (mode : ArgumentMode) :
    Lower Rest (HirExpr Code) :=
  match parameter.ty, argument with
  | .function functionTy, .closure parameters body =>
    lowerNoncapturingClosureArgumentAsFunction lowering parameters body functionTy parameter.name
  | .function functionTy, .patternClosure pattern guard body =>
    lowerNoncapturingPatternClosureArgumentAsFunction lowering pattern guard body functionTy
      parameter.name
  | _, _ => do
    match ← (lowering.lowerPlaceWithoutDiagnostic argument).run with
    | some place =>
      if mode = .copy then copyPlace lowering place else movePlace lowering place
    | none => (lowering.lowerExpr argument (some parameter.ty)).run

def lowerValueCallArgument (argument : Expr) (parameter : ParamSig) (mode : ArgumentMode) :
    Lower Rest (LoweredArgument Code) :=
  match parameter.ty with
  | .reference pointee mutable _ =>
    lowerReferenceCallArgument lowering argument parameter pointee mutable
  | _ => do
    let value ← lowerArgumentValue lowering argument parameter mode
    (lowering.requireSameType value.ty parameter.ty (argumentSubject parameter)).run
    onlyIf (mode = .copy) (requireCopyable lowering parameter)
    pure (.plain (valueArgument mode value))

/-- The place of a borrowed argument; one that is not a place is bound to a temporary. -/
def lowerBorrowedPlace (argument : Expr) (parameter : ParamSig) (mutable : Bool) :
    Lower Rest (HirPlace × List (HirBinding Code)) := do
  match ← (lowering.lowerPlaceWithoutDiagnostic argument).run with
  | some place => pure (place, [])
  | none =>
    let value ← (lowering.lowerExpr argument (some parameter.ty)).run
    let id ← freshLocal
    pure (HirPlace.whole id value.ty mutable, [temporaryBinding id parameter mutable value])

def lowerBorrowCallArgument (argument : Expr) (parameter : ParamSig) (mutable : Bool) :
    Lower Rest (LoweredArgument Code) := do
  let (place, bindings) ← lowerBorrowedPlace lowering argument parameter mutable
  (lowering.requireSameType place.ty parameter.ty (argumentSubject parameter)).run
  onlyIf mutable (ensureWritable place)
  let loan ← (lowering.acquireLoan place (loanKind mutable) false).run
  let place := { place with loan := loan <|> place.loan }
  pure { argument := borrowArgument mutable place, loans := loan.toList, bindings }

def lowerCallArgument (argument : Expr) (parameter : ParamSig) :
    Lower Rest (LoweredArgument Code) :=
  match internalStoredCallableCapture argument with
  | some (localName, index) => lowerStoredCallableCapture lowering localName index parameter
  | none => do
    match ← lowerInternalAsyncStoredBorrowArgument lowering argument parameter with
    | some lowered => pure lowered
    | none =>
      match ← effectivePassMode lowering parameter.mode parameter.ty with
      | .copy => lowerValueCallArgument lowering argument parameter .copy
      | .move => lowerValueCallArgument lowering argument parameter .move
      | .borrow => lowerBorrowCallArgument lowering argument parameter false
      | .mutBorrow => lowerBorrowCallArgument lowering argument parameter true

end

end Salicin.Codegen.Calls
