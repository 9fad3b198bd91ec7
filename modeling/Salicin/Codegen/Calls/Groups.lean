import Salicin.Codegen.Calls.Arguments

/-!
# Staging the arguments of a call

`wrap_call_argument_temporaries` binds the temporaries of the borrowed arguments in front of the
call, and with them, in the order of the arguments, the value of every other argument. The
rewritten arguments are put into a call or into a partial application; there is no other shape
that it expects.
-/

namespace Salicin.Codegen.Calls

variable {Rest : Type} {Code : Type}

/-- A rewritten argument with the statements in front of the call and the temporaries that
remain. -/
structure StagedArgument (Code : Type) where
  statements : List (HirStmt Code)
  argument : HirArgument Code
  borrowed : List (HirBinding Code)

/-- Take the temporary that is the local out of those that remain. -/
def takeBinding (id : LocalId) (borrowed : List (HirBinding Code)) :
    List (HirStmt Code) × List (HirBinding Code) :=
  ((borrowed.find? fun binding => binding.id = id).toList.map .letBinding,
    borrowed.filter fun binding => binding.id ≠ id)

/-- The local that a value reads. -/
def readLocal : HirExprKind Code → Option LocalId
  | .read place _ => some place.localId
  | _ => none

def isFunctionConstant : HirExprKind Code → Bool
  | .function _ => true
  | _ => false

/-- Stage an argument that is a value; it is read back in the way that it is passed. -/
def stageValue (pass : HirExpr Code → HirArgument Code) (kind : HirReadKind)
    (value : HirExpr Code) (borrowed : List (HirBinding Code)) :
    Lower Rest (StagedArgument Code) :=
  if isFunctionConstant value.kind then
    pure { statements := [], argument := pass value, borrowed }
  else do
    let (lets, borrowed) :=
      match readLocal value.kind with
      | some id => takeBinding id borrowed
      | none => ([], borrowed)
    let id ← freshLocal
    let staged : HirBinding Code :=
      { id, name := "$staged call argument", ty := value.ty, mutable := false, value }
    pure
      { statements := lets ++ [.letBinding staged]
        argument := pass
          { ty := value.ty, kind := .read (.whole id value.ty false) kind }
        borrowed }

def stageArgument (argument : HirArgument Code) (borrowed : List (HirBinding Code)) :
    Lower Rest (StagedArgument Code) :=
  match argument with
  | .copy value => stageValue .copy .copy value borrowed
  | .move value => stageValue .move .move value borrowed
  | .sharedBorrow place | .mutBorrow place =>
    let (statements, borrowed) := takeBinding place.localId borrowed
    pure { statements, argument, borrowed }
  | .callableCaptureBorrow _ _ _ _ _ => pure { statements := [], argument, borrowed }

def stageArguments : List (HirArgument Code) → List (HirBinding Code) →
    Lower Rest (List (HirStmt Code) × List (HirArgument Code))
  | [], _ => pure ([], [])
  | argument :: rest, borrowed => do
    let staged ← stageArgument argument borrowed
    let (statements, arguments) ← stageArguments rest staged.borrowed
    pure (staged.statements ++ statements, staged.argument :: arguments)

/-- Put other arguments into a call or a partial application. -/
def HirExprKind.withArguments (kind : HirExprKind Code) (arguments : List (HirArgument Code)) :
    Option (HirExprKind Code) :=
  match kind with
  | .call name _ consumedCallable diverges => some (.call name arguments consumedCallable diverges)
  | .partialCall name consumedGroups _ => some (.partialCall name consumedGroups arguments)
  | _ => none

/-- `wrap_call_argument_temporaries`; the unreachable arm is `none`. -/
def wrapCallArgumentTemporaries (expression : HirExpr Code) (arguments : List (HirArgument Code))
    (temporaries : List (HirBinding Code)) : Lower Rest (Option (HirExpr Code)) :=
  if temporaries.isEmpty then pure (some expression)
  else do
    let (statements, arguments) ← stageArguments arguments temporaries
    match expression.kind.withArguments arguments with
    | some kind =>
      pure (some
        { ty := expression.ty
          kind := .block statements (some { ty := expression.ty, kind }) })
    | none => pure none

end Salicin.Codegen.Calls

/-!
## What the forms of a call share

The arguments of a call are put in the order of their parameters and lowered one by one. The
finished call is handled when it may fail, and wrapped into what the temporaries of its
arguments need.
-/

namespace Salicin.Codegen.Calls

open Salicin.Source (Expr CallArg MatchArm)

/-- `StandardFallibleInfo`: the result type has this payload and this error. -/
structure StandardFallibleInfo where
  isResult : Bool
  payload : Ty
  error : Option Ty

/-- `FunctionSig` with its result. -/
structure FunctionSig where
  groups : List (List ParamSig)
  unsafety : Bool
  failureError : Option Ty
  customEffects : List String
  result : Ty

/-- `FunctionSig::function_ty`. -/
def FunctionSig.functionTy (signature : FunctionSig) : FunctionTy where
  groups := signature.groups.map fun group => group.map ParamSig.ty
  unsafety := signature.unsafety
  failureError := signature.failureError
  customEffects := signature.customEffects
  result := signature.result

/-- A method with the groups that remain for run time. -/
structure ResolvedMethod where
  target : String
  function : String
  groups : List (List CallArg)

/-- The input, output and answer of a runtime handler action. -/
structure RuntimeHandlerAction where
  input : Ty
  output : Ty
  answer : Ty

/-- The parts of lowering that the lowering of a call calls. What they do not find they have
reported; a match on an enum comes to a match on it, if nothing is reported. -/
structure CallLowering (Rest : Type) (Code : Type) extends ArgumentLowering Rest Code where
  functionSignature : String → Step Rest (Option FunctionSig)
  functionSignature_reports : ∀ name state, ((functionSignature name).run state).1 = none →
    ((functionSignature name).run state).2.diagnostics ≠ []
  resolveMethod : Expr → HirPlace → String → List (List CallArg) → Option Ty →
    Step Rest (Option ResolvedMethod)
  resolveMethod_reports : ∀ receiver place member groups expected state,
    ((resolveMethod receiver place member groups expected).run state).1 = none →
      ((resolveMethod receiver place member groups expected).run state).2.diagnostics ≠ []
  /-- `require_same_type` for a receiver that does not fit its reference parameter. -/
  requireReceiverType : Ty → Ty → String → Step Rest PUnit
  requireReceiverType_reports : ∀ actual expected subject state,
    ((requireReceiverType actual expected subject).run state).2.diagnostics ≠ []
  requireFunctionEffects : String → Step Rest PUnit
  requireCallableEffects : String → Bool → List String → Step Rest PUnit
  promoteReturnedReferenceLoans : String → Ty → List (HirArgument Code) →
    List (HirBinding Code) → List LoanId → Option Ty → Step Rest (List LoanId)
  isUninhabitedType : Ty → Step Rest Bool
  activeFailureError : Step Rest (Option Ty)
  hasReturnBoundary : Step Rest Bool
  standardFallibleInfo : String → Step Rest (Option StandardFallibleInfo)
  lowerMatchWithScrutinee : HirExpr Code → List MatchArm → Option Ty → Bool →
    Step Rest (HirExpr Code)
  lowerMatchWithScrutinee_kind : ∀ scrutinee arms expected aliases state name,
    scrutinee.ty = .enum name →
      ((lowerMatchWithScrutinee scrutinee arms expected aliases).run state).2.diagnostics = [] →
        ∃ code, ((lowerMatchWithScrutinee scrutinee arms expected aliases).run state).1.kind =
          .matchExpr scrutinee code
  initializationStatus : HirPlace → Step Rest InitializationStatus
  partialParameterShape : String → Nat → Step Rest (Option (List (List ParamSig)))
  signatureGroups : String → Step Rest (List (List ParamSig))
  storePartialParameterShape : String → Nat → List (List ParamSig) → Step Rest PUnit
  runtimeHandlerAction : String → Nat → Nat → Step Rest (Option RuntimeHandlerAction)
  lowerLocalPlace : String → Step Rest HirPlace fun place id => place.localId = id
  hasTopLevelCallable : String → Step Rest Bool
  isIntegerConversion : String → Step Rest Bool
  isIntegerMagnitude : String → Step Rest Bool

section

variable {Rest Code Lowered : Type} (lowering : CallLowering Rest Code)

/-! ## The order of the arguments -/

/-- Put the labelled arguments from an index on into the places of their parameters. -/
def placeLabelled (owner : String) (groupNumber : Nat) (parameterNames : List String) :
    List CallArg → Nat → List (Option CallArg) → Lower Rest (Option (List (Option CallArg)))
  | [], _, ordered => pure (some ordered)
  | argument :: rest, sourceIndex, ordered =>
    let label := argument.label.getD ""
    match parameterNames.findIdx? (· == label) with
    | none => do
      report s!"unknown parameter `{label}` in group {groupNumber} of `{owner}`"
      pure none
    | some index =>
      if index ≠ sourceIndex then do
        let wanted := parameterNames.getD sourceIndex ""
        report (s!"named arguments in group {groupNumber} of `{owner}` must follow " ++
          s!"parameter declaration order; expected `{wanted}` before `{label}`")
        pure none
      else if (ordered.getD index none).isSome then do
        report s!"duplicate argument for parameter `{label}` in group {groupNumber} of `{owner}`"
        pure none
      else
        placeLabelled owner groupNumber parameterNames rest (sourceIndex + 1)
          (ordered.set index (some argument))

def orderedCallArguments (owner : String) (groupNumber : Nat) (arguments : List CallArg)
    (parameterNames : List String) : Lower Rest (Option (List CallArg)) :=
  if arguments.length ≠ parameterNames.length then do
    report (s!"argument count mismatch in group {groupNumber} of `{owner}`: expected " ++
      s!"{parameterNames.length}, found {arguments.length}")
    pure none
  else if arguments.all fun argument => argument.label.isNone then pure (some arguments)
  else if arguments.any fun argument => argument.label.isNone then do
    report s!"cannot mix named and positional arguments in group {groupNumber} of `{owner}`"
    pure none
  else do
    match ← placeLabelled owner groupNumber parameterNames arguments 0
        (parameterNames.map fun _ => none) with
    | none => pure none
    | some ordered =>
      match ordered.findIdx? Option.isNone with
      | some index =>
        let name := parameterNames.getD index ""
        report s!"missing argument for parameter `{name}` in group {groupNumber} of `{owner}`"
        pure none
      | none => pure (some (ordered.filterMap id))

/-! ## Lowering the groups of arguments -/

/-- Lower the arguments of a group one by one; each is given with its index. -/
def lowerGroupArguments
    (lowerOne : Nat → CallArg → ParamSig → Lower Rest Lowered) :
    Nat → List (CallArg × ParamSig) → Lower Rest (List Lowered)
  | _, [] => pure []
  | index, (argument, parameter) :: rest => do
    let lowered ← lowerOne index argument parameter
    let others ← lowerGroupArguments lowerOne (index + 1) rest
    pure (lowered :: others)

/-- Lower the groups one by one; each is given with its index. A group that does not fit its
parameters ends the lowering. -/
def lowerArgumentGroups (owner : String)
    (lowerOne : Nat → Nat → CallArg → ParamSig → Lower Rest Lowered) :
    Nat → List (List CallArg × List ParamSig) → Lower Rest (Option (List Lowered))
  | _, [] => pure (some [])
  | groupIndex, (arguments, parameters) :: rest => do
    match ← orderedCallArguments owner (groupIndex + 1) arguments
        (parameters.map ParamSig.name) with
    | none => pure none
    | some ordered =>
      let lowered ← lowerGroupArguments (lowerOne groupIndex) 0 (ordered.zip parameters)
      match ← lowerArgumentGroups owner lowerOne (groupIndex + 1) rest with
      | none => pure none
      | some others => pure (some (lowered ++ others))

/-! ## What comes after the arguments -/

def throwingArms : List MatchArm :=
  [ { pattern := .constructor ["ok"] (.positional [.binding "$failure$output"])
      guard := none
      body := .name "$failure$output" },
    { pattern := .constructor ["err"] (.positional [.binding "$failure$error"])
      guard := none
      body := .throw (.name "$failure$error") } ]

/-- `standard_fallible_info_for_ty`. -/
def standardFallibleInfoForTy (ty : Ty) : Lower Rest (Option StandardFallibleInfo) :=
  match ty with
  | .enum name => (lowering.standardFallibleInfo name).run
  | _ => pure none

def lowerAutomaticThrowing (operand : HirExpr Code) (thrownError : Ty) (expected : Option Ty) :
    Lower Rest (HirExpr Code) := do
  match ← lowering.activeFailureError.run with
  | none =>
    let thrown ← (lowering.diagnosticTypeName thrownError).run
    report (s!"call requires `throwing({thrown})`; propagate it from the current function or " ++
      "handle it with `try \x7b ... \x7d`")
    pure errorExpr
  | some activeError =>
    if !activeError.same thrownError then
      let thrown ← (lowering.diagnosticTypeName thrownError).run
      let active ← (lowering.diagnosticTypeName activeError).run
      report (s!"call failure `{thrown}`, but the active error type is `{active}`; " ++
        "convert errors explicitly")
      pure errorExpr
    else if !(← lowering.hasReturnBoundary.run) then
      report "internal error: active failure effect has no Result return boundary"
      pure errorExpr
    else
      match ← standardFallibleInfoForTy lowering operand.ty with
      | none =>
        report "internal error: failure call does not use a result ABI"
        pure errorExpr
      | some info =>
        if !info.isResult || !sameOption info.error (some thrownError) then
          report
            "internal error: failure call result ABI does not match its error effect"
          pure errorExpr
        else
          (lowering.lowerMatchWithScrutinee operand throwingArms
            (expected <|> some info.payload) false).run

/-- The call, or the match that its failure is handled in. -/
def applyThrowing (call : HirExpr Code) (failureError expected : Option Ty) :
    Lower Rest (HirExpr Code) :=
  match failureError with
  | some thrownError => lowerAutomaticThrowing lowering call thrownError expected
  | none => pure call

def arguments (turns : List (LoweredArgument Code)) : List (HirArgument Code) :=
  turns.map LoweredArgument.argument

def temporaries (turns : List (LoweredArgument Code)) : List (HirBinding Code) :=
  turns.flatMap LoweredArgument.bindings

def temporaryLoans (turns : List (LoweredArgument Code)) : List LoanId :=
  turns.flatMap LoweredArgument.loans

/-- Wrap the call into what its temporaries need. -/
def wrapTurns (call : HirExpr Code) (turns : List (LoweredArgument Code)) :
    Lower Rest (Option (HirExpr Code)) :=
  wrapCallArgumentTemporaries call (arguments turns) (temporaries turns)

/-- A partial application does not keep borrowed arguments. -/
def rejectBorrowedCaptures (complete : Bool) (message : String)
    (turns : List (LoweredArgument Code)) : Lower Rest PUnit :=
  if !complete && (arguments turns).any HirArgument.isBorrowed then report message
  else pure ()

/-- A partial application of a function type to groups. -/
def partialExpr (name : String) (consumedGroups : Nat) (functionTy : FunctionTy) (given : Nat)
    (turns : List (LoweredArgument Code)) : HirExpr Code where
  ty := partialCallableTy name consumedGroups
    { functionTy with groups := functionTy.groups.drop given } (arguments turns)
  kind := .partialCall name consumedGroups (arguments turns)

end

end Salicin.Codegen.Calls
