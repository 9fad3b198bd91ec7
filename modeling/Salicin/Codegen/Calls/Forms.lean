import Salicin.Codegen.Calls.Groups

/-!
# The forms of a call

Calls of a named function, of a closure, of a partial application, of a function-typed local and
of a method. A call is prepared, which lowers its arguments, and then finished. A call of a named
function is one that the rewriting of callable arguments leaves as it is; the function of a
method has been resolved.
-/

namespace Salicin.Codegen.Calls

open Salicin.Source (Expr CallArg)

section

variable {Rest Code Lowered : Type} (lowering : CallLowering Rest Code)

/-! ## Arguments -/

/-- Where an argument stands: the arguments of a named function may be handler actions. -/
inductive ArgumentPosition
  | plain
  | named (function : String) (groupIndex parameterIndex : Nat)

/-- The local that an argument names. -/
def namedLocal (argument : CallArg) : Lower Rest (Option (String × LocalInfo)) :=
  match argument.value with
  | .name localName => do
    match ← (lowering.lookup localName).run with
    | some local_ => pure (some (localName, local_))
    | none => pure none
  | _ => pure none

/-- A closure that is not connected to a handler action. -/
def isUnconnectedClosure (local_ : LocalInfo) : Bool :=
  match local_.closure with
  | some closure =>
    match closure.groups with
    | [group] => group.length ≠ 2
    | _ => true
  | none => false

/-- The action of a runtime handler is erased. -/
def lowerHandlerAction (action : RuntimeHandlerAction) (argument : CallArg)
    (parameter : ParamSig) : Lower Rest (LoweredArgument Code) := do
  let expectedAction : Ty := .effectCallable action.input action.output action.answer
  let known ← namedLocal lowering argument
  if known.any fun (_, local_) => isUnconnectedClosure local_ then
    report ("a source effect closure passed to a reusable handler must currently be passed " ++
      "directly from its original explicitly typed binding; callable aliases and other erased " ++
      "action values are not connected yet")
    pure (.plain (.move errorExpr))
  else
    match known.filter fun (_, local_) => local_.ty.same expectedAction with
    | some (localName, _) =>
      let place ← (lowering.lowerLocalPlace localName).run
      let value ← movePlace lowering.toArgumentLowering place
      pure (.plain (.move value))
    | none =>
      let erased ← (lowering.lowerExpr
        (.call (.name "$handler$erase$effect$callable") [⟨none, argument.value⟩])
        (some expectedAction)).run
      (lowering.requireSameType erased.ty expectedAction
        s!"handler action parameter `{parameter.name}`").run
      pure (.plain (.move erased))

def lowerArgument (position : ArgumentPosition) (argument : CallArg) (parameter : ParamSig) :
    Lower Rest (LoweredArgument Code) :=
  match position with
  | .plain => lowerCallArgument lowering.toArgumentLowering argument.value parameter
  | .named function groupIndex parameterIndex => do
    match ← (lowering.runtimeHandlerAction function groupIndex parameterIndex).run with
    | some action => lowerHandlerAction lowering action argument parameter
    | none => lowerCallArgument lowering.toArgumentLowering argument.value parameter

/-- What is kept of the arguments when a call is prepared. -/
structure Keeping (Rest Code Lowered : Type) where
  argument : ArgumentPosition → CallArg → ParamSig → Lower Rest Lowered
  /-- A receiver that was bound to a temporary. -/
  temporaryReceiver : CallArg → LoweredArgument Code → Lowered

/-- The lowered arguments are kept. -/
def keepLowered : Keeping Rest Code (LoweredArgument Code) where
  argument := lowerArgument lowering
  temporaryReceiver _ lowered := lowered

/-! ## Prepared calls -/

/-- A call whose arguments are lowered, with what is needed to finish it. -/
inductive PreparedCall (Lowered : Type)
  | named (name : String) (functionTy : FunctionTy) (groupCount : Nat) (given : List Lowered)
  | closure (local_ : LocalInfo) (closure : ClosureInfo) (groupCount : Nat) (given : List Lowered)
  | partialCall (localName : String) (local_ : LocalInfo) (info : PartialInfo)
      (functionTy : FunctionTy) (captures : List CallableCaptureTy)
      (parameters : List (List ParamSig)) (groupCount : Nat) (given : List Lowered)
  | indirect (local_ : LocalInfo) (functionTy : FunctionTy) (given : List Lowered)
  | method (subject function : String) (functionTy : FunctionTy) (consumedGroups : Nat)
      (given : List Lowered)

/-! ## Function-typed locals -/

/-- The parameter that a type without labels and modes gives. -/
def unnamedParameter (ty : Ty) : ParamSig where
  name := ""
  ty := ty
  mode := .inferred

/-- The checks in front of the arguments of an indirect call. -/
def checkIndirectCall (localName : String) (functionTy : FunctionTy)
    (groups : List (List CallArg)) : Lower Rest Bool :=
  if groups.length ≠ functionTy.groups.length then do
    report (s!"indirect call `{localName}` must supply all {functionTy.groups.length} runtime " ++
      s!"parameter groups; found {groups.length}")
    pure false
  else if groups.flatten.any fun argument => argument.label.isSome then do
    report s!"indirect call `{localName}` uses a callable type without parameter labels"
    pure false
  else do
    (lowering.requireCallableEffects
      (if functionTy.unsafety then s!"indirect call to unsafe callable `{localName}`"
        else s!"indirect call `{localName}`")
      functionTy.unsafety functionTy.customEffects).run
    pure true

def lowerIndirectGroups (localName : String)
    (lowerOne : ArgumentPosition → CallArg → ParamSig → Lower Rest Lowered) :
    List (List CallArg × List Ty) → Lower Rest (Option (List Lowered))
  | [] => pure (some [])
  | (arguments, parameters) :: rest =>
    if arguments.length ≠ parameters.length then do
      report (s!"argument count mismatch in indirect call `{localName}`: expected " ++
        s!"{parameters.length}, found {arguments.length}")
      pure none
    else do
      let lowered ← lowerGroupArguments (fun _ => lowerOne .plain) 0
        (arguments.zip (parameters.map unnamedParameter))
      match ← lowerIndirectGroups localName lowerOne rest with
      | none => pure none
      | some others => pure (some (lowered ++ others))

def prepareIndirectCall (keeping : Keeping Rest Code Lowered) (localName : String)
    (local_ : LocalInfo) (functionTy : FunctionTy) (groups : List (List CallArg)) :
    Lower Rest (Option (PreparedCall Lowered)) := do
  if ← checkIndirectCall lowering localName functionTy groups then
    match ← lowerIndirectGroups localName keeping.argument (groups.zip functionTy.groups) with
    | none => pure none
    | some given => pure (some (.indirect local_ functionTy given))
  else pure none

/-- The local as it is read for an indirect call. -/
def calleeExpr (local_ : LocalInfo) : HirExpr Code where
  ty := local_.ty
  kind := .read
    { HirPlace.whole local_.id local_.ty local_.mutable with capability := local_.capability } .copy

def buildIndirectCall (local_ : LocalInfo) (functionTy : FunctionTy) (expected : Option Ty)
    (turns : List (LoweredArgument Code)) : Lower Rest (HirExpr Code) := do
  (lowering.releaseLoans (temporaryLoans turns)).run
  let diverges ← (lowering.isUninhabitedType functionTy.result).run
  let call : HirExpr Code :=
    { ty := functionTy.result
      kind := .indirectCall (calleeExpr local_) (arguments turns) diverges }
  applyThrowing lowering call functionTy.failureError expected

/-! ## Named functions -/

def prepareNamedCall (keeping : Keeping Rest Code Lowered) (name : String)
    (groups : List (List CallArg)) : Lower Rest (Option (PreparedCall Lowered)) := do
  match ← (lowering.functionSignature name).run with
  | none => pure none
  | some signature =>
    let functionTy := signature.functionTy
    if groups.length > functionTy.groups.length then
      report (s!"too many parameter groups in call to `{name}`: expected " ++
        s!"{functionTy.groups.length}, found {groups.length}")
      pure none
    else
      match ← lowerArgumentGroups name
          (fun groupIndex parameterIndex =>
            keeping.argument (.named name groupIndex parameterIndex)) 0
          (groups.zip signature.groups) with
      | none => pure none
      | some given => pure (some (.named name functionTy groups.length given))

/-- The loans of the arguments end, but for those that a complete call returns in its result. -/
def releaseTemporaryLoans (complete : Bool) (function : String) (result : Ty)
    (expected : Option Ty) (turns : List (LoweredArgument Code)) : Lower Rest PUnit :=
  if complete then do
    let loans ← (lowering.promoteReturnedReferenceLoans function result (arguments turns)
      (temporaries turns) (temporaryLoans turns) expected).run
    (lowering.releaseLoans loans).run
  else (lowering.releaseLoans (temporaryLoans turns)).run

/-- A complete call, or a partial application. -/
def completeOr (complete : Bool) (call application : Lower Rest (HirExpr Code)) :
    Lower Rest (HirExpr Code) :=
  if complete then call else application

/-- The call of a named function with all its groups. -/
def completeNamedCall (name : String) (functionTy : FunctionTy) (expected : Option Ty)
    (turns : List (LoweredArgument Code)) : Lower Rest (HirExpr Code) := do
  let diverges ← (lowering.isUninhabitedType functionTy.result).run
  pure
    { ty := if functionTy.failureError.isSome then functionTy.result
        else contextualReferenceResult functionTy.result expected
      kind := .call name (arguments turns) none diverges }

def buildNamedCall (name : String) (functionTy : FunctionTy) (groupCount : Nat)
    (expected : Option Ty) (turns : List (LoweredArgument Code)) :
    Lower Rest (HirExpr Code) := do
  let complete : Bool := groupCount = functionTy.groups.length
  onlyIf complete (lowering.requireFunctionEffects name).run
  rejectBorrowedCaptures complete "partial application cannot capture borrowed arguments" turns
  releaseTemporaryLoans lowering complete name functionTy.result expected turns
  completeOr complete
    (do
      let call ← completeNamedCall lowering name functionTy expected turns
      applyThrowing lowering call functionTy.failureError expected)
    (pure (partialExpr name groupCount functionTy groupCount turns))

/-! ## Closures and partial applications -/

/-- The complaints about a callable that may have been consumed; a callable that is called once
is moved. -/
def consumeCallable (kind localName : String) (isFnOnce : Bool) (callable : HirPlace) :
    Lower Rest PUnit := do
  match ← (lowering.initializationStatus callable).run with
  | .uninitialized => report s!"{kind} `{localName}` was moved or already consumed"
  | .maybeUninitialized => report s!"{kind} `{localName}` may have been moved or consumed"
  | .initialized => if isFnOnce then (lowering.markMoved callable).run

/-- The argument that passes a capture of a closure. -/
def ClosureCapture.argument (local_ : LocalInfo) (index : Nat) (capture : ClosureCapture) :
    HirArgument Code :=
  match capture.mode, capture.forwarded with
  | .shared, some forwarded =>
    .callableCaptureBorrow forwarded.binding forwarded.index forwarded.callableTy
      capture.place.ty false
  | .mutable, some forwarded =>
    .callableCaptureBorrow forwarded.binding forwarded.index forwarded.callableTy
      capture.place.ty true
  | .shared, none => .sharedBorrow capture.place
  | .mutable, none => .mutBorrow capture.place
  | .move, some forwarded => .move
      { ty := capture.place.ty
        kind := .partialCapture forwarded.binding index true forwarded.callableTy }
  | .move, none => .move
      { ty := capture.place.ty
        kind := .partialCapture local_.id index true local_.ty }

/-- The captures of a closure as the first arguments of its function. -/
def closureTurns (local_ : LocalInfo) (closure : ClosureInfo) : List (LoweredArgument Code) :=
  closure.captures.zipIdx.map fun (capture, index) => .plain (capture.argument local_ index)

/-- The complaints about groups of a closure call that do not have as many arguments as the
closure has parameters. -/
def reportMismatches (localName : String) : Nat → List (List CallArg × List ParamSig) →
    Lower Rest PUnit
  | _, [] => pure ()
  | index, (arguments, parameters) :: rest => do
    onlyIf (arguments.length ≠ parameters.length)
      (report (s!"argument count mismatch in group {index + 1} of closure `{localName}`: " ++
        s!"expected {parameters.length}, found {arguments.length}"))
    reportMismatches localName (index + 1) rest

/-- The function type of a closure. -/
def ClosureInfo.functionTy (closure : ClosureInfo) : FunctionTy where
  groups := closure.groups.map fun group => group.map ParamSig.ty
  unsafety := closure.unsafety
  failureError := closure.failureError
  customEffects := closure.customEffects
  result := closure.result

/-- The checks in front of the arguments of a closure call. -/
def checkClosureCall (localName : String) (local_ : LocalInfo) (closure : ClosureInfo)
    (groups : List (List CallArg)) (complete : Bool) : Lower Rest PUnit := do
  reportMismatches localName 0 (groups.zip closure.groups)
  onlyIf complete
    (lowering.requireCallableEffects
      (if closure.unsafety then s!"call to unsafe closure `{localName}`"
        else s!"call to closure `{localName}`")
      closure.unsafety closure.customEffects).run
  consumeCallable lowering (if closure.isFnOnce then "fn_once closure" else "closure") localName
    closure.isFnOnce (.whole local_.id local_.ty local_.mutable)

def prepareClosureCall (keeping : Keeping Rest Code Lowered) (localName : String)
    (local_ : LocalInfo) (closure : ClosureInfo) (groups : List (List CallArg)) :
    Lower Rest (Option (PreparedCall Lowered)) :=
  if groups.length > closure.groups.length then do
    report (s!"too many parameter groups in call to closure `{localName}`: expected " ++
      s!"{closure.groups.length}, found {groups.length}")
    pure none
  else do
    checkClosureCall lowering localName local_ closure groups
      (groups.length = closure.groups.length)
    match ← lowerArgumentGroups localName (fun _ _ => keeping.argument .plain) 0
        (groups.zip closure.groups) with
    | none => pure none
    | some given => pure (some (.closure local_ closure groups.length given))

/-- The call of the function of a local with all its groups. -/
def completeLocalCall (function : String) (result : Ty) (consumedCallable : Option LocalId)
    (turns : List (LoweredArgument Code)) : Lower Rest (HirExpr Code) := do
  let diverges ← (lowering.isUninhabitedType result).run
  pure { ty := result, kind := .call function (arguments turns) consumedCallable diverges }

def buildClosureCall (local_ : LocalInfo) (closure : ClosureInfo) (groupCount : Nat)
    (expected : Option Ty) (given : List (LoweredArgument Code)) :
    Lower Rest (HirExpr Code) := do
  let complete : Bool := groupCount = closure.groups.length
  rejectBorrowedCaptures complete "partial application cannot capture borrowed arguments" given
  (lowering.releaseLoans (temporaryLoans given)).run
  let turns := closureTurns local_ closure ++ given
  completeOr complete
    (do
      let call ← completeLocalCall lowering closure.function closure.result
        (if closure.isFnOnce then some local_.id else none) turns
      applyThrowing lowering call closure.failureError expected)
    (do
      (lowering.storePartialParameterShape closure.function groupCount
        (closure.groups.drop groupCount)).run
      pure (partialExpr closure.function groupCount closure.functionTy groupCount turns))

/-- The signature, the captures and the remaining parameters of a partial application; those of
a function that was applied before come from its signature or from the application. -/
def partialSignature (localName : String) (local_ : LocalInfo) (info : PartialInfo) :
    Lower Rest (Option (FunctionTy × List CallableCaptureTy × List (List ParamSig))) :=
  match local_.ty with
  | .callable callable =>
    match callable.kind with
    | .closure _ _ _ => do
      report s!"internal error: partial `{localName}` has a non-partial callable type"
      pure none
    | .partialCall _ _ _ _ => do
      match ← (lowering.partialParameterShape info.function info.consumedGroups).run with
      | none =>
        report s!"internal error: partial `{localName}` has no remaining parameter metadata"
        pure none
      | some parameters => pure (some (callable.signature, callable.captures, parameters))
  | .function functionTy =>
    if info.captureCount = 0 then do
      pure (some (functionTy, [], ← (lowering.signatureGroups info.function).run))
    else do
      report s!"internal error: partial `{localName}` has no callable type"
      pure none
  | _ => do
    report s!"internal error: partial `{localName}` has no callable type"
    pure none

/-- The argument that passes a capture of a partial application. -/
def CallableCaptureTy.argument (local_ : LocalInfo) (index : Nat) (capture : CallableCaptureTy) :
    HirArgument Code :=
  let value : HirExpr Code :=
    { ty := capture.ty
      kind := .partialCapture local_.id index (capture.mode = .move) local_.ty }
  match capture.mode with
  | .copy => .copy value
  | .move => .move value
  | .borrow => .callableCaptureBorrow local_.id index local_.ty capture.ty false
  | .mutBorrow => .callableCaptureBorrow local_.id index local_.ty capture.ty true

/-- The captures of a partial application as the first arguments of its function. -/
def partialTurns (local_ : LocalInfo) (captures : List CallableCaptureTy) :
    List (LoweredArgument Code) :=
  captures.zipIdx.map fun (capture, index) => .plain (capture.argument local_ index)

def preparePartialCall (keeping : Keeping Rest Code Lowered) (localName : String)
    (local_ : LocalInfo) (info : PartialInfo) (groups : List (List CallArg)) :
    Lower Rest (Option (PreparedCall Lowered)) := do
  match ← partialSignature lowering localName local_ info with
  | none => pure none
  | some (functionTy, captures, parameters) =>
    if groups.length > parameters.length then
      report (s!"too many parameter groups in call to `{localName}`: expected at most " ++
        s!"{parameters.length}, found {groups.length}")
      pure none
    else if captures.length ≠ info.captureCount then
      report s!"internal error: invalid capture count for partial `{localName}`"
      pure none
    else
      consumeCallable lowering
        (if info.isFnOnce then "fn_once partial application" else "partial application")
        localName info.isFnOnce (.whole local_.id local_.ty local_.mutable)
      match ← lowerArgumentGroups localName (fun _ _ => keeping.argument .plain) 0
          (groups.zip parameters) with
      | none => pure none
      | some given =>
        pure (some
          (.partialCall localName local_ info functionTy captures parameters groups.length
            given))

def buildPartialCall (localName : String) (local_ : LocalInfo) (info : PartialInfo)
    (functionTy : FunctionTy) (captures : List CallableCaptureTy)
    (parameters : List (List ParamSig)) (groupCount : Nat) (expected : Option Ty)
    (given : List (LoweredArgument Code)) : Lower Rest (HirExpr Code) := do
  let consumedGroups := info.consumedGroups + groupCount
  let complete : Bool := groupCount = parameters.length
  onlyIf complete
    (lowering.requireCallableEffects
      (if functionTy.unsafety then s!"call to unsafe partial `{localName}`"
        else s!"call to partial `{localName}`")
      functionTy.unsafety functionTy.customEffects).run
  rejectBorrowedCaptures complete "partial application cannot capture borrowed arguments" given
  (lowering.releaseLoans (temporaryLoans given)).run
  let turns := partialTurns local_ captures ++ given
  completeOr complete
    (do
      let call ← completeLocalCall lowering info.function functionTy.result
        (if info.isFnOnce then some local_.id else none) turns
      applyThrowing lowering call functionTy.failureError expected)
    (do
      (lowering.storePartialParameterShape info.function consumedGroups
        (parameters.drop groupCount)).run
      pure (partialExpr info.function consumedGroups functionTy groupCount turns))

/-! ## Methods -/

/-- The receiver of a method that is not a place is bound to a temporary. -/
def lowerReceiverPlace (receiver : Expr) (member : String) :
    Lower Rest (HirPlace × Option (HirBinding Code)) := do
  match ← (lowering.lowerPlaceWithoutDiagnostic receiver).run with
  | some place => pure (place, none)
  | none =>
    let value ← (lowering.lowerExpr receiver none).run
    let id ← freshLocal
    pure (.whole id value.ty false, some
        { id, name := s!"$temporary receiver for {member}", ty := value.ty, mutable := false,
          value })

/-- The complaint about a copied receiver whose type is not copyable. -/
def requireCopyableReceiver (subject : String) (parameter : ParamSig) : Lower Rest PUnit := do
  if !(← (lowering.isCopyType parameter.ty).run) then
    let ty ← (lowering.diagnosticTypeName parameter.ty).run
    report (s!"receiver for method `{subject}` requires copyable, but `{ty}` does not " ++
      "implement copyable")

/-- Lend the temporary of a receiver. -/
def lendTemporaryReceiver (place : HirPlace) (binding : HirBinding Code) (mutable : Bool) :
    Lower Rest (LoweredArgument Code) := do
  let loan ← (lowering.acquireLoan place (loanKind mutable) false).run
  let place := { place with loan := loan <|> place.loan }
  pure { argument := borrowArgument mutable place, loans := loan.toList, bindings := [binding] }

/-- The temporary becomes mutable for a receiver that needs it. -/
def HirPlace.mutableIf (place : HirPlace) (mutable : Bool) : HirPlace :=
  { place with rootMutable := place.rootMutable || mutable }

def HirBinding.mutableIf (binding : HirBinding Code) (mutable : Bool) : HirBinding Code :=
  { binding with mutable := binding.mutable || mutable }

/-- Pass the temporary of a receiver in a mode. -/
def passTemporaryReceiver (subject : String) (place : HirPlace) (binding : HirBinding Code)
    (parameter : ParamSig) (mode : ArgumentMode) : Lower Rest (LoweredArgument Code) :=
  match mode with
  | .copy => do
    requireCopyableReceiver lowering subject parameter
    let value ← copyPlace lowering.toArgumentLowering place
    pure { argument := .copy value, loans := [], bindings := [binding] }
  | .move => do
    let value ← movePlace lowering.toArgumentLowering place
    pure { argument := .move value, loans := [], bindings := [binding] }
  | .borrow => lendTemporaryReceiver lowering place binding false
  | .mutBorrow => lendTemporaryReceiver lowering (place.mutableIf true) (binding.mutableIf true) true

/-- The argument of a receiver that is bound to a temporary. -/
def lowerTemporaryReceiver (subject : String) (place : HirPlace) (binding : HirBinding Code)
    (parameter : ParamSig) : Lower Rest (Option (LoweredArgument Code)) := do
  let mode ← effectivePassMode lowering.toArgumentLowering parameter.mode parameter.ty
  match parameter.ty with
  | .reference _ _ _ =>
    let mutable : Bool := mode = .mutBorrow ∨ mode = .move
    match ← lowerReferencePlaceCallArgument lowering.toArgumentLowering
        (place.mutableIf mutable) parameter parameter.ty with
    | some lowered => pure (some { lowered with bindings := [binding.mutableIf mutable] })
    | none =>
      (lowering.requireReceiverType place.ty parameter.ty
        s!"receiver for method `{subject}`").run
      pure none
  | _ =>
    (lowering.requireSameType place.ty parameter.ty s!"receiver for method `{subject}`").run
    some <$> passTemporaryReceiver lowering subject place binding parameter mode

/-- The receiver of a method is lowered like the other arguments, unless it was bound to a
temporary. -/
def lowerReceiver (keeping : Keeping Rest Code Lowered) (subject : String) (receiver : Expr)
    (place : HirPlace) (binding : Option (HirBinding Code)) (parameter : ParamSig) :
    Lower Rest (Option Lowered) :=
  match binding with
  | none => some <$> keeping.argument .plain ⟨none, receiver⟩ parameter
  | some binding => do
    match ← lowerTemporaryReceiver lowering subject place binding parameter with
    | some lowered => pure (some (keeping.temporaryReceiver ⟨none, receiver⟩ lowered))
    | none => pure none

/-- The groups that are given to a method; the empty group of a method without parameters is
dropped. -/
def methodGroups (groups : List (List CallArg)) (parameterGroups : List (List ParamSig)) :
    List (List CallArg) :=
  if parameterGroups.length = 1 ∧ groups.length = 1 ∧ groups.all List.isEmpty then []
  else groups

/-- Prepare the call of a method that has been resolved. -/
def prepareResolvedMethod (keeping : Keeping Rest Code Lowered) (receiver : Expr)
    (member : String) (place : HirPlace) (binding : Option (HirBinding Code))
    (method : ResolvedMethod) : Lower Rest (Option (PreparedCall Lowered)) := do
  match ← (lowering.functionSignature method.function).run with
  | none => pure none
  | some signature =>
    let groups := methodGroups method.groups signature.groups
    let subject := s!"{method.target}.{member}"
    match signature.groups with
    | (receiverParameter :: _) :: runtimeParameters =>
      let consumedGroups := groups.length + 1
      if consumedGroups > signature.groups.length then
        report (s!"too many parameter groups in method call `{subject}`: " ++
          s!"expected {signature.groups.length - 1}, found {groups.length}")
        pure none
      else
        match ← lowerReceiver lowering keeping subject receiver place binding
            receiverParameter with
        | none => pure none
        | some receiverKept =>
          match ← lowerArgumentGroups subject (fun _ _ => keeping.argument .plain) 0
              (groups.zip runtimeParameters) with
          | none => pure none
          | some given =>
            pure (some (.method subject method.function signature.functionTy
              consumedGroups (receiverKept :: given)))
    | _ =>
      report s!"internal error: method `{subject}` has no receiver parameter"
      pure none

def prepareMethodCall (keeping : Keeping Rest Code Lowered) (receiver : Expr) (member : String)
    (groups : List (List CallArg)) (expected : Option Ty) :
    Lower Rest (Option (PreparedCall Lowered)) := do
  let (place, binding) ← lowerReceiverPlace lowering receiver member
  match ← (lowering.resolveMethod receiver place member groups expected).run with
  | none => pure none
  | some method => prepareResolvedMethod lowering keeping receiver member place binding method

/-- The function that a call of a method calls. -/
def loweredFunction (name : String) : Lower Rest String := do
  if ← (lowering.isIntegerConversion name).run then pure "$intrinsic$checked_integer_conversion"
  else if ← (lowering.isIntegerMagnitude name).run then pure "$intrinsic$integer_magnitude"
  else pure name

/-- The call of a method with all its groups. -/
def completeMethodCall (name : String) (functionTy : FunctionTy) (expected : Option Ty)
    (turns : List (LoweredArgument Code)) : Lower Rest (HirExpr Code) := do
  let function ← loweredFunction lowering name
  let diverges ← (lowering.isUninhabitedType functionTy.result).run
  pure
    { ty := if functionTy.failureError.isSome then functionTy.result
        else contextualReferenceResult functionTy.result expected
      kind := .call function (arguments turns) none diverges }

def buildMethodCall (subject function : String) (functionTy : FunctionTy) (consumedGroups : Nat)
    (expected : Option Ty) (turns : List (LoweredArgument Code)) :
    Lower Rest (HirExpr Code) := do
  let complete : Bool := consumedGroups = functionTy.groups.length
  onlyIf complete (lowering.requireFunctionEffects function).run
  rejectBorrowedCaptures complete
    s!"partial application of bound method `{subject}` cannot capture borrowed arguments" turns
  releaseTemporaryLoans lowering complete function functionTy.result expected turns
  completeOr complete
    (do
      let call ← completeMethodCall lowering function functionTy expected turns
      applyThrowing lowering call functionTy.failureError expected)
    (pure (partialExpr function consumedGroups functionTy consumedGroups turns))

/-! ## Calls -/

namespace PreparedCall

/-- The arguments that the source gives to the call. -/
def given : PreparedCall Lowered → List Lowered
  | .named _ _ _ given => given
  | .closure _ _ _ given => given
  | .partialCall _ _ _ _ _ _ _ given => given
  | .indirect _ _ given => given
  | .method _ _ _ _ given => given

/-- The captures that are passed in front of them. -/
def captures : PreparedCall Lowered → List (LoweredArgument Code)
  | .closure local_ known _ _ => closureTurns local_ known
  | .partialCall _ local_ _ _ captures _ _ _ => partialTurns local_ captures
  | .named _ _ _ _ | .indirect _ _ _ | .method _ _ _ _ _ => []

/-- All its arguments. -/
def turns (call : PreparedCall (LoweredArgument Code)) : List (LoweredArgument Code) :=
  call.captures ++ call.given

def map {Lowered' : Type} (f : Lowered → Lowered') : PreparedCall Lowered → PreparedCall Lowered'
  | .named name functionTy groupCount given => .named name functionTy groupCount (given.map f)
  | .closure local_ known groupCount given => .closure local_ known groupCount (given.map f)
  | .partialCall localName local_ info functionTy captures parameters groupCount given =>
    .partialCall localName local_ info functionTy captures parameters groupCount (given.map f)
  | .indirect local_ functionTy given => .indirect local_ functionTy (given.map f)
  | .method subject function functionTy consumedGroups given =>
    .method subject function functionTy consumedGroups (given.map f)

end PreparedCall

/-- A call by its form: of a named function, of a name that may be that of a local, of a
method. -/
inductive CallForm
  | named (name : String) (groups : List (List CallArg))
  | local_ (name : String) (groups : List (List CallArg))
  | method (receiver : Expr) (member : String) (groups : List (List CallArg))

/-- A name that no callable local has is that of a function. -/
def prepareTopLevelCall (keeping : Keeping Rest Code Lowered) (complaint name : String)
    (groups : List (List CallArg)) : Lower Rest (Option (PreparedCall Lowered)) := do
  if ← (lowering.hasTopLevelCallable name).run then prepareNamedCall lowering keeping name groups
  else
    report complaint
    pure none

/-- A local is called as a closure, as a partial application or through its function type. -/
def prepareLocalCall (keeping : Keeping Rest Code Lowered) (name : String)
    (groups : List (List CallArg)) : Lower Rest (Option (PreparedCall Lowered)) := do
  match ← (lowering.lookup name).run with
  | none =>
    prepareTopLevelCall lowering keeping s!"`{name}` is not a function or constructor" name groups
  | some local_ =>
    match local_.closure, local_.partialInfo, local_.ty with
    | some closure, _, _ => prepareClosureCall lowering keeping name local_ closure groups
    | none, some info, _ => preparePartialCall lowering keeping name local_ info groups
    | none, none, .function functionTy =>
      prepareIndirectCall lowering keeping name local_ functionTy groups
    | none, none, _ =>
      prepareTopLevelCall lowering keeping s!"local value `{name}` is not callable" name groups

def prepareCall (keeping : Keeping Rest Code Lowered) (expected : Option Ty) :
    CallForm → Lower Rest (Option (PreparedCall Lowered))
  | .named name groups => prepareNamedCall lowering keeping name groups
  | .local_ name groups => prepareLocalCall lowering keeping name groups
  | .method receiver member groups =>
    prepareMethodCall lowering keeping receiver member groups expected

/-- The finished call, which is not wrapped yet. -/
def buildCall (expected : Option Ty) :
    PreparedCall (LoweredArgument Code) → Lower Rest (HirExpr Code)
  | .named name functionTy groupCount turns =>
    buildNamedCall lowering name functionTy groupCount expected turns
  | .closure local_ closure groupCount given =>
    buildClosureCall lowering local_ closure groupCount expected given
  | .partialCall localName local_ info functionTy captures parameters groupCount given =>
    buildPartialCall lowering localName local_ info functionTy captures parameters groupCount
      expected given
  | .indirect local_ functionTy turns =>
    buildIndirectCall lowering local_ functionTy expected turns
  | .method subject function functionTy consumedGroups turns =>
    buildMethodCall lowering subject function functionTy consumedGroups expected turns

def finishCall (expected : Option Ty) (prepared : PreparedCall (LoweredArgument Code)) :
    Lower Rest (Option (HirExpr Code)) := do
  let call ← buildCall lowering expected prepared
  wrapTurns call prepared.turns

/-- The lowering of a call; nothing is returned where the code comes to an unreachable arm. -/
def lowerCall (form : CallForm) (expected : Option Ty) :
    Lower Rest (Option (HirExpr Code)) := do
  match ← prepareCall lowering (keepLowered lowering) expected form with
  | none => pure (some errorExpr)
  | some prepared => finishCall lowering expected prepared

end

end Salicin.Codegen.Calls
