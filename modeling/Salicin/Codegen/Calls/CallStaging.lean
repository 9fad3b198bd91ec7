import Salicin.Codegen.Calls.ObservedCalls

/-!
# Staging the arguments of every call

A lowered call evaluates each of its arguments once, in the order of the source, and hands over
what the argument denoted at its turn. The staging does not expect an indirect call or a call
that is handled because it may fail; with a borrowed rvalue among the arguments these come to an
arm that the code holds to be unreachable.
-/

namespace Salicin.Codegen.Calls

open Option List Runs Step PreparedCall State.Grows
open Salicin.Source (Expr CallArg)

variable {Rest Code Lowered : Type}

/-! ## What a call does with its arguments -/

/-- A finished call without its arguments. -/
inductive CallHead (Code : Type)
  | call (function : String) (consumedCallable : Option LocalId) (diverges : Bool)
  | application (function : String) (consumedGroups : Nat)
  | indirect (callee : HirExpr Code) (diverges : Bool)

/-- The call of arguments. -/
def CallHead.kind (head : CallHead Code) (arguments : List (HirArgument Code)) : HirExprKind Code :=
  match head with
  | .call function consumedCallable diverges => .call function arguments consumedCallable diverges
  | .application function consumedGroups => .partialCall function consumedGroups arguments
  | .indirect callee diverges => .indirectCall callee arguments diverges

section

variable {Value Address World Exit : Type} (machine : Machine Code Value Address World Exit)

/-- What a call does when its arguments come to what it is handed. -/
def CallHead.eval (env : Env Value) (arguments : Run World Exit (List (Passed Value Address))) :
    CallHead Code → Run World Exit Value
  | .call function consumedCallable _ => do
    let passed ← arguments
    machine.call function passed consumedCallable
  | .application function consumedGroups => do
    let passed ← arguments
    machine.partialCall function consumedGroups passed
  | .indirect callee _ => do
    let callee ← callee.eval machine env
    let passed ← arguments
    machine.callIndirect callee passed

/-- What is done with the result of a call: the arms of the match that handles its failure. -/
def Machine.handle (handler : Option Code) (result : Value) : Run World Exit Value :=
  match handler with
  | none => pure result
  | some arms => machine.arms arms result

theorem CallHead.eval_kind (head : CallHead Code) (arguments : List (HirArgument Code))
    (env : Env Value) : (head.kind arguments).eval machine env =
      head.eval machine env (evalArguments machine env arguments) := by
  cases head <;> rfl

end

/-! ## Finished calls -/

namespace PreparedCall

/-- The call goes through a function-typed local. -/
def isIndirect : PreparedCall Lowered → Bool
  | .indirect _ _ _ => true
  | _ => false

/-- The error of a call that may fail; a partial application does not. -/
def failureError : PreparedCall Lowered → Option Ty
  | .named _ functionTy groupCount _ =>
    if groupCount = functionTy.groups.length then functionTy.failureError else none
  | .closure _ known groupCount _ =>
    if groupCount = known.groups.length then known.failureError else none
  | .partialCall _ _ _ functionTy _ parameters groupCount _ =>
    if groupCount = parameters.length then functionTy.failureError else none
  | .indirect _ functionTy _ => functionTy.failureError
  | .method _ _ functionTy consumedGroups _ =>
    if consumedGroups = functionTy.groups.length then functionTy.failureError else none

/-- The call of the function, or its partial application to the groups. -/
def Applies (complete : Prop) (functions : List String) (consumedCallable : Option LocalId)
    (function : String) (consumedGroups : Nat) (head : CallHead Code) : Prop :=
  (complete → ∃ name ∈ functions, ∃ diverges, head = .call name consumedCallable diverges) ∧
    (¬complete → head = .application function consumedGroups)

/-- The call that is made: of the function of the form, with all the groups or with some. -/
def HasHead (head : CallHead Code) : PreparedCall Lowered → Prop
  | .named name functionTy groupCount _ =>
    Applies (groupCount = functionTy.groups.length) [name] none name groupCount head
  | .closure local_ known groupCount _ =>
    Applies (groupCount = known.groups.length) [known.function]
      (if known.isFnOnce then some local_.id else none) known.function groupCount head
  | .partialCall _ local_ info _ _ parameters groupCount _ =>
    Applies (groupCount = parameters.length) [info.function]
      (if info.isFnOnce then some local_.id else none) info.function
      (info.consumedGroups + groupCount) head
  | .indirect local_ _ _ => ∃ diverges, head = .indirect (calleeExpr local_) diverges
  | .method _ function functionTy consumedGroups _ =>
    Applies (consumedGroups = functionTy.groups.length)
      [function, "$intrinsic$checked_integer_conversion", "$intrinsic$integer_magnitude"] none
      function consumedGroups head

end PreparedCall

/-- A call, or a match on it where its failure is handled. -/
inductive Handled (kind : HirExprKind Code) : Option Code → HirExprKind Code → Prop
  | plain : Handled kind none kind
  | matched (ty : Ty) (arms : Code) : Handled kind (some arms) (.matchExpr ⟨ty, kind⟩ arms)

/-! ## Lowering without a complaint -/

/-- What lowering comes to when it does not complain. -/
def Quietly {Result : Type} (run : Lower Rest Result) (property : Result → Prop) : Prop :=
  ∀ state : State Rest, (run state).2.diagnostics = [] → property (run state).1

section Quietly

variable {First Result : Type} {property : Result → Prop}

theorem Quietly.error (msg : String) (result : Result) :
    Quietly (do
      report msg
      pure result : Lower Rest Result) property :=
  fun state hquiet => absurd hquiet (report_ne_nil msg state)

theorem Quietly.after {first : Lower Rest First} {next : First → Lower Rest Result}
    (hnext : ∀ result, Quietly (next result) property) : Quietly (first >>= next) property :=
  fun _ hquiet => hnext _ _ hquiet

theorem Quietly.ite {cond : Prop} [Decidable cond] {first second : Lower Rest Result}
    (hfst : cond → Quietly first property) (hsnd : ¬cond → Quietly second property) :
    Quietly (if cond then first else second) property := by
  split
  next hcond => exact hfst hcond
  next hcond => exact hsnd hcond

end Quietly

variable {turns : List (LoweredArgument Code)} {consumedCallable : Option LocalId}
  {functions : List String} {consumedGroups : Nat}

section Lowering

variable (lowering : CallLowering Rest Code)

/-- The match that handles a failure has the call as its scrutinee. -/
theorem lowerAutomaticThrowing_handled (opnd : HirExpr Code) (thrownError : Ty)
    (expected : Option Ty) :
    Quietly (lowerAutomaticThrowing lowering opnd thrownError expected)
      fun result => ∃ arms, Handled opnd.kind (some arms) result.kind := by
  obtain ⟨ty, kind⟩ := opnd
  refine .after fun active => ?_
  cases active with
  | none => exact .after fun thrown => .error _ _
  | some activeError =>
    refine .ite (fun _ => .after fun thrown => .after fun active => .error _ _) fun _ => ?_
    refine .after fun boundary => .ite (fun _ => .error _ _) fun _ => ?_
    cases ty with
    | enum name =>
      refine .after fun info => ?_
      cases info with
      | none => exact .error _ _
      | some info =>
        refine .ite (fun _ => .error _ _) fun _ state hquiet => ?_
        obtain ⟨arms, hkind⟩ := lowering.lowerMatchWithScrutinee_kind ⟨.enum name, kind⟩
          throwingArms (expected <|> some info.payload) false state name rfl hquiet
        refine ⟨arms, ?_⟩
        rw [hkind]
        exact .matched (.enum name) arms
    | _ => exact .error _ _

theorem applyThrowing_handled (call : HirExpr Code) (failureError expected : Option Ty) :
    Quietly (applyThrowing lowering call failureError expected)
      fun result => ∃ handler : Option Code, handler.isSome = failureError.isSome ∧
        Handled call.kind handler result.kind := by
  cases failureError with
  | none => exact fun _ _ => ⟨none, rfl, .plain⟩
  | some thrownError =>
    intro state hquiet
    obtain ⟨arms, harms⟩ :=
      lowerAutomaticThrowing_handled lowering call thrownError expected state hquiet
    exact ⟨some arms, rfl, harms⟩

variable {call : Lower Rest (HirExpr Code)}

/-- The result is the call that the form makes, or a match on it where it may fail. -/
def Builds (call : PreparedCall (LoweredArgument Code)) (result : HirExpr Code) : Prop :=
  ∃ head handler, call.HasHead head ∧ handler.isSome = call.failureError.isSome ∧
    Handled (head.kind (arguments call.turns)) handler result.kind

theorem Quietly.completeOr {complete : Bool} {application : Lower Rest (HirExpr Code)}
    {property : HirExpr Code → Prop} (hcall : complete = true → Quietly call property)
    (happlication : complete = false → Quietly application property) :
    Quietly (completeOr complete call application) property := by
  cases complete with
  | true => exact hcall rfl
  | false => exact happlication rfl

variable (prepared : PreparedCall (LoweredArgument Code))

/-- The call that the form makes is built, and then handled where it may fail. -/
theorem applyThrowing_builds (expected : Option Ty)
    {failureError : Option Ty} (hfail : failureError = prepared.failureError)
    (hcall : Always call fun result => ∃ head, prepared.HasHead head ∧
      result.kind = head.kind (arguments prepared.turns)) :
    Quietly (do
      let call ← call
      applyThrowing lowering call failureError expected) (Builds prepared) := by
  intro state hquiet
  obtain ⟨head, hhead, hkind⟩ := hcall state
  obtain ⟨handler, hsome, hhandled⟩ := applyThrowing_handled lowering _ _ expected _ hquiet
  rw [hkind] at hhandled
  exact ⟨head, handler, hhead, hfail ▸ hsome, hhandled⟩

theorem partialExpr_builds {name : String}
    {given : Nat} {functionTy : FunctionTy} (hturns : turns = prepared.turns)
    (hfail : prepared.failureError = none)
    (hhead : prepared.HasHead (.application name consumedGroups : CallHead Code)) :
    Builds prepared (partialExpr name consumedGroups functionTy given turns) := by
  refine ⟨.application name consumedGroups, none, hhead, ?_, ?_⟩
  · rw [hfail]
    rfl
  · rw [← hturns]
    exact .plain

theorem applies_call {complete : Prop} {fn name : String} (hcomplete : complete)
    (hname : name ∈ functions) (diverges : Bool) :
    PreparedCall.Applies complete functions consumedCallable fn consumedGroups
      (.call name consumedCallable diverges : CallHead Code) :=
  ⟨fun _ => ⟨name, hname, diverges, rfl⟩, fun hrem => absurd hcomplete hrem⟩

theorem applies_application {complete : Prop} {fn : String} (hrem : ¬complete) :
    PreparedCall.Applies complete functions consumedCallable fn consumedGroups
      (.application fn consumedGroups : CallHead Code) :=
  ⟨fun hcomplete => absurd hcomplete hrem, fun _ => rfl⟩

theorem buildIndirectCall_builds (local_ : LocalInfo) (functionTy : FunctionTy)
    (expected : Option Ty) (turns : List (LoweredArgument Code)) :
    Quietly (buildIndirectCall lowering local_ functionTy expected turns)
      (Builds (.indirect local_ functionTy turns)) := by
  refine .after fun _ => .after fun diverges state hquiet => ?_
  obtain ⟨handler, hsome, hhandled⟩ := applyThrowing_handled lowering _ _ expected state hquiet
  exact ⟨.indirect (calleeExpr local_) diverges, handler, ⟨diverges, rfl⟩, hsome, hhandled⟩

theorem buildNamedCall_builds (name : String) (functionTy : FunctionTy) (groupCount : Nat)
    (expected : Option Ty) (turns : List (LoweredArgument Code)) :
    Quietly (buildNamedCall lowering name functionTy groupCount expected turns)
      (Builds (.named name functionTy groupCount turns)) := by
  refine .after fun _ => .after fun _ => .after fun _ => .completeOr (fun hcomplete => ?_)
    fun hrem => ?_
  · have hcomplete := of_decide_eq_true hcomplete
    apply applyThrowing_builds lowering (.named name functionTy groupCount turns)
    · exact (if_pos hcomplete).symm
    · exact .bind fun diverges _ =>
        ⟨.call name none diverges, applies_call hcomplete (mem_singleton_self _) diverges, rfl⟩
  · have hrem := of_decide_eq_false hrem
    exact fun _ _ => partialExpr_builds _ rfl (if_neg hrem) (applies_application hrem)

theorem buildClosureCall_builds (local_ : LocalInfo) (closure : ClosureInfo) (groupCount : Nat)
    (expected : Option Ty) (given : List (LoweredArgument Code)) :
    Quietly (buildClosureCall lowering local_ closure groupCount expected given)
      (Builds (.closure local_ closure groupCount given)) := by
  refine .after fun _ => .after fun _ => .completeOr (fun hcomplete => ?_) fun hrem => ?_
  · have hcomplete := of_decide_eq_true hcomplete
    apply applyThrowing_builds lowering (.closure local_ closure groupCount given)
    · exact (if_pos hcomplete).symm
    · exact .bind fun diverges _ =>
        ⟨.call closure.function _ diverges,
          applies_call hcomplete (mem_singleton_self _) diverges, rfl⟩
  · have hrem := of_decide_eq_false hrem
    exact .after fun _ _ _ =>
      partialExpr_builds _ rfl (if_neg hrem) (applies_application hrem)

theorem buildPartialCall_builds (localName : String) (local_ : LocalInfo) (info : PartialInfo)
    (functionTy : FunctionTy) (captures : List CallableCaptureTy) (params : List (List ParamSig))
    (groupCount : Nat) (expected : Option Ty) (given : List (LoweredArgument Code)) :
    Quietly (buildPartialCall lowering localName local_ info functionTy captures params
      groupCount expected given)
      (Builds (.partialCall localName local_ info functionTy captures params groupCount
        given)) := by
  refine .after fun _ => .after fun _ => .after fun _ => .completeOr (fun hcomplete => ?_)
    fun hrem => ?_
  · have hcomplete := of_decide_eq_true hcomplete
    apply applyThrowing_builds lowering
      (.partialCall localName local_ info functionTy captures params groupCount given)
    · exact (if_pos hcomplete).symm
    · exact .bind fun diverges _ =>
        ⟨.call info.function _ diverges,
          applies_call hcomplete (mem_singleton_self _) diverges, rfl⟩
  · have hrem := of_decide_eq_false hrem
    exact .after fun _ _ _ =>
      partialExpr_builds _ rfl (if_neg hrem) (applies_application hrem)

theorem loweredFunction_mem (name : String) :
    Always (loweredFunction lowering name) fun fn => fn ∈
      [name, "$intrinsic$checked_integer_conversion", "$intrinsic$integer_magnitude"] := by
  refine .bind fun conversion => .ite (fun _ => ?_) ?_
  · simp [pure_lower]
  · exact .bind fun magnitude => .ite (fun _ => by simp [pure_lower]) fun _ => by simp [pure_lower]

theorem buildMethodCall_builds (subject fn : String) (functionTy : FunctionTy)
    (consumedGroups : Nat) (expected : Option Ty) (turns : List (LoweredArgument Code)) :
    Quietly (buildMethodCall lowering subject fn functionTy consumedGroups expected turns)
      (Builds (.method subject fn functionTy consumedGroups turns)) := by
  refine .after fun _ => .after fun _ => .after fun _ => .completeOr (fun hcomplete => ?_)
    fun hrem => ?_
  · have hcomplete := of_decide_eq_true hcomplete
    apply applyThrowing_builds lowering (.method subject fn functionTy consumedGroups turns)
    · exact (if_pos hcomplete).symm
    · intro state
      exact ⟨.call _ none _, applies_call hcomplete (loweredFunction_mem lowering fn state) _, rfl⟩
  · have hrem := of_decide_eq_false hrem
    exact fun _ _ => partialExpr_builds _ rfl (if_neg hrem) (applies_application hrem)

theorem buildCall_builds
    (expected : Option Ty) : Quietly (buildCall lowering expected prepared) (Builds prepared) := by
  cases prepared with
  | named name functionTy groupCount given => exact buildNamedCall_builds lowering _ _ _ _ _
  | closure local_ closure groupCount given => exact buildClosureCall_builds lowering _ _ _ _ _
  | partialCall localName local_ info functionTy captures params groupCount given =>
    exact buildPartialCall_builds lowering _ _ _ _ _ _ _ _ _
  | indirect local_ functionTy given => exact buildIndirectCall_builds lowering _ _ _ _
  | method subject fn functionTy consumedGroups given =>
    exact buildMethodCall_builds lowering _ _ _ _ _ _

/-! ## Nothing is taken back -/

theorem lowerAutomaticThrowing_advances (opnd : HirExpr Code) (thrownError : Ty)
    (expected : Option Ty) :
    Advances (lowerAutomaticThrowing lowering opnd thrownError expected) := by
  have herror (msg : String) : Advances (do
      report msg
      pure errorExpr : Lower Rest (HirExpr Code)) :=
    .bind (report_advances msg) fun _ => pure_advances _
  refine .bind (advances _) fun active => ?_
  cases active with
  | none => exact .bind (advances _) fun _ => herror _
  | some activeError =>
    refine .ite (.bind (advances _) fun _ => .bind (advances _) fun _ => herror _) ?_
    refine .bind (advances _) fun _ => .ite (herror _) (.bind ?_ fun info => ?_)
    · unfold standardFallibleInfoForTy
      split
      · exact advances _
      · exact pure_advances _
    · cases info with
      | none => exact herror _
      | some info => exact .ite (herror _) (advances _)

theorem applyThrowing_advances (call : HirExpr Code) (failureError expected : Option Ty) :
    Advances (applyThrowing lowering call failureError expected) := by
  cases failureError with
  | none => exact pure_advances _
  | some thrownError => exact lowerAutomaticThrowing_advances lowering call thrownError expected

theorem rejectBorrowedCaptures_advances (complete : Bool) (msg : String)
    (turns : List (LoweredArgument Code)) :
    Advances (rejectBorrowedCaptures complete msg turns : Lower Rest PUnit) :=
  .ite (report_advances msg) (pure_advances _)

theorem releaseTemporaryLoans_advances (complete : Bool) (fn : String) (result : Ty)
    (expected : Option Ty) (turns : List (LoweredArgument Code)) :
    Advances (releaseTemporaryLoans lowering complete fn result expected turns) :=
  .ite (.bind (advances _) fun _ => advances _) (advances _)

theorem completeOr_advances {complete : Bool} {application : Lower Rest (HirExpr Code)}
    (hcall : Advances call) (happlication : Advances application) :
    Advances (completeOr complete call application) :=
  .ite hcall happlication

theorem loweredFunction_advances (name : String) : Advances (loweredFunction lowering name) :=
  .bind (advances _) fun _ => .ite (pure_advances _)
    (.bind (advances _) fun _ => .ite (pure_advances _) (pure_advances _))

theorem buildCall_advances
    (expected : Option Ty) : Advances (buildCall lowering expected prepared) := by
  have hcomplete {call : Lower Rest (HirExpr Code)} (hcall : Advances call)
      (failureError : Option Ty) : Advances (do
        let call ← call
        applyThrowing lowering call failureError expected) :=
    .bind hcall fun call => applyThrowing_advances lowering call failureError expected
  cases prepared with
  | named name functionTy groupCount given =>
    exact .bind (onlyIf_advances (advances _)) fun _ =>
      .bind (rejectBorrowedCaptures_advances _ _ _) fun _ =>
      .bind (releaseTemporaryLoans_advances lowering _ _ _ _ _) fun _ =>
      completeOr_advances
        (hcomplete (.bind (advances _) fun _ => pure_advances _) _) (pure_advances _)
  | closure local_ closure groupCount given =>
    exact .bind (rejectBorrowedCaptures_advances _ _ _) fun _ =>
      .bind (advances _) fun _ =>
      completeOr_advances
        (hcomplete (.bind (advances _) fun _ => pure_advances _) _)
        (.bind (advances _) fun _ => pure_advances _)
  | partialCall localName local_ info functionTy captures params groupCount given =>
    exact .bind (onlyIf_advances (advances _)) fun _ =>
      .bind (rejectBorrowedCaptures_advances _ _ _) fun _ =>
      .bind (advances _) fun _ =>
      completeOr_advances
        (hcomplete (.bind (advances _) fun _ => pure_advances _) _)
        (.bind (advances _) fun _ => pure_advances _)
  | indirect local_ functionTy given =>
    exact .bind (advances _) fun _ => .bind (advances _) fun _ =>
      applyThrowing_advances lowering _ _ expected
  | method subject fn functionTy consumedGroups given =>
    exact .bind (onlyIf_advances (advances _)) fun _ =>
      .bind (rejectBorrowedCaptures_advances _ _ _) fun _ =>
      .bind (releaseTemporaryLoans_advances lowering _ _ _ _ _) fun _ =>
      completeOr_advances
        (hcomplete (.bind (loweredFunction_advances lowering _) fun _ =>
          .bind (advances _) fun _ => pure_advances _) _) (pure_advances _)

theorem freshLocal_advances : Advances (freshLocal : Lower Rest LocalId) :=
  fun _ => ⟨prefix_rfl, Nat.le_succ _⟩

theorem stageValue_advances (pass : HirExpr Code → HirArgument Code) (kind : HirReadKind)
    (val : HirExpr Code) (borrowed : List (HirBinding Code)) :
    Advances (stageValue pass kind val borrowed : Lower Rest (StagedArgument Code)) := by
  refine .ite (pure_advances _) ?_
  cases readLocal val.kind with
  | none => exact .bind freshLocal_advances fun _ => pure_advances _
  | some id => exact .bind freshLocal_advances fun _ => pure_advances _

theorem stageArguments_advances (arguments : List (HirArgument Code))
    (borrowed : List (HirBinding Code)) :
    Advances (stageArguments arguments borrowed :
      Lower Rest (List (HirStmt Code) × List (HirArgument Code))) := by
  induction arguments generalizing borrowed with
  | nil => exact pure_advances _
  | cons arg rest ih =>
    refine .bind ?_ fun staged => .bind (ih _) fun _ => pure_advances _
    cases arg with
    | copy val => exact stageValue_advances _ _ val borrowed
    | move val => exact stageValue_advances _ _ val borrowed
    | sharedBorrow place => exact pure_advances _
    | mutBorrow place => exact pure_advances _
    | callableCaptureBorrow binding i callableTy captureTy mutable => exact pure_advances _

theorem wrapTurns_advances (call : HirExpr Code) (turns : List (LoweredArgument Code)) :
    Advances (wrapTurns call turns : Lower Rest (Option (HirExpr Code))) := by
  refine .ite (pure_advances _) (.bind (stageArguments_advances _ _) fun staged => ?_)
  obtain ⟨stmts, arguments⟩ := staged
  simp only
  split
  · exact pure_advances _
  · exact pure_advances _

end Lowering

/-! ## Wrapped calls -/

/-- The head of an indirect call. -/
def CallHead.isIndirect : CallHead Code → Bool
  | .indirect _ _ => true
  | .call _ _ _ | .application _ _ => false

theorem CallHead.withArguments_kind (head : CallHead Code)
    (arguments others : List (HirArgument Code)) : (head.kind arguments).withArguments others =
      if head.isIndirect then none else some (head.kind others) := by
  cases head <;> rfl

variable {head : CallHead Code}

section Evaluation

variable {Value Address World Exit : Type} {machine : Machine Code Value Address World Exit}

variable (machine) in
/-- The arguments of a call that is not indirect are evaluated first. -/
theorem CallHead.eval_bind (hdirect : head.isIndirect = false) (env env' : Env Value)
    (arguments : Run World Exit (List (Passed Value Address))) :
    head.eval machine env arguments =
      arguments >>= fun passed => head.eval machine env' (pure passed) := by
  cases head with
  | call fn consumedCallable diverges => simp [CallHead.eval]
  | application fn consumedGroups => simp [CallHead.eval]
  | indirect callee diverges => exact nomatch hdirect

/-- The statements in front of a call and the rewritten call do what the call does with its
arguments at their turn. -/
theorem eval_staged {limit : LocalId} (hsep : Separate limit turns)
    (hloans : LoansHold machine turns) {state : State Rest} (hlimit : limit ≤ state.nextLocal)
    (hdirect : head.isIndirect = false) (ty : Ty) (env : Env Value) :
    (HirExprKind.block (stageArguments (arguments turns) (temporaries turns) state).1.1
        (some ⟨ty, head.kind (stageArguments (arguments turns) (temporaries turns)
          state).1.2⟩)).eval machine env =
      head.eval machine env (evalTurns machine env turns) := by
  funext world
  rw [CallHead.eval_bind machine hdirect env env, HirExprKind.eval]
  refine (Matches.eq ?_).symm
  refine Matches.bind (evalTurns_staged hsep hloans hlimit env world)
    fun passed bound after _ hhanded => ?_
  have hcall := CallHead.eval_bind machine hdirect (env.extend bound) env
    (evalArguments machine (env.extend bound)
      (stageArguments (arguments turns) (temporaries turns) state).1.2)
  rw [HirExpr.eval, CallHead.eval_kind, hcall, bind_run_of_eq hhanded.eval_eq]
  exact matches_refl _

/-- A call without temporaries evaluates its arguments at their turn. -/
theorem Handled.eval_eq {kind : HirExprKind Code} {handler : Option Code} {result : HirExpr Code}
    (hhandled : Handled kind handler result.kind) (env : Env Value) :
    result.eval machine env = kind.eval machine env >>= machine.handle handler := by
  obtain ⟨ty, resultKind⟩ := result
  rw [HirExpr.eval]
  cases hhandled with
  | plain => exact (bind_pure _).symm
  | matched ty arms => rfl

end Evaluation

section Wrapping

theorem wrapTurns_of_none (hnone : temporaries turns = []) (call : HirExpr Code)
    (state : State Rest) :
    wrapTurns call turns state = (some call, state) := by
  rw [wrapTurns, wrapCallArgumentTemporaries, hnone]
  rfl

theorem wrapTurns_of_some (hsome : temporaries turns ≠ []) (call : HirExpr Code)
    (state : State Rest) :
    (wrapTurns call turns state).1 = (call.kind.withArguments
        (stageArguments (arguments turns) (temporaries turns) state).1.2).map fun kind =>
          { ty := call.ty
            kind := .block (stageArguments (arguments turns) (temporaries turns) state).1.1
              (some { ty := call.ty, kind }) } := by
  have hisEmpty : (temporaries turns).isEmpty = false := by
    rwa [← Bool.not_eq_true, List.isEmpty_iff]
  rw [wrapTurns, wrapCallArgumentTemporaries, hisEmpty]
  simp only [Bool.false_eq_true, if_false, bind_lower]
  cases call.kind.withArguments
    (stageArguments (arguments turns) (temporaries turns) state).1.2 with
  | none => rfl
  | some kind => rfl

/-- A call with temporaries is wrapped only where nothing handles it and it is not indirect. -/
theorem Handled.withArguments {arguments others : List (HirArgument Code)} {handler : Option Code}
    {kind : HirExprKind Code} (hhandled : Handled (head.kind arguments) handler kind) :
    kind.withArguments others =
      if head.isIndirect ∨ handler.isSome then none else some (head.kind others) := by
  cases hhandled with
  | plain => simp [CallHead.withArguments_kind]
  | matched ty arms => simp [HirExprKind.withArguments]

end Wrapping

/-! ## Calls -/

section Calls

variable (lowering : CallLowering Rest Code)

/-- The lowered call evaluates each of its arguments once, in the order of the source, and hands
over what each denoted at its turn; so does the match that handles its failure. -/
def StagesArguments (form : CallForm) (expected : Option Ty) (state : State Rest) : Prop :=
  ∃ prepared result head handler,
    (prepareCall lowering (observing lowering) expected form state).1 = some prepared ∧
    prepared.given.map ArgumentTurn.source = (callSources lowering expected form state).1 ∧
    (lowerCall lowering form expected state).1 = some result ∧
    prepared.HasHead head ∧ handler.isSome = prepared.failureError.isSome ∧
    ∀ (Value Address World Exit : Type) (machine : Machine Code Value Address World Exit)
      (env : Env Value), LoansHold machine (prepared.map ArgumentTurn.lowered).turns →
        result.eval machine env = head.eval machine env
            (evalTurns machine env (prepared.map ArgumentTurn.lowered).turns) >>=
          machine.handle handler

/-- No argument is a borrowed rvalue at its turn, or the call is neither one through a
function-typed local nor one that may fail. -/
def StagesWhen (form : CallForm) (expected : Option Ty) (state : State Rest) : Prop :=
  ∀ prepared, (prepareCall lowering (observing lowering) expected form state).1 = some prepared →
    (∀ turn ∈ prepared.given, turn.borrowsRvalue = false) ∨
      prepared.isIndirect = false ∧ prepared.failureError = none

variable {lowering}

/-- A call that is lowered without a complaint has been prepared, built and wrapped. -/
theorem lowerCall_quiet {form : CallForm} {expected : Option Ty} {state : State Rest}
    (hquiet : (lowerCall lowering form expected state).2.diagnostics = []) :
    ∃ prepared, ∃ built : HirExpr Code × State Rest,
      (prepareCall lowering (observing lowering) expected form state).1 = some prepared ∧
      (prepareCall lowering (observing lowering) expected form state).2.Grows built.2 ∧
      Builds (prepared.map ArgumentTurn.lowered) built.1 ∧
      (lowerCall lowering form expected state).1 =
        (wrapTurns built.1 (prepared.map ArgumentTurn.lowered).turns built.2).1 := by
  have hreports := prepareCall_reports lowering (observing lowering) form expected state
  rw [lowerCall, prepareCall_map lowering (observing_maps lowering)] at hquiet ⊢
  rw [bind_map_left, bind_lower] at hquiet ⊢
  cases hprep : (prepareCall lowering (observing lowering) expected form state).1 with
  | none =>
    rw [hprep] at hquiet
    exact absurd hquiet (hreports hprep)
  | some prepared =>
    rw [hprep] at hquiet
    simp only [map_some, finishCall, bind_lower] at hquiet ⊢
    have hbuilt := (wrapTurns_advances _ _ _).quiet hquiet
    exact ⟨prepared, _, rfl, buildCall_advances lowering _ expected _,
      buildCall_builds lowering _ expected _ hbuilt, rfl⟩

@[simp] theorem PreparedCall.hasHead_map {Lowered' : Type} (f : Lowered → Lowered')
    (prepared : PreparedCall Lowered) (head : CallHead Code) :
    (prepared.map f).HasHead head ↔ prepared.HasHead head := by
  cases prepared <;> rfl

@[simp] theorem PreparedCall.failureError_map {Lowered' : Type} (f : Lowered → Lowered')
    (prepared : PreparedCall Lowered) : (prepared.map f).failureError = prepared.failureError := by
  cases prepared <;> rfl

theorem PreparedCall.Applies.isIndirect {complete : Prop} {fn : String}
    (happlies : PreparedCall.Applies complete functions consumedCallable fn consumedGroups
      head) : head.isIndirect = false := by
  by_cases hcomplete : complete
  · obtain ⟨name, -, diverges, rfl⟩ := happlies.1 hcomplete
    rfl
  · rw [happlies.2 hcomplete]
    rfl

/-- The calls through function-typed locals are the indirect ones. -/
theorem PreparedCall.HasHead.isIndirect {prepared : PreparedCall Lowered}
    (hhead : prepared.HasHead head) : head.isIndirect = prepared.isIndirect := by
  cases prepared with
  | indirect local_ functionTy given =>
    obtain ⟨diverges, rfl⟩ := hhead
    rfl
  | named name functionTy groupCount given => exact Applies.isIndirect hhead
  | closure local_ known groupCount given => exact Applies.isIndirect hhead
  | partialCall localName local_ info functionTy captures params groupCount given =>
    exact Applies.isIndirect hhead
  | method subject fn functionTy consumedGroups given => exact Applies.isIndirect hhead

/-- The arguments of a prepared call keep apart; those with temporaries are the borrowed rvalues
among its sources. -/
theorem prepared_separate {form : CallForm} {expected : Option Ty} {state : State Rest}
    {prepared : PreparedCall (ArgumentTurn Code)}
    (hprep :
      (prepareCall lowering (observing lowering) expected form state).1 = some prepared) :
    prepared.given.map ArgumentTurn.source = (callSources lowering expected form state).1 ∧
      Separate (prepareCall lowering (observing lowering) expected form state).2.nextLocal
        (prepared.map ArgumentTurn.lowered).turns ∧
      (temporaries (prepared.map ArgumentTurn.lowered).turns = [] ↔
        ∀ turn ∈ prepared.given, turn.borrowsRvalue = false) := by
  obtain ⟨-, hfrom⟩ := prepareCall_observed lowering form expected state
  obtain ⟨middle, -, hpasses, hgiven⟩ := hfrom prepared hprep
  have hcaptures : temporaries (prepared.captures : List (LoweredArgument Code)) = [] :=
    flatMap_eq_nil_iff.mpr fun turn hturn => (hpasses turn hturn).1
  rw [PreparedCall.turns, captures_map, given_map]
  refine ⟨hgiven.sources_eq, ?_, ?_⟩
  · exact ((LoweredInOrder.of_passes hpasses).append hgiven.loweredInOrder).separate
  · rw [← hgiven.temporaries_eq_nil, temporaries, flatMap_append, ← temporaries, hcaptures,
      nil_append]
    rfl

/-- Without a complaint, a call is staged in the order of its arguments exactly when none of them
is a borrowed rvalue or the call is neither indirect nor one that may fail. -/
theorem lowerCall_stages_iff (lowering : CallLowering Rest Code) (form : CallForm)
    (expected : Option Ty) (state : State Rest)
    (hquiet : (lowerCall lowering form expected state).2.diagnostics = []) :
    StagesArguments lowering form expected state ↔ StagesWhen lowering form expected state := by
  obtain ⟨prepared, built, hprep, hgrows, hbuilds, hres⟩ := lowerCall_quiet hquiet
  obtain ⟨head, handler, hhead, hhandler, hhandled⟩ := hbuilds
  obtain ⟨hsrcs, hsep, htemporaries⟩ := prepared_separate hprep
  rw [hasHead_map] at hhead
  rw [failureError_map] at hhandler
  constructor
  · intro hstages other hother
    obtain rfl : prepared = other := Option.some.inj (hprep.symm.trans hother)
    by_contra hneither
    rw [not_or, ← htemporaries] at hneither
    obtain ⟨hsome, hwrapped⟩ := hneither
    obtain ⟨-, result, -, -, -, -, hlowered, -⟩ := hstages
    have hnone : head.isIndirect = true ∨ handler.isSome = true := by
      rw [hhead.isIndirect, hhandler]
      by_contra hneither
      rw [not_or, Bool.not_eq_true, Bool.not_eq_true, isSome_eq_false_iff,
        isNone_iff_eq_none] at hneither
      exact hwrapped hneither
    rw [hres, wrapTurns_of_some hsome, hhandled.withArguments, if_pos hnone] at hlowered
    exact nomatch hlowered
  · intro hwhen
    by_cases hnone : temporaries (prepared.map ArgumentTurn.lowered).turns = []
    · rw [wrapTurns_of_none hnone] at hres
      refine ⟨prepared, built.1, head, handler, hprep, hsrcs, hres, hhead, hhandler, ?_⟩
      intro Value Address World Exit machine env _
      rw [hhandled.eval_eq, CallHead.eval_kind, evalTurns_eq_evalArguments hnone]
    · obtain ⟨hindirect, hfail⟩ := (hwhen prepared hprep).resolve_left
        fun hplaces => hnone (htemporaries.mpr hplaces)
      have hdirect : head.isIndirect = false := hhead.isIndirect.trans hindirect
      have hplain : handler = none := by
        rwa [hfail, isSome_none, isSome_eq_false_iff, isNone_iff_eq_none] at hhandler
      have hwrap : ¬(head.isIndirect = true ∨ handler.isSome = true) := by
        simp [hdirect, hplain]
      rw [wrapTurns_of_some hnone, hhandled.withArguments, if_neg hwrap, map_some]
        at hres
      refine ⟨prepared, _, head, handler, hprep, hsrcs, hres, hhead, hhandler, ?_⟩
      intro Value Address World Exit machine env hloans
      rw [HirExpr.eval, eval_staged hsep hloans hgrows.nextLocal hdirect, hplain]
      exact (bind_pure _).symm

end Calls

/-! ## A call through a function-typed local -/

section Predicate

/-- A step that changes nothing. -/
def Step.still {Rest Result : Type} (result : Result) : Step Rest Result where
  run := pure result
  grows := refl
  mentions_lt _ _ hmentions := hmentions.elim

/-- A step that complains. -/
def Step.complaint {Rest Result : Type} (msg : String) (result : Result) :
    Step Rest Result where
  run := do
    report msg
    pure result
  grows := report_advances msg
  mentions_lt _ _ hmentions := hmentions.elim

/-- A step that finds no place. -/
def Step.noPlace {Rest : Type} : Step Rest (Option HirPlace)
    fun found id => ∃ place, found = some place ∧ place.localId = id where
  run := pure none
  grows := refl
  mentions_lt _ _ hmentions := by
    obtain ⟨place, hplace, -⟩ := hmentions
    exact nomatch hplace

def i32 : Ty := .integer .i32

/-- A local of the type `(borrow(i32)): bool`. -/
def predicate : LocalInfo where
  id := 0
  ty := .function
    { groups := [[.reference i32 false none]]
      unsafety := false
      failureError := none
      customEffects := []
      result := .bool }
  mutable := false
  capability := .owned
  partialInfo := none
  closure := none

/-- The sum that is lowered for an argument. -/
def sumStep : Step Unit (HirExpr Unit) HirExpr.Mentions where
  run := pure { ty := i32, kind := .other () }
  grows := refl
  mentions_lt _ _ hmentions := hmentions.elim

/-- Lowering in the body of a function whose only local is the predicate, for arguments that are
sums of integers. -/
def predicateLowering : CallLowering Unit Unit where
  lookup name :=
    { run := fun state =>
        (if name = "predicate" ∧ 0 < state.nextLocal then some predicate else none, state)
      grows := refl
      mentions_lt := by
        intro state id hmentions
        obtain ⟨local_, hfound, hid⟩ := hmentions
        obtain ⟨⟨-, hlt⟩, hlocal⟩ := ite_none_right_eq_some.mp hfound
        cases hlocal
        cases hid with
        | inl hid => exact hid ▸ hlt
        | inr hcapture =>
          obtain ⟨closure, hclosure, -⟩ := hcapture
          exact nomatch hclosure }
  requireSameType actual expected subject :=
    if actual.same expected then .still () else .complaint s!"{subject} has another type" ()
  isCopyType _ := .still true
  isMoveType _ := .still true
  diagnosticTypeName _ := .still "i32"
  probeExprTy _ := .still (.defaultable i32)
  lowerPlace _ := .noPlace
  lowerPlaceWithoutDiagnostic _ := .noPlace
  lowerExpr _ _ := sumStep
  lowerReferenceValueExprWithAccess _ _ _ := sumStep
  closureLiteralCaptureUses _ _ := .still none
  lowerLocalClosure _ _ _ := sumStep
  lowerLocalPatternClosure _ _ _ _ := sumStep
  ensureAvailable _ := .still ()
  ensureNoConflictingLoan _ _ := .still ()
  projectedPlaceCrossesCustomDrop _ := .still false
  guardMoveRestricted _ := .still false
  markMoved _ := .still ()
  acquireLoan _ _ _ := .still none
  releaseLoans _ := .still ()
  functionSignature name := .complaint s!"unknown function `{name}`" none
  functionSignature_reports _ state _ := report_ne_nil _ state
  resolveMethod _ _ member _ _ := .complaint s!"unknown method `{member}`" none
  resolveMethod_reports _ _ _ _ _ state _ := report_ne_nil _ state
  requireReceiverType _ _ subject := .complaint s!"{subject} has another type" ()
  requireReceiverType_reports _ _ _ state := report_ne_nil _ state
  requireFunctionEffects _ := .still ()
  requireCallableEffects _ _ _ := .still ()
  promoteReturnedReferenceLoans _ _ _ _ loans _ := .still loans
  isUninhabitedType _ := .still false
  activeFailureError := .still none
  hasReturnBoundary := .still true
  standardFallibleInfo _ := .still none
  lowerMatchWithScrutinee scrutinee _ _ _ :=
    .still { ty := scrutinee.ty, kind := .matchExpr scrutinee () }
  lowerMatchWithScrutinee_kind _ _ _ _ _ _ _ _ := ⟨(), rfl⟩
  initializationStatus _ := .still .initialized
  partialParameterShape _ _ := .still none
  signatureGroups _ := .still []
  storePartialParameterShape _ _ _ := .still ()
  runtimeHandlerAction _ _ _ := .still none
  lowerLocalPlace _ :=
    { run := fun state => (.whole state.nextLocal i32 false,
        { state with nextLocal := state.nextLocal + 1 })
      grows := freshLocal_advances
      mentions_lt := fun state id hid => hid ▸ Nat.lt_succ_self state.nextLocal }
  hasTopLevelCallable _ := .still false
  isIntegerConversion _ := .still false
  isIntegerMagnitude _ := .still false

/-- `predicate(1 + 1)`. -/
def predicateCall : CallForm :=
  .local_ "predicate" [[⟨none, .binary (.integer 1) .add (.integer 1)⟩]]

/-- The body of the function, in front of the call. -/
def predicateState : State Unit where
  diagnostics := []
  nextLocal := 1
  rest := ()

/-- The sum is bound to a temporary, and the call is an indirect one. -/
theorem predicateCall_unreachable :
    (lowerCall predicateLowering predicateCall none predicateState).2.diagnostics = [] ∧
      (lowerCall predicateLowering predicateCall none predicateState).1 = none ∧
      ¬StagesArguments predicateLowering predicateCall none predicateState := by
  have hnone : (lowerCall predicateLowering predicateCall none predicateState).1 = none := rfl
  refine ⟨rfl, hnone, fun hstages => ?_⟩
  obtain ⟨prepared, result, head, handler, -, -, hres, -⟩ := hstages
  exact nomatch hnone.symm.trans hres

theorem lowerCall_stages_iff_predicate :
    (lowerCall predicateLowering predicateCall none predicateState).2.diagnostics = [] ∧
      (StagesArguments predicateLowering predicateCall none predicateState ↔
        StagesWhen predicateLowering predicateCall none predicateState) :=
  ⟨rfl, lowerCall_stages_iff predicateLowering predicateCall none predicateState rfl⟩

end Predicate

end Salicin.Codegen.Calls
