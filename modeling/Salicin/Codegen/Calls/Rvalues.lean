import Salicin.Codegen.Calls.Forms

/-!
# Borrowed rvalues

An argument is a borrowed rvalue when its parameter takes a borrow of it, or a reference to it,
and it is neither a place nor a reference. These are the arguments that are bound to a
temporary.
-/

namespace Salicin.Codegen.Calls

open Salicin.Source (Expr CallArg)

variable {Rest Code : Type}

section

variable (lowering : ArgumentLowering Rest Code)

/-- A reference to a place of the type fits the parameter, or a copy or move of it does. -/
def fitsReference (ty expected : Ty) : Bool :=
  referenceValueTypesCompatible ty expected ||
    match expected with
    | .reference pointee _ _ => ty.same pointee
    | _ => false

/-- An argument of a reference parameter that is neither a reference nor a place that fits. -/
def borrowsForReference (arg : Expr) (param : ParamSig) : Lower Rest Bool := do
  let (isReferenceValue, isSharedReference) ← probeReference lowering arg param
  if isReferenceValue && (param.mode ≠ .inferred || isSharedReference) then pure false
  else
    match ← (lowering.lowerPlaceWithoutDiagnostic arg).run with
    | some place => pure (!fitsReference place.ty param.ty && !isReferenceValue)
    | none => pure !isReferenceValue

/-- An argument that is borrowed and is not a place. -/
def borrowsForMode (arg : Expr) (param : ParamSig) (mode : ArgumentMode) : Lower Rest Bool :=
  match mode with
  | .borrow | .mutBorrow => do
    pure (← (lowering.lowerPlaceWithoutDiagnostic arg).run).isNone
  | .copy | .move =>
    match param.ty with
    | .reference _ _ _ => borrowsForReference lowering arg param
    | _ => pure false

/-- The argument is a borrowed rvalue when it is lowered in the state. -/
def borrowsRvalue (arg : Expr) (param : ParamSig) : Lower Rest Bool :=
  match internalStoredCallableCapture arg with
  | some _ => pure false
  | none => do
    match ← lowerInternalAsyncStoredBorrowArgument lowering arg param with
    | some _ => pure false
    | none =>
      borrowsForMode lowering arg param
        (← effectivePassMode lowering param.mode param.ty)

end

/-! ## The arguments with temporaries -/

/-- Every result of lowering is so. -/
def Always {Result : Type} (run : Lower Rest Result) (property : Result → Prop) : Prop :=
  ∀ state : State Rest, property (run state).1

theorem Always.bind {First Second : Type} {first : Lower Rest First}
    {next : First → Lower Rest Second} {property : Second → Prop}
    (hnext : ∀ res, Always (next res) property) : Always (first >>= next) property :=
  fun _ => hnext _ _

theorem Always.ite {Result : Type} {cond : Prop} [Decidable cond] {first second : Lower Rest Result}
    {property : Result → Prop} (hfst : Always first property) (hsnd : Always second property) :
    Always (if cond then first else second) property := by
  split
  · exact hfst
  · exact hsnd

/-- Lowering comes to a result without a temporary exactly when the observation is negative. -/
def Observes (run : Lower Rest (LoweredArgument Code)) (observed : Lower Rest Bool) : Prop :=
  ∀ state, (observed state).1 = false ↔ (run state).1.bindings = []

theorem Observes.bind {First : Type} {first : Lower Rest First}
    {next : First → Lower Rest (LoweredArgument Code)} {next' : First → Lower Rest Bool}
    (hnext : ∀ res, Observes (next res) (next' res)) :
    Observes (first >>= next) (first >>= next') :=
  fun _ => hnext _ _

/-- A negative observation of an argument that never has a temporary. -/
theorem Observes.never {run : Lower Rest (LoweredArgument Code)}
    (hrun : Always run fun turn => turn.bindings = []) : Observes run (pure false) :=
  fun state => iff_of_true rfl (hrun state)

/-- A positive observation of an argument that always has a temporary. -/
theorem Observes.always {run : Lower Rest (LoweredArgument Code)}
    (hrun : Always run fun turn => turn.bindings ≠ []) : Observes run (pure true) :=
  fun state => iff_of_false Bool.noConfusion (hrun state)

variable (lowering : ArgumentLowering Rest Code) (arg : Expr)

theorem lowerReferenceValueCallArgument_bindings (param : ParamSig) :
    Always (lowerReferenceValueCallArgument lowering arg param)
      fun turn => turn.bindings = [] :=
  .bind fun _ => .bind fun _ => .bind fun _ => .bind fun _ _ => rfl

theorem lowerReferenceTemporary_bindings (param : ParamSig) (pointee : Ty)
    (mutable : Bool) :
    Always (lowerReferenceTemporary lowering arg param pointee mutable)
      fun turn => turn.bindings ≠ [] :=
  .bind fun _ => .bind fun _ => .bind fun _ => .bind fun _ _ => List.cons_ne_nil _ _

/-- A place gives an argument for a reference parameter exactly when it fits. -/
theorem lowerReferencePlaceCallArgument_fits (place : HirPlace) (param : ParamSig) (expected : Ty) :
    Always (lowerReferencePlaceCallArgument lowering place param expected)
      fun lowered => lowered.isSome = fitsReference place.ty expected ∧
        ∀ turn, lowered = some turn → turn.bindings = [] := by
  unfold lowerReferencePlaceCallArgument fitsReference
  cases hcompatible : referenceValueTypesCompatible place.ty expected with
  | true =>
    refine .bind fun val => .bind fun mode _ => ⟨rfl, fun turn hturn => ?_⟩
    exact Option.some.inj hturn ▸ rfl
  | false =>
    cases expected with
    | reference pointee mutable region =>
      cases hsame : place.ty.same pointee with
      | false => exact fun _ => ⟨by simp [hsame, pure_lower], by simp [hsame, pure_lower]⟩
      | true =>
        simp only [hsame]
        refine .bind fun _ => .bind fun loan _ => ⟨rfl, fun turn hturn => ?_⟩
        exact Option.some.inj hturn ▸ rfl
    | _ => exact fun _ => ⟨rfl, fun turn hturn => nomatch hturn⟩

theorem lowerReferenceCallArgument_observes (param : ParamSig) (pointee : Ty)
    (mutable : Bool) :
    Observes (lowerReferenceCallArgument lowering arg param pointee mutable)
      (borrowsForReference lowering arg param) := by
  refine .bind fun probe => ?_
  obtain ⟨isReferenceValue, isSharedReference⟩ := probe
  have hval := lowerReferenceValueCallArgument_bindings lowering arg param
  have hrest : Observes
      (if isReferenceValue then lowerReferenceValueCallArgument lowering arg param
        else lowerReferenceTemporary lowering arg param pointee mutable)
      (pure !isReferenceValue) := by
    cases isReferenceValue with
    | true => exact .never hval
    | false =>
      exact .always (lowerReferenceTemporary_bindings lowering arg param pointee mutable)
  simp only
  split
  · exact .never hval
  · rw [lowerReferencePlace, bind_assoc]
    refine .bind fun found => ?_
    cases found with
    | none => simpa only [pure_bind] using hrest
    | some place =>
      intro state
      obtain ⟨hsome, hbinds⟩ :=
        lowerReferencePlaceCallArgument_fits lowering place param param.ty state
      rw [bind_lower]
      simp only
      rw [← hsome]
      cases hlowered : (lowerReferencePlaceCallArgument lowering place param param.ty
        state).1 with
      | some turn => exact iff_of_true rfl (hbinds turn hlowered)
      | none =>
        exact hrest (lowerReferencePlaceCallArgument lowering place param param.ty
          state).2

theorem lowerArgumentValue_bindings (param : ParamSig)
    (mode : ArgumentMode) (hval : ∀ pointee mutable region,
      param.ty ≠ .reference pointee mutable region) :
    Always (lowerValueCallArgument lowering arg param mode)
      fun turn => turn.bindings = [] := by
  unfold lowerValueCallArgument
  split
  next pointee mutable region hty => exact absurd hty (hval pointee mutable region)
  · exact .bind fun _ => .bind fun _ => .bind fun _ _ => rfl

theorem lowerValueCallArgument_observes (param : ParamSig)
    (mode : ArgumentMode) (hmode : mode = .copy ∨ mode = .move) :
    Observes (lowerValueCallArgument lowering arg param mode)
      (borrowsForMode lowering arg param mode) := by
  have hborrows : borrowsForMode lowering arg param mode =
      match param.ty with
      | .reference _ _ _ => borrowsForReference lowering arg param
      | _ => pure false := by
    cases hmode with
    | inl hcopy => subst hcopy; rfl
    | inr hmove => subst hmove; rfl
  rw [hborrows]
  cases hty : param.ty with
  | reference pointee mutable region =>
    unfold lowerValueCallArgument
    simp only [hty]
    exact lowerReferenceCallArgument_observes lowering arg param pointee mutable
  | _ =>
    refine .never (lowerArgumentValue_bindings lowering arg param mode ?_)
    intro pointee mutable region href
    exact nomatch hty.symm.trans href

theorem lowerBorrowCallArgument_observes (param : ParamSig) (mutable : Bool) :
    Observes (lowerBorrowCallArgument lowering arg param mutable) (do
      pure (← (lowering.lowerPlaceWithoutDiagnostic arg).run).isNone) := by
  unfold lowerBorrowCallArgument lowerBorrowedPlace
  rw [bind_assoc]
  refine .bind fun found => ?_
  cases found with
  | some place =>
    refine .never ?_
    simp only [pure_bind]
    exact .bind fun _ => .bind fun _ => .bind fun _ _ => rfl
  | none =>
    refine .always ?_
    simp only [bind_assoc, pure_bind]
    exact .bind fun _ => .bind fun _ => .bind fun _ => .bind fun _ => .bind fun _ _ =>
      List.cons_ne_nil _ _

theorem lowerStoredCallableCapture_bindings (localName : String) (i : Nat) (param : ParamSig) :
    Always (lowerStoredCallableCapture lowering localName i param)
      fun turn => turn.bindings = [] := by
  refine .bind fun found => ?_
  cases found with
  | none => exact .bind fun _ _ => rfl
  | some local_ =>
    simp only
    split
    · exact .bind fun _ _ => rfl
    · split
      · exact .bind fun _ _ => rfl
      · refine .bind fun _ => ?_
        split
        · exact fun _ => rfl
        · exact fun _ => rfl
        · exact fun _ => rfl

theorem lowerInternalAsyncStoredBorrowArgument_bindings (expr : Expr) (param : ParamSig) :
    Always (lowerInternalAsyncStoredBorrowArgument lowering expr param)
      fun lowered => ∀ turn, lowered = some turn → turn.bindings = [] := by
  have hnone : Always (pure none : Lower Rest (Option (LoweredArgument Code)))
      fun lowered => ∀ turn, lowered = some turn → turn.bindings = [] :=
    fun _ turn hturn => nomatch hturn
  have hplain (arg : HirArgument Code) :
      Always (pure (some (LoweredArgument.plain arg)) : Lower Rest _)
        fun lowered => ∀ turn, lowered = some turn → turn.bindings = [] :=
    fun _ turn hturn => Option.some.inj hturn ▸ rfl
  unfold lowerInternalAsyncStoredBorrowArgument
  split
  · split
    · split
      · refine .bind fun found => ?_
        cases found with
        | none => exact hnone
        | some place =>
          simp only
          split
          · exact .ite hnone (.bind fun _ => .bind fun _ => .bind fun _ => hplain _)
          · exact .bind fun _ => hplain _
      · exact .bind fun _ => hplain _
    · exact hnone
  · exact hnone

theorem lowerCallArgument_observes (param : ParamSig) :
    Observes (lowerCallArgument lowering arg param)
      (borrowsRvalue lowering arg param) := by
  unfold lowerCallArgument borrowsRvalue
  cases hstored : internalStoredCallableCapture arg with
  | some stored =>
    exact .never (lowerStoredCallableCapture_bindings lowering stored.1 stored.2 param)
  | none =>
    intro state
    have hasync := lowerInternalAsyncStoredBorrowArgument_bindings lowering arg param state
    simp only [bind_lower]
    cases hlowered : (lowerInternalAsyncStoredBorrowArgument lowering arg param state).1
      with
    | some turn => exact iff_of_true rfl (hasync turn hlowered)
    | none =>
      simp only [bind_lower]
      cases (effectivePassMode lowering param.mode param.ty
        (lowerInternalAsyncStoredBorrowArgument lowering arg param state).2).1 with
      | copy => exact lowerValueCallArgument_observes lowering _ _ _ (.inl rfl) _
      | move => exact lowerValueCallArgument_observes lowering _ _ _ (.inr rfl) _
      | borrow => exact lowerBorrowCallArgument_observes lowering _ _ _ _
      | mutBorrow => exact lowerBorrowCallArgument_observes lowering _ _ _ _

/-! ## By position -/

section

variable (lowering : CallLowering Rest Code)

/-- The argument at the position is a borrowed rvalue when it is lowered in the state. -/
def borrowsRvalueAt (position : ArgumentPosition) (arg : CallArg) (param : ParamSig) :
    Lower Rest Bool :=
  match position with
  | .plain => borrowsRvalue lowering.toArgumentLowering arg.value param
  | .named function groupIndex parameterIndex => do
    match ← (lowering.runtimeHandlerAction function groupIndex parameterIndex).run with
    | some _ => pure false
    | none => borrowsRvalue lowering.toArgumentLowering arg.value param

theorem lowerHandlerAction_bindings (action : RuntimeHandlerAction) (arg : CallArg)
    (param : ParamSig) :
    Always (lowerHandlerAction lowering action arg param)
      fun turn => turn.bindings = [] := by
  refine .bind fun known => .ite (.bind fun _ _ => rfl) ?_
  split
  · exact .bind fun _ => .bind fun _ _ => rfl
  · exact .bind fun _ => .bind fun _ _ => rfl

theorem lowerArgument_observes (position : ArgumentPosition) (arg : CallArg) (param : ParamSig) :
    Observes (lowerArgument lowering position arg param)
      (borrowsRvalueAt lowering position arg param) := by
  cases position with
  | plain => exact lowerCallArgument_observes lowering.toArgumentLowering arg.value param
  | named fn groupIndex parameterIndex =>
    refine .bind fun action => ?_
    cases action with
    | some action => exact .never (lowerHandlerAction_bindings lowering action arg param)
    | none =>
      exact lowerCallArgument_observes lowering.toArgumentLowering arg.value param

end

end Salicin.Codegen.Calls
