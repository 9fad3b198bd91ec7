import Salicin.Source.Types

/-!
# Results of failing functions

A function with a failure type returns a standard result to its callers. The type of that result
is built from the failure type and the logical result; three other places read the logical
result off it again.
-/

namespace Salicin.Codegen.Fallible

open Salicin.Source (SourceType FunctionEffects)

/-- The name is that of the lang item `result`. -/
def effectAbiResultSource (resultName : String) (logical : SourceType)
    (effects : FunctionEffects) : SourceType :=
  match effects.failure with
  | some error => .named resultName [error, logical]
  | none => logical

def logicalEffectResultSource [DecidableEq SourceType] (result : SourceType)
    (effects : FunctionEffects) : SourceType :=
  match effects.failure with
  | none => result
  | some error =>
    match result with
    | .named _ [first, second] => if second = error then first else result
    | _ => result

/-- The logical result in `resolve_inferred_generic_function_instance`, which is unified with
the type that the call is expected to have. -/
def inferredLogicalResult (result : SourceType) (effects : FunctionEffects) : SourceType :=
  if effects.failure.isSome then
    match result with
    | .named _ [first, _] => first
    | _ => result
  else result

/-- What `standard_fallible_info_for_probe` reads off a standard result: the payload and the
error. -/
def standardFallibleInfo (resultName : String) : SourceType → Option (SourceType × SourceType)
  | .named template [error, payload] =>
    if template = resultName then some (payload, error) else none
  | _ => none

section

variable (resultName : String) (logical error : SourceType) (unsafety : Bool)
  (custom : List SourceType) (parameters : List String)

theorem effectAbiResultSource_failing :
    effectAbiResultSource resultName logical (.mk unsafety (some error) custom parameters) =
      .named resultName [error, logical] := rfl

/-- The reader of payloads takes the arguments in the order in which they are put together. -/
theorem standardFallibleInfo_abi :
    standardFallibleInfo resultName
      (effectAbiResultSource resultName logical (.mk unsafety (some error) custom parameters)) =
        some (logical, error) := by
  rw [effectAbiResultSource_failing, standardFallibleInfo, if_pos rfl]

/-- Inference takes the failure type for the logical result. -/
theorem inferredLogicalResult_abi :
    inferredLogicalResult
      (effectAbiResultSource resultName logical (.mk unsafety (some error) custom parameters))
      (.mk unsafety (some error) custom parameters) = error := rfl

variable [DecidableEq SourceType]

/-- The wrapper is recognised by its second argument, which is the logical result. -/
theorem logicalEffectResultSource_abi :
    logicalEffectResultSource
      (effectAbiResultSource resultName logical (.mk unsafety (some error) custom parameters))
      (.mk unsafety (some error) custom parameters) =
        if logical = error then error else .named resultName [error, logical] := rfl

end

theorem ne_named_self (name : String) (first second : SourceType) :
    second ≠ .named name [first, second] := by
  intro h
  have hsize := congrArg sizeOf h
  simp only [SourceType.named.sizeOf_spec, List.cons.sizeOf_spec, List.nil.sizeOf_spec] at hsize
  omega

/-- The logical result is read back from the wrapper, by handlers and by inference. -/
def ReadsBack [DecidableEq SourceType] (resultName : String) (logical : SourceType)
    (effects : FunctionEffects) : Prop :=
  logicalEffectResultSource (effectAbiResultSource resultName logical effects) effects = logical ∧
    inferredLogicalResult (effectAbiResultSource resultName logical effects) effects =
      logicalEffectResultSource (effectAbiResultSource resultName logical effects) effects

theorem readsBack_iff [DecidableEq SourceType] (resultName : String)
    (logical error : SourceType) (unsafety : Bool) (custom : List SourceType)
    (parameters : List String) :
    ReadsBack resultName logical (.mk unsafety (some error) custom parameters) ↔
      logical = error := by
  rw [ReadsBack, inferredLogicalResult_abi, logicalEffectResultSource_abi]
  constructor
  · rintro ⟨hlogical, -⟩
    by_contra hne
    rw [if_neg hne] at hlogical
    exact ne_named_self resultName error logical hlogical.symm
  · rintro rfl
    rw [if_pos rfl]
    exact ⟨rfl, rfl⟩

open Classical in
theorem not_readsBack_bool :
    ¬ ReadsBack "core::result::result" .bool (.mk false (some .unit) [] []) := by
  rintro ⟨hlogical, -⟩
  rw [logicalEffectResultSource_abi, if_neg (by simp)] at hlogical
  cases hlogical

end Salicin.Codegen.Fallible
