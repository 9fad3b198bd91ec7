import Salicin.Codegen.TypeEncoding

/-!
# Assignable types

A value may stand where another type is expected when it has that very type, or when both types
are function types and the value can be called wherever the expected function can. Assignability
is a preorder, and a function type is assignable to another exactly when it admits every call
that the other one admits.
-/

namespace Salicin.Codegen.Names

open List

instance : DecidableEq Ty := fun ty other =>
  decidable_of_iff (canonicalTypeEncoding ty = canonicalTypeEncoding other)
    canonicalTypeEncoding_injective.eq_iff

/-! ## The test -/

mutual

/-- `type_is_assignable`. -/
def typeIsAssignable (actual expected : Ty) : Bool :=
  if actual = expected then true
  else
    match actual, expected with
    | .function actual, .function expected => functionTypeIsAssignable actual expected
    | _, _ => false
termination_by (sizeOf actual + sizeOf expected, 0)

/-- `function_type_is_assignable`. -/
def functionTypeIsAssignable : FunctionTy → FunctionTy → Bool
  | ⟨groups, unsafety, failureError, customEffects, result⟩,
      ⟨groups', unsafety', failureError', customEffects', result'⟩ =>
    groupsAreAssignable groups groups' && typeIsAssignable result result' &&
      (!unsafety || unsafety') && failureErrorIsAssignable failureError failureError' &&
      customEffects.all customEffects'.contains
termination_by actual expected => (sizeOf actual + sizeOf expected, 1)

/-- As many groups on both sides, each assignable to the other. -/
def groupsAreAssignable : List (List Ty) → List (List Ty) → Bool
  | [], [] => true
  | actual :: rest, expected :: rest' =>
    parametersAreAssignable actual expected && groupsAreAssignable rest rest'
  | _, _ => false
termination_by actual expected => (sizeOf actual + sizeOf expected, 0)

/-- As many parameters on both sides. What is given to an expected parameter is handed on to the
actual one. -/
def parametersAreAssignable : List Ty → List Ty → Bool
  | [], [] => true
  | actual :: rest, expected :: rest' =>
    typeIsAssignable expected actual && parametersAreAssignable rest rest'
  | _, _ => false
termination_by actual expected => (sizeOf actual + sizeOf expected, 0)

def failureErrorIsAssignable : Option Ty → Option Ty → Bool
  | none, _ => true
  | some actual, some expected => typeIsAssignable actual expected
  | some _, none => false
termination_by actual expected => (sizeOf actual + sizeOf expected, 0)

end

/-! ## The relation -/

theorem parametersAreAssignable_iff {actual expected : List Ty} :
    parametersAreAssignable actual expected ↔
      List.Forall₂ (fun param param' => typeIsAssignable param' param)
        actual expected := by
  induction actual generalizing expected with
  | nil => cases expected <;> simp [parametersAreAssignable]
  | cons param rest ih =>
    cases expected with
    | nil => simp [parametersAreAssignable]
    | cons param' rest' => simp [parametersAreAssignable, ih]

theorem groupsAreAssignable_iff {actual expected : List (List Ty)} :
    groupsAreAssignable actual expected ↔
      List.Forall₂ (fun group group' => parametersAreAssignable group group') actual expected := by
  induction actual generalizing expected with
  | nil => cases expected <;> simp [groupsAreAssignable]
  | cons group rest ih =>
    cases expected with
    | nil => simp [groupsAreAssignable]
    | cons group' rest' => simp [groupsAreAssignable, ih]

/-- What `function_type_is_assignable` tests of the parts of two function types: parameters go
the other way, results, failures and effects the same way. -/
structure FunctionAssignable (actual expected : FunctionTy) : Prop where
  groups : List.Forall₂
    (List.Forall₂ fun parameter parameter' => typeIsAssignable parameter' parameter)
    actual.groups expected.groups
  result : typeIsAssignable actual.result expected.result
  unsafety : actual.unsafety → expected.unsafety
  failureError : ∀ failure ∈ actual.failureError, ∃ failure' ∈ expected.failureError,
    typeIsAssignable failure failure'
  customEffects : actual.customEffects ⊆ expected.customEffects

theorem failureErrorIsAssignable_iff {actual expected : Option Ty} :
    failureErrorIsAssignable actual expected ↔
      ∀ failure ∈ actual, ∃ failure' ∈ expected, typeIsAssignable failure failure' := by
  cases actual <;> cases expected <;> simp [failureErrorIsAssignable]

theorem functionTypeIsAssignable_iff {actual expected : FunctionTy} :
    functionTypeIsAssignable actual expected ↔ FunctionAssignable actual expected := by
  obtain ⟨groups, unsafety, failureError, customEffects, res⟩ := actual
  obtain ⟨groups', unsafety', failureError', customEffects', res'⟩ := expected
  have hparams : (fun group group' => parametersAreAssignable group group' = true) =
      List.Forall₂ fun param param' => typeIsAssignable param' param = true := by
    funext group group'
    exact propext parametersAreAssignable_iff
  have hunsafety : (!unsafety || unsafety') = true ↔ (unsafety = true → unsafety' = true) := by
    cases unsafety <;> simp
  have heffs : customEffects.all customEffects'.contains = true ↔
      customEffects ⊆ customEffects' := by
    simp [subset_def]
  simp only [functionTypeIsAssignable, Bool.and_eq_true, groupsAreAssignable_iff, hparams,
    hunsafety, failureErrorIsAssignable_iff, heffs]
  constructor
  · rintro ⟨⟨⟨⟨hgroups, hres⟩, hunsafety⟩, hfail⟩, heffs⟩
    exact ⟨hgroups, hres, hunsafety, hfail, heffs⟩
  · intro h
    exact ⟨⟨⟨⟨h.groups, h.result⟩, h.unsafety⟩, h.failureError⟩, h.customEffects⟩

theorem typeIsAssignable_refl (ty : Ty) : typeIsAssignable ty ty := by
  unfold typeIsAssignable
  exact if_pos rfl

theorem FunctionAssignable.refl (fn : FunctionTy) : FunctionAssignable fn fn where
  groups := forall₂_same.mpr fun _ _ =>
    forall₂_same.mpr fun param _ => typeIsAssignable_refl param
  result := typeIsAssignable_refl _
  unsafety := id
  failureError := fun failure hfail => ⟨failure, hfail, typeIsAssignable_refl failure⟩
  customEffects := fun _ => id

/-- The test for equal types that comes first says nothing new about function types. -/
theorem typeIsAssignable_function {actual expected : FunctionTy} :
    typeIsAssignable (.function actual) (.function expected) ↔
      FunctionAssignable actual expected := by
  unfold typeIsAssignable
  split
  next heq =>
    cases heq
    exact iff_of_true rfl (.refl actual)
  next => exact functionTypeIsAssignable_iff

def Ty.isFunction : Ty → Bool
  | .function _ => true
  | _ => false

theorem Ty.isFunction_iff {ty : Ty} :
    ty.isFunction = true ↔ ∃ function, ty = .function function := by
  cases ty <;> simp [Ty.isFunction]

/-- Only function types have assignable types other than themselves. -/
theorem typeIsAssignable_other {actual expected : Ty}
    (hother : actual.isFunction = false ∨ expected.isFunction = false) :
    typeIsAssignable actual expected ↔ actual = expected := by
  unfold typeIsAssignable
  split
  next heq => exact iff_of_true rfl heq
  next hne =>
    refine iff_of_false ?_ hne
    split
    next => simp [Ty.isFunction] at hother
    next => exact Bool.false_ne_true

/-! ## Transitivity -/

/-- The types that a function type is made of. -/
def FunctionTy.parts (function : FunctionTy) : List Ty :=
  function.result :: (function.failureError.toList ++ function.groups.flatten)

theorem FunctionTy.sizeOf_part {function : FunctionTy} {ty : Ty} (hpart : ty ∈ function.parts) :
    sizeOf ty < sizeOf function := by
  obtain ⟨groups, unsafety, failureError, customEffects, res⟩ := function
  simp only [FunctionTy.parts, mem_cons, mem_append, Option.mem_toList, mem_flatten] at hpart
  simp only [FunctionTy.mk.sizeOf_spec]
  rcases hpart with rfl | rfl | ⟨group, hgroup, hty⟩
  · omega
  · simp only [Option.some.sizeOf_spec]
    omega
  · have hgroup := sizeOf_lt_of_mem hgroup
    have hty := sizeOf_lt_of_mem hty
    omega

/-- Two relations along lists compose when they do at the elements of the list between. -/
theorem forall₂_trans_of_mem {α β γ : Type*} {R : α → β → Prop} {S : β → γ → Prop}
    {T : α → γ → Prop} {first : List α} {second : List β} {third : List γ}
    (hfst : List.Forall₂ R first second) (hsnd : List.Forall₂ S second third)
    (htrans : ∀ middle ∈ second, ∀ {left right}, R left middle → S middle right → T left right) :
    List.Forall₂ T first third := by
  induction hfst generalizing third with
  | nil =>
    cases hsnd
    exact .nil
  | cons hhead _ ih =>
    cases hsnd with
    | cons hhead' htail' =>
      refine .cons (htrans _ mem_cons_self hhead hhead') (ih htail' ?_)
      exact fun middle hmid => htrans middle (mem_cons_of_mem _ hmid)

/-- The types of the function type between are the only ones that transitivity is needed at. -/
theorem FunctionAssignable.trans_of_parts {first second third : FunctionTy}
    (hfst : FunctionAssignable first second) (hsnd : FunctionAssignable second third)
    (htrans : ∀ part ∈ second.parts, ∀ {left right}, typeIsAssignable left part →
      typeIsAssignable part right → typeIsAssignable left right) :
    FunctionAssignable first third where
  groups := by
    refine forall₂_trans_of_mem hfst.groups hsnd.groups fun group hgroup _ _ hleft hright => ?_
    refine forall₂_trans_of_mem hleft hright fun param hparam _ _ hleft hright => ?_
    refine htrans param ?_ hright hleft
    exact mem_cons_of_mem _
      (mem_append_right _ (mem_flatten.mpr ⟨group, hgroup, hparam⟩))
  result := htrans _ mem_cons_self hfst.result hsnd.result
  unsafety := hsnd.unsafety ∘ hfst.unsafety
  failureError := by
    intro failure hfail
    obtain ⟨middle, hmid, hassign⟩ := hfst.failureError failure hfail
    obtain ⟨last, hlast, hassign'⟩ := hsnd.failureError middle hmid
    refine ⟨last, hlast, htrans middle ?_ hassign hassign'⟩
    exact mem_cons_of_mem _ (mem_append_left _ (Option.mem_toList.mpr hmid))
  customEffects := List.Subset.trans hfst.customEffects hsnd.customEffects

/-- By induction on the type between: what is assignable to a function type, or to what it is
assignable, is a function type or the same type. -/
theorem typeIsAssignable_trans {first second third : Ty} (hfst : typeIsAssignable first second)
    (hsnd : typeIsAssignable second third) : typeIsAssignable first third := by
  induction hsize : sizeOf second using Nat.strong_induction_on generalizing first second third with
  | _ size ih =>
    subst hsize
    by_cases hmid : second.isFunction = true
    swap
    · obtain rfl := (typeIsAssignable_other (.inr (by simpa using hmid))).mp hfst
      exact hsnd
    by_cases hleft : first.isFunction = true
    swap
    · obtain rfl := (typeIsAssignable_other (.inl (by simpa using hleft))).mp hfst
      exact hsnd
    by_cases hright : third.isFunction = true
    swap
    · obtain rfl := (typeIsAssignable_other (.inr (by simpa using hright))).mp hsnd
      exact hfst
    obtain ⟨left, rfl⟩ := Ty.isFunction_iff.mp hleft
    obtain ⟨middle, rfl⟩ := Ty.isFunction_iff.mp hmid
    obtain ⟨right, rfl⟩ := Ty.isFunction_iff.mp hright
    rw [typeIsAssignable_function] at hfst hsnd ⊢
    refine hfst.trans_of_parts hsnd fun part hpart _ _ hbefore hafter => ?_
    have hsize : sizeOf part < sizeOf (Ty.function middle) := by
      rw [Ty.function.sizeOf_spec]
      have := FunctionTy.sizeOf_part hpart
      omega
    exact ih _ hsize hbefore hafter rfl

theorem FunctionAssignable.trans {first second third : FunctionTy}
    (hfst : FunctionAssignable first second) (hsnd : FunctionAssignable second third) :
    FunctionAssignable first third :=
  hfst.trans_of_parts hsnd fun _ _ _ _ => typeIsAssignable_trans

/-! ## Calls -/

/-- A call of a function where it stands: the types of its arguments, group by group, the type
that its result is taken for, and the effects that are handled there. -/
structure Call where
  arguments : List (List Ty)
  result : Ty
  unsafety : Bool
  failureError : Option Ty
  customEffects : List String

/-- A function type admits a call when every argument may be given to its parameter, the result
may be taken for what it is taken for, and every effect is one that is handled. -/
structure Admits (function : FunctionTy) (call : Call) : Prop where
  arguments : List.Forall₂ (List.Forall₂ fun argument parameter =>
    typeIsAssignable argument parameter) call.arguments function.groups
  result : typeIsAssignable function.result call.result
  unsafety : function.unsafety → call.unsafety
  failureError : ∀ failure ∈ function.failureError, ∃ handled ∈ call.failureError,
    typeIsAssignable failure handled
  customEffects : function.customEffects ⊆ call.customEffects

/-- The function type that admits the call and says no more. -/
def Call.type (call : Call) : FunctionTy where
  groups := call.arguments
  unsafety := call.unsafety
  failureError := call.failureError
  customEffects := call.customEffects
  result := call.result

theorem admits_iff {fn : FunctionTy} {call : Call} :
    Admits fn call ↔ FunctionAssignable fn call.type := by
  constructor
  · rintro ⟨hargs, hres, hunsafety, hfail, heffs⟩
    refine ⟨?_, hres, hunsafety, hfail, heffs⟩
    exact hargs.flip.imp fun _ _ hgroup => hgroup.flip
  · rintro ⟨hgroups, hres, hunsafety, hfail, heffs⟩
    refine ⟨?_, hres, hunsafety, hfail, heffs⟩
    exact hgroups.flip.imp fun _ _ hgroup => hgroup.flip

/-- A function type is assignable to another exactly when it admits the calls of the other. -/
theorem functionAssignable_iff_admits {actual expected : FunctionTy} :
    FunctionAssignable actual expected ↔ ∀ call, Admits expected call → Admits actual call := by
  constructor
  · intro hassign call hcall
    exact admits_iff.mpr (hassign.trans (admits_iff.mp hcall))
  · obtain ⟨groups, unsafety, failureError, customEffects, res⟩ := expected
    intro hadmits
    -- The call that needs all that the expected type promises.
    let call : Call := ⟨groups, res, unsafety, failureError, customEffects⟩
    have hcall : Admits _ call := admits_iff.mpr (.refl _)
    exact admits_iff.mp (hadmits call hcall)

/-- Assignability is a preorder that is contravariant in parameters and covariant in results and
effects. It says that a function type admits every call of another, and relates no other types, a
callable of whatever kind included. -/
theorem assignable_variance :
    (∀ ty, typeIsAssignable ty ty) ∧
    (∀ first second third, typeIsAssignable first second → typeIsAssignable second third →
      typeIsAssignable first third) ∧
    (∀ actual expected, typeIsAssignable (.function actual) (.function expected) ↔
      FunctionAssignable actual expected) ∧
    (∀ actual expected : Ty, actual.isFunction = false ∨ expected.isFunction = false →
      (typeIsAssignable actual expected ↔ actual = expected)) ∧
    ∀ actual expected, typeIsAssignable (.function actual) (.function expected) ↔
      ∀ call, Admits expected call → Admits actual call :=
  ⟨typeIsAssignable_refl, fun _ _ _ => typeIsAssignable_trans,
    fun _ _ => typeIsAssignable_function, fun _ _ => typeIsAssignable_other,
    fun _ _ => typeIsAssignable_function.trans functionAssignable_iff_admits⟩

/-- The type of a function without parameters. -/
def thunk (unsafety : Bool) : FunctionTy := ⟨[[]], unsafety, none, [], .unit⟩

/-- The type of a function that takes a thunk. -/
def runner (unsafety : Bool) : FunctionTy :=
  ⟨[[.function (thunk unsafety)]], false, none, [], .unit⟩

/-- The type of a closure that may be called once, or over and over. -/
def closure (isFnOnce : Bool) : Ty := .callable ⟨thunk false, [], .closure "closure" false isFnOnce⟩

/-- A closure of one kind is not assignable to the same closure of another, whichever kind is the
wider one, and a function that takes more than the declared one admits calls that the declared one
does not. -/
theorem closure_not_assignable :
    ¬ typeIsAssignable (closure false) (closure true) ∧
    ¬ typeIsAssignable (closure true) (closure false) ∧
    typeIsAssignable (.function (runner true)) (.function (runner false)) ∧
    Admits (runner true) ⟨[[.function (thunk true)]], .unit, false, none, []⟩ ∧
    ¬ Admits (runner false) ⟨[[.function (thunk true)]], .unit, false, none, []⟩ := by
  refine ⟨?_, ?_, ?_, ⟨?_, ?_, ?_, ?_, ?_⟩, ?_⟩
  · simp [closure, typeIsAssignable]
  · simp [closure, typeIsAssignable]
  · simp [runner, thunk, typeIsAssignable, functionTypeIsAssignable, groupsAreAssignable,
      parametersAreAssignable, failureErrorIsAssignable]
  · simp [runner, typeIsAssignable_refl]
  · simp [runner, typeIsAssignable_refl]
  · simp [runner]
  · simp [runner]
  · simp [runner]
  · rintro ⟨hargs, -⟩
    simp [runner, thunk, typeIsAssignable, functionTypeIsAssignable] at hargs

end Salicin.Codegen.Names
