import Salicin.Modules.ApiVisibility

/-!
# What signatures expose

The names that a signature mentions, at every place of the language, with the boundary of the
item or member that mentions them. The walk of the check goes to most of these places. A program
that it accepts exposes no narrower declaration exactly when the places it leaves out do not.
-/

namespace Salicin.Modules

open List Salicin.Source

namespace ApiBoundary

/-- The modules, each with its package, that may use what has the boundary. -/
def audience (boundary : ApiBoundary) : Set (Nat × List String) :=
  {user | match boundary.visibility with
    | .pub => True
    | .package => user.1 = boundary.origin.package
    | .priv => user.1 = boundary.origin.package ∧ boundary.origin.modulePath <+: user.2}

variable {boundary : ApiBoundary} {user : Nat × List String}

theorem mem_audience_pub (hvis : boundary.visibility = .pub) : user ∈ boundary.audience := by
  simp [audience, hvis]

theorem mem_audience_package (hvis : boundary.visibility = .package) :
    user ∈ boundary.audience ↔ user.1 = boundary.origin.package := by
  simp [audience, hvis]

theorem mem_audience_priv (hvis : boundary.visibility = .priv) :
    user ∈ boundary.audience ↔
      user.1 = boundary.origin.package ∧ boundary.origin.modulePath <+: user.2 := by
  simp [audience, hvis]

end ApiBoundary

theorem apiAudienceIsContained_iff {exposed referenced : ApiBoundary} :
    apiAudienceIsContained exposed referenced ↔ exposed.audience ⊆ referenced.audience := by
  unfold apiAudienceIsContained
  cases href : referenced.visibility with
  | pub => exact iff_of_true rfl fun user _ => ApiBoundary.mem_audience_pub href
  | package =>
    cases hexposed : exposed.visibility with
    | pub =>
      simp only [ne_eq, not_true_eq_false, false_and, decide_false, Bool.false_eq_true, false_iff]
      intro hsub
      have hother : (referenced.origin.package + 1, []) ∈ exposed.audience :=
        ApiBoundary.mem_audience_pub hexposed
      have huser := hsub hother
      rw [ApiBoundary.mem_audience_package href] at huser
      simp at huser
    | package =>
      simp only [ne_eq, reduceCtorEq, not_false_eq_true, true_and, decide_eq_true_eq]
      constructor
      · intro hpkg user huser
        rw [ApiBoundary.mem_audience_package hexposed] at huser
        rw [ApiBoundary.mem_audience_package href, huser, hpkg]
      · intro hsub
        have huser : (exposed.origin.package, []) ∈ exposed.audience :=
          (ApiBoundary.mem_audience_package hexposed).mpr rfl
        exact (ApiBoundary.mem_audience_package href).mp (hsub huser)
    | priv =>
      simp only [ne_eq, reduceCtorEq, not_false_eq_true, true_and, decide_eq_true_eq]
      constructor
      · intro hpkg user huser
        rw [ApiBoundary.mem_audience_priv hexposed] at huser
        rw [ApiBoundary.mem_audience_package href, huser.1, hpkg]
      · intro hsub
        have huser : (exposed.origin.package, exposed.origin.modulePath) ∈ exposed.audience :=
          (ApiBoundary.mem_audience_priv hexposed).mpr ⟨rfl, prefix_refl _⟩
        exact (ApiBoundary.mem_audience_package href).mp (hsub huser)
  | priv =>
    cases hexposed : exposed.visibility with
    | pub =>
      simp only [reduceCtorEq, false_and, or_self, decide_false, Bool.false_eq_true, false_iff]
      intro hsub
      have hother : (referenced.origin.package + 1, []) ∈ exposed.audience :=
        ApiBoundary.mem_audience_pub hexposed
      have huser := hsub hother
      rw [ApiBoundary.mem_audience_priv href] at huser
      simp at huser
    | package =>
      simp only [reduceCtorEq, false_and, true_and, false_or, decide_eq_true_eq, List.isEmpty_iff]
      constructor
      · rintro ⟨hpkg, hroot⟩ user huser
        rw [ApiBoundary.mem_audience_package hexposed] at huser
        rw [ApiBoundary.mem_audience_priv href, huser, hpkg, hroot]
        exact ⟨rfl, List.nil_prefix⟩
      · intro hsub
        have huser : (exposed.origin.package, []) ∈ exposed.audience :=
          (ApiBoundary.mem_audience_package hexposed).mpr rfl
        obtain ⟨hpkg, hroot⟩ := (ApiBoundary.mem_audience_priv href).mp (hsub huser)
        exact ⟨hpkg, List.prefix_nil.mp hroot⟩
    | priv =>
      simp only [reduceCtorEq, false_and, true_and, or_false, decide_eq_true_eq,
        isPrefixOf_iff_prefix]
      constructor
      · rintro ⟨hpkg, hmod⟩ user huser
        rw [ApiBoundary.mem_audience_priv hexposed] at huser
        rw [ApiBoundary.mem_audience_priv href]
        exact ⟨huser.1.trans hpkg, hmod.trans huser.2⟩
      · intro hsub
        have huser : (exposed.origin.package, exposed.origin.modulePath) ∈ exposed.audience :=
          (ApiBoundary.mem_audience_priv hexposed).mpr ⟨rfl, prefix_refl _⟩
        exact (ApiBoundary.mem_audience_priv href).mp (hsub huser)

/-! ## The names in a type -/

/-- The arguments of an effect that is written with a name. -/
def effectArguments : SourceType → Option (List SourceType)
  | .named _ arguments => some arguments
  | .namedArgs _ arguments => some (arguments.map TypeArg.ty)
  | _ => none

/-- The names that a type mentions itself, those of its effects included. -/
inductive Head : SourceType → String → Prop
  | named {name arguments} : Head (.named name arguments) name
  | namedArgs {name arguments} : Head (.namedArgs name arguments) name
  | constructor {name element length} : Head (.arrayApplication name element length) name
  | effect {groups effects result effect arguments name} : effect ∈ effects.custom →
      effectArguments effect = some arguments → Head effect name →
      Head (.function groups effects result) name

/-- The parts of a type that the check goes into. -/
inductive Part : SourceType → SourceType → Prop
  | field {fields ty} : ty ∈ fields → Part (.tuple fields) ty
  | pointee {mutable access region pointee} : Part (.borrow mutable access region pointee) pointee
  | element {element length} : Part (.array element length) element
  | applied {constructor element length} :
      Part (.arrayApplication constructor element length) element
  | parameter {groups effects result group ty} : group ∈ groups → ty ∈ group →
      Part (.function groups effects result) ty
  | result {groups effects result} : Part (.function groups effects result) result
  | effectArgument {groups effects result effect arguments ty} : effect ∈ effects.custom →
      effectArguments effect = some arguments → ty ∈ arguments →
      Part (.function groups effects result) ty
  | argument {name arguments ty} : ty ∈ arguments → Part (.named name arguments) ty
  | namedArgument {name arguments argument} : argument ∈ arguments →
      Part (.namedArgs name arguments) argument.ty

/-- The parts of a type that the check leaves out: failure types, and effects that are not
written with a name. -/
inductive LeftOutPart : SourceType → SourceType → Prop
  | failure {groups effects result ty} : effects.failure = some ty →
      LeftOutPart (.function groups effects result) ty
  | effect {groups effects result effect} : effect ∈ effects.custom →
      effectArguments effect = none → LeftOutPart (.function groups effects result) effect

/-- The type names the declaration, at any depth. -/
inductive Mentions : SourceType → String → Prop
  | head {ty name} : Head ty name → Mentions ty name
  | part {ty inner name} : Part ty inner → Mentions inner name → Mentions ty name
  | leftOut {ty inner name} : LeftOutPart ty inner → Mentions inner name → Mentions ty name

/-- The type names the declaration where the check does not look. -/
inductive MentionsLeftOut : SourceType → String → Prop
  | part {ty inner name} : Part ty inner → MentionsLeftOut inner name → MentionsLeftOut ty name
  | leftOut {ty inner name} : LeftOutPart ty inner → Mentions inner name → MentionsLeftOut ty name

theorem MentionsLeftOut.mentions {ty : SourceType} {name : String}
    (hmentions : MentionsLeftOut ty name) : Mentions ty name := by
  induction hmentions with
  | part hpart _ ih => exact .part hpart ih
  | leftOut hpart hinner => exact .leftOut hpart hinner

namespace ApiCheck

variable {check : ApiCheck}

/-- The name is that of a compile-time parameter, or its declaration has an audience that
contains the one of the signature. -/
def Contains (check : ApiCheck) (name : String) : Prop :=
  isBoundApiType name check.bound ∨ ∀ referenced, check.nominal name = some referenced →
    check.exposed.audience ⊆ referenced.audience

theorem contains_of_exposes {what name : String} (hexposes : check.exposes what name = []) :
    check.Contains name := by
  refine .inr ?_
  intro referenced href
  unfold exposes at hexposes
  rw [href] at hexposes
  by_contra hnot
  simp [apiAudienceIsContained_iff, hnot] at hexposes

theorem contains_of_exposesType {name : String} (hexposes : check.exposesType name = []) :
    check.Contains name := by
  unfold exposesType at hexposes
  split at hexposes
  next hbound => exact .inl hbound
  next => exact contains_of_exposes hexposes

theorem validateExposedTypes_eq_nil {types : List SourceType} :
    check.validateExposedTypes types = [] ↔ ∀ ty ∈ types, check.validateExposedType ty = [] := by
  induction types with
  | nil => simp [validateExposedTypes]
  | cons ty rest ih => simp [validateExposedTypes, ih]

theorem validateExposedGroups_eq_nil {groups : List (List SourceType)} :
    check.validateExposedGroups groups = [] ↔
      ∀ group ∈ groups, ∀ ty ∈ group, check.validateExposedType ty = [] := by
  induction groups with
  | nil => simp [validateExposedGroups]
  | cons group rest ih => simp [validateExposedGroups, validateExposedTypes_eq_nil, ih]

theorem validateExposedArguments_eq_nil {arguments : List TypeArg} :
    check.validateExposedArguments arguments = [] ↔
      ∀ arg ∈ arguments, check.validateExposedType arg.ty = [] := by
  induction arguments with
  | nil => simp [validateExposedArguments]
  | cons arg rest ih =>
    cases arg with
    | mk label ty => simp [validateExposedArguments, TypeArg.ty, ih]

theorem validateCustomEffects_eq_nil {custom : List SourceType} :
    check.validateCustomEffects custom = [] ↔
      ∀ effect ∈ custom, check.validateExposedEffect effect = [] := by
  induction custom with
  | nil => simp [validateCustomEffects]
  | cons effect rest ih => simp [validateCustomEffects, ih]

theorem validateExposedEffects_eq_nil {effects : FunctionEffects} :
    check.validateExposedEffects effects = [] ↔
      ∀ effect ∈ effects.custom, check.validateExposedEffect effect = [] := by
  cases effects with
  | mk unsafety failure custom params =>
    rw [validateExposedEffects, validateCustomEffects_eq_nil, FunctionEffects.custom]

/-- An effect that is written with a name is checked with its arguments. -/
theorem validateExposedEffect_clean {effect : SourceType} {arguments : List SourceType}
    (hclean : check.validateExposedEffect effect = [])
    (hargs : effectArguments effect = some arguments) :
    (∀ name, Head effect name → check.Contains name) ∧
      ∀ ty ∈ arguments, check.validateExposedType ty = [] := by
  cases effect with
  | named name inner =>
    obtain rfl : inner = arguments := by simpa [effectArguments] using hargs
    simp only [validateExposedEffect, append_eq_nil_iff] at hclean
    refine ⟨?_, validateExposedTypes_eq_nil.mp hclean.2⟩
    intro other hhead
    cases hhead
    exact contains_of_exposes hclean.1
  | namedArgs name inner =>
    obtain rfl : inner.map TypeArg.ty = arguments := by simpa [effectArguments] using hargs
    simp only [validateExposedEffect, append_eq_nil_iff] at hclean
    refine ⟨?_, ?_⟩
    · intro other hhead
      cases hhead
      exact contains_of_exposes hclean.1
    · intro ty hty
      obtain ⟨arg, harg, rfl⟩ := mem_map.mp hty
      exact validateExposedArguments_eq_nil.mp hclean.2 arg harg
  | _ => simp [effectArguments] at hargs

/-- A type without a diagnostic is checked at its own names and in the parts of the walk. -/
theorem validateExposedType_clean {ty : SourceType} (hclean : check.validateExposedType ty = []) :
    (∀ name, Head ty name → check.Contains name) ∧
      ∀ inner, Part ty inner → check.validateExposedType inner = [] := by
  constructor
  · intro name hhead
    cases hhead with
    | named =>
      simp only [validateExposedType, append_eq_nil_iff] at hclean
      exact contains_of_exposesType hclean.1
    | namedArgs =>
      simp only [validateExposedType, append_eq_nil_iff] at hclean
      exact contains_of_exposesType hclean.1
    | constructor =>
      simp only [validateExposedType, append_eq_nil_iff] at hclean
      exact contains_of_exposesType hclean.1
    | effect hmem hargs hinner =>
      simp only [validateExposedType, append_eq_nil_iff] at hclean
      exact (validateExposedEffect_clean (validateExposedEffects_eq_nil.mp hclean.2 _ hmem)
        hargs).1 name hinner
  · intro inner hpart
    cases hpart with
    | field hmem =>
      rw [validateExposedType] at hclean
      exact validateExposedTypes_eq_nil.mp hclean inner hmem
    | pointee => rwa [validateExposedType] at hclean
    | element => rwa [validateExposedType] at hclean
    | applied =>
      simp only [validateExposedType, append_eq_nil_iff] at hclean
      exact hclean.2
    | parameter hgroup hmem =>
      simp only [validateExposedType, append_eq_nil_iff] at hclean
      exact validateExposedGroups_eq_nil.mp hclean.1.1 _ hgroup inner hmem
    | result =>
      simp only [validateExposedType, append_eq_nil_iff] at hclean
      exact hclean.1.2
    | effectArgument hmem hargs hinner =>
      simp only [validateExposedType, append_eq_nil_iff] at hclean
      exact (validateExposedEffect_clean (validateExposedEffects_eq_nil.mp hclean.2 _ hmem)
        hargs).2 inner hinner
    | argument hmem =>
      simp only [validateExposedType, append_eq_nil_iff] at hclean
      exact validateExposedTypes_eq_nil.mp hclean.2 inner hmem
    | namedArgument hmem =>
      simp only [validateExposedType, append_eq_nil_iff] at hclean
      exact validateExposedArguments_eq_nil.mp hclean.2 _ hmem

/-- Whatever a type without a diagnostic mentions is contained, or it is left out. -/
theorem contains_or_leftOut {ty : SourceType} {name : String} (hmentions : Mentions ty name)
    (hclean : check.validateExposedType ty = []) :
    check.Contains name ∨ MentionsLeftOut ty name := by
  induction hmentions with
  | head hhead => exact .inl ((validateExposedType_clean hclean).1 _ hhead)
  | part hpart _ ih =>
    rcases ih ((validateExposedType_clean hclean).2 _ hpart) with hcont | hleft
    · exact .inl hcont
    · exact .inr (.part hpart hleft)
  | leftOut hpart hinner _ => exact .inr (.leftOut hpart hinner)

end ApiCheck

end Salicin.Modules
