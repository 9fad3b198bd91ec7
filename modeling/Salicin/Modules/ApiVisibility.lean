import Salicin.Modules.Symbols
import Mathlib.Data.List.Destutter

/-!
# The check on what signatures expose

A resolved program is checked for signatures that name a declaration with a narrower audience.
The walk goes over the items and their members, with the compile-time parameters in scope, and
over the types that they name.
-/

namespace Salicin.Modules

open Salicin.Source

structure ApiBoundary where
  visibility : Visibility
  origin : ItemOrigin

/-- An element of the parallel lists `items`, `item_visibilities`, `item_origins` and
`item_source_paths`. -/
structure ApiItem where
  declared : DeclaredItem
  sourcePath : String

def ApiItem.boundary (entry : ApiItem) : ApiBoundary :=
  ⟨entry.declared.visibility, entry.declared.origin⟩

def nominalName : Item → Option String
  | .struct definition => some definition.name
  | .enum definition => some definition.name
  | .trait definition => some definition.name
  | .effect definition => some definition.name
  | .sort definition => some definition.name
  | .typeForm definition => some definition.name
  | .function _ | .global _ | .typeAlias _ | .extend _ => none

/-- `nominal_boundaries`; the last declaration of a name counts. -/
def nominalBoundaries (program : List ApiItem) (name : String) : Option ApiBoundary :=
  (program.reverse.find? fun entry => nominalName entry.declared.item = some name).map
    ApiItem.boundary

def compileParameterNames (groups : List (List CompileParam)) (outer : List String) : List String :=
  outer ++ (groups.flatten.filter fun parameter =>
    match parameter.kind with
    | .type | .typeConstructor _ | .effectConstructor _ | .parameterModifier => true
    | _ => false).map (·.name)

def isBoundApiType (name : String) (bound : List String) : Bool :=
  bound.any fun parameter =>
    name = parameter ∨ (parameter.toList ++ ['.']).isPrefixOf name.toList

def effectiveApiBoundary (owner : ApiBoundary) (memberVisibility : Visibility) : ApiBoundary where
  visibility :=
    if visibilityRank owner.visibility ≤ visibilityRank memberVisibility then owner.visibility
    else memberVisibility
  origin := owner.origin

def apiAudienceIsContained (exposed referenced : ApiBoundary) : Bool :=
  match referenced.visibility with
  | .pub => true
  | .package =>
    exposed.visibility ≠ .pub ∧ exposed.origin.package = referenced.origin.package
  | .priv =>
    (exposed.visibility = .priv ∧ exposed.origin.package = referenced.origin.package ∧
      referenced.origin.modulePath.isPrefixOf exposed.origin.modulePath) ∨
    (exposed.visibility = .package ∧ exposed.origin.package = referenced.origin.package ∧
      referenced.origin.modulePath.isEmpty)

def boundaryLocation (boundary : ApiBoundary) : String :=
  match boundary.visibility with
  | .pub => ""
  | .package => s!" in package #{boundary.origin.package}"
  | .priv =>
    s!" in module `{displayModule boundary.origin.modulePath}` of package #{boundary.origin.package}"

/-- What the walk over a type is given. -/
structure ApiCheck where
  nominal : String → Option ApiBoundary
  exposed : ApiBoundary
  sourcePath : String
  bound : List String
  description : String

namespace ApiCheck

variable (check : ApiCheck)

def exposes (what name : String) : List String :=
  match check.nominal name with
  | none => []
  | some referenced =>
    if apiAudienceIsContained check.exposed referenced then []
    else
      [s!"{check.sourcePath}: error: {check.description} with {visibilityDescription check.exposed.visibility} visibility exposes {visibilityDescription referenced.visibility} {what} `{name}` beyond its access boundary{boundaryLocation referenced}"]

def exposesType (name : String) : List String :=
  if isBoundApiType name check.bound then [] else check.exposes "type" name

mutual

def validateExposedType : SourceType → List String
  | .tuple fields => validateExposedTypes fields
  | .borrow _ _ _ pointee => validateExposedType pointee
  | .array element _ => validateExposedType element
  | .arrayApplication constructor element _ =>
    check.exposesType constructor ++ validateExposedType element
  | .function groups effects result =>
    validateExposedGroups groups ++ validateExposedType result ++ validateExposedEffects effects
  | .named name arguments => check.exposesType name ++ validateExposedTypes arguments
  | .namedArgs name arguments => check.exposesType name ++ validateExposedArguments arguments
  | .integer _ | .bool | .unit | .compileUSize _ => []

def validateExposedTypes : List SourceType → List String
  | [] => []
  | ty :: rest => validateExposedType ty ++ validateExposedTypes rest

def validateExposedGroups : List (List SourceType) → List String
  | [] => []
  | group :: rest => validateExposedTypes group ++ validateExposedGroups rest

def validateExposedArguments : List TypeArg → List String
  | [] => []
  | .mk _ ty :: rest => validateExposedType ty ++ validateExposedArguments rest

/-- The loop over `effects.custom`. -/
def validateExposedEffects : FunctionEffects → List String
  | .mk _ _ custom _ => validateCustomEffects custom

def validateCustomEffects : List SourceType → List String
  | [] => []
  | effect :: rest => validateExposedEffect effect ++ validateCustomEffects rest

def validateExposedEffect : SourceType → List String
  | .named name arguments => check.exposes "effect" name ++ validateExposedTypes arguments
  | .namedArgs name arguments => check.exposes "effect" name ++ validateExposedArguments arguments
  | _ => []

end

def describe (description : String) : ApiCheck := { check with description := description }

/-- The compile-time parameters of some groups come into scope. -/
def bind (groups : List (List CompileParam)) : ApiCheck :=
  { check with bound := compileParameterNames groups check.bound }

def validatePredicate (check : ApiCheck) (number : Nat) (predicate : WherePredicate) :
    List String :=
  (check.describe s!"{check.description} where predicate {number} subject").validateExposedType
    predicate.subject ++
  (check.describe s!"{check.description} where predicate {number} trait").validateExposedType
    predicate.traitRef ++
  predicate.associatedTypes.flatMap fun binding =>
    ((check.bind binding.compileGroups).describe
      s!"{check.description} where predicate {number} associated type `{binding.name}`").validateExposedType
      binding.ty

def validatePredicates (predicates : List WherePredicate) : List String :=
  (predicates.zipIdx 1).flatMap fun (predicate, number) => check.validatePredicate number predicate

/-- `validate_function_api`; the description is that of the check. -/
def validateFunctionApi (function : Function) : List String :=
  let check := check.bind function.compileGroups
  (function.groups.flatten.flatMap fun parameter =>
    (check.describe s!"{check.description} parameter `{parameter.name}`").validateExposedType
      parameter.ty) ++
  (function.returnType.toList.flatMap fun returnType =>
    (check.describe s!"{check.description} return type").validateExposedType returnType) ++
  check.validateExposedEffects function.effects ++
  check.validatePredicates function.wherePredicates

/-- A type of an item or of a member with its own boundary. -/
def validateAt (exposed : ApiBoundary) (description : String) (ty : SourceType) : List String :=
  { check with exposed := exposed, description := description : ApiCheck }.validateExposedType ty

def validateField (owner : String) (field : Field) : List String :=
  check.validateAt (effectiveApiBoundary check.exposed field.visibility)
    s!"{owner}.{field.name}`" field.ty

def validateVariant (owner : String) (variant : VariantDef) : List String :=
  match variant.fields with
  | .unit => []
  | .positional types =>
    types.zipIdx.flatMap fun (ty, index) =>
      check.validateAt check.exposed s!"enum variant `{owner}.{variant.name}` payload {index}" ty
  | .named fields =>
    fields.flatMap (check.validateField s!"enum variant field `{owner}.{variant.name}")

def validateTraitMember (owner : String) : TraitMember → List String
  | .function function =>
    (check.describe s!"trait method `{owner}.{function.name}`").validateFunctionApi function
  | .associatedType name groups (some default) =>
    (check.bind groups).validateAt check.exposed s!"associated type `{owner}.{name}` default"
      default
  | .associatedType _ _ none => []

def validateExtendMember : ExtendMember → List String
  | .function function =>
    (check.describe s!"extension method `{function.name}`").validateFunctionApi function
  | .const binding =>
    binding.annotation.toList.flatMap
      (check.validateAt check.exposed s!"extension constant `{binding.name}`")

end ApiCheck

/-- The boundary of the target, if that is a nominal type. -/
def extensionBoundary (nominal : String → Option ApiBoundary) (boundary : ApiBoundary)
    (extension : ExtendDef) : ApiBoundary :=
  match extension.target with
  | .named name _ => (nominal name).getD boundary
  | _ => boundary

def associatedTypeNames (members : List TraitMember) : List String :=
  members.filterMap fun member =>
    match member with
    | .associatedType name _ _ => some name
    | .function _ => none

def validateItemApi (nominal : String → Option ApiBoundary) (entry : ApiItem) : List String :=
  let check : ApiCheck := ⟨nominal, entry.boundary, entry.sourcePath, [], ""⟩
  match entry.declared.item with
  | .function function =>
    (check.describe s!"function `{function.name}`").validateFunctionApi function
  | .global binding =>
    binding.annotation.toList.flatMap
      (check.validateAt entry.boundary s!"global `{binding.name}` type")
  | .typeAlias definition =>
    (check.bind definition.compileGroups).validateAt entry.boundary
      s!"type alias `{definition.name}` target" definition.target
  | .effect definition =>
    definition.operations.flatMap fun operation =>
      ((check.bind definition.compileGroups).describe
        s!"effect operation `{definition.name}.{operation.name}`").validateFunctionApi operation
  | .sort _ | .typeForm _ => []
  | .struct definition =>
    definition.fields.flatMap
      ((check.bind definition.compileGroups).validateField s!"field `{definition.name}")
  | .enum definition =>
    definition.variants.flatMap
      ((check.bind definition.compileGroups).validateVariant definition.name)
  | .trait definition =>
    let bound := compileParameterNames definition.compileGroups [] ++ ["self"] ++
      associatedTypeNames definition.members
    definition.members.flatMap
      ({ check with bound := bound : ApiCheck }.validateTraitMember definition.name)
  | .extend extension =>
    let check : ApiCheck :=
      { check with
        exposed := extensionBoundary nominal entry.boundary extension
        bound := compileParameterNames extension.compileGroups [] ++ ["self"]
        description := "extension" }
    check.validatePredicates extension.wherePredicates ++
      extension.members.flatMap check.validateExtendMember

/-- `validate_api_visibility`. -/
def validateApiVisibility (program : List ApiItem) : List String :=
  ((program.flatMap (validateItemApi (nominalBoundaries program))).mergeSort
    fun first second => first ≤ second).destutter (· ≠ ·)

end Salicin.Modules
