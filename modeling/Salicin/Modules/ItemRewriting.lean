import Salicin.Modules.Rewriting
import Salicin.Modules.ApiVisibility

/-!
# Replacing the names in items

The scopes of an item start from its compile-time parameters. Only those of type-like sorts are
types; a function puts all of its parameters into the scope of its values.
-/

namespace Salicin.Modules

open Salicin.Source

/-- The names of the associated types that an implementation gives. -/
def associatedConstNames (members : List ExtendMember) : List String :=
  members.filterMap fun member =>
    match member with
    | .const binding => some binding.name
    | .function _ => none

/-- What `member_type_scope` has besides the parameters of the header. -/
def memberNames (extension : ExtendDef) : List String :=
  "self" :: if extension.traitRef.isSome then associatedConstNames extension.members else []

/-- `value_scope` at the body of a function. -/
def functionValues (function : Function) (types : List String) : List String :=
  types ++ function.compileGroups.flatten.map (·.name) ++ function.groups.flatten.map (·.name)

namespace NameResolver

variable (resolver : NameResolver) (ctx : ResolveContext)

/-- The loop bodies of the loops over lists, in order. -/
def rewriteEach {Element : Type} (rewrite : Element → Rewriting Element) :
    List Element → Rewriting (List Element)
  | [] => return []
  | element :: rest => do
    let element ← rewrite element
    return element :: (← rewriteEach rewrite rest)

def rewriteSort (outerTypes : List String) : CompileSort → Rewriting CompileSort
  | .named name =>
    if name ∈ builtinSorts then return .named name
    else return .named (← resolver.rewriteTypeName ctx outerTypes name)
  | kind => return kind

def rewriteCompileParameterTypes (outerTypes : List String) :
    List (List CompileParam) → Rewriting (List (List CompileParam)) :=
  rewriteEach (rewriteEach fun parameter => do
    let kind ← resolver.rewriteSort ctx outerTypes parameter.kind
    return { parameter with kind := kind })

def rewriteAssociatedBinding (outerTypes : List String) (binding : AssociatedTypeBinding) :
    Rewriting AssociatedTypeBinding := do
  let compileGroups ← resolver.rewriteCompileParameterTypes ctx outerTypes binding.compileGroups
  let types := compileParameterNames binding.compileGroups outerTypes
  let ty ← resolver.rewriteType ctx types binding.ty
  return { binding with compileGroups := compileGroups, ty := ty }

def rewritePredicate (types : List String) (predicate : WherePredicate) :
    Rewriting WherePredicate := do
  let subject ← resolver.rewriteType ctx types predicate.subject
  let traitRef ← resolver.rewriteType ctx types predicate.traitRef
  let associatedTypes ←
    rewriteEach (resolver.rewriteAssociatedBinding ctx types) predicate.associatedTypes
  return ⟨subject, traitRef, associatedTypes⟩

def rewriteField (types : List String) (field : Field) : Rewriting Field := do
  let ty ← resolver.rewriteType ctx types field.ty
  return { field with ty := ty }

def rewriteFunction (outerTypes : List String) (function : Function) : Rewriting Function := do
  let compileGroups ← resolver.rewriteCompileParameterTypes ctx outerTypes
    function.compileGroups
  let types := compileParameterNames function.compileGroups outerTypes
  let groups ← rewriteEach (resolver.rewriteParameters ctx types) function.groups
  let returnType ← resolver.rewriteTypeOption ctx types function.returnType
  let effects ← resolver.rewriteEffects ctx types function.effects
  let wherePredicates ←
    rewriteEach (resolver.rewritePredicate ctx types) function.wherePredicates
  let body ← resolver.rewriteOptional ctx ⟨types, functionValues function types⟩ function.body
  return { function with
    compileGroups := compileGroups, groups := groups, returnType := returnType,
    effects := effects, wherePredicates := wherePredicates, body := body }

def rewriteStruct (definition : StructDef) : Rewriting StructDef := do
  let name := canonicalName ctx.modulePath definition.name
  let compileGroups ← resolver.rewriteCompileParameterTypes ctx [] definition.compileGroups
  let types := compileParameterNames definition.compileGroups []
  let fields ← rewriteEach (resolver.rewriteField ctx types) definition.fields
  return ⟨name, compileGroups, fields⟩

def rewriteVariant (types : List String) (variant : VariantDef) : Rewriting VariantDef :=
  match variant.fields with
  | .unit => return variant
  | .positional fields => do
    let fields ← resolver.rewriteTypes ctx types fields
    return { variant with fields := .positional fields }
  | .named fields => do
    let fields ← rewriteEach (resolver.rewriteField ctx types) fields
    return { variant with fields := .named fields }

def rewriteEnum (definition : EnumDef) : Rewriting EnumDef := do
  let name := canonicalName ctx.modulePath definition.name
  let compileGroups ← resolver.rewriteCompileParameterTypes ctx [] definition.compileGroups
  let types := compileParameterNames definition.compileGroups []
  let variants ← rewriteEach (resolver.rewriteVariant ctx types) definition.variants
  return ⟨name, compileGroups, variants⟩

def rewriteTraitMember (types : List String) : TraitMember → Rewriting TraitMember
  | .function function => return .function (← resolver.rewriteFunction ctx types function)
  | .associatedType name compileGroups default =>
    return .associatedType name compileGroups
      (← resolver.rewriteTypeOption ctx (compileParameterNames compileGroups types) default)

def rewriteTrait (definition : TraitDef) : Rewriting TraitDef := do
  let name := canonicalName ctx.modulePath definition.name
  let compileGroups ← resolver.rewriteCompileParameterTypes ctx [] definition.compileGroups
  let types := compileParameterNames definition.compileGroups [] ++ ["self"] ++
    associatedTypeNames definition.members
  let wherePredicates ←
    rewriteEach (resolver.rewritePredicate ctx types) definition.wherePredicates
  let members ← rewriteEach (resolver.rewriteTraitMember ctx types) definition.members
  return { definition with
    name := name, compileGroups := compileGroups, wherePredicates := wherePredicates,
    members := members }

def rewriteExtendMember (types : List String) : ExtendMember → Rewriting ExtendMember
  | .function function => return .function (← resolver.rewriteFunction ctx types function)
  | .const binding => return .const (← resolver.rewriteBinding ctx ⟨types, types⟩ binding)

def rewriteExtend (extension : ExtendDef) : Rewriting ExtendDef := do
  let compileGroups ← resolver.rewriteCompileParameterTypes ctx [] extension.compileGroups
  let header := compileParameterNames extension.compileGroups []
  let target ← resolver.rewriteType ctx header extension.target
  let traitRef ← resolver.rewriteTypeOption ctx header extension.traitRef
  let wherePredicates ←
    rewriteEach (resolver.rewritePredicate ctx header) extension.wherePredicates
  let types := header ++ memberNames extension
  let members ← rewriteEach (resolver.rewriteExtendMember ctx types) extension.members
  return ⟨compileGroups, target, traitRef, wherePredicates, members⟩

def rewriteEffect (definition : EffectDef) : Rewriting EffectDef := do
  let name := canonicalName ctx.modulePath definition.name
  let compileGroups ← resolver.rewriteCompileParameterTypes ctx [] definition.compileGroups
  let types := compileParameterNames definition.compileGroups []
  let operations ← rewriteEach (resolver.rewriteFunction ctx types) definition.operations
  return ⟨name, compileGroups, operations⟩

def rewriteTypeAlias (definition : TypeAliasDef) : Rewriting TypeAliasDef := do
  let name := canonicalName ctx.modulePath definition.name
  let compileGroups ← resolver.rewriteCompileParameterTypes ctx [] definition.compileGroups
  let target ← resolver.rewriteType ctx (compileParameterNames definition.compileGroups [])
    definition.target
  return ⟨name, compileGroups, target⟩

def rewriteItem : Item → Rewriting Item
  | .function function => do
    let function := { function with name := canonicalName ctx.modulePath function.name }
    return .function (← resolver.rewriteFunction ctx [] function)
  | .global binding => do
    let binding := { binding with name := canonicalName ctx.modulePath binding.name }
    return .global (← resolver.rewriteBinding ctx ⟨[], []⟩ binding)
  | .typeAlias definition => return .typeAlias (← resolver.rewriteTypeAlias ctx definition)
  | .struct definition => return .struct (← resolver.rewriteStruct ctx definition)
  | .enum definition => return .enum (← resolver.rewriteEnum ctx definition)
  | .trait definition => return .trait (← resolver.rewriteTrait ctx definition)
  | .effect definition => return .effect (← resolver.rewriteEffect ctx definition)
  | .sort definition =>
    return .sort { definition with name := canonicalName ctx.modulePath definition.name }
  | .typeForm definition =>
    return .typeForm { definition with name := canonicalName ctx.modulePath definition.name }
  | .extend extension => return .extend (← resolver.rewriteExtend ctx extension)

end NameResolver

/-- The context of the loop over the items of a unit. -/
def UnitHeader.context (header : UnitHeader) (origin : ItemOrigin) : ResolveContext where
  sourcePath := header.sourcePath
  modulePath := header.modulePath
  packageRoot := header.packageRoot
  location := origin.source

end Salicin.Modules
