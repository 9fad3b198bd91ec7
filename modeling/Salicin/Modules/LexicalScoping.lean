import Salicin.Modules.LexicalExactness

/-!
# Lexical exactness of items

The parts of an item are compared one by one, and then the items of a package set that the
resolver has accepted.
-/

namespace Salicin.Modules

open Salicin.Source Naming

namespace NameResolver

variable {resolver : NameResolver} {ctx : ResolveContext} {hidesTypes : Bool}

theorem value_rewriteEach {Element : Type} (rewrite : Element → Rewriting Element)
    (elems : List Element) :
    (rewriteEach rewrite elems).value = elems.map fun elem => (rewrite elem).value := by
  induction elems with
  | nil => rfl
  | cons elem rest ih => simp [rewriteEach, ih]

theorem rewriteEach_exact_iff {Element : Type} {rewrite : Element → Rewriting Element}
    {exact : Element → Element} {agrees : Element → Prop}
    (hiff : ∀ elem, (rewrite elem).value = exact elem ↔ agrees elem)
    {elems : List Element} : (rewriteEach rewrite elems).value = elems.map exact ↔
      ∀ elem ∈ elems, agrees elem := by
  rw [value_rewriteEach, List.map_inj_left]
  exact forall₂_congr fun elem _ => hiff elem

variable {seen : List String} {outer : Scopes}

attribute [local simp] rewriteItem rewriteVariant exactItem exactVariant
  Naming.ItemAgrees Naming.VariantAgrees

theorem rewriteSort_exact_iff (kind : CompileSort) : (resolver.rewriteSort ctx seen kind).value =
        (resolver.naming ctx hidesTypes).exactSort outer kind ↔
      (resolver.naming ctx hidesTypes).SortAgrees seen outer kind := by
  cases kind
  case named name =>
    by_cases hbuiltin : name ∈ builtinSorts
    · simp [rewriteSort, exactSort, Naming.SortAgrees, exactSortName, hbuiltin]
    · simp [rewriteSort, exactSort, Naming.SortAgrees, exactSortName, hbuiltin,
        rewriteTypeName_exact_iff]
  all_goals simp [rewriteSort, exactSort, Naming.SortAgrees, eq_comm]

theorem rewriteCompileParameterTypes_exact_iff {groups : List (List CompileParam)} :
    (resolver.rewriteCompileParameterTypes ctx seen groups).value =
        (resolver.naming ctx hidesTypes).exactCompileGroups outer groups ↔
      (resolver.naming ctx hidesTypes).CompileGroupsAgree seen outer groups := by
  refine rewriteEach_exact_iff fun group => rewriteEach_exact_iff fun parameter => ?_
  simp [exactCompileParam, rewriteSort_exact_iff]

theorem rewriteAssociatedBinding_exact_iff (binding : AssociatedTypeBinding) :
    (resolver.rewriteAssociatedBinding ctx seen binding).value =
        (resolver.naming ctx hidesTypes).exactAssociatedBinding outer binding ↔
      (resolver.naming ctx hidesTypes).AssociatedBindingAgrees seen outer binding := by
  simp [rewriteAssociatedBinding, exactAssociatedBinding, Naming.AssociatedBindingAgrees,
    rewriteCompileParameterTypes_exact_iff, rewriteType_exact_iff]

variable {bound : Scopes}

theorem rewritePredicate_exact_iff (pred : WherePredicate) :
    (resolver.rewritePredicate ctx seen pred).value =
        (resolver.naming ctx hidesTypes).exactPredicate bound pred ↔
      (resolver.naming ctx hidesTypes).PredicateAgrees seen bound pred := by
  simp [rewritePredicate, exactPredicate, Naming.PredicateAgrees, rewriteType_exact_iff,
    rewriteEach_exact_iff rewriteAssociatedBinding_exact_iff]

theorem rewriteField_exact_iff (field : Field) : (resolver.rewriteField ctx seen field).value =
        (resolver.naming ctx hidesTypes).exactField bound field ↔
      (resolver.naming ctx hidesTypes).TypeAgrees seen bound field.ty := by
  simp [rewriteField, exactField, rewriteType_exact_iff]

theorem rewriteFunction_exact_iff (function : Function) :
    (resolver.rewriteFunction ctx seen function).value =
        (resolver.naming ctx hidesTypes).exactFunction outer function ↔
      (resolver.naming ctx hidesTypes).FunctionAgrees seen outer function := by
  simp [rewriteFunction, exactFunction, Naming.FunctionAgrees, Naming.PredicatesAgree,
    rewriteCompileParameterTypes_exact_iff, rewriteEach_exact_iff rewriteParameters_exact_iff,
    rewriteTypeOption_exact_iff, rewriteEffects_exact_iff,
    rewriteEach_exact_iff rewritePredicate_exact_iff, rewriteOptional_exact_iff]

theorem rewriteBinding_exact_iff {seen : Scopes} (binding : Binding) :
    (resolver.rewriteBinding ctx seen binding).value =
        (resolver.naming ctx hidesTypes).exactBinding bound binding ↔
      (resolver.naming ctx hidesTypes).BindingAgrees seen bound binding := by
  simp [rewriteBinding, exactBinding, Naming.BindingAgrees, rewriteTypeOption_exact_iff,
    rewriteExpr_exact_iff]

theorem rewriteVariant_exact_iff (variant : VariantDef) :
    (resolver.rewriteVariant ctx seen variant).value =
        (resolver.naming ctx hidesTypes).exactVariant bound variant ↔
      (resolver.naming ctx hidesTypes).VariantAgrees seen bound variant := by
  obtain ⟨name, fields⟩ := variant
  cases fields with
  | unit => simp
  | positional fields =>
    simp [rewriteTypes_exact_iff]
  | named fields =>
    simp [Naming.FieldsAgree, rewriteEach_exact_iff rewriteField_exact_iff]

theorem rewriteTraitMember_exact_iff (member : TraitMember) :
    (resolver.rewriteTraitMember ctx seen member).value =
        (resolver.naming ctx hidesTypes).exactTraitMember bound member ↔
      (resolver.naming ctx hidesTypes).TraitMemberAgrees seen bound member := by
  cases member with
  | function function =>
    simp [rewriteTraitMember, exactTraitMember, Naming.TraitMemberAgrees, rewriteFunction_exact_iff]
  | associatedType name compileGroups default =>
    simp [rewriteTraitMember, exactTraitMember, Naming.TraitMemberAgrees,
      rewriteTypeOption_exact_iff, eq_comm]

theorem rewriteTrait_exact_iff (defn : TraitDef) : (resolver.rewriteTrait ctx defn).value =
        (resolver.naming ctx hidesTypes).exactTrait
          (canonicalName ctx.modulePath defn.name) defn ↔
      (resolver.naming ctx hidesTypes).TraitAgrees defn := by
  simp [rewriteTrait, exactTrait, Naming.TraitAgrees, Naming.PredicatesAgree,
    rewriteCompileParameterTypes_exact_iff, rewriteEach_exact_iff rewritePredicate_exact_iff,
    rewriteEach_exact_iff rewriteTraitMember_exact_iff, eq_comm]

theorem rewriteExtendMember_exact_iff (member : ExtendMember) :
    (resolver.rewriteExtendMember ctx seen member).value =
        (resolver.naming ctx hidesTypes).exactExtendMember bound member ↔
      (resolver.naming ctx hidesTypes).ExtendMemberAgrees seen bound member := by
  cases member with
  | function function =>
    simp [rewriteExtendMember, exactExtendMember, Naming.ExtendMemberAgrees,
      rewriteFunction_exact_iff]
  | const binding =>
    simp [rewriteExtendMember, exactExtendMember, Naming.ExtendMemberAgrees,
      rewriteBinding_exact_iff]

theorem rewriteExtend_exact_iff (extension : ExtendDef) :
    (resolver.rewriteExtend ctx extension).value =
        (resolver.naming ctx hidesTypes).exactExtend extension ↔
      (resolver.naming ctx hidesTypes).ExtendAgrees extension := by
  simp [rewriteExtend, exactExtend, Naming.ExtendAgrees, Naming.PredicatesAgree,
    rewriteCompileParameterTypes_exact_iff, rewriteType_exact_iff, rewriteTypeOption_exact_iff,
    rewriteEach_exact_iff rewritePredicate_exact_iff,
    rewriteEach_exact_iff rewriteExtendMember_exact_iff]

/-- An item is rewritten exactly when the scopes agree at each of its names. -/
theorem rewriteItem_exact_iff (item : Item) : (resolver.rewriteItem ctx item).value =
        (resolver.naming ctx hidesTypes).exactItem (canonicalName ctx.modulePath) item ↔
      (resolver.naming ctx hidesTypes).ItemAgrees item := by
  cases item with
  | function function =>
    let renamed := { function with name := canonicalName ctx.modulePath function.name }
    exact (Iff.of_eq (Item.function.injEq _ _)).trans (rewriteFunction_exact_iff renamed)
  | global binding =>
    let renamed := { binding with name := canonicalName ctx.modulePath binding.name }
    exact (Iff.of_eq (Item.global.injEq _ _)).trans (rewriteBinding_exact_iff renamed)
  | typeAlias defn =>
    simp [rewriteTypeAlias, rewriteCompileParameterTypes_exact_iff, rewriteType_exact_iff]
  | struct defn =>
    simp [rewriteStruct, Naming.FieldsAgree, rewriteCompileParameterTypes_exact_iff,
      rewriteEach_exact_iff rewriteField_exact_iff]
  | enum defn =>
    simp [rewriteEnum, rewriteCompileParameterTypes_exact_iff,
      rewriteEach_exact_iff rewriteVariant_exact_iff]
  | effect defn =>
    simp [rewriteEffect, rewriteCompileParameterTypes_exact_iff,
      rewriteEach_exact_iff rewriteFunction_exact_iff]
  | sort defn => simp
  | typeForm defn => simp
  | trait defn =>
    simp [rewriteTrait_exact_iff]
  | extend extension =>
    simp [rewriteExtend_exact_iff]

end NameResolver

end Salicin.Modules

/-!
## Name resolution of a package set

The units of a package set are collected, their imports are resolved, and then the names in
their items are replaced.
-/

namespace Salicin.Modules

open Salicin.Source

/-- What `install_standard_namespaces` does to the tables. -/
structure StandardNamespaces where
  symbols : SymbolTable → SymbolTable
  modulePaths : Finset (List String) → Finset (List String)
  requiredImports : String → Option String

/-- A resolver to which no standard library is exposed. -/
def StandardNamespaces.none : StandardNamespaces := ⟨id, id, fun _ => Option.none⟩

/-- A package graph after parsing. -/
structure PackageSet where
  units : List ParsedUnit
  dependencies : DependencyTable
  imports : AList fun _ : List String => ImportDef
  standard : StandardNamespaces
  /-- The package roots in which the prelude is installed. -/
  preludeRoots : List (List String)

namespace PackageSet

variable (packages : PackageSet)

/-- `module_paths`: the modules of the units and those around them. -/
def modulePaths : Finset (List String) :=
  (packages.units.flatMap fun unit => unit.header.modulePath.inits).toFinset

def importGraph : ImportGraph where
  definitions := packages.imports
  symbols := packages.standard.symbols (collectSymbols packages.units packages.dependencies).symbols
  modulePaths := packages.standard.modulePaths packages.modulePaths
  dependencies := packages.dependencies

def resolver : NameResolver :=
  { packages.importGraph.resolver
      (packages.imports.keys.mergeSort fun first second => first ≤ second)
      packages.preludeRoots with
    modulePaths := packages.importGraph.modulePaths
    requiredImports := packages.standard.requiredImports }

/-- The body of the loop over the items of the units. -/
def rewriteDeclared (unit : ParsedUnit) (declared : DeclaredItem) : Rewriting Item :=
  packages.resolver.rewriteItem (unit.header.context declared.origin) declared.item

/-- Nothing is reported before the checks on the resolved program. -/
structure Accepted : Prop where
  collected : (collectSymbols packages.units packages.dependencies).diagnostics = []
  imported : packages.importGraph.collectImports.2 = []
  rewritten : ∀ unit ∈ packages.units, ∀ declared ∈ unit.items,
    (packages.rewriteDeclared unit declared).diagnostics = []

/-- How the paths in an item of a unit are read. -/
def naming (unit : ParsedUnit) (declared : DeclaredItem) (hidesTypes : Bool) : Naming :=
  packages.resolver.naming (unit.header.context declared.origin) hidesTypes

/-- Each name in the items is left to what binds it, or stands for its declaration. -/
def LexicallyExact (hidesTypes : Bool) : Prop :=
  ∀ unit ∈ packages.units, ∀ declared ∈ unit.items, (packages.rewriteDeclared unit declared).value =
      (packages.naming unit declared hidesTypes).exactItem
        (canonicalName unit.header.modulePath) declared.item

/-- The scopes of the code agree with the binders at each name in the items. -/
def ScopesAgree (hidesTypes : Bool) : Prop :=
  ∀ unit ∈ packages.units, ∀ declared ∈ unit.items,
    (packages.naming unit declared hidesTypes).ItemAgrees declared.item

end PackageSet

namespace CapturedLength

/-- `let n: usize = 3` in the module `app`. -/
def constant : Item := .global ⟨false, "n", none, .integer 3⟩

/-- `array(bool)(n + 1)`. -/
def arrayType : SourceType :=
  .arrayApplication "array" .bool (.expression (.binary (.name "n") .add (.usize 1)))

/-- `let fill(n: usize)(values: array(bool)(n + 1))` in the same module. -/
def fill : Item :=
  .function ⟨"fill", false, [[⟨"n", .usize, none⟩]],
    [[⟨.inferred, none, [], none, "values", arrayType⟩]], none, .pure, [], none⟩

def declare (item : Item) : DeclaredItem := ⟨item, .priv, ⟨0, ["app"], none⟩⟩

def packages : PackageSet where
  units := [⟨⟨"app.sc", ["app"], []⟩, [declare constant, declare fill]⟩]
  dependencies := fun _ => none
  imports := ∅
  standard := .none
  preludeRoots := []

theorem accepted : packages.Accepted where
  collected := by rfl
  imported := by
    simp only [ImportGraph.collectImports, ImportGraph.resolveAliases, PackageSet.importGraph,
      packages, AList.keys_empty, List.mergeSort_nil, List.foldl_nil]
    rfl
  rewritten := by
    intro unit hunit declared hdecl
    obtain rfl := List.mem_singleton.mp hunit
    rcases List.mem_pair.mp hdecl with rfl | rfl
    · rfl
    · decide +kernel

theorem canonical_length (unit : ParsedUnit) (hunit : unit ∈ packages.units) (hidesTypes : Bool) :
    (packages.naming unit (declare fill) hidesTypes).canonical ["n"] "n" = "app::n" := by
  obtain rfl := List.mem_singleton.mp hunit
  rfl

/-- The length reads the parameter, which is no type and so in neither scope of a type. It becomes
the constant of the module. -/
theorem captured (hidesTypes : Bool) : ¬ packages.LexicallyExact hidesTypes := by
  intro hexact
  have hfill := (NameResolver.rewriteItem_exact_iff fill).mp
    (hexact _ (List.mem_singleton_self _) (declare fill) (by simp))
  obtain ⟨-, hgroups, -⟩ := hfill
  have hparam := hgroups _ (List.mem_singleton_self _) _ (List.mem_singleton_self _)
  obtain ⟨-, -, hlen, -⟩ := hparam
  rcases hlen with hscope | hkeeps
  · revert hscope
    decide
  · have hcanon := canonical_length _ (List.mem_singleton_self _) hidesTypes
    exact absurd (hcanon.symm.trans hkeeps) (by decide)

end CapturedLength

end Salicin.Modules
