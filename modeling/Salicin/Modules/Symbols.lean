import Salicin.Source.Ast
import Mathlib.Data.Finset.Basic

/-!
# Collecting the declarations of a package graph

Symbol collection goes through the parsed units in order and through the items of each unit
in order. It keeps three maps by logical path: the first symbol declared there, the
namespaces its declarations occupy, and the parameter labels of its function overloads.
-/

namespace Salicin.Modules

open Salicin.Source

/-- `ResolverDiagnostic`; the code is the same for all of them. -/
structure ResolverDiagnostic where
  message : String
  document : Option String
  location : Option SourceLocation

/-- `ParsedUnit` without its items: where the unit comes from and where its package is
mounted. -/
structure UnitHeader where
  sourcePath : String
  /-- The absolute module path in the flattened dependency graph. -/
  modulePath : List String
  packageRoot : List String

structure ParsedUnit where
  header : UnitHeader
  items : List DeclaredItem

structure Symbol where
  canonical : String
  modulePath : List String
  packageRoot : List String
  visibility : Visibility
  sourcePath : String

inductive DeclarationNamespace
  | function
  | type
  | other
  deriving DecidableEq

/-- `SymbolTable`, keyed by logical paths. -/
abbrev SymbolTable := List String → Option Symbol

/-- `DependencyTable`: by the root of the declaring package, the roots of its dependencies. -/
abbrev DependencyTable := List String → Option (List (String × List String))

/-- The parameter labels of a function, group by group. -/
abbrev OverloadShape := List (List String)

def canonicalName (modulePath : List String) (name : String) : String :=
  if modulePath.isEmpty then name else "::".intercalate modulePath ++ "::" ++ name

def displayModule (modulePath : List String) : String :=
  if modulePath.isEmpty then "<root>" else "::".intercalate modulePath

def declarationName : Item → Option String
  | .function function => some function.name
  | .global binding => some binding.name
  | .struct definition => some definition.name
  | .enum definition => some definition.name
  | .trait definition => some definition.name
  | .effect definition => some definition.name
  | .sort definition => some definition.name
  | .typeForm definition => some definition.name
  | .typeAlias definition => some definition.name
  | .extend _ => none

def declarationNamespace : Item → DeclarationNamespace
  | .function _ => .function
  | .struct _ | .enum _ | .trait _ | .effect _ | .sort _ | .typeAlias _ | .typeForm _ => .type
  | .global _ | .extend _ => .other

def overloadShape (function : Function) : OverloadShape :=
  function.groups.map fun group => group.map (·.name)

/-- The name of a dependency alias of the package mounted at the root. -/
def hasDependencyAlias (dependencies : DependencyTable) (packageRoot : List String)
    (name : String) : Bool :=
  match dependencies packageRoot with
  | some aliases => aliases.any (·.1 == name)
  | none => false

/-- `module_children` contains the name below the module path. -/
def isChildModule (units : List ParsedUnit) (modulePath : List String) (name : String) : Bool :=
  units.any fun unit => (modulePath ++ [name]).isPrefixOf unit.header.modulePath

def itemResolverDiagnostic (header : UnitHeader) (origin : ItemOrigin) (message : String) :
    ResolverDiagnostic where
  message := message
  document := some header.sourcePath
  location := origin.source.map fun location => { location with path := some header.sourcePath }

def hexadecimalDigit (digit : Char) : Option Nat :=
  if '0' ≤ digit ∧ digit ≤ '9' then some (digit.toNat - '0'.toNat)
  else if 'a' ≤ digit ∧ digit ≤ 'f' then some (digit.toNat - 'a'.toNat + 10)
  else if 'A' ≤ digit ∧ digit ≤ 'F' then some (digit.toNat - 'A'.toNat + 10)
  else none

def decodeHexadecimal : List Char → Option (List UInt8)
  | [] => some []
  | high :: low :: rest => do
    let high ← hexadecimalDigit high
    let low ← hexadecimalDigit low
    let rest ← decodeHexadecimal rest
    some (UInt8.ofNat (16 * high + low) :: rest)
  | [_] => none

def decodeTestRegistrationName (name : String) : Option String := do
  let encoded ← if "$test$".isPrefixOf name then some (name.toList.drop 6) else none
  let bytes ← decodeHexadecimal encoded
  String.fromUTF8? ⟨bytes.toArray⟩

/-- The maps and the diagnostics of `collect_symbols`. -/
structure Collection where
  symbols : SymbolTable
  symbolNamespaces : List String → Finset DeclarationNamespace
  functionOverloads : List String → Option (Finset OverloadShape)
  diagnostics : List ResolverDiagnostic

namespace Collection

def empty : Collection where
  symbols := fun _ => none
  symbolNamespaces := fun _ => ∅
  functionOverloads := fun _ => none
  diagnostics := []

def report (state : Collection) (header : UnitHeader) (origin : ItemOrigin) (message : String) :
    Collection :=
  { state with
    diagnostics := state.diagnostics ++ [itemResolverDiagnostic header origin message] }

def insertSymbol (state : Collection) (path : List String) (symbol : Symbol) : Collection :=
  { state with symbols := Function.update state.symbols path (some symbol) }

def occupy (state : Collection) (path : List String) (name : DeclarationNamespace) : Collection :=
  { state with
    symbolNamespaces :=
      Function.update state.symbolNamespaces path (insert name (state.symbolNamespaces path)) }

/-- `function_overloads.entry(path).or_default().insert(shape)`. -/
def insertOverload (state : Collection) (path : List String) (shape : OverloadShape) : Collection :=
  { state with
    functionOverloads := Function.update state.functionOverloads path
      (some (insert shape ((state.functionOverloads path).getD ∅))) }

/-- `function_overloads.insert(path, HashSet::from([shape]))`. -/
def startOverloads (state : Collection) (path : List String) (shape : OverloadShape) : Collection :=
  { state with
    functionOverloads := Function.update state.functionOverloads path (some {shape}) }

variable (state : Collection) (path : List String)

@[simp] theorem insertSymbol_symbols (symbol : Symbol) : (state.insertSymbol path symbol).symbols =
      Function.update state.symbols path (some symbol) := rfl

@[simp] theorem insertSymbol_symbolNamespaces (symbol : Symbol) :
    (state.insertSymbol path symbol).symbolNamespaces = state.symbolNamespaces := rfl

@[simp] theorem insertSymbol_functionOverloads (symbol : Symbol) :
    (state.insertSymbol path symbol).functionOverloads = state.functionOverloads := rfl

@[simp] theorem insertSymbol_diagnostics (symbol : Symbol) :
    (state.insertSymbol path symbol).diagnostics = state.diagnostics := rfl

variable (name : DeclarationNamespace)

@[simp] theorem occupy_symbols :
    (state.occupy path name).symbols = state.symbols := rfl

theorem mem_occupy {name kind : DeclarationNamespace} {other : List String} :
    kind ∈ (state.occupy path name).symbolNamespaces other ↔
      kind ∈ state.symbolNamespaces other ∨ path = other ∧ name = kind := by
  rw [occupy]
  by_cases hpath : other = path
  · subst hpath
    simp [Finset.mem_insert, or_comm, eq_comm]
  · simp [Function.update_of_ne hpath, Ne.symm hpath]

@[simp] theorem occupy_functionOverloads :
    (state.occupy path name).functionOverloads = state.functionOverloads := rfl

@[simp] theorem occupy_diagnostics :
    (state.occupy path name).diagnostics = state.diagnostics := rfl

@[simp] theorem insertOverload_functionOverloads (shape : OverloadShape) :
    (state.insertOverload path shape).functionOverloads =
      Function.update state.functionOverloads path
        (some (insert shape ((state.functionOverloads path).getD ∅))) := rfl

@[simp] theorem startOverloads_functionOverloads (shape : OverloadShape) :
    (state.startOverloads path shape).functionOverloads =
      Function.update state.functionOverloads path (some {shape}) := rfl

end Collection

/-- The symbol of a declaration of the unit. -/
def symbolOf (header : UnitHeader) (visibility : Visibility) (name : String) : Symbol where
  canonical := canonicalName header.modulePath name
  modulePath := header.modulePath
  packageRoot := header.packageRoot
  visibility := visibility
  sourcePath := header.sourcePath

/-- The symbol of a member of a sort of the unit. -/
def memberSymbol (header : UnitHeader) (visibility : Visibility) (name member : String) : Symbol :=
  { symbolOf header visibility name with
    canonical := canonicalName header.modulePath name ++ "." ++ member }

/-- The members that a sort declaration adds to the symbol table. -/
def sortMembers : Item → List String
  | .sort definition => definition.members.getD []
  | _ => []

def insertSortMembers (header : UnitHeader) (visibility : Visibility) (name : String)
    (members : List String) (state : Collection) : Collection :=
  members.foldl (fun state member =>
    state.insertSymbol (header.modulePath ++ [name, member])
      (memberSymbol header visibility name member)) state

/-- The end of the loop body, which the early `continue`s skip. -/
def finishItem (units : List ParsedUnit) (header : UnitHeader) (declared : DeclaredItem)
    (name : String) (state : Collection) : Collection :=
  let state := insertSortMembers header declared.visibility name (sortMembers declared.item) state
  if isChildModule units header.modulePath name then
    state.report header declared.origin
      s!"declaration `{name}` conflicts with child module `{canonicalName header.modulePath name}`"
  else state

def duplicateDeclaration (header : UnitHeader) (name : String) (previous : Symbol) : String :=
  s!"duplicate declaration `{name}` in module `{displayModule header.modulePath}`; first declared in {previous.sourcePath}"

/-- A function at a path that already has overloads. -/
def addOverload (header : UnitHeader) (declared : DeclaredItem) (name : String)
    (function : Function) (path : List String) (previous : Symbol)
    (overloads : Finset OverloadShape) (state : Collection) : Collection :=
  if declared.visibility ≠ previous.visibility then
    state.report header declared.origin
      s!"overloads of `{name}` must use the same visibility as the declaration in {previous.sourcePath}"
  else
    let shape := overloadShape function
    let inserted := state.insertOverload path shape
    if shape ∈ overloads ∧ ¬ (name = "foreign" ∧ function.builtin) then
      match decodeTestRegistrationName name with
      | some testName =>
        inserted.report header declared.origin
          s!"duplicate test registration name {testName.quote}"
      | none =>
        inserted.report header declared.origin
          s!"duplicate overload `{name}` has the same parameter labels as the declaration in {previous.sourcePath}"
    else inserted

/-- The declaration shares its path with the other one of a type and a value. -/
def isTypeValuePair (occupied : Finset DeclarationNamespace) (name : DeclarationNamespace) : Bool :=
  (name = .type ∧ (.function ∈ occupied ∨ .other ∈ occupied)) ∨ (name ≠ .type ∧ .type ∈ occupied)

/-- A declaration at a path that has a symbol already. -/
def redeclareItem (units : List ParsedUnit) (header : UnitHeader) (declared : DeclaredItem)
    (name : String) (path : List String) (previous : Symbol) (state : Collection) : Collection :=
  let occupied := state.symbolNamespaces path
  let ownNamespace := declarationNamespace declared.item
  let typeValuePair := isTypeValuePair occupied ownNamespace
  if typeValuePair ∧ declared.visibility ≠ previous.visibility then
    state.report header declared.origin
      s!"declaration `{name}` must use the same visibility as the same-named declaration in {previous.sourcePath}"
  else
    match declared.item with
    | .function function =>
      if typeValuePair ∧ .other ∉ occupied ∧ .function ∉ occupied then
        (state.insertOverload path (overloadShape function)).occupy path .function
      else
        match state.functionOverloads path with
        | none =>
          state.report header declared.origin (duplicateDeclaration header name previous)
        | some overloads =>
          finishItem units header declared name
            (addOverload header declared name function path previous overloads state)
    | _ =>
      if typeValuePair ∧ ownNamespace ∉ occupied ∧ ¬ (ownNamespace = .type ∧ .type ∈ occupied) then
        state.occupy path ownNamespace
      else
        finishItem units header declared name
          (state.report header declared.origin (duplicateDeclaration header name previous))

/-- The overloads of a name that is declared for the first time. -/
def startFunction (path : List String) (state : Collection) : Item → Collection
  | .function function => state.startOverloads path (overloadShape function)
  | _ => state

/-- The first declaration at its path. -/
def declareItem (units : List ParsedUnit) (header : UnitHeader) (declared : DeclaredItem)
    (name : String) (path : List String) (state : Collection) : Collection :=
  let state := startFunction path state declared.item
  finishItem units header declared name
    ((state.occupy path (declarationNamespace declared.item)).insertSymbol path
      (symbolOf header declared.visibility name))

/-- The body of the loop over the items. -/
def collectItem (units : List ParsedUnit) (dependencies : DependencyTable) (state : Collection)
    (header : UnitHeader) (declared : DeclaredItem) : Collection :=
  match declarationName declared.item with
  | none => state
  | some name =>
    let state :=
      if header.modulePath = header.packageRoot ∧
          hasDependencyAlias dependencies header.packageRoot name then
        state.report header declared.origin
          s!"root declaration `{name}` conflicts with dependency alias `{name}`"
      else state
    let path := header.modulePath ++ [name]
    match state.symbols path with
    | some previous => redeclareItem units header declared name path previous state
    | none => declareItem units header declared name path state

def collectSymbols (units : List ParsedUnit) (dependencies : DependencyTable) : Collection :=
  units.foldl (fun state unit =>
    unit.items.foldl (fun state declared =>
      collectItem units dependencies state unit.header declared) state) .empty

end Salicin.Modules

/-!
## Who may use a declaration

A visibility is relative to the module that declares with it: private means that module and the
modules below it, `pub(package)` means the package, and public means everyone.
-/

namespace Salicin.Modules

open Salicin.Source

def displayPath (path : List String) : String := ".".intercalate path

def visibilityRank : Visibility → Nat
  | .priv => 0
  | .package => 1
  | .pub => 2

def visibilityAllowsAccess (visibility : Visibility) (declaringModule declaringPackage
    accessingModule accessingPackage : List String) : Bool :=
  match visibility with
  | .pub => true
  | .package => declaringPackage = accessingPackage
  | .priv => declaringPackage = accessingPackage ∧ declaringModule.isPrefixOf accessingModule

def visibilitySource : Visibility → String
  | .priv => "private"
  | .package => "pub(package)"
  | .pub => "pub"

def visibilityDescription : Visibility → String
  | .priv => "private"
  | .package => "pub(package)"
  | .pub => "public"

/-- The modules that may use what is declared with a visibility in a module of a package, each
with the root of its own package. -/
def audience (visibility : Visibility) (modulePath packageRoot : List String) :
    Set (List String × List String) :=
  {user | visibilityAllowsAccess visibility modulePath packageRoot user.1 user.2}

theorem mem_audience {vis : Visibility} {modulePath packageRoot : List String}
    {user : List String × List String} :
    user ∈ audience vis modulePath packageRoot ↔
      visibilityAllowsAccess vis modulePath packageRoot user.1 user.2 := Iff.rfl

/-- A module that may use a declaration does not widen its audience by declaring something
with no wider visibility. -/
theorem audience_subset {outer inner : Visibility}
    {outerModule outerPackage innerModule innerPackage : List String}
    (haccess : visibilityAllowsAccess outer outerModule outerPackage innerModule innerPackage)
    (hrank : visibilityRank inner ≤ visibilityRank outer) :
    audience inner innerModule innerPackage ⊆ audience outer outerModule outerPackage := by
  rintro ⟨userModule, userPackage⟩ huser
  rw [mem_audience] at huser ⊢
  cases outer with
  | pub => rfl
  | package =>
    cases inner with
    | pub => simp [visibilityRank] at hrank
    | package => simp_all [visibilityAllowsAccess]
    | priv => simp_all [visibilityAllowsAccess]
  | priv =>
    cases inner with
    | pub => simp [visibilityRank] at hrank
    | package => simp [visibilityRank] at hrank
    | priv =>
      simp only [visibilityAllowsAccess, decide_eq_true_eq, List.isPrefixOf_iff_prefix]
        at haccess huser ⊢
      exact ⟨haccess.1.trans huser.1, haccess.2.trans huser.2⟩

end Salicin.Modules
