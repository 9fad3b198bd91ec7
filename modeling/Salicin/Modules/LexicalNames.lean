import Salicin.Modules.ItemRewriting

/-!
# Lexical scoping

What becomes of the names in an item when each of them is read by the scopes around it. A name
that something around it binds stays as it is. Of any other path the longest part that leads to
a declaration is replaced by the canonical name of the declaration. Here every compile-time
parameter binds its name, whatever its sort.
-/

namespace Salicin.Modules

open Salicin.Source

/-- How the paths in a module are read. -/
structure Naming where
  /-- The canonical name of the declaration that a path leads to. -/
  declared : List String → Option String
  /-- A part in front of the path is a module, so an unknown name there keeps its whole path as
  one name. -/
  underModule : List String → Bool
  /-- A local value hides the types with its name as well. -/
  hidesTypes : Bool

/-- Names that stand for types and for values. -/
def Scopes.bindNames (scopes : Scopes) (names : List String) : Scopes :=
  ⟨scopes.types ++ names, scopes.values ++ names⟩

def Scopes.empty : Scopes := ⟨[], []⟩

/-- Compile-time parameters of every sort. -/
def Scopes.bindCompile (scopes : Scopes) (groups : List (List CompileParam)) : Scopes :=
  scopes.bindNames (groups.flatten.map (·.name))

/-- What the compile-time parameters of an item bind. -/
def headerScopes (groups : List (List CompileParam)) : Scopes := Scopes.empty.bindCompile groups

/-- In a trait its own type and its associated types are bound as well. -/
def traitScopes (definition : TraitDef) : Scopes :=
  ((headerScopes definition.compileGroups).bindNames ["self"]).bindNames
    (associatedTypeNames definition.members)

/-- An implementation binds the associated types that it gives. -/
def extensionScopes (extension : ExtendDef) : Scopes :=
  (headerScopes extension.compileGroups).bindNames (memberNames extension)

/-- The names that bind the first segment of a member chain. -/
def chainScope (reading : Reading) (bound : Scopes) : List String :=
  match reading with
  | .value => bound.values
  | .compileArgument => bound.types

namespace Naming

variable (naming : Naming)

/-- Names of local values. -/
def bindLocals (scopes : Scopes) (names : List String) : Scopes :=
  if naming.hidesTypes then scopes.bindNames names else scopes.bindValues names

/-- The canonical name of what a path leads to, or the name as it stands. -/
def canonical (path : List String) (name : String) : String := (naming.declared path).getD name

/-- A dotted name with the longest part that leads to a declaration replaced. -/
def longestCanonical (path : List String) (name : String) : String :=
  match longestPrefix naming.declared path path.length with
  | some (canonical, consumed) => ".".intercalate (canonical :: path.drop consumed)
  | none => name

def exactPathName (scope : List String) (name : String) : String :=
  if startsIn scope (splitName name) then name
  else naming.longestCanonical (splitName name) name

def exactName (scope : List String) (name : String) : String :=
  if name ∈ scope then name else naming.canonical [name] name

/-- A path of names that nothing binds. -/
def exactChain (segments : List String) (expression : Expr) : Expr :=
  match longestPrefix naming.declared segments segments.length with
  | some (canonical, consumed) => memberChain (.name canonical) (segments.drop consumed)
  | none =>
    if naming.underModule segments then .name (".".intercalate segments) else expression

/-- The path of a constructor that nothing binds. -/
def exactPath (path : List String) : List String :=
  match longestPrefix naming.declared path path.length with
  | some (canonical, consumed) => canonical :: path.drop consumed
  | none => path

mutual

def exactStatic (bound : Scopes) : StaticExpr → StaticExpr
  | .name name => .name (naming.exactName bound.values name)
  | .unary operator operand => .unary operator (exactStatic bound operand)
  | .binary left operator right => .binary (exactStatic bound left) operator (exactStatic bound right)
  | .call function groups =>
    .call (naming.exactPathName bound.values function) (exactStaticGroups bound groups)
  | .usize value => .usize value
  | .bool value => .bool value

def exactStaticGroups (bound : Scopes) :
    List (List (Option String × StaticExpr)) → List (List (Option String × StaticExpr))
  | [] => []
  | group :: rest => exactStaticArguments bound group :: exactStaticGroups bound rest

def exactStaticArguments (bound : Scopes) :
    List (Option String × StaticExpr) → List (Option String × StaticExpr)
  | [] => []
  | (label, value) :: rest => (label, exactStatic bound value) :: exactStaticArguments bound rest

end

def exactLength (bound : Scopes) : USizeConst → USizeConst
  | .expression expression => .expression (naming.exactStatic bound expression)
  | .literal value => .literal value
  | .parameter name => .parameter (naming.exactName bound.values name)

mutual

def exactType (bound : Scopes) : SourceType → SourceType
  | .tuple fields => .tuple (exactTypes bound fields)
  | .borrow mutable access region pointee => .borrow mutable access region (exactType bound pointee)
  | .array element length => .array (exactType bound element) length
  | .arrayApplication constructor element length =>
    .arrayApplication (naming.exactPathName bound.types constructor) (exactType bound element)
      (naming.exactLength bound length)
  | .function groups effects result =>
    .function (exactTypeGroups bound groups) (exactEffects bound effects) (exactType bound result)
  | .named name arguments =>
    .named (naming.exactPathName bound.types name) (exactTypes bound arguments)
  | .namedArgs name arguments =>
    .namedArgs (naming.exactPathName bound.types name) (exactTypeArguments bound arguments)
  | .integer kind => .integer kind
  | .bool => .bool
  | .unit => .unit
  | .compileUSize value => .compileUSize value

def exactTypes (bound : Scopes) : List SourceType → List SourceType
  | [] => []
  | ty :: rest => exactType bound ty :: exactTypes bound rest

def exactTypeGroups (bound : Scopes) : List (List SourceType) → List (List SourceType)
  | [] => []
  | group :: rest => exactTypes bound group :: exactTypeGroups bound rest

def exactTypeArguments (bound : Scopes) : List TypeArg → List TypeArg
  | [] => []
  | .mk label ty :: rest => .mk label (exactType bound ty) :: exactTypeArguments bound rest

def exactEffects (bound : Scopes) : FunctionEffects → FunctionEffects
  | .mk unsafety none custom parameters => .mk unsafety none (exactTypes bound custom) parameters
  | .mk unsafety (some failure) custom parameters =>
    .mk unsafety (some (exactType bound failure)) (exactTypes bound custom) parameters

end

/-- A sort that is no word of the language is the name of a type. -/
def exactSortName (bound : Scopes) (name : String) : String :=
  if name ∈ builtinSorts then name else naming.exactPathName bound.types name

mutual

def exactSort (bound : Scopes) : CompileSort → CompileSort
  | .named name => .named (naming.exactSortName bound name)
  | .typeConstructor groups => .typeConstructor (exactSortGroups bound groups)
  | .effectConstructor groups => .effectConstructor (exactSortGroups bound groups)
  | .universeAt level => .universeAt level
  | .type => .type
  | .usize => .usize
  | .region => .region
  | .effect => .effect
  | .effects => .effects
  | .parameters => .parameters
  | .fragment kind => .fragment kind
  | .parameterPack => .parameterPack
  | .parameterModifier => .parameterModifier

def exactSorts (bound : Scopes) : List CompileSort → List CompileSort
  | [] => []
  | kind :: rest => exactSort bound kind :: exactSorts bound rest

def exactSortGroups (bound : Scopes) : List (List CompileSort) → List (List CompileSort)
  | [] => []
  | group :: rest => exactSorts bound group :: exactSortGroups bound rest

end

mutual

def exactPattern (bound : Scopes) : Pattern → Pattern
  | .tuple patterns => .tuple (exactPatterns bound patterns)
  | .binding name => .binding name
  | .constructor path fields =>
    .constructor (if startsIn bound.values path then path else naming.exactPath path)
      (exactPatternFields bound fields)
  | .wildcard => .wildcard
  | .integer pattern => .integer pattern
  | .bool value => .bool value

def exactPatterns (bound : Scopes) : List Pattern → List Pattern
  | [] => []
  | pattern :: rest => exactPattern bound pattern :: exactPatterns bound rest

def exactPatternFields (bound : Scopes) : PatternFields → PatternFields
  | .unit => .unit
  | .positional patterns => .positional (exactPatterns bound patterns)
  | .named fields => .named (exactNamedPatterns bound fields)

def exactNamedPatterns (bound : Scopes) : List PatternField → List PatternField
  | [] => []
  | ⟨name, pattern⟩ :: rest => ⟨name, exactPattern bound pattern⟩ :: exactNamedPatterns bound rest

end

/-- A compile-time argument that is no word of the language may be a type. -/
def exactArgumentName (bound : Scopes) (name : String) : String :=
  if name ∈ builtinCompileArguments then name else naming.exactName bound.types name

/-- A chain of compile-time arguments that leads nowhere stays as it is. -/
def exactMember (reading : Reading) (segments : List String) (expression : Expr) : Expr :=
  match reading with
  | .value => naming.exactChain segments expression
  | .compileArgument => { naming with underModule := fun _ => false : Naming }.exactChain segments
      expression

def exactParameters (bound : Scopes) (parameters : List Param) : List Param :=
  parameters.map fun parameter => { parameter with ty := naming.exactType bound parameter.ty }

mutual

def exactExpr (reading : Reading) (bound : Scopes) : Expr → Expr
  | .located line column endLine endColumn value =>
    .located line column endLine endColumn (exactExpr .value bound value)
  | .name name =>
    match reading with
    | .value => .name (naming.exactName bound.values name)
    | .compileArgument => .name (naming.exactArgumentName bound name)
  | .unary operator operand => .unary operator (exactExpr .value bound operand)
  | .tryExpr operand => .tryExpr (exactExpr .value bound operand)
  | .throw operand => .throw (exactExpr .value bound operand)
  | .unsafeExpr operand => .unsafeExpr (exactExpr .value bound operand)
  | .borrow mutable access value => .borrow mutable access (exactExpr .value bound value)
  | .doBlock body => .doBlock (exactExpr .value bound body)
  | .async body => .async (exactExpr .value bound body)
  | .await operand => .await (exactExpr .value bound operand)
  | .binary left operator right =>
    .binary (exactExpr .value bound left) operator (exactExpr .value bound right)
  | .coalesce left right => .coalesce (exactExpr .value bound left) (exactExpr .value bound right)
  | .assign place value => .assign (exactExpr .value bound place) (exactExpr .value bound value)
  | .compoundAssign place operator value =>
    .compoundAssign (exactExpr .value bound place) operator (exactExpr .value bound value)
  | .handlerCoalesce scrutinee payload success fallback =>
    .handlerCoalesce (exactExpr .value bound scrutinee) payload
      (exactExpr .value (naming.bindLocals bound [payload]) success)
      (exactExpr .value bound fallback)
  | .handlerChainCall ⟨scrutinee, payload, error, member, groups, success, residual⟩ =>
    .handlerChainCall ⟨exactExpr .value bound scrutinee, payload, error, member,
      exactArgumentGroups bound groups,
      exactExpr .value (naming.bindLocals bound [payload]) success,
      exactExpr .value (naming.bindLocals bound [error]) residual⟩
  | .call callee arguments =>
    .call (exactExpr reading bound callee) (exactArguments reading bound arguments)
  | .structLiteral constructor fields =>
    .structLiteral (exactExpr .compileArgument bound constructor)
      (exactArguments .value bound fields)
  | .member base member =>
    match memberSegments (.member base member) with
    | some segments =>
      if startsIn (chainScope reading bound) segments then .member base member
      else naming.exactMember reading segments (.member base member)
    | none => .member (exactExpr reading bound base) member
  | .chainMember base member => .chainMember (exactExpr .value bound base) member
  | .array elements => .array (exactExprs bound elements)
  | .tuple elements => .tuple (exactExprs bound elements)
  | .index base index => .index (exactExpr .value bound base) (exactExpr .value bound index)
  | .block statements tail =>
    .block (exactStatements bound statements)
      (exactOptional (naming.bindLocals bound (letNames statements)) tail)
  | .closure parameters body =>
    .closure (naming.exactParameters bound parameters)
      (exactExpr .value (naming.bindLocals bound (parameters.map (·.name))) body)
  | .patternClosure pattern guard body =>
    .patternClosure (naming.exactPattern bound pattern)
      (exactOptional (naming.bindLocals bound (boundNames pattern)) guard)
      (exactExpr .value (naming.bindLocals bound (boundNames pattern)) body)
  | .ifExpr condition thenBranch elseBranch =>
    .ifExpr (exactExpr .value bound condition) (exactExpr .value bound thenBranch)
      (exactOptional bound elseBranch)
  | .returnExpr value => .returnExpr (exactOptional bound value)
  | .breakExpr value => .breakExpr (exactOptional bound value)
  | .whileExpr condition body postTest =>
    .whileExpr (exactExpr .value bound condition) (exactExpr .value bound body) postTest
  | .loop body => .loop (exactExpr .value bound body)
  | .matchExpr scrutinee arms =>
    .matchExpr (exactExpr .value bound scrutinee) (exactMatchArms bound arms)
  | .type ty => .type (naming.exactType bound ty)
  | .unit => .unit
  | .integer value => .integer value
  | .bool value => .bool value
  | .string value => .string value
  | .continueExpr => .continueExpr

def exactExprs (bound : Scopes) : List Expr → List Expr
  | [] => []
  | expression :: rest => exactExpr .value bound expression :: exactExprs bound rest

def exactOptional (bound : Scopes) : Option Expr → Option Expr
  | none => none
  | some expression => some (exactExpr .value bound expression)

def exactArguments (reading : Reading) (bound : Scopes) : List CallArg → List CallArg
  | [] => []
  | ⟨label, value⟩ :: rest =>
    ⟨label, exactExpr reading bound value⟩ :: exactArguments reading bound rest

def exactArgumentGroups (bound : Scopes) : List (List CallArg) → List (List CallArg)
  | [] => []
  | group :: rest => exactArguments .value bound group :: exactArgumentGroups bound rest

def exactStatements (bound : Scopes) : List Stmt → List Stmt
  | [] => []
  | .letBinding ⟨mutable, name, annotation, value⟩ :: rest =>
    .letBinding ⟨mutable, name, annotation.map (naming.exactType bound),
      exactExpr .value bound value⟩ :: exactStatements (naming.bindLocals bound [name]) rest
  | .expr expression :: rest => .expr (exactExpr .value bound expression) :: exactStatements bound rest

def exactMatchArms (bound : Scopes) : List MatchArm → List MatchArm
  | [] => []
  | ⟨pattern, guard, body⟩ :: rest =>
    ⟨naming.exactPattern bound pattern,
      exactOptional (naming.bindLocals bound (boundNames pattern)) guard,
      exactExpr .value (naming.bindLocals bound (boundNames pattern)) body⟩ ::
    exactMatchArms bound rest

end

/-! ## Items -/

def exactBinding (bound : Scopes) (binding : Binding) : Binding :=
  { binding with
    annotation := binding.annotation.map (naming.exactType bound)
    value := naming.exactExpr .value bound binding.value }

def exactCompileParam (outer : Scopes) (parameter : CompileParam) : CompileParam :=
  { parameter with kind := naming.exactSort outer parameter.kind }

/-- The sorts of the parameters, which are read outside of their groups. -/
def exactCompileGroups (outer : Scopes) (groups : List (List CompileParam)) :
    List (List CompileParam) :=
  groups.map fun group => group.map (naming.exactCompileParam outer)

def exactAssociatedBinding (outer : Scopes) (binding : AssociatedTypeBinding) :
    AssociatedTypeBinding :=
  { binding with
    compileGroups := naming.exactCompileGroups outer binding.compileGroups
    ty := naming.exactType (outer.bindCompile binding.compileGroups) binding.ty }

def exactPredicate (bound : Scopes) (predicate : WherePredicate) : WherePredicate where
  subject := naming.exactType bound predicate.subject
  traitRef := naming.exactType bound predicate.traitRef
  associatedTypes := predicate.associatedTypes.map (naming.exactAssociatedBinding bound)

def exactField (bound : Scopes) (field : Field) : Field :=
  { field with ty := naming.exactType bound field.ty }

def exactFunction (outer : Scopes) (function : Function) : Function :=
  let bound := outer.bindCompile function.compileGroups
  { function with
    compileGroups := naming.exactCompileGroups outer function.compileGroups
    groups := function.groups.map (naming.exactParameters bound)
    returnType := function.returnType.map (naming.exactType bound)
    effects := naming.exactEffects bound function.effects
    wherePredicates := function.wherePredicates.map (naming.exactPredicate bound)
    body := naming.exactOptional
      (naming.bindLocals bound (function.groups.flatten.map (·.name))) function.body }

def exactVariant (bound : Scopes) (variant : VariantDef) : VariantDef :=
  match variant.fields with
  | .unit => variant
  | .positional fields => { variant with fields := .positional (naming.exactTypes bound fields) }
  | .named fields => { variant with fields := .named (fields.map (naming.exactField bound)) }

def exactTraitMember (bound : Scopes) : TraitMember → TraitMember
  | .function function => .function (naming.exactFunction bound function)
  | .associatedType name compileGroups default =>
    .associatedType name (naming.exactCompileGroups bound compileGroups)
      (default.map (naming.exactType (bound.bindCompile compileGroups)))

def exactTrait (name : String) (definition : TraitDef) : TraitDef where
  name := name
  selfParameter := naming.exactCompileParam .empty definition.selfParameter
  compileGroups := naming.exactCompileGroups .empty definition.compileGroups
  wherePredicates := definition.wherePredicates.map (naming.exactPredicate (traitScopes definition))
  members := definition.members.map (naming.exactTraitMember (traitScopes definition))

def exactExtendMember (bound : Scopes) : ExtendMember → ExtendMember
  | .function function => .function (naming.exactFunction bound function)
  | .const binding => .const (naming.exactBinding bound binding)

def exactExtend (extension : ExtendDef) : ExtendDef where
  compileGroups := naming.exactCompileGroups .empty extension.compileGroups
  target := naming.exactType (headerScopes extension.compileGroups) extension.target
  traitRef := extension.traitRef.map (naming.exactType (headerScopes extension.compileGroups))
  wherePredicates :=
    extension.wherePredicates.map (naming.exactPredicate (headerScopes extension.compileGroups))
  members := extension.members.map (naming.exactExtendMember (extensionScopes extension))

/-- An item whose declared name gets the path of its module. -/
def exactItem (qualify : String → String) : Item → Item
  | .function function =>
    .function { naming.exactFunction .empty function with name := qualify function.name }
  | .global binding =>
    .global { naming.exactBinding .empty binding with name := qualify binding.name }
  | .typeAlias definition =>
    .typeAlias ⟨qualify definition.name, naming.exactCompileGroups .empty definition.compileGroups,
      naming.exactType (headerScopes definition.compileGroups) definition.target⟩
  | .struct definition =>
    .struct ⟨qualify definition.name, naming.exactCompileGroups .empty definition.compileGroups,
      definition.fields.map
        (naming.exactField (headerScopes definition.compileGroups))⟩
  | .enum definition =>
    .enum ⟨qualify definition.name, naming.exactCompileGroups .empty definition.compileGroups,
      definition.variants.map
        (naming.exactVariant (headerScopes definition.compileGroups))⟩
  | .trait definition => .trait (naming.exactTrait (qualify definition.name) definition)
  | .effect definition =>
    .effect ⟨qualify definition.name, naming.exactCompileGroups .empty definition.compileGroups,
      definition.operations.map
        (naming.exactFunction (headerScopes definition.compileGroups))⟩
  | .sort definition => .sort { definition with name := qualify definition.name }
  | .typeForm definition => .typeForm { definition with name := qualify definition.name }
  | .extend extension => .extend (naming.exactExtend extension)

end Naming

end Salicin.Modules
