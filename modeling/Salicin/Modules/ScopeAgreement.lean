import Salicin.Modules.LexicalNames

/-!
# Where the scopes of the code are enough

At each name the code consults one of its two scopes, or none. It makes no difference exactly
when the scope has the name as often as something around the name binds it, or when the name
would be replaced by itself.
-/

namespace Salicin.Modules

open Salicin.Source

namespace Naming

variable (naming : Naming)

/-- What the path leads to, if anything, has the name as its canonical name. -/
def KeepsName (path : List String) (name : String) : Prop := naming.canonical path name = name

/-- The code leaves the name alone if it has been `seen`; something binds it if it is `bound`. -/
def NameAgrees (seen bound : Bool) (path : List String) (name : String) : Prop :=
  seen = bound ∨ naming.KeepsName path name

/-- A dotted name and the scopes that its first segment is looked up in. The code replaces only
names that lead to a declaration as a whole. -/
def DottedAgrees (seen bound : List String) (name : String) : Prop :=
  match startsIn seen (splitName name), startsIn bound (splitName name) with
  | true, true => True
  | true, false => naming.longestCanonical (splitName name) name = name
  | false, true => naming.KeepsName (splitName name) name
  | false, false =>
    naming.declared (splitName name) = none → naming.longestCanonical (splitName name) name = name

def PlainAgrees (seen bound : List String) (name : String) : Prop :=
  naming.NameAgrees (name ∈ seen) (name ∈ bound) [name] name

mutual

/-- The names in lengths are looked up among the types, and called functions nowhere. -/
def StaticAgrees (seen : List String) (bound : Scopes) : StaticExpr → Prop
  | .name name => naming.PlainAgrees seen bound.values name
  | .unary _ operand => StaticAgrees seen bound operand
  | .binary left _ right => StaticAgrees seen bound left ∧ StaticAgrees seen bound right
  | .call function groups =>
    naming.DottedAgrees [] bound.values function ∧ StaticGroupsAgree seen bound groups
  | .usize _ | .bool _ => True

def StaticGroupsAgree (seen : List String) (bound : Scopes) :
    List (List (Option String × StaticExpr)) → Prop
  | [] => True
  | group :: rest => StaticArgumentsAgree seen bound group ∧ StaticGroupsAgree seen bound rest

def StaticArgumentsAgree (seen : List String) (bound : Scopes) :
    List (Option String × StaticExpr) → Prop
  | [] => True
  | (_, value) :: rest => StaticAgrees seen bound value ∧ StaticArgumentsAgree seen bound rest

end

/-- A name that the code never replaces. -/
def NeverReplaced (bound : List String) (path : List String) (name : String) : Prop :=
  naming.NameAgrees true (startsIn bound path) path name

def LengthAgrees (seen : List String) (bound : Scopes) : USizeConst → Prop
  | .expression expression => naming.StaticAgrees seen bound expression
  | .parameter name => naming.NeverReplaced bound.values [name] name
  | .literal _ => True

mutual

/-- The constructor of an array type is not looked up in any scope. -/
def TypeAgrees (seen : List String) (bound : Scopes) : SourceType → Prop
  | .tuple fields => TypesAgree seen bound fields
  | .borrow _ _ _ pointee => TypeAgrees seen bound pointee
  | .array element _ => TypeAgrees seen bound element
  | .arrayApplication constructor element length =>
    naming.DottedAgrees [] bound.types constructor ∧ TypeAgrees seen bound element ∧
      naming.LengthAgrees seen bound length
  | .function groups effects result =>
    TypeGroupsAgree seen bound groups ∧ EffectsAgree seen bound effects ∧
      TypeAgrees seen bound result
  | .named name arguments =>
    naming.DottedAgrees seen bound.types name ∧ TypesAgree seen bound arguments
  | .namedArgs name arguments =>
    naming.DottedAgrees seen bound.types name ∧ TypeArgumentsAgree seen bound arguments
  | .integer _ | .bool | .unit | .compileUSize _ => True

def TypesAgree (seen : List String) (bound : Scopes) : List SourceType → Prop
  | [] => True
  | ty :: rest => TypeAgrees seen bound ty ∧ TypesAgree seen bound rest

def TypeGroupsAgree (seen : List String) (bound : Scopes) : List (List SourceType) → Prop
  | [] => True
  | group :: rest => TypesAgree seen bound group ∧ TypeGroupsAgree seen bound rest

def TypeArgumentsAgree (seen : List String) (bound : Scopes) : List TypeArg → Prop
  | [] => True
  | .mk _ ty :: rest => TypeAgrees seen bound ty ∧ TypeArgumentsAgree seen bound rest

def EffectsAgree (seen : List String) (bound : Scopes) : FunctionEffects → Prop
  | .mk _ none custom _ => TypesAgree seen bound custom
  | .mk _ (some failure) custom _ => TypeAgrees seen bound failure ∧ TypesAgree seen bound custom

end

def TypeOptionAgrees (seen : List String) (bound : Scopes) : Option SourceType → Prop
  | none => True
  | some ty => naming.TypeAgrees seen bound ty

/-- Sorts within the sort of a constructor are never replaced. -/
def SortAgrees (seen : List String) (bound : Scopes) : CompileSort → Prop
  | .named name => name ∈ builtinSorts ∨ naming.DottedAgrees seen bound.types name
  | .typeConstructor groups | .effectConstructor groups =>
    naming.exactSortGroups bound groups = groups
  | _ => True

mutual

def PatternAgrees (seen : List String) (bound : Scopes) : Pattern → Prop
  | .tuple patterns => PatternsAgree seen bound patterns
  | .constructor path fields =>
    (startsIn seen path = startsIn bound.values path ∨ naming.exactPath path = path) ∧
      PatternFieldsAgree seen bound fields
  | .binding _ | .wildcard | .integer _ | .bool _ => True

def PatternsAgree (seen : List String) (bound : Scopes) : List Pattern → Prop
  | [] => True
  | pattern :: rest => PatternAgrees seen bound pattern ∧ PatternsAgree seen bound rest

def PatternFieldsAgree (seen : List String) (bound : Scopes) : PatternFields → Prop
  | .unit => True
  | .positional patterns => PatternsAgree seen bound patterns
  | .named fields => NamedPatternsAgree seen bound fields

def NamedPatternsAgree (seen : List String) (bound : Scopes) : List PatternField → Prop
  | [] => True
  | ⟨_, pattern⟩ :: rest => PatternAgrees seen bound pattern ∧ NamedPatternsAgree seen bound rest

end

def ParametersAgree (seen : List String) (bound : Scopes) (parameters : List Param) : Prop :=
  ∀ parameter ∈ parameters, naming.TypeAgrees seen bound parameter.ty

/-- A chain of members whose first segment is looked up in the scopes. -/
def ChainAgrees (reading : Reading) (seen bound : Scopes) (segments : List String)
    (expression : Expr) : Prop :=
  startsIn (chainScope reading seen) segments = startsIn (chainScope reading bound) segments ∨
    naming.exactMember reading segments expression = expression

mutual

/-- The code gives a compile-time argument no values, and leaves types in expressions alone. -/
def ExprAgrees (reading : Reading) (seen bound : Scopes) : Expr → Prop
  | .located _ _ _ _ value => ExprAgrees .value seen bound value
  | .name name =>
    match reading with
    | .value => naming.PlainAgrees seen.values bound.values name
    | .compileArgument =>
      name ∈ builtinCompileArguments ∨ naming.PlainAgrees seen.types bound.types name
  | .unary _ operand => ExprAgrees .value seen bound operand
  | .tryExpr operand => ExprAgrees .value seen bound operand
  | .throw operand => ExprAgrees .value seen bound operand
  | .unsafeExpr operand => ExprAgrees .value seen bound operand
  | .borrow _ _ value => ExprAgrees .value seen bound value
  | .doBlock body => ExprAgrees .value seen bound body
  | .async body => ExprAgrees .value seen bound body
  | .await operand => ExprAgrees .value seen bound operand
  | .binary left _ right => ExprAgrees .value seen bound left ∧ ExprAgrees .value seen bound right
  | .coalesce left right => ExprAgrees .value seen bound left ∧ ExprAgrees .value seen bound right
  | .assign place value => ExprAgrees .value seen bound place ∧ ExprAgrees .value seen bound value
  | .compoundAssign place _ value =>
    ExprAgrees .value seen bound place ∧ ExprAgrees .value seen bound value
  | .handlerCoalesce scrutinee payload success fallback =>
    ExprAgrees .value seen bound scrutinee ∧
      ExprAgrees .value (seen.bindValues [payload]) (naming.bindLocals bound [payload]) success ∧
      ExprAgrees .value seen bound fallback
  | .handlerChainCall ⟨scrutinee, payload, error, _, groups, success, residual⟩ =>
    ExprAgrees .value seen bound scrutinee ∧ ArgumentGroupsAgree seen bound groups ∧
      ExprAgrees .value (seen.bindValues [payload]) (naming.bindLocals bound [payload]) success ∧
      ExprAgrees .value (seen.bindValues [error]) (naming.bindLocals bound [error]) residual
  | .call callee arguments =>
    ExprAgrees reading seen bound callee ∧ ArgumentsAgree reading seen bound arguments
  | .structLiteral constructor fields =>
    ExprAgrees .compileArgument ⟨seen.types, []⟩ bound constructor ∧
      ArgumentsAgree .value seen bound fields
  | .member base member =>
    match memberSegments (.member base member) with
    | some segments => naming.ChainAgrees reading seen bound segments (.member base member)
    | none => ExprAgrees reading seen bound base
  | .chainMember base _ => ExprAgrees .value seen bound base
  | .array elements => ExprsAgree seen bound elements
  | .tuple elements => ExprsAgree seen bound elements
  | .index base index => ExprAgrees .value seen bound base ∧ ExprAgrees .value seen bound index
  | .block statements tail =>
    StatementsAgree seen bound statements ∧ OptionalAgrees (seen.bindValues (letNames statements))
        (naming.bindLocals bound (letNames statements)) tail
  | .closure parameters body =>
    naming.ParametersAgree seen.types bound parameters ∧
      ExprAgrees .value (seen.bindValues (parameters.map (·.name)))
        (naming.bindLocals bound (parameters.map (·.name))) body
  | .patternClosure pattern guard body =>
    naming.PatternAgrees seen.values bound pattern ∧
      OptionalAgrees (seen.bindValues (boundNames pattern))
        (naming.bindLocals bound (boundNames pattern)) guard ∧
      ExprAgrees .value (seen.bindValues (boundNames pattern))
        (naming.bindLocals bound (boundNames pattern)) body
  | .ifExpr condition thenBranch elseBranch =>
    ExprAgrees .value seen bound condition ∧ ExprAgrees .value seen bound thenBranch ∧
      OptionalAgrees seen bound elseBranch
  | .returnExpr value => OptionalAgrees seen bound value
  | .breakExpr value => OptionalAgrees seen bound value
  | .whileExpr condition body _ =>
    ExprAgrees .value seen bound condition ∧ ExprAgrees .value seen bound body
  | .loop body => ExprAgrees .value seen bound body
  | .matchExpr scrutinee arms =>
    ExprAgrees .value seen bound scrutinee ∧ MatchArmsAgree seen bound arms
  | .type ty => naming.exactType bound ty = ty
  | .unit | .integer _ | .bool _ | .string _ | .continueExpr => True

def ExprsAgree (seen bound : Scopes) : List Expr → Prop
  | [] => True
  | expression :: rest => ExprAgrees .value seen bound expression ∧ ExprsAgree seen bound rest

def OptionalAgrees (seen bound : Scopes) : Option Expr → Prop
  | none => True
  | some expression => ExprAgrees .value seen bound expression

def ArgumentsAgree (reading : Reading) (seen bound : Scopes) : List CallArg → Prop
  | [] => True
  | ⟨_, value⟩ :: rest =>
    ExprAgrees reading seen bound value ∧ ArgumentsAgree reading seen bound rest

def ArgumentGroupsAgree (seen bound : Scopes) : List (List CallArg) → Prop
  | [] => True
  | group :: rest => ArgumentsAgree .value seen bound group ∧ ArgumentGroupsAgree seen bound rest

def StatementsAgree (seen bound : Scopes) : List Stmt → Prop
  | [] => True
  | .letBinding ⟨_, name, annotation, value⟩ :: rest =>
    naming.TypeOptionAgrees seen.types bound annotation ∧ ExprAgrees .value seen bound value ∧
      StatementsAgree (seen.bindValues [name]) (naming.bindLocals bound [name]) rest
  | .expr expression :: rest =>
    ExprAgrees .value seen bound expression ∧ StatementsAgree seen bound rest

def MatchArmsAgree (seen bound : Scopes) : List MatchArm → Prop
  | [] => True
  | ⟨pattern, guard, body⟩ :: rest =>
    naming.PatternAgrees seen.values bound pattern ∧
      OptionalAgrees (seen.bindValues (boundNames pattern))
        (naming.bindLocals bound (boundNames pattern)) guard ∧
      ExprAgrees .value (seen.bindValues (boundNames pattern))
        (naming.bindLocals bound (boundNames pattern)) body ∧
      MatchArmsAgree seen bound rest

end

/-! ## Items -/

def BindingAgrees (seen bound : Scopes) (binding : Binding) : Prop :=
  naming.TypeOptionAgrees seen.types bound binding.annotation ∧
    naming.ExprAgrees .value seen bound binding.value

def CompileGroupsAgree (seen : List String) (outer : Scopes) (groups : List (List CompileParam)) :
    Prop :=
  ∀ group ∈ groups, ∀ parameter ∈ group, naming.SortAgrees seen outer parameter.kind

def AssociatedBindingAgrees (seen : List String) (outer : Scopes)
    (binding : AssociatedTypeBinding) : Prop :=
  naming.CompileGroupsAgree seen outer binding.compileGroups ∧
    naming.TypeAgrees (compileParameterNames binding.compileGroups seen)
      (outer.bindCompile binding.compileGroups) binding.ty

def PredicateAgrees (seen : List String) (bound : Scopes) (predicate : WherePredicate) : Prop :=
  naming.TypeAgrees seen bound predicate.subject ∧ naming.TypeAgrees seen bound predicate.traitRef ∧
    ∀ binding ∈ predicate.associatedTypes, naming.AssociatedBindingAgrees seen bound binding

def PredicatesAgree (seen : List String) (bound : Scopes) (predicates : List WherePredicate) :
    Prop :=
  ∀ predicate ∈ predicates, naming.PredicateAgrees seen bound predicate

def FieldsAgree (seen : List String) (bound : Scopes) (fields : List Field) : Prop :=
  ∀ field ∈ fields, naming.TypeAgrees seen bound field.ty

def FunctionAgrees (seen : List String) (outer : Scopes) (function : Function) : Prop :=
  let types := compileParameterNames function.compileGroups seen
  let bound := outer.bindCompile function.compileGroups
  naming.CompileGroupsAgree seen outer function.compileGroups ∧
    (∀ group ∈ function.groups, naming.ParametersAgree types bound group) ∧
    naming.TypeOptionAgrees types bound function.returnType ∧
    naming.EffectsAgree types bound function.effects ∧
    naming.PredicatesAgree types bound function.wherePredicates ∧
    naming.OptionalAgrees ⟨types, functionValues function types⟩
      (naming.bindLocals bound (function.groups.flatten.map (·.name))) function.body

def VariantAgrees (seen : List String) (bound : Scopes) (variant : VariantDef) : Prop :=
  match variant.fields with
  | .unit => True
  | .positional fields => naming.TypesAgree seen bound fields
  | .named fields => naming.FieldsAgree seen bound fields

/-- The sorts of the parameters of an associated type are never replaced. -/
def TraitMemberAgrees (seen : List String) (bound : Scopes) : TraitMember → Prop
  | .function function => naming.FunctionAgrees seen bound function
  | .associatedType _ compileGroups default =>
    naming.exactCompileGroups bound compileGroups = compileGroups ∧
      naming.TypeOptionAgrees (compileParameterNames compileGroups seen)
        (bound.bindCompile compileGroups) default

def TraitAgrees (definition : TraitDef) : Prop :=
  let types := compileParameterNames definition.compileGroups [] ++ ["self"] ++
    associatedTypeNames definition.members
  naming.exactCompileParam .empty definition.selfParameter = definition.selfParameter ∧
    naming.CompileGroupsAgree [] .empty definition.compileGroups ∧
    naming.PredicatesAgree types (traitScopes definition) definition.wherePredicates ∧
    ∀ member ∈ definition.members, naming.TraitMemberAgrees types (traitScopes definition) member

def ExtendMemberAgrees (seen : List String) (bound : Scopes) : ExtendMember → Prop
  | .function function => naming.FunctionAgrees seen bound function
  | .const binding => naming.BindingAgrees ⟨seen, seen⟩ bound binding

def ExtendAgrees (extension : ExtendDef) : Prop :=
  let types := compileParameterNames extension.compileGroups []
  let bound := headerScopes extension.compileGroups
  naming.CompileGroupsAgree [] .empty extension.compileGroups ∧
    naming.TypeAgrees types bound extension.target ∧
    naming.TypeOptionAgrees types bound extension.traitRef ∧
    naming.PredicatesAgree types bound extension.wherePredicates ∧
    ∀ member ∈ extension.members,
      naming.ExtendMemberAgrees (types ++ memberNames extension) (extensionScopes extension) member

/-- At each name of the item the code does what the binders around the name ask for. -/
def ItemAgrees : Item → Prop
  | .function function => naming.FunctionAgrees [] .empty function
  | .global binding => naming.BindingAgrees .empty .empty binding
  | .typeAlias definition =>
    naming.CompileGroupsAgree [] .empty definition.compileGroups ∧
      naming.TypeAgrees (compileParameterNames definition.compileGroups [])
        (headerScopes definition.compileGroups) definition.target
  | .struct definition =>
    naming.CompileGroupsAgree [] .empty definition.compileGroups ∧
      naming.FieldsAgree (compileParameterNames definition.compileGroups [])
        (headerScopes definition.compileGroups) definition.fields
  | .enum definition =>
    naming.CompileGroupsAgree [] .empty definition.compileGroups ∧ ∀ variant ∈ definition.variants,
        naming.VariantAgrees (compileParameterNames definition.compileGroups [])
          (headerScopes definition.compileGroups) variant
  | .trait definition => naming.TraitAgrees definition
  | .effect definition =>
    naming.CompileGroupsAgree [] .empty definition.compileGroups ∧
      ∀ operation ∈ definition.operations,
        naming.FunctionAgrees (compileParameterNames definition.compileGroups [])
          (headerScopes definition.compileGroups) operation
  | .sort _ | .typeForm _ => True
  | .extend extension => naming.ExtendAgrees extension

end Naming

end Salicin.Modules
