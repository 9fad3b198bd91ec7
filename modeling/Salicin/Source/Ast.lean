import Salicin.Source.Types

/-!
# The surface syntax of declarations

Declarations as the parser builds them, as far as module resolution and the checks on
declarations read them.
-/

/-!
## The surface syntax of expressions

Patterns and expressions as the parser builds them, and the forms that later passes put in
their place.
-/

namespace Salicin.Source

structure IntegerPattern where
  magnitude : Nat
  negative : Bool

mutual

inductive Pattern
  | wildcard
  | integer (pattern : IntegerPattern)
  | bool (value : Bool)
  | binding (name : String)
  | tuple (patterns : List Pattern)
  | constructor (path : List String) (fields : PatternFields)

inductive PatternFields
  | unit
  | positional (patterns : List Pattern)
  | named (fields : List PatternField)

structure PatternField where
  name : String
  pattern : Pattern

end

mutual

/-- `Expr`. A constructor whose name is a word of Lean has `Expr` after it. -/
inductive Expr
  | located (line column endLine endColumn : Nat) (value : Expr)
  | unit
  | tuple (elements : List Expr)
  | type (ty : SourceType)
  | integer (value : Nat)
  | bool (value : Bool)
  | string (value : String)
  | name (name : String)
  | unary (operator : UnaryOp) (operand : Expr)
  | borrow (mutable : Bool) (access : Option String) (value : Expr)
  | binary (left : Expr) (operator : BinaryOp) (right : Expr)
  | coalesce (left right : Expr)
  | handlerCoalesce (scrutinee : Expr) (payload : String) (success fallback : Expr)
  | handlerChainCall (chain : HandlerChainCall)
  | tryExpr (operand : Expr)
  | doBlock (body : Expr)
  | async (body : Expr)
  | await (operand : Expr)
  | throw (operand : Expr)
  | assign (place value : Expr)
  | compoundAssign (place : Expr) (operator : BinaryOp) (value : Expr)
  | call (callee : Expr) (arguments : List CallArg)
  | structLiteral (constructor : Expr) (fields : List CallArg)
  | member (base : Expr) (member : String)
  | chainMember (base : Expr) (member : String)
  | array (elements : List Expr)
  | index (base index : Expr)
  | block (statements : List Stmt) (tail : Option Expr)
  | unsafeExpr (operand : Expr)
  | closure (parameters : List Param) (body : Expr)
  | patternClosure (pattern : Pattern) (guard : Option Expr) (body : Expr)
  | ifExpr (condition thenBranch : Expr) (elseBranch : Option Expr)
  | returnExpr (value : Option Expr)
  | whileExpr (condition body : Expr) (postTest : Bool)
  | loop (body : Expr)
  | breakExpr (value : Option Expr)
  | continueExpr
  | matchExpr (scrutinee : Expr) (arms : List MatchArm)

inductive Stmt
  | letBinding (binding : Binding)
  | expr (expression : Expr)

structure Binding where
  mutable : Bool
  name : String
  annotation : Option SourceType
  value : Expr

structure CallArg where
  label : Option String
  value : Expr

structure MatchArm where
  pattern : Pattern
  guard : Option Expr
  body : Expr

structure HandlerChainCall where
  scrutinee : Expr
  payload : String
  error : String
  member : String
  groups : List (List CallArg)
  success : Expr
  residual : Expr

end

end Salicin.Source

namespace Salicin.Source

structure AssociatedTypeBinding where
  name : String
  compileGroups : List (List CompileParam)
  ty : SourceType

structure WherePredicate where
  subject : SourceType
  traitRef : SourceType
  associatedTypes : List AssociatedTypeBinding

structure Function where
  name : String
  /-- The whole initializer is the marker `builtin()`. -/
  builtin : Bool
  compileGroups : List (List CompileParam)
  groups : List (List Param)
  returnType : Option SourceType
  effects : FunctionEffects
  wherePredicates : List WherePredicate
  body : Option Expr := none

structure Field where
  visibility : Visibility
  name : String
  ty : SourceType

structure StructDef where
  name : String
  compileGroups : List (List CompileParam)
  fields : List Field

inductive VariantFields
  | unit
  | positional (types : List SourceType)
  | named (fields : List Field)

structure VariantDef where
  name : String
  fields : VariantFields

structure EnumDef where
  name : String
  compileGroups : List (List CompileParam)
  variants : List VariantDef

structure EffectDef where
  name : String
  compileGroups : List (List CompileParam)
  operations : List Function

structure SortDef where
  name : String
  level : Nat
  members : Option (List String)

structure TypeFormDef where
  name : String
  compileGroups : List (List CompileParam)
  values : List String
  builtin : Bool

structure TypeAliasDef where
  name : String
  compileGroups : List (List CompileParam)
  target : SourceType

inductive TraitMember
  | function (function : Function)
  | associatedType (name : String) (compileGroups : List (List CompileParam))
      (default : Option SourceType)

structure TraitDef where
  name : String
  selfParameter : CompileParam
  compileGroups : List (List CompileParam)
  wherePredicates : List WherePredicate
  members : List TraitMember

inductive ExtendMember
  | function (function : Function)
  | const (binding : Binding)

structure ExtendDef where
  compileGroups : List (List CompileParam)
  target : SourceType
  traitRef : Option SourceType
  wherePredicates : List WherePredicate
  members : List ExtendMember

inductive Item
  | function (function : Function)
  | global (binding : Binding)
  | struct (definition : StructDef)
  | enum (definition : EnumDef)
  | effect (definition : EffectDef)
  | sort (definition : SortDef)
  | typeForm (definition : TypeFormDef)
  | typeAlias (definition : TypeAliasDef)
  | trait (definition : TraitDef)
  | extend (definition : ExtendDef)

/-- One element of `Program::items` with its visibility and its origin. -/
structure DeclaredItem where
  item : Item
  visibility : Visibility
  origin : ItemOrigin

end Salicin.Source
