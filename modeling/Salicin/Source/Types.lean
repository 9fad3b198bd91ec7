import Salicin.Codegen.Layout

/-!
# The surface syntax of types

Types and effects as the parser builds them, and the compile-time expressions in them.
-/

namespace Salicin.Source

open Salicin.Codegen (IntegerTy PassMode)

/-- `SourceLocation`. -/
structure SourceLocation where
  path : Option String
  line : Nat
  column : Nat
  endLine : Nat
  endColumn : Nat
  deriving DecidableEq

/-- `ItemOrigin`: the package and module a declaration was written in. -/
structure ItemOrigin where
  package : Nat
  modulePath : List String
  source : Option SourceLocation

inductive Visibility
  | priv
  | package
  | pub
  deriving DecidableEq

inductive SortLevel
  | literal (level : Nat)
  | parameter (name : String)

/-- `Sort`: the classifier of a compile-time value. -/
inductive CompileSort
  | universeAt (level : SortLevel)
  | type
  | usize
  | region
  | effect
  | effects
  | parameters
  | fragment (kind : String)
  | parameterPack
  | parameterModifier
  | typeConstructor (parameterGroups : List (List CompileSort))
  | effectConstructor (parameterGroups : List (List CompileSort))
  | named (name : String)

inductive CompileParamDefault
  | name (name : String)
  | region (name : String)

structure CompileParam where
  name : String
  kind : CompileSort
  default : Option CompileParamDefault

inductive UnaryOp
  | neg | not | deref

inductive BinaryOp
  | add | sub | mul | div | rem | bitAnd | bitOr | bitXor | shl | shr
  | eq | ne | lt | le | gt | ge | and | or

/-- `StaticExpr`, with the labels of call arguments beside their values. -/
inductive StaticExpr
  | usize (value : Nat)
  | bool (value : Bool)
  | name (name : String)
  | unary (operator : UnaryOp) (operand : StaticExpr)
  | binary (left : StaticExpr) (operator : BinaryOp) (right : StaticExpr)
  | call (function : String) (groups : List (List (Option String × StaticExpr)))

inductive USizeConst
  | literal (value : Nat)
  | parameter (name : String)
  | expression (expression : StaticExpr)

mutual

/-- `Type`: a type as it is written. -/
inductive SourceType
  | integer (kind : IntegerTy)
  | bool
  | unit
  | tuple (fields : List SourceType)
  | borrow (mutable : Bool) (access region : Option String) (pointee : SourceType)
  | array (element : SourceType) (length : Nat)
  | arrayApplication (constructor : String) (element : SourceType) (length : USizeConst)
  | compileUSize (value : Nat)
  | function (groups : List (List SourceType)) (effects : FunctionEffects) (result : SourceType)
  | named (name : String) (arguments : List SourceType)
  | namedArgs (name : String) (arguments : List TypeArg)

/-- `FunctionEffects`: the unsafe marker, the failure type, the nominal effects and the
effect-row parameters. -/
inductive FunctionEffects
  | mk (unsafety : Bool) (failure : Option SourceType) (custom : List SourceType)
      (parameters : List String)

/-- `TypeArg`. -/
inductive TypeArg
  | mk (label : Option String) (ty : SourceType)

end

namespace FunctionEffects

def unsafety : FunctionEffects → Bool
  | mk unsafety _ _ _ => unsafety

def failure : FunctionEffects → Option SourceType
  | mk _ failure _ _ => failure

def custom : FunctionEffects → List SourceType
  | mk _ _ custom _ => custom

def parameters : FunctionEffects → List String
  | mk _ _ _ parameters => parameters

/-- `FunctionEffects::default`: no effect at all. -/
def pure : FunctionEffects := mk false none [] []

end FunctionEffects

namespace TypeArg

def label : TypeArg → Option String
  | mk label _ => label

def ty : TypeArg → SourceType
  | mk _ ty => ty

end TypeArg

structure Param where
  mode : PassMode
  access : Option String
  modifiers : List String
  region : Option String
  name : String
  ty : SourceType

end Salicin.Source
