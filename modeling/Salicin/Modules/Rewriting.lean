import Salicin.Modules.NameLookup

/-!
# Replacing the names in a program

The names that occur in an item are replaced by the canonical names of what they lead to,
unless something around them binds them. Compile-time parameters and local values are kept in
two scopes. What speaks against a name is collected as a diagnostic.
-/

namespace Salicin.Modules

open Salicin.Source

/-- A result, and the diagnostics that were pushed on the way to it. -/
structure Rewriting (Result : Type) where
  value : Result
  diagnostics : List ResolverDiagnostic

namespace Rewriting

variable {Result Next : Type}

def done (val : Result) : Rewriting Result := ⟨val, []⟩

def push (diagnostic : ResolverDiagnostic) : Rewriting Unit := ⟨(), [diagnostic]⟩

protected def bind (first : Rewriting Result) (next : Result → Rewriting Next) : Rewriting Next :=
  ⟨(next first.value).value, first.diagnostics ++ (next first.value).diagnostics⟩

instance : Monad Rewriting where
  pure := done
  bind := Rewriting.bind

@[simp] theorem value_pure (val : Result) : (pure val : Rewriting Result).value = val := rfl

@[simp] theorem value_bind (first : Rewriting Result) (next : Result → Rewriting Next) :
    (first >>= next).value = (next first.value).value := rfl

end Rewriting

/-- `Resolver`, with the tables that only the replacement of names reads. -/
structure NameResolver extends Resolver where
  modulePaths : Finset (List String)
  requiredImports : String → Option String

/-- `name.split('.')`. -/
def splitName (name : String) : List String := (name.toList.splitOn '.').map String.ofList

/-- The two scopes that are threaded through an item. -/
structure Scopes where
  types : List String
  values : List String

def Scopes.bindValues (scopes : Scopes) (names : List String) : Scopes :=
  { scopes with values := scopes.values ++ names }

/-- The first segment of a path is in a scope. -/
def startsIn (scope path : List String) : Bool := path.head?.any (· ∈ scope)

def memberChain (base : Expr) (members : List String) : Expr := members.foldl .member base

/-- What is found for the longest possible part in front of a path, up to a length. -/
def longestPrefix {Found : Type} (find : List String → Option Found) (segments : List String) :
    Nat → Option (Found × Nat)
  | 0 => none
  | length + 1 =>
    match find (segments.take (length + 1)) with
    | some found => some (found, length + 1)
    | none => longestPrefix find segments length

/-- `collect_member_segments`. -/
def memberSegments : Expr → Option (List String)
  | .name name => some [name]
  | .member base member => (memberSegments base).map (· ++ [member])
  | _ => none

/-- The sorts that `rewrite_compile_parameter_types` leaves alone. -/
def builtinSorts : List String :=
  ["bool", "access", "abi", "string", "type", "region", "effect", "effects", "parameters",
    "constraint"]

/-- `compile_argument_name_is_builtin`. -/
def builtinCompileArguments : List String :=
  ["i8", "i16", "i32", "i64", "i128", "isize", "u8", "u16", "u32", "u64", "u128", "usize", "bool",
    "shared", "mut", "copy", "move", "pure", "self"]

mutual

/-- The names that `rewrite_pattern` adds to its bindings. -/
def boundNames : Pattern → List String
  | .tuple patterns => boundNamesOfList patterns
  | .binding name => [name]
  | .constructor _ fields => boundNamesOfFields fields
  | .wildcard | .integer _ | .bool _ => []

def boundNamesOfList : List Pattern → List String
  | [] => []
  | pattern :: rest => boundNames pattern ++ boundNamesOfList rest

def boundNamesOfFields : PatternFields → List String
  | .unit => []
  | .positional patterns => boundNamesOfList patterns
  | .named fields => boundNamesOfNamed fields

def boundNamesOfNamed : List PatternField → List String
  | [] => []
  | ⟨_, pattern⟩ :: rest => boundNames pattern ++ boundNamesOfNamed rest

end

namespace NameResolver

variable (resolver : NameResolver) (ctx : ResolveContext)

def isModule (cand : List String) : Bool :=
  cand ∈ resolver.modulePaths ||
    match resolver.aliases.lookup cand with
    | some ⟨.modulePath _, _, _, _⟩ => true
    | _ => false

/-- The body of the loop of `longest_module_prefix`. -/
def namesModule (path : List String) : Bool :=
  match anchoredCandidates path ctx.modulePath ctx.packageRoot with
  | .error _ => false
  | .ok candidates =>
    candidates.any fun cand =>
      resolver.isModule cand ||
        (expandDependencyCandidate cand ctx.packageRoot resolver.dependencies).any
          resolver.isModule

def longestModulePrefix (segments : List String) : Nat :=
  match longestPrefix (fun path => if resolver.namesModule ctx path then some () else none)
    segments segments.length with
  | some (_, length) => length
  | none => 0

def rejectBareModule (logicalPath : List String) (usage : String) : Rewriting Unit :=
  if !logicalPath.isEmpty && resolver.longestModulePrefix ctx logicalPath = logicalPath.length then
    .push (ctx.diagnostic s!"module `{displayPath logicalPath}` cannot be used as {usage}")
  else .done ()

def rejectUnimportedStandard (logicalPath : List String) : Rewriting Bool :=
  if 0 < resolver.longestModulePrefix ctx logicalPath then .done false
  else
    match logicalPath.head? with
    | none => .done false
    | some name =>
      match resolver.requiredImports name with
      | none => .done false
      | some importPath => do
        Rewriting.push (ctx.diagnostic
          s!"standard-library item `{name}` is not in the prelude; bind it with `let {name} = {importPath}`")
        return true

/-- `resolve_logical_path`, whose diagnostics are pushed. -/
def resolvePath (logicalPath : List String) : Rewriting (Option String) :=
  ⟨(resolver.resolveLogicalPath logicalPath ctx).1, (resolver.resolveLogicalPath logicalPath ctx).2⟩

def resolveLongestPrefixUpTo (segments : List String) : Nat → Rewriting (Option (String × Nat))
  | 0 => .done none
  | length + 1 => do
    match ← resolver.resolvePath ctx (segments.take (length + 1)) with
    | some canonical => return some (canonical, length + 1)
    | none => resolveLongestPrefixUpTo segments length

def resolveLongestPrefix (segments : List String) : Rewriting (Option (String × Nat)) :=
  resolver.resolveLongestPrefixUpTo ctx segments segments.length

/-- What is reported about a path that leads nowhere. -/
def rejectUnknown (logicalPath : List String) (usage : String) : Rewriting Unit := do
  if ← resolver.rejectUnimportedStandard ctx logicalPath then return
  else resolver.rejectBareModule ctx logicalPath usage

/-- The canonical name for a name with the given segments. -/
def renamePath (segments : List String) (usage name : String) : Rewriting String := do
  match ← resolver.resolvePath ctx segments with
  | some canonical => return canonical
  | none => do
    resolver.rejectUnknown ctx segments usage
    return name

/-- The head of a named type. -/
def rewriteTypeName (types : List String) (name : String) : Rewriting String :=
  if startsIn types (splitName name) then return name
  else resolver.renamePath ctx (splitName name) "a type" name

mutual

def rewriteStaticExpression (scope : List String) : StaticExpr → Rewriting StaticExpr
  | .name name =>
    if name ∈ scope then return .name name
    else return .name (← resolver.renamePath ctx [name] "a static value" name)
  | .unary operator operand => return .unary operator (← rewriteStaticExpression scope operand)
  | .binary left operator right => do
    let left ← rewriteStaticExpression scope left
    return .binary left operator (← rewriteStaticExpression scope right)
  | .call function groups => do
    let function ← resolver.renamePath ctx (splitName function) "a ctfe function" function
    return .call function (← rewriteStaticGroups scope groups)
  | .usize val => return .usize val
  | .bool val => return .bool val

def rewriteStaticGroups (scope : List String) :
    List (List (Option String × StaticExpr)) → Rewriting (List (List (Option String × StaticExpr)))
  | [] => return []
  | group :: rest => do
    let group ← rewriteStaticArguments scope group
    return group :: (← rewriteStaticGroups scope rest)

def rewriteStaticArguments (scope : List String) :
    List (Option String × StaticExpr) → Rewriting (List (Option String × StaticExpr))
  | [] => return []
  | (label, val) :: rest => do
    let val ← rewriteStaticExpression scope val
    return (label, val) :: (← rewriteStaticArguments scope rest)

end

def rewriteLength (scope : List String) : USizeConst → Rewriting USizeConst
  | .expression expression =>
    return .expression (← resolver.rewriteStaticExpression ctx scope expression)
  | .literal val => return .literal val
  | .parameter name => return .parameter name

mutual

def rewriteType (types : List String) : SourceType → Rewriting SourceType
  | .tuple fields => return .tuple (← rewriteTypes types fields)
  | .borrow mutable access region pointee =>
    return .borrow mutable access region (← rewriteType types pointee)
  | .array element length => return .array (← rewriteType types element) length
  | .arrayApplication constructor element length => do
    let element ← rewriteType types element
    let length ← resolver.rewriteLength ctx types length
    let constructor ← resolver.renamePath ctx (splitName constructor)
      "an array type constructor" constructor
    return .arrayApplication constructor element length
  | .function groups effects result => do
    let groups ← rewriteTypeGroups types groups
    let effects ← rewriteEffects types effects
    return .function groups effects (← rewriteType types result)
  | .named name arguments => do
    let arguments ← rewriteTypes types arguments
    return .named (← resolver.rewriteTypeName ctx types name) arguments
  | .namedArgs name arguments => do
    let arguments ← rewriteTypeArguments types arguments
    return .namedArgs (← resolver.rewriteTypeName ctx types name) arguments
  | .integer kind => return .integer kind
  | .bool => return .bool
  | .unit => return .unit
  | .compileUSize val => return .compileUSize val

def rewriteTypes (types : List String) : List SourceType → Rewriting (List SourceType)
  | [] => return []
  | ty :: rest => do
    let ty ← rewriteType types ty
    return ty :: (← rewriteTypes types rest)

def rewriteTypeGroups (types : List String) :
    List (List SourceType) → Rewriting (List (List SourceType))
  | [] => return []
  | group :: rest => do
    let group ← rewriteTypes types group
    return group :: (← rewriteTypeGroups types rest)

def rewriteTypeArguments (types : List String) : List TypeArg → Rewriting (List TypeArg)
  | [] => return []
  | .mk label ty :: rest => do
    let ty ← rewriteType types ty
    return .mk label ty :: (← rewriteTypeArguments types rest)

/-- The failure type and the custom effects. -/
def rewriteEffects (types : List String) : FunctionEffects → Rewriting FunctionEffects
  | .mk unsafety none custom parameters =>
    return .mk unsafety none (← rewriteTypes types custom) parameters
  | .mk unsafety (some failure) custom parameters => do
    let failure ← rewriteType types failure
    return .mk unsafety (some failure) (← rewriteTypes types custom) parameters

end

/-- The path of a constructor in a pattern. -/
def rewriteConstructorPath (values path : List String) : Rewriting (List String) := do
  if startsIn values path then return path
  else
    match ← resolver.resolveLongestPrefix ctx path with
    | some (canonical, consumed) => return canonical :: path.drop consumed
    | none => do
      resolver.rejectUnknown ctx path "a constructor"
      return path

mutual

def rewritePattern (values : List String) : Pattern → Rewriting Pattern
  | .tuple patterns => return .tuple (← rewritePatterns values patterns)
  | .binding name => return .binding name
  | .constructor path fields => do
    let path ← resolver.rewriteConstructorPath ctx values path
    return .constructor path (← rewritePatternFields values fields)
  | .wildcard => return .wildcard
  | .integer pattern => return .integer pattern
  | .bool val => return .bool val

def rewritePatterns (values : List String) : List Pattern → Rewriting (List Pattern)
  | [] => return []
  | pattern :: rest => do
    let pattern ← rewritePattern values pattern
    return pattern :: (← rewritePatterns values rest)

def rewritePatternFields (values : List String) : PatternFields → Rewriting PatternFields
  | .unit => return .unit
  | .positional patterns => return .positional (← rewritePatterns values patterns)
  | .named fields => return .named (← rewriteNamedPatterns values fields)

def rewriteNamedPatterns (values : List String) : List PatternField → Rewriting (List PatternField)
  | [] => return []
  | ⟨name, pattern⟩ :: rest => do
    let pattern ← rewritePattern values pattern
    return ⟨name, pattern⟩ :: (← rewriteNamedPatterns values rest)

end

/-- `rewrite_member_chain` up to its fallback, which is the rewriting of the base. -/
def rewriteMemberChain (values : List String) (expression : Expr) : Rewriting (Option Expr) := do
  match memberSegments expression with
  | none => return none
  | some segments =>
    if startsIn values segments then return none
    else
      match ← resolver.resolveLongestPrefix ctx segments with
      | some (canonical, consumed) =>
        return some (memberChain (.name canonical) (segments.drop consumed))
      | none => do
        if ← resolver.rejectUnimportedStandard ctx segments then return some expression
        else
          let modulePrefix := resolver.longestModulePrefix ctx segments
          if 0 < modulePrefix then
            if modulePrefix = segments.length then
              resolver.rejectBareModule ctx segments "a value or callable"
            return some (.name (".".intercalate segments))
          else return none

/-- `rewrite_compile_argument_member_chain` up to its fallback. -/
def rewriteCompileArgumentMemberChain (types : List String) (expression : Expr) :
    Rewriting (Option Expr) := do
  match memberSegments expression with
  | none => return none
  | some segments =>
    if startsIn types segments then return none
    else
      match ← resolver.resolveLongestPrefix ctx segments with
      | some (canonical, consumed) =>
        return some (memberChain (.name canonical) (segments.drop consumed))
      | none => do
        resolver.rejectUnknown ctx segments "a type or compile-time argument"
        return some expression

def rewriteName (values : List String) (name : String) : Rewriting String :=
  if name ∈ values then return name
  else resolver.renamePath ctx [name] "a value or callable" name

def rewriteCompileArgumentName (types : List String) (name : String) : Rewriting String :=
  if name ∈ types ∨ name ∈ builtinCompileArguments then return name
  else resolver.renamePath ctx [name] "a type or compile-time argument" name

def rewriteParameter (types : List String) (parameter : Param) : Rewriting Param := do
  let ty ← resolver.rewriteType ctx types parameter.ty
  return { parameter with ty := ty }

def rewriteParameters (types : List String) : List Param → Rewriting (List Param)
  | [] => return []
  | parameter :: rest => do
    let parameter ← resolver.rewriteParameter ctx types parameter
    return parameter :: (← rewriteParameters types rest)

def rewriteTypeOption (types : List String) : Option SourceType → Rewriting (Option SourceType)
  | none => return none
  | some annotation => return some (← resolver.rewriteType ctx types annotation)

end NameResolver

/-- How an expression is read: `rewrite_compile_argument_expr` falls back on `rewrite_expr` at
the same expression, with no value in scope. -/
inductive Reading
  | value
  | compileArgument

/-- The names that the bindings of a block put in scope. -/
def letNames (statements : List Stmt) : List String :=
  statements.filterMap fun statement =>
    match statement with
    | .letBinding binding => some binding.name
    | .expr _ => none

namespace NameResolver

variable (resolver : NameResolver) (ctx : ResolveContext)

mutual

/-- `rewrite_expr`, and `rewrite_compile_argument_expr` with scopes that hold no values. -/
def rewriteExpr (reading : Reading) (scopes : Scopes) : Expr → Rewriting Expr
  | .located line column endLine endColumn val =>
    return .located line column endLine endColumn (← rewriteExpr .value scopes val)
  | .name name =>
    match reading with
    | .value => return .name (← resolver.rewriteName ctx scopes.values name)
    | .compileArgument =>
      return .name (← resolver.rewriteCompileArgumentName ctx scopes.types name)
  | .unary operator operand => return .unary operator (← rewriteExpr .value scopes operand)
  | .tryExpr operand => return .tryExpr (← rewriteExpr .value scopes operand)
  | .throw operand => return .throw (← rewriteExpr .value scopes operand)
  | .unsafeExpr operand => return .unsafeExpr (← rewriteExpr .value scopes operand)
  | .borrow mutable access val =>
    return .borrow mutable access (← rewriteExpr .value scopes val)
  | .doBlock body => return .doBlock (← rewriteExpr .value scopes body)
  | .async body => return .async (← rewriteExpr .value scopes body)
  | .await operand => return .await (← rewriteExpr .value scopes operand)
  | .binary left operator right => do
    let left ← rewriteExpr .value scopes left
    return .binary left operator (← rewriteExpr .value scopes right)
  | .coalesce left right => do
    let left ← rewriteExpr .value scopes left
    return .coalesce left (← rewriteExpr .value scopes right)
  | .assign place val => do
    let place ← rewriteExpr .value scopes place
    return .assign place (← rewriteExpr .value scopes val)
  | .compoundAssign place operator val => do
    let place ← rewriteExpr .value scopes place
    return .compoundAssign place operator (← rewriteExpr .value scopes val)
  | .handlerCoalesce scrutinee payload success fallback => do
    let scrutinee ← rewriteExpr .value scopes scrutinee
    let success ← rewriteExpr .value (scopes.bindValues [payload]) success
    return .handlerCoalesce scrutinee payload success (← rewriteExpr .value scopes fallback)
  | .handlerChainCall ⟨scrutinee, payload, error, member, groups, success, residual⟩ => do
    let scrutinee ← rewriteExpr .value scopes scrutinee
    let groups ← rewriteArgumentGroups scopes groups
    let success ← rewriteExpr .value (scopes.bindValues [payload]) success
    let residual ← rewriteExpr .value (scopes.bindValues [error]) residual
    return .handlerChainCall ⟨scrutinee, payload, error, member, groups, success, residual⟩
  | .call callee arguments => do
    let callee ← rewriteExpr reading scopes callee
    return .call callee (← rewriteArguments reading scopes arguments)
  | .structLiteral constructor fields => do
    let constructor ← rewriteExpr .compileArgument ⟨scopes.types, []⟩ constructor
    return .structLiteral constructor (← rewriteArguments .value scopes fields)
  | .member base member => do
    let chain ←
      match reading with
      | .value => resolver.rewriteMemberChain ctx scopes.values (.member base member)
      | .compileArgument =>
        resolver.rewriteCompileArgumentMemberChain ctx scopes.types (.member base member)
    match chain with
    | some expression => return expression
    | none => return .member (← rewriteExpr reading scopes base) member
  | .chainMember base member => return .chainMember (← rewriteExpr .value scopes base) member
  | .array elements => return .array (← rewriteExprs scopes elements)
  | .tuple elements => return .tuple (← rewriteExprs scopes elements)
  | .index base index => do
    let base ← rewriteExpr .value scopes base
    return .index base (← rewriteExpr .value scopes index)
  | .block statements tail => do
    let rewritten ← rewriteStatements scopes statements
    return .block rewritten (← rewriteOptional (scopes.bindValues (letNames statements)) tail)
  | .closure parameters body => do
    let rewritten ← resolver.rewriteParameters ctx scopes.types parameters
    return .closure rewritten
      (← rewriteExpr .value (scopes.bindValues (parameters.map (·.name))) body)
  | .patternClosure pattern guard body => do
    let rewritten ← resolver.rewritePattern ctx scopes.values pattern
    let guard ← rewriteOptional (scopes.bindValues (boundNames pattern)) guard
    return .patternClosure rewritten guard
      (← rewriteExpr .value (scopes.bindValues (boundNames pattern)) body)
  | .ifExpr condition thenBranch elseBranch => do
    let condition ← rewriteExpr .value scopes condition
    let thenBranch ← rewriteExpr .value scopes thenBranch
    return .ifExpr condition thenBranch (← rewriteOptional scopes elseBranch)
  | .returnExpr val => return .returnExpr (← rewriteOptional scopes val)
  | .breakExpr val => return .breakExpr (← rewriteOptional scopes val)
  | .whileExpr condition body postTest => do
    let condition ← rewriteExpr .value scopes condition
    return .whileExpr condition (← rewriteExpr .value scopes body) postTest
  | .loop body => return .loop (← rewriteExpr .value scopes body)
  | .matchExpr scrutinee arms => do
    let scrutinee ← rewriteExpr .value scopes scrutinee
    return .matchExpr scrutinee (← rewriteMatchArms scopes arms)
  | .type ty => return .type ty
  | .unit => return .unit
  | .integer val => return .integer val
  | .bool val => return .bool val
  | .string val => return .string val
  | .continueExpr => return .continueExpr

def rewriteExprs (scopes : Scopes) : List Expr → Rewriting (List Expr)
  | [] => return []
  | expression :: rest => do
    let expression ← rewriteExpr .value scopes expression
    return expression :: (← rewriteExprs scopes rest)

def rewriteOptional (scopes : Scopes) : Option Expr → Rewriting (Option Expr)
  | none => return none
  | some expression => return some (← rewriteExpr .value scopes expression)

def rewriteArguments (reading : Reading) (scopes : Scopes) :
    List CallArg → Rewriting (List CallArg)
  | [] => return []
  | ⟨label, val⟩ :: rest => do
    let val ← rewriteExpr reading scopes val
    return ⟨label, val⟩ :: (← rewriteArguments reading scopes rest)

def rewriteArgumentGroups (scopes : Scopes) : List (List CallArg) → Rewriting (List (List CallArg))
  | [] => return []
  | group :: rest => do
    let group ← rewriteArguments .value scopes group
    return group :: (← rewriteArgumentGroups scopes rest)

/-- The statements of a block; each binding is in scope from the next statement on. -/
def rewriteStatements (scopes : Scopes) : List Stmt → Rewriting (List Stmt)
  | [] => return []
  | .letBinding ⟨mutable, name, annotation, val⟩ :: rest => do
    let annotation ← resolver.rewriteTypeOption ctx scopes.types annotation
    let val ← rewriteExpr .value scopes val
    return .letBinding ⟨mutable, name, annotation, val⟩ ::
      (← rewriteStatements (scopes.bindValues [name]) rest)
  | .expr expression :: rest => do
    let expression ← rewriteExpr .value scopes expression
    return .expr expression :: (← rewriteStatements scopes rest)

/-- `rewrite_match_arm` for each of the arms. -/
def rewriteMatchArms (scopes : Scopes) : List MatchArm → Rewriting (List MatchArm)
  | [] => return []
  | ⟨pattern, guard, body⟩ :: rest => do
    let rewritten ← resolver.rewritePattern ctx scopes.values pattern
    let guard ← rewriteOptional (scopes.bindValues (boundNames pattern)) guard
    let body ← rewriteExpr .value (scopes.bindValues (boundNames pattern)) body
    return ⟨rewritten, guard, body⟩ :: (← rewriteMatchArms scopes rest)

end

def rewriteBinding (scopes : Scopes) (binding : Binding) : Rewriting Binding := do
  let annotation ← resolver.rewriteTypeOption ctx scopes.types binding.annotation
  let val ← resolver.rewriteExpr ctx .value scopes binding.value
  return { binding with annotation := annotation, value := val }

end NameResolver

end Salicin.Modules
