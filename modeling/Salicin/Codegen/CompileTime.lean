import Salicin.Foundation.BracketedArguments
import Salicin.Source.Types
import Mathlib.Data.String.Basic

/-!
# Compile-time values as source types

An effect application is named by a string, its identity. Effect rows and the values of closed
types travel as markers, which are names that no source can spell. The derived `Debug` text of
a type is a parameter.
-/

namespace Salicin.Codegen.CompileTime

open Salicin.Source Brackets

/-! ## Markers -/

def accessSharedMarker : String := "$access$shared"

def accessMutMarker : String := "$access$mut"

def effectPureMarker : String := "$effect$pure"

def effectUnsafeMarker : String := "$effect$unsafe"

def effectRowMarkerStart : String := "$effect$row$"

def typeConstructorMarkerStart : String := "$type$constructor$"

def closedValueMarkerStart : String := "$closed$value$"

/-- What comes after the start of a text. -/
def stripStart (start text : String) : Option String :=
  (start.toList.isPrefixOf? text.toList).map String.ofList

/-- `split_once`: what is before and after the first separator. -/
def splitOnce (separator : Char) : List Char → Option (List Char × List Char)
  | [] => none
  | char :: rest =>
    if char = separator then some ([], rest)
    else (splitOnce separator rest).map fun parts => (char :: parts.1, parts.2)

/-- The decimal digits of a number, with an optional sign before them. A number that does not
fit the width is longer than any text it could be the length of. -/
def parseLength (text : List Char) : Option Nat :=
  let digits := if text.head? = some '+' then text.tail else text
  if digits ≠ [] ∧ digits.all Char.isDigit then some (Nat.ofDigitChars 10 digits 0) else none

/-- The text up to a number of bytes and the rest, if a character ends there. -/
def splitBytes : Nat → List Char → Option (List Char × List Char)
  | bytes, [] => if bytes = 0 then some ([], []) else none
  | bytes, char :: rest =>
    if bytes = 0 then some ([], char :: rest)
    else if char.utf8Size ≤ bytes then
      (splitBytes (bytes - char.utf8Size) rest).map fun parts => (char :: parts.1, parts.2)
    else none

def closedValueMarker (owner member : String) : String :=
  if owner = "access" ∧ member = "shared" then accessSharedMarker
  else if owner = "access" ∧ member = "mut" then accessMutMarker
  else closedValueMarkerStart ++ toString owner.utf8ByteSize ++ ":" ++ owner ++ member

def closedValueFromMarker (marker : String) : Option (String × String) :=
  if marker = accessSharedMarker then some ("access", "shared")
  else if marker = accessMutMarker then some ("access", "mut")
  else do
    let encoded ← stripStart closedValueMarkerStart marker
    let (length, value) ← splitOnce ':' encoded.toList
    let bytes ← parseLength length
    let (owner, member) ← splitBytes bytes value
    return (String.ofList owner, String.ofList member)

/-- `sort` and `dedup`. -/
def normalizeIdentities (identities : List String) : List String :=
  (identities.mergeSort (· ≤ ·)).dedup

def effectRowMarker (unsafety : Bool) (custom : List String) : String :=
  effectRowMarkerStart ++ (if unsafety then "unsafe" else "pure") ++ "|" ++
    "|".intercalate (normalizeIdentities custom)

def effectRowFromMarker (marker : String) : Option (Bool × List String) :=
  if marker = effectPureMarker then some (false, [])
  else if marker = effectUnsafeMarker then some (true, [])
  else do
    let row ← stripStart effectRowMarkerStart marker
    let (head, tail) ← splitOnce '|' row.toList
    let unsafety ← if head = "pure".toList then some false
      else if head = "unsafe".toList then some true else none
    let custom := if tail = [] then [] else (tail.splitOn '|').map String.ofList
    return (unsafety, custom)

def effectRowSource (unsafety : Bool) (failureError : Option SourceType)
    (customEffects : List String) : SourceType :=
  .named (effectRowMarker unsafety customEffects) failureError.toList

def effectRowFromSource : SourceType → Option (Bool × Option SourceType × List String)
  | .named marker args =>
    match effectRowFromMarker marker, args with
    | some (unsafety, custom), [] => some (unsafety, none, custom)
    | some (unsafety, custom), [error] => some (unsafety, some error, custom)
    | _, _ => none
  | _ => none

def effectRowIsSingleton (effects : FunctionEffects) : Bool :=
  effects.parameters.isEmpty &&
    effects.unsafety.toNat + effects.failure.isSome.toNat + effects.custom.length == 1

def typeConstructorFromMarker (marker : String) : Option String :=
  stripStart typeConstructorMarkerStart marker

/-! ## The identity of an effect -/

def integerName : IntegerTy → String
  | .i8 => "i8"
  | .i16 => "i16"
  | .i32 => "i32"
  | .i64 => "i64"
  | .i128 => "i128"
  | .isize => "isize"
  | .u8 => "u8"
  | .u16 => "u16"
  | .u32 => "u32"
  | .u64 => "u64"
  | .u128 => "u128"
  | .usize => "usize"

def unaryText : Source.UnaryOp → String
  | .neg => "-"
  | .not => "!"
  | .deref => "*"

/-- The `Debug` text of an operator is its name. -/
def binaryDebug : Source.BinaryOp → String
  | .add => "Add" | .sub => "Sub" | .mul => "Mul" | .div => "Div" | .rem => "Rem"
  | .bitAnd => "BitAnd" | .bitOr => "BitOr" | .bitXor => "BitXor" | .shl => "Shl" | .shr => "Shr"
  | .eq => "Eq" | .ne => "Ne" | .lt => "Lt" | .le => "Le" | .gt => "Gt" | .ge => "Ge"
  | .and => "And" | .or => "Or"

mutual

def renderStaticExpression : StaticExpr → String
  | .usize value => toString value
  | .bool value => toString value
  | .name name => name
  | .unary operator operand => unaryText operator ++ renderStaticExpression operand
  | .binary left operator right =>
    "(" ++ renderStaticExpression left ++ " " ++ binaryDebug operator ++ " " ++
      renderStaticExpression right ++ ")"
  | .call function groups => function ++ renderStaticGroups groups

def renderStaticGroups : List (List (Option String × StaticExpr)) → String
  | [] => ""
  | group :: rest =>
    "(" ++ ", ".intercalate (renderStaticArguments group) ++ ")" ++ renderStaticGroups rest

def renderStaticArguments : List (Option String × StaticExpr) → List String
  | [] => []
  | (label, value) :: rest =>
    (match label with
      | some label => label ++ ": " ++ renderStaticExpression value
      | none => renderStaticExpression value) :: renderStaticArguments rest

end

def renderLength : USizeConst → String
  | .literal value => toString value
  | .parameter name => name
  | .expression expression => renderStaticExpression expression

section

variable (debug : SourceType → String)

mutual

def sourceEffectIdentity : SourceType → String
  | .integer kind => integerName kind
  | .bool => "bool"
  | .unit => "()"
  | .tuple fields =>
    "(" ++ ", ".intercalate (sourceEffectIdentityList fields) ++
      (if fields.length = 1 then "," else "") ++ ")"
  | .compileUSize value => toString value
  | .arrayApplication constructor element length =>
    constructor ++ "(" ++ sourceEffectIdentity element ++ ")(" ++ renderLength length ++ ")"
  | .named name [] => name
  | .named name (arg :: rest) =>
    name ++ "(" ++ ", ".intercalate
      (sourceEffectIdentity arg :: sourceEffectIdentityList rest) ++ ")"
  | .namedArgs name args =>
    name ++ "(" ++ ", ".intercalate (argumentIdentityList args) ++ ")"
  | effect@(.borrow ..) => debug effect
  | effect@(.array ..) => debug effect
  | effect@(.function ..) => debug effect

def sourceEffectIdentityList : List SourceType → List String
  | [] => []
  | effect :: rest => sourceEffectIdentity effect :: sourceEffectIdentityList rest

def argumentIdentity : TypeArg → String
  | .mk (some label) ty => label ++ ": " ++ sourceEffectIdentity ty
  | .mk none ty => sourceEffectIdentity ty

def argumentIdentityList : List TypeArg → List String
  | [] => []
  | arg :: rest => argumentIdentity arg :: argumentIdentityList rest

end

def sourceEffectIdentities (effects : List SourceType) : List String :=
  normalizeIdentities (effects.map (sourceEffectIdentity debug))

end

/-! ## Reading an identity -/

/-- The spellings of the primitive types. -/
def primitives : List (String × SourceType) :=
  [("i8", .integer .i8), ("i16", .integer .i16), ("i32", .integer .i32), ("i64", .integer .i64),
    ("i128", .integer .i128), ("isize", .integer .isize), ("u8", .integer .u8),
    ("u16", .integer .u16), ("u32", .integer .u32), ("u64", .integer .u64),
    ("u128", .integer .u128), ("usize", .integer .usize), ("bool", .bool), ("()", .unit)]

def primitiveFromIdentity (identity : List Char) : Option SourceType :=
  (primitives.find? fun entry => entry.1.toList = identity).map Prod.snd

def splitTopLevelArguments (args : List Char) : Option (List (List Char)) :=
  if trim args = [] then some [] else splitCommas args 0 []

/-- `source_type_from_identity`, with fuel for the length of the identity. -/
def readIdentity : Nat → List Char → Option SourceType
  | 0, _ => none
  | fuel + 1, identity =>
    match primitiveFromIdentity identity with
    | some primitive => some primitive
    | none =>
      match callOpen identity with
      | none => some (.named (String.ofList identity) [])
      | some opened =>
        match splitTopLevelArguments (identity.drop (opened + 1)).dropLast with
        | none => none
        | some pieces =>
          (pieces.mapM (readIdentity fuel)).map fun args =>
            .named (String.ofList (identity.take opened)) args

def sourceTypeFromIdentity (identity : String) : Option SourceType :=
  readIdentity (identity.length + 1) identity.toList

def effectIdentitySources (effects : List String) : List SourceType :=
  effects.map fun effect => (sourceTypeFromIdentity effect).getD (.named effect [])

/-! ## Static values -/

inductive StaticValue
  | type (source : SourceType)
  | usize (value : Nat)
  | region (name : String)
  | effect (effects : FunctionEffects)
  | effects (effects : FunctionEffects)
  | parameterSchema (groups : List (List Param))
  | typeConstructor (name : String) (sort : CompileSort)
  | effectConstructor (name : String) (sort : CompileSort)
  | finite (sort member : String)
  | symbolic (name : String) (sort : CompileSort)

def StaticValue.sort : StaticValue → CompileSort
  | .type _ => .type
  | .usize _ => .usize
  | .region _ => .region
  | .effect _ => .effect
  | .effects _ => .effects
  | .parameterSchema _ => .parameters
  | .typeConstructor _ sort | .effectConstructor _ sort | .symbolic _ sort => sort
  | .finite sort _ => .named sort

/-- The effects of a row. -/
def effectsFromSource (source : SourceType) : Option FunctionEffects :=
  (effectRowFromSource source).map fun (unsafety, failure, custom) =>
    .mk unsafety failure (effectIdentitySources custom) []

/-- `static_value_from_source`: read a source type as a value of a sort. -/
def staticValueFromSource (source : SourceType) : CompileSort → Option StaticValue
  | .type => some (.type source)
  | .usize =>
    match source with
    | .compileUSize value => some (.usize value)
    | _ => none
  | .region =>
    match source with
    | .named name [] => some (.region name)
    | _ => none
  | .effect => do
    let effects ← effectsFromSource source
    if effectRowIsSingleton effects then some (.effect effects) else none
  | .effects => (effectsFromSource source).map .effects
  | .typeConstructor groups =>
    match source with
    | .named name [] =>
      some (.typeConstructor ((typeConstructorFromMarker name).getD name)
        (.typeConstructor groups))
    | _ => none
  | .effectConstructor groups =>
    match source with
    | .named name [] => some (.effectConstructor name (.effectConstructor groups))
    | _ => none
  | .named expectedSort =>
    match source with
    | .named marker [] => do
      let (actualSort, member) ← closedValueFromMarker marker
      if actualSort = expectedSort then some (.finite actualSort member) else none
    | _ => none
  | .universeAt _ | .parameters | .fragment _ | .parameterPack | .parameterModifier => none

/-- `source_from_static_value`: the source type that stands for a value. -/
def sourceFromStaticValue (debug : SourceType → String) : StaticValue → Option SourceType
  | .type source => some source
  | .usize value => some (.compileUSize value)
  | .region name | .symbolic name _ => some (.named name [])
  | .effect effects | .effects effects =>
    if effects.parameters.isEmpty then
      some (effectRowSource effects.unsafety effects.failure
        (sourceEffectIdentities debug effects.custom))
    else none
  | .parameterSchema _ => none
  | .typeConstructor name _ | .effectConstructor name _ => some (.named name [])
  | .finite sort member => some (.named (closedValueMarker sort member) [])

end Salicin.Codegen.CompileTime
