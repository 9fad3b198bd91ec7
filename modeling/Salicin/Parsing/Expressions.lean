import Salicin.Parsing.Tokens
import Salicin.Foundation.TokenParser

/-!
# The expression parser

The functions of the recursive descent, from the assignment down to the primary expressions.
The recursive calls go through `Parsers`, one of which is built over another for each token.
-/

namespace Salicin.Parsing

open Salicin.Source TokenParser

/-- The message, and the tokens from the one that the error is at. -/
structure ParseError where
  message : String
  position : List Token

inductive Failure
  | reported (error : ParseError)
  | exhausted

abbrev Parser := TokenParser Token Failure

/-- `error_at`, where the tokens begin with the one to report. -/
def errorAt {Value : Type} (position : List Token) (message : String) : Parser Value :=
  fail (.reported ⟨message, position⟩)

def errorHere {Value : Type} (message : String) : Parser Value := do
  errorAt (← position) message

def expect (kind : Token) (expected : String) : Parser Unit := do
  if ← take kind then pure ()
  else
    let found := describe (← position)
    errorHere s!"expected {expected}, found {found}"

def expectIdent (expected : String) : Parser Word := fun tokens =>
  match tokens with
  | .ident word :: rest => .ok (word, rest)
  | _ =>
    let found := describe tokens
    errorHere s!"expected {expected}, found {found}" tokens

def identFollowedByColon : List Token → Bool
  | .ident _ :: .colon :: _ => true
  | _ => false

/-- The functions that an expression is read with again; `asyncDepth` is `async_depth`. -/
structure Parsers where
  asyncDepth : Nat
  assignment : Bool → Parser Expr
  coalesce : Bool → Parser Expr
  unary : Bool → Parser Expr

/-- `expression`. -/
def Parsers.expression (parsers : Parsers) : Bool → Parser Expr := parsers.assignment

/-! ## Primary expressions -/

/-- What follows a `(` that begins an expression. -/
def groupOrTuple (parsers : Parsers) : Parser Expr := do
  if ← take .rParen then pure .unit
  else
    let first ← parsers.expression true
    if ← take .comma then
      if ← take .rParen then pure (.tuple [first])
      else
        let rest ← position
        let fields ← sequenceLoop .comma .rParen (fun _ => parsers.expression true)
          (expect .rParen "`)` after tuple literal") .exhausted (rest.length + 1) [first]
        pure (.tuple fields)
    else
      expect .rParen "`)` after parenthesized expression"
      pure first

/-- `array_literal`, after its `[`. -/
def arrayLiteral (parsers : Parsers) : Parser Expr := do
  if ← take .rBracket then pure (.array [])
  else
    let rest ← position
    let elements ← sequenceLoop .comma .rBracket (fun _ => parsers.expression true)
      (expect .rBracket "`]` after array elements") .exhausted (rest.length + 1) []
    pure (.array elements)

def primary (parsers : Parsers) : Parser Expr := fun tokens =>
  match tokens with
  | .integer value :: rest => .ok (.integer value, rest)
  | .true :: rest => .ok (.bool true, rest)
  | .false :: rest => .ok (.bool false, rest)
  | .string value :: rest => .ok (.string value, rest)
  | .ident word :: rest =>
    if word.text = "_" then
      errorHere ("`_` is not an expression; omit an inferred compile-time argument group or " ++
        "use a named argument") tokens
    else .ok (.name (.word word), rest)
  | .root :: rest => .ok (.name .root, rest)
  | .super :: rest => .ok (.name .super, rest)
  | .lParen :: rest => groupOrTuple parsers rest
  | .lBracket :: rest => arrayLiteral parsers rest
  | _ =>
    let found := describe tokens
    errorHere s!"expected an expression, found {found}" tokens

/-! ## Postfix operators -/

/-- The label of an argument, with its colon. -/
def argumentLabel : Parser (Option Word) := do
  if identFollowedByColon (← position) then
    let label ← expectIdent "an argument label"
    expect .colon "`:` after argument label"
    pure (some label)
  else pure none

/-- One argument of a group, after the ones that were read. The first one decides whether the
arguments of the group have labels. -/
def callArgument (parsers : Parsers) (arguments : List CallArg) : Parser CallArg := do
  let start ← position
  let label ← argumentLabel
  if arguments.head?.any (fun first => first.label.isSome ≠ label.isSome) then
    errorAt start "labeled and positional arguments cannot be mixed"
  else
    let value ← parsers.expression true
    pure (.mk label value)

/-- The arguments of a call, after their `(`. -/
def callArguments (parsers : Parsers) : Parser (List CallArg) := do
  if ← take .rParen then pure []
  else
    let rest ← position
    sequenceLoop .comma .rParen (callArgument parsers) (expect .rParen "`)` after arguments")
      .exhausted (rest.length + 1) []

def expectRelativePathSegment (expected : String) : Parser MemberName := fun tokens =>
  let found := describe tokens
  let message := s!"expected {expected}, found {found}; `root` is only valid as the first " ++
    "path segment, and `super` only in a leading chain"
  match tokens with
  | .ident word :: rest =>
    if word.text = "_" then errorHere message tokens else .ok (.word word, rest)
  | _ => errorHere message tokens

/-- The member after a `.`. -/
def memberName (base : Expr) : Parser MemberName := fun tokens =>
  match tokens with
  | .super :: rest =>
    if base.isSuperPathExpression then .ok (.super, rest)
    else expectRelativePathSegment "a member name after `.`" tokens
  | .integer value :: rest => .ok (.index value, rest)
  | _ => expectRelativePathSegment "a member name after `.`" tokens

/-- `token_can_start_bare_call_argument`. -/
def tokenCanStartBareCallArgument : Token → Bool
  | .ident _ | .integer _ | .true | .false | .root | .super | .lParen | .lBracket => true
  | _ => false

def tokenCanStartExpression : Token → Bool
  | .integer _ | .true | .false | .ident _ | .root | .super | .lParen | .lBracket | .minus
  | .bang => true
  | _ => false

def bareCallArgumentCanStart : List Token → Bool
  | token :: _ => tokenCanStartBareCallArgument token
  | [] => false

/-- The loop of `postfix`, at an expression that has been read. -/
def postfixLoop (parsers : Parsers) (allowTrailingClosure : Bool) :
    Nat → Expr → Bool → Parser Expr
  | 0, _, _ => fail .exhausted
  | fuel + 1, expression, canTakeTrailingClosure => fun tokens =>
    match tokens with
    | .lParen :: rest =>
      if expression.startsImplicitHandlerGroups then
        errorHere ("`handle` clauses use named trailing groups; omit the parenthesized " ++
          "argument group") tokens
      else (do
        let arguments ← callArguments parsers
        postfixLoop parsers allowTrailingClosure fuel (.call expression arguments) true) rest
    | .lBracket :: rest => (do
        let index ← parsers.expression true
        expect .rBracket "`]` after index"
        postfixLoop parsers allowTrailingClosure fuel (.index expression index)
          canTakeTrailingClosure) rest
    | .dot :: rest => (do
        let member ← memberName expression
        postfixLoop parsers allowTrailingClosure fuel (.member expression member)
          canTakeTrailingClosure) rest
    | .questionDot :: rest => (do
        let member ← expectIdent "a member name after `?.`"
        postfixLoop parsers allowTrailingClosure fuel (.chainMember expression member)
          canTakeTrailingClosure) rest
    | .bang :: .bang :: .bang :: rest =>
      errorHere "postfix operators accept at most two consecutive `!` tokens" (.bang :: rest)
    | .bang :: .bang :: rest =>
      postfixLoop parsers allowTrailingClosure fuel (.unwrap expression)
        canTakeTrailingClosure rest
    | .bang :: rest =>
      postfixLoop parsers allowTrailingClosure fuel (.raise expression)
        canTakeTrailingClosure rest
    | .ident label :: next :: rest =>
      -- `named_nested_trailing_call_follows`; the other trailing groups have braces
      if allowTrailingClosure ∧ (canTakeTrailingClosure ∨ expression.startsImplicitHandlerGroups) ∧
          tokenCanStartExpression next then (do
        let nested ← parsers.expression true
        postfixLoop parsers allowTrailingClosure fuel
          (.call expression [.mk (some label) (.closure nested)]) true) (next :: rest)
      else if allowTrailingClosure then (do
        let argument ← parsers.unary false
        postfixLoop parsers allowTrailingClosure fuel
          (.call expression [.mk none argument]) true) tokens
      else .ok (expression, tokens)
    | _ =>
      if allowTrailingClosure ∧ bareCallArgumentCanStart tokens then (do
        let argument ← parsers.unary false
        postfixLoop parsers allowTrailingClosure fuel
          (.call expression [.mk none argument]) true) tokens
      else .ok (expression, tokens)

/-- `postfix`. -/
def postfixed (parsers : Parsers) (allowTrailingClosure : Bool) : Parser Expr := do
  let expression ← primary parsers
  let rest ← position
  postfixLoop parsers allowTrailingClosure (rest.length + 1) expression false

/-! ## Prefix operators -/

def tokenCanStartBorrowOperand : Token → Bool
  | .ident _ | .root | .super | .star | .lParen => true
  | _ => false

def borrowQualifierGroupFollows : List Token → Bool
  | .lParen :: .ident _ :: .comma :: _ => true
  | .lParen :: .ident _ :: .rParen :: token :: _ => tokenCanStartBorrowOperand token
  | _ => false

def regionName : Parser Unit := fun tokens =>
  match tokens with
  | .ident _ :: rest => .ok ((), rest)
  | _ => errorAt tokens "expected a region after access argument" tokens

/-- The region of `optional_borrow_arguments`, which an expression does not keep. -/
def borrowRegion : Parser Unit := do
  if ← take .comma then regionName else pure ()

/-- `optional_borrow_arguments`, after its `(`. -/
def borrowArguments : Parser (Bool × Option Word) := do
  let name ← expectIdent "an access value or access parameter"
  borrowRegion
  expect .rParen "`)` after borrow arguments"
  pure (name.text = "mut", if name.text = "mut" ∨ name.text = "shared" then none else some name)

/-- `borrow_group_expression`. -/
def borrowGroupExpression (parsers : Parsers) (mutable : Bool) (access : Option Word)
    (operator : List Token) : Parser Expr := do
  expect .lParen "`(` before borrow operand"
  if (← position).head? = some Token.rParen then errorHere "borrow operand cannot be empty"
  else
    let value ← parsers.expression true
    expect .rParen "`)` after borrow operand"
    if value.isAssignablePlace then pure (.borrow mutable access value)
    else errorAt operator "borrow operand must be a name or member chain"

/-- Whether a borrow is mutable and its access, from the group before its operand if there is
one. -/
def borrowQualifier : Parser (Bool × Option Word) := do
  if borrowQualifierGroupFollows (← position) then
    expect .lParen "`(` after `borrow`"
    borrowArguments
  else pure (false, none)

/-- `borrow_expression`. -/
def borrowExpression (parsers : Parsers) (operator : List Token) : Parser Expr := do
  let (mutable, access) ← borrowQualifier
  if (← position).head? = some Token.lParen then
    borrowGroupExpression parsers mutable access operator
  else errorAt operator "borrow expressions are written as `borrow(value)`"

/-- A prefix operator that has been taken, with its operand. -/
def prefixed (parsers : Parsers) (allowTrailingClosure : Bool) (node : Expr → Expr) :
    Parser Expr := do
  let operand ← parsers.unary allowTrailingClosure
  pure (node operand)

def unary (parsers : Parsers) (allowTrailingClosure : Bool) : Parser Expr := fun tokens =>
  match tokens with
  | .ident word :: rest =>
    if 0 < parsers.asyncDepth ∧ word.text = "await" then
      prefixed parsers allowTrailingClosure .await rest
    else if word.text = "borrow" then borrowExpression parsers tokens rest
    else if word.text = "mut" then .ok (.name (.word word), rest)
    else postfixed parsers allowTrailingClosure tokens
  | .minus :: rest => prefixed parsers allowTrailingClosure (.unary .neg) rest
  | .bang :: rest => prefixed parsers allowTrailingClosure (.unary .not) rest
  | .star :: rest => prefixed parsers allowTrailingClosure (.unary .deref) rest
  | _ => postfixed parsers allowTrailingClosure tokens

/-! ## Infix operators -/

/-- The operator of a token among those that are asked for in turn. -/
def operatorOf (operators : List (Token × BinaryOp)) (token : Token) : Option BinaryOp :=
  operators.lookup token

/-- A level of operators that are grouped to the left. -/
def leftAssociative (operators : List (Token × BinaryOp)) (operand : Parser Expr) : Parser Expr :=
  chainLeft (operatorOf operators) (fun operator left right => .binary left operator right)
    operand .exhausted

/-- A level of operators that do not chain. -/
def nonAssociative (operators : List (Token × BinaryOp)) (chained : String)
    (operand : Parser Expr) : Parser Expr := do
  let left ← operand
  match ← takeMap (operatorOf operators) with
  | none => pure left
  | some operator =>
    let right ← operand
    if ((← position).head?.bind (operatorOf operators)).isSome then errorHere chained
    else pure (.binary left operator right)

def multiplicative (parsers : Parsers) (allowTrailingClosure : Bool) : Parser Expr :=
  leftAssociative [(.star, .mul), (.slash, .div), (.percent, .rem)]
    (unary parsers allowTrailingClosure)

def additive (parsers : Parsers) (allowTrailingClosure : Bool) : Parser Expr :=
  leftAssociative [(.plus, .add), (.minus, .sub)] (multiplicative parsers allowTrailingClosure)

def shift (parsers : Parsers) (allowTrailingClosure : Bool) : Parser Expr :=
  leftAssociative [(.shl, .shl), (.shr, .shr)] (additive parsers allowTrailingClosure)

def relation (parsers : Parsers) (allowTrailingClosure : Bool) : Parser Expr :=
  nonAssociative [(.less, .lt), (.lessEqual, .le), (.greater, .gt), (.greaterEqual, .ge)]
    "comparison operators cannot be chained" (shift parsers allowTrailingClosure)

def equality (parsers : Parsers) (allowTrailingClosure : Bool) : Parser Expr :=
  nonAssociative [(.equalEqual, .eq), (.bangEqual, .ne)] "equality operators cannot be chained"
    (relation parsers allowTrailingClosure)

def bitwiseAnd (parsers : Parsers) (allowTrailingClosure : Bool) : Parser Expr :=
  leftAssociative [(.amp, .bitAnd)] (equality parsers allowTrailingClosure)

def bitwiseXor (parsers : Parsers) (allowTrailingClosure : Bool) : Parser Expr :=
  leftAssociative [(.caret, .bitXor)] (bitwiseAnd parsers allowTrailingClosure)

def bitwiseOr (parsers : Parsers) (allowTrailingClosure : Bool) : Parser Expr :=
  leftAssociative [(.pipe, .bitOr)] (bitwiseXor parsers allowTrailingClosure)

def logicalAnd (parsers : Parsers) (allowTrailingClosure : Bool) : Parser Expr :=
  leftAssociative [(.andAnd, .and)] (bitwiseOr parsers allowTrailingClosure)

def logicalOr (parsers : Parsers) (allowTrailingClosure : Bool) : Parser Expr :=
  leftAssociative [(.orOr, .or)] (logicalAnd parsers allowTrailingClosure)

def coalesce (parsers : Parsers) (allowTrailingClosure : Bool) : Parser Expr := do
  let left ← logicalOr parsers allowTrailingClosure
  if ← take .questionQuestion then
    let right ← parsers.coalesce allowTrailingClosure
    pure (.coalesce left right)
  else pure left

def compoundOperators : List (Token × BinaryOp) :=
  [(.plusEqual, .add), (.minusEqual, .sub), (.starEqual, .mul), (.slashEqual, .div),
    (.percentEqual, .rem), (.ampEqual, .bitAnd), (.pipeEqual, .bitOr), (.caretEqual, .bitXor),
    (.shlEqual, .shl), (.shrEqual, .shr)]

/-- `assignment`; no word of the tokens begins a `match`. -/
def assignment (parsers : Parsers) (allowTrailingClosure : Bool) : Parser Expr := do
  let left ← coalesce parsers allowTrailingClosure
  let operator ← position
  let compound ← takeMap (operatorOf compoundOperators)
  let afterCompound ← position
  -- an `=` is also taken after a compound operator
  let equal ← take .equal
  if equal ∨ compound.isSome then
    let right ← parsers.assignment allowTrailingClosure
    if left.isAssignablePlace then
      match compound with
      | some operator => pure (.compoundAssign left operator right)
      | none => pure (.assign left right)
    else
      errorAt (if equal then afterCompound else operator)
        "left side of assignment must be a name or member chain"
  else pure left

/-! ## The whole parser -/

/-- The functions for a number of nested calls. -/
def parsersOf (asyncDepth : Nat) : Nat → Parsers
  | 0 => ⟨asyncDepth, fun _ => fail .exhausted, fun _ => fail .exhausted,
      fun _ => fail .exhausted⟩
  | depth + 1 =>
    let parsers := parsersOf asyncDepth depth
    ⟨asyncDepth, assignment parsers, coalesce parsers, unary parsers⟩

/-- An expression that stands alone. What is left of the tokens is reported as
`block_contents` does after an expression. -/
def parse (asyncDepth : Nat) (tokens : List Token) : Except Failure Expr :=
  match assignment (parsersOf asyncDepth tokens.length) true tokens with
  | .ok (expression, []) => .ok expression
  | .ok (_, rest) =>
    .error (.reported ⟨"expected a newline, `;`, or `\x7d` after expression", rest⟩)
  | .error failure => .error failure

end Salicin.Parsing
