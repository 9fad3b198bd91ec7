import Salicin.Parsing.Tokens

/-!
# Operator tables and printing

A table gives the level of each kind of operator, the loosest at zero, and the levels that its
operands need. Printing puts an operand between parentheses when its own level is lower than
that. The parser realizes one table; the language grammar documents another.
-/

namespace Salicin.Parsing

open Salicin.Source

structure OperatorTable where
  assignment : Nat
  /-- The level of the place that is assigned. -/
  place : Nat
  coalesce : Nat
  coalesceLeft : Nat
  coalesceRight : Nat
  binary : BinaryOp → Nat
  left : BinaryOp → Nat
  right : BinaryOp → Nat
  prefixed : Nat
  /-- The level of `!` and `!!` after an operand. -/
  propagation : Nat
  propagated : Nat
  suffixed : Nat
  /-- The level of what other suffixes follow. -/
  base : Nat
  primary : Nat

/-- The levels of the parser's functions. -/
def parserLevel : BinaryOp → Nat
  | .or => 2
  | .and => 3
  | .bitOr => 4
  | .bitXor => 5
  | .bitAnd => 6
  | .eq | .ne => 7
  | .lt | .le | .gt | .ge => 8
  | .shl | .shr => 9
  | .add | .sub => 10
  | .mul | .div | .rem => 11

/-- Whether operators of one kind may follow each other without parentheses. -/
def chains : BinaryOp → Bool
  | .eq | .ne | .lt | .le | .gt | .ge => false
  | _ => true

def parserTable : OperatorTable where
  assignment := 0
  place := 1
  coalesce := 1
  coalesceLeft := 2
  coalesceRight := 1
  binary := parserLevel
  left operator := if chains operator then parserLevel operator else parserLevel operator + 1
  right operator := parserLevel operator + 1
  prefixed := 12
  propagation := 13
  propagated := 14
  suffixed := 14
  base := 13
  primary := 15

/-- The levels of the operators in the language grammar. -/
def documentedLevel : BinaryOp → Nat
  | .or => 3
  | .and => 4
  | .eq | .ne | .lt | .le | .gt | .ge => 5
  | .bitOr => 6
  | .bitXor => 7
  | .bitAnd => 8
  | .shl | .shr => 9
  | .add | .sub => 10
  | .mul | .div | .rem => 11

def documentedTable : OperatorTable where
  assignment := 0
  place := 1
  coalesce := 2
  coalesceLeft := 2
  coalesceRight := 3
  binary := documentedLevel
  left operator :=
    if chains operator then documentedLevel operator else documentedLevel operator + 1
  right operator := documentedLevel operator + 1
  prefixed := 12
  propagation := 1
  propagated := 2
  suffixed := 13
  base := 13
  primary := 14

/-! ## The tokens of operators -/

def binaryToken : BinaryOp → Token
  | .add => .plus
  | .sub => .minus
  | .mul => .star
  | .div => .slash
  | .rem => .percent
  | .bitAnd => .amp
  | .bitOr => .pipe
  | .bitXor => .caret
  | .shl => .shl
  | .shr => .shr
  | .eq => .equalEqual
  | .ne => .bangEqual
  | .lt => .less
  | .le => .lessEqual
  | .gt => .greater
  | .ge => .greaterEqual
  | .and => .andAnd
  | .or => .orOr

/-- The token of a compound assignment, if the operator has one. -/
def compoundToken : BinaryOp → Option Token
  | .add => some .plusEqual
  | .sub => some .minusEqual
  | .mul => some .starEqual
  | .div => some .slashEqual
  | .rem => some .percentEqual
  | .bitAnd => some .ampEqual
  | .bitOr => some .pipeEqual
  | .bitXor => some .caretEqual
  | .shl => some .shlEqual
  | .shr => some .shrEqual
  | _ => none

def unaryToken : UnaryOp → Token
  | .neg => .minus
  | .not => .bang
  | .deref => .star

def nameToken : Name → Token
  | .word word => .ident word
  | .root => .root
  | .super => .super

def memberToken : MemberName → Token
  | .word word => .ident word
  | .index value => .integer value
  | .super => .super

def borrowWord : Word := ⟨"borrow", by decide⟩

def mutWord : Word := ⟨"mut", by decide⟩

def awaitWord : Word := ⟨"await", by decide⟩

/-- The group before the operand of a borrow. -/
def accessTokens (mutable : Bool) (access : Option Word) : List Token :=
  if mutable then [.lParen, .ident mutWord, .rParen]
  else
    match access with
    | some word => [.lParen, .ident word, .rParen]
    | none => []

def labelTokens : Option Word → List Token
  | some label => [.ident label, .colon]
  | none => []

/-! ## Printing -/

namespace OperatorTable

variable (table : OperatorTable)

def level : Expr → Nat
  | .unit | .integer _ | .bool _ | .string _ | .name _ | .tuple _ | .array _ | .closure _ =>
    table.primary
  | .unary _ _ | .borrow _ _ _ | .await _ => table.prefixed
  | .binary _ operator _ => table.binary operator
  | .coalesce _ _ => table.coalesce
  | .assign _ _ | .compoundAssign _ _ _ => table.assignment
  | .call _ _ | .index _ _ | .member _ _ | .chainMember _ _ => table.suffixed
  | .raise _ | .unwrap _ => table.propagation

/-- Put an expression of a lower level than needed between parentheses. -/
def group (needed level : Nat) (tokens : List Token) : List Token :=
  if level < needed then .lParen :: (tokens ++ [.rParen]) else tokens

mutual

def body : Expr → List Token
  | .unit => [.lParen, .rParen]
  | .integer value => [.integer value]
  | .bool value => [if value then .true else .false]
  | .string value => [.string value]
  | .name name => [nameToken name]
  | .tuple [] => [.lParen, .rParen]
  | .tuple (field :: fields) =>
    .lParen :: (body field ++ .comma :: (bodies fields ++ [.rParen]))
  | .array elements => .lBracket :: (bodies elements ++ [.rBracket])
  | .unary operator operand =>
    unaryToken operator :: group table.prefixed (table.level operand) (body operand)
  | .borrow mutable access value =>
    .ident borrowWord ::
      (accessTokens mutable access ++ .lParen :: (body value ++ [.rParen]))
  | .binary left operator right =>
    group (table.left operator) (table.level left) (body left) ++
      binaryToken operator :: group (table.right operator) (table.level right) (body right)
  | .coalesce left right =>
    group table.coalesceLeft (table.level left) (body left) ++
      .questionQuestion :: group table.coalesceRight (table.level right) (body right)
  | .await operand =>
    .ident awaitWord :: group table.prefixed (table.level operand) (body operand)
  | .assign place value =>
    group table.place (table.level place) (body place) ++ .equal :: body value
  | .compoundAssign place operator value =>
    group table.place (table.level place) (body place) ++
      ((compoundToken operator).toList ++ body value)
  | .call callee arguments =>
    group table.base (table.level callee) (body callee) ++
      .lParen :: (argumentBodies arguments ++ [.rParen])
  | .index base index =>
    group table.base (table.level base) (body base) ++ .lBracket :: (body index ++ [.rBracket])
  | .member base member =>
    group table.base (table.level base) (body base) ++ [.dot, memberToken member]
  | .chainMember base member =>
    group table.base (table.level base) (body base) ++ [.questionDot, .ident member]
  | .raise operand =>
    group table.propagated (table.level operand) (body operand) ++ [.bang]
  | .unwrap operand =>
    group table.propagated (table.level operand) (body operand) ++ [.bang, .bang]
  | .closure _ => []

/-- Expressions with commas between them. -/
def bodies : List Expr → List Token
  | [] => []
  | [value] => body value
  | value :: next :: rest => body value ++ .comma :: bodies (next :: rest)

def argumentBodies : List CallArg → List Token
  | [] => []
  | [.mk label value] => labelTokens label ++ body value
  | .mk label value :: next :: rest =>
    labelTokens label ++ body value ++ .comma :: argumentBodies (next :: rest)

end

/-- The tokens of an expression where a level is needed. -/
def print (needed : Nat) (expression : Expr) : List Token :=
  group needed (table.level expression) (table.body expression)

end OperatorTable

end Salicin.Parsing
