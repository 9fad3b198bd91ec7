import Salicin.Source.Ast

/-!
# Tokens and trees of operator expressions

The tokens that can stand in an expression without braces and line breaks, and the trees that
the parser builds from them. Words that begin a control form (`if`, `match`, `return` and the
like) are no names here; the lexer has no tokens of its own for them either.
-/

namespace Salicin.Parsing

open Salicin.Source

def controlWords : List String :=
  ["match", "if", "while", "for", "return", "break", "continue", "throw"]

/-- The text of an `Ident` token that begins no control form. -/
structure Word where
  text : String
  plain : text ∉ controlWords
  deriving DecidableEq

/-- `TokenKind`. The end of the list of tokens is `Eof`. -/
inductive Token
  | ident (word : Word)
  | integer (value : Nat)
  | string (value : String)
  | true | false | root | super
  | lParen | rParen | lBracket | rBracket | colon | dot | comma
  | equal | equalEqual | bang | bangEqual
  | plus | plusEqual | minus | minusEqual | star | starEqual | slash | slashEqual
  | percent | percentEqual
  | less | lessEqual | greater | greaterEqual
  | andAnd | orOr | amp | ampEqual | pipe | pipeEqual | caret | caretEqual
  | shl | shlEqual | shr | shrEqual
  | questionDot | questionQuestion
  deriving DecidableEq

def Token.describe : Token → String
  | .ident _ => "an identifier"
  | .integer _ => "an integer"
  | .string _ => "a string"
  | .true => "`true`"
  | .false => "`false`"
  | .root => "`root`"
  | .super => "`super`"
  | .lParen => "`(`"
  | .rParen => "`)`"
  | .lBracket => "`[`"
  | .rBracket => "`]`"
  | .colon => "`:`"
  | .dot => "`.`"
  | .comma => "`,`"
  | .equal => "`=`"
  | .equalEqual => "`==`"
  | .bang => "`!`"
  | .bangEqual => "`!=`"
  | .plus => "`+`"
  | .plusEqual => "`+=`"
  | .minus => "`-`"
  | .minusEqual => "`-=`"
  | .star => "`*`"
  | .starEqual => "`*=`"
  | .slash => "`/`"
  | .slashEqual => "`/=`"
  | .percent => "`%`"
  | .percentEqual => "`%=`"
  | .less => "`<`"
  | .lessEqual => "`<=`"
  | .greater => "`>`"
  | .greaterEqual => "`>=`"
  | .andAnd => "`&&`"
  | .orOr => "`||`"
  | .amp => "`&`"
  | .ampEqual => "`&=`"
  | .pipe => "`|`"
  | .pipeEqual => "`|=`"
  | .caret => "`^`"
  | .caretEqual => "`^=`"
  | .shl => "`<<`"
  | .shlEqual => "`<<=`"
  | .shr => "`>>`"
  | .shrEqual => "`>>=`"
  | .questionDot => "`?.`"
  | .questionQuestion => "`??`"

/-- `describe` of the current token. -/
def describe : List Token → String
  | [] => "end of file"
  | token :: _ => token.describe

/-- A name in a tree: an identifier, or a keyword that begins a path. -/
inductive Name
  | word (word : Word)
  | root
  | super

/-- A member in a tree: an identifier, the text of an integer, or `super` in a path. -/
inductive MemberName
  | word (word : Word)
  | index (value : Nat)
  | super

mutual

/-- `Expr`, without the nodes of braced forms. `raise` and `unwrap` are the calls without
arguments of the members `$lang$raise` and `$lang$unwrap`; `closure` has no parameters. -/
inductive Expr
  | unit
  | integer (value : Nat)
  | bool (value : Bool)
  | string (value : String)
  | name (name : Name)
  | tuple (fields : List Expr)
  | array (elements : List Expr)
  | unary (operator : UnaryOp) (operand : Expr)
  | borrow (mutable : Bool) (access : Option Word) (value : Expr)
  | binary (left : Expr) (operator : BinaryOp) (right : Expr)
  | coalesce (left right : Expr)
  | await (operand : Expr)
  | assign (place value : Expr)
  | compoundAssign (place : Expr) (operator : BinaryOp) (value : Expr)
  | call (callee : Expr) (arguments : List CallArg)
  | index (base index : Expr)
  | member (base : Expr) (member : MemberName)
  | chainMember (base : Expr) (member : Word)
  | raise (operand : Expr)
  | unwrap (operand : Expr)
  | closure (body : Expr)

/-- `CallArg`. -/
inductive CallArg
  | mk (label : Option Word) (value : Expr)

end

def CallArg.label : CallArg → Option Word
  | mk label _ => label

def CallArg.value : CallArg → Expr
  | mk _ value => value

namespace Expr

def isAssignablePlace : Expr → Bool
  | name _ => true
  | member base _ => base.isAssignablePlace
  | index base _ => base.isAssignablePlace
  | unary .deref _ => true
  | _ => false

/-- `starts_implicit_handler_groups`. -/
def startsImplicitHandlerGroups : Expr → Bool
  | member _ (.word word) => word.text = "handle"
  | call callee _ => callee.startsImplicitHandlerGroups
  | _ => false

def isSuperPathExpression : Expr → Bool
  | name .super => true
  | member base .super => base.isSuperPathExpression
  | _ => false

end Expr

end Salicin.Parsing
