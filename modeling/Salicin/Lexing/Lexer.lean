import Salicin.Foundation.BracketedArguments
import Salicin.Foundation.TextPositions

/-!
# The lexer

One character loop with a scanner for each sort of token. The classes of characters that may begin
and continue a name, and the normal form of names, come from tables outside the program.
-/

namespace Salicin.Lexing

open Brackets (isWhiteSpace)
open TextPositions

/-! ## Tokens -/

/-- `TokenKind`, as far as the lexer makes the token. -/
inductive TokenKind
  | let | pub | package | root | super
  | extend | struct | enum | trait | where
  | true | false
  | ident (text : String)
  | regionName (name : String)
  | string (value : String)
  | integer (value : Nat)
  | lParen | rParen | lBracket | rBracket | lBrace | rBrace
  | colon | dot | ellipsis | comma | semicolon | newline
  | arrow | fatArrow
  | equal | equalEqual | bang | bangEqual
  | plus | plusEqual | minus | minusEqual | star | starEqual | slash | slashEqual
  | percent | percentEqual
  | less | lessEqual | greater | greaterEqual
  | andAnd | orOr | amp | ampEqual | pipe | pipeEqual | caret | caretEqual
  | shl | shlEqual | shr | shrEqual
  | questionDot | questionQuestion
  | eof
  deriving DecidableEq

/-- A token between two positions of the source. -/
structure Token where
  kind : TokenKind
  start : Position
  stop : Position

structure LexError where
  message : String
  line : Nat
  column : Nat

/-- `keyword`. -/
def keyword (text : String) : Option TokenKind :=
  match text with
  | "let" => some .let
  | "pub" => some .pub
  | "package" => some .package
  | "root" => some .root
  | "super" => some .super
  | "extend" => some .extend
  | "struct" => some .struct
  | "enum" => some .enum
  | "trait" => some .trait
  | "where" => some .where
  | "true" => some .true
  | "false" => some .false
  | _ => none

/-- What the crates `unicode_ident` and `unicode_normalization` give. A character that may begin a
name may also continue one. -/
structure UnicodeTables where
  isXidStart : Char → Bool
  isXidContinue : Char → Bool
  nfc : String → String
  continues_of_starts : ∀ ch, isXidStart ch = true → isXidContinue ch = true

/-! ## The state -/

/-- The characters that are not read yet, the position, and how many parentheses and brackets are
open. -/
structure Lexer where
  rest : List Char
  position : Position
  delimiterDepth : Nat

namespace Lexer

def peek (lexer : Lexer) : Option Char := lexer.rest.head?

def peekNext (lexer : Lexer) : Option Char := lexer.rest.tail.head?

def bump (lexer : Lexer) : Option Char × Lexer :=
  match lexer.rest with
  | [] => (none, lexer)
  | ch :: rest => (some ch, { lexer with rest, position := lexer.position.next ch })

/-- The lexer behind the expected character, if it comes next. -/
def take (lexer : Lexer) (expected : Char) : Option Lexer :=
  if lexer.peek = some expected then some lexer.bump.2 else none

def error (message : String) (position : Position) : LexError :=
  ⟨message, position.line, position.column⟩

/-- The characters from here on that have the property, and the lexer behind them. The list is the
rest of the lexer. -/
def bumpWhileIn (property : Char → Bool) : List Char → Lexer → List Char × Lexer
  | [], lexer => ([], lexer)
  | ch :: rest, lexer =>
    if property ch then
      let (text, lexer) := bumpWhileIn property rest lexer.bump.2
      (ch :: text, lexer)
    else ([], lexer)

def bumpWhile (property : Char → Bool) (lexer : Lexer) : List Char × Lexer :=
  bumpWhileIn property lexer.rest lexer

/-! ## Line breaks and comments -/

/-- The tokens after which a line goes on, `!` apart. -/
def continuesLine : TokenKind → Bool
  | .colon | .dot | .ellipsis | .comma | .arrow | .fatArrow | .equal | .equalEqual | .bangEqual
  | .plus | .plusEqual | .minus | .minusEqual | .star | .starEqual | .slash | .slashEqual
  | .percent | .percentEqual | .less | .lessEqual | .greater | .greaterEqual | .andAnd | .orOr
  | .amp | .ampEqual | .pipe | .pipeEqual | .caret | .caretEqual | .shl | .shlEqual | .shr
  | .shrEqual | .questionDot | .questionQuestion => true
  | _ => false

/-- The tokens behind which `!` is a suffix. -/
def endsOperand : TokenKind → Bool
  | .ident _ | .regionName _ | .integer _ | .true | .false | .rParen | .rBracket | .rBrace => true
  | _ => false

/-- Whether the line goes on behind these tokens. -/
def continued (tokens : List Token) : Bool :=
  match tokens.getLast? with
  | none => false
  | some token =>
    if token.kind = .bang then
      let beforeBangs := tokens.reverse.find? (·.kind ≠ .bang)
      !beforeBangs.any (endsOperand ·.kind)
    else continuesLine token.kind

/-- `logical_newline`. -/
def logicalNewline (lexer : Lexer) (tokens : List Token) : Lexer × List Token :=
  let next := lexer.bump.2
  if next.delimiterDepth = 0 ∧ continued tokens = false then
    (next, tokens ++ [{ kind := .newline, start := lexer.position, stop := next.position }])
  else (next, tokens)

/-- The loop of `block_comment`. The list is the rest of the lexer, and `begin` the position of the
comment. -/
def blockCommentIn (begin : Position) :
    List Char → Lexer → Nat → List Token → Except LexError (Lexer × List Token)
  | [], _, _, _ => .error (error "unterminated block comment" begin)
  | '/' :: '*' :: rest, lexer, depth, tokens =>
    blockCommentIn begin rest lexer.bump.2.bump.2 (depth + 1) tokens
  | '*' :: '/' :: rest, lexer, depth, tokens =>
    if depth = 1 then .ok (lexer.bump.2.bump.2, tokens)
    else blockCommentIn begin rest lexer.bump.2.bump.2 (depth - 1) tokens
  | '\n' :: rest, lexer, depth, tokens =>
    let (lexer, tokens) := lexer.logicalNewline tokens
    blockCommentIn begin rest lexer depth tokens
  | _ :: rest, lexer, depth, tokens => blockCommentIn begin rest lexer.bump.2 depth tokens

/-- `block_comment`. -/
def blockComment (lexer : Lexer) (tokens : List Token) : Except LexError (Lexer × List Token) :=
  let inside := lexer.bump.2.bump.2
  blockCommentIn lexer.position inside.rest inside 1 tokens

/-! ## Scanners -/

/-- `number`. -/
def number (lexer : Lexer) : Except LexError (TokenKind × Lexer) :=
  let (digits, next) := lexer.bumpWhile fun c => c.isDigit || c == '_'
  let value := Nat.ofDigitChars 10 (digits.filter (· ≠ '_')) 0
  if value < 2 ^ 128 then .ok (.integer value, next)
  else .error (error "integer literal is too large" lexer.position)

/-- The character that an escape stands for. -/
def unescape : Char → Option Char
  | '"' => some '"'
  | '\\' => some '\\'
  | 'n' => some '\n'
  | 'r' => some '\r'
  | 't' => some '\t'
  | _ => none

/-- The loop of `string`. The list is the rest of the lexer, and `begin` the position of the
literal. -/
def stringIn (begin : Position) :
    List Char → Lexer → List Char → Except LexError (TokenKind × Lexer)
  | [], _, _ => .error (error "unterminated string literal" begin)
  | '"' :: _, lexer, value => .ok (.string (String.ofList value), lexer.bump.2)
  | ['\\'], _, _ => .error (error "unterminated string literal" begin)
  | '\\' :: escaped :: rest, lexer, value =>
    match unescape escaped with
    | some ch => stringIn begin rest lexer.bump.2.bump.2 (value ++ [ch])
    | none => .error (error ("unsupported string escape `\\" ++ escaped.toString ++ "`") begin)
  | '\n' :: _, _, _ => .error (error "unterminated string literal" begin)
  | ch :: rest, lexer, value => stringIn begin rest lexer.bump.2 (value ++ [ch])

/-- `string`. -/
def string (lexer : Lexer) : Except LexError (TokenKind × Lexer) :=
  let inside := lexer.bump.2
  stringIn lexer.position inside.rest inside []

section

variable (tables : UnicodeTables)

def startsName (ch : Char) : Bool := ch == '_' || tables.isXidStart ch

def continuesName (ch : Char) : Bool := ch == '_' || tables.isXidContinue ch

/-- `identifier`. -/
def identifier (lexer : Lexer) : TokenKind × Lexer :=
  let (name, next) := lexer.bumpWhile (continuesName tables)
  let text := tables.nfc (String.ofList name)
  ((keyword text).getD (.ident text), next)

/-- `region_name`. -/
def regionName (lexer : Lexer) : Except LexError (TokenKind × Lexer) :=
  let inside := lexer.bump.2
  match inside.peek with
  | none => .error (error "expected a region name after `'`" lexer.position)
  | some first =>
    if startsName tables first then
      let (name, next) := inside.bumpWhile (continuesName tables)
      .ok (.regionName (tables.nfc (String.ofList name)), next)
    else .error (error "expected a region name after `'`" lexer.position)

end

/-- The kind of the first choice whose character comes next, which is taken. -/
def choose (lexer : Lexer) (otherwise : TokenKind) : List (Char × TokenKind) → TokenKind × Lexer
  | [] => (otherwise, lexer)
  | (expected, kind) :: rest =>
    match lexer.take expected with
    | some next => (kind, next)
    | none => lexer.choose otherwise rest

/-- The punctuation that `ch` begins; the lexer is behind `ch`, and `begin` is the position of
`ch`. -/
def punctuation (ch : Char) (begin : Position) (lexer : Lexer) :
    Except LexError (TokenKind × Lexer) :=
  match ch with
  | '(' => .ok (.lParen, { lexer with delimiterDepth := lexer.delimiterDepth + 1 })
  | ')' => .ok (.rParen, { lexer with delimiterDepth := lexer.delimiterDepth - 1 })
  | '[' => .ok (.lBracket, { lexer with delimiterDepth := lexer.delimiterDepth + 1 })
  | ']' => .ok (.rBracket, { lexer with delimiterDepth := lexer.delimiterDepth - 1 })
  | '{' => .ok (.lBrace, lexer)
  | '}' => .ok (.rBrace, lexer)
  | ':' => .ok (.colon, lexer)
  | '.' =>
    match lexer.take '.' with
    | some second =>
      match second.take '.' with
      | some third => .ok (.ellipsis, third)
      | none => .error (error "expected a third `.` in parameter expansion" begin)
    | none => .ok (.dot, lexer)
  | ',' => .ok (.comma, lexer)
  | ';' => .ok (.semicolon, lexer)
  | '+' => .ok (lexer.choose .plus [('=', .plusEqual)])
  | '*' => .ok (lexer.choose .star [('=', .starEqual)])
  | '%' => .ok (lexer.choose .percent [('=', .percentEqual)])
  | '-' => .ok (lexer.choose .minus [('>', .arrow), ('=', .minusEqual)])
  | '=' => .ok (lexer.choose .equal [('=', .equalEqual), ('>', .fatArrow)])
  | '!' => .ok (lexer.choose .bang [('=', .bangEqual)])
  | '<' =>
    match lexer.take '<' with
    | some second => .ok (second.choose .shl [('=', .shlEqual)])
    | none => .ok (lexer.choose .less [('=', .lessEqual)])
  | '>' =>
    match lexer.take '>' with
    | some second => .ok (second.choose .shr [('=', .shrEqual)])
    | none => .ok (lexer.choose .greater [('=', .greaterEqual)])
  | '&' => .ok (lexer.choose .amp [('&', .andAnd), ('=', .ampEqual)])
  | '|' => .ok (lexer.choose .pipe [('|', .orOr), ('=', .pipeEqual)])
  | '^' => .ok (lexer.choose .caret [('=', .caretEqual)])
  | '?' =>
    match lexer.take '.' with
    | some next => .ok (.questionDot, next)
    | none =>
      match lexer.take '?' with
      | some next => .ok (.questionQuestion, next)
      | none => .error (error ("unexpected character `" ++ ch.toString ++ "`") begin)
  | '@' =>
    .error (error ("`@` syntax is not supported; use declaration initializers such as " ++
      "`foreign(c, \"symbol\")`") begin)
  | '/' => .ok (lexer.choose .slash [('=', .slashEqual)])
  | _ => .error (error ("unexpected character `" ++ ch.toString ++ "`") begin)

/-! ## The loop -/

section

variable (tables : UnicodeTables)

/-- The token that begins at the next character, `ch`. -/
def token (lexer : Lexer) (ch : Char) : Except LexError (TokenKind × Lexer) :=
  if ch.isDigit then lexer.number
  else if ch = '"' then lexer.string
  else if ch = '\'' then lexer.regionName tables
  else if startsName tables ch then .ok (lexer.identifier tables)
  else punctuation ch lexer.position lexer.bump.2

/-- One turn of the loop of `run`, at the next character `ch`. -/
def turn (lexer : Lexer) (tokens : List Token) (ch : Char) : Except LexError (Lexer × List Token) :=
  if ch = '\n' then .ok (lexer.logicalNewline tokens)
  else if isWhiteSpace ch then .ok (lexer.bump.2, tokens)
  else if ch = '/' ∧ lexer.peekNext = some '/' then
    .ok ((lexer.bumpWhile (· ≠ '\n')).2, tokens)
  else if ch = '/' ∧ lexer.peekNext = some '*' then lexer.blockComment tokens
  else do
    let (kind, next) ← lexer.token tables ch
    .ok (next, tokens ++ [{ kind, start := lexer.position, stop := next.position }])

/-- `run`, for as many turns as `fuel` says; `none` if they are not enough. -/
def run : Nat → Lexer → List Token → Option (Except LexError (List Token))
  | fuel, lexer, tokens =>
    match lexer.peek with
    | none =>
      some (.ok (tokens ++ [{ kind := .eof, start := lexer.position, stop := lexer.position }]))
    | some ch =>
      match fuel with
      | 0 => none
      | fuel + 1 =>
        match lexer.turn tables tokens ch with
        | .error failure => some (.error failure)
        | .ok (lexer, tokens) => run fuel lexer tokens

/-- `lex`. A turn reads a character, so there are no more turns than characters. -/
def lex (source : String) : Option (Except LexError (List Token)) :=
  run tables source.toList.length ⟨source.toList, Position.start, 0⟩ []

end

end Lexer

end Salicin.Lexing
