import Salicin.Parsing.Expressions
import Salicin.Parsing.OperatorTrees
import Mathlib.Tactic.IntervalCases

/-!
# The levels of the parser

Each level takes the tokens of its own operators. When the tokens that follow belong to none of
the levels from one on, what is read at a tighter level is what is read at that one.
-/

namespace Salicin.Parsing

open Nat Salicin.Source TokenParser

theorem asyncDepth_parsersOf (asyncDepth depth : Nat) :
    (parsersOf asyncDepth depth).asyncDepth = asyncDepth := by
  cases depth <;> rfl

/-- The function of a level, down to the prefix operators. -/
def parserAt (parsers : Parsers) (allowTrailingClosure : Bool) : Nat → Parser Expr
  | 0 => assignment parsers allowTrailingClosure
  | 1 => coalesce parsers allowTrailingClosure
  | 2 => logicalOr parsers allowTrailingClosure
  | 3 => logicalAnd parsers allowTrailingClosure
  | 4 => bitwiseOr parsers allowTrailingClosure
  | 5 => bitwiseXor parsers allowTrailingClosure
  | 6 => bitwiseAnd parsers allowTrailingClosure
  | 7 => equality parsers allowTrailingClosure
  | 8 => relation parsers allowTrailingClosure
  | 9 => shift parsers allowTrailingClosure
  | 10 => additive parsers allowTrailingClosure
  | 11 => multiplicative parsers allowTrailingClosure
  | _ => unary parsers allowTrailingClosure

def operatorsAt : Nat → List (Token × BinaryOp)
  | 2 => [(.orOr, .or)]
  | 3 => [(.andAnd, .and)]
  | 4 => [(.pipe, .bitOr)]
  | 5 => [(.caret, .bitXor)]
  | 6 => [(.amp, .bitAnd)]
  | 7 => [(.equalEqual, .eq), (.bangEqual, .ne)]
  | 8 => [(.less, .lt), (.lessEqual, .le), (.greater, .gt), (.greaterEqual, .ge)]
  | 9 => [(.shl, .shl), (.shr, .shr)]
  | 10 => [(.plus, .add), (.minus, .sub)]
  | 11 => [(.star, .mul), (.slash, .div), (.percent, .rem)]
  | _ => []

def chainedMessage : Nat → String
  | 7 => "equality operators cannot be chained"
  | _ => "comparison operators cannot be chained"

variable {level : Nat}

/-- A level of infix operators between two operands of the next level. -/
theorem parserAt_operators (parsers : Parsers) (allowTrailingClosure : Bool) (hlow : 2 ≤ level)
    (hhigh : level ≤ 11) :
    parserAt parsers allowTrailingClosure level = if level = 7 ∨ level = 8 then
        nonAssociative (operatorsAt level) (chainedMessage level)
          (parserAt parsers allowTrailingClosure (level + 1))
      else leftAssociative (operatorsAt level)
        (parserAt parsers allowTrailingClosure (level + 1)) := by
  interval_cases level <;> rfl

theorem parserAt_unary (parsers : Parsers) (allowTrailingClosure : Bool) :
    parserAt parsers allowTrailingClosure 12 = unary parsers allowTrailingClosure := rfl

/-- The lowest level that an expression with the token behind it can have. -/
def follow : Token → Nat
  | .rParen | .rBracket | .comma => 0
  | .equal | .plusEqual | .minusEqual | .starEqual | .slashEqual | .percentEqual | .ampEqual
  | .pipeEqual | .caretEqual | .shlEqual | .shrEqual => 1
  | .questionQuestion => 2
  | .orOr => 3
  | .andAnd => 4
  | .pipe => 5
  | .caret => 6
  | .amp => 7
  | .equalEqual | .bangEqual => 8
  | .less | .lessEqual | .greater | .greaterEqual => 9
  | .shl | .shr => 10
  | .plus | .minus => 11
  | .star | .slash | .percent => 12
  | _ => 16

/-- An expression of the level ends before these tokens. -/
def Stops (level : Nat) (rest : List Token) : Prop := ∀ token ∈ rest.head?, follow token ≤ level

variable {rest : List Token}

theorem Stops.mono {first second : Nat} (hstops : Stops first rest) (hle : first ≤ second) :
    Stops second rest :=
  fun token htoken => le_trans (hstops token htoken) hle

variable {token : Token}

theorem stops_cons (htoken : follow token ≤ level) (rest : List Token) :
    Stops level (token :: rest) := by
  intro first hfst
  simp only [List.head?_cons, Option.mem_def, Option.some.injEq] at hfst
  exact hfst ▸ htoken

variable (op : BinaryOp)

theorem parserLevel_le : parserLevel op ≤ 11 := by
  cases op <;> decide

theorem two_le_parserLevel : 2 ≤ parserLevel op := by
  cases op <;> decide

theorem chains_eq :
    chains op = decide (¬ (parserLevel op = 7 ∨ parserLevel op = 8)) := by
  cases op <;> rfl

theorem chains_of_level {first second : BinaryOp}
    (hlevel : parserLevel first = parserLevel second) : chains first = chains second := by
  rw [chains_eq, chains_eq, hlevel]

theorem follow_binaryToken : follow (binaryToken op) = parserLevel op + 1 := by
  cases op <;> rfl

theorem stops_binaryToken (tail : List Token) :
    Stops (parserLevel op + 1) (binaryToken op :: tail) :=
  stops_cons (le_of_eq (follow_binaryToken op)) tail

theorem operatorOf_binaryToken :
    operatorOf (operatorsAt (parserLevel op)) (binaryToken op) = some op := by
  cases op <;> rfl

theorem mem_operatorsAt :
    ∀ entry ∈ operatorsAt level, entry.1 = binaryToken entry.2 ∧ parserLevel entry.2 = level := by
  unfold operatorsAt
  split <;> first | decide | simp

theorem operatorOf_eq_some {op : BinaryOp} (hop : operatorOf (operatorsAt level) token = some op) :
    token = binaryToken op ∧ parserLevel op = level := by
  obtain ⟨front, back, heq, _⟩ := List.lookup_eq_some_iff.mp hop
  refine mem_operatorsAt (token, op) ?_
  rw [heq]
  simp

theorem operatorOf_of_stops (hstops : Stops level rest) :
    ∀ token ∈ rest.head?, operatorOf (operatorsAt level) token = none := by
  intro token htoken
  cases hop : operatorOf (operatorsAt level) token with
  | none => rfl
  | some op =>
    obtain ⟨rfl, rfl⟩ := operatorOf_eq_some hop
    have hfollow := hstops _ htoken
    rw [follow_binaryToken] at hfollow
    exact absurd hfollow (not_succ_le_self _)

theorem mem_compoundOperators :
    ∀ entry ∈ compoundOperators, compoundToken entry.2 = some entry.1 ∧ follow entry.1 = 1 := by
  decide

theorem operatorOf_compound_eq_some {op : BinaryOp}
    (hop : operatorOf compoundOperators token = some op) :
    compoundToken op = some token ∧ follow token = 1 := by
  obtain ⟨front, back, heq, _⟩ := List.lookup_eq_some_iff.mp hop
  refine mem_compoundOperators (token, op) ?_
  rw [heq]
  simp

theorem operatorOf_compoundToken {op : BinaryOp} (htoken : compoundToken op = some token) :
    operatorOf compoundOperators token = some op := by
  cases op <;>
  · simp only [compoundToken, Option.some.injEq, reduceCtorEq] at htoken
    try (subst htoken; rfl)

theorem operatorOf_compound_of_stops (hstops : Stops 0 rest) :
    ∀ token ∈ rest.head?, operatorOf compoundOperators token = none := by
  intro token htoken
  cases hop : operatorOf compoundOperators token with
  | none => rfl
  | some op =>
    have hfollow := hstops token htoken
    rw [(operatorOf_compound_eq_some hop).2] at hfollow
    exact absurd hfollow (not_succ_le_self 0)

theorem Stops.ne (hstops : Stops level rest) (token : Token) (htoken : level < follow token) :
    ∀ first ∈ rest.head?, first ≠ token := by
  rintro first hfst rfl
  exact absurd (hstops first hfst) (not_le.mpr htoken)

/-! ## One level down -/

section Descend

variable {parsers : Parsers} {allowTrailingClosure : Bool} {tokens rest : List Token}
  {expr : Expr}

theorem assignment_of_coalesce
    (hread : coalesce parsers allowTrailingClosure tokens = .ok (expr, rest))
    (hstops : Stops 0 rest) :
    assignment parsers allowTrailingClosure tokens = .ok (expr, rest) := by
  rw [assignment, bind_of_ok hread, bind_of_ok (position_apply rest),
    bind_of_ok (takeMap_of_none (operatorOf_compound_of_stops hstops)),
    bind_of_ok (position_apply rest),
    bind_of_ok (take_of_ne (hstops.ne .equal (by decide)))]
  rfl

theorem coalesce_of_logicalOr
    (hread : logicalOr parsers allowTrailingClosure tokens = .ok (expr, rest))
    (hstops : Stops 1 rest) :
    coalesce parsers allowTrailingClosure tokens = .ok (expr, rest) := by
  rw [coalesce, bind_of_ok hread, bind_of_ok (take_of_ne (hstops.ne .questionQuestion (by decide)))]
  rfl

theorem nonAssociative_of_operand {opnd : Parser Expr}
    (hread : opnd tokens = .ok (expr, rest)) (hstops : Stops level rest) (chained : String) :
    nonAssociative (operatorsAt level) chained opnd tokens = .ok (expr, rest) := by
  rw [nonAssociative, bind_of_ok hread, bind_of_ok (takeMap_of_none (operatorOf_of_stops hstops))]
  rfl

theorem leftAssociative_of_operand {opnd : Parser Expr}
    (hread : opnd tokens = .ok (expr, rest)) (hstops : Stops level rest) :
    leftAssociative (operatorsAt level) opnd tokens = .ok (expr, rest) := by
  rw [leftAssociative, chainLeft_of_operand hread]
  exact chainLoop_stop (succ_pos _) (operatorOf_of_stops hstops)

/-- What is read at a level is read at the level below it, when no operator of that one
follows. -/
theorem parserAt_descend (hlevel : level ≤ 11)
    (hread : parserAt parsers allowTrailingClosure (level + 1) tokens = .ok (expr, rest))
    (hstops : Stops level rest) :
    parserAt parsers allowTrailingClosure level tokens = .ok (expr, rest) := by
  by_cases hbinary : 2 ≤ level
  · rw [parserAt_operators parsers allowTrailingClosure hbinary hlevel]
    split
    · exact nonAssociative_of_operand hread hstops _
    · exact leftAssociative_of_operand hread hstops
  · interval_cases level
    · exact assignment_of_coalesce hread hstops
    · exact coalesce_of_logicalOr hread hstops

theorem parserAt_descend_le {low high : Nat} (hle : low ≤ high) (hhigh : high ≤ 12)
    (hread : parserAt parsers allowTrailingClosure high tokens = .ok (expr, rest))
    (hstops : Stops low rest) :
    parserAt parsers allowTrailingClosure low tokens = .ok (expr, rest) := by
  induction hle using Nat.decreasingInduction with
  | self => exact hread
  | of_succ level hlevel ih =>
    exact parserAt_descend (by omega) (ih (hstops.mono (le_succ level))) hstops

end Descend

/-! ## Where suffixes end -/

theorem postfixLoop_stop {parsers : Parsers} {allowTrailingClosure canTake : Bool} {fuel : Nat}
    {expr : Expr} (hfuel : 0 < fuel) (hstops : Stops 12 rest) :
    postfixLoop parsers allowTrailingClosure fuel expr canTake rest =
      .ok (expr, rest) := by
  obtain ⟨fuel, rfl⟩ := exists_eq_succ_of_ne_zero (pos_iff_ne_zero.mp hfuel)
  cases rest with
  | nil => simp [postfixLoop, bareCallArgumentCanStart]
  | cons token tail =>
    have htoken := hstops token rfl
    cases token <;> simp only [follow] at htoken <;>
      first
      | exact absurd htoken (by decide)
      | simp [postfixLoop, bareCallArgumentCanStart, tokenCanStartBareCallArgument]

theorem unary_of_postfixed {parsers : Parsers} {allowTrailingClosure : Bool} {tokens : List Token}
    (hbegins : ∀ token ∈ tokens.head?, BeginsSuffixed parsers.asyncDepth token) :
    unary parsers allowTrailingClosure tokens = postfixed parsers allowTrailingClosure tokens := by
  cases tokens with
  | nil => rfl
  | cons token tail =>
    have htoken := hbegins token rfl
    cases token <;> simp only [BeginsSuffixed] at htoken <;> try rfl
    simp only [unary]
    rw [if_neg (fun hawait => htoken.2.2 hawait.1 hawait.2), if_neg htoken.1, if_neg htoken.2.1]

end Salicin.Parsing
