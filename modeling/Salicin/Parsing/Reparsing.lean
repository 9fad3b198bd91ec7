import Salicin.Parsing.Levels

/-!
# Reading an operand

What it means that the tokens of an expression are read as that expression, at its own level, as
the beginning of a chain and before suffixes. From this an operand is read at the level that its
operator needs, as itself or between parentheses, and what follows it stops it there.
-/

namespace Salicin.Parsing

open Nat List Salicin.Source TokenParser

/-- No star follows the borrow of a name. -/
def EndsBefore (expr : Expr) (rest : List Token) : Prop :=
  endsInNameBorrow expr = true → rest.head? ≠ some .star

variable {rest : List Token}

theorem endsBefore_of_stops {level : Nat} (hstops : Stops level rest) (hlevel : level ≤ 11)
    (expr : Expr) : EndsBefore expr rest := by
  intro _ hstar
  exact hstops.ne .star (lt_succ_of_le hlevel) _ hstar rfl

/-- The tokens of an expression are read as that expression. -/
structure Reparses (asyncDepth : Nat) (expr : Expr) : Prop where
  begins : Begins expr (parserTable.body expr)
  beginsSuffixed : 13 ≤ parserTable.level expr →
    ∀ token ∈ (parserTable.body expr).head?, BeginsSuffixed asyncDepth token
  /-- At its own level. -/
  read : ∀ depth allow rest, (parserTable.body expr ++ rest).length ≤ depth →
    Stops (min 12 (parserTable.level expr)) rest → EndsBefore expr rest →
    parserAt (parsersOf asyncDepth depth) allow (min 12 (parserTable.level expr))
      (parserTable.body expr ++ rest) = .ok (expr, rest)
  /-- As the first operands of a longer chain. -/
  chain : ∀ left op right, expr = .binary left op right → chains op = true → ∀ depth allow rest,
    (parserTable.body expr ++ rest).length ≤ depth →
    Stops (parserLevel op + 1) rest → EndsBefore expr rest →
    ∃ fuel, rest.length < fuel ∧ leftAssociative (operatorsAt (parserLevel op))
        (parserAt (parsersOf asyncDepth depth) allow (parserLevel op + 1))
        (parserTable.body expr ++ rest) =
      chainLoop (operatorOf (operatorsAt (parserLevel op)))
        (fun op left right => .binary left op right)
        (parserAt (parsersOf asyncDepth depth) allow (parserLevel op + 1)) .exhausted fuel
        expr rest
  /-- As what suffixes follow. -/
  suffix : 13 ≤ parserTable.level expr → ∀ depth allow rest,
    (parserTable.body expr ++ rest).length ≤ depth →
    (parserTable.level expr = 13 → rest.head? ≠ some .bang) →
    ∃ fuel canTake, rest.length < fuel ∧
      postfixed (parsersOf asyncDepth depth) allow (parserTable.body expr ++ rest) =
        postfixLoop (parsersOf asyncDepth depth) allow fuel expr canTake rest

@[simp] theorem expect_self (kind : Token) (msg : String) (rest : List Token) :
    expect kind msg (kind :: rest) = .ok ((), rest) := by
  rw [expect, bind_of_ok (take_self kind rest)]
  rfl

theorem expectIdent_ident (msg : String) (word : Word) (rest : List Token) :
    expectIdent msg (.ident word :: rest) = .ok (word, rest) := rfl

variable {asyncDepth : Nat} {expr : Expr}

theorem eq_binary_of_level {op : BinaryOp} (hlevel : parserTable.level expr = parserLevel op) :
    ∃ left inner right, expr = .binary left inner right := by
  have hlow := two_le_parserLevel op
  have hhigh := parserLevel_le op
  cases expr
  case binary left inner right => exact ⟨left, inner, right, rfl⟩
  all_goals
    simp only [OperatorTable.level, parserTable] at hlevel
    omega

theorem print_succ {level : Nat} (hlevel : parserTable.level expr ≠ level) :
    parserTable.print level expr = parserTable.print (level + 1) expr := by
  unfold OperatorTable.print OperatorTable.group
  split <;> split <;> first | rfl | omega

/-! ## Reading an operand -/

namespace Reparses

variable {depth : Nat}

section
variable (hexpr : Reparses asyncDepth expr)
include hexpr

theorem read_assignment {allow : Bool}
    (hlen : (parserTable.body expr ++ rest).length ≤ depth) (hstops : Stops 0 rest) :
    parserAt (parsersOf asyncDepth depth) allow 0 (parserTable.body expr ++ rest) =
      .ok (expr, rest) :=
  parserAt_descend_le (zero_le _) (min_le_left _ _)
    (hexpr.read depth allow rest hlen (hstops.mono (zero_le _))
      (endsBefore_of_stops hstops (zero_le _) expr)) hstops

/-- An expression inside a group or after an operator that has been taken. -/
theorem read_expression {allow : Bool}
    (hlen : (parserTable.body expr ++ rest).length < depth) (hstops : Stops 0 rest) :
    (parsersOf asyncDepth depth).expression allow (parserTable.body expr ++ rest) =
      .ok (expr, rest) := by
  obtain ⟨depth, rfl⟩ := exists_eq_succ_of_ne_zero (ne_zero_of_lt hlen)
  exact hexpr.read_assignment (le_of_lt_succ hlen) hstops

theorem primary_parenthesized
    (hlen : (.lParen :: (parserTable.body expr ++ .rParen :: rest)).length ≤ depth) :
    primary (parsersOf asyncDepth depth)
      (.lParen :: (parserTable.body expr ++ .rParen :: rest)) = .ok (expr, rest) := by
  have hhead : ∀ token ∈ (parserTable.body expr ++ .rParen :: rest).head?,
      token ≠ .rParen := by
    rw [List.head?_append_of_ne_nil _ hexpr.begins.ne_nil]
    rintro token htoken rfl
    exact absurd (hexpr.begins.head _ htoken) (by decide)
  have hread : (parsersOf asyncDepth depth).expression true
      (parserTable.body expr ++ .rParen :: rest) = .ok (expr, .rParen :: rest) :=
    hexpr.read_expression (by simp only [length_cons] at hlen; omega)
      (stops_cons (by decide) rest)
  simp only [primary, groupOrTuple]
  rw [bind_of_ok (take_of_ne hhead)]
  simp only [Bool.false_eq_true, if_false]
  rw [bind_of_ok hread, bind_of_ok (take_other (by decide) rest)]
  simp only [Bool.false_eq_true, if_false]
  rw [bind_of_ok (expect_self _ _ _)]
  rfl

/-- What suffixes follow is read as itself or between parentheses. -/
theorem suffix_print {needed : Nat} (allow : Bool) (hneeded : 13 ≤ needed) (hle : needed ≤ 15)
    (hlen : (parserTable.print needed expr ++ rest).length ≤ depth)
    (hbang : needed = 13 → rest.head? ≠ some .bang) :
    ∃ fuel canTake, rest.length < fuel ∧
      postfixed (parsersOf asyncDepth depth) allow (parserTable.print needed expr ++ rest) =
        postfixLoop (parsersOf asyncDepth depth) allow fuel expr canTake rest := by
  unfold OperatorTable.print OperatorTable.group at hlen ⊢
  split
  · next hlevel =>
      rw [if_pos hlevel] at hlen
      simp only [cons_append, append_assoc, nil_append] at hlen ⊢
      refine ⟨rest.length + 1, false, lt_succ_self _, ?_⟩
      rw [postfixed, bind_of_ok (hexpr.primary_parenthesized hlen)]
      rfl
  · next hlevel =>
      rw [if_neg hlevel] at hlen
      exact hexpr.suffix (by omega) depth allow rest hlen (fun heq => hbang (by omega))

theorem read_parenthesized {level : Nat} {allow : Bool} (hlevel : level ≤ 12)
    (hlen : (.lParen :: (parserTable.body expr ++ .rParen :: rest)).length ≤ depth)
    (hstops : Stops level rest) :
    parserAt (parsersOf asyncDepth depth) allow level
      (.lParen :: (parserTable.body expr ++ .rParen :: rest)) = .ok (expr, rest) := by
  apply parserAt_descend_le hlevel (le_refl 12) _ hstops
  rw [parserAt_unary, unary_of_postfixed (by simp [BeginsSuffixed]), postfixed,
    bind_of_ok (hexpr.primary_parenthesized hlen)]
  exact postfixLoop_stop (succ_pos _) (hstops.mono hlevel)

theorem read_print {level : Nat} (allow : Bool) (hlevel : level ≤ 12)
    (hlen : (parserTable.print level expr ++ rest).length ≤ depth) (hstops : Stops level rest)
    (hends : level ≤ parserTable.level expr → EndsBefore expr rest) :
    parserAt (parsersOf asyncDepth depth) allow level (parserTable.print level expr ++ rest) =
      .ok (expr, rest) := by
  unfold OperatorTable.print OperatorTable.group at hlen ⊢
  split
  · next hlow =>
      rw [if_pos hlow] at hlen
      simp only [cons_append, append_assoc, nil_append] at hlen ⊢
      exact hexpr.read_parenthesized hlevel hlen hstops
  · next hhigh =>
      rw [if_neg hhigh] at hlen
      have hle : level ≤ min 12 (parserTable.level expr) := by omega
      exact parserAt_descend_le hle (min_le_left _ _)
        (hexpr.read depth allow rest hlen (hstops.mono hle) (hends (by omega))) hstops

/-- The first operand of a chain leaves the loop at the operator behind it. -/
theorem chain_print {op : BinaryOp} (hchains : chains op = true) (allow : Bool)
    (hlen :
      (parserTable.print (parserLevel op) expr ++ rest).length ≤ depth)
    (hstops : Stops (parserLevel op + 1) rest)
    (hends : parserLevel op ≤ parserTable.level expr → EndsBefore expr rest) :
    ∃ fuel, rest.length < fuel ∧ leftAssociative (operatorsAt (parserLevel op))
        (parserAt (parsersOf asyncDepth depth) allow (parserLevel op + 1))
        (parserTable.print (parserLevel op) expr ++ rest) =
      chainLoop (operatorOf (operatorsAt (parserLevel op)))
        (fun op left right => .binary left op right)
        (parserAt (parsersOf asyncDepth depth) allow (parserLevel op + 1)) .exhausted fuel
        expr rest := by
  by_cases hlevel : parserTable.level expr = parserLevel op
  · -- a chain of the same level goes on
    obtain ⟨left, inner, right, rfl⟩ := eq_binary_of_level hlevel
    have hsame : parserLevel inner = parserLevel op := hlevel
    rw [← hsame] at hlen hstops hends ⊢
    have hbare : parserTable.print (parserLevel inner) (.binary left inner right) =
        parserTable.body (.binary left inner right) := if_neg (lt_irrefl _)
    rw [hbare] at hlen ⊢
    exact hexpr.chain left inner right rfl ((chains_of_level hsame).trans hchains) depth
      allow rest hlen hstops (hends (le_refl _))
  · rw [print_succ hlevel] at hlen ⊢
    have hnext : parserLevel op + 1 ≤ 12 := succ_le_succ (parserLevel_le op)
    refine ⟨rest.length + 1, lt_succ_self _, ?_⟩
    rw [leftAssociative, chainLeft_of_operand
      (hexpr.read_print allow hnext hlen hstops (fun hle => hends (by omega)))]

end

end Reparses

end Salicin.Parsing
