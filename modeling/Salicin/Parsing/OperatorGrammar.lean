import Salicin.Parsing.RoundTrip
import Salicin.Parsing.Soundness

/-!
# The grammar that the parser realizes

The parser realizes the operator grammar of its own table, up to a product that begins with the
borrow of a name and an `=` behind a compound assignment operator. It does not realize the
table that is documented, which puts comparisons below the bit operators.
-/

namespace Salicin.Parsing

open Salicin.Source TokenParser

/-- Expressions that are printed by the table are read back, and what its grammar does not
derive is rejected. -/
structure RealizesGrammar (table : OperatorTable) (allowed : Expr → Prop)
    (regular : List Token → Prop) : Prop where
  reads : ∀ asyncDepth expression, Expressible asyncDepth allowed expression →
    parse asyncDepth (table.print 0 expression) = .ok expression
  rejects : ∀ asyncDepth tokens, regular tokens →
    (∀ expression, ¬ Derives table asyncDepth 0 true tokens expression) →
    ∃ error, parse asyncDepth tokens = .error (.reported error)

theorem rejects_of_regular (depth : Nat) {tokens : List Token} (hregular : Regular tokens)
    (hderives : ∀ expr, ¬ Derives parserTable depth 0 true tokens expr) :
    ∃ error, parse depth tokens = .error (.reported error) := by
  have hsound := parse_sound depth hregular
  cases hparse : parse depth tokens with
  | ok expr =>
    rw [hparse] at hsound
    exact absurd hsound (hderives expr)
  | error failure =>
    rw [hparse] at hsound
    cases failure with
    | reported error => exact ⟨error, rfl⟩
    | exhausted => exact hsound.elim

/-! ## Chained comparisons -/

theorem parserAt_error_le {parsers : Parsers} {trailing : Bool} {low high : Nat}
    {tokens : List Token} {failure : Failure} (hle : low ≤ high) (hhigh : high ≤ 12)
    (herror : parserAt parsers trailing high tokens = .error failure) :
    parserAt parsers trailing low tokens = .error failure := by
  induction hle using Nat.decreasingInduction with
  | self => exact herror
  | of_succ level hlevel ih =>
    by_cases hbinary : 2 ≤ level
    · rw [parserAt_operators parsers trailing hbinary (by omega)]
      split
      · exact bind_of_error ih
      · exact chainLeft_of_error ih
    · interval_cases level
      · exact bind_of_error ih
      · exact bind_of_error ih

/-- Two operators with operands of the next level, and what follows the second one. -/
def chainTokens (left : Expr) (first : BinaryOp) (right : Expr) (second : BinaryOp)
    (rest : List Token) : List Token :=
  parserTable.print (parserLevel first + 1) left ++ binaryToken first ::
    (parserTable.print (parserLevel first + 1) right ++ binaryToken second :: rest)

/-- Operators of a level that does not chain, between three operands. -/
theorem nonAssociative_chained {asyncDepth depth : Nat} (allow : Bool) {left right : Expr}
    {first second : BinaryOp} {rest : List Token} (hleft : Reparses asyncDepth left)
    (hright : Reparses asyncDepth right) (hchains : chains first = false)
    (hlevel : parserLevel second = parserLevel first)
    (hlen : (chainTokens left first right second rest).length ≤ depth) (chained : String) :
    nonAssociative (operatorsAt (parserLevel first)) chained
      (parserAt (parsersOf asyncDepth depth) allow (parserLevel first + 1))
      (chainTokens left first right second rest) =
      .error (.reported ⟨chained, binaryToken second :: rest⟩) := by
  unfold chainTokens at hlen ⊢
  have hle : parserLevel first ≤ 8 := by
    cases first <;> first | decide | exact absurd hchains (by decide)
  have hnext : parserLevel first + 1 ≤ 12 := by omega
  have hstopFirst := stops_binaryToken first
    (parserTable.print (parserLevel first + 1) right ++ binaryToken second :: rest)
  have hstopSecond : Stops (parserLevel first + 1) (binaryToken second :: rest) :=
    hlevel ▸ stops_binaryToken second rest
  have hreadLeft := hleft.read_print allow hnext hlen hstopFirst
    (fun _ => endsBefore_of_stops hstopFirst (by omega) left)
  have hlengthRight : (parserTable.print (parserLevel first + 1) right ++
      binaryToken second :: rest).length ≤ depth := by
    rw [List.length_append, List.length_cons] at hlen
    omega
  have hreadRight := hright.read_print allow hnext hlengthRight hstopSecond
    (fun _ => endsBefore_of_stops hstopSecond (by omega) right)
  have hsnd : operatorOf (operatorsAt (parserLevel first)) (binaryToken second) =
      some second := hlevel ▸ operatorOf_binaryToken second
  rw [nonAssociative, bind_of_ok hreadLeft,
    bind_of_ok (takeMap_of_some (operatorOf_binaryToken first) _)]
  dsimp only
  rw [bind_of_ok hreadRight, bind_of_ok (position_apply _), List.head?_cons, Option.bind_some, hsnd]
  rfl

theorem parse_chained {depth : Nat} {left right : Expr} {first second : BinaryOp}
    {rest : List Token} (hleft : Expressible depth NoNameBorrowProduct left)
    (hright : Expressible depth NoNameBorrowProduct right) (hchains : chains first = false)
    (hlevel : parserLevel second = parserLevel first) :
    parse depth (chainTokens left first right second rest) =
      .error (.reported ⟨chainedMessage (parserLevel first), binaryToken second :: rest⟩) := by
  have hnonAssociative : parserLevel first = 7 ∨ parserLevel first = 8 := by
    rwa [chains_eq, decide_eq_false_iff_not, not_not] at hchains
  have herror : parserAt (parsersOf depth (chainTokens left first right second rest).length)
      true (parserLevel first) (chainTokens left first right second rest) =
      .error (.reported ⟨chainedMessage (parserLevel first), binaryToken second :: rest⟩) := by
    rw [parserAt_operators _ true (two_le_parserLevel first) (parserLevel_le first),
      if_pos hnonAssociative]
    exact nonAssociative_chained true hleft.reparses hright.reparses hchains hlevel
      (Nat.le_refl _) _
  have hread := parserAt_error_le (Nat.zero_le _) (Nat.le_succ_of_le (parserLevel_le first)) herror
  rw [parse, show assignment _ true _ = _ from hread]

/-! ## The realized grammar -/

theorem realizesGrammar_parserTable :
    RealizesGrammar parserTable NoNameBorrowProduct Regular ∧
      ∀ asyncDepth left right first second rest, Expressible asyncDepth NoNameBorrowProduct left →
        Expressible asyncDepth NoNameBorrowProduct right →
        chains first = false → parserLevel second = parserLevel first →
        parse asyncDepth (chainTokens left first right second rest) = .error (.reported
            ⟨chainedMessage (parserLevel first), binaryToken second :: rest⟩) := by
  refine ⟨⟨fun _ _ hexpressible => parse_print hexpressible,
    fun asyncDepth _ hregular hderives => rejects_of_regular asyncDepth hregular hderives⟩, ?_⟩
  intro asyncDepth left right first second rest hleft hright hchains hlevel
  exact parse_chained hleft hright hchains hlevel

/-- `(a & b) == c` is printed by the documented table as `a & b == c`. -/
theorem not_realizesGrammar_documentedTable :
    ¬ RealizesGrammar documentedTable (fun _ => True) (fun _ => True) := by
  intro hrealizes
  let a : Expr := .name (.word ⟨"a", by decide⟩)
  let b : Expr := .name (.word ⟨"b", by decide⟩)
  let c : Expr := .name (.word ⟨"c", by decide⟩)
  have hname : ∀ word : Word, word.text = "a" ∨ word.text = "b" ∨ word.text = "c" →
      Expressible 0 (fun _ => True) (.name (.word word)) := by
    intro word hword
    refine .word ⟨?_, ?_, ?_, by simp⟩ <;> rcases hword with hword | hword | hword <;>
      rw [hword] <;> decide
  have hread := hrealizes.reads 0 (.binary (.binary a .bitAnd b) .eq c)
    (.binary trivial (.binary trivial (hname _ (.inl rfl)) (hname _ (.inr (.inl rfl))))
      (hname _ (.inr (.inr rfl))))
  have hparse : parse 0 (documentedTable.print 0 (.binary (.binary a .bitAnd b) .eq c)) =
      .ok (.binary a .bitAnd (.binary b .eq c)) := rfl
  rw [hparse] at hread
  cases hread

end Salicin.Parsing
