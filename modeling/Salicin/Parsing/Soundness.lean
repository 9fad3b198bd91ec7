import Salicin.Parsing.SuffixSoundness

/-!
# What the parser accepts

The functions of each level read what the operator grammar derives at that level. As the calls
nest no deeper than there are tokens, an expression that the grammar does not derive is rejected
with an error that is reported.
-/

namespace Salicin.Parsing

open Nat List Salicin.Source TokenParser

variable {parsers : Parsers} {bound : Nat} {tokens : List Token}

/-! ## Prefix operators -/

theorem reads_borrowRegion (tokens : List Token) :
    Reads IsReported borrowRegion tokens fun read _ =>
      read = [] ∨ ∃ name, read = [.comma, .ident name] := by
  rw [borrowRegion]
  apply (reads_take .comma tokens).bind
  rintro read taken rest htoks (⟨rfl, rfl⟩ | ⟨rfl, rfl⟩)
  · exact reads_pure (.inl rfl)
  · clear htoks
    cases rest with
    | nil => exact reads_error rfl trivial
    | cons token tail =>
      cases token
      case ident name => exact reads_ok [.ident name] rfl rfl (.inr ⟨name, rfl⟩)
      all_goals exact reads_error rfl trivial

theorem reads_borrowArguments (tokens : List Token) :
    Reads IsReported borrowArguments tokens fun read access =>
      BorrowQualifier access.1 access.2 (.lParen :: read) := by
  rw [borrowArguments]
  apply (reads_expectIdent _ tokens).bind
  rintro _ word rest _ rfl
  apply (reads_borrowRegion rest).bind
  intro region _ tail _ hregion
  apply (reads_expect .rParen _ tail).bind
  rintro _ _ last _ rfl
  apply reads_pure
  simpa using BorrowQualifier.group word hregion

theorem reads_borrowQualifier (tokens : List Token) :
    Reads IsReported borrowQualifier tokens fun read access =>
      BorrowQualifier access.1 access.2 read := by
  rw [borrowQualifier]
  apply reads_bind_position
  split
  · apply (reads_expect .lParen _ tokens).bind
    rintro _ _ rest _ rfl
    exact reads_borrowArguments rest
  · exact reads_pure .none

theorem reads_borrowGroupExpression (hparse : SoundParsers parsers bound)
    (hwithin : Within bound tokens) (mutable : Bool) (access : Option Word) (op : List Token) :
    Reads IsReported (borrowGroupExpression parsers mutable access op) tokens
      fun read expression => ∃ inner value, read = .lParen :: (inner ++ [.rParen]) ∧
        expression = .borrow mutable access value ∧ value.isAssignablePlace = true ∧
        Derives parserTable parsers.asyncDepth 0 true inner value := by
  rw [borrowGroupExpression]
  apply (reads_expect .lParen _ tokens).bind
  rintro _ _ rest htoks rfl
  apply reads_bind_position
  split
  · exact reads_errorHere _ rest
  · apply (reads_expression hparse (hwithin.rest htoks) true).bind
    intro inner value tail _ hval
    apply (reads_expect .rParen _ tail).bind
    rintro _ _ last _ rfl
    split
    · next hplace => exact reads_pure ⟨inner, value, by simp, rfl, hplace, hval.2⟩
    · exact reads_errorAt _ _ last

theorem reads_borrowExpression (hparse : SoundParsers parsers bound) (hwithin : Within bound tokens)
    (op : List Token) (trailing : Bool) {word : Word} (hword : word.text = "borrow") :
    Reads IsReported (borrowExpression parsers op) tokens fun read expression =>
      Yields parsers.asyncDepth 12 trailing (.ident word :: read) expression := by
  rw [borrowExpression]
  apply (reads_borrowQualifier tokens).bind
  rintro qualifier ⟨mutable, access⟩ rest htoks hqualifier
  dsimp only at hqualifier ⊢
  apply reads_bind_position
  split
  · apply (reads_borrowGroupExpression hparse (hwithin.rest htoks) mutable access
      op).mono
    rintro _ _ ⟨inner, value, rfl, rfl, hplace, hval⟩
    exact ⟨by simp, .borrow hword hqualifier hplace hval⟩
  · exact reads_errorAt _ _ rest

theorem reads_prefixed (hparse : SoundParsers parsers bound) (hwithin : Within bound tokens)
    (trailing : Bool) (token : Token) (node : Expr → Expr)
    (hnode : ∀ read opnd, Derives parserTable parsers.asyncDepth 12 trailing read opnd →
      Derives parserTable parsers.asyncDepth 12 trailing (token :: read) (node opnd)) :
    Reads IsReported (prefixed parsers trailing node) tokens fun read expression =>
      Yields parsers.asyncDepth 12 trailing (token :: read) expression := by
  rw [prefixed]
  apply (hparse.unary trailing tokens hwithin).bind
  intro read opnd rest _ hoperand
  apply reads_pure
  rw [append_nil]
  exact ⟨cons_ne_nil _ _, hnode read opnd hoperand.2⟩

theorem reads_unary (hparse : SoundParsers parsers bound)
    (hwithin : Within (bound + 1) tokens) (trailing : Bool) :
    Reads IsReported (unary parsers trailing) tokens
      (Yields parsers.asyncDepth 12 trailing) := by
  have hpostfixed : unary parsers trailing tokens = postfixed parsers trailing tokens →
      Reads IsReported (unary parsers trailing) tokens
        (Yields parsers.asyncDepth 12 trailing) := by
    intro heq
    have hread := (reads_postfixed hparse hwithin trailing).mono
      (fun read expression hyields => hyields.looser (le_succ 12))
    unfold Reads at hread ⊢
    rwa [heq]
  cases tokens with
  | nil => exact hpostfixed rfl
  | cons token rest =>
    have hrest := hwithin.tail
    cases token
    case minus =>
      exact reads_rest rfl (reads_prefixed hparse hrest trailing .minus (.unary .neg)
        (fun _ _ hoperand => .unary .neg hoperand))
    case bang =>
      exact reads_rest rfl (reads_prefixed hparse hrest trailing .bang (.unary .not)
        (fun _ _ hoperand => .unary .not hoperand))
    case star =>
      exact reads_rest rfl (reads_prefixed hparse hrest trailing .star (.unary .deref)
        (fun _ _ hoperand => .unary .deref hoperand))
    case ident word =>
      by_cases hawait : 0 < parsers.asyncDepth ∧ word.text = "await"
      · exact reads_rest (if_pos hawait) (reads_prefixed hparse hrest trailing (.ident word)
          .await (fun _ _ hoperand => .await hawait.1 hawait.2 hoperand))
      · by_cases hborrow : word.text = "borrow"
        · exact reads_rest ((if_neg hawait).trans (if_pos hborrow))
            (reads_borrowExpression hparse hrest _ trailing hborrow)
        · by_cases hmut : word.text = "mut"
          · refine reads_ok [.ident word]
              ((if_neg hawait).trans ((if_neg hborrow).trans (if_pos hmut))) rfl ?_
            exact ⟨by simp, .mutName hmut⟩
          · exact hpostfixed ((if_neg hawait).trans ((if_neg hborrow).trans (if_neg hmut)))
    all_goals exact hpostfixed rfl

/-! ## Infix operators -/

theorem Yields.binary {asyncDepth level : Nat} {trailing : Bool} {read more : List Token}
    {left right : Expr} {token : Token} {op : BinaryOp}
    (hop : operatorOf (operatorsAt level) token = some op)
    (hleft : Derives parserTable asyncDepth (parserTable.left op) trailing read left)
    (hright : Yields asyncDepth (level + 1) trailing more right) :
    Yields asyncDepth level trailing (read ++ token :: more) (.binary left op right) := by
  obtain ⟨rfl, rfl⟩ := operatorOf_eq_some hop
  exact ⟨by simp, .binary op hleft hright.2⟩

theorem reads_leftAssociative {opnd : Parser Expr} {asyncDepth level : Nat} {trailing : Bool}
    (hlevel : ¬ (level = 7 ∨ level = 8))
    (hoperand : ∀ tail : List Token, tail <:+ tokens →
      Reads IsReported opnd tail (Yields asyncDepth (level + 1) trailing)) :
    Reads IsReported (leftAssociative (operatorsAt level) opnd) tokens
      (Yields asyncDepth level trailing) := by
  apply chainLeft_reads hoperand
  · intro read value hval
    exact hval.looser (le_succ level)
  · intro read left token op more right hleft hop hright
    refine .binary hop ?_ hright
    have hsame := (operatorOf_eq_some hop).2
    have hchains : chains op = true := by
      rw [chains_eq, hsame]
      exact decide_eq_true hlevel
    have hlevelLeft : parserTable.left op = level := (if_pos hchains).trans hsame
    rw [hlevelLeft]
    exact hleft.2

theorem reads_nonAssociative {opnd : Parser Expr} {asyncDepth level : Nat} {trailing : Bool}
    (hlevel : level = 7 ∨ level = 8) (chained : String)
    (hoperand : ∀ tail : List Token, tail <:+ tokens →
      Reads IsReported opnd tail (Yields asyncDepth (level + 1) trailing)) :
    Reads IsReported (nonAssociative (operatorsAt level) chained opnd) tokens
      (Yields asyncDepth level trailing) := by
  rw [nonAssociative]
  apply (hoperand tokens (suffix_refl tokens)).bind
  intro read left rest htoks hleft
  apply (reads_takeMap (operatorOf (operatorsAt level)) rest).bind
  rintro _ taken tail hrest (⟨rfl, rfl⟩ | ⟨token, op, rfl, hop, rfl⟩)
  · exact reads_pure (by simpa using hleft.looser (le_succ level))
  · have hsuffix : tail <:+ tokens := ⟨read ++ [token], by rw [htoks, hrest]; simp⟩
    dsimp only
    apply (hoperand tail hsuffix).bind
    intro more right last _ hright
    apply reads_bind_position
    split
    · exact reads_errorHere _ last
    · apply reads_pure
      have hsame := (operatorOf_eq_some hop).2
      have hchains : ¬ chains op = true := by
        rw [chains_eq, hsame]
        simp [hlevel]
      have hlevelLeft : parserTable.left op = level + 1 :=
        (if_neg hchains).trans (congrArg (· + 1) hsame)
      have hbinary : Yields asyncDepth level trailing (read ++ token :: more)
          (.binary left op right) := .binary hop (hlevelLeft ▸ hleft.2) hright
      simpa using hbinary

theorem reads_coalesce (hparse : SoundParsers parsers bound)
    (hwithin : Within (bound + 1) tokens) (trailing : Bool)
    (hoperand : Reads IsReported (logicalOr parsers trailing) tokens
      (Yields parsers.asyncDepth 2 trailing)) :
    Reads IsReported (coalesce parsers trailing) tokens
      (Yields parsers.asyncDepth 1 trailing) := by
  rw [coalesce]
  apply hoperand.bind
  intro read left rest htoks hleft
  apply (reads_take .questionQuestion rest).bind
  rintro _ taken tail hrest (⟨rfl, rfl⟩ | ⟨rfl, rfl⟩)
  · exact reads_pure (by simpa using hleft.looser (le_succ 1))
  · rw [if_pos rfl]
    have htail := (hwithin.next htoks hleft.1).rest hrest
    apply (hparse.coalesce trailing tail htail).bind
    intro more right last _ hright
    apply reads_pure
    have hres : Derives parserTable parsers.asyncDepth 1 trailing
        (read ++ .questionQuestion :: more) (.coalesce left right) := .coalesce hleft.2 hright.2
    exact ⟨by simp, by simpa using hres⟩

theorem reads_assignment (hparse : SoundParsers parsers bound)
    (hwithin : Within (bound + 1) tokens) (trailing : Bool)
    (hoperand : Reads IsReported (coalesce parsers trailing) tokens
      (Yields parsers.asyncDepth 1 trailing)) :
    Reads IsReported (assignment parsers trailing) tokens
      (Yields parsers.asyncDepth 0 trailing) := by
  rw [assignment]
  apply hoperand.bind
  intro read left rest htoks hleft
  have hrest := hwithin.next htoks hleft.1
  apply reads_bind_position
  apply (reads_takeMap (operatorOf compoundOperators) rest).bind
  intro compound taken tail htail htaken
  have hwithinTail := hrest.rest htail
  apply reads_bind_position
  apply (reads_take .equal tail).bind
  rintro equal taken' last hlast hequal
  have hwithinLast := hwithinTail.rest hlast
  split
  · apply (hparse.assignment trailing last hwithinLast).bind
    intro more value final _ hval
    split
    · next hplace =>
        rcases htaken with ⟨rfl, rfl⟩ | ⟨token, op, rfl, hop, rfl⟩
        · rcases hequal with ⟨rfl, rfl⟩ | ⟨rfl, rfl⟩
          · next hneither => exact absurd hneither (by simp)
          · apply reads_pure
            have hres : Derives parserTable parsers.asyncDepth 0 trailing
                (read ++ .equal :: more) (.assign left value) :=
              .assign hplace hleft.2 hval.2
            exact ⟨by simp, by simpa using hres⟩
        · have htoken := (operatorOf_compound_eq_some hop).1
          rcases hequal with ⟨rfl, rfl⟩ | ⟨rfl, rfl⟩
          · apply reads_pure
            have hres : Derives parserTable parsers.asyncDepth 0 trailing
                (read ++ token :: more) (.compoundAssign left op value) :=
              .compoundAssign htoken hplace hleft.2 hval.2
            exact ⟨by simp, by simpa using hres⟩
          · -- an `=` behind a compound operator
            have hbinary : [token, .equal] <:+: rest := ⟨[], last, by rw [htail, hlast]; simp⟩
            exact absurd hbinary (hrest.2 op token htoken)
    · exact reads_errorAt _ _ final
  · next hneither =>
      rcases htaken with ⟨rfl, rfl⟩ | ⟨token, op, rfl, _, rfl⟩
      · rcases hequal with ⟨rfl, rfl⟩ | ⟨rfl, rfl⟩
        · exact reads_pure (by simpa using hleft.looser (le_succ 0))
        · exact absurd (.inl rfl) hneither
      · exact absurd (.inr rfl) hneither

/-! ## The whole parser -/

theorem reads_parserAt (hparse : SoundParsers parsers bound) {level : Nat} (hle : level ≤ 12)
    (trailing : Bool) :
    ∀ tokens, Within (bound + 1) tokens → Reads IsReported (parserAt parsers trailing level) tokens
        (Yields parsers.asyncDepth level trailing) := by
  induction hle using Nat.decreasingInduction with
  | self =>
    intro tokens hwithin
    exact reads_unary hparse hwithin trailing
  | of_succ level hlevel ih =>
    intro tokens hwithin
    by_cases hbinary : 2 ≤ level
    · have hoperand := fun tail (hsuffix : tail <:+ tokens) => ih tail (hwithin.suffix hsuffix)
      rw [parserAt_operators parsers trailing hbinary (le_of_lt_succ hlevel)]
      split
      · next hsame => exact reads_nonAssociative hsame _ hoperand
      · next hother => exact reads_leftAssociative hother hoperand
    · interval_cases level
      · exact reads_assignment hparse hwithin trailing (ih tokens hwithin)
      · exact reads_coalesce hparse hwithin trailing (ih tokens hwithin)

theorem soundParsers_parsersOf (asyncDepth : Nat) :
    ∀ depth, SoundParsers (parsersOf asyncDepth depth) depth := by
  intro depth
  induction depth with
  | zero =>
    have hnone : ∀ tokens, ¬ Within 0 tokens := fun tokens hwithin =>
      not_lt_zero _ hwithin.1
    exact ⟨fun _ tokens hwithin => absurd hwithin (hnone tokens),
      fun _ tokens hwithin => absurd hwithin (hnone tokens),
      fun _ tokens hwithin => absurd hwithin (hnone tokens)⟩
  | succ depth ih =>
    have hasync : (parsersOf asyncDepth (depth + 1)).asyncDepth =
        (parsersOf asyncDepth depth).asyncDepth := by
      rw [asyncDepth_parsersOf, asyncDepth_parsersOf]
    exact ⟨fun trailing tokens hwithin => hasync ▸
        reads_parserAt ih (zero_le 12) trailing tokens hwithin,
      fun trailing tokens hwithin => hasync ▸
        reads_parserAt ih (by decide : 1 ≤ 12) trailing tokens hwithin,
      fun trailing tokens hwithin => hasync ▸
        reads_parserAt ih (le_refl 12) trailing tokens hwithin⟩

/-- What the parser accepts is derived by the grammar, and it rejects with a reported error. -/
theorem parse_sound (asyncDepth : Nat) (hregular : Regular tokens) :
    match parse asyncDepth tokens with
    | .ok expression => Derives parserTable asyncDepth 0 true tokens expression
    | .error failure => IsReported failure := by
  have hread := reads_parserAt (soundParsers_parsersOf asyncDepth tokens.length)
    (zero_le 12) true tokens ⟨lt_succ_self _, hregular⟩
  rw [asyncDepth_parsersOf] at hread
  unfold parse
  cases hres : assignment (parsersOf asyncDepth tokens.length) true tokens with
  | error failure =>
    have hreported : IsReported failure := hread.of_error hres
    cases failure with
    | reported error => trivial
    | exhausted => exact hreported
  | ok outcome =>
    obtain ⟨expression, rest⟩ := outcome
    obtain ⟨read, htoks, hexpr⟩ := hread.of_ok hres
    cases rest with
    | nil =>
      rw [htoks, append_nil]
      exact hexpr.2
    | cons token tail => trivial

end Salicin.Parsing
