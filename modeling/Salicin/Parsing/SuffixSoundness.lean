import Salicin.Parsing.Grammar
import Salicin.Parsing.Levels

/-!
# What atoms and suffixes are read from

What the functions down from the suffixes read is derived by the operator grammar, and their
errors are reported, when the functions that they call again do so. A compound assignment
operator with an `=` behind it is left out.
-/

namespace Salicin.Parsing

open Nat List Salicin.Source TokenParser

def IsReported : Failure → Prop
  | .reported _ => True
  | .exhausted => False

/-- No `=` stands behind a compound assignment operator. -/
def Regular (tokens : List Token) : Prop :=
  ∀ operator, ∀ token ∈ compoundToken operator, ¬ [token, .equal] <:+: tokens

/-- Fewer regular tokens than the bound. -/
def Within (bound : Nat) (tokens : List Token) : Prop := tokens.length < bound ∧ Regular tokens

theorem Within.suffix {bound : Nat} {tokens rest : List Token} (hwithin : Within bound tokens)
    (hsuffix : rest <:+ tokens) : Within bound rest :=
  ⟨lt_of_le_of_lt hsuffix.length_le hwithin.1,
    fun op token htoken hbinary =>
      hwithin.2 op token htoken (hbinary.trans hsuffix.isInfix)⟩

theorem Within.rest {bound : Nat} {read rest tokens : List Token} (hwithin : Within bound tokens)
    (htoks : tokens = read ++ rest) : Within bound rest :=
  hwithin.suffix ⟨read, htoks.symm⟩

theorem Within.next {bound : Nat} {read rest tokens : List Token}
    (hwithin : Within (bound + 1) tokens) (htoks : tokens = read ++ rest) (hne : read ≠ []) :
    Within bound rest := by
  refine ⟨?_, (hwithin.rest htoks).2⟩
  have hlen := hwithin.1
  have hpositive := length_pos_iff.mpr hne
  rw [htoks, length_append] at hlen
  omega

theorem Within.tail {bound : Nat} {token : Token} {rest : List Token}
    (hwithin : Within (bound + 1) (token :: rest)) : Within bound rest :=
  hwithin.next (singleton_append).symm (cons_ne_nil token [])

/-- Tokens of a level, and their tree. -/
def Yields (asyncDepth level : Nat) (trailing : Bool) (read : List Token)
    (expr : Expr) : Prop :=
  read ≠ [] ∧ Derives parserTable asyncDepth level trailing read expr

theorem Yields.looser {asyncDepth low high : Nat} {trailing : Bool} {read : List Token}
    {expr : Expr} (hyields : Yields asyncDepth high trailing read expr)
    (hle : low ≤ high) : Yields asyncDepth low trailing read expr :=
  ⟨hyields.1, hyields.2.looser hle⟩

/-- The functions that an expression is read with again read what the grammar derives. -/
structure SoundParsers (parsers : Parsers) (bound : Nat) : Prop where
  assignment : ∀ trailing tokens, Within bound tokens →
    Reads IsReported (parsers.assignment trailing) tokens (Yields parsers.asyncDepth 0 trailing)
  coalesce : ∀ trailing tokens, Within bound tokens →
    Reads IsReported (parsers.coalesce trailing) tokens (Yields parsers.asyncDepth 1 trailing)
  unary : ∀ trailing tokens, Within bound tokens →
    Reads IsReported (parsers.unary trailing) tokens (Yields parsers.asyncDepth 12 trailing)

theorem reads_errorAt {Value : Type} {reading : List Token → Value → Prop}
    (pos : List Token) (message : String) (tokens : List Token) :
    Reads IsReported (errorAt pos message : Parser Value) tokens reading :=
  reads_error rfl trivial

theorem reads_errorHere {Value : Type} {reading : List Token → Value → Prop}
    (message : String) (tokens : List Token) :
    Reads IsReported (errorHere message : Parser Value) tokens reading :=
  reads_error rfl trivial

theorem reads_expect (kind : Token) (message : String) (tokens : List Token) :
    Reads IsReported (expect kind message) tokens fun read _ => read = [kind] := by
  rw [expect]
  apply (reads_take kind tokens).bind
  rintro read taken rest _ (⟨rfl, rfl⟩ | ⟨rfl, rfl⟩)
  · rw [if_neg Bool.false_ne_true]
    exact reads_bind_position (reads_errorHere _ rest)
  · rw [if_pos rfl]
    exact reads_pure rfl

theorem reads_expectIdent (message : String) (tokens : List Token) :
    Reads IsReported (expectIdent message) tokens fun read word => read = [.ident word] := by
  cases tokens with
  | nil => exact reads_error rfl trivial
  | cons token rest =>
    cases token
    case ident word => exact reads_ok [.ident word] rfl rfl rfl
    all_goals exact reads_error rfl trivial

variable {parsers : Parsers} {bound : Nat} {tokens : List Token}

section
variable (hparse : SoundParsers parsers bound)
include hparse

theorem reads_expression (hwithin : Within bound tokens) (trailing : Bool) :
    Reads IsReported (parsers.expression trailing) tokens
      (Yields parsers.asyncDepth 0 trailing) :=
  hparse.assignment trailing tokens hwithin

/-! ## Primary expressions -/

theorem reads_elements (hwithin : Within bound tokens) (close : Token) (message : String)
    {values : List Expr} {read : List Token}
    (hopened : Opened .comma (DerivesElements parserTable parsers.asyncDepth) read values) :
    Reads IsReported
      (sequenceLoop .comma close (fun _ => parsers.expression true) (expect close message)
        .exhausted (tokens.length + 1) values) tokens
      fun more result => values.length < result.length ∧
        Closed .comma close (DerivesElements parserTable parsers.asyncDepth) (read ++ more)
          result := by
  have hone : ∀ tokens value, Yields parsers.asyncDepth 0 true tokens value →
      DerivesElements parserTable parsers.asyncDepth tokens [value] :=
    fun tokens value hval => .one hval.2
  have hmore : ∀ front values tokens value, values ≠ [] →
      DerivesElements parserTable parsers.asyncDepth front values →
      Yields parsers.asyncDepth 0 true tokens value →
      DerivesElements parserTable parsers.asyncDepth (front ++ .comma :: tokens)
        (values ++ [value]) :=
    fun front values tokens value hne hfront hval => .more hne hfront hval.2
  exact sequenceLoop_reads hone hmore (reads_expect close message) _ values read tokens
    (lt_succ_self _)
    (fun _ tail htail => reads_expression hparse (hwithin.suffix htail) true) hopened

theorem reads_groupOrTuple (hwithin : Within bound tokens) (trailing : Bool) :
    Reads IsReported (groupOrTuple parsers) tokens fun read expr =>
      Derives parserTable parsers.asyncDepth 15 trailing (.lParen :: read) expr := by
  rw [groupOrTuple]
  apply (reads_take .rParen tokens).bind
  rintro read taken rest htoks (⟨rfl, rfl⟩ | ⟨rfl, rfl⟩)
  · rw [if_neg Bool.false_ne_true]
    have hrest := hwithin.rest htoks
    apply (reads_expression hparse hrest true).bind
    intro front first rest' hfst hfront
    have hrest' := hrest.rest hfst
    apply (reads_take .comma rest').bind
    rintro _ taken tail htail (⟨rfl, rfl⟩ | ⟨rfl, rfl⟩)
    · rw [if_neg Bool.false_ne_true]
      apply (reads_expect .rParen _ tail).bind
      rintro _ _ last _ rfl
      apply reads_pure
      have hgroup : Derives parserTable parsers.asyncDepth 15 trailing
          (.lParen :: (front ++ [.rParen])) first := .parenthesized hfront.2
      simpa using hgroup
    · rw [if_pos rfl]
      have htail' := hrest'.rest htail
      apply (reads_take .rParen tail).bind
      rintro _ taken last hlast (⟨rfl, rfl⟩ | ⟨rfl, rfl⟩)
      · rw [if_neg Bool.false_ne_true]
        apply reads_bind_position
        have hopened : Opened .comma (DerivesElements parserTable parsers.asyncDepth)
            (front ++ [.comma]) [first] := .inr ⟨front, rfl, by simp, .one hfront.2⟩
        apply (reads_elements hparse (htail'.rest hlast) .rParen _ hopened).bind
        rintro more fields final _ ⟨hlonger, group, hgroup, _, helems⟩
        apply reads_pure
        have hlen : 2 ≤ fields.length := hlonger
        rcases hgroup with hgroup | hgroup
        · have htuple : Derives parserTable parsers.asyncDepth 15 trailing
              (.lParen :: (group ++ [.rParen])) (.tuple fields) :=
            .tuple helems (.inr ⟨hlen, rfl⟩)
          rw [← hgroup] at htuple
          simpa using htuple
        · have htuple : Derives parserTable parsers.asyncDepth 15 trailing
              (.lParen :: ((group ++ [.comma]) ++ [.rParen])) (.tuple fields) :=
            .tuple helems (.inl ⟨by omega, rfl⟩)
          rw [append_assoc, singleton_append, ← hgroup] at htuple
          simpa using htuple
      · rw [if_pos rfl]
        apply reads_pure
        have htuple : Derives parserTable parsers.asyncDepth 15 trailing
            (.lParen :: ((front ++ [.comma]) ++ [.rParen])) (.tuple [first]) :=
          .tuple (.one hfront.2) (.inl ⟨by simp, rfl⟩)
        simpa using htuple
  · rw [if_pos rfl]
    exact reads_pure .unit

theorem reads_arrayLiteral (hwithin : Within bound tokens) (trailing : Bool) :
    Reads IsReported (arrayLiteral parsers) tokens fun read expr =>
      Derives parserTable parsers.asyncDepth 15 trailing (.lBracket :: read) expr := by
  rw [arrayLiteral]
  apply (reads_take .rBracket tokens).bind
  rintro read taken rest htoks (⟨rfl, rfl⟩ | ⟨rfl, rfl⟩)
  · rw [if_neg Bool.false_ne_true]
    apply reads_bind_position
    apply (reads_elements hparse (hwithin.rest htoks) .rBracket _ (.inl ⟨rfl, rfl⟩)).bind
    rintro more elements last _ ⟨_, hclosed⟩
    apply reads_pure
    obtain ⟨front, tokens, hfront, heq, hclosing⟩ := hclosed.exists_inner
    rw [append_nil, heq]
    exact .array hfront hclosing
  · rw [if_pos rfl]
    exact reads_pure (.array .none (.inl rfl))

theorem reads_primary (hwithin : Within (bound + 1) tokens) (trailing : Bool) :
    Reads IsReported (primary parsers) tokens (Yields parsers.asyncDepth 15 trailing) := by
  cases tokens with
  | nil => exact reads_error rfl trivial
  | cons token rest =>
    cases token
    case integer value => exact reads_ok [.integer value] rfl rfl ⟨by simp, .integer value⟩
    case true => exact reads_ok [.true] rfl rfl ⟨by simp, .bool true⟩
    case false => exact reads_ok [.false] rfl rfl ⟨by simp, .bool false⟩
    case string value => exact reads_ok [.string value] rfl rfl ⟨by simp, .string value⟩
    case ident word =>
      by_cases hword : word.text = "_"
      · exact reads_error (if_pos hword) trivial
      · exact reads_ok [.ident word] (if_neg hword) rfl ⟨by simp, .word hword⟩
    case root => exact reads_ok [.root] rfl rfl ⟨by simp, .root⟩
    case super => exact reads_ok [.super] rfl rfl ⟨by simp, .super⟩
    case lParen =>
      refine reads_rest
        (show primary parsers (.lParen :: rest) = groupOrTuple parsers rest from rfl) ?_
      apply (reads_groupOrTuple hparse hwithin.tail trailing).mono
      intro read expr hread
      exact ⟨cons_ne_nil _ _, hread⟩
    case lBracket =>
      refine reads_rest
        (show primary parsers (.lBracket :: rest) = arrayLiteral parsers rest from rfl) ?_
      apply (reads_arrayLiteral hparse hwithin.tail trailing).mono
      intro read expr hread
      exact ⟨cons_ne_nil _ _, hread⟩
    all_goals exact reads_error rfl trivial

end

/-! ## Suffixes -/

/-- Arguments that have all labels or none. -/
def Labelled (arguments : List CallArg) : Prop :=
  ∀ first ∈ arguments, ∀ second ∈ arguments, first.label.isSome = second.label.isSome

theorem Labelled.append {args : List CallArg} {arg : CallArg} (hlabelled : Labelled args)
    (hfst : ∀ first ∈ args.head?, first.label.isSome = arg.label.isSome) :
    Labelled (args ++ [arg]) := by
  have hall : ∀ other ∈ args, other.label.isSome = arg.label.isSome := by
    intro other hother
    cases args with
    | nil => exact absurd hother not_mem_nil
    | cons first rest =>
      rw [hlabelled other hother first mem_cons_self]
      exact hfst first rfl
  intro first hfirstMem second hsecondMem
  rw [mem_append, mem_singleton] at hfirstMem hsecondMem
  rcases hfirstMem with hfirstMem | rfl <;> rcases hsecondMem with hsecondMem | rfl
  · exact hlabelled first hfirstMem second hsecondMem
  · exact hall first hfirstMem
  · exact (hall second hsecondMem).symm
  · rfl

/-- The tokens of an argument behind others. -/
def ReadsArgument (asyncDepth : Nat) (prior : List CallArg) (read : List Token)
    (argument : CallArg) : Prop :=
  (∀ first ∈ prior.head?, first.label.isSome = argument.label.isSome) ∧
    ∃ tokens, read = labelTokens argument.label ++ tokens ∧
      Derives parserTable asyncDepth 0 true tokens argument.value

theorem reads_argumentLabel (tokens : List Token) :
    Reads IsReported argumentLabel tokens fun read label => read = labelTokens label := by
  rw [argumentLabel]
  apply reads_bind_position
  split
  · apply (reads_expectIdent _ tokens).bind
    rintro _ label rest _ rfl
    apply (reads_expect .colon _ rest).bind
    rintro _ _ last _ rfl
    exact reads_pure rfl
  · exact reads_pure rfl

theorem reads_callArgument (hparse : SoundParsers parsers bound)
    (hwithin : Within bound tokens) (prior : List CallArg) :
    Reads IsReported (callArgument parsers prior) tokens
      (ReadsArgument parsers.asyncDepth prior) := by
  rw [callArgument]
  apply reads_bind_position
  apply (reads_argumentLabel tokens).bind
  rintro _ label rest htoks rfl
  split
  · exact reads_errorAt _ _ rest
  · next hlabel =>
      apply (reads_expression hparse (hwithin.rest htoks) true).bind
      intro more value last _ hval
      apply reads_pure
      refine ⟨?_, more, by simp [CallArg.label], hval.2⟩
      intro first hfst
      by_contra hne
      apply hlabel
      rw [Option.mem_def.mp hfst]
      exact decide_eq_true hne

theorem reads_callArguments (hparse : SoundParsers parsers bound) (hwithin : Within bound tokens) :
    Reads IsReported (callArguments parsers) tokens fun read args =>
      Labelled args ∧ ∃ group inner, DerivesArguments parserTable parsers.asyncDepth group args ∧
        read = inner ++ [.rParen] ∧
        (inner = group ∨ args ≠ [] ∧ inner = group ++ [.comma]) := by
  have hone : ∀ tokens arg, ReadsArgument parsers.asyncDepth [] tokens arg →
      DerivesArguments parserTable parsers.asyncDepth tokens [arg] ∧
        Labelled [arg] := by
    rintro _ ⟨label, value⟩ ⟨_, tokens, rfl, hval⟩
    exact ⟨.one label hval, by simp [Labelled]⟩
  have hmore : ∀ front prior tokens arg, prior ≠ [] →
      (DerivesArguments parserTable parsers.asyncDepth front prior ∧ Labelled prior) →
      ReadsArgument parsers.asyncDepth prior tokens arg →
      DerivesArguments parserTable parsers.asyncDepth (front ++ .comma :: tokens)
        (prior ++ [arg]) ∧ Labelled (prior ++ [arg]) := by
    rintro front prior _ ⟨label, value⟩ hne ⟨hfront, hlabelled⟩ ⟨hfst, tokens, rfl, hval⟩
    exact ⟨.more label hne hfront hval, hlabelled.append hfst⟩
  rw [callArguments]
  apply (reads_take .rParen tokens).bind
  rintro read taken rest htoks (⟨rfl, rfl⟩ | ⟨rfl, rfl⟩)
  · rw [if_neg Bool.false_ne_true]
    have hrest := hwithin.rest htoks
    apply reads_bind_position
    refine (sequenceLoop_reads hone hmore (reads_expect .rParen _) (rest.length + 1) [] [] rest
      (lt_succ_self _)
      (fun prior tail htail => reads_callArgument hparse (hrest.suffix htail) prior)
      (.inl ⟨rfl, rfl⟩)).mono ?_
    rintro more args ⟨_, hclosed⟩
    obtain ⟨front, inner, ⟨hfront, hlabelled⟩, heq, hclosing⟩ := hclosed.exists_inner
    exact ⟨hlabelled, front, inner, hfront, heq, hclosing⟩
  · rw [if_pos rfl]
    exact reads_pure ⟨by simp [Labelled], [], [], .none, rfl, .inl rfl⟩

theorem reads_memberName (base : Expr) (tokens : List Token) :
    Reads IsReported (memberName base) tokens fun read member =>
      read = [memberToken member] ∧ MemberIsWritable base member := by
  cases tokens with
  | nil => exact reads_error rfl trivial
  | cons token rest =>
    cases token
    case ident word =>
      by_cases hword : word.text = "_"
      · exact reads_error (if_pos hword) trivial
      · exact reads_ok [.ident word] (if_neg hword) rfl ⟨rfl, hword⟩
    case integer value => exact reads_ok [.integer value] rfl rfl ⟨rfl, trivial⟩
    case super =>
      by_cases hpath : base.isSuperPathExpression
      · exact reads_ok [.super] (if_pos hpath) rfl ⟨rfl, hpath⟩
      · exact reads_error (if_neg hpath) trivial
    all_goals exact reads_error rfl trivial

/-- An expression before the next suffix: behind a single `!` no other `!` follows. -/
def Accumulated (asyncDepth : Nat) (trailing : Bool) (read rest : List Token)
    (expr : Expr) : Prop :=
  Yields asyncDepth 13 trailing read expr ∧
    (Derives parserTable asyncDepth 14 trailing read expr ∨ rest.head? ≠ some .bang)

theorem Accumulated.of_suffixed {asyncDepth : Nat} {trailing : Bool} {read rest : List Token}
    {expr : Expr} (hne : read ≠ []) (hexpr : Derives parserTable asyncDepth 14 trailing read expr) :
    Accumulated asyncDepth trailing read rest expr :=
  ⟨⟨hne, hexpr.looser (le_succ 13)⟩, .inl hexpr⟩

section PostfixLoop

variable {trailing : Bool} {fuel : Nat} {expr : Expr} {read : List Token}

variable {canTake : Bool} {rest : List Token}

theorem postfixLoop_index :
    postfixLoop parsers trailing (fuel + 1) expr canTake (.lBracket :: rest) = (do
        let index ← parsers.expression true
        expect .rBracket "`]` after index"
        postfixLoop parsers trailing fuel (.index expr index) canTake : Parser Expr) rest :=
  rfl

theorem postfixLoop_member :
    postfixLoop parsers trailing (fuel + 1) expr canTake (.dot :: rest) = (do
        let member ← memberName expr
        postfixLoop parsers trailing fuel (.member expr member) canTake : Parser Expr)
          rest := rfl

theorem postfixLoop_chainMember :
    postfixLoop parsers trailing (fuel + 1) expr canTake (.questionDot :: rest) = (do
        let member ← expectIdent "a member name after `?.`"
        postfixLoop parsers trailing fuel (.chainMember expr member) canTake :
          Parser Expr) rest := rfl

theorem postfixLoop_raise (hbang : rest.head? ≠ some .bang) :
    postfixLoop parsers trailing (fuel + 1) expr canTake (.bang :: rest) =
      postfixLoop parsers trailing fuel (.raise expr) canTake rest := by
  cases rest with
  | nil => rfl
  | cons token tail => cases token <;> first | rfl | exact absurd rfl hbang

theorem postfixLoop_unwrap (hbang : rest.head? ≠ some .bang) :
    postfixLoop parsers trailing (fuel + 1) expr canTake (.bang :: .bang :: rest) =
      postfixLoop parsers trailing fuel (.unwrap expr) canTake rest := by
  cases rest with
  | nil => rfl
  | cons token tail => cases token <;> first | rfl | exact absurd rfl hbang

/-- What is read behind the tokens of an expression makes a longer one. -/
def ReadsOn (parsers : Parsers) (trailing : Bool) (read : List Token) (parser : Parser Expr)
    (tokens : List Token) : Prop :=
  Reads IsReported parser tokens fun more result =>
    Yields parsers.asyncDepth 13 trailing (read ++ more) result

/-- The loop over suffixes reads on from what it has accumulated. -/
def LoopReads (parsers : Parsers) (bound : Nat) (trailing : Bool) (fuel : Nat) : Prop :=
  ∀ expr canTake read tokens, tokens.length < fuel → Within bound tokens →
    Accumulated parsers.asyncDepth trailing read tokens expr →
    ReadsOn parsers trailing read (postfixLoop parsers trailing fuel expr canTake) tokens

/-- A turn of the loop over suffixes, with the turns after it. -/
structure Turn (parsers : Parsers) (bound : Nat) (trailing : Bool) (fuel : Nat)
    (expr : Expr) (read tokens : List Token) : Prop where
  loop : LoopReads parsers bound trailing fuel
  length : tokens.length < fuel + 1
  within : Within bound tokens
  accumulated : Accumulated parsers.asyncDepth trailing read tokens expr

theorem Turn.suffix (more : List Token) {result : Expr}
    (hturn : Turn parsers bound trailing fuel expr read tokens)
    (htoks : tokens = more ++ rest) (hmore : more ≠ [])
    (hres : Derives parserTable parsers.asyncDepth 14 trailing (read ++ more) result) :
    Reads IsReported (postfixLoop parsers trailing fuel result canTake) rest
      fun later value => Yields parsers.asyncDepth 13 trailing (read ++ (more ++ later)) value := by
  have hpositive := length_pos_iff.mpr hmore
  have hlen := hturn.length
  rw [htoks, length_append] at hlen
  have hread := hturn.loop result canTake (read ++ more) rest (by omega)
    (hturn.within.rest htoks) (.of_suffixed (by simp [hmore]) hres)
  simpa only [ReadsOn, append_assoc] using hread

theorem reads_group_suffix (hparse : SoundParsers parsers bound)
    (hturn : Turn parsers bound trailing fuel expr read (.lParen :: rest)) :
    ReadsOn parsers trailing read (postfixLoop parsers trailing (fuel + 1) expr canTake)
      (.lParen :: rest) := by
  cases hgroups : expr.startsImplicitHandlerGroups with
  | true => exact reads_error (if_pos hgroups) trivial
  | false =>
    refine reads_rest (if_neg (by simp [hgroups])) ?_
    apply (reads_callArguments hparse (hturn.within.rest (singleton_append).symm)).bind
    rintro more args last hlast ⟨hlabelled, group, inner, hargs, rfl, hclosing⟩
    have hcall : Derives parserTable parsers.asyncDepth 14 trailing
        (read ++ .lParen :: (inner ++ [.rParen])) (.call expr args) :=
      .call hgroups hlabelled hturn.accumulated.1.2 hargs hclosing
    have hrest : Token.lParen :: rest = .lParen :: (inner ++ [.rParen]) ++ last := by
      rw [hlast, cons_append]
    exact hturn.suffix _ hrest (by simp) hcall

theorem reads_index_suffix (hparse : SoundParsers parsers bound)
    (hturn : Turn parsers bound trailing fuel expr read (.lBracket :: rest)) :
    ReadsOn parsers trailing read (postfixLoop parsers trailing (fuel + 1) expr canTake)
      (.lBracket :: rest) := by
  refine reads_rest postfixLoop_index ?_
  apply (reads_expression hparse (hturn.within.rest (singleton_append).symm) true).bind
  intro inner index last hlast hidx
  apply (reads_expect .rBracket _ last).bind
  rintro _ _ final hfinal rfl
  have hres : Derives parserTable parsers.asyncDepth 14 trailing
      (read ++ .lBracket :: (inner ++ [.rBracket])) (.index expr index) :=
    .index hturn.accumulated.1.2 hidx.2
  have heq : Token.lBracket :: rest = (.lBracket :: (inner ++ [.rBracket])) ++ final := by
    rw [hlast, hfinal]
    simp
  apply (hturn.suffix (.lBracket :: (inner ++ [.rBracket])) heq (by simp) hres).mono
  intro later result hlater
  simpa using hlater

theorem reads_member_suffix (hturn : Turn parsers bound trailing fuel expr read (.dot :: rest)) :
    ReadsOn parsers trailing read (postfixLoop parsers trailing (fuel + 1) expr canTake)
      (.dot :: rest) := by
  refine reads_rest postfixLoop_member ?_
  apply (reads_memberName expr rest).bind
  rintro _ member last hlast ⟨rfl, hmember⟩
  have hres : Derives parserTable parsers.asyncDepth 14 trailing
      (read ++ [.dot, memberToken member]) (.member expr member) :=
    .member hmember hturn.accumulated.1.2
  exact hturn.suffix [.dot, memberToken member] (by rw [hlast]; simp) (by simp) hres

theorem reads_chainMember_suffix
    (hturn : Turn parsers bound trailing fuel expr read (.questionDot :: rest)) :
    ReadsOn parsers trailing read (postfixLoop parsers trailing (fuel + 1) expr canTake)
      (.questionDot :: rest) := by
  refine reads_rest postfixLoop_chainMember ?_
  apply (reads_expectIdent _ rest).bind
  rintro _ member last hlast rfl
  have hres : Derives parserTable parsers.asyncDepth 14 trailing
      (read ++ [.questionDot, .ident member]) (.chainMember expr member) :=
    .chainMember member hturn.accumulated.1.2
  exact hturn.suffix [.questionDot, .ident member] (by rw [hlast]; simp) (by simp) hres

theorem exists_cons_of_head? {token : Token} (hhead : tokens.head? = some token) :
    ∃ tail, tokens = token :: tail := by
  cases tokens with
  | nil => simp at hhead
  | cons first tail => exact ⟨tail, by simpa using hhead⟩

theorem reads_bang_suffix (hturn : Turn parsers bound trailing fuel expr read (.bang :: rest)) :
    ReadsOn parsers trailing read (postfixLoop parsers trailing (fuel + 1) expr canTake)
      (.bang :: rest) := by
  have hoperand : Derives parserTable parsers.asyncDepth 14 trailing read expr := by
    rcases hturn.accumulated.2 with hoperand | hbang
    · exact hoperand
    · exact absurd rfl hbang
  have hraise : Derives parserTable parsers.asyncDepth 13 trailing (read ++ [.bang])
      (.raise expr) := .raise hoperand
  have hunwrap : Derives parserTable parsers.asyncDepth 13 trailing (read ++ [.bang, .bang])
      (.unwrap expr) := .unwrap hoperand
  have hwithinRest : Within bound rest := hturn.within.rest (singleton_append).symm
  have hlen := hturn.length
  simp only [length_cons] at hlen
  by_cases hsnd : rest.head? = some .bang
  · obtain ⟨tail, rfl⟩ := exists_cons_of_head? hsnd
    by_cases hthird : tail.head? = some .bang
    · obtain ⟨last, rfl⟩ := exists_cons_of_head? hthird
      exact reads_error rfl trivial
    · have hnext := hturn.loop (.unwrap expr) canTake (read ++ [.bang, .bang]) tail
        (by simp only [length_cons] at hlen; omega)
        (hwithinRest.rest (singleton_append).symm) ⟨⟨by simp, hunwrap⟩, .inr hthird⟩
      have htwo : Reads IsReported
          (fun tokens => postfixLoop parsers trailing (fuel + 1) expr canTake
            (.bang :: tokens)) (.bang :: tail)
          fun more result => Yields parsers.asyncDepth 13 trailing (read ++ .bang :: more) result :=
        reads_rest (postfixLoop_unwrap hthird) (by simpa [ReadsOn] using hnext)
      exact reads_rest rfl htwo
  · have hnext := hturn.loop (.raise expr) canTake (read ++ [.bang]) rest (by omega)
      hwithinRest ⟨⟨by simp, hraise⟩, .inr hsnd⟩
    refine reads_rest (postfixLoop_raise hsnd) ?_
    simpa [ReadsOn] using hnext

theorem reads_bare_suffix (hparse : SoundParsers parsers bound)
    (hturn : Turn parsers bound true fuel expr read tokens)
    (hstart : bareCallArgumentCanStart tokens = true) :
    ReadsOn parsers true read
      (do
        let arg ← parsers.unary false
        postfixLoop parsers true fuel (.call expr [.mk none arg]) true : Parser Expr)
      tokens := by
  apply (hparse.unary false tokens hturn.within).bind
  rintro more arg last hlast ⟨hne, harg⟩
  have hmore : bareCallArgumentCanStart more = true := by
    obtain ⟨first, others, rfl⟩ := exists_cons_of_ne_nil hne
    rw [hlast] at hstart
    exact hstart
  exact hturn.suffix more hlast hne (.bareCall hmore hturn.accumulated.1.2 harg)

/-- A nested call with a label, or an argument without parentheses that begins with the word. -/
theorem reads_ident_suffix (hparse : SoundParsers parsers bound) {label : Word} {next : Token}
    (hturn : Turn parsers bound trailing fuel expr read (.ident label :: next :: rest)) :
    ReadsOn parsers trailing read (postfixLoop parsers trailing (fuel + 1) expr canTake)
      (.ident label :: next :: rest) := by
  by_cases hnested : trailing = true ∧ (canTake = true ∨ expr.startsImplicitHandlerGroups = true) ∧
        tokenCanStartExpression next = true
  · obtain rfl : trailing = true := hnested.1
    refine reads_rest (if_pos hnested) ?_
    apply (reads_expression hparse (hturn.within.rest (singleton_append).symm) true).bind
    intro inner nested last hlast hnestedRead
    have hres : Derives parserTable parsers.asyncDepth 14 true (read ++ .ident label :: inner)
        (.call expr [.mk (some label) (.closure nested)]) :=
      .trailingCall label hturn.accumulated.1.2 hnestedRead.2
    exact hturn.suffix (.ident label :: inner) (by rw [hlast, cons_append]) (by simp) hres
  · cases trailing with
    | true =>
      have hbare := reads_bare_suffix hparse hturn rfl
      unfold ReadsOn Reads at hbare ⊢
      rwa [show postfixLoop parsers true (fuel + 1) expr canTake
          (.ident label :: next :: rest) = _ from if_neg hnested]
    | false =>
      have hstop : postfixLoop parsers false (fuel + 1) expr canTake
          (.ident label :: next :: rest) = .ok (expr, .ident label :: next :: rest) := by
        simp [postfixLoop]
      refine reads_ok [] hstop rfl ?_
      rw [append_nil]
      exact hturn.accumulated.1

theorem loopReads (hparse : SoundParsers parsers bound) (trailing : Bool) :
    ∀ fuel, LoopReads parsers bound trailing fuel := by
  intro fuel
  induction fuel with
  | zero => intro expr canTake read tokens hfuel; exact absurd hfuel (not_lt_zero _)
  | succ fuel ih =>
    intro expr canTake read tokens hfuel hwithin hread
    have hturn : Turn parsers bound trailing fuel expr read tokens := ⟨ih, hfuel, hwithin, hread⟩
    have hstop : postfixLoop parsers trailing (fuel + 1) expr canTake tokens =
        .ok (expr, tokens) → ReadsOn parsers trailing read
          (postfixLoop parsers trailing (fuel + 1) expr canTake) tokens := by
      intro heq
      refine reads_ok [] heq rfl ?_
      rw [append_nil]
      exact hread.1
    -- a token that begins a bare arg and no other suffix
    have hbare : bareCallArgumentCanStart tokens = true →
        postfixLoop parsers trailing (fuel + 1) expr canTake tokens =
          (if trailing = true ∧ bareCallArgumentCanStart tokens = true then (do
            let arg ← parsers.unary false
            postfixLoop parsers trailing fuel (.call expr [.mk none arg]) true :
              Parser Expr) tokens
          else .ok (expr, tokens)) → ReadsOn parsers trailing read
            (postfixLoop parsers trailing (fuel + 1) expr canTake) tokens := by
      intro hstart heq
      cases trailing with
      | false => exact hstop (by rw [heq, if_neg (by simp)])
      | true =>
        have harg := reads_bare_suffix hparse hturn hstart
        rw [if_pos ⟨rfl, hstart⟩] at heq
        unfold ReadsOn Reads at harg ⊢
        rwa [heq]
    cases tokens with
    | nil => exact hstop (by simp [postfixLoop, bareCallArgumentCanStart])
    | cons token rest =>
      cases token
      case lParen => exact reads_group_suffix hparse hturn
      case lBracket => exact reads_index_suffix hparse hturn
      case dot => exact reads_member_suffix hturn
      case questionDot => exact reads_chainMember_suffix hturn
      case bang => exact reads_bang_suffix hturn
      case ident word =>
        cases rest with
        | nil => exact hbare rfl rfl
        | cons next rest => exact reads_ident_suffix hparse hturn
      case integer => exact hbare rfl rfl
      case true => exact hbare rfl rfl
      case false => exact hbare rfl rfl
      case root => exact hbare rfl rfl
      case super => exact hbare rfl rfl
      all_goals
        exact hstop (by
          simp [postfixLoop, bareCallArgumentCanStart, tokenCanStartBareCallArgument])

end PostfixLoop

theorem reads_postfixed (hparse : SoundParsers parsers bound)
    (hwithin : Within (bound + 1) tokens) (trailing : Bool) :
    Reads IsReported (postfixed parsers trailing) tokens
      (Yields parsers.asyncDepth 13 trailing) := by
  rw [postfixed]
  apply (reads_primary hparse hwithin trailing).bind
  rintro read expr rest htoks ⟨hne, hexpr⟩
  apply reads_bind_position
  exact loopReads hparse trailing (rest.length + 1) expr false read rest
    (lt_succ_self _) (hwithin.next htoks hne)
    (.of_suffixed hne (hexpr.looser (le_succ 14)))

end Salicin.Parsing
