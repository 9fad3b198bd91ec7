import Salicin.Lexing.Scanning

/-!
# The turns of the loop

What one turn of the loop can do: go over white space, a line break or a comment, or read a token.
Only the line breaks inside a comment can leave tokens there.
-/

namespace Salicin.Lexing

open List

open Brackets (isWhiteSpace)
open TextPositions

/-! ## Comments -/

/-- What follows the beginning of a block comment, up to the end of the outermost of `depth` open
comments. -/
inductive BlockBody : Nat → List Char → Prop
  | last : BlockBody 1 ['*', '/']
  | enter {depth : Nat} {body : List Char} :
      BlockBody (depth + 1) body → BlockBody depth ('/' :: '*' :: body)
  | leave {depth : Nat} {body : List Char} :
      BlockBody depth body → BlockBody (depth + 1) ('*' :: '/' :: body)
  | other {depth : Nat} {ch : Char} {body : List Char} :
      (ch = '/' → body.head? ≠ some '*') → (ch = '*' → body.head? ≠ some '/') →
        BlockBody depth body → BlockBody depth (ch :: body)

/-- A comment, and what stands behind it. -/
inductive Comment : List Char → List Char → Prop
  | line {body after : List Char} :
      '\n' ∉ body → (∀ ch ∈ after.head?, ch = '\n') → Comment ('/' :: '/' :: body) after
  | block {body after : List Char} : BlockBody 1 body → Comment ('/' :: '*' :: body) after

/-- The tokens of all the line breaks of a text. -/
def newlineTokens : Position → List Char → List Token
  | _, [] => []
  | position, ch :: rest =>
    if ch = '\n' then
      { kind := .newline, start := position, stop := position.next ch } ::
        newlineTokens (position.next ch) rest
    else newlineTokens (position.next ch) rest

theorem exists_of_mem_newlineTokens {position : Position} {text : List Char} {token : Token}
    (h : token ∈ newlineTokens position text) :
    ∃ before after, text = before ++ '\n' :: after ∧ token.kind = .newline ∧
      token.start = position.past before ∧ token.stop = (position.past before).next '\n' := by
  induction text generalizing position with
  | nil => simp [newlineTokens] at h
  | cons ch text ih =>
    rw [newlineTokens] at h
    split_ifs at h with hbreak
    · subst hbreak
      rcases mem_cons.mp h with rfl | h
      · exact ⟨[], text, rfl, rfl, rfl, rfl⟩
      · obtain ⟨before, after, htext, hkind, hstart, hstop⟩ := ih h
        exact ⟨'\n' :: before, after, by rw [htext]; rfl, hkind, hstart, hstop⟩
    · obtain ⟨before, after, htext, hkind, hstart, hstop⟩ := ih h
      exact ⟨ch :: before, after, by rw [htext]; rfl, hkind, hstart, hstop⟩

theorem newlineTokens_pairwise (position : Position) (text : List Char) :
    (newlineTokens position text).Pairwise fun token later =>
      token.stop.offset ≤ later.start.offset := by
  induction text generalizing position with
  | nil => exact List.Pairwise.nil
  | cons ch text ih =>
    rw [newlineTokens]
    split_ifs with hbreak
    · refine List.Pairwise.cons ?_ (ih _)
      intro later hlater
      obtain ⟨before, _, _, _, hstart, _⟩ := exists_of_mem_newlineTokens hlater
      rw [hstart, Position.past_offset]
      exact Nat.le_add_right _ _
    · exact ih _

namespace Lexer

variable {lexer : Lexer} {rest : List Char}

theorem logicalNewline_eq (hrest : lexer.rest = '\n' :: rest) (tokens : List Token) :
    lexer.logicalNewline tokens = (lexer.behind ['\n'] rest,
      if lexer.delimiterDepth = 0 ∧ continued tokens = false then
        tokens ++ [{ kind := .newline, start := lexer.position, stop := lexer.position.next '\n' }]
      else tokens) := by
  rw [logicalNewline, bump_of_rest hrest]
  split_ifs with hends hends' <;> first | rfl | contradiction

variable {tokens : List Token}

theorem blockCommentIn_reads {begin : Position} {next : Lexer} {depth : Nat} {tokens' : List Token}
    (hrest : lexer.rest = rest) (hdepth : 0 < depth)
    (h : blockCommentIn begin rest lexer depth tokens = .ok (next, tokens')) :
    ∃ body news, rest = body ++ next.rest ∧ next = lexer.behind body next.rest ∧
      BlockBody depth body ∧ tokens' = tokens ++ news ∧
      news.Sublist (newlineTokens lexer.position body) := by
  fun_induction blockCommentIn begin rest lexer depth tokens with
  | case1 => simp at h
  | case2 rest lexer depth tokens ih =>
    rw [bump_bump_of_rest hrest] at ih h
    obtain ⟨body, news, hbody, hnext, hclosed, htoks, hnews⟩ := ih rfl (by omega) h
    refine ⟨'/' :: '*' :: body, news, by rw [hbody]; rfl, ?_, .enter hclosed, htoks, hnews⟩
    rw [hnext]
    rfl
  | case3 rest lexer tokens =>
    cases h
    rw [bump_bump_of_rest hrest]
    exact ⟨['*', '/'], [], rfl, rfl, .last, by simp, nil_sublist _⟩
  | case4 rest lexer depth tokens hdeeper ih =>
    rw [bump_bump_of_rest hrest] at ih h
    obtain ⟨body, news, hbody, hnext, hclosed, htoks, hnews⟩ := ih rfl (by omega) h
    refine ⟨'*' :: '/' :: body, news, by rw [hbody]; rfl, ?_, ?_, htoks, hnews⟩
    · rw [hnext]
      rfl
    · obtain ⟨outer, rfl⟩ : ∃ outer, depth = outer + 1 := ⟨depth - 1, by omega⟩
      exact .leave hclosed
  | case5 rest lexer depth tokens after emitted hline ih =>
    rw [logicalNewline_eq hrest] at hline
    obtain ⟨rfl, hemitted⟩ := Prod.mk.inj hline
    obtain ⟨body, news, hbody, hnext, hclosed, htoks, hnews⟩ := ih rfl hdepth h
    have hclosed' : BlockBody depth ('\n' :: body) := .other (fun h => absurd h (by decide))
      (fun h => absurd h (by decide)) hclosed
    split_ifs at hemitted with hends
    · refine ⟨'\n' :: body, _ :: news, by rw [hbody]; rfl, ?_, hclosed', ?_,
        List.Sublist.cons_cons _ hnews⟩
      · rw [hnext]
        rfl
      · rw [htoks, ← hemitted, append_assoc]
        rfl
    · refine ⟨'\n' :: body, news, by rw [hbody]; rfl, ?_, hclosed', ?_, List.Sublist.cons _ hnews⟩
      · rw [hnext]
        rfl
      · rw [htoks, ← hemitted]
  | case6 ch rest lexer depth tokens henter hleave hbreak ih =>
    rw [bump_of_rest hrest] at ih h
    obtain ⟨body, news, hbody, hnext, hclosed, htoks, hnews⟩ := ih rfl hdepth h
    refine ⟨ch :: body, news, by rw [hbody]; rfl, ?_, ?_, htoks, ?_⟩
    · rw [hnext]
      rfl
    · refine .other ?_ ?_ hclosed
      · intro hch hhead
        obtain ⟨body', rfl⟩ := List.head?_eq_some_iff.mp hhead
        exact henter _ hch hbody
      · intro hch hhead
        obtain ⟨body', rfl⟩ := List.head?_eq_some_iff.mp hhead
        exact hleave _ hch hbody
    · rw [newlineTokens, if_neg hbreak]
      exact hnews

/-! ## One turn -/

section

variable (tables : UnicodeTables)

/-- The text alone is read as one token of the kind. -/
def RelexesAs (text : List Char) (kind : TokenKind) : Prop :=
  lex tables (String.ofList text) = some (.ok
    [⟨kind, Position.start, Position.start.past text⟩,
      ⟨.eof, Position.start.past text, Position.start.past text⟩])

/-- What a turn of the loop does. -/
inductive Turn (lexer : Lexer) (tokens : List Token) : Lexer → List Token → Prop
  | lineEnd {rest : List Char} :
      lexer.rest = '\n' :: rest → lexer.delimiterDepth = 0 → continued tokens = false →
        Turn lexer tokens (lexer.behind ['\n'] rest)
          (tokens ++ [⟨.newline, lexer.position, lexer.position.next '\n'⟩])
  | suppressed {rest : List Char} :
      lexer.rest = '\n' :: rest → lexer.delimiterDepth ≠ 0 ∨ continued tokens = true →
        Turn lexer tokens (lexer.behind ['\n'] rest) tokens
  | space {ch : Char} {rest : List Char} :
      lexer.rest = ch :: rest → ch ≠ '\n' → isWhiteSpace ch = true →
        Turn lexer tokens (lexer.behind [ch] rest) tokens
  | comment {text rest : List Char} {news : List Token} :
      lexer.rest = text ++ rest → Comment text rest →
        news.Sublist (newlineTokens lexer.position text) →
        Turn lexer tokens (lexer.behind text rest) (tokens ++ news)
  | token {kind : TokenKind} {text rest : List Char} :
      lexer.rest = text ++ rest → text ≠ [] → RelexesAs tables text kind → Turn lexer tokens
          { lexer.behind text rest with delimiterDepth := kind.nest lexer.delimiterDepth }
          (tokens ++ [⟨kind, lexer.position, lexer.position.past text⟩])

variable {tables} {ch : Char}

theorem relexesAs_of_turn {text : List Char} {kind : TokenKind} (depth : Nat)
    (h : (Lexer.mk (ch :: text) Position.start 0).turn tables [] ch =
      .ok (⟨[], Position.start.past (ch :: text), depth⟩,
        [⟨kind, Position.start, Position.start.past (ch :: text)⟩])) :
    RelexesAs tables (ch :: text) kind := by
  rw [RelexesAs, lex, String.toList_ofList, length_cons, run]
  simp only [peek, List.head?_cons, h]
  rw [run.eq_def]
  rfl

/-- The token branch of a turn, for a character that begins no white space and no comment. -/
theorem turn_eq_token (hbreak : ch ≠ '\n') (hspace : isWhiteSpace ch = false)
    (hcomment : ch = '/' → lexer.peekNext ≠ some '/' ∧ lexer.peekNext ≠ some '*') :
    lexer.turn tables tokens ch = (lexer.token tables ch).bind fun read =>
      .ok (read.2, tokens ++ [⟨read.1, lexer.position, read.2.position⟩]) := by
  rw [turn, if_neg hbreak, if_neg (by simp [hspace]),
    if_neg fun h => (hcomment h.1).1 h.2, if_neg fun h => (hcomment h.1).2 h.2]
  rfl

theorem turn_token {next : Lexer} {kind : TokenKind} (hrest : lexer.rest = ch :: rest)
    (hbreak : ch ≠ '\n') (hspace : isWhiteSpace ch = false)
    (hcomment : ch = '/' → lexer.peekNext ≠ some '/' ∧ lexer.peekNext ≠ some '*')
    (h : lexer.token tables ch = .ok (kind, next)) :
    Turn tables lexer tokens next (tokens ++ [⟨kind, lexer.position, next.position⟩]) := by
  obtain ⟨text, htext, hpos, hdepth, halone⟩ := token_reads hrest h
  have hnext : next = { lexer.behind (ch :: text) next.rest with
      delimiterDepth := kind.nest lexer.delimiterDepth } := by
    cases next
    simp only at hpos hdepth
    rw [hpos, hdepth]
    rfl
  have hrelexes : RelexesAs tables (ch :: text) kind := by
    refine relexesAs_of_turn (kind.nest 0) ?_
    rw [turn_eq_token hbreak hspace, halone Position.start Position.start 0]
    · rfl
    · intro hslash
      have hpeek : lexer.peekNext = (text ++ next.rest).head? := by
        rw [peekNext, htext]
        rfl
      rw [hpeek, List.head?_append] at hcomment
      constructor
      · intro hhead
        refine (hcomment hslash).1 ?_
        rw [show text.head? = some '/' from hhead]
        rfl
      · intro hhead
        refine (hcomment hslash).2 ?_
        rw [show text.head? = some '*' from hhead]
        rfl
  rw [hpos, hnext]
  exact .token htext (by simp) hrelexes

theorem rest_of_peekNext {ch' : Char} (hrest : lexer.rest = ch :: rest)
    (hnext : lexer.peekNext = some ch') :
    ∃ body, lexer.rest = ch :: ch' :: body := by
  rw [peekNext, hrest, tail_cons] at hnext
  obtain ⟨body, rfl⟩ := List.head?_eq_some_iff.mp hnext
  exact ⟨body, hrest⟩

theorem turn_cases {next : Lexer} {tokens' : List Token} (hrest : lexer.rest = ch :: rest)
    (h : lexer.turn tables tokens ch = .ok (next, tokens')) :
    Turn tables lexer tokens next tokens' := by
  by_cases hbreak : ch = '\n'
  · subst hbreak
    rw [turn, if_pos rfl, logicalNewline_eq hrest] at h
    cases h
    split_ifs with hends
    · exact .lineEnd hrest hends.1 hends.2
    · refine .suppressed hrest ?_
      rw [not_and_or, Bool.not_eq_false] at hends
      exact hends
  by_cases hspace : isWhiteSpace ch = true
  · rw [turn, if_neg hbreak, if_pos hspace] at h
    cases h
    rw [bump_of_rest hrest]
    exact .space hrest hbreak hspace
  rw [Bool.not_eq_true] at hspace
  by_cases hline : ch = '/' ∧ lexer.peekNext = some '/'
  · rw [turn, if_neg hbreak, if_neg (by simp [hspace]), if_pos hline, bumpWhile_eq] at h
    cases h
    obtain ⟨hslash, hnext⟩ := hline
    subst hslash
    obtain ⟨body, hbody⟩ := rest_of_peekNext hrest hnext
    have hread : lexer.rest.takeWhile (· ≠ '\n') = '/' :: '/' :: body.takeWhile (· ≠ '\n') := by
      rw [hbody]
      rfl
    have hcomment : Comment (lexer.rest.takeWhile (· ≠ '\n'))
        (lexer.rest.dropWhile (· ≠ '\n')) := by
      rw [hread]
      refine .line ?_ ?_
      · intro hmem
        simpa using mem_takeWhile_imp hmem
      · intro ch hch
        have hstop := List.head?_dropWhile_not (fun ch => decide (ch ≠ '\n')) lexer.rest
        rw [Option.mem_def.mp hch] at hstop
        simpa using hstop
    have hturn : Turn tables lexer tokens (lexer.behind _ _) (tokens ++ []) :=
      .comment takeWhile_append_dropWhile.symm hcomment (nil_sublist _)
    rw [append_nil] at hturn
    exact hturn
  by_cases hblock : ch = '/' ∧ lexer.peekNext = some '*'
  · rw [turn, if_neg hbreak, if_neg (by simp [hspace]), if_neg hline, if_pos hblock,
      blockComment] at h
    obtain ⟨hslash, hnext⟩ := hblock
    subst hslash
    obtain ⟨body, hbody⟩ := rest_of_peekNext hrest hnext
    rw [bump_bump_of_rest hbody] at h
    obtain ⟨inside, news, hinside, hnext, hclosed, htoks, hnews⟩ :=
      blockCommentIn_reads rfl (by omega) h
    have hread : lexer.rest = '/' :: '*' :: inside ++ next.rest := by
      rw [hbody, cons_append, cons_append, ← hinside]
      rfl
    rw [htoks, hnext]
    exact .comment hread (.block hclosed) hnews
  have hcomment : ch = '/' → lexer.peekNext ≠ some '/' ∧ lexer.peekNext ≠ some '*' :=
    fun hslash => ⟨fun h => hline ⟨hslash, h⟩, fun h => hblock ⟨hslash, h⟩⟩
  rw [turn_eq_token hbreak hspace hcomment] at h
  cases htoken : lexer.token tables ch with
  | error failure =>
    rw [htoken] at h
    cases h
  | ok read =>
    rw [htoken] at h
    cases h
    exact turn_token hrest hbreak hspace hcomment htoken

end

end Lexer

end Salicin.Lexing
