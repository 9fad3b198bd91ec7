import Salicin.Foundation.SelfDelimiting
import Salicin.Lexing.Turns

/-!
# Tokens tile the source

The tokens of an accepted source stand in order and apart from each other, each at the position
that its place in the text has, and between them there is white space, comments and line breaks
that the lexer passes over on purpose. A token's text does not depend on the text around it.
-/

namespace Salicin.Lexing

open List Lexer

open Brackets (isWhiteSpace)
open TextPositions

/-- The position of a place with this text before it. -/
def positionAfter (before : List Char) : Position :=
  ⟨size before, lineAfter before, columnAfter before⟩

/-- The parentheses and brackets that these tokens leave open. -/
def openDelimiters (tokens : List Token) : Nat :=
  tokens.foldl (fun depth token => token.kind.nest depth) 0

/-- Why the character that stands behind `before` can be outside all tokens. -/
inductive Skipped (source : List Char) (tokens : List Token) (before : List Char) (ch : Char) : Prop
  | space : ch ≠ '\n' → isWhiteSpace ch = true → Skipped source tokens before ch
  | suppressed : ch = '\n' → openDelimiters (tokens.filter (·.stop.offset ≤ size before)) ≠ 0 ∨
        continued (tokens.filter (·.stop.offset ≤ size before)) = true →
        Skipped source tokens before ch
  | comment {head text tail : List Char} :
      source = head ++ text ++ tail → Comment text tail → size head ≤ size before →
        size before + ch.utf8Size ≤ size (head ++ text) →
        (∀ token ∈ tokens, token.kind = .newline ∨ token.stop.offset ≤ size head ∨
          size (head ++ text) ≤ token.start.offset) →
        Skipped source tokens before ch

/-- The character that stands behind `before` is in a token or outside all of them for a reason. -/
def Covered (source : List Char) (tokens : List Token) (before : List Char) (ch : Char) : Prop :=
  (∃ token ∈ tokens, token.start.offset ≤ size before ∧
    size before + ch.utf8Size ≤ token.stop.offset) ∨ Skipped source tokens before ch

/-- The token stands at the text, and the text alone is read as a token of the same kind. -/
structure StandsAt (tables : UnicodeTables) (token : Token) (before text : List Char) : Prop where
  start : token.start = positionAfter before
  stop : token.stop = positionAfter (before ++ text)
  alone : ∃ others, Lexer.lex tables (String.ofList text) =
    some (.ok (⟨token.kind, positionAfter [], positionAfter text⟩ :: others)) ∧
    ∀ other ∈ others, other = ⟨.eof, positionAfter text, positionAfter text⟩

/-- The tokens tile the source. -/
structure Tiles (tables : UnicodeTables) (source : String) (tokens : List Token) : Prop where
  ordered : tokens.Pairwise fun token later => token.stop.offset ≤ later.start.offset
  ends : ∃ earlier stop, tokens = earlier ++ [⟨.eof, stop, stop⟩] ∧
    stop.offset = source.utf8ByteSize
  sliced : ∀ token ∈ tokens, ∃ before text after, source.toList = before ++ text ++ after ∧
    StandsAt tables token before text
  covered : ∀ before ch after, source.toList = before ++ ch :: after →
    Covered source.toList tokens before ch

/-! ## The tokens so far -/

/-- The loop has read the text `before` and made the tokens. What it has passed over stays
accounted for when tokens are added behind that text. -/
structure ReadSoFar (tables : UnicodeTables) (source before : List Char) (lexer : Lexer)
    (tokens : List Token) : Prop where
  rest : source = before ++ lexer.rest
  position : lexer.position = positionAfter before
  depth : lexer.delimiterDepth = openDelimiters tokens
  ordered : tokens.Pairwise fun token later => token.stop.offset ≤ later.start.offset
  sliced : ∀ token ∈ tokens, ∃ head text tail, before = head ++ text ++ tail ∧
    StandsAt tables token head text
  covered : ∀ head ch tail, before = head ++ ch :: tail → ∀ later : List Token,
    (∀ token ∈ later, size before ≤ token.start.offset ∧ token.start.offset ≤ token.stop.offset) →
      Covered source (tokens ++ later) head ch

theorem positionAfter_eq (before : List Char) : positionAfter before = Position.start.past before :=
  (Position.start_past before).symm

theorem positionAfter_append (before text : List Char) :
    positionAfter (before ++ text) = (positionAfter before).past text := by
  rw [positionAfter_eq, positionAfter_eq, Position.past_append]

variable {tables : UnicodeTables} {token : Token}

theorem StandsAt.start_offset {before text : List Char} (h : StandsAt tables token before text) :
    token.start.offset = size before := by
  rw [h.start]
  rfl

theorem StandsAt.stop_offset {before text : List Char} (h : StandsAt tables token before text) :
    token.stop.offset = size before + size text := by
  rw [h.stop, ← size_append]
  rfl

theorem openDelimiters_append (tokens news : List Token) :
    openDelimiters (tokens ++ news) =
      news.foldl (fun depth token => token.kind.nest depth) (openDelimiters tokens) :=
  foldl_append

theorem openDelimiters_append_newlines (tokens : List Token) {news : List Token}
    (hnews : ∀ token ∈ news, token.kind = .newline) :
    openDelimiters (tokens ++ news) = openDelimiters tokens := by
  rw [openDelimiters_append]
  generalize openDelimiters tokens = depth
  induction news with
  | nil => rfl
  | cons token rest ih =>
    rw [foldl_cons, hnews token mem_cons_self]
    exact ih fun other hother => hnews other (mem_cons_of_mem _ hother)

namespace ReadSoFar

variable {tables : UnicodeTables} {source before : List Char} {lexer next : Lexer}
  {tokens tokens' news : List Token} {text : List Char}

theorem stop_le (h : ReadSoFar tables source before lexer tokens) (htoken : token ∈ tokens) :
    token.stop.offset ≤ size before := by
  obtain ⟨head, text, tail, hbefore, hstands⟩ := h.sliced token htoken
  rw [hstands.stop_offset, hbefore, size_append, size_append]
  exact Nat.le_add_right _ _

theorem initial (tables : UnicodeTables) (source : List Char) :
    ReadSoFar tables source [] ⟨source, Position.start, 0⟩ [] where
  rest := rfl
  position := rfl
  depth := rfl
  ordered := List.Pairwise.nil
  sliced := by simp
  covered := by simp

theorem extend (h : ReadSoFar tables source before lexer tokens)
    (hrest : lexer.rest = text ++ next.rest) (hposition : next.position = lexer.position.past text)
    (hdepth : next.delimiterDepth = openDelimiters (tokens ++ news))
    (hordered : news.Pairwise fun token later => token.stop.offset ≤ later.start.offset)
    (hnews : ∀ token ∈ news, ∃ head slice tail, text = head ++ slice ++ tail ∧
      StandsAt tables token (before ++ head) slice)
    (hcovered : ∀ head ch tail, text = head ++ ch :: tail → ∀ later : List Token,
      (∀ token ∈ later, size (before ++ text) ≤ token.start.offset ∧
        token.start.offset ≤ token.stop.offset) →
        Covered source (tokens ++ (news ++ later)) (before ++ head) ch) :
    ReadSoFar tables source (before ++ text) next (tokens ++ news) where
  rest := by rw [h.rest, hrest, append_assoc]
  position := by rw [hposition, h.position, positionAfter_append]
  depth := hdepth
  ordered := by
    refine pairwise_append.mpr ⟨h.ordered, hordered, ?_⟩
    intro token htoken later hlater
    obtain ⟨head, slice, tail, _, hstands⟩ := hnews later hlater
    have hstop := h.stop_le htoken
    rw [hstands.start_offset, size_append]
    omega
  sliced := by
    intro token htoken
    rcases mem_append.mp htoken with hold | hnew
    · obtain ⟨head, slice, tail, hbefore, hstands⟩ := h.sliced token hold
      exact ⟨head, slice, tail ++ text, by rw [hbefore]; simp, hstands⟩
    · obtain ⟨head, slice, tail, htext, hstands⟩ := hnews token hnew
      exact ⟨before ++ head, slice, tail, by rw [htext]; simp, hstands⟩
  covered := by
    intro head ch tail hsplit later hlater
    rw [append_assoc]
    rcases append_eq_append_iff.mp hsplit with
      ⟨between, hhead, htext⟩ | ⟨between, hbefore, htail⟩
    · rw [hhead]
      exact hcovered between ch tail htext later hlater
    · cases between with
      | nil =>
        rw [nil_append] at htail
        have hhead : head = before ++ [] := by simpa using hbefore.symm
        rw [hhead]
        exact hcovered [] ch tail htail.symm later hlater
      | cons first between =>
        obtain ⟨rfl, htail⟩ := cons.inj htail
        refine h.covered head ch between hbefore (news ++ later) ?_
        intro token htoken
        rcases mem_append.mp htoken with hnew | hlate
        · obtain ⟨inner, slice, outer, _, hstands⟩ := hnews token hnew
          rw [hstands.start_offset, hstands.stop_offset, size_append]
          omega
        · obtain ⟨hstart, hstop⟩ := hlater token hlate
          rw [size_append] at hstart
          omega

/-- Tokens behind the text are not among those that end before it. -/
theorem filter_earlier (h : ReadSoFar tables source before lexer tokens) {later : List Token}
    (hlater : ∀ token ∈ later, size before < token.start.offset ∧
      token.start.offset ≤ token.stop.offset) :
    (tokens ++ later).filter (·.stop.offset ≤ size before) = tokens := by
  have hkeep : tokens.filter (·.stop.offset ≤ size before) = tokens :=
    filter_eq_self.mpr fun token htoken => by simpa using h.stop_le htoken
  have hdrop : later.filter (·.stop.offset ≤ size before) = [] := by
    refine filter_eq_nil_iff.mpr ?_
    intro token htoken
    have hbounds := hlater token htoken
    simp only [decide_eq_true_eq]
    omega
  rw [filter_append, hkeep, hdrop, append_nil]

theorem standsAt_newline (tables : UnicodeTables) (before : List Char) :
    StandsAt tables
      ⟨.newline, positionAfter before, (positionAfter before).next '\n'⟩ before ['\n'] where
  start := rfl
  stop := by
    rw [positionAfter_append]
    rfl
  alone := ⟨_, rfl, by simp; rfl⟩

theorem standsAt_of_relexes {kind : TokenKind} (before : List Char)
    (hrelexes : Lexer.RelexesAs tables text kind) :
    StandsAt tables ⟨kind, positionAfter before, (positionAfter before).past text⟩ before text where
  start := rfl
  stop := (positionAfter_append before text).symm
  alone := by
    rw [positionAfter_eq text]
    exact ⟨_, hrelexes, fun other hother => mem_singleton.mp hother⟩

theorem covered_of_token (htoken : token ∈ tokens) (hstands : StandsAt tables token before text)
    {head tail : List Char} {ch : Char} (htext : text = head ++ ch :: tail) :
    Covered source tokens (before ++ head) ch := by
  refine .inl ⟨token, htoken, ?_, ?_⟩
  · rw [hstands.start_offset, size_append]
    omega
  · rw [hstands.stop_offset, htext, size_append, size_append, size_cons]
    omega

theorem eq_of_singleton {ch ch' : Char} {head tail : List Char} (h : [ch] = head ++ ch' :: tail) :
    head = [] ∧ ch' = ch := by
  cases head with
  | nil => exact ⟨rfl, (cons.inj h).1.symm⟩
  | cons first head => simp at h

theorem extend_char (h : ReadSoFar tables source before lexer tokens) {ch : Char}
    {rest : List Char} (hrest : lexer.rest = ch :: rest)
    (hskipped : ∀ later : List Token, (∀ token ∈ later, size before < token.start.offset ∧
      token.start.offset ≤ token.stop.offset) → Skipped source (tokens ++ later) before ch) :
    ReadSoFar tables source (before ++ [ch]) (lexer.behind [ch] rest) tokens := by
  have hdepth : (lexer.behind [ch] rest).delimiterDepth = openDelimiters (tokens ++ []) := by
    rw [append_nil]
    exact h.depth
  have hread : ReadSoFar tables source (before ++ [ch]) (lexer.behind [ch] rest) (tokens ++ []) := by
    refine h.extend hrest rfl hdepth List.Pairwise.nil (by simp) ?_
    intro head ch' tail hsplit later hlater
    obtain ⟨rfl, rfl⟩ := eq_of_singleton hsplit
    rw [append_nil]
    refine .inr (hskipped later ?_)
    intro token htoken
    have hpos := ch'.utf8Size_pos
    obtain ⟨hstart, hstop⟩ := hlater token htoken
    rw [size_append, size_cons, size_nil] at hstart
    omega
  rw [append_nil] at hread
  exact hread

theorem turn (h : ReadSoFar tables source before lexer tokens)
    (hturn : Lexer.Turn tables lexer tokens next tokens') :
    ∃ text, text ≠ [] ∧ lexer.rest = text ++ next.rest ∧
      ReadSoFar tables source (before ++ text) next tokens' := by
  cases hturn with
  | lineEnd hrest hdepth hcontinued =>
    have hstands := standsAt_newline tables before
    refine ⟨['\n'], by simp, hrest, h.extend hrest rfl ?_ (pairwise_singleton _ _) ?_ ?_⟩
    · rw [openDelimiters_append_newlines _ (by simp)]
      exact h.depth
    · intro token htoken
      obtain rfl := mem_singleton.mp htoken
      rw [h.position]
      exact ⟨[], ['\n'], [], rfl, by simpa using hstands⟩
    · intro head ch tail hsplit later _
      refine covered_of_token ?_ hstands hsplit
      rw [h.position]
      simp
  | suppressed hrest hreason =>
    refine ⟨['\n'], by simp, hrest, h.extend_char hrest ?_⟩
    intro later hlater
    refine .suppressed rfl ?_
    rw [h.filter_earlier hlater, ← h.depth]
    exact hreason
  | space hrest hbreak hspace =>
    exact ⟨[_], by simp, hrest, h.extend_char hrest fun _ _ => .space hbreak hspace⟩
  | @comment text rest news hrest hcomment hnews =>
    have hnewline : ∀ token ∈ news, token.kind = .newline := by
      intro token htoken
      obtain ⟨_, _, _, hkind, _⟩ := exists_of_mem_newlineTokens (hnews.subset htoken)
      exact hkind
    have hne : text ≠ [] := by
      cases hcomment <;> simp
    refine ⟨text, hne, hrest, h.extend hrest rfl ?_ ?_ ?_ ?_⟩
    · rw [openDelimiters_append_newlines _ hnewline]
      exact h.depth
    · exact (newlineTokens_pairwise _ _).sublist hnews
    · intro token htoken
      obtain ⟨kind, start, stop⟩ := token
      obtain ⟨head, tail, htext, rfl, rfl, rfl⟩ := exists_of_mem_newlineTokens (hnews.subset htoken)
      have hstands := standsAt_newline tables (before ++ head)
      rw [positionAfter_append, ← h.position] at hstands
      exact ⟨head, ['\n'], tail, by rw [htext]; simp, hstands⟩
    · intro head ch tail hsplit later hlater
      have hsrc : source = before ++ text ++ rest := by
        rw [h.rest, hrest, append_assoc]
      refine .inr (.comment hsrc hcomment ?_ ?_ ?_)
      · rw [size_append]
        omega
      · rw [hsplit]
        simp only [size_append, size_cons]
        omega
      · intro token htoken
        rcases mem_append.mp htoken with hold | hmore
        · exact .inr (.inl (h.stop_le hold))
        · rcases mem_append.mp hmore with hnew | hlate
          · exact .inl (hnewline token hnew)
          · exact .inr (.inr (hlater token hlate).1)
  | @token kind text rest hrest hne hrelexes =>
    have hstands := standsAt_of_relexes before hrelexes
    rw [← h.position] at hstands
    refine ⟨text, hne, hrest, h.extend hrest rfl ?_ (pairwise_singleton _ _) ?_ ?_⟩
    · rw [openDelimiters_append, ← h.depth]
      rfl
    · intro token htoken
      obtain rfl := mem_singleton.mp htoken
      exact ⟨[], text, [], by simp, by simpa using hstands⟩
    · intro head ch tail hsplit later _
      exact covered_of_token (by simp) hstands hsplit

theorem tiles {source : String} (h : ReadSoFar tables source.toList before lexer tokens)
    (hrest : lexer.rest = []) :
    Tiles tables source (tokens ++ [⟨.eof, lexer.position, lexer.position⟩]) := by
  have hsrc : source.toList = before := by rw [h.rest, hrest, append_nil]
  have hsize : source.utf8ByteSize = size before := by
    rw [← hsrc]
    exact SelfDelimiting.utf8ByteSize_eq source
  refine ⟨?_, ⟨tokens, lexer.position, rfl, ?_⟩, ?_, ?_⟩
  · refine pairwise_append.mpr ⟨h.ordered, pairwise_singleton _ _, ?_⟩
    intro token htoken later hlater
    obtain rfl := mem_singleton.mp hlater
    rw [h.position]
    exact h.stop_le htoken
  · rw [h.position, hsize]
    rfl
  · intro token htoken
    rcases mem_append.mp htoken with hold | hlast
    · obtain ⟨head, text, tail, hbefore, hstands⟩ := h.sliced token hold
      exact ⟨head, text, tail, by rw [hsrc, hbefore], hstands⟩
    · obtain rfl := mem_singleton.mp hlast
      refine ⟨before, [], [], by simp [hsrc], h.position, ?_, [], rfl, by simp⟩
      rw [h.position, append_nil]
  · intro head ch tail hsplit
    refine h.covered head ch tail (by rw [← hsrc, hsplit]) _ ?_
    intro token htoken
    obtain rfl := mem_singleton.mp htoken
    rw [h.position]
    exact ⟨le_rfl, le_rfl⟩

theorem run {source : String} {fuel : Nat} {result : List Token}
    (h : ReadSoFar tables source.toList before lexer tokens)
    (hrun : Lexer.run tables fuel lexer tokens = some (.ok result)) :
    Tiles tables source result := by
  induction fuel generalizing before lexer tokens with
  | zero =>
    rw [Lexer.run.eq_def] at hrun
    cases hrest : lexer.rest with
    | nil =>
      simp only [peek, hrest, List.head?_nil] at hrun
      cases hrun
      exact h.tiles hrest
    | cons ch rest => simp [peek, hrest] at hrun
  | succ fuel ih =>
    rw [Lexer.run.eq_def] at hrun
    cases hrest : lexer.rest with
    | nil =>
      simp only [peek, hrest, List.head?_nil] at hrun
      cases hrun
      exact h.tiles hrest
    | cons ch rest =>
      simp only [peek, hrest, List.head?_cons] at hrun
      cases hturn : lexer.turn tables tokens ch with
      | error failure => simp [hturn] at hrun
      | ok read =>
        rw [hturn] at hrun
        obtain ⟨text, _, _, hread⟩ := h.turn (turn_cases hrest hturn)
        exact ih hread hrun

end ReadSoFar

theorem Lexer.Turn.length_lt {lexer next : Lexer} {tokens tokens' : List Token}
    (h : Lexer.Turn tables lexer tokens next tokens') :
    next.rest.length < lexer.rest.length := by
  obtain ⟨text, hne, hrest⟩ : ∃ text, text ≠ [] ∧ lexer.rest = text ++ next.rest := by
    cases h with
    | lineEnd hrest => exact ⟨['\n'], by simp, hrest⟩
    | suppressed hrest => exact ⟨['\n'], by simp, hrest⟩
    | space hrest => exact ⟨[_], by simp, hrest⟩
    | comment hrest hcomment => exact ⟨_, by cases hcomment <;> simp, hrest⟩
    | token hrest hne => exact ⟨_, hne, hrest⟩
  have hpos := length_pos_iff.mpr hne
  rw [hrest, length_append]
  omega

/-- Every turn reads a character, so the loop ends within as many turns as there are characters. -/
theorem Lexer.exists_run (tables : UnicodeTables) {fuel : Nat} {lexer : Lexer} {tokens : List Token}
    (hfuel : lexer.rest.length ≤ fuel) :
    ∃ result, Lexer.run tables fuel lexer tokens = some result := by
  induction fuel generalizing lexer tokens with
  | zero =>
    have hrest : lexer.rest = [] := length_eq_zero_iff.mp (by omega)
    rw [Lexer.run.eq_def]
    simp [peek, hrest]
  | succ fuel ih =>
    rw [Lexer.run.eq_def]
    cases hrest : lexer.rest with
    | nil => simp [peek, hrest]
    | cons ch rest =>
      simp only [peek, hrest, List.head?_cons]
      cases hturn : lexer.turn tables tokens ch with
      | error failure => exact ⟨_, rfl⟩
      | ok read =>
        have hlt := (turn_cases hrest hturn).length_lt
        exact ih (by omega)

theorem Lexer.exists_lex (tables : UnicodeTables) (source : String) :
    ∃ result, Lexer.lex tables source = some result :=
  exists_run tables le_rfl

/-- The tokens of an accepted source tile it. -/
theorem lex_tiles {tables : UnicodeTables} {source : String} {tokens : List Token}
    (h : Lexer.lex tables source = some (.ok tokens)) : Tiles tables source tokens :=
  (ReadSoFar.initial tables source.toList).run h

/-- The tables for texts of ASCII characters. -/
def asciiTables : UnicodeTables where
  isXidStart := Char.isAlpha
  isXidContinue ch := ch.isAlphanum || ch == '_'
  nfc := id
  continues_of_starts ch h := by simp [Char.isAlphanum, h]

theorem lex_tiles_call : ∃ tokens,
    Lexer.lex asciiTables "f(\n1) /* \n */ // x" = some (.ok tokens) ∧
    tokens.map (·.kind) = [.ident "f", .lParen, .integer 1, .rParen, .newline, .eof] ∧
    Tiles asciiTables "f(\n1) /* \n */ // x" tokens :=
  ⟨_, rfl, rfl, lex_tiles rfl⟩

end Salicin.Lexing
