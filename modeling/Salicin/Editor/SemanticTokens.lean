import Salicin.Editor.Server
import Salicin.Editor.SourceIndex
import Salicin.Lexing.Tiling

/-!
# Semantic tokens

The tokens of a document as differences of lines and UTF-16 columns, and what a client makes of
them.
-/

namespace Salicin.Editor

open Option TextPositions SourceIndex
open Lexing
open Lexing.Lexer (lex)

/-- `semantic_token_type`, for the tokens that the lexer makes. -/
def semanticTokenType : TokenKind → Option Nat
  | .let | .pub | .package | .root | .super | .extend | .struct | .enum | .trait | .where
  | .true | .false => some 0
  | .ident _ => some 1
  | .regionName _ => some 2
  | .string _ => some 3
  | .integer _ => some 4
  | .arrow | .fatArrow | .equal | .equalEqual | .bang | .bangEqual | .plus | .plusEqual | .minus
  | .minusEqual | .star | .starEqual | .slash | .slashEqual | .percent | .percentEqual | .less
  | .lessEqual | .greater | .greaterEqual | .andAnd | .orOr | .amp | .ampEqual | .pipe | .pipeEqual
  | .caret | .caretEqual | .shl | .shlEqual | .shr | .shrEqual | .questionDot
  | .questionQuestion => some 5
  | .lParen | .rParen | .lBracket | .rBracket | .lBrace | .rBrace | .colon | .dot | .ellipsis
  | .comma | .semicolon | .newline | .eof => none

/-- The tokens of `analyze_document_at`. -/
def editorTokens (src : List Char) (tokens : List Token) : Option (List EditorToken) :=
  tokens.mapM fun token => do
    let range ← (SourceIndex.new src).byteRange token.start.offset token.stop.offset
    pure ⟨semanticTokenType token.kind, range⟩

/-- A piece of a line with its type. -/
structure SemanticToken where
  line : Nat
  start : Nat
  length : Nat
  tokenType : Nat

/-- What a client makes of the numbers behind a token at this place. -/
def decodeFrom (line start : Nat) : List Nat → Option (List SemanticToken)
  | [] => some []
  | deltaLine :: deltaStart :: length :: tokenType :: _ :: rest =>
    let line := line + deltaLine
    let start := if deltaLine = 0 then start + deltaStart else deltaStart
    (decodeFrom line start rest).map (⟨line, start, length, tokenType⟩ :: ·)
  | _ => none

def decodeSemanticTokens (data : List Nat) : Option (List SemanticToken) := decodeFrom 0 0 data

/-- The piece of a line that a token of the source is, if it is classified and such a piece. -/
def semanticToken (src : List Char) (token : Token) : Option SemanticToken := do
  let tokenType ← semanticTokenType token.kind
  let (before, _) ← splitAtByte src token.start.offset
  let text ← slice src token.start.offset token.stop.offset
  if text = [] ∨ '\n' ∈ text then none
  else pure ⟨before.count '\n', utf16Length (lineOf before), utf16Length text, tokenType⟩

/-- The line and the column of each place are numbers of 32 bits. -/
def FitsU32 (src : List Char) : Prop :=
  ∀ before after, src = before ++ after →
    before.count '\n' ≤ 4294967295 ∧ utf16Length (lineOf before) ≤ 4294967295

/-- The later token begins behind the earlier one. -/
def SemanticToken.Before (token later : SemanticToken) : Prop :=
  token.line < later.line ∨ token.line = later.line ∧ token.start + token.length ≤ later.start

/-! ## Differences -/

/-- The piece that the loop makes of a token. -/
def EditorToken.piece (token : EditorToken) : Option SemanticToken := do
  let tokenType ← token.semanticTokenType
  let length := token.range.finish.utf16Character - token.range.start.utf16Character
  if token.range.start.line ≠ token.range.finish.line ∨ length = 0 then none
  else pure ⟨token.range.start.line, token.range.start.utf16Character, length, tokenType⟩

theorem encodeFrom_none {token : EditorToken} (hpiece : token.piece = none) (line start : Nat)
    (first : Bool) (rest : List EditorToken) :
    encodeFrom first line start (token :: rest) = encodeFrom first line start rest := by
  rw [encodeFrom]
  cases htype : token.semanticTokenType with
  | none => rfl
  | some tokenType =>
    by_cases hskip : token.range.start.line ≠ token.range.finish.line ∨
        token.range.finish.utf16Character - token.range.start.utf16Character = 0
    · exact if_pos hskip
    · simp only [EditorToken.piece, htype, bind_eq_bind, bind_some, if_neg hskip] at hpiece
      exact nomatch hpiece

theorem encodeFrom_some {token : EditorToken} {piece : SemanticToken}
    (hpiece : token.piece = some piece) (line start : Nat) (first : Bool)
    (rest : List EditorToken) :
    encodeFrom first line start (token :: rest) =
      (let deltaLine := if first then piece.line else piece.line - line
      [deltaLine, if first ∨ deltaLine ≠ 0 then piece.start else piece.start - start, piece.length,
        piece.tokenType, 0] ++ encodeFrom false piece.line piece.start rest) := by
  rw [encodeFrom]
  cases htype : token.semanticTokenType with
  | none => simp [EditorToken.piece, htype] at hpiece
  | some tokenType =>
    simp only [EditorToken.piece, htype, bind_eq_bind, bind_some] at hpiece
    split_ifs at hpiece with hskip
    cases hpiece
    exact if_neg hskip

/-- Behind a token at some place, what is encoded is decoded. By induction on the tokens. -/
theorem decodeFrom_encodeFrom {tokens : List EditorToken} {line start : Nat} {first : Bool}
    (hfst : first = true → line = 0 ∧ start = 0)
    (hafter : ∀ piece ∈ tokens.filterMap EditorToken.piece,
      line < piece.line ∨ line = piece.line ∧ start ≤ piece.start)
    (hordered : (tokens.filterMap EditorToken.piece).Pairwise SemanticToken.Before) :
    decodeFrom line start (encodeFrom first line start tokens) =
      some (tokens.filterMap EditorToken.piece) := by
  induction tokens generalizing line start first with
  | nil => rfl
  | cons token rest ih =>
    cases hpiece : token.piece with
    | none =>
      rw [List.filterMap_cons_none hpiece] at hafter hordered ⊢
      rw [encodeFrom_none hpiece, ih hfst hafter hordered]
    | some piece =>
      rw [List.filterMap_cons_some hpiece] at hafter hordered ⊢
      obtain ⟨hbefore, hordered⟩ := List.pairwise_cons.mp hordered
      have hrest : decodeFrom piece.line piece.start
          (encodeFrom false piece.line piece.start rest) = _ :=
        ih (by simp) (fun later hlater => by have := hbefore later hlater; grind [
          SemanticToken.Before]) hordered
      have hplace := hafter piece List.mem_cons_self
      have hline : line + (if first then piece.line else piece.line - line) = piece.line := by
        split_ifs with hfst'
        · have := hfst hfst'
          omega
        · omega
      rw [encodeFrom_some hpiece]
      simp only [List.cons_append, List.nil_append, decodeFrom, hline]
      have hstart : (if (if first then piece.line else piece.line - line) = 0 then
          start + (if first = true ∨ (if first then piece.line else piece.line - line) ≠ 0 then
            piece.start else piece.start - start)
          else if first = true ∨ (if first then piece.line else piece.line - line) ≠ 0 then
            piece.start else piece.start - start) = piece.start := by
        cases first with
        | true =>
          have := hfst rfl
          simp
          omega
        | false =>
          simp only [Bool.false_eq_true, if_false, false_or]
          split_ifs <;> omega
      rw [hstart, hrest]
      rfl

/-! ## Pieces of the source -/

section Pieces

variable {tables : UnicodeTables} {src : List Char} {token : Token}

theorem utf16Length_pos {text : List Char} (hne : text ≠ []) : 0 < utf16Length text := by
  obtain ⟨ch, rest, rfl⟩ := List.exists_cons_of_ne_nil hne
  rw [utf16Length, List.map_cons, List.sum_cons]
  split_ifs <;> omega

theorem editorToken_piece (hfits : FitsU32 src) {before text after : List Char}
    (hsrc : src = before ++ text ++ after) (hstands : StandsAt tables token before text) :
    ∃ range, (SourceIndex.new src).byteRange token.start.offset token.stop.offset = some range ∧
      EditorToken.piece ⟨semanticTokenType token.kind, range⟩ = semanticToken src token := by
  obtain ⟨hline, hcolumn⟩ := hfits before (text ++ after) (by rw [hsrc, List.append_assoc])
  obtain ⟨hline', hcolumn'⟩ := hfits (before ++ text) after hsrc
  have hstart : (SourceIndex.new src).position (size before) =
      some ⟨⟨before.count '\n', utf16Length (lineOf before)⟩, size before⟩ := by
    rw [hsrc, List.append_assoc, position_append, toU32, toU32, min_eq_left hline,
      min_eq_left hcolumn]
  have hstop : (SourceIndex.new src).position (size before + size text) =
      some ⟨⟨(before ++ text).count '\n', utf16Length (lineOf (before ++ text))⟩,
        size (before ++ text)⟩ := by
    rw [hsrc, ← size_append, position_append, toU32, toU32, min_eq_left hline',
      min_eq_left hcolumn']
  refine ⟨_, by simp only [byteRange, hstands.start_offset, hstands.stop_offset,
    hstart, hstop, bind_eq_bind, bind_some]; rfl, ?_⟩
  have hsplit : splitAtByte src (size before) = some (before, text ++ after) := by
    rw [hsrc, List.append_assoc, splitAtByte_append]
  have hslice : slice src (size before) (size before + size text) = some text := by
    rw [hsrc, slice_append]
  simp only [EditorToken.piece, semanticToken, hstands.start_offset, hstands.stop_offset, hsplit,
    hslice, bind_eq_bind, bind_some]
  congr 1
  funext tokenType
  by_cases hbreak : '\n' ∈ text
  · have hlines : before.count '\n' ≠ (before ++ text).count '\n' := by
      have := List.count_pos_iff.mpr hbreak
      rw [List.count_append]
      omega
    rw [if_pos (.inl hlines), if_pos (.inr hbreak)]
  · have hlines : (before ++ text).count '\n' = before.count '\n' := by
      rw [List.count_append, List.count_eq_zero.mpr hbreak, Nat.add_zero]
    rw [lineOf_append before hbreak, utf16Length_append, Nat.add_sub_cancel_left, hlines]
    by_cases hempty : text = []
    · subst hempty
      rw [if_pos (.inr rfl), if_pos (.inl rfl)]
    · have hpos := utf16Length_pos hempty
      rw [if_neg (by simp; omega), if_neg (by simp [hempty, hbreak])]

theorem semanticToken_eq_some {before text after : List Char} {piece : SemanticToken}
    (hsrc : src = before ++ text ++ after) (hstands : StandsAt tables token before text)
    (hpiece : semanticToken src token = some piece) : '\n' ∉ text ∧
      piece.line = before.count '\n' ∧ piece.start = utf16Length (lineOf before) ∧
      piece.length = utf16Length text := by
  have hsplit : splitAtByte src (size before) = some (before, text ++ after) := by
    rw [hsrc, List.append_assoc, splitAtByte_append]
  have hslice : slice src (size before) (size before + size text) = some text := by
    rw [hsrc, slice_append]
  rw [semanticToken, hstands.start_offset, hstands.stop_offset, hsplit, hslice] at hpiece
  obtain ⟨tokenType, -, hpiece⟩ := bind_eq_some_iff.mp hpiece
  simp only [bind_eq_bind, bind_some] at hpiece
  split_ifs at hpiece with hskip
  cases hpiece
  exact ⟨fun hbreak => hskip (.inr hbreak), rfl, rfl, rfl⟩

theorem semanticTokens_ordered {text : String} {tokens : List Token}
    (htiles : Tiles tables text tokens) :
    (tokens.filterMap (semanticToken text.toList)).Pairwise SemanticToken.Before := by
  rw [List.pairwise_filterMap]
  refine htiles.ordered.imp_of_mem fun {token later} htoken hlater hle piece hpiece other hother => ?_
  obtain ⟨before, body, after, hsrc, hstands⟩ := htiles.sliced token htoken
  obtain ⟨before', body', after', hsrc', hstands'⟩ := htiles.sliced later hlater
  obtain ⟨hbreak, hline, hstart, hlen⟩ := semanticToken_eq_some hsrc hstands hpiece
  obtain ⟨-, hline', hstart', -⟩ := semanticToken_eq_some hsrc' hstands' hother
  rw [hstands.stop_offset, hstands'.start_offset, ← size_append] at hle
  obtain ⟨between, rfl, -⟩ := exists_append_of_size_le
    (hsrc.symm.trans (by rw [hsrc', List.append_assoc])) hle
  rw [SemanticToken.Before, hline, hline', hstart, hstart', hlen, List.count_append,
    List.count_append, List.count_eq_zero.mpr hbreak]
  by_cases hbetween : '\n' ∈ between
  · have := List.count_pos_iff.mpr hbetween
    omega
  · rw [lineOf_append _ hbetween, lineOf_append _ hbreak, utf16Length_append, utf16Length_append,
      List.count_eq_zero.mpr hbetween]
    omega

/-- The tokens of an accepted source whose lines and columns fit are decoded as they are. -/
theorem semanticTokens_decode {text : String} {tokens : List Token}
    (hlex : lex tables text = some (.ok tokens)) (hfits : FitsU32 text.toList) :
    ∃ edited, editorTokens text.toList tokens = some edited ∧
      decodeSemanticTokens (encodeSemanticTokens edited) =
        some (tokens.filterMap (semanticToken text.toList)) ∧
      (tokens.filterMap (semanticToken text.toList)).Pairwise SemanticToken.Before := by
  have htiles := (ReadSoFar.initial tables text.toList).run hlex
  have hordered := semanticTokens_ordered htiles
  suffices hedited : ∃ edited, editorTokens text.toList tokens = some edited ∧
      edited.filterMap EditorToken.piece = tokens.filterMap (semanticToken text.toList) by
    obtain ⟨edited, hedited, hpieces⟩ := hedited
    refine ⟨edited, hedited, ?_, hordered⟩
    rw [← hpieces] at hordered ⊢
    exact decodeFrom_encodeFrom (fun _ => ⟨rfl, rfl⟩) (fun piece _ => by omega) hordered
  have hsliced := htiles.sliced
  clear hlex htiles hordered
  induction tokens with
  | nil => exact ⟨[], rfl, rfl⟩
  | cons token rest ih =>
    obtain ⟨edited, hedited, hpieces⟩ := ih fun other hother =>
      hsliced other (List.mem_cons_of_mem _ hother)
    obtain ⟨before, body, after, hsrc, hstands⟩ := hsliced token List.mem_cons_self
    obtain ⟨range, hrange, hpiece⟩ := editorToken_piece hfits hsrc hstands
    refine ⟨⟨semanticTokenType token.kind, range⟩ :: edited, ?_, ?_⟩
    · rw [editorTokens] at hedited ⊢
      rw [List.mapM_cons, hrange, hedited]
      rfl
    · rw [List.filterMap_cons, List.filterMap_cons, hpiece, hpieces]

end Pieces

/-! ## Short and wide sources -/

theorem utf16Length_le (text : List Char) : utf16Length text ≤ 2 * text.length := by
  induction text with
  | nil => rfl
  | cons ch rest ih =>
    rw [utf16Length, List.map_cons, List.sum_cons, List.length_cons]
    rw [utf16Length] at ih
    split_ifs <;> omega

theorem fitsU32_of_length {src : List Char} (hlen : 2 * src.length ≤ 4294967295) : FitsU32 src := by
  rintro before after rfl
  rw [List.length_append] at hlen
  have hcount := List.count_le_length (a := '\n') (l := before)
  have hline : (lineOf before).length ≤ before.length := (List.rtakeWhile_suffix _ _).length_le
  have hcolumn := utf16Length_le (lineOf before)
  omega

theorem semanticTokens_decode_call : ∃ tokens, lex asciiTables "f(\n1)" = some (.ok tokens) ∧
    ∃ edited, editorTokens "f(\n1)".toList tokens = some edited ∧
      decodeSemanticTokens (encodeSemanticTokens edited) =
        some (tokens.filterMap (semanticToken "f(\n1)".toList)) ∧
      (tokens.filterMap (semanticToken "f(\n1)".toList)).Pairwise SemanticToken.Before :=
  ⟨_, rfl, semanticTokens_decode (show lex asciiTables "f(\n1)" = some (.ok _) from rfl)
    (fitsU32_of_length (by decide))⟩

theorem run_spaces (tables : UnicodeTables) (count fuel : Nat) (rest : List Char)
    (position : Position) (depth : Nat) (tokens : List Token) :
    Lexer.run tables (count + fuel) ⟨List.replicate count ' ' ++ rest, position, depth⟩ tokens =
      Lexer.run tables fuel ⟨rest, position.past (List.replicate count ' '), depth⟩ tokens := by
  induction count generalizing position with
  | zero => rw [Nat.zero_add]; rfl
  | succ count ih =>
    rw [Nat.succ_add, List.replicate_succ, List.cons_append, Position.past_cons, ← ih, Lexer.run]
    rfl

/-- An operator behind spaces. -/
def spacedSource (count : Nat) : List Char := List.replicate count ' ' ++ ['+']

def spacedTokens (count : Nat) : List Token :=
  let start := positionAfter (List.replicate count ' ')
  let stop := start.past ['+']
  [⟨.plus, start, stop⟩, ⟨.eof, stop, stop⟩]

theorem lex_spacedSource (count : Nat) :
    lex asciiTables (String.ofList (spacedSource count)) = some (.ok (spacedTokens count)) := by
  rw [lex, String.toList_ofList, spacedSource, List.length_append, List.length_replicate,
    List.length_singleton, run_spaces, ← positionAfter_eq]
  rfl

theorem position_of_wide (before : List Char) (hbreak : '\n' ∉ before)
    (hwide : 4294967295 ≤ utf16Length before) (after : List Char) :
    (SourceIndex.new (before ++ after)).position (size before) =
      some ⟨⟨0, 4294967295⟩, size before⟩ := by
  have hline : lineOf before = before := lineOf_append [] hbreak
  rw [position_append, hline, List.count_eq_zero.mpr hbreak, toU32, toU32, min_eq_right hwide]
  rfl

/-- The operator begins and ends in the last column that there is, so it is left out. -/
theorem spacedSource_lost {count : Nat} (hcount : 4294967295 ≤ count) {edited : List EditorToken}
    (hedited : editorTokens (spacedSource count) (spacedTokens count) = some edited) :
    decodeSemanticTokens (encodeSemanticTokens edited) ≠
      some ((spacedTokens count).filterMap (semanticToken (spacedSource count))) := by
  obtain ⟨spaces, hspaces⟩ : ∃ spaces, spaces = List.replicate count ' ' := ⟨_, rfl⟩
  have hwide : 4294967295 ≤ utf16Length spaces := by
    rw [hspaces, utf16Length, List.map_replicate, List.sum_replicate]
    simpa using hcount
  have hbreak : '\n' ∉ spaces := by simp [hspaces]
  have hstart := position_of_wide spaces hbreak hwide ['+']
  have hstop := position_of_wide (spaces ++ ['+']) (by simp [hbreak])
    (by rw [utf16Length_append]; omega) []
  rw [List.append_nil] at hstop
  have htoks : spacedTokens count = [
      ⟨.plus, positionAfter spaces, positionAfter (spaces ++ ['+'])⟩,
      ⟨.eof, positionAfter (spaces ++ ['+']), positionAfter (spaces ++ ['+'])⟩] := by
    rw [spacedTokens, ← hspaces, positionAfter_append]
  have hoffset (text : List Char) : (positionAfter text).offset = size text := rfl
  rw [htoks, spacedSource, ← hspaces] at hedited ⊢
  simp only [editorTokens, List.mapM_cons, List.mapM_nil, byteRange, hoffset, hstart,
    hstop, bind_eq_bind, bind_some, pure_def, some_inj] at hedited
  subst hedited
  have hpiece : semanticToken (spaces ++ ['+'])
      ⟨.plus, positionAfter spaces, positionAfter (spaces ++ ['+'])⟩ =
        some ⟨spaces.count '\n', utf16Length (lineOf spaces), 1, 5⟩ := by
    have hslice := slice_append spaces ['+'] []
    rw [List.append_nil, ← size_append] at hslice
    simp only [semanticToken, hoffset, splitAtByte_append, hslice]
    rfl
  rw [List.filterMap_cons_some hpiece]
  simp [encodeSemanticTokens, encodeFrom, semanticTokenType, decodeSemanticTokens, decodeFrom]

theorem semanticTokens_saturate : ¬ ∀ (tables : UnicodeTables) (text : String)
    (tokens : List Token), lex tables text = some (.ok tokens) →
      ∃ edited, editorTokens text.toList tokens = some edited ∧
        decodeSemanticTokens (encodeSemanticTokens edited) =
          some (tokens.filterMap (semanticToken text.toList)) ∧
        (tokens.filterMap (semanticToken text.toList)).Pairwise SemanticToken.Before := by
  intro hall
  obtain ⟨edited, hedited, hdecode, -⟩ := hall _ _ _ (lex_spacedSource 4294967296)
  rw [String.toList_ofList] at hedited hdecode
  exact spacedSource_lost (by omega) hedited hdecode

end Salicin.Editor
