import Salicin.Editor.SourceIndex
import Salicin.Lexing.Tiling

/-!
# Places in the text of a client

A client reads the line and the UTF-16 column of a place as the protocol says: a line ends with a
line feed, with a carriage return, or with both. The index ends lines at line feeds alone, so the
two agree only behind paired carriage returns.
-/

namespace Salicin.Editor

open List Nat Option TextPositions SourceIndex
open Lexing
open Lexing.Lexer (lex)

/-- With this character, in front of the rest, a line of the client ends. -/
def endsLine (ch : Char) (rest : List Char) : Bool :=
  ch = '\n' || ch = '\r' && rest.head? ≠ some '\n'

/-- The text behind as many lines of the client. -/
def behindLines : Nat → List Char → Option (List Char)
  | 0, text => some text
  | _ + 1, [] => none
  | line + 1, ch :: rest =>
      if endsLine ch rest then behindLines line rest else behindLines (line + 1) rest

/-- The bytes of a line up to a column. A column behind the line is at its end, and none is inside
of a character. -/
def columnBytes : Nat → List Char → Option Nat
  | 0, _ => some 0
  | _ + 1, [] => some 0
  | column + 1, ch :: rest =>
      if ch = '\n' ∨ ch = '\r' then some 0
      else if utf16Length [ch] ≤ column + 1 then
        (columnBytes (column + 1 - utf16Length [ch]) rest).map (ch.utf8Size + ·)
      else none

/-- The byte at a position that a client is sent. -/
def clientByte (text : List Char) (position : SemanticPosition) : Option Nat := do
  let rest ← behindLines position.line text
  let column ← columnBytes position.utf16Character rest
  pure (size text - size rest + column)

/-- The line and the column of the client between two texts, from those of the first text on. -/
def clientPosition : Nat → Nat → List Char → List Char → SemanticPosition
  | line, column, [], _ => ⟨line, column⟩
  | line, column, ch :: before, after =>
      if endsLine ch (before ++ after) then clientPosition (line + 1) 0 before after
      else clientPosition line (column + utf16Length [ch]) before after

/-- The text with other bytes between two bytes. -/
def spliceBytes (text : List Char) (start stop : Nat) (new : List Char) : Option (List Char) := do
  let (front, rest) ← splitAtByte text start
  let (_, back) ← splitAtByte rest (stop - start)
  pure (front ++ new ++ back)

/-- What a client makes of an edit. -/
def applyEdit (text : List Char) (range : EditorRange) (new : List Char) :
    Option (List Char) := do
  let start ← clientByte text range.start
  let stop ← clientByte text range.finish
  spliceBytes text start stop new

/-- The index gives the client's line and column between the two texts, and the client reads them
as the byte there. -/
def AgreesAt (before after : List Char) : Prop :=
  ∃ position, (SourceIndex.new (before ++ after)).position (size before) = some position ∧
    position.toSemanticPosition = clientPosition 0 0 before after ∧
    clientByte (before ++ after) position.toSemanticPosition = some (size before)

/-- Each carriage return of the text is followed by a line feed. -/
def ReturnsPaired : List Char → Prop
  | [] => True
  | ch :: rest => (ch = '\r' → rest.head? = some '\n') ∧ ReturnsPaired rest

/-- The carriage returns are paired, and the line and the column behind the text are numbers of 32
bits. -/
structure Readable (before : List Char) : Prop where
  paired : ReturnsPaired before
  line : before.count '\n' ≤ 4294967295
  column : utf16Length (lineOf before) ≤ 4294967295

/-! ## The line behind a text -/

section Lines

variable {before after rest text : List Char} {ch : Char} {line column : Nat}

theorem newline_not_mem_lineOf (text : List Char) : '\n' ∉ lineOf text := by
  intro hbreak
  simpa using mem_rtakeWhile_imp hbreak

theorem lineOf_of_not_mem (hline : '\n' ∉ text) : lineOf text = text := lineOf_append [] hline

theorem lineOf_cons_of_mem (ch : Char) (hrest : '\n' ∈ rest) :
    lineOf (ch :: rest) = lineOf rest := by
  induction rest using reverseRecOn with
  | nil => cases hrest
  | append_singleton rest last ih =>
      rw [← cons_append, lineOf, lineOf]
      by_cases hlast : last = '\n'
      · rw [rtakeWhile_concat_neg _ _ _ (by simp [hlast]),
          rtakeWhile_concat_neg _ _ _ (by simp [hlast])]
      · have hmem : '\n' ∈ rest := by simpa [Ne.symm hlast] using hrest
        rw [rtakeWhile_concat_pos _ _ _ (by simp [hlast]),
          rtakeWhile_concat_pos _ _ _ (by simp [hlast])]
        exact congrArg (· ++ [last]) (ih hmem)

theorem lineOf_newline_cons (rest : List Char) : lineOf ('\n' :: rest) = lineOf rest := by
  by_cases hrest : '\n' ∈ rest
  · exact lineOf_cons_of_mem _ hrest
  · rw [lineOf_of_not_mem hrest]
    exact lineOf_append ['\n'] hrest

theorem endsLine_of_paired (hpaired : ReturnsPaired (ch :: rest)) (after : List Char) :
    endsLine ch (rest ++ after) = decide (ch = '\n') := by
  by_cases hreturn : ch = '\r'
  · have hhead := hpaired.1 hreturn
    cases rest with
    | nil => cases hhead
    | cons next rest =>
        cases hhead
        simp [endsLine]
  · simp [endsLine, hreturn]

theorem behindLines_count (hpaired : ReturnsPaired before) (after : List Char) :
    behindLines (before.count '\n') (before ++ after) = some (lineOf before ++ after) := by
  induction before with
  | nil => simp [behindLines, lineOf]
  | cons ch rest ih =>
      have hends := endsLine_of_paired hpaired after
      have hrest := ih hpaired.2
      rw [cons_append]
      by_cases hbreak : ch = '\n'
      · subst hbreak
        rw [count_cons_self, behindLines, hends, if_pos (by simp), hrest, lineOf_newline_cons]
      rw [count_cons_of_ne hbreak]
      by_cases hmem : '\n' ∈ rest
      · obtain ⟨line, hline⟩ := exists_eq_succ_of_ne_zero (count_pos_iff.mpr hmem).ne'
        rw [hline] at hrest ⊢
        rw [behindLines, hends, if_neg (by simpa), hrest, lineOf_cons_of_mem ch hmem]
      · rw [count_eq_zero.mpr hmem, lineOf_of_not_mem (by simp [Ne.symm hbreak, hmem])]
        simp [behindLines]

theorem clientPosition_of_paired (hpaired : ReturnsPaired before) (line column : Nat)
    (after : List Char) :
    clientPosition line column before after = ⟨line + before.count '\n',
      if '\n' ∈ before then utf16Length (lineOf before) else column + utf16Length before⟩ := by
  induction before generalizing line column with
  | nil => rfl
  | cons ch rest ih =>
      rw [clientPosition, endsLine_of_paired hpaired, ih hpaired.2, ih hpaired.2]
      by_cases hbreak : ch = '\n'
      · subst hbreak
        rw [if_pos (by simp), count_cons_self, if_pos mem_cons_self, lineOf_newline_cons,
          add_right_comm, add_assoc]
        congr 1
        split_ifs with hmem
        · rfl
        · rw [lineOf_of_not_mem hmem, zero_add]
      · rw [if_neg (by simpa), count_cons_of_ne hbreak]
        congr 1
        by_cases hmem : '\n' ∈ rest
        · rw [if_pos hmem, if_pos (mem_cons_of_mem _ hmem), lineOf_cons_of_mem ch hmem]
        · rw [if_neg hmem, if_neg (by simp [Ne.symm hbreak, hmem]), add_assoc]
          simp [utf16Length]

/-- Behind as many lines of the client there are at most as many line feeds, and fewer if a
carriage return ends one of the lines. -/
theorem behindLines_eq_some (hbehind : behindLines line text = some rest) :
    ∃ front, text = front ++ rest ∧ front.count '\n' ≤ line ∧
      (front.count '\n' = line → ReturnsPaired front ∧ lineOf front = []) := by
  fun_induction behindLines line text with
  | case1 text =>
      cases hbehind
      exact ⟨[], rfl, le_rfl, fun _ => ⟨trivial, rfl⟩⟩
  | case2 => cases hbehind
  | case3 line ch text hends ih =>
      obtain ⟨front, rfl, hle, hsame⟩ := ih hbehind
      refine ⟨ch :: front, rfl, ?_⟩
      by_cases hbreak : ch = '\n'
      · subst hbreak
        rw [count_cons_self, lineOf_newline_cons]
        refine ⟨by omega, fun hcount => ?_⟩
        obtain ⟨hpaired, hline⟩ := hsame (by omega)
        exact ⟨⟨by simp, hpaired⟩, hline⟩
      · rw [count_cons_of_ne hbreak]
        exact ⟨by omega, fun hcount => by omega⟩
  | case4 line ch text hends ih =>
      obtain ⟨front, rfl, hle, hsame⟩ := ih hbehind
      have hbreak : ch ≠ '\n' := by
        rintro rfl
        simp [endsLine] at hends
      refine ⟨ch :: front, rfl, ?_⟩
      rw [count_cons_of_ne hbreak]
      refine ⟨hle, fun hcount => ?_⟩
      obtain ⟨hpaired, hline⟩ := hsame hcount
      have hmem : '\n' ∈ front := count_pos_iff.mp (by omega)
      rw [lineOf_cons_of_mem ch hmem]
      refine ⟨⟨fun hreturn => ?_, hpaired⟩, hline⟩
      obtain ⟨next, later, rfl⟩ := exists_cons_of_ne_nil (ne_nil_of_mem hmem)
      simpa [endsLine, hreturn] using hends

end Lines

/-! ## Columns -/

section Columns

variable {front back text : List Char} {column bytes : Nat}

theorem utf16Length_cons (ch : Char) (rest : List Char) :
    utf16Length (ch :: rest) = utf16Length [ch] + utf16Length rest :=
  utf16Length_append [ch] rest

theorem utf16Length_singleton_pos (ch : Char) : 0 < utf16Length [ch] := by
  rw [utf16Length, map_singleton, sum_singleton]
  split_ifs <;> omega

theorem columnBytes_append (hbreak : '\n' ∉ front) (hreturn : '\r' ∉ front) :
    columnBytes (utf16Length front) (front ++ back) = some (size front) := by
  induction front with
  | nil => cases back <;> rfl
  | cons ch rest ih =>
      rw [mem_cons, not_or] at hbreak hreturn
      obtain ⟨length, hsucc⟩ : ∃ length, utf16Length [ch] + utf16Length rest = length + 1 :=
        exists_eq_succ_of_ne_zero (by
          have hpos := utf16Length_singleton_pos ch
          omega)
      rw [utf16Length_cons, hsucc, cons_append, columnBytes,
        if_neg (by simp [Ne.symm hbreak.1, Ne.symm hreturn.1]), if_pos (by omega), ← hsucc,
        Nat.add_sub_cancel_left, ih hbreak.2 hreturn.2, size_cons]
      rfl

theorem columnBytes_eq_some (hcolumn : columnBytes column text = some bytes) :
    ∃ front back, text = front ++ back ∧ bytes = size front ∧ '\n' ∉ front ∧ '\r' ∉ front ∧
      utf16Length front ≤ column := by
  fun_induction columnBytes column text generalizing bytes with
  | case4 column ch rest hends hfits ih =>
      obtain ⟨later, hlater, rfl⟩ := map_eq_some_iff.mp hcolumn
      obtain ⟨front, back, rfl, rfl, hbreak, hreturn, hle⟩ := ih hlater
      rw [not_or] at hends
      refine ⟨ch :: front, back, rfl, (size_cons ch front).symm, ?_, ?_, ?_⟩
      · simp [Ne.symm hends.1, hbreak]
      · simp [Ne.symm hends.2, hreturn]
      · rw [utf16Length_cons]
        omega
  | case5 => cases hcolumn
  | _ =>
      cases hcolumn
      exact ⟨[], _, rfl, rfl, by simp, by simp, zero_le _⟩

end Columns

/-! ## Places -/

section Places

variable {before after : List Char}

theorem ReturnsPaired.append {front line : List Char} (hfront : ReturnsPaired front)
    (hline : '\r' ∉ line) : ReturnsPaired (front ++ line) := by
  induction front with
  | nil =>
      induction line with
      | nil => exact trivial
      | cons ch line ih =>
          rw [mem_cons, not_or] at hline
          exact ⟨fun hreturn => absurd hreturn.symm hline.1, ih hline.2⟩
  | cons ch front ih =>
      refine ⟨fun hreturn => ?_, ih hfront.2⟩
      have hhead := hfront.1 hreturn
      cases front with
      | nil => cases hhead
      | cons next front => exact hhead

theorem ReturnsPaired.lineOf (hpaired : ReturnsPaired before) : '\r' ∉ lineOf before := by
  induction before with
  | nil => simp [Editor.lineOf]
  | cons ch rest ih =>
      have hrest := ih hpaired.2
      by_cases hmem : '\n' ∈ rest
      · rwa [lineOf_cons_of_mem ch hmem]
      by_cases hbreak : ch = '\n'
      · subst hbreak
        rwa [lineOf_newline_cons]
      · rw [lineOf_of_not_mem hmem] at hrest
        rw [lineOf_of_not_mem (by simp [Ne.symm hbreak, hmem]), mem_cons, not_or]
        refine ⟨fun hreturn => hmem ?_, hrest⟩
        exact mem_of_mem_head? (hpaired.1 hreturn.symm)

theorem clientByte_of_paired (hpaired : ReturnsPaired before) (after : List Char) :
    clientByte (before ++ after) ⟨before.count '\n', utf16Length (lineOf before)⟩ =
      some (size before) := by
  have hsize : size before = size (frontOf before) + size (lineOf before) := by
    rw [← size_append, frontOf_append_lineOf]
  simp only [clientByte, behindLines_count hpaired after, bind_eq_bind, bind_some,
    columnBytes_append (newline_not_mem_lineOf before) hpaired.lineOf]
  rw [size_append, size_append, hsize]
  exact congrArg some (by omega)

variable (before after : List Char)

/-- The client reads a place by its line and its column if and only if both were not cut off and
each line in front of it ends with a line feed. -/
theorem clientByte_eq_some_iff :
    clientByte (before ++ after)
        ⟨toU32 (before.count '\n'), toU32 (utf16Length (lineOf before))⟩ = some (size before) ↔
      Readable before := by
  constructor
  · intro hbyte
    obtain ⟨rest, hbehind, hbyte⟩ := bind_eq_some_iff.mp hbyte
    obtain ⟨bytes, hcolumn, hbyte⟩ := bind_eq_some_iff.mp hbyte
    obtain ⟨front, hfront, hle, hsame⟩ := behindLines_eq_some hbehind
    obtain ⟨line, back, rfl, rfl, hbreak, hreturn, hlen⟩ := columnBytes_eq_some hcolumn
    have hbefore : before = front ++ line := by
      have hsize := Option.some.inj hbyte
      rw [hfront, size_append, Nat.add_sub_cancel, ← size_append] at hsize
      rw [← append_assoc] at hfront
      obtain ⟨between, hbetween, -⟩ := exists_append_of_size_le hfront hsize.ge
      have hempty : between = [] := by
        by_contra hne
        have hpos := size_pos hne
        rw [hbetween, size_append] at hsize
        omega
      rw [hbetween, hempty, append_nil]
    subst hbefore
    have hcount : (front ++ line).count '\n' = front.count '\n' := by
      rw [count_append, count_eq_zero.mpr hbreak, add_zero]
    dsimp only at hle hsame hlen
    rw [hcount, toU32] at hle hsame
    obtain ⟨hpaired, hempty⟩ := hsame (by omega)
    have hline : lineOf (front ++ line) = line := by
      rw [lineOf_append front hbreak, hempty, nil_append]
    rw [hline, toU32] at hlen
    exact ⟨hpaired.append hreturn, by rw [hcount]; omega, by rw [hline]; omega⟩
  · rintro ⟨hpaired, hline, hcolumn⟩
    rw [toU32, toU32, min_eq_left hline, min_eq_left hcolumn]
    exact clientByte_of_paired hpaired after

theorem agreesAt_iff : AgreesAt before after ↔ Readable before := by
  rw [← clientByte_eq_some_iff before after]
  constructor
  · rintro ⟨pos, hposition, -, hbyte⟩
    rw [position_append] at hposition
    cases hposition
    exact hbyte
  · intro hbyte
    refine ⟨_, position_append before after, ?_, hbyte⟩
    obtain ⟨hpaired, hline, hcolumn⟩ := (clientByte_eq_some_iff before after).mp hbyte
    rw [clientPosition_of_paired hpaired, toU32, toU32, min_eq_left hline, min_eq_left hcolumn]
    rw [zero_add]
    split_ifs with hmem
    · rfl
    · rw [lineOf_of_not_mem hmem, zero_add]

/-! ## Lines of the lexer -/

/-- The line behind a text goes on to where the next line starts, or to the end. -/
theorem exists_lineStart : ∃ line back, after = line ++ back ∧
    (0 :: lineStartsFrom 0 (before ++ after))[before.count '\n' + 1]?.getD
      (size (before ++ after)) = size (before ++ line) := by
  by_cases hbreak : '\n' ∈ after
  · obtain ⟨line, back, rfl, hline⟩ := eq_append_cons_of_mem hbreak
    refine ⟨line ++ ['\n'], back, by simp, ?_⟩
    have hstart := lineStarts_append_count (before ++ line ++ ['\n']) back
    rw [count_append, count_append, count_eq_zero.mpr hline, frontOf,
      rdropWhile_concat_neg _ _ _ (by simp)] at hstart
    simp only [append_assoc, singleton_append] at hstart ⊢
    exact congrArg (Option.getD · _) hstart
  · refine ⟨after, [], (append_nil _).symm, ?_⟩
    rw [getElem?_eq_none]
    · rfl
    · rw [length_cons, length_lineStartsFrom, count_append, count_eq_zero.mpr hbreak, add_zero]

/-- The byte at the line and the column of the lexer. -/
theorem SourceIndex.byteAtScalar_append :
    (SourceIndex.new (before ++ after)).byteAtScalar (lineAfter before) (columnAfter before) =
      some (size before) := by
  obtain ⟨line, back, rfl, hstop⟩ := exists_lineStart before after
  have hsize : size before = size (frontOf before) + size (lineOf before) := by
    rw [← size_append, frontOf_append_lineOf]
  have hslice : slice (before ++ (line ++ back)) (size (frontOf before)) (size (before ++ line)) =
      some (lineOf before ++ line) := by
    have hslice := slice_append (frontOf before) (lineOf before ++ line) back
    rwa [← append_assoc, frontOf_append_lineOf, ← size_append, ← append_assoc,
      frontOf_append_lineOf, append_assoc] at hslice
  have hcolumn : columnAfter before - 1 = (lineOf before).length := Nat.add_sub_cancel_left ..
  rw [byteAtScalar, SourceIndex.new, lineAfter, Nat.add_sub_cancel_left, lineStarts_append_count,
    Nat.add_comm 1, hstop, getD_some, hslice, hcolumn]
  simp only [bind_eq_bind, bind_some, take_left, ← hsize]
  cases line with
  | nil => simp
  | cons ch line => rw [if_pos (by simp)]; rfl

end Places

/-! ## Edits -/

section Edits

variable {before old after : List Char}

theorem spliceBytes_append (before old after new : List Char) :
    spliceBytes (before ++ old ++ after) (size before) (size (before ++ old)) new =
      some (before ++ new ++ after) := by
  rw [spliceBytes, append_assoc, splitAtByte_append, bind_eq_bind, bind_some,
    size_append, Nat.add_sub_cancel_left]
  dsimp only
  rw [splitAtByte_append]
  rfl

/-- A range is read as its bytes if and only if its ends are. -/
theorem byteRange_append (before old after : List Char) : ∃ range,
    (SourceIndex.new (before ++ old ++ after)).byteRange (size before) (size (before ++ old)) =
        some range ∧
      (clientByte (before ++ old ++ after) range.start = some (size before) ∧
          clientByte (before ++ old ++ after) range.finish = some (size (before ++ old)) ↔
        Readable before ∧ Readable (before ++ old)) := by
  have hstart := position_append before (old ++ after)
  have hstop := position_append (before ++ old) after
  rw [← append_assoc] at hstart
  refine ⟨_, by simp only [byteRange, hstart, hstop]; rfl, ?_⟩
  rw [← clientByte_eq_some_iff before (old ++ after),
    ← clientByte_eq_some_iff (before ++ old) after,
    append_assoc]

end Edits

/-- The index and the client agree at a place exactly if it is readable; the line and the column of
a token lead to its first byte; and an edit between two readable places is one of their bytes. -/
theorem sourceIndex_coordinates (tables : UnicodeTables) (text : String) :
    (∀ before after, text.toList = before ++ after → (AgreesAt before after ↔ Readable before)) ∧
      (∀ tokens, lex tables text = some (.ok tokens) → ∀ token ∈ tokens,
        (SourceIndex.new text.toList).byteAtScalar token.start.line token.start.column =
          some token.start.offset) ∧
      ∀ before old after, text.toList = before ++ old ++ after → ∃ range,
        (SourceIndex.new text.toList).byteRange (size before) (size (before ++ old)) = some range ∧
          (clientByte text.toList range.start = some (size before) ∧
              clientByte text.toList range.finish = some (size (before ++ old)) ↔
            Readable before ∧ Readable (before ++ old)) ∧
          (Readable before → Readable (before ++ old) → ∀ new, applyEdit text.toList range new =
                spliceBytes text.toList (size before) (size (before ++ old)) new ∧
              applyEdit text.toList range new = some (before ++ new ++ after)) := by
  refine ⟨fun before after _ => agreesAt_iff before after, ?_, ?_⟩
  · intro tokens hlex token htoken
    have htiles := (ReadSoFar.initial _ text.toList).run hlex
    obtain ⟨before, body, after, hsrc, hstands⟩ := htiles.sliced token htoken
    rw [hsrc, append_assoc, hstands.start]
    exact byteAtScalar_append before (body ++ after)
  · intro before old after hsrc
    obtain ⟨range, hrange, hread⟩ := byteRange_append before old after
    rw [hsrc]
    refine ⟨range, hrange, hread, fun hbefore hold new => ?_⟩
    obtain ⟨hstart, hstop⟩ := hread.mpr ⟨hbefore, hold⟩
    have happly : applyEdit (before ++ old ++ after) range new =
        spliceBytes (before ++ old ++ after) (size before) (size (before ++ old)) new := by
      rw [applyEdit, hstart, hstop]
      rfl
    exact ⟨happly, happly.trans (spliceBytes_append before old after new)⟩

/-- A carriage return alone ends a line of the client. -/
theorem not_agreesAt_return : ¬ ∀ before after, AgreesAt before after := by
  intro hall
  obtain ⟨position, hposition, -, hbyte⟩ := hall ['a', '\r'] ['b']
  cases hposition
  revert hbyte
  decide

/-- The edit of `b` behind a paired carriage return. -/
theorem sourceIndex_coordinates_paired :
    (∃ range, (SourceIndex.new "a\r\nb".toList).byteRange 3 4 = some range ∧
      applyEdit "a\r\nb".toList range ['c'] = some "a\r\nc".toList) ∧
      ∃ tokens, lex asciiTables "a\r\nb" = some (.ok tokens) ∧ ∀ token ∈ tokens,
        (SourceIndex.new "a\r\nb".toList).byteAtScalar token.start.line token.start.column =
          some token.start.offset := by
  obtain ⟨hagrees, htoks, hedits⟩ := sourceIndex_coordinates asciiTables "a\r\nb"
  have hbefore : Readable ['a', '\r', '\n'] := (hagrees ['a', '\r', '\n'] ['b'] rfl).mp
    ⟨_, rfl, rfl, by decide⟩
  have hold : Readable ['a', '\r', '\n', 'b'] := (hagrees ['a', '\r', '\n', 'b'] [] rfl).mp
    ⟨_, rfl, rfl, by decide⟩
  obtain ⟨range, hrange, -, happly⟩ := hedits ['a', '\r', '\n'] ['b'] [] rfl
  exact ⟨⟨range, hrange, (happly hbefore hold ['c']).2⟩, _, rfl, htoks _ rfl⟩

end Salicin.Editor
