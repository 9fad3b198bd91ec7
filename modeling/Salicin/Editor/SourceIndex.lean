import Salicin.Editor.Messages
import Salicin.Foundation.TextPositions

/-!
# The index of a source

From bytes to the lines and the UTF-16 columns of the editor, and from the lines and the columns of
the lexer to bytes.
-/

namespace Salicin.Editor

open List TextPositions

/-- The UTF-16 code units of a text. -/
def utf16Length (text : List Char) : Nat :=
  (text.map fun ch => if ch.toNat < 65536 then 1 else 2).sum

/-- `try_into().unwrap_or(u32::MAX)`. -/
def toU32 (value : Nat) : Nat := min value 4294967295

structure EditorPosition extends SemanticPosition where
  byte : Nat

/-- The text in front of a byte and behind it; there is no such text inside of a character. -/
def splitAtByte : List Char → Nat → Option (List Char × List Char)
  | text, 0 => some ([], text)
  | [], _ + 1 => none
  | ch :: rest, byte + 1 =>
    if ch.utf8Size ≤ byte + 1 then
      (splitAtByte rest (byte + 1 - ch.utf8Size)).map fun (front, back) => (ch :: front, back)
    else none

/-- `&source[start..stop]`, if it does not panic. -/
def slice (source : List Char) (start stop : Nat) : Option (List Char) := do
  let (_, rest) ← splitAtByte source start
  let (text, _) ← splitAtByte rest (stop - start)
  pure text

/-- The bytes behind the line breaks of a text at this offset. -/
def lineStartsFrom : Nat → List Char → List Nat
  | _, [] => []
  | offset, ch :: rest =>
    if ch = '\n' then (offset + ch.utf8Size) :: lineStartsFrom (offset + ch.utf8Size) rest
    else lineStartsFrom (offset + ch.utf8Size) rest

structure SourceIndex where
  source : List Char
  lineStarts : List Nat

namespace SourceIndex

def new (source : List Char) : SourceIndex := ⟨source, 0 :: lineStartsFrom 0 source⟩

/-- The lines that start up to the byte are counted. -/
def position (index : SourceIndex) (byte : Nat) : Option EditorPosition := do
  let byte := min byte (size index.source)
  let line := (index.lineStarts.takeWhile (· ≤ byte)).length - 1
  let lineStart ← index.lineStarts[line]?
  let text ← slice index.source lineStart byte
  pure ⟨⟨toU32 line, toU32 (utf16Length text)⟩, byte⟩

/-- The bytes of the two ends are left out. -/
def byteRange (index : SourceIndex) (start stop : Nat) : Option EditorRange := do
  let start ← index.position start
  let stop ← index.position stop
  pure ⟨start.toSemanticPosition, stop.toSemanticPosition⟩

def byteAtScalar (index : SourceIndex) (line column : Nat) : Option Nat := do
  let start := index.lineStarts[line - 1]?.getD (size index.source)
  let stop := index.lineStarts[line]?.getD (size index.source)
  let text ← slice index.source start stop
  pure (if column - 1 < text.length then start + size (text.take (column - 1)) else stop)

end SourceIndex

/-! ## Slices -/

@[simp] theorem utf16Length_append (text rest : List Char) :
    utf16Length (text ++ rest) = utf16Length text + utf16Length rest := by
  simp [utf16Length]

theorem splitAtByte_append (before after : List Char) :
    splitAtByte (before ++ after) (size before) = some (before, after) := by
  induction before with
  | nil => cases after <;> rfl
  | cons ch rest ih =>
    obtain ⟨byte, hbyte⟩ := Nat.exists_eq_succ_of_ne_zero (by
      have := ch.utf8Size_pos
      rw [size_cons]
      omega : size (ch :: rest) ≠ 0)
    rw [size_cons] at hbyte
    rw [cons_append, size_cons, hbyte, splitAtByte, if_pos (by omega),
      show byte + 1 - ch.utf8Size = size rest by omega, ih]
    rfl

theorem slice_append (before text after : List Char) :
    slice (before ++ text ++ after) (size before) (size before + size text) = some text := by
  rw [slice, append_assoc, splitAtByte_append, Option.bind_eq_bind, Option.bind_some,
    Nat.add_sub_cancel_left]
  dsimp only
  rw [splitAtByte_append]
  rfl

/-! ## Lines -/

section Lines

variable {text before after line : List Char} {offset : Nat}

theorem lineStartsFrom_append (offset : Nat) (text rest : List Char) :
    lineStartsFrom offset (text ++ rest) =
      lineStartsFrom offset text ++ lineStartsFrom (offset + size text) rest := by
  induction text generalizing offset with
  | nil => rfl
  | cons ch text ih =>
    rw [cons_append, lineStartsFrom, lineStartsFrom, size_cons, ih, Nat.add_assoc]
    split_ifs <;> rfl

theorem lineStartsFrom_of_not_mem (hline : '\n' ∉ line) : lineStartsFrom offset line = [] := by
  induction line generalizing offset with
  | nil => rfl
  | cons ch line ih =>
    rw [mem_cons, not_or] at hline
    rw [lineStartsFrom, if_neg (Ne.symm hline.1), ih hline.2]

theorem length_lineStartsFrom (offset : Nat) (text : List Char) :
    (lineStartsFrom offset text).length = text.count '\n' := by
  induction text generalizing offset with
  | nil => rfl
  | cons ch text ih =>
    by_cases hbreak : ch = '\n' <;> simp [lineStartsFrom, hbreak, ih]

theorem mem_lineStartsFrom {start : Nat} (hstart : start ∈ lineStartsFrom offset text) :
    offset < start ∧ start ≤ offset + size text := by
  induction text generalizing offset with
  | nil => simp [lineStartsFrom] at hstart
  | cons ch text ih =>
    have hpos := ch.utf8Size_pos
    rw [lineStartsFrom] at hstart
    rw [size_cons]
    have hlater (hstart : start ∈ lineStartsFrom (offset + ch.utf8Size) text) :
        offset < start ∧ start ≤ offset + (ch.utf8Size + size text) := by
      have := ih hstart
      omega
    split_ifs at hstart
    · rcases mem_cons.mp hstart with rfl | hstart
      · omega
      · exact hlater hstart
    · exact hlater hstart

/-- The text up to its last line break. -/
def frontOf (text : List Char) : List Char := text.rdropWhile (· ≠ '\n')

/-- The text behind its last line break. -/
def lineOf (text : List Char) : List Char := text.rtakeWhile (· ≠ '\n')

theorem frontOf_append_lineOf (text : List Char) : frontOf text ++ lineOf text = text :=
  rdropWhile_append_rtakeWhile ..

theorem lineOf_append (text : List Char) (hline : '\n' ∉ line) :
    lineOf (text ++ line) = lineOf text ++ line := by
  rw [lineOf, lineOf, rtakeWhile, reverse_append, takeWhile_append_of_pos,
    reverse_append, reverse_reverse, rtakeWhile]
  intro ch hch
  rw [decide_eq_true_eq]
  rintro rfl
  exact hline (mem_reverse.mp hch)

/-- The line behind the last line break is the last one that starts. By induction on the text, from
its end. -/
theorem lineStarts_count (text : List Char) :
    (0 :: lineStartsFrom 0 text)[text.count '\n']? = some (size (frontOf text)) := by
  induction text using reverseRecOn with
  | nil => rfl
  | append_singleton text ch ih =>
    by_cases hbreak : ch = '\n'
    · subst hbreak
      rw [lineStartsFrom_append, count_append, count_singleton_self,
        getElem?_cons_succ, getElem?_append_right (by rw [length_lineStartsFrom]),
        length_lineStartsFrom, Nat.sub_self, frontOf, rdropWhile_concat_neg _ _ _ (by simp),
        size_append]
      simp [lineStartsFrom]
    · have hch : '\n' ∉ [ch] := by simp [Ne.symm hbreak]
      rw [lineStartsFrom_append, lineStartsFrom_of_not_mem hch, append_nil,
        count_append, count_eq_zero.mpr hch, Nat.add_zero, ih, frontOf, frontOf,
        rdropWhile_concat_pos _ _ _ (by simp [hbreak])]

theorem lineStarts_append_count (before after : List Char) :
    (0 :: lineStartsFrom 0 (before ++ after))[before.count '\n']? =
      some (size (frontOf before)) := by
  rw [lineStartsFrom_append, ← cons_append, getElem?_append_left, lineStarts_count]
  rw [length_cons, length_lineStartsFrom]
  omega

theorem SourceIndex.position_append (before after : List Char) :
    (SourceIndex.new (before ++ after)).position (size before) =
      some ⟨⟨toU32 (before.count '\n'), toU32 (utf16Length (lineOf before))⟩, size before⟩ := by
  have hmin : min (size before) (size (before ++ after)) = size before := by
    rw [size_append]
    omega
  have hstarts : (0 :: lineStartsFrom 0 (before ++ after)).takeWhile (· ≤ size before) =
      0 :: lineStartsFrom 0 before := by
    rw [lineStartsFrom_append, ← cons_append, takeWhile_append_of_pos]
    · have hlater : (lineStartsFrom (0 + size before) after).takeWhile (· ≤ size before) = [] := by
        rw [takeWhile_eq_nil_iff]
        intro hpos
        have := mem_lineStartsFrom (get_mem _ ⟨0, hpos⟩)
        rw [decide_eq_true_eq]
        omega
      rw [hlater, append_nil]
    · intro start hstart
      rw [decide_eq_true_eq]
      rcases mem_cons.mp hstart with rfl | hstart
      · exact Nat.zero_le _
      · have := mem_lineStartsFrom hstart
        omega
  have hslice : slice (before ++ after) (size (frontOf before)) (size before) =
      some (lineOf before) := by
    have hslice := slice_append (frontOf before) (lineOf before) after
    rwa [← size_append, frontOf_append_lineOf] at hslice
  simp only [SourceIndex.position, SourceIndex.new, hmin, hstarts, length_cons,
    length_lineStartsFrom, Nat.add_sub_cancel, lineStarts_append_count, hslice,
    Option.bind_eq_bind, Option.bind_some]
  rfl

end Lines

end Salicin.Editor
