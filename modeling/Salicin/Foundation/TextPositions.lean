import Mathlib.Algebra.GroupWithZero.Nat
import Mathlib.Algebra.Order.BigOperators.Group.List
import Mathlib.Data.List.DropRight

/-!
# Positions in a text

An offset in bytes with the line and the column it lies in. A reader that goes over a text
character by character keeps all three up to date; what they are at a place depends only on the
text before it.
-/

namespace TextPositions

open List

/-- The length of a text in UTF-8 bytes. -/
def size (text : List Char) : Nat := (text.map Char.utf8Size).sum

structure Position where
  offset : Nat
  line : Nat
  column : Nat

namespace Position

/-- The beginning of a text. -/
def start : Position := ⟨0, 1, 1⟩

/-- Over one character. -/
def next (position : Position) (char : Char) : Position :=
  if char = '\n' then ⟨position.offset + char.utf8Size, position.line + 1, 1⟩
  else ⟨position.offset + char.utf8Size, position.line, position.column + 1⟩

/-- Over a text. -/
def past (position : Position) (text : List Char) : Position := text.foldl next position

end Position

/-- The line behind a text that begins in line 1. -/
def lineAfter (before : List Char) : Nat := 1 + before.count '\n'

/-- The column behind a text: one more than the characters behind its last line break. -/
def columnAfter (before : List Char) : Nat := 1 + (before.rtakeWhile (· ≠ '\n')).length

/-! ## Sizes -/

@[simp] theorem size_nil : size [] = 0 := rfl

@[simp] theorem size_cons (char : Char) (text : List Char) :
    size (char :: text) = char.utf8Size + size text := by
  simp [size]

@[simp] theorem size_append (text rest : List Char) : size (text ++ rest) = size text + size rest := by
  simp [size]

theorem size_pos {text : List Char} (hne : text ≠ []) : 0 < size text := by
  cases text with
  | nil => exact absurd rfl hne
  | cons char rest =>
    have hpos := char.utf8Size_pos
    rw [size_cons]
    omega

/-- Of two beginnings of one text, the shorter is a beginning of the longer. -/
theorem exists_append_of_size_le {before before' after after' : List Char}
    (h : before ++ after = before' ++ after') (hle : size before ≤ size before') :
    ∃ between, before' = before ++ between ∧ after = between ++ after' := by
  rcases append_eq_append_iff.mp h with ⟨between, hbefore, hafter⟩ | ⟨between, hbefore, hafter⟩
  · exact ⟨between, hbefore, hafter⟩
  · have hempty : between = [] := by
      by_contra hne
      have hpos := size_pos hne
      rw [hbefore, size_append] at hle
      omega
    subst hempty
    exact ⟨[], by simpa using hbefore.symm, by simpa using hafter.symm⟩

/-! ## Where a reader is -/

theorem lineAfter_concat (before : List Char) (char : Char) :
    lineAfter (before ++ [char]) = if char = '\n' then lineAfter before + 1 else lineAfter before := by
  rw [lineAfter, lineAfter, count_append]
  split_ifs with hbreak
  · subst hbreak
    rfl
  · simp [hbreak]

theorem columnAfter_concat (before : List Char) (char : Char) :
    columnAfter (before ++ [char]) = if char = '\n' then 1 else columnAfter before + 1 := by
  rw [columnAfter, columnAfter]
  split_ifs with hbreak
  · rw [rtakeWhile_concat_neg _ _ _ (by simp [hbreak])]
    rfl
  · rw [rtakeWhile_concat_pos _ _ _ (by simp [hbreak]), length_append]
    rfl

namespace Position

@[simp] theorem past_cons (pos : Position) (char : Char) (text : List Char) :
    pos.past (char :: text) = (pos.next char).past text := rfl

theorem past_append (pos : Position) (text rest : List Char) :
    pos.past (text ++ rest) = (pos.past text).past rest :=
  foldl_append

theorem past_concat (pos : Position) (text : List Char) (char : Char) :
    pos.past (text ++ [char]) = (pos.past text).next char :=
  past_append pos text [char]

theorem start_past (before : List Char) :
    start.past before = ⟨size before, lineAfter before, columnAfter before⟩ := by
  induction before using reverseRecOn with
  | nil => rfl
  | append_singleton before char ih =>
    rw [past_concat, ih, next, lineAfter_concat, columnAfter_concat, size_append, size_cons,
      size_nil]
    split_ifs <;> rfl

theorem past_offset (pos : Position) (text : List Char) :
    (pos.past text).offset = pos.offset + size text := by
  induction text generalizing pos with
  | nil => rfl
  | cons char rest ih =>
    rw [past_cons, ih, size_cons, next]
    split_ifs <;> simp [Nat.add_assoc]

end Position

end TextPositions
