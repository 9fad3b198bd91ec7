import Salicin.Foundation.BracketedArguments
import Salicin.Foundation.Bytes
import Salicin.Foundation.SelfDelimiting

/-!
# Messages on a stream

A message stands on a byte stream behind a header: lines that give its length, and an empty line.
The reader takes a message off the stream, or finds the stream at its end, or fails. A message
comes from a well-formed header with that many bytes behind it and from nothing else, so messages
that are written one after the other are read back, and a part of one is an error.
-/

namespace Salicin.Editor.Transport

open List

open Brackets (isWhiteSpace trim)
open TextBytes (decode encode decode_encode)

inductive TransportError
  | io
  | missingContentLength
  | duplicateContentLength
  | invalidContentLength
  | messageTooLarge (len : Nat)
  | unexpectedEof

def maxMessageBytes : Nat := 16 * 1024 * 1024

/-! ## Reading -/

/-- `read_line`: the bytes up to a line feed, or to the end, and what is left. -/
def readLine (stream : List UInt8) : List UInt8 × List UInt8 :=
  match stream.dropWhile (· ≠ 10) with
  | [] => (stream, [])
  | feed :: rest => (stream.takeWhile (· ≠ 10) ++ [feed], rest)

/-- `trim_end_matches` with the two characters of line ends. -/
def trimLineEnd (line : List Char) : List Char :=
  line.rdropWhile fun char => char = '\r' ∨ char = '\n'

/-- `split_once` at a colon. -/
def splitColon (line : List Char) : Option (List Char × List Char) :=
  match line.dropWhile (· ≠ ':') with
  | [] => none
  | _ :: value => some (line.takeWhile (· ≠ ':'), value)

/-- `eq_ignore_ascii_case` with the name of the header. -/
def isContentLength (name : List Char) : Bool :=
  name.map Char.toLower = "Content-Length".toList.map Char.toLower

/-- `parse::<usize>`. -/
def parseUsize (text : List Char) : Option Nat :=
  let digits := if text.head? = some '+' then text.tail else text
  let value := Nat.ofDigitChars 10 digits 0
  if digits ≠ [] ∧ digits.all Char.isDigit ∧ value < 2 ^ 64 then some value else none

theorem readLine_append (stream : List UInt8) :
    (readLine stream).1 ++ (readLine stream).2 = stream := by
  unfold readLine
  split
  next => simp
  next feed rest hrest =>
    rw [append_assoc, singleton_append, ← hrest, takeWhile_append_dropWhile]

variable {stream : List UInt8}

theorem length_readLine_lt (hne : stream ≠ []) : (readLine stream).2.length < stream.length := by
  have hlen := congrArg List.length (readLine_append stream)
  have hline : 0 < (readLine stream).1.length := by
    unfold readLine
    split
    next => exact length_pos_iff.mpr hne
    next => simp
  rw [length_append] at hlen
  omega

/-- The loop over the lines of a header. `none` is the end of the stream before any header. -/
def readHeader (contentLength : Option Nat) (sawHeader : Bool) (stream : List UInt8) :
    Except TransportError (Option (Option Nat × List UInt8)) :=
  if _ : stream = [] then
    if sawHeader then .error .unexpectedEof else .ok none
  else
    match decode (readLine stream).1 with
    | none => .error .io
    | some line =>
      if line = "\r\n" ∨ line = "\n" then .ok (some (contentLength, (readLine stream).2))
      else
        match splitColon (trimLineEnd line.toList) with
        | none => .error .invalidContentLength
        | some (name, value) =>
          if isContentLength name then
            if contentLength.isSome then .error .duplicateContentLength
            else
              match parseUsize (trim value) with
              | none => .error .invalidContentLength
              | some len => readHeader (some len) true (readLine stream).2
          else readHeader contentLength true (readLine stream).2
termination_by stream.length
decreasing_by all_goals exact length_readLine_lt ‹_›

/-- `read_message`, with what it leaves on the stream. -/
def readMessage (stream : List UInt8) : Except TransportError (Option (List UInt8 × List UInt8)) :=
  match readHeader none false stream with
  | .error error => .error error
  | .ok none => .ok none
  | .ok (some (none, _)) => .error .missingContentLength
  | .ok (some (some len, rest)) =>
    if maxMessageBytes < len then .error (.messageTooLarge len)
    else if rest.length < len then .error .unexpectedEof
    else .ok (some (rest.take len, rest.drop len))

/-! ## Writing -/

/-- What `write_message` writes for the bytes of a value. -/
def frame (body : List UInt8) : List UInt8 :=
  encode s!"Content-Length: {body.length}\r\n\r\n" ++ body

/-- `write_message`, with the bytes that a value is serialized to. -/
def writeMessage {Value : Type} (toVec : Value → List UInt8) (value : Value) : List UInt8 :=
  frame (toVec value)

/-! ## Lines -/

/-- A header line: text around its first colon, up to a line feed. -/
structure IsField (line : List UInt8) (name value : List Char) : Prop where
  text : decode line = some (String.ofList (name ++ ':' :: value))
  colon : ':' ∉ name
  feed : ∃ front, line = front ++ [10] ∧ 10 ∉ front

/-- Decimal digits, perhaps behind a plus sign. -/
structure IsNumeral (text digits : List Char) : Prop where
  sign : text = digits ∨ text = '+' :: digits
  nonempty : digits ≠ []
  digits : ∀ char ∈ digits, char.isDigit = true

/-- The value is a number with nothing but white space around it. -/
def Announces (value : List Char) (len : Nat) : Prop :=
  ∃ before text after digits, value = before ++ text ++ after ∧
    (∀ char ∈ before, isWhiteSpace char = true) ∧ (∀ char ∈ after, isWhiteSpace char = true) ∧
    IsNumeral text digits ∧ Nat.ofDigitChars 10 digits 0 = len

theorem dropWhile_separator {α : Type} [DecidableEq α] {sep : α} {front : List α}
    (hfront : sep ∉ front) (rest : List α) :
    (front ++ sep :: rest).dropWhile (· ≠ sep) = sep :: rest ∧
      (front ++ sep :: rest).takeWhile (· ≠ sep) = front := by
  have hall : ∀ item ∈ front, decide (item ≠ sep) = true := by
    intro item hitem
    rw [decide_eq_true_eq]
    rintro rfl
    exact hfront hitem
  rw [dropWhile_append_of_pos hall, takeWhile_append_of_pos hall,
    dropWhile_cons_of_neg (by simp), takeWhile_cons_of_neg (by simp), append_nil]
  exact ⟨rfl, rfl⟩

theorem eq_of_dropWhile_separator {α : Type} [DecidableEq α] {separator item : α}
    {list rest : List α} (hdrop : list.dropWhile (· ≠ separator) = item :: rest) :
    item = separator ∧ separator ∉ list.takeWhile (· ≠ separator) ∧
      list = list.takeWhile (· ≠ separator) ++ separator :: rest := by
  have hitem : item = separator := by
    have hhead := List.head?_dropWhile_not (fun item => decide (item ≠ separator)) list
    rw [hdrop] at hhead
    simpa using hhead
  refine ⟨hitem, ?_, ?_⟩
  · intro hmem
    simpa using mem_takeWhile_imp hmem
  · rw [← hitem, ← hdrop, hitem, takeWhile_append_dropWhile]

theorem readLine_feed {front : List UInt8} (hfront : 10 ∉ front) (rest : List UInt8) :
    readLine (front ++ 10 :: rest) = (front ++ [10], rest) := by
  obtain ⟨hdrop, htake⟩ := dropWhile_separator hfront rest
  rw [readLine, hdrop, htake]

theorem readLine_complete (hrest : (readLine stream).2 ≠ []) :
    ∃ front, (readLine stream).1 = front ++ [10] ∧ 10 ∉ front := by
  unfold readLine at hrest ⊢
  split at hrest
  next => exact absurd rfl hrest
  next feed rest hdrop =>
    obtain ⟨rfl, hfront, -⟩ := eq_of_dropWhile_separator hdrop
    exact ⟨stream.takeWhile (· ≠ 10), rfl, hfront⟩

theorem rdropWhile_append_of_last {p : Char → Bool} {front : List Char}
    (hlast : ∀ char ∈ front.getLast?, p char = false) (back : List Char) :
    (front ++ back).rdropWhile p = front ++ back.rdropWhile p := by
  induction back using reverseRecOn with
  | nil =>
    rw [append_nil, rdropWhile_nil, append_nil, rdropWhile_eq_self_iff]
    intro hne
    simpa using hlast _ (getLast?_eq_some_getLast hne)
  | append_singleton back char ih =>
    rw [← append_assoc, rdropWhile_concat, rdropWhile_concat]
    split
    · exact ih
    · rw [append_assoc]

variable {name : List Char}

theorem splitColon_trimLineEnd (hname : ':' ∉ name) (value : List Char) :
    splitColon (trimLineEnd (name ++ ':' :: value)) = some (name, trimLineEnd value) := by
  have htrim : trimLineEnd (name ++ ':' :: value) = name ++ ':' :: trimLineEnd value := by
    have hlast : ∀ char ∈ (name ++ [':']).getLast?,
        decide (char = '\r' ∨ char = '\n') = false := by
      simp
    have hsplit := rdropWhile_append_of_last hlast value
    simpa [trimLineEnd] using hsplit
  obtain ⟨hdrop, htake⟩ := dropWhile_separator hname (trimLineEnd value)
  rw [htrim, splitColon, hdrop, htake]

variable {value : List Char}

theorem splitColon_eq_some {line : List Char} (h : splitColon line = some (name, value)) :
    line = name ++ ':' :: value ∧ ':' ∉ name := by
  unfold splitColon at h
  split at h
  next => cases h
  next char rest hdrop =>
    obtain ⟨rfl, hname, hline⟩ := eq_of_dropWhile_separator hdrop
    cases h
    exact ⟨hline, hname⟩

theorem trimLineEnd_append (line : List Char) :
    ∃ ending, line = trimLineEnd line ++ ending ∧
      ∀ char ∈ ending, isWhiteSpace char = true := by
  refine ⟨line.rtakeWhile fun char => char = '\r' ∨ char = '\n', ?_, ?_⟩
  · rw [trimLineEnd, rdropWhile_append_rtakeWhile]
  · intro char hchar
    have hend := mem_rtakeWhile_imp hchar
    rw [decide_eq_true_eq] at hend
    rcases hend with rfl | rfl <;> rfl

/-! ## Numbers -/

variable {text : List Char} {digits : List Char}

theorem IsNumeral.not_space (h : IsNumeral text digits) :
    ∀ char ∈ text, isWhiteSpace char = false := by
  intro char hchar
  have hdigit : ∀ char : Char, char.isDigit = true → isWhiteSpace char = false := by
    intro char hdigit
    simp only [Char.isDigit, Bool.and_eq_true, decide_eq_true_eq, ge_iff_le,
      UInt32.le_iff_toNat_le] at hdigit
    have hlow : 48 ≤ char.toNat := hdigit.1
    have hhigh : char.toNat ≤ 57 := hdigit.2
    simp only [isWhiteSpace, Bool.or_eq_false_iff, Bool.and_eq_false_iff, decide_eq_false_iff_not,
      beq_eq_false_iff_ne]
    omega
  rcases h.sign with rfl | rfl
  · exact hdigit char (h.digits char hchar)
  · rcases mem_cons.mp hchar with rfl | hchar
    · rfl
    · exact hdigit char (h.digits char hchar)

theorem IsNumeral.unsigned (h : IsNumeral text digits) :
    (if text.head? = some '+' then text.tail else text) = digits := by
  rcases h.sign with rfl | rfl
  · rw [if_neg]
    intro hhead
    have hdigit := h.digits '+' (mem_of_head? hhead)
    simp [Char.isDigit] at hdigit
  · rfl

theorem IsNumeral.unique {other : List Char} (h : IsNumeral text digits)
    (hother : IsNumeral text other) : digits = other :=
  h.unsigned.symm.trans hother.unsigned

theorem IsNumeral.ne_nil (h : IsNumeral text digits) : text ≠ [] := by
  rcases h.sign with rfl | rfl
  · exact h.nonempty
  · exact cons_ne_nil _ _

variable {len : Nat}

theorem parseUsize_eq_some :
    parseUsize text = some len ↔
      (∃ digits, IsNumeral text digits ∧ Nat.ofDigitChars 10 digits 0 = len) ∧
        len < 2 ^ 64 := by
  unfold parseUsize
  constructor
  · generalize hdigits : (if text.head? = some '+' then text.tail else text) = digits
    intro hparse
    dsimp only at hparse
    split at hparse
    next hnumeral =>
      obtain ⟨hne, hall, hlt⟩ := hnumeral
      have hlen := Option.some.inj hparse
      refine ⟨⟨digits, ⟨?_, hne, all_eq_true.mp hall⟩, hlen⟩, hlen ▸ hlt⟩
      split at hdigits
      next hhead =>
        right
        rw [← hdigits]
        exact eq_cons_of_mem_head? hhead
      next => exact .inl hdigits
    next => cases hparse
  · rintro ⟨⟨digits, hnumeral, rfl⟩, hlt⟩
    simp only [hnumeral.unsigned]
    exact if_pos ⟨hnumeral.nonempty, all_eq_true.mpr hnumeral.digits, hlt⟩

theorem trim_surrounded {before after : List Char} (hne : text ≠ [])
    (hbefore : ∀ char ∈ before, isWhiteSpace char = true)
    (htext : ∀ char ∈ text, isWhiteSpace char = false)
    (hafter : ∀ char ∈ after, isWhiteSpace char = true) :
    trim (before ++ text ++ after) = text := by
  have hdrop : (text ++ after).dropWhile isWhiteSpace = text ++ after := by
    cases text with
    | nil => exact absurd rfl hne
    | cons char rest =>
      exact dropWhile_cons_of_neg (by simp [htext char mem_cons_self])
  have hlast : ∀ char ∈ text.getLast?, isWhiteSpace char = false :=
    fun char hchar => htext char (mem_of_getLast? hchar)
  rw [trim, append_assoc, dropWhile_append_of_pos hbefore, hdrop,
    rdropWhile_append_of_last hlast, rdropWhile_eq_nil_iff.mpr hafter, append_nil]

/-- The number is found where the line end and the white space are taken off. -/
theorem announces_iff :
    Announces value len ↔ ∃ digits, IsNumeral (trim (trimLineEnd value)) digits ∧
      Nat.ofDigitChars 10 digits 0 = len := by
  obtain ⟨ending, hending, hspace⟩ := trimLineEnd_append value
  constructor
  · rintro ⟨before, text, after, digits, hval, hbefore, hafter, hnumeral, hlen⟩
    refine ⟨digits, ?_, hlen⟩
    -- The line end is part of the white space behind the number.
    have hlast : ∀ char ∈ (before ++ text).getLast?,
        decide (char = '\r' ∨ char = '\n') = false := by
      intro char hchar
      rw [getLast?_append_of_ne_nil _ hnumeral.ne_nil] at hchar
      have hnot := hnumeral.not_space char (mem_of_getLast? hchar)
      rw [decide_eq_false_iff_not]
      rintro (rfl | rfl) <;> exact absurd hnot (by decide)
    have htrim : trimLineEnd value = before ++ text ++ trimLineEnd after := by
      rw [hval, trimLineEnd, rdropWhile_append_of_last hlast]
      rfl
    have hafter' : ∀ char ∈ trimLineEnd after, isWhiteSpace char = true := by
      intro char hchar
      exact hafter char (( rdropWhile_prefix _ _).subset hchar)
    rw [htrim, trim_surrounded hnumeral.ne_nil hbefore hnumeral.not_space hafter']
    exact hnumeral
  · rintro ⟨digits, hnumeral, hlen⟩
    obtain ⟨before, after, htrim, hbefore, hafter⟩ := Brackets.trim_infix (trimLineEnd value)
    refine ⟨before, _, after ++ ending, digits, ?_, hbefore, ?_, hnumeral, hlen⟩
    · rw [← append_assoc, ← htrim]
      exact hending
    · intro char hchar
      rcases mem_append.mp hchar with hchar | hchar
      · exact hafter char hchar
      · exact hspace char hchar

theorem parseUsize_trim :
    parseUsize (trim (trimLineEnd value)) = some len ↔
      Announces value len ∧ len < 2 ^ 64 := by
  rw [parseUsize_eq_some, announces_iff]

theorem Announces.unique {other : Nat} (h : Announces value len) (hother : Announces value other) :
    len = other := by
  obtain ⟨digits, hnumeral, rfl⟩ := announces_iff.mp h
  obtain ⟨digits', hnumeral', rfl⟩ := announces_iff.mp hother
  rw [hnumeral.unique hnumeral']

/-! ## Headers -/

/-- The lines of a header, with the content length before them and behind them. No more than one
line gives it. -/
inductive Fields : Option Nat → List (List UInt8) → Option Nat → Prop
  | nil (contentLength : Option Nat) : Fields contentLength [] contentLength
  | other {line : List UInt8} {name value : List Char} {contentLength res : Option Nat}
      {lines : List (List UInt8)} (hfield : IsField line name value)
      (hname : isContentLength name = false) (hlines : Fields contentLength lines res) :
      Fields contentLength (line :: lines) res
  | contentLength {line : List UInt8} {name value : List Char} {len : Nat}
      {res : Option Nat} {lines : List (List UInt8)} (hfield : IsField line name value)
      (hname : isContentLength name = true) (hval : Announces value len)
      (hlines : Fields (some len) lines res) : Fields none (line :: lines) res

/-- The empty line behind a header. -/
def blankLines : List (List UInt8) := [[13, 10], [10]]

/-- A header that gives the length of a message. -/
def IsHeader (header : List UInt8) (len : Nat) : Prop :=
  ∃ lines, Fields none lines (some len) ∧ ∃ blank ∈ blankLines, header = lines.flatten ++ blank

theorem Fields.some_eq {lines : List (List UInt8)} {res : Option Nat}
    (h : Fields (some len) lines res) : res = some len := by
  generalize hstart : some len = start at h
  induction h with
  | nil => rfl
  | other _ _ _ ih => exact ih hstart
  | contentLength => cases hstart

theorem encode_injective : Function.Injective encode := by
  intro text other h
  have hdecode := congrArg decode h
  rw [decode_encode, decode_encode] at hdecode
  exact Option.some.inj hdecode

theorem encode_crlf : encode "\r\n" = [13, 10] := by decide

theorem encode_lf : encode "\n" = [10] := by decide

theorem decode_blank {line : List UInt8} {text : String} (hdecode : decode line = some text) :
    (text = "\r\n" ∨ text = "\n") ↔ line ∈ blankLines := by
  rw [blankLines, mem_cons, mem_singleton, ← encode_crlf, ← encode_lf,
    ← TextBytes.encode_of_decode hdecode, encode_injective.eq_iff, encode_injective.eq_iff]

theorem IsField.not_blank {line : List UInt8} (hfield : IsField line name value) :
    line ∉ blankLines := by
  rw [← decode_blank hfield.text]
  have hcolon : ':' ∈ (String.ofList (name ++ ':' :: value)).toList := by simp
  rintro (heq | heq) <;> exact absurd (heq ▸ hcolon) (by decide)

theorem readHeader_field {line : List UInt8} (hfield : IsField line name value)
    (contentLength : Option Nat) (sawHeader : Bool) (rest : List UInt8) :
    readHeader contentLength sawHeader (line ++ rest) = if isContentLength name then
        if contentLength.isSome then .error .duplicateContentLength
        else
          match parseUsize (trim (trimLineEnd value)) with
          | none => .error .invalidContentLength
          | some len => readHeader (some len) true rest
      else readHeader contentLength true rest := by
  obtain ⟨front, rfl, hfront⟩ := hfield.feed
  have hline : readLine (front ++ [10] ++ rest) = (front ++ [10], rest) := by
    rw [append_assoc]
    exact readLine_feed hfront rest
  have hblank := (decode_blank hfield.text).not.mpr hfield.not_blank
  have hne : ¬ front ++ [10] ++ rest = [] := by simp
  rw [readHeader, dif_neg hne]
  simp only [hline, hfield.text, if_neg hblank, String.toList_ofList,
    splitColon_trimLineEnd hfield.colon]

theorem readHeader_blank {blank : List UInt8} (hblank : blank ∈ blankLines)
    (contentLength : Option Nat) (sawHeader : Bool) (rest : List UInt8) :
    readHeader contentLength sawHeader (blank ++ rest) = .ok (some (contentLength, rest)) := by
  obtain ⟨front, rfl, hfront⟩ : ∃ front : List UInt8, blank = front ++ [10] ∧ 10 ∉ front := by
    rcases mem_cons.mp hblank with rfl | hlast
    · exact ⟨[13], rfl, by decide⟩
    · exact ⟨[], mem_singleton.mp hlast, by simp⟩
  obtain ⟨text, htext⟩ : ∃ text, decode (front ++ [10]) = some text := by
    rcases mem_cons.mp hblank with heq | hlast
    · exact ⟨"\r\n", by rw [heq, ← encode_crlf, decode_encode]⟩
    · exact ⟨"\n", by rw [mem_singleton.mp hlast, ← encode_lf, decode_encode]⟩
  have hline : readLine (front ++ [10] ++ rest) = (front ++ [10], rest) := by
    rw [append_assoc]
    exact readLine_feed hfront rest
  have hne : ¬ front ++ [10] ++ rest = [] := by simp
  rw [readHeader, dif_neg hne]
  simp only [hline, htext, if_pos ((decode_blank htext).mpr hblank)]

variable {contentLength : Option Nat}

theorem readHeader_of_fields {res : Option Nat} {lines : List (List UInt8)}
    (hfields : Fields contentLength lines res) (hres : ∀ len ∈ res, len < 2 ^ 64)
    {blank : List UInt8} (hblank : blank ∈ blankLines) (sawHeader : Bool) (rest : List UInt8) :
    readHeader contentLength sawHeader (lines.flatten ++ blank ++ rest) =
      .ok (some (res, rest)) := by
  induction hfields generalizing sawHeader with
  | nil contentLength => exact readHeader_blank hblank contentLength sawHeader rest
  | other hfield hname _ ih =>
    rw [flatten_cons, append_assoc, append_assoc, readHeader_field hfield, hname]
    simpa using ih hres true
  | contentLength hfield hname hval hlines ih =>
    obtain rfl := hlines.some_eq
    have hparse := parseUsize_trim.mpr ⟨hval, hres _ rfl⟩
    rw [flatten_cons, append_assoc, append_assoc, readHeader_field hfield, hname, hparse]
    simpa using ih hres true

/-- A line that the loop goes on behind is a field line: the loop fails where nothing is left. -/
theorem isField_of_split {line : String} (hline : decode (readLine stream).1 = some line)
    (hsplit : splitColon (trimLineEnd line.toList) = some (name, value))
    (hrest : (readLine stream).2 ≠ []) :
    ∃ whole, IsField (readLine stream).1 name whole ∧ value = trimLineEnd whole := by
  obtain ⟨ending, hending, -⟩ := trimLineEnd_append line.toList
  obtain ⟨htrim, hname⟩ := splitColon_eq_some hsplit
  have hwhole : line.toList = name ++ ':' :: (value ++ ending) := by
    rw [hending, htrim, append_assoc, cons_append]
  refine ⟨value ++ ending, ⟨?_, hname, readLine_complete hrest⟩, ?_⟩
  · rw [hline, ← hwhole, String.ofList_toList]
  · rw [hwhole, splitColon_trimLineEnd hname] at hsplit
    exact (Prod.mk.inj (Option.some.inj hsplit)).2.symm

theorem rest_ne_nil_of_readHeader {res : Option Nat × List UInt8}
    (hread : readHeader contentLength true stream = .ok (some res)) : stream ≠ [] := by
  rintro rfl
  rw [readHeader] at hread
  simp at hread

/-- By the recursion of the loop: a line before the empty line is a field line. -/
theorem fields_of_readHeader {res : Option Nat} {sawHeader : Bool} {rest : List UInt8}
    (hread : readHeader contentLength sawHeader stream = .ok (some (res, rest))) :
    ∃ lines, Fields contentLength lines res ∧ ∃ blank ∈ blankLines,
      stream = lines.flatten ++ blank ++ rest := by
  fun_induction readHeader contentLength sawHeader stream with
  | case1 | case2 | case3 | case5 | case6 | case7 => cases hread
  | case4 contentLength sawHeader stream hne line hline hblank =>
    cases hread
    refine ⟨[], .nil _, (readLine stream).1, (decode_blank hline).mp hblank, ?_⟩
    exact (readLine_append stream).symm
  | case8 contentLength sawHeader stream hne line hline _ name value hsplit hname hfst len
      hparse ih =>
      obtain ⟨whole, hfield, rfl⟩ := isField_of_split hline hsplit (rest_ne_nil_of_readHeader hread)
      obtain ⟨lines, hlines, blank, hblank, hstream⟩ := ih hread
      obtain rfl : contentLength = none := by simpa using hfst
      refine ⟨_ :: lines, .contentLength hfield hname (parseUsize_trim.mp hparse).1 hlines,
        blank, hblank, ?_⟩
      rw [flatten_cons, append_assoc, append_assoc,
        ← append_assoc lines.flatten, ← hstream, readLine_append]
  | case9 contentLength sawHeader stream hne line hline _ name value hsplit hname ih =>
    obtain ⟨whole, hfield, rfl⟩ := isField_of_split hline hsplit (rest_ne_nil_of_readHeader hread)
    obtain ⟨lines, hlines, blank, hblank, hstream⟩ := ih hread
    refine ⟨_ :: lines, .other hfield (by simpa using hname) hlines, blank, hblank, ?_⟩
    rw [flatten_cons, append_assoc, append_assoc,
      ← append_assoc lines.flatten, ← hstream, readLine_append]

theorem readHeader_eq_none {sawHeader : Bool}
    (hread : readHeader contentLength sawHeader stream = .ok none) :
    stream = [] ∧ sawHeader = false := by
  fun_induction readHeader contentLength sawHeader stream with
  | case1 | case3 | case4 | case5 | case6 | case7 => cases hread
  | case2 _ _ hsaw => exact ⟨rfl, by simpa using hsaw⟩
  | case8 _ _ _ _ _ _ _ _ _ _ _ _ _ _ ih => cases (ih hread).2
  | case9 _ _ _ _ _ _ _ _ _ _ _ ih => cases (ih hread).2

/-! ## Messages -/

variable {body : List UInt8}

/-- A message is read where a header stands that gives its length, and nowhere else. -/
theorem readMessage_eq_message {rest : List UInt8} :
    readMessage stream = .ok (some (body, rest)) ↔
      ∃ header, IsHeader header body.length ∧ body.length ≤ maxMessageBytes ∧
        stream = header ++ body ++ rest := by
  constructor
  · intro hread
    unfold readMessage at hread
    split at hread
    next => cases hread
    next => cases hread
    next => cases hread
    next len after hheader =>
      split at hread
      next => cases hread
      next hsmall =>
        split at hread
        next => cases hread
        next hlong =>
          cases hread
          obtain ⟨lines, hlines, blank, hblank, rfl⟩ := fields_of_readHeader hheader
          have hlen : (after.take len).length = len := by
            rw [length_take]
            omega
          refine ⟨lines.flatten ++ blank, ⟨lines, ?_, blank, hblank, rfl⟩, by omega, ?_⟩
          · rwa [hlen]
          · rw [append_assoc _ _ (after.drop len), take_append_drop]
  · rintro ⟨header, ⟨lines, hlines, blank, hblank, rfl⟩, hsmall, rfl⟩
    have hlen : ∀ len ∈ some body.length, len < 2 ^ 64 := by
      intro len hlen
      have := Option.some.inj hlen
      simp only [maxMessageBytes] at hsmall
      omega
    have hheader := readHeader_of_fields hlines hlen hblank false (body ++ rest)
    unfold readMessage
    rw [append_assoc _ body, hheader]
    simp only [if_neg (Nat.not_lt.mpr hsmall)]
    simp

theorem readMessage_eq_end : readMessage stream = .ok none ↔ stream = [] := by
  constructor
  · intro hread
    unfold readMessage at hread
    split at hread
    next => cases hread
    next hheader => exact (readHeader_eq_none hheader).1
    next => cases hread
    next =>
      split at hread
      next => cases hread
      next => split at hread <;> cases hread
  · rintro rfl
    rw [readMessage, readHeader]
    rfl

theorem IsHeader.ne_nil {header : List UInt8} (h : IsHeader header len) : header ≠ [] := by
  obtain ⟨lines, -, blank, hblank, rfl⟩ := h
  rcases mem_cons.mp hblank with rfl | hlast
  · simp
  · simp [mem_singleton.mp hlast]

theorem length_lt_of_readMessage {rest : List UInt8}
    (hread : readMessage stream = .ok (some (body, rest))) : rest.length < stream.length := by
  obtain ⟨header, hheader, -, rfl⟩ := readMessage_eq_message.mp hread
  have hpos := length_pos_iff.mpr hheader.ne_nil
  simp only [length_append]
  omega

/-- The messages on a stream, and the error that ends them. -/
def readAll (stream : List UInt8) : List (List UInt8) × Option TransportError :=
  match _ : readMessage stream with
  | .error error => ([], some error)
  | .ok none => ([], none)
  | .ok (some (body, rest)) => (body :: (readAll rest).1, (readAll rest).2)
termination_by stream.length
decreasing_by all_goals exact length_lt_of_readMessage ‹_›

theorem readMessage_part {header part : List UInt8} (hheader : IsHeader header body.length)
    (hsmall : body.length ≤ maxMessageBytes) (hpart : part <+: header ++ body) (hne : part ≠ [])
    (hproper : part ≠ header ++ body) : ∃ error, readMessage part = .error error := by
  obtain ⟨missing, hmiss⟩ := hpart
  have hwhole : readMessage (header ++ body) = .ok (some (body, [])) :=
    readMessage_eq_message.mpr ⟨header, hheader, hsmall, by rw [append_nil]⟩
  rcases hread : readMessage part with error | _ | ⟨body', rest⟩
  · exact ⟨error, rfl⟩
  · exact absurd (readMessage_eq_end.mp hread) hne
  · -- What is read from the part is read from the whole, which leaves nothing.
    obtain ⟨header', hheader', hsmall', rfl⟩ := readMessage_eq_message.mp hread
    have hagain : readMessage (header ++ body) = .ok (some (body', rest ++ missing)) := by
      refine readMessage_eq_message.mpr ⟨header', hheader', hsmall', ?_⟩
      rw [← hmiss, append_assoc _ rest]
    rw [hwhole] at hagain
    have hrest := (Prod.mk.inj (Option.some.inj (Except.ok.inj hagain))).2
    have hnil : missing = [] := (append_eq_nil_iff.mp hrest.symm).2
    rw [hnil, append_nil] at hmiss
    exact absurd hmiss hproper

/-! ## Frames -/

theorem encode_ofList (text : List Char) :
    encode (String.ofList text) = text.flatMap String.utf8EncodeChar := by
  rw [encode, String.toByteArray_ofList, utf8Encode, data_toByteArray]

/-- What stands behind the colon of the line that gives a length. -/
def lengthValue (len : Nat) : List Char := ' ' :: (Nat.toDigits 10 len ++ ['\r', '\n'])

/-- The line that gives a length. -/
def lengthLine (len : Nat) : List UInt8 :=
  encode (String.ofList ("Content-Length".toList ++ ':' :: lengthValue len))

theorem frame_eq (body : List UInt8) : frame body = lengthLine body.length ++ [13, 10] ++ body := by
  have htext : s!"Content-Length: {body.length}\r\n\r\n" =
      String.ofList ("Content-Length".toList ++ ':' :: lengthValue body.length ++
        ['\r', '\n']) := by
    apply String.toList_inj.mp
    simp [lengthValue, ToString.toString]
  have hblank : ['\r', '\n'].flatMap String.utf8EncodeChar = [13, 10] := by decide
  rw [frame, htext, encode_ofList, flatMap_append, hblank, lengthLine, encode_ofList]

theorem feed_not_mem_digit {char : Char} (hdigit : char.isDigit = true) :
    10 ∉ String.utf8EncodeChar char := by
  simp only [Char.isDigit, Bool.and_eq_true, decide_eq_true_eq, ge_iff_le,
    UInt32.le_iff_toNat_le] at hdigit
  have hlow : 48 ≤ char.val.toNat := hdigit.1
  have hhigh : char.val.toNat ≤ 57 := hdigit.2
  rw [String.utf8EncodeChar, if_pos (by omega), mem_singleton]
  intro heq
  have hbyte := congrArg UInt8.toNat heq
  simp only [UInt8.toNat_ofNat, UInt8.toNat_ofNat'] at hbyte
  omega

theorem isField_lengthLine (len : Nat) :
    IsField (lengthLine len) "Content-Length".toList (lengthValue len) where
  text := decode_encode _
  colon := by decide
  feed := by
    refine ⟨("Content-Length: ".toList ++ Nat.toDigits 10 len ++ ['\r']).flatMap
      String.utf8EncodeChar, ?_, ?_⟩
    · have hfeed : ['\n'].flatMap String.utf8EncodeChar = [10] := by decide
      rw [lengthLine, encode_ofList, ← hfeed, ← flatMap_append]
      simp [lengthValue]
    · intro hmem
      obtain ⟨char, hchar, hbyte⟩ := mem_flatMap.mp hmem
      rcases mem_append.mp hchar with hchar | hchar
      · rcases mem_append.mp hchar with hchar | hchar
        · have hname : ("Content-Length: ".toList.all fun char =>
              !(String.utf8EncodeChar char).contains 10) = true := rfl
          have hnot := all_eq_true.mp hname char hchar
          simp [hbyte] at hnot
        · exact feed_not_mem_digit (SelfDelimiting.isDigit_of_mem_toDigits hchar) hbyte
      · obtain rfl := mem_singleton.mp hchar
        exact absurd hbyte (by decide)

theorem announces_lengthValue (len : Nat) : Announces (lengthValue len) len := by
  refine ⟨[' '], Nat.toDigits 10 len, ['\r', '\n'], Nat.toDigits 10 len, rfl, ?_, ?_,
    ⟨.inl rfl, Nat.toDigits_ne_nil, ?_⟩, Nat.ofDigitChars_ten_toDigits⟩
  · exact all_eq_true.mp (rfl : [' '].all isWhiteSpace = true)
  · exact all_eq_true.mp (rfl : ['\r', '\n'].all isWhiteSpace = true)
  · exact fun char hchar => SelfDelimiting.isDigit_of_mem_toDigits hchar

theorem isHeader_lengthLine (len : Nat) : IsHeader (lengthLine len ++ [13, 10]) len := by
  refine ⟨[lengthLine len], ?_, [13, 10], mem_cons_self, by simp⟩
  exact .contentLength (isField_lengthLine len) (by decide) (announces_lengthValue len)
    (.nil _)

theorem readMessage_frame (hsmall : body.length ≤ maxMessageBytes) (tail : List UInt8) :
    readMessage (frame body ++ tail) = .ok (some (body, tail)) :=
  readMessage_eq_message.mpr ⟨_, isHeader_lengthLine body.length, hsmall, by rw [frame_eq]⟩

theorem readMessage_large (hlarge : maxMessageBytes < body.length) (tail : List UInt8) :
    ∃ error, readMessage (frame body ++ tail) = .error error := by
  have hfield := readHeader_field (isField_lengthLine body.length) none false
    ([13, 10] ++ (body ++ tail))
  have hname : isContentLength "Content-Length".toList = true := by decide
  have hblank := readHeader_blank (mem_cons_self : [13, 10] ∈ blankLines)
  simp only [hname, if_true, Option.isSome_none, Bool.false_eq_true, if_false, hblank] at hfield
  rw [frame_eq, append_assoc, append_assoc, readMessage, hfield]
  cases hparse : parseUsize (trim (trimLineEnd (lengthValue body.length))) with
  | none => exact ⟨_, rfl⟩
  | some len =>
    have hannounced := (parseUsize_trim.mp hparse).1
    obtain rfl := hannounced.unique (announces_lengthValue body.length)
    exact ⟨.messageTooLarge body.length, if_pos hlarge⟩

/-! ## Streams -/

theorem readAll_eq (stream : List UInt8) : readAll stream =
    match readMessage stream with
    | .error error => ([], some error)
    | .ok none => ([], none)
    | .ok (some (body, rest)) => (body :: (readAll rest).1, (readAll rest).2) := by
  rw [readAll]
  split
  next heq => rw [heq]
  next heq => rw [heq]
  next heq => rw [heq]

theorem readAll_nil : readAll [] = ([], none) := by
  rw [readAll_eq, readMessage_eq_end.mpr rfl]

theorem readAll_error {error : TransportError} (hread : readMessage stream = .error error) :
    readAll stream = ([], some error) := by
  rw [readAll_eq, hread]

theorem readAll_frames {bodies : List (List UInt8)}
    (hsmall : ∀ body ∈ bodies, body.length ≤ maxMessageBytes) (tail : List UInt8) :
    readAll (bodies.flatMap frame ++ tail) = (bodies ++ (readAll tail).1, (readAll tail).2) := by
  induction bodies with
  | nil => rfl
  | cons body rest ih =>
    rw [flatMap_cons, append_assoc, readAll_eq, readMessage_frame (hsmall body mem_cons_self)]
    simp only [ih fun other hother => hsmall other (mem_cons_of_mem _ hother), cons_append]

/-- Frames are read back in order up to the end of the stream. A stream that ends inside a message,
or goes on with a frame that is too large, is read up to there and fails. Nothing is a message but
what stands behind a header with its length, and no stream is at its end but the empty one. -/
theorem readAll_framing :
    (∀ (Value : Type) (toVec : Value → List UInt8) (values : List Value),
      (∀ value ∈ values, (toVec value).length ≤ maxMessageBytes) →
        readAll (values.flatMap (writeMessage toVec)) = (values.map toVec, none)) ∧
    (∀ bodies header body part, (∀ body ∈ bodies, body.length ≤ maxMessageBytes) →
      IsHeader header body.length → body.length ≤ maxMessageBytes → part <+: header ++ body →
      part ≠ [] → part ≠ header ++ body →
        ∃ error, readAll (bodies.flatMap frame ++ part) = (bodies, some error)) ∧
    (∀ bodies body tail, (∀ body ∈ bodies, body.length ≤ maxMessageBytes) →
      maxMessageBytes < body.length →
        ∃ error, readAll (bodies.flatMap frame ++ (frame body ++ tail)) = (bodies, some error)) ∧
    (∀ stream, readMessage stream = .ok none ↔ stream = []) ∧
    ∀ stream body rest, readMessage stream = .ok (some (body, rest)) ↔
      ∃ header, IsHeader header body.length ∧ body.length ≤ maxMessageBytes ∧
        stream = header ++ body ++ rest := by
  refine ⟨?_, ?_, ?_, fun _ => readMessage_eq_end, fun _ _ _ => readMessage_eq_message⟩
  · intro Value toVec values hsmall
    have hread := readAll_frames (forall_mem_map.mpr hsmall) []
    rwa [readAll_nil, append_nil, append_nil, flatMap_map] at hread
  · intro bodies header body part hbodies hheader hsmall hpart hne hproper
    obtain ⟨error, herror⟩ := readMessage_part hheader hsmall hpart hne hproper
    refine ⟨error, ?_⟩
    rw [readAll_frames hbodies, readAll_error herror, append_nil]
  · intro bodies body tail hbodies hlarge
    obtain ⟨error, herror⟩ := readMessage_large hlarge tail
    refine ⟨error, ?_⟩
    rw [readAll_frames hbodies, readAll_error herror, append_nil]

end Salicin.Editor.Transport
