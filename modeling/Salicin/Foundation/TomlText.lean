import Mathlib.Data.String.Basic
import Mathlib.Tactic.NormNum
import Salicin.Foundation.SelfDelimiting

/-!
# The text of a TOML document

The part of TOML that has comments, integers, basic strings and arrays of tables, one to a line.
A line may be written in several ways, since a basic string may escape a character or not. A text
says one list of lines only.
-/

namespace TomlText

open List SelfDelimiting

/-! ## Basic strings -/

/-- The characters that a basic string may not have as they are, apart from its own two. -/
def IsControl (character : Char) : Prop :=
  (character.toNat < 32 ∧ character ≠ '\t') ∨ character.toNat = 127

/-- What a backslash and the letter behind it stand for. -/
def escapeOf : Char → Option Char
  | 'b' => some '\x08'
  | 't' => some '\t'
  | 'n' => some '\n'
  | 'f' => some '\x0c'
  | 'r' => some '\r'
  | '"' => some '"'
  | '\\' => some '\\'
  | _ => none

/-- The value of a hexadecimal digit. -/
def hexValue (digit : Char) : Option Nat :=
  if '0' ≤ digit ∧ digit ≤ '9' then some (digit.toNat - 48)
  else if 'A' ≤ digit ∧ digit ≤ 'F' then some (digit.toNat - 55)
  else if 'a' ≤ digit ∧ digit ≤ 'f' then some (digit.toNat - 87)
  else none

/-- The ways to write a character in a basic string. -/
inductive Piece : Char → List Char → Prop
  | plain (character : Char) (hquote : character ≠ '"') (hbackslash : character ≠ '\\')
      (hcontrol : ¬ IsControl character) : Piece character [character]
  | escape (letter character : Char) (hescape : escapeOf letter = some character) :
      Piece character ['\\', letter]
  | unicode (character first second third fourth : Char) {a b c d : Nat}
      (hfst : hexValue first = some a) (hsnd : hexValue second = some b)
      (hthird : hexValue third = some c) (hfourth : hexValue fourth = some d)
      (hcode : character.toNat = 4096 * a + 256 * b + 16 * c + d) :
      Piece character ['\\', 'u', first, second, third, fourth]

/-- The ways to write some characters between the quotes of a basic string. -/
inductive Body : List Char → List Char → Prop
  | nil : Body [] []
  | cons {character : Char} {chars piece body : List Char} (hpiece : Piece character piece)
      (hbody : Body chars body) : Body (character :: chars) (piece ++ body)

variable {rest : List Char}

/-- No way to write a character begins another way, or a way to write another character. -/
theorem Piece.unique {first second : Char} {piece other rest' : List Char}
    (hpiece : Piece first piece) (hother : Piece second other) (h : piece ++ rest = other ++ rest') :
    first = second ∧ rest = rest' := by
  cases hpiece with
  | plain _ hquote hbackslash _ =>
    cases hother with
    | plain => simpa using h
    | escape => exact absurd (cons.inj h).1 hbackslash
    | unicode => exact absurd (cons.inj h).1 hbackslash
  | escape letter _ hescape =>
    cases hother with
    | plain _ _ hbackslash _ => exact absurd (cons.inj h).1.symm hbackslash
    | escape letter' _ hescape' =>
      simp only [cons_append, nil_append, cons.injEq, true_and] at h
      obtain ⟨rfl, rfl⟩ := h
      exact ⟨Option.some.inj (hescape.symm.trans hescape'), rfl⟩
    | unicode =>
      simp only [cons_append, nil_append, cons.injEq, true_and] at h
      obtain ⟨rfl, _⟩ := h
      simp [escapeOf] at hescape
  | unicode _ a b c d ha hb hc hd hcode =>
    cases hother with
    | plain _ _ hbackslash _ => exact absurd (cons.inj h).1.symm hbackslash
    | escape letter _ hescape =>
      simp only [cons_append, nil_append, cons.injEq, true_and] at h
      obtain ⟨rfl, _⟩ := h
      simp [escapeOf] at hescape
    | unicode _ a' b' c' d' ha' hb' hc' hd' hcode' =>
      simp only [cons_append, nil_append, cons.injEq, true_and] at h
      obtain ⟨rfl, rfl, rfl, rfl, rfl⟩ := h
      rw [ha] at ha'
      rw [hb] at hb'
      rw [hc] at hc'
      rw [hd] at hd'
      cases ha'
      cases hb'
      cases hc'
      cases hd'
      exact ⟨Char.toNat_inj.mp (hcode.trans hcode'.symm), rfl⟩

theorem Piece.ne_nil {character : Char} {piece : List Char} (hpiece : Piece character piece) :
    piece ≠ [] := by
  cases hpiece <;> simp

variable {chars : List Char}

/-- The characters between the quotes are known from the way they are written. -/
theorem Body.unique {others body other : List Char} (hbody : Body chars body)
    (hother : Body others other) (h : body = other) : chars = others := by
  induction hbody generalizing others other with
  | nil =>
    cases hother with
    | nil => rfl
    | cons hpiece _ => exact absurd (append_eq_nil_iff.mp h.symm).1 hpiece.ne_nil
  | cons hpiece _ ih =>
    cases hother with
    | nil => exact absurd (append_eq_nil_iff.mp h).1 hpiece.ne_nil
    | cons hpiece' hbody' =>
      obtain ⟨rfl, hrest⟩ := hpiece.unique hpiece' h
      rw [ih hbody' hrest]

theorem Body.no_newline {body : List Char} (hbody : Body chars body) : '\n' ∉ body := by
  induction hbody with
  | nil => simp
  | cons hpiece _ ih =>
    rw [mem_append, not_or]
    refine ⟨?_, ih⟩
    have hdigit : hexValue '\n' = none := by decide
    cases hpiece with
    | plain character _ _ hcontrol =>
      simp only [mem_singleton]
      rintro rfl
      exact hcontrol (by simp [IsControl])
    | escape letter _ hescape =>
      simp only [mem_cons, not_mem_nil, or_false, not_or]
      refine ⟨by decide, ?_⟩
      rintro rfl
      simp [escapeOf] at hescape
    | unicode _ _ _ _ _ hfst hsnd hthird hfourth _ =>
      simp only [mem_cons, not_mem_nil, or_false, not_or]
      refine ⟨by decide, by decide, ?_, ?_, ?_, ?_⟩ <;> rintro rfl <;> simp_all

/-! ## Lines -/

/-- What a line may say. -/
inductive Line
  | integer (key : String) (val : Nat)
  | string (key val : String)
  | tables (header : String)
  deriving DecidableEq

/-- A key that is written without quotes, perhaps with dots. -/
def isBareKey (key : String) : Bool :=
  !key.toList.isEmpty && key.toList.all fun character =>
    character.isAlphanum || character = '-' || character = '_' || character = '.'

/-- The ways to write a line. -/
inductive Written : Line → List Char → Prop
  | integer (key : String) (hkey : isBareKey key = true) (val : Nat) :
      Written (.integer key val) (key.toList ++ ' ' :: '=' :: ' ' :: (toString val).toList)
  | string (key : String) (hkey : isBareKey key = true) (val : String) {body : List Char}
      (hbody : Body val.toList body) :
      Written (.string key val) (key.toList ++ ' ' :: '=' :: ' ' :: '"' :: (body ++ ['"']))
  | tables (header : String) (hheader : isBareKey header = true) :
      Written (.tables header) ('[' :: '[' :: (header.toList ++ [']', ']']))

theorem mem_of_isBareKey {key : String} (hkey : isBareKey key = true) {character : Char}
    (hchar : character ∈ key.toList) :
    character ≠ ' ' ∧ character ≠ '[' ∧ character ≠ '#' ∧ character ≠ '\n' := by
  have hall := (Bool.and_eq_true_iff.mp hkey).2
  have hbare := all_eq_true.mp hall character hchar
  refine ⟨?_, ?_, ?_, ?_⟩ <;> rintro rfl <;> exact absurd hbare (by decide)

theorem exists_cons_of_isBareKey {key : String} (hkey : isBareKey key = true) :
    ∃ first rest, key.toList = first :: rest := by
  have hne := (Bool.and_eq_true_iff.mp hkey).1
  cases hlist : key.toList with
  | nil => simp [hlist] at hne
  | cons first rest => exact ⟨first, rest, rfl⟩

theorem key_unique {key other : String} (hkey : isBareKey key = true)
    (hother : isBareKey other = true) {rest' : List Char}
    (h : key.toList ++ ' ' :: rest = other.toList ++ ' ' :: rest') :
    key = other ∧ rest = rest' := by
  obtain ⟨hkeys, hrest⟩ := eq_of_terminated (fun hmem => (mem_of_isBareKey hkey hmem).1 rfl)
    (fun hmem => (mem_of_isBareKey hother hmem).1 rfl) h
  exact ⟨String.toList_inj.mp hkeys, hrest⟩

theorem key_ne_bracket {key : String} (hkey : isBareKey key = true) {rest' : List Char} :
    key.toList ++ rest ≠ '[' :: rest' := by
  obtain ⟨first, tail, hlist⟩ := exists_cons_of_isBareKey hkey
  rw [hlist]
  intro h
  exact (mem_of_isBareKey hkey (hlist ▸ mem_cons_self)).2.1 (cons.inj h).1

theorem toString_ne_quote {val : Nat} : (toString val).toList ≠ '"' :: rest := by
  intro h
  have hdigit : '"' ∈ Nat.toDigits 10 val := by
    rw [← toList_toString, h]
    exact mem_cons_self
  exact absurd (isDigit_of_mem_toDigits hdigit) (by decide)

theorem toString_unique {val other : Nat} (h : (toString val).toList = (toString other).toList) :
    val = other := by
  rw [toList_toString, toList_toString] at h
  rw [← Nat.ofDigitChars_ten_toDigits (n := val), h, Nat.ofDigitChars_ten_toDigits]

theorem Written.unique {line other : Line} {text text' : List Char} (hwritten : Written line text)
    (hother : Written other text') (h : text = text') : line = other := by
  cases hwritten with
  | integer key hkey val =>
    cases hother with
    | integer key' hkey' val' =>
      obtain ⟨rfl, hrest⟩ := key_unique hkey hkey' h
      simp only [cons.injEq, true_and] at hrest
      rw [toString_unique hrest]
    | string key' hkey' val' hbody' =>
      obtain ⟨_, hrest⟩ := key_unique hkey hkey' h
      simp only [cons.injEq, true_and] at hrest
      exact absurd hrest toString_ne_quote
    | tables header _ => exact absurd h (key_ne_bracket hkey)
  | string key hkey val hbody =>
    cases hother with
    | integer key' hkey' val' =>
      obtain ⟨_, hrest⟩ := key_unique hkey hkey' h
      simp only [cons.injEq, true_and] at hrest
      exact absurd hrest.symm toString_ne_quote
    | string key' hkey' val' hbody' =>
      obtain ⟨rfl, hrest⟩ := key_unique hkey hkey' h
      simp only [cons.injEq, true_and] at hrest
      rw [String.toList_inj.mp (hbody.unique hbody' (append_cancel_right hrest))]
    | tables header _ => exact absurd h (key_ne_bracket hkey)
  | tables header hheader =>
    cases hother with
    | integer key hkey _ => exact absurd h.symm (key_ne_bracket hkey)
    | string key hkey _ _ => exact absurd h.symm (key_ne_bracket hkey)
    | tables header' hheader' =>
      simp only [cons.injEq, true_and] at h
      rw [String.toList_inj.mp (append_cancel_right h)]

theorem Written.no_newline {line : Line} {text : List Char} (hwritten : Written line text) :
    '\n' ∉ text := by
  have hbare : ∀ {key : String}, isBareKey key = true → '\n' ∉ key.toList :=
    fun hkey hmem => (mem_of_isBareKey hkey hmem).2.2.2 rfl
  cases hwritten with
  | integer key hkey val =>
    have hdigits : '\n' ∉ Nat.toDigits 10 val :=
      fun hmem => absurd (isDigit_of_mem_toDigits hmem) (by decide)
    simp [hbare hkey, hdigits]
  | string key hkey val hbody => simp [hbare hkey, hbody.no_newline]
  | tables header hheader => simp [hbare hheader]

theorem Written.head {line : Line} {text : List Char} (hwritten : Written line text) :
    ∃ first rest, text = first :: rest ∧ first ≠ '#' := by
  have hbare : ∀ {key : String} {tail : List Char}, isBareKey key = true →
      ∃ first rest, key.toList ++ tail = first :: rest ∧ first ≠ '#' := by
    intro key tail hkey
    obtain ⟨first, rest, hlist⟩ := exists_cons_of_isBareKey hkey
    refine ⟨first, rest ++ tail, by rw [hlist, cons_append], ?_⟩
    exact (mem_of_isBareKey hkey (hlist ▸ mem_cons_self)).2.2.1
  cases hwritten with
  | integer key hkey _ => exact hbare hkey
  | string key hkey _ _ => exact hbare hkey
  | tables header _ => exact ⟨_, _, rfl, by decide⟩

/-! ## Documents -/

/-- The ways to write lines, with blank lines and comments between them. -/
inductive Document : List Line → List (List Char) → Prop
  | nil : Document [] []
  | blank {lines : List Line} {texts : List (List Char)} (hrest : Document lines texts) :
      Document lines ([] :: texts)
  | comment {lines : List Line} {texts : List (List Char)} (comment : List Char)
      (hcomment : ∀ character ∈ comment, ¬ IsControl character) (hrest : Document lines texts) :
      Document lines (('#' :: comment) :: texts)
  | line {line : Line} {lines : List Line} {text : List Char} {texts : List (List Char)}
      (hline : Written line text) (hrest : Document lines texts) :
      Document (line :: lines) (text :: texts)

variable {texts : List (List Char)}

theorem Document.append {first second : List Line} {texts' : List (List Char)}
    (hfst : Document first texts) (hsnd : Document second texts') :
    Document (first ++ second) (texts ++ texts') := by
  induction hfst with
  | nil => exact hsnd
  | blank _ ih => exact .blank ih
  | comment comment hcomment _ ih => exact .comment comment hcomment ih
  | line hline _ ih => exact .line hline ih

variable {lines others : List Line}

theorem Document.unique (hlines : Document lines texts) (hothers : Document others texts) :
    lines = others := by
  induction hlines generalizing others with
  | nil =>
    cases hothers
    rfl
  | blank _ ih =>
    cases hothers with
    | blank hrest => exact ih hrest
    | line hline _ =>
      obtain ⟨first, rest, htext, _⟩ := hline.head
      exact absurd htext (by simp)
  | comment comment hcomment _ ih =>
    cases hothers with
    | comment _ _ hrest => exact ih hrest
    | line hline _ =>
      obtain ⟨first, rest, htext, hfst⟩ := hline.head
      exact absurd (cons.inj htext).1.symm hfst
  | line hline _ ih =>
    cases hothers with
    | blank _ =>
      obtain ⟨first, rest, htext, _⟩ := hline.head
      exact absurd htext (by simp)
    | comment _ _ _ =>
      obtain ⟨first, rest, htext, hfst⟩ := hline.head
      exact absurd (cons.inj htext).1.symm hfst
    | line hline' hrest => rw [hline.unique hline' rfl, ih hrest]

theorem Document.no_newline (hlines : Document lines texts) : ∀ text ∈ texts, '\n' ∉ text := by
  induction hlines with
  | nil => simp
  | blank _ ih => exact forall_mem_cons.mpr ⟨by simp, ih⟩
  | comment comment hcomment _ ih =>
    refine forall_mem_cons.mpr ⟨?_, ih⟩
    rw [mem_cons, not_or]
    exact ⟨by decide, fun hmem => hcomment _ hmem (by simp [IsControl])⟩
  | line hline _ ih => exact forall_mem_cons.mpr ⟨hline.no_newline, ih⟩

/-- The text of some lines, each with its end. -/
def documentText (texts : List (List Char)) : List Char := texts.flatMap (· ++ ['\n'])

theorem documentText_unique {others : List (List Char)} (htexts : ∀ text ∈ texts, '\n' ∉ text)
    (hothers : ∀ text ∈ others, '\n' ∉ text) (h : documentText texts = documentText others) :
    texts = others := by
  induction texts generalizing others with
  | nil =>
    cases others with
    | nil => rfl
    | cons other others => simp [documentText] at h
  | cons text texts ih =>
    cases others with
    | nil => simp [documentText] at h
    | cons other others =>
      simp only [documentText, flatMap_cons, append_assoc, singleton_append] at h
      obtain ⟨htext, hrest⟩ := eq_of_terminated (htexts text mem_cons_self)
        (hothers other mem_cons_self) h
      rw [htext, ih (fun text hmem => htexts text (mem_cons_of_mem _ hmem))
        (fun other hmem => hothers other (mem_cons_of_mem _ hmem)) hrest]

theorem Document.lines_unique {texts' : List (List Char)} (hlines : Document lines texts)
    (hothers : Document others texts') (h : documentText texts = documentText texts') :
    lines = others := by
  obtain rfl := documentText_unique hlines.no_newline hothers.no_newline h
  exact hlines.unique hothers

/-- What a text says as a document. -/
def Says (lines : List Line) (text : String) : Prop :=
  ∃ texts, Document lines texts ∧ text.toList = documentText texts

variable {text : String}

theorem Says.unique (hlines : Says lines text) (hothers : Says others text) : lines = others := by
  obtain ⟨texts, hdoc, htext⟩ := hlines
  obtain ⟨texts', hdoc', htext'⟩ := hothers
  exact hdoc.lines_unique hdoc' (htext.symm.trans htext')

theorem Says.nil : Says [] "" := ⟨[], .nil, rfl⟩

theorem Says.append {other : String} (hlines : Says lines text) (hothers : Says others other) :
    Says (lines ++ others) (text ++ other) := by
  obtain ⟨texts, hdoc, htext⟩ := hlines
  obtain ⟨texts', hdoc', htext'⟩ := hothers
  refine ⟨texts ++ texts', hdoc.append hdoc', ?_⟩
  rw [String.toList_append, htext, htext', documentText, documentText, documentText, flatMap_append]

theorem Says.join_nil : Says [] (String.join []) := .nil

theorem Says.join_singleton (hlines : Says lines text) : Says lines (String.join [text]) := by
  have hjoin : String.join [text] = text := by simp [String.join_cons]
  rwa [hjoin]

theorem Says.join_cons {texts : List String} (hlines : Says lines text)
    (hothers : Says others (String.join texts)) :
    Says (lines ++ others) (String.join (text :: texts)) := by
  rw [String.join_cons]
  exact hlines.append hothers

theorem Says.flatMap {α : Type} {lines : α → List Line} {text : α → String} {values : List α}
    (hvals : ∀ val ∈ values, Says (lines val) (text val)) :
    Says (values.flatMap lines) (String.join (values.map text)) := by
  induction values with
  | nil => exact .join_nil
  | cons val rest ih =>
    rw [flatMap_cons, map_cons]
    exact (hvals val mem_cons_self).join_cons
      (ih fun other hother => hvals other (mem_cons_of_mem _ hother))

theorem Says.line {line : Line} (hline : Written line chars)
    (htext : text.toList = chars ++ ['\n']) :
    Says [line] text :=
  ⟨[chars], .line hline .nil, by simp [documentText, htext]⟩

theorem Says.comment (comment : String) (hprintable : (comment.toList.all fun character =>
      32 ≤ character.toNat && character.toNat < 127) = true)
    (htext : text.toList = '#' :: (comment.toList ++ ['\n'])) : Says [] text := by
  refine ⟨['#' :: comment.toList], .comment _ ?_ .nil, by simp [documentText, htext]⟩
  intro character hchar hcontrol
  have hrange := all_eq_true.mp hprintable character hchar
  simp only [Bool.and_eq_true, decide_eq_true_eq] at hrange
  rcases hcontrol with ⟨hlow, _⟩ | hdelete <;> omega

theorem Says.header {header : String} (hheader : isBareKey header = true)
    (htext : text.toList = '\n' :: '[' :: '[' :: (header.toList ++ [']', ']', '\n'])) :
    Says [.tables header] text :=
  ⟨_, .blank (.line (.tables header hheader) .nil), by simp [documentText, htext]⟩

end TomlText
