import Mathlib.Algebra.GroupWithZero.Nat
import Mathlib.Algebra.Order.BigOperators.Group.List

/-!
# Self-delimiting writings

A value is *delimited* by the way it is written if its text shows where it ends: no other value
has a text that, with anything behind it, reads the same. Texts of delimited values can be put one
after the other without separators, and the values are found again one by one.
-/

namespace SelfDelimiting

open List

universe u v w

variable {α : Type u} {β : Type v} {σ : Type w}

/-- The text of the value cannot be mistaken for the beginning of another value's text. -/
def Delimited (write : α → List σ) (value : α) : Prop :=
  ∀ ⦃other rest rest'⦄, write value ++ rest = write other ++ rest' → value = other ∧ rest = rest'

/-- The text of the value, alone, is no other value's text. -/
def Determined (write : α → List σ) (value : α) : Prop :=
  ∀ ⦃other⦄, write value = write other → value = other

variable {write : α → List σ} {value : α}

theorem Delimited.determined (hval : Delimited write value) : Determined write value := by
  intro other htext
  have hrest : write value ++ [] = write other ++ [] := by rw [htext]
  exact (hval hrest).1

variable {rest rest' : List σ}

theorem Delimited.split (hval : Delimited write value) (other : α)
    (htext : write value ++ rest = write other ++ rest') :
    value = other ∧ rest = rest' :=
  hval htext

theorem Delimited.eq_of (hval : Delimited write value) (other : α)
    (htext : write value = write other) : value = other :=
  hval.determined htext

/-- A value that is written as the text of its image under an injective function. -/
theorem Delimited.comp {write : β → List σ} (convert : α → β)
    (himage : Delimited write (convert value))
    (hconvert : ∀ ⦃other⦄, convert value = convert other → value = other) :
    Delimited (fun value => write (convert value)) value := by
  intro other rest rest' htext
  obtain ⟨himages, hrest⟩ := himage htext
  exact ⟨hconvert himages, hrest⟩

theorem Delimited.pair {first : α → List σ} {second : β → List σ} {one : α} {two : β}
    (hfst : Delimited first one) (hsnd : Delimited second two) :
    Delimited (fun pair : α × β => first pair.1 ++ second pair.2) (one, two) := by
  intro other rest rest' htext
  rw [append_assoc, append_assoc] at htext
  obtain ⟨hone, htext⟩ := hfst htext
  obtain ⟨htwo, hrest⟩ := hsnd htext
  exact ⟨Prod.ext hone htwo, hrest⟩

/-! ## Terminators -/

theorem eq_of_terminated {stop : σ} {text text' : List σ} (hmem : stop ∉ text)
    (hmem' : stop ∉ text') (h : text ++ stop :: rest = text' ++ stop :: rest') :
    text = text' ∧ rest = rest' := by
  induction text generalizing text' with
  | nil =>
    cases text' with
    | nil => exact ⟨rfl, (cons.inj h).2⟩
    | cons head tail =>
      obtain ⟨hhead, _⟩ := cons.inj h
      exact absurd hhead fun hhead => hmem' (hhead ▸ mem_cons_self)
  | cons head tail ih =>
    cases text' with
    | nil =>
      obtain ⟨hhead, _⟩ := cons.inj h
      exact absurd hhead fun hhead => hmem (hhead ▸ mem_cons_self)
    | cons head' tail' =>
      obtain ⟨hhead, htail⟩ := cons.inj h
      obtain ⟨htails, hrest⟩ := ih (fun h => hmem (mem_cons_of_mem _ h))
        (fun h => hmem' (mem_cons_of_mem _ h)) htail
      exact ⟨by rw [hhead, htails], hrest⟩

theorem delimited_of_terminator (stop : σ) (hval : Determined write value)
    (hstop : ∀ other, stop ∉ write other) :
    Delimited (fun value => write value ++ [stop]) value := by
  intro other rest rest' htext
  rw [append_assoc, append_assoc, singleton_append, singleton_append] at htext
  obtain ⟨htexts, hrest⟩ := eq_of_terminated (hstop value) (hstop other) htext
  exact ⟨hval htexts, hrest⟩

/-- Two texts that are made of letters, each followed by nothing or by a symbol that is no
letter. -/
theorem eq_of_letters (letter : σ → Prop) {text text' : List σ}
    (htext : ∀ symbol ∈ text, letter symbol) (htext' : ∀ symbol ∈ text', letter symbol)
    (hrest : ∀ symbol ∈ rest.head?, ¬ letter symbol)
    (hrest' : ∀ symbol ∈ rest'.head?, ¬ letter symbol) (h : text ++ rest = text' ++ rest') :
    text = text' ∧ rest = rest' := by
  induction text generalizing text' with
  | nil =>
    cases text' with
    | nil => exact ⟨rfl, h⟩
    | cons head tail =>
      refine absurd (htext' head mem_cons_self) (hrest head ?_)
      rw [nil_append] at h
      rw [h]
      rfl
  | cons head tail ih =>
    cases text' with
    | nil =>
      refine absurd (htext head mem_cons_self) (hrest' head ?_)
      rw [nil_append] at h
      rw [← h]
      rfl
    | cons head' tail' =>
      obtain ⟨hhead, htail⟩ := cons.inj h
      obtain ⟨htails, hrest⟩ := ih (fun symbol h => htext symbol (mem_cons_of_mem _ h))
        (fun symbol h => htext' symbol (mem_cons_of_mem _ h)) htail
      exact ⟨by rw [hhead, htails], hrest⟩

/-! ## Sizes -/

theorem eq_of_size {size : σ → Nat} (hsize : ∀ symbol, 0 < size symbol) {text text' : List σ}
    (hsizes : (text.map size).sum = (text'.map size).sum) (h : text ++ rest = text' ++ rest') :
    text = text' ∧ rest = rest' := by
  induction text generalizing text' with
  | nil =>
    cases text' with
    | nil => exact ⟨rfl, h⟩
    | cons head tail =>
      have hpos := hsize head
      simp only [map_nil, sum_nil, map_cons, sum_cons] at hsizes
      omega
  | cons head tail ih =>
    cases text' with
    | nil =>
      have hpos := hsize head
      simp only [map_nil, sum_nil, map_cons, sum_cons] at hsizes
      omega
    | cons head' tail' =>
      obtain ⟨rfl, htail⟩ := cons.inj h
      have htails : (tail.map size).sum = (tail'.map size).sum := by
        simpa using hsizes
      obtain ⟨rfl, hrest⟩ := ih htails htail
      exact ⟨rfl, hrest⟩

theorem delimited_of_size {size : σ → Nat} (hsize : ∀ symbol, 0 < size symbol) {num : Nat → List σ}
    (hnum : ∀ count, Delimited num count) (hval : Determined write value) :
    Delimited (fun value => num ((write value).map size).sum ++ write value) value := by
  intro other rest rest' htext
  rw [append_assoc, append_assoc] at htext
  obtain ⟨hsizes, htext⟩ := hnum _ htext
  obtain ⟨htexts, hrest⟩ := eq_of_size hsize hsizes htext
  exact ⟨hval htexts, hrest⟩

/-! ## Sequences -/

theorem Delimited.flatMap {values others : List α}
    (hvals : ∀ value ∈ values, Delimited write value) (hlen : values.length = others.length)
    (h : values.flatMap write ++ rest = others.flatMap write ++ rest') :
    values = others ∧ rest = rest' := by
  induction values generalizing others with
  | nil =>
    obtain rfl : others = [] := length_eq_zero_iff.mp hlen.symm
    exact ⟨rfl, h⟩
  | cons value values ih =>
    cases others with
    | nil => exact absurd hlen (by simp)
    | cons other others =>
      rw [flatMap_cons, flatMap_cons, append_assoc, append_assoc] at h
      obtain ⟨rfl, htail⟩ := hvals value mem_cons_self h
      obtain ⟨rfl, hrest⟩ := ih (fun value h => hvals value (mem_cons_of_mem _ h))
        (by simpa using hlen) htail
      exact ⟨rfl, hrest⟩

theorem Delimited.counted {num : Nat → List σ} (hnum : ∀ count, Delimited num count)
    {values : List α} (hvals : ∀ value ∈ values, Delimited write value) :
    Delimited (fun values => num values.length ++ values.flatMap write) values := by
  intro others rest rest' htext
  rw [append_assoc, append_assoc] at htext
  obtain ⟨hlen, htext⟩ := hnum _ htext
  exact Delimited.flatMap hvals hlen htext

/-- As `Delimited`, before a text that does not begin with a symbol that may go on with the
value's. -/
def DelimitedBefore (more : σ → Prop) (write : α → List σ) (value : α) : Prop :=
  ∀ ⦃other rest rest'⦄, (∀ symbol ∈ rest.head?, ¬ more symbol) →
    (∀ symbol ∈ rest'.head?, ¬ more symbol) → write value ++ rest = write other ++ rest' →
      value = other ∧ rest = rest'

theorem Delimited.before (hval : Delimited write value) (more : σ → Prop) :
    DelimitedBefore more write value :=
  fun _ _ _ _ _ htext => hval htext

theorem exists_head_flatMap {mark : σ → Prop}
    (hmark : ∀ value, ∃ symbol ∈ (write value).head?, mark symbol) (value : α) (values : List α)
    (rest : List σ) : ∃ symbol ∈ ((value :: values).flatMap write ++ rest).head?, mark symbol := by
  obtain ⟨symbol, hsym, hmarked⟩ := hmark value
  refine ⟨symbol, ?_, hmarked⟩
  rw [flatMap_cons, append_assoc, List.head?_append]
  simp [Option.mem_def.mp hsym]

/-- What does not go on with a value goes on with no list of values before it. -/
theorem not_more_flatMap (mark : σ → Prop) {more : σ → Prop}
    (hmore : ∀ symbol, mark symbol → ¬ more symbol)
    (hmark : ∀ value, ∃ symbol ∈ (write value).head?, mark symbol) (values : List α)
    (hrest : ∀ symbol ∈ rest.head?, ¬ more symbol) :
    ∀ symbol ∈ (values.flatMap write ++ rest).head?, ¬ more symbol := by
  cases values with
  | nil => exact hrest
  | cons value values =>
    obtain ⟨first, hfst, hmarked⟩ := exists_head_flatMap hmark value values rest
    intro symbol hsym
    obtain rfl := Option.mem_unique hfst hsym
    exact hmore _ hmarked

/-- Values without their number, where what comes behind them can neither begin a value nor go on
with one. -/
theorem DelimitedBefore.marked (mark : σ → Prop) {more : σ → Prop}
    (hmore : ∀ symbol, mark symbol → ¬ more symbol) {values others : List α}
    (hvals : ∀ value ∈ values, DelimitedBefore more write value)
    (hmark : ∀ value, ∃ symbol ∈ (write value).head?, mark symbol)
    (hrest : ∀ symbol ∈ rest.head?, ¬ mark symbol ∧ ¬ more symbol)
    (hrest' : ∀ symbol ∈ rest'.head?, ¬ mark symbol ∧ ¬ more symbol)
    (h : values.flatMap write ++ rest = others.flatMap write ++ rest') :
    values = others ∧ rest = rest' := by
  induction values generalizing others with
  | nil =>
    cases others with
    | nil => exact ⟨rfl, h⟩
    | cons other others =>
      obtain ⟨symbol, hsym, hmarked⟩ := exists_head_flatMap hmark other others rest'
      rw [← h] at hsym
      exact absurd hmarked (hrest symbol hsym).1
  | cons value values ih =>
    cases others with
    | nil =>
      obtain ⟨symbol, hsym, hmarked⟩ := exists_head_flatMap hmark value values rest
      rw [h] at hsym
      exact absurd hmarked (hrest' symbol hsym).1
    | cons other others =>
      rw [flatMap_cons, flatMap_cons, append_assoc, append_assoc] at h
      obtain ⟨rfl, htail⟩ := hvals value mem_cons_self
        (not_more_flatMap mark hmore hmark values fun symbol hsym => (hrest symbol hsym).2)
        (not_more_flatMap mark hmore hmark others fun symbol hsym => (hrest' symbol hsym).2) h
      obtain ⟨rfl, hrest⟩ := ih (fun value h => hvals value (mem_cons_of_mem _ h)) htail
      exact ⟨rfl, hrest⟩

/-- Values without their number, where what comes behind them cannot begin a value. -/
theorem Delimited.marked (mark : σ → Prop) {values others : List α}
    (hvals : ∀ value ∈ values, Delimited write value)
    (hmark : ∀ value, ∃ symbol ∈ (write value).head?, mark symbol)
    (hrest : ∀ symbol ∈ rest.head?, ¬ mark symbol) (hrest' : ∀ symbol ∈ rest'.head?, ¬ mark symbol)
    (h : values.flatMap write ++ rest = others.flatMap write ++ rest') :
    values = others ∧ rest = rest' :=
  DelimitedBefore.marked mark (fun _ _ => not_false)
    (fun value hval => (hvals value hval).before _) hmark
    (fun symbol hsym => ⟨hrest symbol hsym, not_false⟩)
    (fun symbol hsym => ⟨hrest' symbol hsym, not_false⟩) h

theorem Determined.flatMap (hvals : ∀ value, Delimited write value)
    (hne : ∀ value, write value ≠ []) (values : List α) :
    Determined (fun values => values.flatMap write) values := by
  intro others htext
  have hend : values.flatMap write ++ [] = others.flatMap write ++ [] := by
    rw [append_nil, append_nil]
    exact htext
  refine (Delimited.marked (fun _ => True) (fun value _ => hvals value) ?_ (by simp) (by simp)
    hend).1
  intro value
  exact ⟨(write value).head (hne value), head_mem_head? (hne value), trivial⟩

/-! ## Options -/

theorem Delimited.option {present absent : List σ} {value : Option α}
    (hmarks : ∀ rest rest', present ++ rest ≠ absent ++ rest')
    (hval : ∀ held ∈ value, Delimited write held) :
    Delimited (fun value : Option α => value.elim absent fun held => present ++ write held)
      value := by
  intro other rest rest' htext
  cases value with
  | none =>
    cases other with
    | none => exact ⟨rfl, append_cancel_left htext⟩
    | some held =>
      simp only [Option.elim, append_assoc] at htext
      exact absurd htext.symm (hmarks _ _)
  | some held =>
    cases other with
    | none =>
      simp only [Option.elim, append_assoc] at htext
      exact absurd htext (hmarks _ _)
    | some held' =>
      simp only [Option.elim, append_assoc] at htext
      obtain ⟨rfl, hrest⟩ := hval held rfl (append_cancel_left htext)
      exact ⟨rfl, hrest⟩

/-! ## Decimal numbers and texts -/

theorem utf8ByteSize_eq (text : String) :
    text.utf8ByteSize = (text.toList.map Char.utf8Size).sum := by
  have hofList : ∀ chars : List Char,
      (String.ofList chars).utf8ByteSize = (chars.map Char.utf8Size).sum := by
    intro chars
    induction chars with
    | nil => rfl
    | cons char rest ih =>
      rw [← singleton_append, String.ofList_append, String.utf8ByteSize_append, ih]
      simp
  rw [← hofList, String.ofList_toList]

/-- A decimal number and a colon. -/
def number (count : Nat) : List Char := Nat.toDigits 10 count ++ [':']

/-- A text behind its length in bytes. -/
def component (text : List Char) : List Char := number (text.map Char.utf8Size).sum ++ text

theorem toList_toString (count : Nat) : (toString count).toList = Nat.toDigits 10 count :=
  Nat.toList_repr

theorem isDigit_of_mem_toDigits {count : Nat} {char : Char}
    (hchar : char ∈ Nat.toDigits 10 count) : char.isDigit = true :=
  Nat.isDigit_of_mem_toDigits (by omega) (by omega) hchar

theorem delimited_digits {stop : Char} (hstop : stop.isDigit = false) (count : Nat) :
    Delimited (fun count => Nat.toDigits 10 count ++ [stop]) count := by
  refine delimited_of_terminator stop ?_ ?_
  · intro other hdigits
    rw [← Nat.ofDigitChars_ten_toDigits (n := count), hdigits, Nat.ofDigitChars_ten_toDigits]
  · intro other hmem
    exact Bool.eq_false_iff.mp hstop (isDigit_of_mem_toDigits hmem)

theorem delimited_number (count : Nat) : Delimited number count := delimited_digits rfl count

theorem number_head (count : Nat) (rest : List Char) :
    ∃ char ∈ (number count ++ rest).head?, char.isDigit = true := by
  have hne : Nat.toDigits 10 count ≠ [] := Nat.toDigits_ne_nil
  refine ⟨(Nat.toDigits 10 count).head hne, ?_, isDigit_of_mem_toDigits (head_mem hne)⟩
  rw [number, append_assoc, List.head?_append, List.head?_eq_some_head hne]
  rfl

theorem delimited_component {write : α → List Char} (hval : Determined write value) :
    Delimited (fun value => component (write value)) value :=
  delimited_of_size Char.utf8Size_pos delimited_number hval

end SelfDelimiting
