import Mathlib.Data.List.DropRight
import Mathlib.Data.List.Forall2

/-!
# Text with brackets and commas

A text is nested when each of its brackets is closed and none is closed too early. An
application is a name before one pair of brackets that goes to the end. What is between the
brackets is split at the commas that no bracket encloses, and each piece is trimmed.
-/

namespace Brackets

open List

/-- How many brackets are open after the text, unless one is closed that has not been opened. -/
def depthAfter : List Char → Nat → Option Nat
  | [], depth => some depth
  | char :: rest, depth =>
    if char = '(' then depthAfter rest (depth + 1)
    else if char = ')' then
      match depth with
      | 0 => none
      | depth + 1 => depthAfter rest depth
    else depthAfter rest depth

def Nested (text : List Char) : Prop := depthAfter text 0 = some 0

/-- As `depthAfter`, with no comma outside the brackets. -/
def segmentAfter : List Char → Nat → Option Nat
  | [], depth => some depth
  | char :: rest, depth =>
    if char = '(' then segmentAfter rest (depth + 1)
    else if char = ')' then
      match depth with
      | 0 => none
      | depth + 1 => segmentAfter rest depth
    else if char = ',' ∧ depth = 0 then none
    else segmentAfter rest depth

/-- The text is nested and has no comma outside its brackets. -/
def Solid (text : List Char) : Prop := segmentAfter text 0 = some 0

instance (text : List Char) : Decidable (Solid text) :=
  inferInstanceAs (Decidable (segmentAfter text 0 = some 0))

/-- The text has no bracket. -/
def Plain (text : List Char) : Prop := '(' ∉ text ∧ ')' ∉ text

instance (text : List Char) : Decidable (Plain text) := inferInstanceAs (Decidable (_ ∧ _))

attribute [local simp] depthAfter segmentAfter

theorem segmentAfter_append (first second : List Char) (depth : Nat) :
    segmentAfter (first ++ second) depth =
      (segmentAfter first depth).bind (segmentAfter second) := by
  induction first generalizing depth with
  | nil => rfl
  | cons char rest ih =>
    simp only [cons_append, segmentAfter]
    split_ifs
    · exact ih _
    · cases depth <;> simp [ih]
    · rfl
    · exact ih _

theorem depthAfter_append (first second : List Char) (depth : Nat) :
    depthAfter (first ++ second) depth = (depthAfter first depth).bind (depthAfter second) := by
  induction first generalizing depth with
  | nil => rfl
  | cons char rest ih =>
    simp only [cons_append, depthAfter]
    split_ifs
    · exact ih _
    · cases depth <;> simp [ih]
    · exact ih _

variable {text : List Char}

theorem depthAfter_of_segmentAfter {depth after : Nat}
    (hseg : segmentAfter text depth = some after) : depthAfter text depth = some after := by
  induction text generalizing depth with
  | nil => exact hseg
  | cons char rest ih =>
    unfold segmentAfter at hseg
    unfold depthAfter
    split_ifs at hseg ⊢
    · exact ih hseg
    · cases depth with
      | zero => simp at hseg
      | succ depth => exact ih hseg
    · exact ih hseg

theorem segmentAfter_succ {depth after : Nat} (hdepth : depthAfter text depth = some after) :
    segmentAfter text (depth + 1) = some (after + 1) := by
  induction text generalizing depth with
  | nil => simpa [depthAfter, segmentAfter] using hdepth
  | cons char rest ih =>
    unfold depthAfter at hdepth
    unfold segmentAfter
    split_ifs at hdepth ⊢ with _ _ hcomma
    · exact ih hdepth
    · cases depth with
      | zero => simp at hdepth
      | succ depth => exact ih hdepth
    · simp at hcomma
    · exact ih hdepth

theorem Solid.nested (hsolid : Solid text) : Nested text := depthAfter_of_segmentAfter hsolid

theorem Solid.append {first second : List Char} (hfst : Solid first) (hsnd : Solid second) :
    Solid (first ++ second) := by
  unfold Solid at *
  rw [segmentAfter_append, hfst]
  exact hsnd

theorem Nested.append {first second : List Char} (hfst : Nested first) (hsnd : Nested second) :
    Nested (first ++ second) := by
  unfold Nested at *
  rw [depthAfter_append, hfst]
  exact hsnd

theorem Nested.solid_brackets (hnested : Nested text) : Solid ('(' :: (text ++ [')'])) := by
  unfold Solid
  simp only [segmentAfter, ite_true]
  rw [segmentAfter_append, segmentAfter_succ hnested]
  rfl

theorem segmentAfter_plain (hplain : Plain text) (hcomma : ',' ∉ text) (depth : Nat) :
    segmentAfter text depth = some depth := by
  induction text with
  | nil => rfl
  | cons char rest ih =>
    obtain ⟨hopen, hclose⟩ := hplain
    simp only [mem_cons, not_or] at hopen hclose hcomma
    unfold segmentAfter
    rw [if_neg (Ne.symm hopen.1), if_neg (Ne.symm hclose.1),
      if_neg (fun hhead => hcomma.1 hhead.1.symm)]
    exact ih ⟨hopen.2, hclose.2⟩ hcomma.2

theorem solid_plain (hplain : Plain text) (hcomma : ',' ∉ text) : Solid text :=
  segmentAfter_plain hplain hcomma 0

/-- The text before the first bracket of a solid text has no comma. -/
theorem Solid.name {name rest : List Char} (hsolid : Solid (name ++ rest)) (hplain : Plain name) :
    ',' ∉ name := by
  induction name with
  | nil => simp
  | cons char name ih =>
    obtain ⟨hopen, hclose⟩ := hplain
    simp only [mem_cons, not_or] at hopen hclose ⊢
    unfold Solid at hsolid
    rw [cons_append, segmentAfter, if_neg (Ne.symm hopen.1), if_neg (Ne.symm hclose.1)] at hsolid
    split_ifs at hsolid with hcomma
    have hchar : char ≠ ',' := fun heq => hcomma ⟨heq, rfl⟩
    exact ⟨Ne.symm hchar, ih hsolid ⟨hopen.2, hclose.2⟩⟩

/-! ## Applications -/

/-- Look for the bracket of an application: the one that is open up to the end. -/
def scanCall : List Char → Nat → Nat → Option Nat → Option Nat
  | [], _, depth, opened => if depth = 0 then opened else none
  | char :: rest, index, depth, opened =>
    if char = '(' then
      scanCall rest (index + 1) (depth + 1) (if depth = 0 then some index else opened)
    else if char = ')' then
      match depth with
      | 0 => none
      | depth + 1 =>
        if depth = 0 ∧ rest ≠ [] then none else scanCall rest (index + 1) depth opened
    else scanCall rest (index + 1) depth opened

/-- Where the bracket of an application is. -/
def callOpen (text : List Char) : Option Nat :=
  if text.getLast? = some ')' then scanCall text 0 0 none else none

/-- The text is a name before the brackets and what is in them. -/
structure IsCall (text name inner : List Char) : Prop where
  text_eq : text = name ++ '(' :: (inner ++ [')'])
  plain : Plain name
  nested : Nested inner

attribute [local simp] scanCall

theorem scanCall_name {name : List Char} (hplain : Plain name) (rest : List Char) (i : Nat)
    (opened : Option Nat) :
    scanCall (name ++ rest) i 0 opened = scanCall rest (i + name.length) 0 opened := by
  induction name generalizing i with
  | nil => rfl
  | cons char name ih =>
    obtain ⟨hopen, hclose⟩ := hplain
    simp only [mem_cons, not_or] at hopen hclose
    rw [cons_append, scanCall, if_neg (Ne.symm hopen.1), if_neg (Ne.symm hclose.1),
      ih ⟨hopen.2, hclose.2⟩, length_cons, Nat.add_right_comm, Nat.add_assoc]

theorem scanCall_inner {inner : List Char} {depth after : Nat}
    (hinner : depthAfter inner depth = some after) (rest : List Char) (i : Nat)
    (opened : Option Nat) : scanCall (inner ++ rest) i (depth + 1) opened =
      scanCall rest (i + inner.length) (after + 1) opened := by
  induction inner generalizing i depth with
  | nil =>
    obtain rfl : depth = after := by simpa [depthAfter] using hinner
    rfl
  | cons char inner ih =>
    rw [cons_append, length_cons, Nat.add_comm inner.length, ← Nat.add_assoc]
    by_cases hopen : char = '('
    · simp only [depthAfter, scanCall, if_pos hopen] at hinner ⊢
      simpa using ih hinner (i + 1)
    by_cases hclose : char = ')'
    · simp only [depthAfter, scanCall, if_neg hopen, if_pos hclose] at hinner ⊢
      cases depth with
      | zero => simp at hinner
      | succ depth => simpa using ih hinner (i + 1)
    · simp only [depthAfter, scanCall, if_neg hopen, if_neg hclose] at hinner ⊢
      exact ih hinner (i + 1)

theorem scanCall_succ_eq_some {i depth found : Nat} {opened : Option Nat}
    (hscan : scanCall text i (depth + 1) opened = some found) :
    ∃ inner, text = inner ++ [')'] ∧ depthAfter inner depth = some 0 ∧ opened = some found := by
  induction text generalizing i depth with
  | nil => simp [scanCall] at hscan
  | cons char rest ih =>
    by_cases hopen : char = '('
    · simp only [scanCall, if_pos hopen, Nat.succ_ne_zero, if_false] at hscan
      obtain ⟨inner, rfl, hinner, hfound⟩ := ih hscan
      exact ⟨char :: inner, rfl, by simpa [depthAfter, hopen] using hinner, hfound⟩
    by_cases hclose : char = ')'
    · simp only [scanCall, if_neg hopen, if_pos hclose] at hscan
      split_ifs at hscan with hend
      cases depth with
      | zero =>
        obtain rfl : rest = [] := by simpa using hend
        exact ⟨[], by simp [hclose], rfl, by simpa [scanCall] using hscan⟩
      | succ depth =>
        obtain ⟨inner, rfl, hinner, hfound⟩ := ih hscan
        exact ⟨char :: inner, rfl, by simpa [depthAfter, hopen, hclose] using hinner, hfound⟩
    · simp only [scanCall, if_neg hopen, if_neg hclose] at hscan
      obtain ⟨inner, rfl, hinner, hfound⟩ := ih hscan
      exact ⟨char :: inner, rfl, by simpa [depthAfter, hopen, hclose] using hinner, hfound⟩

theorem scanCall_zero_eq_some {i found : Nat} (hscan : scanCall text i 0 none = some found) :
    ∃ name inner, IsCall text name inner ∧ found = i + name.length := by
  induction text generalizing i with
  | nil => simp [scanCall] at hscan
  | cons char rest ih =>
    by_cases hopen : char = '('
    · simp only [scanCall, if_pos hopen, if_true] at hscan
      obtain ⟨inner, rfl, hinner, hfound⟩ := scanCall_succ_eq_some hscan
      refine ⟨[], inner, ⟨by simp [hopen], by simp [Plain], hinner⟩, ?_⟩
      simpa using hfound.symm
    by_cases hclose : char = ')'
    · simp [scanCall, hclose] at hscan
    · simp only [scanCall, if_neg hopen, if_neg hclose] at hscan
      obtain ⟨name, inner, ⟨rfl, hplain, hnested⟩, hfound⟩ := ih hscan
      refine ⟨char :: name, inner, ⟨rfl, ?_, hnested⟩, ?_⟩
      · simp [Plain, Ne.symm hopen, Ne.symm hclose, hplain.1, hplain.2]
      · rw [hfound, length_cons]
        omega

theorem callOpen_eq_some {found : Nat} :
    callOpen text = some found ↔
      ∃ name inner, IsCall text name inner ∧ found = name.length := by
  constructor
  · intro hcall
    unfold callOpen at hcall
    split_ifs at hcall
    simpa using scanCall_zero_eq_some hcall
  · rintro ⟨name, inner, ⟨rfl, hplain, hnested⟩, rfl⟩
    have hlast : (name ++ '(' :: (inner ++ [')'])).getLast? = some ')' := by
      rw [← cons_append, ← append_assoc, getLast?_concat]
    unfold callOpen
    rw [if_pos hlast, scanCall_name hplain, scanCall, if_pos rfl, scanCall_inner hnested]
    simp [scanCall]

theorem callOpen_eq_none : callOpen text = none ↔ ∀ name inner, ¬ IsCall text name inner := by
  rw [Option.eq_none_iff_forall_ne_some]
  constructor
  · intro hnone name inner hcall
    exact hnone name.length (callOpen_eq_some.mpr ⟨name, inner, hcall, rfl⟩)
  · intro hnone found hfound
    obtain ⟨name, inner, hcall, _⟩ := callOpen_eq_some.mp hfound
    exact hnone name inner hcall

end Brackets
