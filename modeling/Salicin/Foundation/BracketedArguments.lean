import Salicin.Foundation.Brackets
import Mathlib.Algebra.GroupWithZero.Nat

/-!
# Arguments between commas

A text is split at the commas that no bracket encloses, and white space around the pieces is
dropped. Solid pieces that are joined by commas are found again.
-/

namespace Brackets

open List

/-- The characters with the Unicode property `White_Space`. -/
def isWhiteSpace (char : Char) : Bool :=
  let code := char.toNat
  (9 ≤ code && code ≤ 13) || code == 0x20 || code == 0x85 || code == 0xA0 || code == 0x1680 ||
    (0x2000 ≤ code && code ≤ 0x200A) || code == 0x2028 || code == 0x2029 || code == 0x202F ||
    code == 0x205F || code == 0x3000

/-- Drop the white space at both ends. -/
def trim (text : List Char) : List Char := (text.dropWhile isWhiteSpace).rdropWhile isWhiteSpace

/-- Split the text at the commas outside its brackets. -/
def splitCommas : List Char → Nat → List Char → Option (List (List Char))
  | [], depth, current => if depth = 0 then some [trim current] else none
  | char :: rest, depth, current =>
    if char = '(' then splitCommas rest (depth + 1) (current ++ [char])
    else if char = ')' then
      match depth with
      | 0 => none
      | depth + 1 => splitCommas rest depth (current ++ [char])
    else if char = ',' ∧ depth = 0 then
      (splitCommas rest 0 []).map fun pieces => trim current :: pieces
    else splitCommas rest depth (current ++ [char])

/-- Solid segments, joined by commas. -/
def joinCommas (segs : List (List Char)) : List Char := [','].intercalate segs

theorem joinCommas_cons_cons (first second : List Char) (rest : List (List Char)) :
    joinCommas (first :: second :: rest) = first ++ ',' :: joinCommas (second :: rest) := by
  simp [joinCommas, intercalate, intersperse]

theorem joinCommas_singleton (seg : List Char) : joinCommas [seg] = seg := by
  simp [joinCommas, intercalate, intersperse]

/-! ## Trimming -/

theorem trim_infix (text : List Char) : ∃ before after, text = before ++ trim text ++ after ∧
    (∀ char ∈ before, isWhiteSpace char = true) ∧ ∀ char ∈ after, isWhiteSpace char = true := by
  refine ⟨text.takeWhile isWhiteSpace, (text.dropWhile isWhiteSpace).rtakeWhile isWhiteSpace,
    ?_, ?_, ?_⟩
  · rw [append_assoc, trim, rdropWhile_append_rtakeWhile, takeWhile_append_dropWhile]
  · exact fun char hchar => mem_takeWhile_imp hchar
  · exact fun char hchar => mem_rtakeWhile_imp hchar

theorem trim_cons_space {char : Char} (hspace : isWhiteSpace char = true) (text : List Char) :
    trim (char :: text) = trim text := by
  rw [trim, dropWhile_cons_of_pos hspace, trim]

variable {text : List Char}

theorem trim_eq_self (hfst : ∀ char ∈ text.head?, isWhiteSpace char = false)
    (hlast : ∀ char ∈ text.getLast?, isWhiteSpace char = false) : trim text = text := by
  have hdrop : text.dropWhile isWhiteSpace = text := by
    cases text with
    | nil => rfl
    | cons char rest => exact dropWhile_cons_of_neg (by simpa using hfst)
  rw [trim, hdrop, rdropWhile_eq_self_iff]
  intro hne
  simpa using hlast _ (getLast?_eq_some_getLast hne)

theorem head_trim (text : List Char) : ∀ char ∈ (trim text).head?, isWhiteSpace char = false := by
  intro char hchar
  obtain ⟨rest, hrest⟩ := rdropWhile_prefix isWhiteSpace (l := text.dropWhile isWhiteSpace)
  cases htrim : trim text with
  | nil => simp [htrim] at hchar
  | cons head tail =>
    obtain rfl : head = char := by simpa [htrim] using hchar
    have hdrop : text.dropWhile isWhiteSpace = head :: (tail ++ rest) := by
      rw [← hrest]
      exact congrArg (· ++ rest) htrim
    have hne : text.dropWhile isWhiteSpace ≠ [] := by simp [hdrop]
    have hhead := head_dropWhile_not isWhiteSpace hne
    simpa [hdrop] using hhead

theorem getLast_trim (text : List Char) :
    ∀ char ∈ (trim text).getLast?, isWhiteSpace char = false := by
  intro char hchar
  have hne : trim text ≠ [] := by
    intro hnil
    simp [hnil] at hchar
  have hlast := rdropWhile_last_not isWhiteSpace (text.dropWhile isWhiteSpace) hne
  rw [getLast?_eq_some_getLast hne, Option.mem_some_iff] at hchar
  rw [← hchar]
  exact Bool.eq_false_iff.mpr hlast

theorem trim_trim (text : List Char) : trim (trim text) = trim text :=
  trim_eq_self (head_trim text) (getLast_trim text)

theorem length_trim_le (text : List Char) : (trim text).length ≤ text.length := by
  obtain ⟨before, after, htext, _⟩ := trim_infix text
  have hlen := congrArg List.length htext
  simp only [length_append] at hlen
  omega

theorem segmentAfter_space (hspace : ∀ char ∈ text, isWhiteSpace char = true) (depth : Nat) :
    segmentAfter text depth = some depth := by
  have hnot : ∀ char, isWhiteSpace char = false → char ∉ text := by
    intro char hchar hmem
    simp [hspace char hmem] at hchar
  exact segmentAfter_plain ⟨hnot _ (by decide), hnot _ (by decide)⟩ (hnot _ (by decide)) depth

theorem solid_trim (hsolid : Solid text) : Solid (trim text) := by
  obtain ⟨before, after, htext, hbefore, hafter⟩ := trim_infix text
  unfold Solid at hsolid
  rw [htext, segmentAfter_append, segmentAfter_append, segmentAfter_space hbefore] at hsolid
  cases hmid : segmentAfter (trim text) 0 with
  | none => simp [hmid] at hsolid
  | some depth =>
    have hdepth : depth = 0 := by simpa [hmid, segmentAfter_space hafter] using hsolid
    rw [Solid, hmid, hdepth]

/-! ## Splitting -/

theorem splitCommas_segment {seg : List Char} {depth after : Nat}
    (hseg : segmentAfter seg depth = some after) (rest current : List Char) :
    splitCommas (seg ++ rest) depth current = splitCommas rest after (current ++ seg) := by
  induction seg generalizing depth current with
  | nil =>
    obtain rfl : depth = after := by simpa [segmentAfter] using hseg
    simp
  | cons char seg ih =>
    rw [cons_append]
    by_cases hopen : char = '('
    · simp only [segmentAfter, splitCommas, if_pos hopen] at hseg ⊢
      rw [ih hseg, append_assoc, singleton_append]
    by_cases hclose : char = ')'
    · simp only [segmentAfter, splitCommas, if_neg hopen, if_pos hclose] at hseg ⊢
      cases depth with
      | zero => simp at hseg
      | succ depth =>
        simp only at hseg ⊢
        rw [ih hseg, append_assoc, singleton_append]
    · simp only [segmentAfter, splitCommas, if_neg hopen, if_neg hclose] at hseg ⊢
      split_ifs at hseg with hcomma
      rw [if_neg hcomma, ih hseg, append_assoc, singleton_append]

theorem splitCommas_joinCommas {first : List Char} {rest : List (List Char)}
    (hsolid : ∀ seg ∈ first :: rest, Solid seg) (current : List Char) :
    splitCommas (joinCommas (first :: rest)) 0 current =
      some (trim (current ++ first) :: rest.map trim) := by
  have hfst := hsolid first mem_cons_self
  induction rest generalizing first current with
  | nil =>
    have hend := splitCommas_segment hfst [] current
    rw [append_nil] at hend
    rw [joinCommas_singleton, hend]
    rfl
  | cons second rest ih =>
    have hrest := ih (fun seg hseg => hsolid seg (mem_cons_of_mem _ hseg)) []
      (hsolid second (by simp))
    rw [joinCommas_cons_cons, splitCommas_segment hfst]
    simp [splitCommas, hrest]

/-- What is found are the trimmed segments of a text that solid segments are joined to. -/
theorem splitCommas_eq_some {current : List Char} {depth : Nat} {pieces : List (List Char)}
    (hsplit : splitCommas text depth current = some pieces) :
    ∃ first rest, text = joinCommas (first :: rest) ∧ segmentAfter first depth = some 0 ∧
      (∀ seg ∈ rest, Solid seg) ∧ pieces = trim (current ++ first) :: rest.map trim := by
  induction text generalizing depth current pieces with
  | nil =>
    unfold splitCommas at hsplit
    split_ifs at hsplit with hdepth
    exact ⟨[], [], joinCommas_singleton [], by simp [segmentAfter, hdepth], by simp,
      by simpa using hsplit.symm⟩
  | cons char text ih =>
    -- A character that is no comma goes to the first segment.
    have hmore : ∀ {first rest}, joinCommas ((char :: first) :: rest) =
        char :: joinCommas (first :: rest) := by
      intro first rest
      cases rest <;> simp [joinCommas_singleton, joinCommas_cons_cons]
    by_cases hopen : char = '('
    · simp only [splitCommas, if_pos hopen] at hsplit
      obtain ⟨first, rest, rfl, hfst, hrest, rfl⟩ := ih hsplit
      exact ⟨char :: first, rest, hmore.symm, by simpa [segmentAfter, hopen] using hfst, hrest,
        by simp⟩
    by_cases hclose : char = ')'
    · simp only [splitCommas, if_neg hopen, if_pos hclose] at hsplit
      cases depth with
      | zero => simp at hsplit
      | succ depth =>
        obtain ⟨first, rest, rfl, hfst, hrest, rfl⟩ := ih hsplit
        exact ⟨char :: first, rest, hmore.symm,
          by simpa [segmentAfter, hopen, hclose] using hfst, hrest, by simp⟩
    · simp only [splitCommas, if_neg hopen, if_neg hclose] at hsplit
      split_ifs at hsplit with hcomma
      · obtain ⟨others, hothers, rfl⟩ := Option.map_eq_some_iff.mp hsplit
        obtain ⟨first, rest, rfl, hfst, hrest, rfl⟩ := ih hothers
        refine ⟨[], first :: rest, ?_, by simp [segmentAfter, hcomma.2], ?_, by simp⟩
        · rw [joinCommas_cons_cons, hcomma.1, nil_append]
        · exact forall_mem_cons.mpr ⟨hfst, hrest⟩
      · obtain ⟨first, rest, rfl, hfst, hrest, rfl⟩ := ih hsplit
        exact ⟨char :: first, rest, hmore.symm,
          by simpa [segmentAfter, hopen, hclose, hcomma] using hfst, hrest, by simp⟩

variable {segs : List (List Char)}

/-- Solid segments are nested together, whatever white space goes with the commas. -/
theorem nested_joinCommas (hsolid : ∀ seg ∈ segs, Solid seg) : Nested (joinCommas segs) := by
  induction segs with
  | nil => rfl
  | cons first rest ih =>
    have hfst := hsolid first mem_cons_self
    have hrest := ih fun seg hseg => hsolid seg (mem_cons_of_mem _ hseg)
    cases rest with
    | nil =>
      rw [joinCommas_singleton]
      exact hfst.nested
    | cons second rest =>
      rw [joinCommas_cons_cons]
      exact hfst.nested.append hrest

theorem exists_splitCommas {depth : Nat} (hnested : depthAfter text depth = some 0)
    (current : List Char) : ∃ pieces, splitCommas text depth current = some pieces := by
  induction text generalizing depth current with
  | nil =>
    obtain rfl : depth = 0 := by simpa [depthAfter] using hnested
    exact ⟨_, rfl⟩
  | cons char rest ih =>
    by_cases hopen : char = '('
    · simp only [depthAfter, splitCommas, if_pos hopen] at hnested ⊢
      exact ih hnested _
    by_cases hclose : char = ')'
    · simp only [depthAfter, splitCommas, if_neg hopen, if_pos hclose] at hnested ⊢
      cases depth with
      | zero => simp at hnested
      | succ depth => exact ih hnested _
    · simp only [depthAfter, splitCommas, if_neg hopen, if_neg hclose] at hnested ⊢
      split_ifs with hcomma
      · obtain ⟨pieces, hpieces⟩ := ih (hcomma.2 ▸ hnested) []
        exact ⟨_, by rw [hpieces, Option.map_some]⟩
      · exact ih hnested _

theorem count_joinCommas (segs : List (List Char)) :
    (joinCommas segs).count '(' = (segs.map (List.count '(')).sum := by
  induction segs with
  | nil => rfl
  | cons first rest ih =>
    cases rest with
    | nil => simp [joinCommas_singleton]
    | cons second rest =>
      rw [joinCommas_cons_cons, count_append, count_cons_of_ne (by decide), ih]
      simp

theorem count_trim (text : List Char) : (trim text).count '(' = text.count '(' := by
  obtain ⟨before, after, htext, hbefore, hafter⟩ := trim_infix text
  have hnone : ∀ {space : List Char}, (∀ char ∈ space, isWhiteSpace char = true) →
      space.count '(' = 0 := by
    intro space hspace
    rw [count_eq_zero]
    intro hmem
    have hopen := hspace _ hmem
    simp [isWhiteSpace] at hopen
  have hcount := congrArg (List.count '(') htext
  rw [count_append, count_append, hnone hbefore, hnone hafter] at hcount
  omega

/-- The characters of the segments are in the text that they are joined to. -/
theorem mem_joinCommas {seg : List Char} (hseg : seg ∈ segs) : seg ⊆ joinCommas segs := by
  induction segs with
  | nil => simp at hseg
  | cons first rest ih =>
    cases rest with
    | nil => rw [mem_singleton.mp hseg, joinCommas_singleton]; exact List.Subset.refl _
    | cons second rest =>
      rw [joinCommas_cons_cons]
      rcases mem_cons.mp hseg with rfl | hseg
      · exact subset_append_left _ _
      · exact subset_append_of_subset_right _
          (subset_cons_of_subset _ (ih hseg))

theorem mem_of_mem_joinCommas {char : Char} (hchar : char ∈ joinCommas segs) :
    char = ',' ∨ ∃ seg ∈ segs, char ∈ seg := by
  induction segs with
  | nil => simp [joinCommas, intercalate] at hchar
  | cons first rest ih =>
    cases rest with
    | nil =>
      rw [joinCommas_singleton] at hchar
      exact .inr ⟨first, by simp, hchar⟩
    | cons second rest =>
      rw [joinCommas_cons_cons, mem_append, mem_cons] at hchar
      rcases hchar with hchar | hchar | hchar
      · exact .inr ⟨first, by simp, hchar⟩
      · exact .inl hchar
      · rcases ih hchar with hcomma | ⟨seg, hseg, hchar⟩
        · exact .inl hcomma
        · exact .inr ⟨seg, mem_cons_of_mem _ hseg, hchar⟩

theorem trim_subset (text : List Char) : trim text ⊆ text := by
  obtain ⟨before, after, htext, _⟩ := trim_infix text
  intro char hchar
  rw [htext]
  simp [hchar]

end Brackets
