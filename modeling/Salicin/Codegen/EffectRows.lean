import Salicin.Codegen.EffectIdentity
import Mathlib.Data.List.Dedup
import Mathlib.Data.List.Sort

/-!
# Reading the marker of an effect row

A row is read back from its marker, as the sorted list of its identities, unless an identity
has the separator in it or the empty identity stands alone.
-/

namespace Salicin.Codegen.CompileTime

open List Salicin.Source

/-! ## Normalized identities -/

theorem mem_normalizeIdentities {identities : List String} {ident : String} :
    ident ∈ normalizeIdentities identities ↔ ident ∈ identities := by
  simp [normalizeIdentities]

theorem nodup_normalizeIdentities (identities : List String) :
    (normalizeIdentities identities).Nodup :=
  nodup_dedup _

theorem pairwise_normalizeIdentities (identities : List String) :
    (normalizeIdentities identities).Pairwise (· < ·) := by
  have hsorted : (identities.mergeSort (· ≤ ·)).Pairwise (· ≤ ·) := by
    have hpair : (identities.mergeSort fun first second => decide (first ≤ second)).Pairwise
        fun first second => decide (first ≤ second) = true :=
      pairwise_mergeSort (fun first second third => by simpa using le_trans)
        (fun first second => by simpa using le_total first second) identities
    simpa using hpair
  have hdedup := List.Pairwise.sublist (dedup_sublist _) hsorted
  exact (hdedup.and (nodup_normalizeIdentities identities)).imp fun ⟨hle, hne⟩ =>
    lt_of_le_of_ne hle hne

theorem normalizeIdentities_eq_self {identities : List String}
    (hsorted : identities.Pairwise (· < ·)) : normalizeIdentities identities = identities := by
  have hle : identities.Pairwise fun first second => decide (first ≤ second) = true :=
    hsorted.imp fun hlt => by simpa using hlt.le
  rw [normalizeIdentities, mergeSort_of_pairwise hle]
  exact dedup_eq_self.mpr (hsorted.imp ne_of_lt)

/-! ## Markers of rows -/

theorem stripStart_append (start rest : String) : stripStart start (start ++ rest) = some rest := by
  have hstrip : start.toList.isPrefixOf? (start.toList ++ rest.toList) = some rest.toList := by
    induction start.toList with
    | nil => simp [isPrefixOf?]
    | cons char chars ih => simp [isPrefixOf?, ih]
  rw [stripStart, String.toList_append, hstrip]
  simp

theorem splitOnce_append {sep : Char} {before : List Char} (hbefore : sep ∉ before)
    (after : List Char) : splitOnce sep (before ++ sep :: after) = some (before, after) := by
  induction before with
  | nil => simp [splitOnce]
  | cons char before ih =>
    simp only [mem_cons, not_or] at hbefore
    simp [splitOnce, Ne.symm hbefore.1, ih hbefore.2]

theorem not_mem_of_mem_splitOn {sep : Char} {text piece : List Char}
    (hpiece : piece ∈ text.splitOn sep) : sep ∉ piece := by
  induction text generalizing piece with
  | nil =>
    obtain rfl : piece = [] := by simpa using hpiece
    simp
  | cons char text ih =>
    rw [splitOn_cons_eq_if_modifyHead] at hpiece
    split_ifs at hpiece with hchar
    · rcases mem_cons.mp hpiece with rfl | hpiece
      · simp
      · exact ih hpiece
    · cases hsplit : text.splitOn sep with
      | nil => exact absurd hsplit (splitOn_ne_nil _ _)
      | cons first rest =>
        rw [hsplit, modifyHead_cons] at hpiece
        rw [hsplit] at ih
        rcases mem_cons.mp hpiece with rfl | hpiece
        · have hfst := ih mem_cons_self
          have hne : sep ≠ char := fun heq => hchar (beq_iff_eq.mpr heq.symm)
          simp [hfst, hne]
        · exact ih (mem_cons_of_mem _ hpiece)

/-- The identities that are read from the marker of a row. -/
def rowPieces (custom : List String) : List String :=
  let joined := ("|".intercalate (normalizeIdentities custom)).toList
  if joined = [] then [] else (joined.splitOn '|').map String.ofList

theorem effectRowFromMarker_effectRowMarker (unsafety : Bool) (custom : List String) :
    effectRowFromMarker (effectRowMarker unsafety custom) = some (unsafety, rowPieces custom) := by
  have hmarker : effectRowMarker unsafety custom = effectRowMarkerStart ++
      ((if unsafety then "unsafe" else "pure") ++ "|" ++
        "|".intercalate (normalizeIdentities custom)) := by
    simp [effectRowMarker, String.append_assoc]
  have hother : ∀ constant : String, constant.toList[8]? ≠ some 'r' →
      effectRowMarker unsafety custom ≠ constant := by
    intro constant hconst heq
    apply hconst
    rw [← heq, hmarker, String.toList_append, getElem?_append_left (by decide)]
    decide
  have hpure := hother effectPureMarker (by decide)
  have hunsafe := hother effectUnsafeMarker (by decide)
  rw [effectRowFromMarker, if_neg hpure, if_neg hunsafe, hmarker, stripStart_append]
  have hbar : ("|" : String).toList = ['|'] := by decide
  have hsplit : splitOnce '|' ((if unsafety then "unsafe" else "pure") ++ "|" ++
      "|".intercalate (normalizeIdentities custom)).toList =
        some ((if unsafety then "unsafe" else "pure").toList,
          ("|".intercalate (normalizeIdentities custom)).toList) := by
    rw [String.toList_append, String.toList_append, append_assoc, hbar]
    apply splitOnce_append
    cases unsafety <;> decide
  simp only [Option.bind_eq_bind, Option.bind_some, hsplit]
  cases unsafety <;> simp [rowPieces]

/-- A row can be read back: no identity has the separator, and the empty one is not alone. -/
structure RowReadsBack (custom : List String) : Prop where
  separate : ∀ identity ∈ custom, '|' ∉ identity.toList
  named : custom ≠ [] → ∃ identity ∈ custom, identity ≠ ""

/-- The pieces are joined by the separator, so it is in none of them. -/
theorem not_mem_of_mem_rowPieces (custom : List String) {ident : String}
    (hident : ident ∈ rowPieces custom) : '|' ∉ ident.toList := by
  unfold rowPieces at hident
  dsimp only at hident
  split_ifs at hident
  · simp at hident
  · obtain ⟨piece, hpiece, rfl⟩ := mem_map.mp hident
    rw [String.toList_ofList]
    exact not_mem_of_mem_splitOn hpiece

theorem rowPieces_of_separate {custom : List String} (hsep : ∀ ident ∈ custom, '|' ∉ ident.toList) :
    rowPieces custom =
      if normalizeIdentities custom = [""] then [] else normalizeIdentities custom := by
  have hbar : ("|" : String).toList = ['|'] := by decide
  have hpieces : ∀ piece ∈ (normalizeIdentities custom).map String.toList, '|' ∉ piece := by
    intro piece hpiece
    obtain ⟨ident, hident, rfl⟩ := mem_map.mp hpiece
    exact hsep ident (mem_normalizeIdentities.mp hident)
  unfold rowPieces
  dsimp only
  rw [String.toList_intercalate, hbar]
  generalize normalizeIdentities custom = identities at hpieces ⊢
  cases identities with
  | nil => simp
  | cons first rest =>
    rw [splitOn_intercalate '|' hpieces (by simp)]
    have hback : ((first :: rest).map String.toList).map String.ofList = first :: rest := by
      simp [Function.comp_def]
    rw [hback]
    cases rest with
    | nil => simp
    | cons second rest => simp [intercalate]

theorem normalizeIdentities_eq_singleton {custom : List String} :
    normalizeIdentities custom = [""] ↔ custom ≠ [] ∧ ∀ ident ∈ custom, ident = "" := by
  constructor
  · intro hsingle
    refine ⟨?_, ?_⟩
    · rintro rfl
      simp [normalizeIdentities] at hsingle
    · intro ident hident
      have hmem := mem_normalizeIdentities.mpr hident
      simpa [hsingle] using hmem
  · rintro ⟨hne, hall⟩
    have hnodup := nodup_normalizeIdentities custom
    have hmem : ∀ ident, ident ∈ normalizeIdentities custom → ident = "" :=
      fun ident hident => hall ident (mem_normalizeIdentities.mp hident)
    obtain ⟨ident, hident⟩ := exists_mem_of_ne_nil _ hne
    have hthere := mem_normalizeIdentities.mpr hident
    generalize normalizeIdentities custom = identities at hnodup hmem hthere
    cases identities with
    | nil => simp at hthere
    | cons first rest =>
      obtain rfl := hmem first mem_cons_self
      cases rest with
      | nil => rfl
      | cons second rest =>
        obtain rfl := hmem second (by simp)
        simp at hnodup

theorem rowPieces_eq_iff {custom : List String} :
    rowPieces custom = normalizeIdentities custom ↔ RowReadsBack custom := by
  constructor
  · intro heq
    have hsep : ∀ ident ∈ custom, '|' ∉ ident.toList := by
      intro ident hident
      apply not_mem_of_mem_rowPieces custom
      rw [heq]
      exact mem_normalizeIdentities.mpr hident
    refine ⟨hsep, ?_⟩
    intro hne
    by_contra hall
    have hempty : ∀ ident ∈ custom, ident = "" := by
      intro ident hident
      by_contra hidentityNe
      exact hall ⟨ident, hident, hidentityNe⟩
    have hsingle := normalizeIdentities_eq_singleton.mpr ⟨hne, hempty⟩
    rw [rowPieces_of_separate hsep, if_pos hsingle, hsingle] at heq
    simp at heq
  · rintro ⟨hsep, hnamed⟩
    rw [rowPieces_of_separate hsep, if_neg]
    intro hsingle
    obtain ⟨hne, hall⟩ := normalizeIdentities_eq_singleton.mp hsingle
    obtain ⟨ident, hident, hidentityNe⟩ := hnamed hne
    exact hidentityNe (hall ident hident)

theorem effectRowFromSource_effectRowSource (unsafety : Bool) (failureError : Option SourceType)
    (custom : List String) :
    effectRowFromSource (effectRowSource unsafety failureError custom) =
      some (unsafety, failureError, rowPieces custom) := by
  cases failureError <;>
    simp [effectRowSource, effectRowFromSource, effectRowFromMarker_effectRowMarker]

end Salicin.Codegen.CompileTime
