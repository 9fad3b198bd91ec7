import Salicin.Codegen.Places
import Mathlib.Data.Finset.Lattice.Fold

/-!
# Joining flow states

Normalization keeps the set of the alternatives while it is small, and widens a larger one to the
empty alternative and the union of all. The alternatives of a flow that has been joined in any way
are those of its parts as long as these are few. The initialization status that is read from them
is then exact, and otherwise it errs on the side of a possible move.
-/

namespace Salicin.Codegen

open List

/-! ## Sets of alternatives -/

/-- What normalization makes of a set of alternatives. -/
def widen (alternatives : Finset (Finset PlaceKey)) : Finset (Finset PlaceKey) :=
  if alternatives.card ≤ maxInitializationAlternatives then alternatives
  else {∅, alternatives.sup id}

/-- No leaf of the place is uninitialized. -/
def Available (leaves : List PlaceKey) (alternative : Finset PlaceKey) : Prop :=
  ∀ leaf ∈ leaves, leaf ∉ alternative

instance (leaves : List PlaceKey) (alternative : Finset PlaceKey) :
    Decidable (Available leaves alternative) :=
  inferInstanceAs (Decidable (∀ leaf ∈ leaves, leaf ∉ alternative))

/-- The status of a place with these leaves, when the flow may be in any of the alternatives. -/
def exactStatus (alternatives : Finset (Finset PlaceKey)) (leaves : List PlaceKey) :
    InitializationStatus :=
  if ∀ alternative ∈ alternatives, Available leaves alternative then .initialized
  else if ∀ alternative ∈ alternatives, ¬ Available leaves alternative then .uninitialized
  else .maybeUninitialized

/-- Each alternative has one that is left of it: no leaf is lost, and one lacks no more. -/
structure Covers (kept alternatives : Finset (Finset PlaceKey)) : Prop where
  lacked : ∀ alternative ∈ alternatives, ∀ leaf ∈ alternative, ∃ other ∈ kept, leaf ∈ other
  held : ∀ alternative ∈ alternatives, ∃ other ∈ kept, other ⊆ alternative

section
variable {kept alternatives first second : Finset (Finset PlaceKey)} {leaves : List PlaceKey}

theorem Covers.refl (alternatives : Finset (Finset PlaceKey)) : Covers alternatives alternatives where
  lacked alternative hmem _ hleaf := ⟨alternative, hmem, hleaf⟩
  held alternative hmem := ⟨alternative, hmem, subset_rfl⟩

theorem Covers.trans (hfst : Covers first second) (hsnd : Covers second alternatives) :
    Covers first alternatives where
  lacked alternative hmem leaf hleaf := by
    obtain ⟨other, hother, hlacked⟩ := hsnd.lacked alternative hmem leaf hleaf
    exact hfst.lacked other hother leaf hlacked
  held alternative hmem := by
    obtain ⟨other, hother, hsub⟩ := hsnd.held alternative hmem
    obtain ⟨last, hlast, hsmaller⟩ := hfst.held other hother
    exact ⟨last, hlast, hsmaller.trans hsub⟩

theorem covers_widen (alternatives : Finset (Finset PlaceKey)) :
    Covers (widen alternatives) alternatives := by
  rw [widen]
  split_ifs
  · exact .refl alternatives
  · constructor
    · intro alternative hmem leaf hleaf
      refine ⟨_, Finset.mem_insert_of_mem (Finset.mem_singleton_self _), ?_⟩
      exact Finset.le_sup (f := id) hmem hleaf
    · exact fun alternative _ => ⟨∅, Finset.mem_insert_self _ _, Finset.empty_subset _⟩

theorem widen_of_le (hfew : alternatives.card ≤ maxInitializationAlternatives) :
    widen alternatives = alternatives :=
  if_pos hfew

theorem empty_mem_widen (hmany : maxInitializationAlternatives < alternatives.card) :
    ∅ ∈ widen alternatives := by
  rw [widen, if_neg (Nat.not_le_of_lt hmany)]
  exact Finset.mem_insert_self _ _

theorem card_widen_le (alternatives : Finset (Finset PlaceKey)) :
    (widen alternatives).card ≤ maxInitializationAlternatives := by
  rw [widen]
  split_ifs with hfew
  · exact hfew
  · exact Finset.card_le_two.trans (by decide)

theorem available_of_initialized (hstatus : exactStatus alternatives leaves = .initialized) :
    ∀ alternative ∈ alternatives, Available leaves alternative := by
  by_contra hnot
  rw [exactStatus, if_neg hnot] at hstatus
  split at hstatus <;> cases hstatus

theorem not_available_of_uninitialized (hstatus : exactStatus alternatives leaves = .uninitialized) :
    ∀ alternative ∈ alternatives, ¬ Available leaves alternative := by
  by_contra hnot
  rw [exactStatus, if_neg hnot] at hstatus
  split at hstatus <;> cases hstatus

/-- The status that is read from what is left of the alternatives errs only to one side. -/
theorem Covers.available (hcovers : Covers kept alternatives)
    (hstatus : exactStatus kept leaves = .initialized) :
    ∀ alternative ∈ alternatives, Available leaves alternative := by
  intro alternative hmem leaf hleaf hlacks
  obtain ⟨other, hother, hlacked⟩ := hcovers.lacked alternative hmem leaf hlacks
  exact available_of_initialized hstatus other hother leaf hleaf hlacked

theorem Covers.not_available (hcovers : Covers kept alternatives)
    (hstatus : exactStatus kept leaves = .uninitialized) :
    ∀ alternative ∈ alternatives, ¬ Available leaves alternative := by
  intro alternative hmem havail
  obtain ⟨other, hother, hsub⟩ := hcovers.held alternative hmem
  refine not_available_of_uninitialized hstatus other hother fun leaf hleaf hlacks => ?_
  exact havail leaf hleaf (hsub hlacks)

theorem exactStatus_ne_uninitialized (hempty : ∅ ∈ kept) :
    exactStatus kept leaves ≠ .uninitialized := by
  intro hstatus
  exact not_available_of_uninitialized hstatus ∅ hempty fun _ _ => Finset.notMem_empty _

end

/-! ## Normalization -/

/-- The locals of the normalization after some alternatives. -/
structure Normalization.After (alternatives : List (Finset PlaceKey)) (state : Normalization) :
    Prop where
  union : state.union = alternatives.toFinset.sup id
  widened : state.widened = true → maxInitializationAlternatives < alternatives.toFinset.card
  unique : state.widened = false → state.unique.Nodup ∧
    state.unique.length ≤ maxInitializationAlternatives ∧
    state.unique.toFinset = alternatives.toFinset

theorem Normalization.After.add {alternatives : List (Finset PlaceKey)} {state : Normalization}
    (hafter : state.After alternatives) (alternative : Finset PlaceKey) :
    (state.add alternative).After (alternatives ++ [alternative]) := by
  have hlisted : (alternatives ++ [alternative]).toFinset =
      insert alternative alternatives.toFinset := by
    rw [toFinset_append, toFinset_cons, toFinset_nil, Finset.union_comm]
    rfl
  have hunion : state.union ∪ alternative = (alternatives ++ [alternative]).toFinset.sup id := by
    rw [hlisted, Finset.sup_insert, hafter.union, Finset.union_comm]
    rfl
  rw [Normalization.add]
  by_cases hwidened : state.widened = true
  · rw [if_pos (.inl hwidened)]
    refine ⟨hunion, fun _ => ?_, fun hexact => ?_⟩
    · refine (hafter.widened hwidened).trans_le (Finset.card_le_card ?_)
      rw [hlisted]
      exact Finset.subset_insert _ _
    · exact absurd hwidened (Bool.not_eq_true _ ▸ hexact)
  obtain ⟨hnodup, hlen, hunique⟩ := hafter.unique (Bool.not_eq_true _ ▸ hwidened)
  by_cases hknown : alternative ∈ state.unique
  · rw [if_pos (.inr hknown)]
    refine ⟨hunion, fun h => absurd h hwidened, fun _ => ⟨hnodup, hlen, ?_⟩⟩
    rw [hlisted, Finset.insert_eq_self.mpr (hunique ▸ mem_toFinset.mpr hknown)]
    exact hunique
  · have hnew : (state.unique ++ [alternative]).Nodup := by
      rw [← concat_eq_append]
      exact hnodup.concat hknown
    have hfound : (state.unique ++ [alternative]).toFinset =
        (alternatives ++ [alternative]).toFinset := by
      rw [hlisted, ← hunique, toFinset_append, toFinset_cons, toFinset_nil, Finset.union_comm]
      rfl
    rw [if_neg (not_or.mpr ⟨hwidened, hknown⟩)]
    dsimp only
    split_ifs with hroom
    · refine ⟨hunion, fun _ => ?_, fun h => absurd h.symm Bool.false_ne_true⟩
      rw [← hfound, toFinset_card_of_nodup hnew]
      exact hroom
    · exact ⟨hunion, fun h => absurd h Bool.false_ne_true, fun _ => ⟨hnew, Nat.le_of_not_lt hroom, hfound⟩⟩

theorem Normalization.After.foldl_add {passed : List (Finset PlaceKey)} {state : Normalization}
    (hafter : state.After passed) (alternatives : List (Finset PlaceKey)) :
    (alternatives.foldl Normalization.add state).After (passed ++ alternatives) := by
  induction alternatives generalizing passed state with
  | nil =>
    rw [append_nil]
    exact hafter
  | cons head tail ih =>
    have hrest := ih (hafter.add head)
    rwa [append_assoc] at hrest

theorem toFinset_normalize (alternatives : List (Finset PlaceKey)) :
    (normalizeUninitializedAlternatives alternatives).toFinset = widen alternatives.toFinset := by
  have hstart : Normalization.After []
      { unique := [], union := ∅, widened := false } :=
    ⟨rfl, nofun, fun _ => ⟨nodup_nil, Nat.zero_le _, rfl⟩⟩
  have hafter := hstart.foldl_add alternatives
  rw [nil_append] at hafter
  rw [normalizeUninitializedAlternatives]
  by_cases hwidened : (alternatives.foldl Normalization.add
      { unique := [], union := ∅, widened := false }).widened = true
  · rw [if_pos hwidened, hafter.union, widen, if_neg (Nat.not_le_of_lt (hafter.widened hwidened))]
    split_ifs with hempty
    · rw [hempty]
      rfl
    · rw [toFinset_cons, toFinset_cons, toFinset_nil, insert_empty_eq]
  · obtain ⟨hnodup, hlen, hunique⟩ := hafter.unique (Bool.not_eq_true _ ▸ hwidened)
    rw [if_neg hwidened, hunique, widen_of_le]
    rw [← hunique, toFinset_card_of_nodup hnodup]
    exact hlen

theorem normalize_normalize (alternatives : List (Finset PlaceKey)) :
    normalizeUninitializedAlternatives (normalizeUninitializedAlternatives alternatives) =
      normalizeUninitializedAlternatives alternatives := by
  obtain ⟨hnodup, hbound⟩ := normalizeUninitializedAlternatives_nodup alternatives
  exact normalizeUninitializedAlternatives_of_nodup hnodup hbound

/-! ## The reported status -/

namespace FlowState

theorem mem_unavailable {flow : FlowState} {leaves : List PlaceKey}
    {alternative : Finset PlaceKey} :
    alternative ∈ flow.unavailable leaves ↔
      alternative ∈ flow.uninitialized ∧ ¬ Available leaves alternative := by
  rw [unavailable, mem_filter, Available]
  simp only [any_eq_true, decide_eq_true_eq, not_forall, not_not, exists_prop]

theorem initializationStatus_eq {flow : FlowState} (hreach : flow.reachable = true)
    (leaves : List PlaceKey) :
    flow.initializationStatus leaves = exactStatus flow.uninitialized.toFinset leaves := by
  have hnone : (flow.unavailable leaves).length = 0 ↔
      ∀ alternative ∈ flow.uninitialized.toFinset, Available leaves alternative := by
    rw [length_eq_zero_iff, eq_nil_iff_forall_not_mem]
    simp only [mem_unavailable, mem_toFinset, not_and, not_not]
  have hall : (flow.unavailable leaves).length = flow.uninitialized.length ↔
      ∀ alternative ∈ flow.uninitialized.toFinset, ¬ Available leaves alternative := by
    rw [unavailable, length_filter_eq_length_iff]
    simp only [mem_toFinset, Available, any_eq_true, decide_eq_true_eq, not_forall,
      not_not, exists_prop]
  rw [initializationStatus, if_neg (not_not.mpr hreach), exactStatus]
  simp only [hnone, hall]

/-! ## Joins -/

/-- A join has the alternatives of the reachable flows, widened if they are many. -/
theorem toFinset_join {flows : List FlowState}
    (hflows : ∀ flow ∈ flows, flow.uninitialized.toFinset.card ≤ maxInitializationAlternatives) :
    (join flows).uninitialized.toFinset =
      widen ((flows.filter (·.reachable)).flatMap (·.uninitialized)).toFinset := by
  rw [join]
  split
  · rename_i hnone
    rw [hnone]
    rfl
  · rename_i only hsingle
    have honly : only ∈ flows := (mem_filter.mp (hsingle ▸ mem_singleton_self only)).1
    rw [hsingle, flatMap_cons, flatMap_nil, append_nil]
    exact (widen_of_le (hflows only honly)).symm
  · exact toFinset_normalize _

theorem toFinset_join_perm {flows others : List FlowState} (hperm : flows.Perm others)
    (hflows : ∀ flow ∈ flows, flow.uninitialized.toFinset.card ≤ maxInitializationAlternatives) :
    (join flows).uninitialized.toFinset = (join others).uninitialized.toFinset := by
  rw [toFinset_join hflows, toFinset_join fun flow hflow => hflows flow (hperm.mem_iff.mpr hflow),
    toFinset_eq_of_perm _ _ ((hperm.filter _).flatMap_right _)]

theorem join_reachable (flows : List FlowState) :
    (join flows).reachable = true ↔ ∃ flow ∈ flows, flow.reachable = true := by
  have hmem : (∃ flow ∈ flows, flow.reachable = true) ↔ flows.filter (·.reachable) ≠ [] := by
    rw [ne_eq, filter_eq_nil_iff]
    simp only [not_forall, not_not, exists_prop]
  rw [hmem, join]
  split
  · rename_i hnone
    simp [hnone]
  · rename_i only hsingle
    have honly : only ∈ flows.filter (·.reachable) := hsingle ▸ mem_singleton_self only
    exact iff_of_true (mem_filter.mp honly).2 (hsingle ▸ cons_ne_nil _ _)
  · rename_i hnone _
    exact iff_of_true rfl hnone

/-- The flow comes from these alternatives, by normalization and by joins in any order. -/
inductive Merged : List (Finset PlaceKey) → FlowState → Prop
  | normalized (alternatives : List (Finset PlaceKey)) :
      Merged alternatives
        { reachable := true, uninitialized := normalizeUninitializedAlternatives alternatives }
  | unreachable : Merged [] { reachable := false, uninitialized := [] }
  | join {parts : List (List (Finset PlaceKey) × FlowState)}
      (hparts : ∀ part ∈ parts, Merged part.1 part.2) :
      Merged (parts.flatMap (·.1)) (join (parts.map (·.2)))

variable {alternatives : List (Finset PlaceKey)} {flow : FlowState}

theorem Merged.bounded (hmerged : Merged alternatives flow) :
    flow.uninitialized.toFinset.card ≤ maxInitializationAlternatives := by
  induction hmerged with
  | normalized alternatives =>
    rw [toFinset_normalize]
    exact card_widen_le _
  | unreachable => exact Nat.zero_le _
  | join hparts ih =>
    rw [toFinset_join]
    · exact card_widen_le _
    · intro flow hflow
      obtain ⟨part, hpart, rfl⟩ := mem_map.mp hflow
      exact ih part hpart

theorem Merged.empty_of_unreachable (hmerged : Merged alternatives flow)
    (hunreachable : flow.reachable = false) : alternatives = [] ∧ flow.uninitialized = [] := by
  induction hmerged with
  | normalized => cases hunreachable
  | unreachable => exact ⟨rfl, rfl⟩
  | @join parts hparts ih =>
    have hnone : ∀ part ∈ parts, part.2.reachable = false := by
      intro part hpart
      by_contra hreach
      have hjoined := (join_reachable (parts.map (·.2))).mpr
        ⟨part.2, mem_map_of_mem hpart, Bool.not_eq_false _ ▸ hreach⟩
      rw [hunreachable] at hjoined
      cases hjoined
    constructor
    · rw [flatMap_eq_nil_iff]
      exact fun part hpart => (ih part hpart (hnone part hpart)).1
    · have hfilter : (parts.map (·.2)).filter (·.reachable) = [] := by
        rw [filter_eq_nil_iff]
        intro flow hflow
        obtain ⟨part, hpart, rfl⟩ := mem_map.mp hflow
        exact Bool.not_eq_true _ ▸ hnone part hpart
      rw [FlowState.join, hfilter]

/-- A join of merged flows has all their alternatives, widened if they are many. -/
theorem toFinset_join_merged {parts : List (List (Finset PlaceKey) × FlowState)}
    (hparts : ∀ part ∈ parts, Merged part.1 part.2) :
    (join (parts.map (·.2))).uninitialized.toFinset =
      widen (parts.flatMap (·.2.uninitialized)).toFinset := by
  have hsame : (((parts.map (·.2)).filter (·.reachable)).flatMap (·.uninitialized)).toFinset =
      (parts.flatMap (·.2.uninitialized)).toFinset := by
    ext alternative
    simp only [mem_toFinset, mem_flatMap, mem_filter, mem_map]
    constructor
    · rintro ⟨_, ⟨⟨part, hpart, rfl⟩, _⟩, hmem⟩
      exact ⟨part, hpart, hmem⟩
    · rintro ⟨part, hpart, hmem⟩
      refine ⟨part.2, ⟨⟨part, hpart, rfl⟩, ?_⟩, hmem⟩
      by_contra hunreachable
      have hempty := (hparts part hpart).empty_of_unreachable (Bool.not_eq_true _ ▸ hunreachable)
      rw [hempty.2] at hmem
      cases hmem
  rw [toFinset_join, hsame]
  intro flow hflow
  obtain ⟨part, hpart, rfl⟩ := mem_map.mp hflow
  exact (hparts part hpart).bounded

theorem Merged.covers (hmerged : Merged alternatives flow) :
    Covers flow.uninitialized.toFinset alternatives.toFinset := by
  induction hmerged with
  | normalized alternatives =>
    rw [toFinset_normalize]
    exact covers_widen _
  | unreachable => exact .refl _
  | @join parts hparts ih =>
    rw [toFinset_join_merged hparts]
    refine (covers_widen _).trans ⟨?_, ?_⟩
    · intro alternative hmem leaf hleaf
      obtain ⟨part, hpart, hlisted⟩ := mem_flatMap.mp (mem_toFinset.mp hmem)
      obtain ⟨other, hother, hlacked⟩ :=
        (ih part hpart).lacked alternative (mem_toFinset.mpr hlisted) leaf hleaf
      refine ⟨other, mem_toFinset.mpr (mem_flatMap.mpr ⟨part, hpart, ?_⟩), hlacked⟩
      exact mem_toFinset.mp hother
    · intro alternative hmem
      obtain ⟨part, hpart, hlisted⟩ := mem_flatMap.mp (mem_toFinset.mp hmem)
      obtain ⟨other, hother, hsub⟩ := (ih part hpart).held alternative (mem_toFinset.mpr hlisted)
      refine ⟨other, mem_toFinset.mpr (mem_flatMap.mpr ⟨part, hpart, ?_⟩), hsub⟩
      exact mem_toFinset.mp hother

theorem toFinset_parts {parts : List (List (Finset PlaceKey) × FlowState)}
    (hexact : ∀ part ∈ parts, part.2.uninitialized.toFinset = part.1.toFinset) :
    (parts.flatMap (·.2.uninitialized)).toFinset = (parts.flatMap (·.1)).toFinset := by
  ext alternative
  simp only [mem_toFinset, mem_flatMap]
  refine exists_congr fun part => and_congr_right fun hmem => ?_
  rw [← mem_toFinset, hexact part hmem, mem_toFinset]

theorem Merged.exact (hmerged : Merged alternatives flow)
    (hfew : alternatives.toFinset.card ≤ maxInitializationAlternatives) :
    flow.uninitialized.toFinset = alternatives.toFinset := by
  induction hmerged with
  | normalized alternatives => rw [toFinset_normalize, widen_of_le hfew]
  | unreachable => rfl
  | @join parts hparts ih =>
    have hpart : ∀ part ∈ parts, part.2.uninitialized.toFinset = part.1.toFinset := by
      intro part hpart
      refine ih part hpart (le_trans (Finset.card_le_card ?_) hfew)
      intro alternative hmem
      rw [mem_toFinset] at hmem ⊢
      exact mem_flatMap.mpr ⟨part, hpart, hmem⟩
    rw [toFinset_join_merged hparts, toFinset_parts hpart, widen_of_le hfew]

theorem Merged.empty_mem (hmerged : Merged alternatives flow)
    (hmany : maxInitializationAlternatives < alternatives.toFinset.card) :
    ∅ ∈ flow.uninitialized.toFinset := by
  induction hmerged with
  | normalized alternatives =>
    rw [toFinset_normalize]
    exact empty_mem_widen hmany
  | unreachable => cases hmany
  | @join parts hparts ih =>
    rw [toFinset_join_merged hparts]
    by_cases hwidened : ∃ part ∈ parts, maxInitializationAlternatives < part.1.toFinset.card
    · obtain ⟨part, hpart, hcard⟩ := hwidened
      have hempty : ∅ ∈ (parts.flatMap (·.2.uninitialized)).toFinset :=
        mem_toFinset.mpr (mem_flatMap.mpr
          ⟨part, hpart, mem_toFinset.mp (ih part hpart hcard)⟩)
      rw [widen]
      split_ifs
      · exact hempty
      · exact Finset.mem_insert_self _ _
    · rw [toFinset_parts fun part hpart => (hparts part hpart).exact
        (Nat.le_of_not_lt fun hcard => hwidened ⟨part, hpart, hcard⟩)]
      exact empty_mem_widen hmany

/-- An unreachable flow has no alternative, and reports that all is initialized. -/
theorem Merged.initializationStatus_eq (hmerged : Merged alternatives flow)
    (leaves : List PlaceKey) :
    flow.initializationStatus leaves = exactStatus flow.uninitialized.toFinset leaves := by
  cases hreach : flow.reachable with
  | true => exact FlowState.initializationStatus_eq hreach leaves
  | false =>
    rw [initializationStatus, if_pos (by rw [hreach]; decide),
      (hmerged.empty_of_unreachable hreach).2]
    exact (if_pos fun _ hmem => absurd hmem (Finset.notMem_empty _)).symm

/-- Normalization and each join do not depend on the order of what they are given. The status is
exact while there are few alternatives, however the joins are nested, and it never hides that an
alternative lacks a leaf, or that one lacks none. -/
theorem normalization_and_joins_sound :
    (∀ alternatives, normalizeUninitializedAlternatives
        (normalizeUninitializedAlternatives alternatives) =
          normalizeUninitializedAlternatives alternatives) ∧
      (∀ alternatives others : List (Finset PlaceKey), alternatives.toFinset = others.toFinset →
          (normalizeUninitializedAlternatives alternatives).toFinset =
            (normalizeUninitializedAlternatives others).toFinset) ∧
      (∀ parts others : List (List (Finset PlaceKey) × FlowState), parts.Perm others →
        (∀ part ∈ parts, Merged part.1 part.2) → (join (parts.map (·.2))).uninitialized.toFinset =
            (join (others.map (·.2))).uninitialized.toFinset) ∧
      (∀ alternatives flow, Merged alternatives flow → ∀ leaves,
        (alternatives.toFinset.card ≤ maxInitializationAlternatives →
          flow.uninitialized.toFinset = alternatives.toFinset ∧
            flow.initializationStatus leaves = exactStatus alternatives.toFinset leaves) ∧
        (flow.initializationStatus leaves = .initialized →
          ∀ alternative ∈ alternatives, Available leaves alternative) ∧
        (flow.initializationStatus leaves = .uninitialized →
          ∀ alternative ∈ alternatives, ¬ Available leaves alternative) ∧
        (maxInitializationAlternatives < alternatives.toFinset.card →
          flow.initializationStatus leaves ≠ .uninitialized)) := by
  refine ⟨normalize_normalize, ?_, ?_, ?_⟩
  · intro alternatives others hsame
    rw [toFinset_normalize, toFinset_normalize, hsame]
  · intro parts others hperm hparts
    refine toFinset_join_perm (hperm.map _) fun flow hflow => ?_
    obtain ⟨part, hpart, rfl⟩ := mem_map.mp hflow
    exact (hparts part hpart).bounded
  · intro alternatives flow hmerged leaves
    rw [hmerged.initializationStatus_eq]
    refine ⟨fun hfew => ?_, fun hstatus => ?_, fun hstatus => ?_, fun hmany => ?_⟩
    · rw [hmerged.exact hfew]
      exact ⟨rfl, rfl⟩
    · have havail := hmerged.covers.available hstatus
      simpa only [mem_toFinset] using havail
    · have hlacks := hmerged.covers.not_available hstatus
      simpa only [mem_toFinset] using hlacks
    · exact exactStatus_ne_uninitialized (hmerged.empty_mem hmany)

/-! ## Successive joins -/

theorem toFinset_join_pair {first second : FlowState} (hfst : first.reachable = true)
    (hsnd : second.reachable = true)
    (hboth : ∀ flow ∈ [first, second],
      flow.uninitialized.toFinset.card ≤ maxInitializationAlternatives) :
    (join [first, second]).uninitialized.toFinset =
      widen (first.uninitialized.toFinset ∪ second.uninitialized.toFinset) := by
  rw [toFinset_join hboth, filter_cons_of_pos hfst, filter_cons_of_pos hsnd,
    filter_nil, flatMap_cons, flatMap_cons, flatMap_nil, append_nil,
    toFinset_append]

namespace Successive

def single (number : Nat) : Finset PlaceKey := {⟨number, []⟩}

theorem single_injective : Function.Injective single := by
  intro first second hsame
  exact congrArg PlaceKey.localId (Finset.singleton_injective hsame)

/-- One of the locals from the first to the last is uninitialized. -/
def flowBetween (first count : Nat) : FlowState :=
  { reachable := true, uninitialized := (List.range' first count).map single }

theorem mem_flowBetween {first count : Nat} {alternative : Finset PlaceKey} :
    alternative ∈ (flowBetween first count).uninitialized.toFinset ↔
      ∃ num, first ≤ num ∧ num < first + count ∧ single num = alternative := by
  simp only [flowBetween, mem_toFinset, mem_map, mem_range'_1, and_assoc]

theorem card_flowBetween (first count : Nat) :
    (flowBetween first count).uninitialized.toFinset.card = count := by
  have hnodup : ((range' first count).map single).Nodup := (nodup_range').map single_injective
  rw [flowBetween, toFinset_card_of_nodup hnodup, length_map, length_range']

/-- The flow of 64 alternatives and one more, joined. -/
def widened (number : Nat) : FlowState := join [flowBetween 0 64, flowBetween number 1]

theorem toFinset_widened {num : Nat} (hlarge : 64 ≤ num) :
    ∃ union, single 0 ⊆ union ∧ (widened num).uninitialized.toFinset = {∅, union} := by
  have hfew : ∀ flow ∈ [flowBetween 0 64, flowBetween num 1],
      flow.uninitialized.toFinset.card ≤ maxInitializationAlternatives := by
    simp only [forall_mem_cons, card_flowBetween, not_mem_nil, false_imp_iff,
      implies_true, and_true]
    decide
  have hdisj : Disjoint (flowBetween 0 64).uninitialized.toFinset
      (flowBetween num 1).uninitialized.toFinset := by
    rw [Finset.disjoint_left]
    intro alternative hfst hsnd
    obtain ⟨low, _, hlow, rfl⟩ := mem_flowBetween.mp hfst
    obtain ⟨high, hhigh, _, hsame⟩ := mem_flowBetween.mp hsnd
    have hequal := single_injective hsame
    omega
  rw [widened, toFinset_join_pair rfl rfl hfew, widen, if_neg]
  · refine ⟨_, ?_, rfl⟩
    refine Finset.le_sup (f := id) (Finset.mem_union_left _ (mem_flowBetween.mpr ?_))
    exact ⟨0, Nat.le_refl 0, by decide, rfl⟩
  · rw [Finset.card_union_of_disjoint hdisj, card_flowBetween, card_flowBetween]
    decide

theorem toFinset_join_widened {num : Nat} (hlarge : 64 ≤ num) (last : Nat) :
    ∃ union, single 0 ⊆ union ∧ (join [widened num, flowBetween last 1]).uninitialized.toFinset =
        {∅, union, single last} := by
  obtain ⟨union, hzero, hwidened⟩ := toFinset_widened hlarge
  have hlast : (flowBetween last 1).uninitialized.toFinset = {single last} := rfl
  have hfew : ∀ flow ∈ [widened num, flowBetween last 1],
      flow.uninitialized.toFinset.card ≤ maxInitializationAlternatives := by
    simp only [forall_mem_cons, hwidened, card_flowBetween, not_mem_nil, false_imp_iff,
      implies_true, and_true]
    exact ⟨Finset.card_le_two.trans (by decide), by decide⟩
  refine ⟨union, hzero, ?_⟩
  rw [toFinset_join_pair rfl rfl hfew, hwidened, hlast, Finset.insert_union, ← Finset.insert_eq,
    widen_of_le]
  exact Finset.card_le_three.trans (by decide)

end Successive

open Successive

/-- The alternatives differ when 64 of them are joined with a first one and then with a second one,
and when they are joined with the second one first. -/
theorem toFinset_join_successive_ne :
    (join [join [flowBetween 0 64, flowBetween 64 1], flowBetween 65 1]).uninitialized.toFinset ≠
      (join [join [flowBetween 0 64, flowBetween 65 1],
        flowBetween 64 1]).uninitialized.toFinset := by
  obtain ⟨first, _, hfst⟩ := toFinset_join_widened (show 64 ≤ 64 by decide) 65
  obtain ⟨second, hzero, hsnd⟩ := toFinset_join_widened (show 64 ≤ 65 by decide) 64
  rw [widened] at hfst hsnd
  rw [hfst, hsnd]
  intro hsame
  have hmem : single 65 ∈ ({∅, second, single 64} : Finset (Finset PlaceKey)) := by
    rw [← hsame]
    simp only [Finset.mem_insert, Finset.mem_singleton, or_true]
  simp only [Finset.mem_insert, Finset.mem_singleton] at hmem
  rcases hmem with hempty | hunion | hother
  · exact Finset.singleton_ne_empty _ hempty
  · have hleaf : (⟨0, []⟩ : PlaceKey) ∈ single 65 := by
      rw [hunion]
      exact hzero (Finset.mem_singleton_self _)
    exact absurd (Finset.mem_singleton.mp hleaf) (by decide)
  · exact absurd (single_injective hother) (by decide)

end FlowState

end Salicin.Codegen
