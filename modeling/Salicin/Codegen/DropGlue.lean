import Salicin.Codegen.DropSlots
import Salicin.Codegen.LeafPaths
import Mathlib.Data.List.Pairwise

/-!
# Drop leaves and slot trees

The drop glue of a type visits its *drop leaves*, each once. The slot tree of a local has
one slot for each part on the way to a drop leaf; a slot's conditional drop reads and
clears flags of its own part only, and drops what the flags below it say is there.
-/

namespace Salicin.Codegen

open List PrefixPath LocalAction

variable {layouts : Layouts}

theorem dropGlue_eq (ty : Ty) (path : List Nat) :
    dropGlue layouts ty path = if ¬ layouts.needsDrop ty then []
      else if dropsAsUnit layouts ty then [path]
      else (layouts.dropChildren ty).flatMap fun child =>
        dropGlue layouts child.2 (path ++ [child.1]) := by
  rw [dropGlue]
  simp only [flatMap_subtype, unattach_attach]

variable {path leaf : List Nat} {ty : Ty}

theorem mem_dropGlue :
    leaf ∈ dropGlue layouts ty path ↔ layouts.needsDrop ty ∧
      (dropsAsUnit layouts ty ∧ leaf = path ∨ ¬ dropsAsUnit layouts ty ∧
        ∃ child ∈ layouts.dropChildren ty,
          leaf ∈ dropGlue layouts child.2 (path ++ [child.1])) := by
  rw [dropGlue_eq]
  by_cases hneeds : layouts.needsDrop ty
  · by_cases hunit : dropsAsUnit layouts ty
    · simp [hneeds, hunit]
    · simp [hneeds, hunit, mem_flatMap]
  · simp [hneeds]

theorem isPrefix_of_mem_dropGlue (hleaf : leaf ∈ dropGlue layouts ty path) : path <+: leaf := by
  induction ty using layouts.finite.induction generalizing path with
  | _ ty ih =>
  obtain ⟨_, ⟨_, rfl⟩ | ⟨_, child, hchild, hleaf⟩⟩ := mem_dropGlue.mp hleaf
  · exact prefix_refl _
  · exact (prefix_append _ _).trans (ih child.2 (layouts.contains_of_mem_dropChildren hchild) hleaf)

/-- Children are reached by the projection of their index, except captures, which no place
can select. -/
theorem project_of_mem_dropChildren {child : Nat × Ty} (hchild : child ∈ layouts.dropChildren ty) :
    layouts.project ty child.1 = some child.2 ∨ ∃ captures, ty = .callable captures := by
  unfold Layouts.dropChildren at hchild
  split at hchild
  · obtain ⟨⟨field, index⟩, hfield, rfl⟩ := mem_map.mp hchild
    exact .inl (mem_zipIdx_iff_getElem?.mp (mem_of_mem_filter hfield))
  · obtain ⟨index, hidx, rfl⟩ := mem_map.mp hchild
    exact .inl (if_pos (mem_range.mp hidx))
  · split at hchild
    next layout hlayout =>
      obtain ⟨⟨field, index⟩, hfield, rfl⟩ := mem_map.mp hchild
      have hget := mem_zipIdx_iff_getElem?.mp (mem_of_mem_filter hfield)
      exact .inl (by simp only [Layouts.project, hlayout, Option.bind_some, hget, Option.map_some])
    · contradiction
  · exact .inr ⟨_, rfl⟩
  · contradiction

theorem project_eq_of_mem_dropChildren {part : Ty} {child : Nat × Ty}
    (hchild : child ∈ layouts.dropChildren ty) (hpart : layouts.project ty child.1 = some part) :
    child.2 = part := by
  rcases project_of_mem_dropChildren hchild with hproject | ⟨captures, rfl⟩
  · exact Option.some.inj (hproject.symm.trans hpart)
  · exact nomatch hpart

theorem zipIdx_filter_pairwise_snd_ne {α : Type*} (items : List α) (keep : α × Nat → Bool) :
    (items.zipIdx.filter keep).Pairwise fun first second => first.2 ≠ second.2 := by
  refine List.Pairwise.filter _ ?_
  have hnodup : (items.zipIdx.map Prod.snd).Nodup := by
    rw [zipIdx_map_snd]
    exact nodup_range'
  exact pairwise_map.mp hnodup

theorem dropChildren_pairwise (ty : Ty) :
    (layouts.dropChildren ty).Pairwise fun first second => first.1 ≠ second.1 := by
  unfold Layouts.dropChildren
  split
  · exact pairwise_map.mpr (zipIdx_filter_pairwise_snd_ne _ _)
  · exact pairwise_map.mpr nodup_range
  · split
    · exact pairwise_map.mpr (zipIdx_filter_pairwise_snd_ne _ _)
    · exact List.Pairwise.nil
  · exact pairwise_map.mpr (zipIdx_filter_pairwise_snd_ne _ _)
  · exact List.Pairwise.nil

theorem dropChildren_unique (ty : Ty) {first second : Nat × Ty}
    (hfst : first ∈ layouts.dropChildren ty) (hsnd : second ∈ layouts.dropChildren ty)
    (hidx : first.1 = second.1) : first = second := by
  have hsymm : Std.Symm fun first second : Nat × Ty => first.1 ≠ second.1 := ⟨fun _ _ => Ne.symm⟩
  by_contra hne
  exact (dropChildren_pairwise ty).forall hfst hsnd hne hidx

theorem child_eq_of_isPrefix {i j : Nat} (hi : path ++ [i] <+: leaf) (hj : path ++ [j] <+: leaf) :
    i = j := by
  by_contra hne
  exact not_overlaps_of_ne hne path [] [] (overlaps_of_isPrefix_of_isPrefix hi hj)

theorem dropGlue_nodup (ty : Ty) (path : List Nat) : (dropGlue layouts ty path).Nodup := by
  induction ty using layouts.finite.induction generalizing path with
  | _ ty ih =>
  rw [dropGlue_eq]
  split
  · exact nodup_nil
  · split
    · exact nodup_singleton _
    · rw [nodup_flatMap]
      refine ⟨fun child hchild => ih _ (layouts.contains_of_mem_dropChildren hchild) _, ?_⟩
      refine (dropChildren_pairwise ty).imp fun hne => ?_
      intro leaf hfst hsnd
      exact hne (child_eq_of_isPrefix (isPrefix_of_mem_dropGlue hfst)
        (isPrefix_of_mem_dropGlue hsnd))

theorem dropGlue_append (ty : Ty) (first second : List Nat) :
    dropGlue layouts ty (first ++ second) =
      (dropGlue layouts ty second).map fun leaf => first ++ leaf := by
  induction ty using layouts.finite.induction generalizing second with
  | _ ty ih =>
  rw [dropGlue_eq, dropGlue_eq]
  split
  · rfl
  · split
    · rfl
    · rw [map_flatMap]
      refine flatMap_congr fun child hchild => ?_
      rw [append_assoc, ih child.2 (layouts.contains_of_mem_dropChildren hchild)]

/-- Every drop leaf meets the expansion of the value it is a part of. -/
theorem exists_leafPath_overlaps {rest : List Nat}
    (hleaf : path ++ rest ∈ dropGlue layouts ty path) :
    ∃ leaf ∈ layouts.leafPaths ty, Overlaps leaf rest := by
  induction ty using layouts.finite.induction generalizing path rest with
  | _ ty ih =>
  by_cases hopaque : layouts.Opaque ty
  · exact ⟨[], layouts.nil_mem_leafPaths.mpr hopaque, overlaps_nil _⟩
  obtain ⟨_, ⟨_, heq⟩ | ⟨_, child, hchild, hleaf⟩⟩ := mem_dropGlue.mp hleaf
  · obtain rfl : rest = [] := by simpa using heq
    obtain ⟨leaf, hmem⟩ := layouts.exists_mem_leafPaths ty
    exact ⟨leaf, hmem, (overlaps_nil leaf).symm⟩
  · obtain ⟨tail, htail⟩ := isPrefix_of_mem_dropGlue hleaf
    obtain rfl : child.1 :: tail = rest := by simpa using htail
    have hproject : layouts.project ty child.1 = some child.2 := by
      refine (project_of_mem_dropChildren hchild).resolve_right ?_
      rintro ⟨captures, rfl⟩
      exact hopaque (.inr fun _ => rfl)
    rw [← htail] at hleaf
    obtain ⟨leaf, hmem, hover⟩ := ih child.2 (layouts.contains_of_mem_dropChildren hchild) hleaf
    refine ⟨child.1 :: leaf, layouts.cons_mem_leafPaths.mpr ⟨?_, child.2, hproject, hmem⟩, ?_⟩
    · exact fun fields hty => hopaque (.inl ⟨fields, hty⟩)
    · exact hover.imp (cons_prefix_cons.mpr ⟨rfl, ·⟩) (cons_prefix_cons.mpr ⟨rfl, ·⟩)

/-- A drop leaf of the whole below a place is a drop leaf of the place. -/
theorem mem_dropGlue_of_isPrefix {part : Ty} {rest : List Nat}
    (hpart : layouts.typeAt ty rest = some part) (hleaf : leaf ∈ dropGlue layouts ty path)
    (hpath : path ++ rest <+: leaf) : leaf ∈ dropGlue layouts part (path ++ rest) := by
  induction rest generalizing ty path with
  | nil =>
    cases hpart
    simpa using hleaf
  | cons index rest ih =>
    obtain ⟨next, hnext, hpart⟩ := Option.bind_eq_some_iff.mp hpart
    rw [append_cons] at hpath ⊢
    obtain ⟨_, ⟨_, rfl⟩ | ⟨_, child, hchild, hleaf⟩⟩ := mem_dropGlue.mp hleaf
    · have := hpath.length_le
      simp only [length_append, length_cons] at this
      omega
    · obtain rfl : child.1 = index := child_eq_of_isPrefix (isPrefix_of_mem_dropGlue hleaf)
        ((prefix_append _ _).trans hpath)
      obtain rfl := project_eq_of_mem_dropChildren hchild hnext
      exact ih hpart hleaf hpath

/-- `projected_place_crosses_custom_drop`: the path selects a part of a value that has a
user destructor. -/
def crossesCustomDrop (layouts : Layouts) (ty : Ty) : List Nat → Bool
  | [] => false
  | index :: rest =>
    layouts.hasDropMethod ty ||
      match layouts.project ty index with
      | some part => crossesCustomDrop layouts part rest
      | none => false

/-- A place that crosses no user destructor does not lie strictly inside a drop leaf. -/
theorem eq_of_mem_dropGlue_of_isPrefix {part : Ty} (path : List Nat) {rest : List Nat}
    (hpart : layouts.typeAt ty rest = some part)
    (hcross : crossesCustomDrop layouts ty rest = false) (hleaf : leaf ∈ dropGlue layouts ty path)
    (hpath : leaf <+: path ++ rest) :
    leaf = path ++ rest := by
  induction rest generalizing ty path with
  | nil =>
    rw [append_nil] at hpath ⊢
    exact hpath.eq_of_length_le (isPrefix_of_mem_dropGlue hleaf).length_le
  | cons index rest ih =>
    obtain ⟨next, hnext, hpart⟩ := Option.bind_eq_some_iff.mp hpart
    simp only [crossesCustomDrop, hnext, Bool.or_eq_false_iff] at hcross
    rw [append_cons] at hpath ⊢
    obtain ⟨_, ⟨hunit, rfl⟩ | ⟨_, child, hchild, hleaf⟩⟩ := mem_dropGlue.mp hleaf
    · exfalso
      simp only [dropsAsUnit, hcross.1, Bool.false_or] at hunit
      split at hunit
      iterate 3 exact nomatch hnext
      · contradiction
    · obtain rfl : child.1 = index := child_eq_of_isPrefix
        ((isPrefix_of_mem_dropGlue hleaf).trans hpath) (prefix_append _ _)
      obtain rfl := project_eq_of_mem_dropChildren hchild hnext
      exact ih (path ++ [child.1]) hpart hcross.2 hleaf hpath

end Salicin.Codegen
