import Salicin.Codegen.Places

/-!
# What a place expands to

Over finite layouts the set of structs being expanded never stops the expansion, so the
leaf keys of a place are the place extended by the *leaf paths* of its type. A projection
path continues into leaf paths exactly as long as it crosses no tuple.
-/

namespace Salicin.Codegen

open List PrefixPath

theorem flatMap_attach_zipIdx {α β : Type*} (items : List α) (f : α → Nat → List β) :
    (items.attach.zipIdx.flatMap fun (item, index) => f item.1 index) =
      items.zipIdx.flatMap fun (item, index) => f item index := by
  conv_rhs => rw [← attach_map_subtype_val items, zipIdx_map, flatMap_map]
  rfl

namespace Layouts

variable (layouts : Layouts)

/-- The paths at which the expansion of a value of the type stops. -/
def leafPaths (ty : Ty) : List (List Nat) :=
  match ty with
  | .array element length =>
    if length = 0 then [[]]
    else (List.range length).flatMap fun index =>
      (leafPaths element).map (index :: ·)
  | .struct name =>
    match _hlayout : layouts.structLayout name with
    | none => [[]]
    | some layout =>
      if layout.fields.isEmpty then [[]]
      else layout.fields.attach.zipIdx.flatMap fun (field, index) =>
        (leafPaths field.1.ty).map (index :: ·)
  | _ => [[]]
termination_by layouts.finite.wrap ty
decreasing_by
  · exact layouts.contains_array _ _
  · exact layouts.contains_struct _hlayout field.2

theorem leafPaths_array (elem : Ty) (len : Nat) :
    layouts.leafPaths (.array elem len) = if len = 0 then [[]]
      else (List.range len).flatMap fun i =>
        (layouts.leafPaths elem).map (i :: ·) := by
  rw [leafPaths]

theorem leafPaths_struct_none {name : String} (hlayout : layouts.structLayout name = none) :
    layouts.leafPaths (.struct name) = [[]] := by
  rw [leafPaths]
  split
  · rfl
  next layout hsome => rw [hlayout] at hsome; contradiction

theorem leafPaths_struct {name : String} {layout : StructLayout}
    (hlayout : layouts.structLayout name = some layout) :
    layouts.leafPaths (.struct name) = if layout.fields.isEmpty then [[]]
      else layout.fields.zipIdx.flatMap fun (field, i) =>
        (layouts.leafPaths field.ty).map (i :: ·) := by
  rw [leafPaths]
  split
  next hnone => rw [hlayout] at hnone; contradiction
  next found hfound =>
    obtain rfl := Option.some.inj (hfound.symm.trans hlayout)
    rw [← flatMap_attach_zipIdx found.fields
      fun field i => (layouts.leafPaths field.ty).map (i :: ·)]

/-- The expansion stops at a value of the type. -/
def Opaque (ty : Ty) : Prop :=
  (∃ fields, ty = .tuple fields) ∨ ∀ index, layouts.project ty index = none

theorem nil_mem_leafPaths {ty : Ty} : [] ∈ layouts.leafPaths ty ↔ layouts.Opaque ty := by
  cases ty with
  | array elem len =>
    rw [leafPaths_array]
    by_cases hzero : len = 0
    · simp [hzero, Opaque, project]
    · simp only [hzero, if_false, Opaque, project, mem_flatMap, mem_map]
      simp only [reduceCtorEq, and_false, exists_false, false_or, false_iff, not_forall]
      exact ⟨0, by simp [Nat.pos_of_ne_zero hzero]⟩
  | struct name =>
    cases hlayout : layouts.structLayout name with
    | none => simp [leafPaths_struct_none layouts hlayout, Opaque, project, hlayout]
    | some layout =>
      rw [leafPaths_struct layouts hlayout]
      cases hfields : layout.fields with
      | nil => simp [Opaque, project, hlayout, hfields]
      | cons field rest =>
        simp only [isEmpty_cons, Bool.false_eq_true, if_false, Opaque, project,
          hlayout, Option.bind_some, hfields, mem_flatMap, mem_map]
        simp only [reduceCtorEq, and_false, exists_false, false_or, false_iff, not_forall]
        exact ⟨0, by simp⟩
  | _ => simp [leafPaths, Opaque, project]

theorem cons_mem_leafPaths {ty : Ty} {i : Nat} {rest : List Nat} :
    i :: rest ∈ layouts.leafPaths ty ↔ (∀ fields, ty ≠ .tuple fields) ∧
        ∃ part, layouts.project ty i = some part ∧ rest ∈ layouts.leafPaths part := by
  cases ty with
  | array elem len =>
    rw [leafPaths_array]
    by_cases hzero : len = 0
    · simp [hzero, project]
    · simp [hzero, project, mem_flatMap, and_assoc]
  | struct name =>
    cases hlayout : layouts.structLayout name with
    | none => simp [leafPaths_struct_none layouts hlayout, project, hlayout]
    | some layout =>
      rw [leafPaths_struct layouts hlayout]
      cases hfields : layout.fields with
      | nil => simp [project, hlayout, hfields]
      | cons field fields =>
        simp only [isEmpty_cons, Bool.false_eq_true, if_false, project, hlayout,
          Option.bind_some, hfields, mem_flatMap, mem_map, Prod.exists,
          mem_zipIdx_iff_getElem?, cons.injEq, ne_eq, reduceCtorEq,
          not_false_eq_true, implies_true, true_and, Option.map_eq_some_iff]
        constructor
        · rintro ⟨found, pos, hfound, _, hrest, rfl, rfl⟩
          exact ⟨_, ⟨found, hfound, rfl⟩, hrest⟩
        · rintro ⟨_, ⟨found, hfound, rfl⟩, hrest⟩
          exact ⟨found, i, hfound, _, hrest, rfl, rfl⟩
  | _ => simp [leafPaths, project]

theorem exists_mem_leafPaths (ty : Ty) : ∃ path, path ∈ layouts.leafPaths ty := by
  induction ty using layouts.finite.induction with
  | _ ty ih =>
  by_cases hopaque : layouts.Opaque ty
  · exact ⟨[], layouts.nil_mem_leafPaths.mpr hopaque⟩
  · simp only [Opaque, not_or, not_exists, not_forall] at hopaque
    obtain ⟨htuple, i, hidx⟩ := hopaque
    obtain ⟨part, hpart⟩ := Option.ne_none_iff_exists'.mp hidx
    obtain ⟨rest, hrest⟩ := ih part (layouts.project_contains hpart)
    exact ⟨i :: rest, layouts.cons_mem_leafPaths.mpr ⟨htuple, part, hpart, hrest⟩⟩

/-- Some step of the path selects a component of a tuple. -/
def CrossesTuple (ty : Ty) : List Nat → Prop
  | [] => False
  | index :: rest =>
    (∃ fields, ty = .tuple fields) ∨
      ∃ part, layouts.project ty index = some part ∧ CrossesTuple part rest

/-- Below a place that is reached without crossing a tuple, the expansion of the whole and
the expansion of the part agree. -/
theorem append_mem_leafPaths {ty part : Ty} {path : List Nat}
    (hpart : layouts.typeAt ty path = some part) (hcross : ¬ layouts.CrossesTuple ty path)
    (rest : List Nat) : path ++ rest ∈ layouts.leafPaths ty ↔ rest ∈ layouts.leafPaths part := by
  induction path generalizing ty with
  | nil => obtain rfl := Option.some.inj hpart; rfl
  | cons i path ih =>
    obtain ⟨next, hnext, hpart⟩ := Option.bind_eq_some_iff.mp hpart
    simp only [CrossesTuple, not_or, not_exists, not_and] at hcross
    rw [cons_append, cons_mem_leafPaths]
    constructor
    · rintro ⟨_, found, hfound, hrest⟩
      cases hnext.symm.trans hfound
      exact (ih hpart (hcross.2 next hnext)).mp hrest
    · intro hrest
      exact ⟨hcross.1, next, hnext, (ih hpart (hcross.2 next hnext)).mpr hrest⟩

theorem not_mem_leafPaths_of_crossesTuple {ty : Ty} {path : List Nat}
    (hcross : layouts.CrossesTuple ty path) (rest : List Nat) :
    path ++ rest ∉ layouts.leafPaths ty := by
  induction path generalizing ty with
  | nil => exact hcross.elim
  | cons i path ih =>
    rw [cons_append, cons_mem_leafPaths]
    rintro ⟨htuple, part, hpart, hrest⟩
    rcases hcross with ⟨fields, rfl⟩ | ⟨found, hfound, hcross⟩
    · exact htuple fields rfl
    · cases hpart.symm.trans hfound
      exact ih hcross hrest

theorem crossesTuple_append {ty part : Ty} {first second : List Nat}
    (hpart : layouts.typeAt ty first = some part) :
    layouts.CrossesTuple ty (first ++ second) ↔
      layouts.CrossesTuple ty first ∨ layouts.CrossesTuple part second := by
  induction first generalizing ty with
  | nil =>
    cases hpart
    simp [CrossesTuple]
  | cons i first ih =>
    obtain ⟨next, hnext, hpart⟩ := Option.bind_eq_some_iff.mp hpart
    simp only [cons_append, CrossesTuple, hnext, Option.some.injEq, exists_eq_left', ih hpart,
      or_assoc]

theorem appendLeafKeys_eq_map (ty : Ty) (key : PlaceKey) (visiting : Finset String)
    (hvisiting : ∀ name ∈ visiting, Relation.TransGen layouts.Contains ty (.struct name)) :
    appendLeafKeys layouts key ty visiting = (layouts.leafPaths ty).map key.extend := by
  induction ty using layouts.finite.induction generalizing key visiting with
  | _ ty ih =>
  unfold appendLeafKeys
  split
  next elem len =>
    have hsub : layouts.Contains elem (.array elem len) := layouts.contains_array elem len
    have helem (i : Nat) := ih elem hsub (key.extend [i]) visiting
      fun name hname => .head hsub (hvisiting name hname)
    rw [leafPaths_array]
    by_cases hzero : len = 0
    · simp [hzero]
    · simp only [hzero, if_false, map_flatMap, helem, map_map, Function.comp_def,
        PlaceKey.extend_singleton_extend]
  next name =>
    have hnew : name ∉ visiting := fun hmem =>
      layouts.not_containsTrans_self _ (hvisiting name hmem)
    rw [if_neg hnew]
    split
    next hlayout => simp [leafPaths_struct_none layouts hlayout]
    next layout hlayout =>
      have hfield (field : { field // field ∈ layout.fields }) (i : Nat) :
          appendLeafKeys layouts (key.extend [i]) field.1.ty (insert name visiting) =
            (layouts.leafPaths field.1.ty).map (key.extend [i]).extend := by
        have hsub := layouts.contains_struct hlayout field.2
        refine ih _ hsub _ _ fun visited hvisited => ?_
        rcases Finset.mem_insert.mp hvisited with rfl | hvisited
        · exact .single hsub
        · exact .head hsub (hvisiting visited hvisited)
      rw [leafPaths_struct layouts hlayout]
      by_cases hempty : layout.fields.isEmpty
      · simp [hempty]
      · rw [if_neg hempty, if_neg hempty, map_flatMap,
          ← flatMap_attach_zipIdx layout.fields fun field i =>
            ((layouts.leafPaths field.ty).map (i :: ·)).map key.extend]
        simp only [hfield, map_map, Function.comp_def, PlaceKey.extend_singleton_extend]
  next hstruct harray =>
    cases ty with
    | array elem len => exact absurd rfl (hstruct elem len)
    | struct name => exact absurd rfl (harray name)
    | _ => simp [leafPaths]

end Layouts

variable {layouts : Layouts}

/-- The leaf keys of a place are the place extended by the leaf paths of its type. -/
theorem placeLeafKeys_eq (place : HirPlace layouts) :
    placeLeafKeys place = (layouts.leafPaths place.ty).map place.key.extend :=
  layouts.appendLeafKeys_eq_map _ _ _ (by simp)

theorem mem_placeLeafKeys {place : HirPlace layouts} {key : PlaceKey} :
    key ∈ placeLeafKeys place ↔ key.localId = place.localId ∧
      ∃ path ∈ layouts.leafPaths place.ty, key.projections = place.projections ++ path := by
  rw [placeLeafKeys_eq, mem_map]
  constructor
  · rintro ⟨path, hpath, rfl⟩
    exact ⟨rfl, path, hpath, rfl⟩
  · rintro ⟨hlocal, path, hpath, hproj⟩
    refine ⟨path, hpath, ?_⟩
    cases key
    simp_all [PlaceKey.extend]

/-- Below a place that crosses no tuple, the leaf keys of the whole local are leaf keys of
the place. -/
theorem mem_placeLeafKeys_of_overlaps {place : HirPlace layouts} {key : PlaceKey}
    (hcross : ¬ layouts.CrossesTuple place.rootTy place.projections)
    (hkey : key ∈ placeLeafKeys place.root) (hover : Overlaps key.projections place.projections) :
    key ∈ placeLeafKeys place := by
  obtain ⟨hlocal, path, hpath, hprojs⟩ := mem_placeLeafKeys.mp hkey
  obtain rfl : key.projections = path := hprojs
  refine mem_placeLeafKeys.mpr ⟨hlocal, ?_⟩
  have hbelow (rest : List Nat) (hrest : key.projections = place.projections ++ rest) :
      ∃ path ∈ layouts.leafPaths place.ty, key.projections = place.projections ++ path :=
    ⟨rest, (layouts.append_mem_leafPaths place.typed hcross rest).mp (hrest ▸ hpath), hrest⟩
  rcases hover with ⟨rest, hrest⟩ | ⟨rest, hrest⟩
  · cases rest with
    | nil => exact hbelow [] (by simpa using hrest)
    | cons i rest =>
      have htyped := place.typed
      rw [← hrest, layouts.typeAt_append] at htyped
      obtain ⟨part, hpart, hnext⟩ := Option.bind_eq_some_iff.mp htyped
      rw [← hrest, layouts.crossesTuple_append hpart, not_or] at hcross
      rw [← append_nil key.projections, show place.root.ty = place.rootTy from rfl,
        layouts.append_mem_leafPaths hpart hcross.1, layouts.nil_mem_leafPaths] at hpath
      obtain ⟨next, hnext, _⟩ := Option.bind_eq_some_iff.mp hnext
      rcases hpath with ⟨fields, rfl⟩ | hnone
      · exact absurd (.inl ⟨fields, rfl⟩) hcross.2
      · exact nomatch (hnone i).symm.trans hnext
  · exact hbelow rest hrest.symm

theorem isPrefix_of_mem_placeLeafKeys {place : HirPlace layouts} {key : PlaceKey}
    (hkey : key ∈ placeLeafKeys place) : place.projections <+: key.projections := by
  obtain ⟨_, path, _, hproj⟩ := mem_placeLeafKeys.mp hkey
  exact hproj ▸ prefix_append _ _

end Salicin.Codegen
