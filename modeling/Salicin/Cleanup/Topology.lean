import Mathlib.Data.Nat.Count
import Salicin.Cleanup.Plan
import Salicin.Foundation.PreorderIntervals

/-!
# The move-path topology

Move paths form a forest with one tree for each owned local. The topology tells how the
parts of a path complete it, numbers the discriminants of enum paths and lays every subtree
out as an interval of one preorder walk.
-/

namespace Salicin.Cleanup

open Nat List PreorderIntervals

/-- How the initialization of its children completes a path. -/
inductive CompletionRule
  | explicit
  | allChildren
  | enumRoot (variants : List (Nat × MovePathId))
  deriving DecidableEq

namespace CleanupPlan

variable (plan : CleanupPlan)

def children (path : MovePathId) : List MovePathId :=
  ((plan.movePaths.filter fun child => child.parent = some path).map (·.id)).insertionSort (· ≤ ·)

/-- `roots_by_local`; a later root of the same local would replace an earlier one. -/
def rootByLocal (localId : LocalId) : Option MovePathId :=
  (plan.movePaths.filter fun path =>
    path.parent = none ∧ path.place.localId = localId).getLast?.map (·.id)

/-- The variant that a downcast child selects. -/
def downcastVariant (path : MovePathId) : Option Nat :=
  match plan.lastProjection path with
  | some (.downcast variant) => some variant
  | _ => none

/-- The children that are downcasts, with their variants, in the order of the variants. -/
def variantChildren (path : MovePathId) : List (Nat × MovePathId) :=
  ((plan.children path).filterMap fun child =>
    (plan.downcastVariant child).map fun variant => (variant, child)).insertionSort
      fun first second => first.1 ≤ second.1

def completion (path : MovePathId) : CompletionRule :=
  if plan.children path = [] then .explicit
  else if (plan.variantChildren path).length = (plan.children path).length then
    .enumRoot (plan.variantChildren path)
  else .allChildren

def isEnumRoot (path : MovePathId) : Bool :=
  match plan.completion path with
  | .enumRoot _ => true
  | _ => false

def discriminantCount : Nat := Nat.count (plan.isEnumRoot ·) plan.movePaths.length

/-- Enum roots get consecutive discriminant slots. -/
def discriminantIndex (path : MovePathId) : Option (Fin plan.discriminantCount) :=
  if henum : plan.isEnumRoot path ∧ path < plan.movePaths.length then
    some ⟨Nat.count (plan.isEnumRoot ·) path, count_strict_mono henum.1 henum.2⟩
  else none

def enumVariants (path : MovePathId) : Option (List (Nat × MovePathId)) :=
  match plan.completion path with
  | .enumRoot variants => some variants
  | _ => none

/-- No place is deeper than this. -/
def height : Nat := (plan.movePaths.map fun path => path.place.projections.length).foldr max 0 + 1

/-- The roots in the order of their locals. -/
def roots : List MovePathId := (List.range plan.locals.length).filterMap plan.rootByLocal

/-- The walk that fills `preorder_paths`, `preorder_index` and `subtree_end`. -/
def numbering : Numbering MovePathId :=
  plan.roots.foldl (fun numbering root => visit plan.children plan.height root numbering) .empty

def subtree (path : MovePathId) : List MovePathId :=
  (plan.numbering.paths.drop (plan.numbering.index path)).take
    (plan.numbering.subtreeEnd path - plan.numbering.index path)

def containsPath (ancestor descendant : MovePathId) : Bool :=
  let start := plan.numbering.index ancestor
  let descendant := plan.numbering.index descendant
  start ≤ descendant && descendant < plan.numbering.subtreeEnd ancestor

/-- The walk from a path up its parents, nearest first, to a bounded length. -/
def ancestorsUpTo : Nat → MovePathId → List MovePathId
  | 0, _ => []
  | bound + 1, path =>
    match plan.parent path with
    | some parent => parent :: ancestorsUpTo bound parent
    | none => []

def ancestors (path : MovePathId) : List MovePathId := plan.ancestorsUpTo plan.height path

/-- All children are captures of a callable. -/
def isCallableEnvironment (children : List MovePathId) : Bool :=
  ¬ children.isEmpty && children.all fun child =>
    match plan.lastProjection child with
    | some (.capture _) => true
    | _ => false

/-- The loop of `transfer_shapes_match`, to a bounded depth. Function types do not encode
their environment, so capture forests may differ. -/
def shapesMatch : Nat → MovePathId → MovePathId → Bool
  | 0, _, _ => true
  | depth + 1, source, destination =>
    let sourceChildren := plan.children source
    let destinationChildren := plan.children destination
    if plan.isCallableEnvironment sourceChildren ||
        plan.isCallableEnvironment destinationChildren then true
    else if sourceChildren.length ≠ destinationChildren.length then false
    else sourceChildren.all fun child =>
      match destinationChildren.find? fun candidate =>
        plan.lastProjection candidate = plan.lastProjection child with
      | some candidate => shapesMatch depth child candidate
      | none => false

def transferShapesMatch (source destination : MovePathId) : Bool :=
  plan.shapesMatch plan.height source destination

/-- What the verification of the move paths establishes. -/
structure PathsValid : Prop where
  ids : plan.movePaths.map (·.id) = List.range plan.movePaths.length
  placesNodup : (plan.movePaths.map (·.place)).Nodup
  localOwned : ∀ path ∈ plan.movePaths, ∃ decl, plan.locals[path.place.localId]? = some decl ∧
    decl.ownership = .owned
  parentPlace : ∀ path ∈ plan.movePaths, ∀ parent, path.parent = some parent →
    ∃ data, plan.movePaths[parent]? = some data ∧ data.place.localId = path.place.localId ∧
      ∃ last, path.place.projections = data.place.projections ++ [last]
  rootPlace : ∀ path ∈ plan.movePaths, path.parent = none → path.place.projections = []
  rootExists : ∀ localId decl, plan.locals[localId]? = some decl → decl.ownership = .owned →
    ∃ path ∈ plan.movePaths, path.parent = none ∧ path.place.localId = localId
  needsDropParent : ∀ path ∈ plan.movePaths, ∀ parent data, path.parent = some parent →
    plan.movePaths[parent]? = some data → path.needsDrop → data.needsDrop
  downcastsUnmixed : ∀ path, (∃ child ∈ plan.children path, (plan.downcastVariant child).isSome) →
    ∀ child ∈ plan.children path, (plan.downcastVariant child).isSome

end CleanupPlan

/-! ## The forest of the move paths -/

namespace CleanupPlan.PathsValid

variable {plan : CleanupPlan} (hvalid : plan.PathsValid) {path : MovePathId}

theorem getElem?_eq (hpath : plan.Has path) : plan.movePaths[path]? = some (plan.path path) := by
  simp [CleanupPlan.path, hpath]

theorem path_mem (hpath : plan.Has path) : plan.path path ∈ plan.movePaths :=
  mem_of_getElem? (getElem?_eq hpath)

include hvalid

theorem id_path (hpath : plan.Has path) : (plan.path path).id = path := by
  have hid : (plan.movePaths.map (·.id))[path]? = some (plan.path path).id := by
    rw [getElem?_map, getElem?_eq hpath]
    rfl
  rw [hvalid.ids, getElem?_range hpath] at hid
  exact (Option.some.inj hid).symm

theorem eq_path {data : MovePath} (hdata : data ∈ plan.movePaths) :
    data.id < plan.movePaths.length ∧ plan.path data.id = data := by
  obtain ⟨path, hpath, hget⟩ := mem_iff_getElem.mp hdata
  have hsame : plan.path path = data := by
    simp [CleanupPlan.path, getElem?_eq_getElem hpath, hget]
  have hid := hvalid.id_path hpath
  rw [hsame] at hid
  rw [hid]
  exact ⟨hpath, hsame⟩

variable {second first : MovePathId}

theorem eq_of_place_eq (hfst : plan.Has first)
    (hsnd : plan.Has second) (hplace : plan.place first = plan.place second) :
    first = second := by
  have hget {path : MovePathId} (hpath : plan.Has path) :
      (plan.movePaths.map (·.place))[path]? = some (plan.place path) := by
    rw [getElem?_map, getElem?_eq hpath]
    rfl
  refine (getElem?_inj (by simpa using hfst) hvalid.placesNodup).mp ?_
  rw [hget hfst, hget hsnd, hplace]

variable {child parent : MovePathId}

omit hvalid in
theorem lt_of_parent (hparent : plan.parent child = some parent) :
    child < plan.movePaths.length := by
  rcases lt_or_ge child plan.movePaths.length with hlt | hout
  · exact hlt
  · rw [CleanupPlan.parent, CleanupPlan.path, getElem?_eq_none hout] at hparent
    exact absurd hparent (by simp [default])

theorem parent_spec (hparent : plan.parent child = some parent) :
    parent < plan.movePaths.length ∧ (plan.place parent).localId = (plan.place child).localId ∧
      ∃ last, (plan.place child).projections = (plan.place parent).projections ++ [last] := by
  obtain ⟨data, hdata, hlocal, hlast⟩ :=
    hvalid.parentPlace _ (path_mem (lt_of_parent hparent)) parent hparent
  obtain ⟨hlt, -⟩ := List.getElem?_eq_some_iff.mp hdata
  have hsame : plan.path parent = data := by simp [CleanupPlan.path, hdata]
  rw [← hsame] at hlocal hlast
  exact ⟨hlt, hlocal, hlast⟩

theorem mem_children : child ∈ plan.children parent ↔ plan.parent child = some parent := by
  rw [CleanupPlan.children, (perm_insertionSort _ _).mem_iff, mem_map]
  constructor
  · rintro ⟨data, hdata, rfl⟩
    obtain ⟨hmem, hparent⟩ := mem_filter.mp hdata
    rw [CleanupPlan.parent, (hvalid.eq_path hmem).2]
    exact of_decide_eq_true hparent
  · intro hparent
    have hlt := lt_of_parent hparent
    exact ⟨plan.path child, mem_filter.mpr ⟨path_mem hlt, decide_eq_true hparent⟩,
      hvalid.id_path hlt⟩

theorem children_nodup (path : MovePathId) : (plan.children path).Nodup := by
  rw [CleanupPlan.children, (perm_insertionSort _ _).nodup_iff]
  refine List.Nodup.sublist (filter_sublist.map _) ?_
  rw [hvalid.ids]
  exact nodup_range

theorem forest : Forest plan.children where
  nodup := hvalid.children_nodup
  parent_unique hfst hsnd := Option.some.inj
    ((hvalid.mem_children.mp hfst).symm.trans (hvalid.mem_children.mp hsnd))

omit hvalid in
theorem length_lt_height (hpath : plan.Has path) :
    (plan.place path).projections.length < plan.height := by
  have hmax : ∀ lengths : List Nat, ∀ length ∈ lengths, length ≤ lengths.foldr max 0 := by
    intro lengths
    induction lengths with
    | nil => exact fun _ hmem => absurd hmem not_mem_nil
    | cons head rest ih =>
      intro length hmem
      rw [foldr_cons]
      rcases mem_cons.mp hmem with rfl | hmem
      · exact le_max_left _ _
      · exact (ih length hmem).trans (le_max_right _ _)
  exact lt_succ_of_le (hmax _ _ (mem_map.mpr ⟨_, path_mem hpath, rfl⟩))

theorem fits_of_length {bound : Nat} (hpath : plan.Has path)
    (hbound : plan.height ≤ (plan.place path).projections.length + bound) :
    Fits plan.children bound path := by
  induction bound generalizing path with
  | zero =>
    have := length_lt_height hpath
    omega
  | succ bound ih =>
    intro child hchild
    have hparent := hvalid.mem_children.mp hchild
    obtain ⟨-, -, last, hlast⟩ := hvalid.parent_spec hparent
    have hlen : (plan.place child).projections.length =
        (plan.place path).projections.length + 1 := by rw [hlast, length_append]; rfl
    exact ih (lt_of_parent hparent) (by omega)

theorem fits (hpath : plan.Has path) : Fits plan.children plan.height path :=
  hvalid.fits_of_length hpath (by omega)

/-! ## Paths below a path -/

omit hvalid in
theorem below_refl (path : MovePathId) : plan.Below path path := ⟨rfl, prefix_rfl⟩

omit hvalid in
theorem below_trans {third : MovePathId} (hfst : plan.Below first second)
    (hsnd : plan.Below second third) : plan.Below first third :=
  ⟨hfst.1.trans hsnd.1, hfst.2.trans hsnd.2⟩

theorem below_child (hchild : child ∈ plan.children parent) : plan.Below parent child := by
  obtain ⟨-, hlocal, last, hlast⟩ := hvalid.parent_spec (hvalid.mem_children.mp hchild)
  exact ⟨hlocal, hlast ▸ prefix_append _ _⟩

variable {top : MovePathId}

/-- The links of the forest and the projections of the places tell the same. -/
theorem reaches_iff_below (htop : plan.Has top) (hpath : plan.Has path) :
    Reaches plan.children top path ↔ plan.Below top path := by
  constructor
  · intro hreach
    induction hreach with
    | refl => exact below_refl top
    | tail hreach hchild ih =>
      exact below_trans (ih (hvalid.parent_spec (hvalid.mem_children.mp hchild)).1)
        (hvalid.below_child hchild)
  · intro hbelow
    induction hlen : (plan.place path).projections.length using Nat.strong_induction_on
      generalizing path with
    | _ length ih =>
      by_cases hsame : (plan.place top).projections = (plan.place path).projections
      · have hplace : plan.place top = plan.place path := by
          obtain ⟨hlocal, -⟩ := hbelow
          generalize plan.place top = first at *
          generalize plan.place path = second at *
          cases first
          cases second
          simp_all
        rw [hvalid.eq_of_place_eq htop hpath hplace]
        exact .refl
      · cases hparent : plan.parent path with
        | none =>
          have hnil : (plan.place path).projections = [] :=
            hvalid.rootPlace _ (path_mem hpath) hparent
          refine absurd ?_ hsame
          rw [hnil]
          exact prefix_nil.mp (hnil ▸ hbelow.2)
        | some parent =>
          obtain ⟨hlt, hlocal, last, hlast⟩ := hvalid.parent_spec hparent
          have habove : plan.Below top parent := by
            refine ⟨hbelow.1.trans hlocal.symm, ?_⟩
            have hprojs := hbelow.2
            rw [hlast, prefix_concat_iff] at hprojs
            refine hprojs.resolve_left fun heq => hsame ?_
            rw [heq, hlast]
          refine (ih _ ?_ hlt habove rfl).tail (hvalid.mem_children.mpr hparent)
          rw [← hlen, hlast, length_append]
          exact lt_succ_self _

omit hvalid in
theorem below_or_below (hfst : plan.Below first path) (hsnd : plan.Below second path) :
    plan.Below first second ∨ plan.Below second first :=
  ( prefix_or_prefix_of_prefix hfst.2 hsnd.2).imp
    (⟨hfst.1.trans hsnd.1.symm, ·⟩) (⟨hsnd.1.trans hfst.1.symm, ·⟩)

theorem below_iff_child (htop : plan.Has top) (hpath : plan.Has path) :
    plan.Below top path ↔ path = top ∨ ∃ child ∈ plan.children top, plan.Below child path := by
  rw [← hvalid.reaches_iff_below htop hpath]
  constructor
  · intro hreach
    rcases hreach.cases_head with rfl | ⟨child, hchild, hrest⟩
    · exact .inl rfl
    · exact .inr ⟨child, hchild,
        (hvalid.reaches_iff_below (lt_of_parent (hvalid.mem_children.mp hchild)) hpath).mp hrest⟩
  · rintro (rfl | ⟨child, hchild, hrest⟩)
    · exact .refl
    · exact .head hchild
        ((hvalid.reaches_iff_below (lt_of_parent (hvalid.mem_children.mp hchild)) hpath).mpr hrest)

theorem below_antisymm (hfst : plan.Has first)
    (hsnd : plan.Has second) (hdown : plan.Below first second)
    (hup : plan.Below second first) : first = second := by
  refine hvalid.eq_of_place_eq hfst hsnd ?_
  have hprojs := hdown.2.eq_of_length_le hup.2.length_le
  have hlocal := hdown.1
  generalize plan.place first = left at *
  generalize plan.place second = right at *
  cases left
  cases right
  simp_all

theorem children_disjoint (hfst : first ∈ plan.children parent)
    (hsnd : second ∈ plan.children parent) (hpath : plan.Has path)
    (hbelow : plan.Below first path) (hbelow' : plan.Below second path) : first = second := by
  have hlt {child : MovePathId} (hchild : child ∈ plan.children parent) :=
    lt_of_parent (hvalid.mem_children.mp hchild)
  have hparent := (hvalid.parent_spec (hvalid.mem_children.mp hfst)).1
  exact hvalid.forest.eq_of_reaches (hvalid.fits hparent) hfst hsnd
    ((hvalid.reaches_iff_below (hlt hfst) hpath).mpr hbelow)
    ((hvalid.reaches_iff_below (hlt hsnd) hpath).mpr hbelow')

theorem children_pairwise {items : List MovePathId} (hnodup : items.Nodup)
    (hitems : ∀ child ∈ items, child ∈ plan.children parent) :
    items.Pairwise fun first second =>
      ∀ path < plan.movePaths.length, plan.Below first path → ¬ plan.Below second path :=
  hnodup.imp_of_mem fun hfst hsnd hne _ hpath hbelow hbelow' =>
    hne (hvalid.children_disjoint (hitems _ hfst) (hitems _ hsnd) hpath hbelow hbelow')

theorem not_below_child (hchild : child ∈ plan.children parent) : ¬ plan.Below child parent := by
  intro hbelow
  obtain ⟨-, -, last, hlast⟩ := hvalid.parent_spec (hvalid.mem_children.mp hchild)
  have hlen := hbelow.2.length_le
  rw [hlast, length_append] at hlen
  exact absurd hlen (by simp)

variable {above : MovePathId}

/-- What lies strictly above a path lies above its parent, or is it. -/
theorem below_parent (hparent : plan.parent path = some parent)
    (habove : plan.Has above) (hbelow : plan.Below above path) (hne : above ≠ path) :
    plan.Below above parent := by
  have hreach := (hvalid.reaches_iff_below habove (lt_of_parent hparent)).mpr hbelow
  rcases hreach.cases_tail with rfl | ⟨other, hother, hchild⟩
  · exact absurd rfl hne
  · obtain rfl := hvalid.forest.parent_unique (hvalid.mem_children.mpr hparent) hchild
    exact (hvalid.reaches_iff_below habove (hvalid.parent_spec hparent).1).mp hother

theorem eq_of_below_root (hparent : plan.parent path = none) (hpath : plan.Has path)
    (habove : plan.Has above) (hbelow : plan.Below above path) : above = path := by
  have hreach := (hvalid.reaches_iff_below habove hpath).mpr hbelow
  rcases hreach.cases_tail with rfl | ⟨other, -, hchild⟩
  · rfl
  · exact absurd (hparent.symm.trans (hvalid.mem_children.mp hchild)) (by simp)

theorem mem_ancestors (hpath : plan.Has path) :
    above ∈ plan.ancestors path ↔
      above < plan.movePaths.length ∧ plan.Below above path ∧ above ≠ path := by
  have hstep (bound : Nat) : ∀ path < plan.movePaths.length,
      (plan.place path).projections.length < bound → (above ∈ plan.ancestorsUpTo bound path ↔
          above < plan.movePaths.length ∧ plan.Below above path ∧ above ≠ path) := by
    induction bound with
    | zero => exact fun _ _ hlen => absurd hlen (not_lt_zero _)
    | succ bound ih =>
      intro path hpath hlen
      rw [CleanupPlan.ancestorsUpTo]
      split
      · next parent hparent =>
          obtain ⟨hlt, -, last, hlast⟩ := hvalid.parent_spec hparent
          have hchild := hvalid.mem_children.mpr hparent
          rw [hlast, length_append, length_singleton] at hlen
          rw [mem_cons, ih parent hlt (by omega)]
          constructor
          · rintro (rfl | ⟨habove, hbelow, hne⟩)
            · exact ⟨hlt, hvalid.below_child hchild,
                fun heq => hvalid.not_below_child hchild (heq ▸ below_refl _)⟩
            · refine ⟨habove, below_trans hbelow (hvalid.below_child hchild), ?_⟩
              rintro rfl
              exact hvalid.not_below_child hchild hbelow
          · rintro ⟨habove, hbelow, hne⟩
            by_cases hsame : above = parent
            · exact .inl hsame
            · exact .inr ⟨habove, hvalid.below_parent hparent habove hbelow hne, hsame⟩
      · next hparent =>
          refine iff_of_false not_mem_nil ?_
          rintro ⟨habove, hbelow, hne⟩
          exact hne (hvalid.eq_of_below_root hparent hpath habove hbelow)
  exact hstep plan.height path hpath (length_lt_height hpath)

theorem needsDrop_of_child (hchild : child ∈ plan.children parent)
    (hneeds : (plan.path child).needsDrop) : (plan.path parent).needsDrop := by
  have hparent := hvalid.mem_children.mp hchild
  exact hvalid.needsDropParent _ (path_mem (lt_of_parent hparent)) parent _ hparent
    (getElem?_eq (hvalid.parent_spec hparent).1) hneeds

/-! ## Roots and the preorder numbering -/

variable {root : MovePathId}

omit hvalid in
theorem rootByLocal_spec {localId : LocalId} (hroot : plan.rootByLocal localId = some root) :
    ∃ data ∈ plan.movePaths, data.parent = none ∧ data.place.localId = localId ∧
      data.id = root := by
  rw [CleanupPlan.rootByLocal, Option.map_eq_some_iff] at hroot
  obtain ⟨data, hdata, hid⟩ := hroot
  obtain ⟨hmem, hfilter⟩ := mem_filter.mp (mem_of_getLast? hdata)
  obtain ⟨hparent, hlocal⟩ := of_decide_eq_true hfilter
  exact ⟨data, hmem, hparent, hlocal, hid⟩

theorem rootByLocal_eq_some {localId : LocalId} :
    plan.rootByLocal localId = some root ↔ plan.Has root ∧
      plan.parent root = none ∧ (plan.place root).localId = localId := by
  constructor
  · intro hroot
    obtain ⟨data, hmem, hparent, hlocal, rfl⟩ := rootByLocal_spec hroot
    obtain ⟨hlt, hsame⟩ := hvalid.eq_path hmem
    refine ⟨hlt, ?_, ?_⟩
    · rw [CleanupPlan.parent, hsame, hparent]
    · rw [CleanupPlan.place, hsame, hlocal]
  · rintro ⟨hlt, hparent, hlocal⟩
    have hmem : plan.path root ∈ plan.movePaths.filter fun path =>
        path.parent = none ∧ path.place.localId = localId :=
      mem_filter.mpr ⟨path_mem hlt, decide_eq_true ⟨hparent, hlocal⟩⟩
    obtain ⟨other, hother⟩ : ∃ other, plan.rootByLocal localId = some other := by
      rw [← Option.isSome_iff_exists, CleanupPlan.rootByLocal, Option.isSome_map, getLast?_isSome]
      exact ne_nil_of_mem hmem
    obtain ⟨data, hdata, hparent', hlocal', rfl⟩ := rootByLocal_spec hother
    obtain ⟨hlt', hsame⟩ := hvalid.eq_path hdata
    rw [hother, hvalid.eq_of_place_eq hlt' hlt ?_]
    have hnil : (plan.place root).projections = [] := hvalid.rootPlace _ (path_mem hlt) hparent
    have hnil' : data.place.projections = [] := hvalid.rootPlace _ hdata hparent'
    rw [CleanupPlan.place, hsame]
    generalize hleft : data.place = left at *
    generalize hright : plan.place root = right at *
    cases left
    cases right
    simp_all

theorem exists_root (hpath : plan.Has path) :
    ∃ root, plan.rootByLocal (plan.place path).localId = some root ∧ plan.Below root path := by
  obtain ⟨decl, hdecl, howned⟩ := hvalid.localOwned _ (path_mem hpath)
  obtain ⟨data, hdata, hparent, hlocal⟩ := hvalid.rootExists _ decl hdecl howned
  obtain ⟨hlt, hsame⟩ := hvalid.eq_path hdata
  have hlocal' : (plan.place data.id).localId = (plan.place path).localId := by
    rw [CleanupPlan.place, hsame]
    exact hlocal
  refine ⟨data.id, hvalid.rootByLocal_eq_some.mpr ⟨hlt, ?_, hlocal'⟩, hlocal', ?_⟩
  · rw [CleanupPlan.parent, hsame, hparent]
  · rw [CleanupPlan.place, hsame, hvalid.rootPlace data hdata hparent]
    exact nil_prefix

theorem below_root_iff {localId : LocalId} (hroot : plan.rootByLocal localId = some root) :
    plan.Below root path ↔ (plan.place path).localId = localId := by
  obtain ⟨hlt, hparent, hlocal⟩ := hvalid.rootByLocal_eq_some.mp hroot
  have hnil : (plan.place root).projections = [] := hvalid.rootPlace _ (path_mem hlt) hparent
  rw [CleanupPlan.Below, hlocal, hnil]
  exact ⟨fun hbelow => hbelow.1.symm, fun hsame => ⟨hsame.symm, nil_prefix⟩⟩

theorem place_localId_lt (hpath : plan.Has path) :
    (plan.place path).localId < plan.locals.length := by
  obtain ⟨decl, hdecl, -⟩ := hvalid.localOwned _ (path_mem hpath)
  exact (List.getElem?_eq_some_iff.mp hdecl).1

theorem mem_roots : root ∈ plan.roots ↔ plan.Has root ∧ plan.parent root = none := by
  rw [CleanupPlan.roots, mem_filterMap]
  constructor
  · rintro ⟨localId, -, hroot⟩
    obtain ⟨hlt, hparent, -⟩ := hvalid.rootByLocal_eq_some.mp hroot
    exact ⟨hlt, hparent⟩
  · rintro ⟨hlt, hparent⟩
    exact ⟨_, mem_range.mpr (hvalid.place_localId_lt hlt),
      hvalid.rootByLocal_eq_some.mpr ⟨hlt, hparent, rfl⟩⟩

theorem roots_pairwise :
    plan.roots.Pairwise fun first second =>
      (plan.place first).localId ≠ (plan.place second).localId := by
  rw [CleanupPlan.roots, pairwise_filterMap]
  refine nodup_range.imp fun hne root hroot other hother hsame => hne ?_
  rw [← (hvalid.rootByLocal_eq_some.mp hroot).2.2, ← (hvalid.rootByLocal_eq_some.mp hother).2.2,
    hsame]

theorem mem_preorder_iff (htop : plan.Has top) :
    path ∈ preorder plan.children plan.height top ↔
      path < plan.movePaths.length ∧ plan.Below top path := by
  rw [mem_preorder (hvalid.fits htop)]
  constructor
  · intro hreach
    have hlt : plan.Has path := by
      rcases hreach.cases_tail with rfl | ⟨parent, -, hchild⟩
      · exact htop
      · exact lt_of_parent (hvalid.mem_children.mp hchild)
    exact ⟨hlt, (hvalid.reaches_iff_below htop hlt).mp hreach⟩
  · rintro ⟨hlt, hbelow⟩
    exact (hvalid.reaches_iff_below htop hlt).mpr hbelow

theorem roots_disjoint :
    plan.roots.Pairwise fun first second =>
      ∀ path ∈ preorder plan.children plan.height first,
        path ∉ preorder plan.children plan.height second := by
  refine hvalid.roots_pairwise.imp_of_mem fun hfst hsnd hne path hleft hright => hne ?_
  have hleft' := (hvalid.mem_preorder_iff (hvalid.mem_roots.mp hfst).1).mp hleft
  have hright' := (hvalid.mem_preorder_iff (hvalid.mem_roots.mp hsnd).1).mp hright
  exact hleft'.2.1.trans hright'.2.1.symm

theorem numbering_walked :
    Walked plan.children plan.height .empty plan.numbering
      (plan.roots.flatMap (preorder plan.children plan.height)) := by
  refine foldl_walked (visit plan.children plan.height) (fun root hroot numbering => ?_)
    hvalid.roots_disjoint .empty
  have hfits := hvalid.fits (hvalid.mem_roots.mp hroot).1
  exact visit_walked hvalid.forest hfits hfits numbering

theorem mem_walk (hpath : plan.Has path) :
    path ∈ plan.roots.flatMap (preorder plan.children plan.height) := by
  obtain ⟨root, hroot, hbelow⟩ := hvalid.exists_root hpath
  obtain ⟨hlt, hparent, -⟩ := hvalid.rootByLocal_eq_some.mp hroot
  exact mem_flatMap.mpr ⟨root, hvalid.mem_roots.mpr ⟨hlt, hparent⟩,
    (hvalid.mem_preorder_iff hlt).mpr ⟨hpath, hbelow⟩⟩

theorem subtree_eq (hpath : plan.Has path) :
    plan.subtree path = preorder plan.children plan.height path :=
  hvalid.numbering_walked.slice (hvalid.mem_walk hpath)

theorem mem_subtree (htop : plan.Has top) :
    path ∈ plan.subtree top ↔ plan.Has path ∧ plan.Below top path := by
  rw [hvalid.subtree_eq htop, hvalid.mem_preorder_iff htop]

theorem walk_nodup : (plan.roots.flatMap (preorder plan.children plan.height)).Nodup :=
  nodup_flatMap.mpr ⟨fun _ hroot =>
    hvalid.forest.preorder_nodup (hvalid.fits (hvalid.mem_roots.mp hroot).1),
    hvalid.roots_disjoint⟩

/-- The intervals of the numbering tell which path lies below which. -/
theorem containsPath_iff (habove : plan.Has above) (hpath : plan.Has path) :
    plan.containsPath above path ↔ plan.Below above path := by
  rw [CleanupPlan.containsPath, Bool.and_eq_true, decide_eq_true_iff, decide_eq_true_iff,
    hvalid.numbering_walked.mem_interval_iff hvalid.walk_nodup (hvalid.mem_walk habove)
      (hvalid.mem_walk hpath) (hvalid.fits hpath),
    hvalid.mem_preorder_iff habove]
  exact and_iff_right hpath

/-! ## Enum paths -/

omit hvalid in
theorem children_of_explicit (hexplicit : plan.completion path = .explicit) :
    plan.children path = [] := by
  rw [CleanupPlan.completion] at hexplicit
  split_ifs at hexplicit with hnil
  exact hnil

omit hvalid in
theorem children_ne_nil_of_allChildren (hall : plan.completion path = .allChildren) :
    plan.children path ≠ [] := by
  intro hnil
  rw [CleanupPlan.completion, if_pos hnil] at hall
  exact absurd hall (by simp)

variable {variants : List (Nat × MovePathId)}

omit hvalid in
theorem children_ne_nil_of_enumRoot (henum : plan.completion path = .enumRoot variants) :
    plan.children path ≠ [] := by
  intro hnil
  rw [CleanupPlan.completion, if_pos hnil] at henum
  exact absurd henum (by simp)

variable {variant : Nat}

omit hvalid in
theorem mem_variantChildren : (variant, child) ∈ plan.variantChildren path ↔
      child ∈ plan.children path ∧ plan.downcastVariant child = some variant := by
  rw [CleanupPlan.variantChildren, (perm_insertionSort _ _).mem_iff, mem_filterMap]
  constructor
  · rintro ⟨other, hother, hmap⟩
    obtain ⟨val, hval, hpair⟩ := Option.map_eq_some_iff.mp hmap
    cases hpair
    exact ⟨hother, hval⟩
  · rintro ⟨hchild, hvar⟩
    exact ⟨child, hchild, by rw [hvar]; rfl⟩

omit hvalid in
theorem variants_eq (henum : plan.completion path = .enumRoot variants) :
    plan.variantChildren path = variants := by
  rw [CleanupPlan.completion] at henum
  split_ifs at henum
  exact CompletionRule.enumRoot.inj henum

theorem completion_of_downcast (hchild : child ∈ plan.children path)
    (hvar : plan.downcastVariant child = some variant) :
    plan.completion path = .enumRoot (plan.variantChildren path) := by
  have hall := hvalid.downcastsUnmixed path ⟨child, hchild, by rw [hvar]; rfl⟩
  have hlen : (plan.variantChildren path).length = (plan.children path).length := by
    rw [CleanupPlan.variantChildren, length_insertionSort, length_filterMap_eq_countP,
      countP_eq_length]
    intro other hother
    rw [Option.isSome_map]
    exact hall other hother
  rw [CleanupPlan.completion, if_neg (ne_nil_of_mem hchild), if_pos hlen]

theorem variantChildren_nodup (path : MovePathId) :
    ((plan.variantChildren path).map (·.2)).Nodup := by
  rw [CleanupPlan.variantChildren, ((perm_insertionSort _ _).map _).nodup_iff, map_filterMap]
  refine (hvalid.children_nodup path).filterMap fun first second child hfst hsnd => ?_
  simp only [Option.map_map, Option.mem_def, Option.map_eq_some_iff, Function.comp_apply] at *
  obtain ⟨-, -, rfl⟩ := hfst
  obtain ⟨-, -, rfl⟩ := hsnd
  rfl

theorem exists_variant (henum : plan.completion path = .enumRoot variants)
    (hchild : child ∈ plan.children path) :
    ∃ variant, (variant, child) ∈ variants := by
  have hvars := variants_eq henum
  have hne : variants ≠ [] := by
    rintro rfl
    rw [CleanupPlan.completion] at henum
    split_ifs at henum with hnil hlen
    rw [hvars] at hlen
    exact hnil (length_eq_zero_iff.mp hlen.symm)
  obtain ⟨⟨val, other⟩, hother⟩ := exists_mem_of_ne_nil variants hne
  obtain ⟨hmem, hval⟩ := mem_variantChildren.mp (hvars ▸ hother)
  obtain ⟨variant, hvar⟩ := Option.isSome_iff_exists.mp
    (hvalid.downcastsUnmixed path ⟨other, hmem, by rw [hval]; rfl⟩ child hchild)
  exact ⟨variant, hvars ▸ mem_variantChildren.mpr ⟨hchild, hvar⟩⟩

theorem variant_unique (hfst : (variant, first) ∈ plan.variantChildren path)
    (hsnd : (variant, second) ∈ plan.variantChildren path) : first = second := by
  obtain ⟨hfst, hdowncast⟩ := mem_variantChildren.mp hfst
  obtain ⟨hsnd, hdowncast'⟩ := mem_variantChildren.mp hsnd
  have hplace {child : MovePathId} (hchild : child ∈ plan.children path)
      (hvar : plan.downcastVariant child = some variant) :
      plan.place child =
        ⟨(plan.place path).localId, (plan.place path).projections ++ [.downcast variant]⟩ := by
    obtain ⟨-, hlocal, last, hlast⟩ := hvalid.parent_spec (hvalid.mem_children.mp hchild)
    rw [CleanupPlan.downcastVariant, CleanupPlan.lastProjection, hlast, getLast?_concat]
      at hvar
    have hlast' : last = .downcast variant := by
      split at hvar
      · next val heq =>
          cases hvar
          exact Option.some.inj heq
      · exact absurd hvar (by simp)
    generalize plan.place child = place at *
    cases place
    simp_all
  exact hvalid.eq_of_place_eq (lt_of_parent (hvalid.mem_children.mp hfst))
    (lt_of_parent (hvalid.mem_children.mp hsnd))
    ((hplace hfst hdowncast).trans (hplace hsnd hdowncast').symm)

section Filtered

variable {path : MovePathId} {variants : List (Nat × MovePathId)}
  (hrule : plan.completion path = .enumRoot variants) {keep : Nat × MovePathId → Bool}

include hrule

omit hvalid in
theorem mem_children_of_variants (hchild : (variant, child) ∈ variants) :
    child ∈ plan.children path := by
  rw [← variants_eq hrule] at hchild
  exact (mem_variantChildren.mp hchild).1

omit hvalid in
theorem mem_children_of_filter (hchild : child ∈ (variants.filter keep).map (·.2)) :
    child ∈ plan.children path := by
  obtain ⟨⟨variant, _⟩, hentry, rfl⟩ := mem_map.mp hchild
  exact mem_children_of_variants hrule (mem_of_mem_filter hentry)

omit hvalid in
theorem keep_of_filter (hentry : (variant, child) ∈ variants)
    (hchild : child ∈ (variants.filter keep).map (·.2)) : keep (variant, child) := by
  obtain ⟨⟨other, _⟩, hother, rfl⟩ := mem_map.mp hchild
  obtain ⟨hlisted, hkept⟩ := mem_filter.mp hother
  rw [← variants_eq hrule, mem_variantChildren] at hentry hlisted
  rwa [Option.some.inj (hentry.2.symm.trans hlisted.2)]

theorem filter_nodup : ((variants.filter keep).map (·.2)).Nodup :=
  (variants_eq hrule ▸ hvalid.variantChildren_nodup path).sublist (filter_sublist.map _)

theorem not_below_of_filter {part : MovePathId} (hentry : (variant, child) ∈ variants)
    (hout : ¬ keep (variant, child)) (hpart : plan.Has part) (hbelow : plan.Below child part) :
    ∀ item ∈ (variants.filter keep).map (·.2), ¬ plan.Below item part := by
  intro item hitem hbelow'
  obtain rfl := hvalid.children_disjoint (mem_children_of_filter hrule hitem)
    (mem_children_of_variants hrule hentry) hpart hbelow' hbelow
  exact hout (keep_of_filter hrule hentry hitem)

end Filtered

omit hvalid in
theorem isEnumRoot_iff :
    plan.isEnumRoot path ↔ plan.completion path = .enumRoot (plan.variantChildren path) := by
  rw [CleanupPlan.isEnumRoot]
  constructor
  · intro henum
    split at henum
    · next variants hvars =>
        rw [variants_eq hvars]
        exact hvars
    · exact absurd henum (by simp)
  · intro henum
    rw [henum]

omit hvalid in
theorem discriminantIndex_inj {slot : Fin plan.discriminantCount}
    (hfst : plan.discriminantIndex first = some slot)
    (hsnd : plan.discriminantIndex second = some slot) : first = second := by
  rw [CleanupPlan.discriminantIndex] at hfst hsnd
  split_ifs at hfst hsnd with henum henum'
  have hslot := Option.some.inj (hfst.trans hsnd.symm)
  exact count_injective henum.1 henum'.1 (Fin.mk.inj hslot)

omit hvalid in
theorem exists_discriminantIndex (hpath : plan.Has path)
    (henum : plan.completion path = .enumRoot variants) :
    ∃ slot, plan.discriminantIndex path = some slot := by
  have hroot : plan.isEnumRoot path := by
    rw [isEnumRoot_iff, variants_eq henum]
    exact henum
  exact ⟨_, dif_pos ⟨hroot, hpath⟩⟩

omit hvalid in
theorem completion_of_discriminantIndex {slot : Fin plan.discriminantCount}
    (hslot : plan.discriminantIndex path = some slot) :
    plan.completion path = .enumRoot (plan.variantChildren path) := by
  rw [CleanupPlan.discriminantIndex] at hslot
  split_ifs at hslot with henum
  exact isEnumRoot_iff.mp henum.1

end CleanupPlan.PathsValid

end Salicin.Cleanup
