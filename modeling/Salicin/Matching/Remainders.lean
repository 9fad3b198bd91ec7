import Salicin.Codegen.DropExactness
import Salicin.Foundation.FallibleLists
import Salicin.Matching.Bindings
import Salicin.Matching.Dispatch

/-!
# What a match leaves of its scrutinee

The bindings of an arm take parts of the scrutinee with them. The emitter clears the flags of what
they take, or registers drop slots for the rest, when it is sure that the arm is run.
-/

namespace Salicin.Matching

open List Codegen Source ExceptLists DropSlot Layouts

/-- A drop slot for a part of the scrutinee. The pointer of the slot is known by the path of the
part that it holds. -/
structure MatchSlot where
  ty : Ty
  path : List Nat

section

variable (nominals : Nominals)

/-- The paths below a field, from the paths that start with its index. -/
def childPaths (index : Nat) (moved : List (List Nat)) : List (List Nat) :=
  (moved.filter fun path => path.head? = some index).map List.tail

/-- Slots for what is left of a value if the parts at the paths are moved out of it. -/
def registerMatchRemainder (ty : Ty) (path : List Nat) (moved : List (List Nat)) :
    Except String (List MatchSlot) :=
  if moved.isEmpty then .ok [⟨ty, path⟩]
  else if moved.any List.isEmpty ∨ nominals.layouts.needsDrop ty = false then .ok []
  else if nominals.layouts.hasDropMethod ty then
    .error s!"internal error: match split custom droppable type `{nominals.display ty}`"
  else
    let fields := do
      let slots ← (nominals.layouts.dropChildren ty).attach.mapM fun child =>
        registerMatchRemainder child.1.2 (path ++ [child.1.1]) (childPaths child.1.1 moved)
      return slots.flatten
    match ty with
    | .tuple _ => fields
    | .struct name =>
      if (nominals.layouts.structLayout name).isNone then
        .error s!"internal error: missing struct layout `{name}`"
      else fields
    | _ => .error (s!"internal error: match move path descends through non-aggregate " ++
        s!"`{nominals.display ty}`")
termination_by nominals.layouts.finite.wrap ty
decreasing_by exact nominals.layouts.contains_of_mem_dropChildren child.2

/-- The paths of the parts that the bindings of an arm take with them. -/
def movedPaths (bindings : List HirPatternBinding) : List (List Nat) :=
  (bindings.filter (·.moves)).map (·.path)

/-- What the emitter has registered for a match. -/
structure MatchOwnership where
  /-- The flags of the slot of the scrutinee, if it has one. -/
  root : Option DropFlags
  remainder : List MatchSlot
  /-- The bindings that have storage. -/
  locals : List Nat
  bindings : List MatchSlot

/-- In front of the arms there is the slot of a scrutinee that needs drop. -/
def MatchOwnership.start (scrutinee : Ty) : MatchOwnership where
  root := if nominals.layouts.needsDrop scrutinee then some fun _ => true else none
  remainder := []
  locals := []
  bindings := []

/-- The enum gives up its value, and what no binding takes gets slots of its own. -/
def prepareMatchPatternOwnership (layout : EnumLayout) (variant : Nat)
    (bindings : List HirPatternBinding) (state : MatchOwnership) : Except String MatchOwnership :=
  if bindings.any (·.moves) = false then .ok state
  else
    let state := { state with root := state.root.map fun flags => Function.update flags [] false }
    if bindings.any fun binding => binding.moves && binding.path.isEmpty then .ok state
    else
      match layout.variants[variant]? with
      | none => .error "index out of bounds"
      | some entry => do
        let slots ← (entry.fields.zipIdx.filter fun (field, _) =>
            nominals.layouts.needsDrop field.ty).mapM fun (field, index) =>
          let llvmIndex := 1 + payloadOffset layout variant + index
          registerMatchRemainder nominals field.ty [llvmIndex]
            (childPaths llvmIndex (movedPaths bindings))
        return { state with remainder := state.remainder ++ slots.flatten }

/-- The flags of what the bindings take are cleared. -/
def prepareIrrefutablePatternOwnership (scrutinee : Ty) (bindings : List HirPatternBinding)
    (state : MatchOwnership) : Except String MatchOwnership :=
  match scrutinee with
  | .tuple _ | .struct _ =>
    -- The source also sorts them by the names of the flags; all of them store the same value.
    let updates := ((movedPaths bindings).flatMap fun path =>
      collectPlaceFlagUpdates path false false
        (buildDropSlot nominals.layouts scrutinee [])).dedup
    .ok { state with root := state.root.map fun flags => storeFlags flags updates }
  | _ => .error "internal error: aggregate ownership preparation has non-aggregate root"

def isUnit : Ty → Bool
  | .unit => true
  | _ => false

/-- The bindings that own what they take. -/
def owningBindings (bindings : List HirPatternBinding) : List HirPatternBinding :=
  bindings.filter fun binding => binding.moves && nominals.layouts.needsDrop binding.ty

def HirPatternBinding.slot (binding : HirPatternBinding) : MatchSlot := ⟨binding.ty, binding.path⟩

def emitPatternBindings (bindings : List HirPatternBinding) (activateOwnership : Bool)
    (state : MatchOwnership) : MatchOwnership :=
  let stored := bindings.filter fun binding => !isUnit binding.ty
  { state with
    locals := state.locals ++ stored.map (·.id)
    bindings := state.bindings ++
      if activateOwnership then (owningBindings nominals stored).map (·.slot) else [] }

def activatePatternBindingOwnership (bindings : List HirPatternBinding) (state : MatchOwnership) :
    Except String MatchOwnership :=
  let owning := owningBindings nominals bindings
  match owning.find? fun binding => binding.id ∉ state.locals with
  | some binding =>
    .error s!"internal error: missing speculative pattern binding `{binding.name}`"
  | none => .ok { state with bindings := state.bindings ++ owning.map (·.slot) }

/-- What a step of an arm does to the slots of the match, for a value of the variant. -/
def ownStep (scrutinee : Ty) (variant : Nat) (arms : List HirMatchArm) (state : MatchOwnership)
    (step : MatchStep) : Except String MatchOwnership :=
  match step with
  | .prepare index =>
    match arms[index]?, scrutinee with
    | none, _ => .error "index out of bounds"
    | some arm, .enum name =>
      match nominals.layouts.enumLayout name with
      | none => .error s!"internal error: missing enum layout `{name}`"
      | some layout =>
        prepareMatchPatternOwnership nominals layout variant arm.bindings state
    | some arm, scrutinee =>
      prepareIrrefutablePatternOwnership nominals scrutinee arm.bindings state
  | .bind index activateOwnership =>
    match arms[index]? with
    | none => .error "index out of bounds"
    | some arm => .ok (emitPatternBindings nominals arm.bindings activateOwnership state)
  | .activate index =>
    match arms[index]? with
    | none => .error "index out of bounds"
    | some arm => activatePatternBindingOwnership nominals arm.bindings state
  | .guard _ | .body _ | .cleanup => .ok state

/-- The leaves that the conditional drop of a slot drops. The flags are those of the slot, by the
parts of its own value. -/
def MatchSlot.drops (slot : MatchSlot) (flags : DropFlags) : List (List Nat) :=
  (conditionalDrop nominals.layouts
    (buildDropSlot nominals.layouts slot.ty []) flags).1.map (slot.path ++ ·)

/-- The leaves that the glue of the enum drops of a variant. -/
def variantLeaves (layout : EnumLayout) (variant : Nat) : List (List Nat) :=
  match layout.variants[variant]? with
  | none => []
  | some entry => entry.fields.zipIdx.flatMap fun (field, index) =>
    dropGlue nominals.layouts field.ty [1 + payloadOffset layout variant + index]

/-- The drop of an enum as a whole is the drop of the payload of its variant. -/
def payloadOf (scrutinee : Ty) (variant : Nat) (leaf : List Nat) : List (List Nat) :=
  match scrutinee, leaf with
  | .enum name, [] =>
    match nominals.layouts.enumLayout name with
    | none => []
    | some layout => variantLeaves nominals layout variant
  | _, leaf => [leaf]

/-- The leaves of the matched payload that need drop. -/
def payloadLeaves (scrutinee : Ty) (variant : Nat) : List (List Nat) :=
  (dropGlue nominals.layouts scrutinee []).flatMap (payloadOf nominals scrutinee variant)

/-- What the slots for the rest of the scrutinee drop. -/
def MatchOwnership.remainderDrops (scrutinee : Ty) (variant : Nat) (state : MatchOwnership) :
    List (List Nat) :=
  ((state.root.toList.flatMap fun flags => MatchSlot.drops nominals ⟨scrutinee, []⟩ flags) ++
    state.remainder.flatMap fun slot => slot.drops nominals fun _ => true).flatMap
      (payloadOf nominals scrutinee variant)

/-- What the slots of the bindings drop, as they are registered. -/
def MatchOwnership.bindingDrops (scrutinee : Ty) (variant : Nat) (state : MatchOwnership) :
    List (List Nat) :=
  (state.bindings.flatMap fun slot => slot.drops nominals fun _ => true).flatMap
    (payloadOf nominals scrutinee variant)

end

/-! ## The rest of a value -/

variable {ty : Ty}

section

variable {nominals : Nominals} {rest : List Nat}

/-- The path goes through tuples and structs without a destructor of their own. -/
def Movable (layouts : Layouts) (ty : Ty) (path : List Nat) : Prop :=
  (∃ projections part, Walks layouts ty path projections part) ∧
    crossesCustomDrop layouts ty path = false

theorem mem_childPaths {index : Nat} {moved : List (List Nat)} :
    rest ∈ childPaths index moved ↔ index :: rest ∈ moved := by
  unfold childPaths
  rw [mem_map]
  constructor
  · rintro ⟨path, hpath, rfl⟩
    obtain ⟨hmem, hhead⟩ := mem_filter.mp hpath
    cases path with
    | nil => simp at hhead
    | cons first tail =>
      obtain rfl : first = index := by simpa using hhead
      exact hmem
  · intro hmem
    exact ⟨index :: rest, mem_filter.mpr ⟨hmem, by simp⟩, rfl⟩

theorem Movable.child {child : Nat × Ty} (hmovable : Movable nominals.layouts ty (child.1 :: rest))
    (hchild : child ∈ nominals.layouts.dropChildren ty) :
    Movable nominals.layouts child.2 rest := by
  obtain ⟨⟨projections, part, hwalks⟩, hcross⟩ := hmovable
  cases hwalks with
  | tuple hfield hrest =>
    have hproject : nominals.layouts.project (.tuple _) child.1 = some _ := hfield
    obtain rfl := project_eq_of_mem_dropChildren hchild hproject
    simp only [crossesCustomDrop, hproject, Bool.or_eq_false_iff] at hcross
    exact ⟨⟨_, _, hrest⟩, hcross.2⟩
  | @struct name layout _ field _ _ _ hlayout hfield hrest =>
    have hproject : nominals.layouts.project (.struct name) child.1 = some field.ty := by
      simp [project, hlayout, hfield]
    obtain hty := project_eq_of_mem_dropChildren hchild hproject
    rw [← hty] at hproject hrest
    simp only [crossesCustomDrop, hproject, Bool.or_eq_false_iff] at hcross
    exact ⟨⟨_, _, hrest⟩, hcross.2⟩

variable {projections : List Cleanup.Projection}

theorem Walks.needsDrop_of_mem {part : Ty} {index : Nat} {child : Nat × Ty}
    (hwalks : Walks nominals.layouts ty (index :: rest) projections part)
    (hchild : child ∈ nominals.layouts.dropChildren ty) : nominals.layouts.needsDrop child.2 := by
  cases hwalks with
  | tuple =>
    obtain ⟨⟨field, position⟩, hfield, rfl⟩ := mem_map.mp hchild
    exact (mem_filter.mp hfield).2
  | struct hlayout =>
    simp only [dropChildren, hlayout] at hchild
    obtain ⟨⟨field, position⟩, hfield, rfl⟩ := mem_map.mp hchild
    exact (mem_filter.mp hfield).2

variable {path : List Nat}

/-- The slots for the rest of a value drop its leaves but for those below the paths. -/
theorem registerMatchRemainder_drops {moved : List (List Nat)}
    (hneeds : nominals.layouts.needsDrop ty)
    (hmovable : ∀ rest ∈ moved, Movable nominals.layouts ty rest) :
    ∃ slots, registerMatchRemainder nominals ty path moved = .ok slots ∧
      (∀ slot ∈ slots, nominals.layouts.needsDrop slot.ty) ∧
      DropsExactly (slots.flatMap fun slot => dropGlue nominals.layouts slot.ty slot.path)
        fun leaf => leaf ∈ dropGlue nominals.layouts ty path ∧
          ∀ rest ∈ moved, ¬ path ++ rest <+: leaf := by
  induction ty using nominals.layouts.finite.induction generalizing path moved with
  | _ ty ih =>
  rw [registerMatchRemainder]
  by_cases hnone : moved.isEmpty
  · rw [if_pos hnone]
    obtain rfl := isEmpty_iff.mp hnone
    refine ⟨_, rfl, by simpa using hneeds, ?_⟩
    simpa [DropsExactly] using dropGlue_nodup ty path
  rw [if_neg hnone]
  by_cases hwhole : moved.any isEmpty
  · rw [if_pos (.inl hwhole)]
    refine ⟨_, rfl, nofun, nodup_nil, fun leaf => ?_⟩
    obtain ⟨rest, hrest, hempty⟩ := any_eq_true.mp hwhole
    obtain rfl := isEmpty_iff.mp hempty
    simp only [flatMap_nil, not_mem_nil, false_iff, not_and]
    intro hleaf hkept
    exact hkept [] hrest (by simpa using isPrefix_of_mem_dropGlue hleaf)
  rw [if_neg (by simp [hwhole, hneeds])]
  -- Some path goes on into a field.
  obtain ⟨index, rest, hmoved⟩ : ∃ index rest, index :: rest ∈ moved := by
    cases moved with
    | nil => exact absurd rfl hnone
    | cons path others =>
      cases path with
      | nil => simp at hwhole
      | cons index rest => exact ⟨index, rest, mem_cons_self⟩
  obtain ⟨⟨projections, part, hwalks⟩, hcross⟩ := hmovable _ hmoved
  have hmethod : nominals.layouts.hasDropMethod ty = false := by
    simp only [crossesCustomDrop, Bool.or_eq_false_iff] at hcross
    exact hcross.1
  rw [if_neg (by simp [hmethod])]
  have hunit : dropsAsUnit nominals.layouts ty = false := by
    cases hwalks <;> simp [dropsAsUnit, hmethod]
  have hchildren (child : Nat × Ty) (hchild : child ∈ nominals.layouts.dropChildren ty) :
      ∃ slots, registerMatchRemainder nominals child.2 (path ++ [child.1])
          (childPaths child.1 moved) = .ok slots ∧
        (∀ slot ∈ slots, nominals.layouts.needsDrop slot.ty) ∧
        DropsExactly (slots.flatMap fun slot => dropGlue nominals.layouts slot.ty slot.path)
          fun leaf => leaf ∈ dropGlue nominals.layouts child.2 (path ++ [child.1]) ∧
            ∀ rest ∈ moved, ¬ path ++ rest <+: leaf := by
    have hchildPaths : ∀ rest ∈ childPaths child.1 moved, Movable nominals.layouts child.2 rest :=
      fun rest hrest => (hmovable _ (mem_childPaths.mp hrest)).child hchild
    obtain ⟨slots, hslots, hall, hdrops⟩ := ih child.2
      (nominals.layouts.contains_of_mem_dropChildren hchild) (hwalks.needsDrop_of_mem hchild)
      hchildPaths
    refine ⟨slots, hslots, hall, hdrops.congr fun leaf => and_congr_right fun hleaf => ?_⟩
    simp only [mem_childPaths, append_assoc, singleton_append]
    refine ⟨fun hkept rest hrest hbelow => ?_, fun hkept rest hrest => hkept _ hrest⟩
    cases rest with
    | nil => exact hwhole (any_eq_true.mpr ⟨[], hrest, rfl⟩)
    | cons field rest =>
      obtain rfl : field = child.1 := child_eq_of_isPrefix
        (((prefix_append _ rest).trans (by simp)).trans hbelow)
        (isPrefix_of_mem_dropGlue hleaf)
      exact hkept rest hrest hbelow
  choose! slots hslots using hchildren
  have hfields : ((nominals.layouts.dropChildren ty).attach.mapM fun child =>
      registerMatchRemainder nominals child.1.2 (path ++ [child.1.1])
        (childPaths child.1.1 moved)) =
        .ok ((nominals.layouts.dropChildren ty).map slots) := by
    let register (child : Nat × Ty) := registerMatchRemainder nominals child.2 (path ++ [child.1])
      (childPaths child.1 moved)
    have hunattach : ((nominals.layouts.dropChildren ty).attach.mapM fun child =>
        register child.1) = (nominals.layouts.dropChildren ty).mapM register := by
      simp
    refine hunattach.trans (mapM_eq_ok.mpr ?_)
    rw [forall₂_map_right_iff, forall₂_same]
    exact fun child hchild => (hslots child hchild).1
  refine ⟨((nominals.layouts.dropChildren ty).map slots).flatten, ?_, ?_, ?_⟩
  · cases hwalks with
    | tuple => simp [hfields, bind, Except.bind, pure, Except.pure]
    | struct hlayout => simp [hfields, hlayout, bind, Except.bind, pure, Except.pure]
  · intro slot hslot
    rw [← flatMap_def] at hslot
    obtain ⟨child, hchild, hslot⟩ := mem_flatMap.mp hslot
    exact (hslots child hchild).2.1 slot hslot
  · rw [← flatMap_def, flatMap_assoc]
    refine (DropsExactly.flatMap (fun child hchild => (hslots child hchild).2.2) ?_).congr ?_
    · refine (dropChildren_pairwise ty).imp fun hne leaf hleft hright => hne ?_
      exact child_eq_of_isPrefix (isPrefix_of_mem_dropGlue hleft.1)
        (isPrefix_of_mem_dropGlue hright.1)
    · intro leaf
      rw [mem_dropGlue]
      simp [hneeds, hunit]
      tauto

/-! ## The matched payload -/

theorem drops_fresh (slot : MatchSlot) :
    slot.drops nominals (fun _ => true) = dropGlue nominals.layouts slot.ty slot.path := by
  have hglue : dropGlue nominals.layouts slot.ty (slot.path ++ []) = _ :=
    dropGlue_append slot.ty slot.path []
  rw [append_nil] at hglue
  rw [MatchSlot.drops, conditionalDrop_eq, if_pos rfl, hglue]

theorem payloadOf_cons (scrutinee : Ty) (variant index : Nat) (rest : List Nat) :
    payloadOf nominals scrutinee variant (index :: rest) = [index :: rest] := by
  cases scrutinee <;> rfl

variable {scrutinee : Ty}

theorem payloadOf_aggregate (haggr : ∀ name, scrutinee ≠ .enum name) (variant : Nat)
    (leaf : List Nat) : payloadOf nominals scrutinee variant leaf = [leaf] := by
  cases scrutinee with
  | enum name => exact absurd rfl (haggr name)
  | _ => rfl

theorem flatMap_payloadOf_of_isPrefix {variant index : Nat} {leaves : List (List Nat)}
    (hbelow : ∀ leaf ∈ leaves, index :: path <+: leaf) :
    leaves.flatMap (payloadOf nominals scrutinee variant) = leaves := by
  have hself : ∀ leaf ∈ leaves, payloadOf nominals scrutinee variant leaf = [leaf] := by
    intro leaf hleaf
    obtain ⟨rest, rfl⟩ := hbelow leaf hleaf
    exact payloadOf_cons _ _ _ _
  rw [flatMap_congr hself, flatMap_singleton']

theorem payloadLeaves_aggregate (haggr : ∀ name, scrutinee ≠ .enum name) (variant : Nat) :
    payloadLeaves nominals scrutinee variant = dropGlue nominals.layouts scrutinee [] := by
  rw [payloadLeaves, flatMap_congr fun leaf _ => payloadOf_aggregate haggr variant leaf,
    flatMap_singleton']

variable {leaf : List Nat}

section

variable {name : String} {layout : EnumLayout} {variant : Nat} {entry : VariantLayout}

theorem needsDrop_enum (hlayout : nominals.layouts.enumLayout name = some layout)
    (hentry : layout.variants[variant]? = some entry) {field : FieldLayout}
    (hfield : field ∈ entry.fields) (hneeds : nominals.layouts.needsDrop field.ty) :
    nominals.layouts.needsDrop (.enum name) := by
  rw [needsDrop, Bool.or_eq_true]
  right
  split
  next found hfound =>
    cases hlayout.symm.trans hfound
    exact any_eq_true.mpr ⟨⟨entry, mem_of_getElem? hentry⟩, mem_attach _ _,
      any_eq_true.mpr ⟨⟨field, hfield⟩, mem_attach _ _, hneeds⟩⟩
  next hnone =>
    rw [hlayout] at hnone
    contradiction

/-- The drop of an enum is one leaf, which stands for the leaves of the variant. -/
theorem payloadLeaves_enum (hlayout : nominals.layouts.enumLayout name = some layout) :
    payloadLeaves nominals (.enum name) variant =
      if nominals.layouts.needsDrop (.enum name) then variantLeaves nominals layout variant
      else [] := by
  rw [payloadLeaves, dropGlue_eq]
  by_cases hneeds : nominals.layouts.needsDrop (.enum name)
  · simp [hneeds, dropsAsUnit, payloadOf, hlayout]
  · simp [hneeds]

theorem mem_payloadLeaves_enum (hlayout : nominals.layouts.enumLayout name = some layout)
    (hentry : layout.variants[variant]? = some entry) :
    leaf ∈ payloadLeaves nominals (.enum name) variant ↔ ∃ field ∈ entry.fields.zipIdx,
      leaf ∈ dropGlue nominals.layouts field.1.ty
        [1 + payloadOffset layout variant + field.2] := by
  have hmem : leaf ∈ variantLeaves nominals layout variant ↔ ∃ field ∈ entry.fields.zipIdx,
      leaf ∈ dropGlue nominals.layouts field.1.ty
        [1 + payloadOffset layout variant + field.2] := by
    simp only [variantLeaves, hentry, mem_flatMap]
  rw [payloadLeaves_enum hlayout, ← hmem]
  refine ⟨fun hleaf => ?_, fun hleaf => ?_⟩
  · split at hleaf
    · exact hleaf
    · exact nomatch hleaf
  · obtain ⟨field, hfield, hglue⟩ := hmem.mp hleaf
    rwa [if_pos (needsDrop_enum hlayout hentry (fst_mem_of_mem_zipIdx hfield)
      (needsDrop_of_mem_dropGlue hglue))]

theorem eq_of_singleton_isPrefix {first second : Nat} (hfst : [first] <+: leaf)
    (hsnd : [second] <+: leaf) : first = second :=
  @child_eq_of_isPrefix [] leaf first second hfst hsnd

theorem variantFields_apart (fields : List FieldLayout) (offset : Nat) :
    fields.zipIdx.Pairwise fun first second => ∀ leaf : List Nat,
      [offset + first.2] <+: leaf → ¬ [offset + second.2] <+: leaf := by
  have hdist := zipIdx_filter_pairwise_snd_ne fields fun _ => true
  rw [filter_true] at hdist
  refine hdist.imp fun hne leaf hfst hsnd => hne ?_
  have hsame : offset + _ = offset + _ := eq_of_singleton_isPrefix hfst hsnd
  omega

theorem payloadLeaves_nodup (hlayout : nominals.layouts.enumLayout name = some layout)
    (hentry : layout.variants[variant]? = some entry) :
    (payloadLeaves nominals (.enum name) variant).Nodup := by
  rw [payloadLeaves_enum hlayout]
  split
  · simp only [variantLeaves, hentry, nodup_flatMap]
    refine ⟨fun field _ => dropGlue_nodup _ _, ?_⟩
    refine (variantFields_apart entry.fields (1 + payloadOffset layout variant)).imp
      fun hapart leaf hleft hright => ?_
    exact hapart leaf (isPrefix_of_mem_dropGlue hleft) (isPrefix_of_mem_dropGlue hright)
  · exact nodup_nil

end

/-! ## What a binding takes -/

/-- The leaves of a part belong to the whole, unless a destructor stands in between. -/
theorem Walks.mem_dropGlue {part : Ty} (hwalks : Walks nominals.layouts ty rest projections part)
    (hcross : crossesCustomDrop nominals.layouts ty rest = false)
    (hleaf : leaf ∈ dropGlue nominals.layouts part (path ++ rest)) :
    leaf ∈ dropGlue nominals.layouts ty path := by
  induction hwalks generalizing path with
  | self ty => simpa using hleaf
  | @tuple fields index field part rest _ hfield hrest ih =>
    have hproject : nominals.layouts.project (.tuple fields) index = some field := hfield
    simp only [crossesCustomDrop, hproject, Bool.or_eq_false_iff] at hcross
    rw [append_cons] at hleaf
    have hbelow := ih hcross.2 hleaf
    have hchild : (index, field) ∈ nominals.layouts.dropChildren (.tuple fields) :=
      mem_map.mpr ⟨(field, index), mem_filter.mpr
        ⟨mem_zipIdx_iff_getElem?.mpr hfield, needsDrop_of_mem_dropGlue hbelow⟩, rfl⟩
    exact mem_dropGlue_child hcross.1 hchild hbelow
  | @struct name layout index field part rest _ hlayout hfield hrest ih =>
    have hproject : nominals.layouts.project (.struct name) index = some field.ty := by
      simp [project, hlayout, hfield]
    simp only [crossesCustomDrop, hproject, Bool.or_eq_false_iff] at hcross
    rw [append_cons] at hleaf
    have hbelow := ih hcross.2 hleaf
    have hchild : (index, field.ty) ∈ nominals.layouts.dropChildren (.struct name) := by
      simp only [dropChildren, hlayout]
      exact mem_map.mpr ⟨(field, index), mem_filter.mpr
        ⟨mem_zipIdx_iff_getElem?.mpr hfield, needsDrop_of_mem_dropGlue hbelow⟩, rfl⟩
    exact mem_dropGlue_child hcross.1 hchild hbelow

theorem Walks.mem_dropGlue_iff {part : Ty}
    (hwalks : Walks nominals.layouts ty rest projections part)
    (hcross : crossesCustomDrop nominals.layouts ty rest = false) :
    leaf ∈ dropGlue nominals.layouts part (path ++ rest) ↔
      leaf ∈ dropGlue nominals.layouts ty path ∧ path ++ rest <+: leaf :=
  ⟨fun hleaf => ⟨hwalks.mem_dropGlue hcross hleaf, isPrefix_of_mem_dropGlue hleaf⟩,
    fun ⟨hleaf, hbelow⟩ => mem_dropGlue_of_isPrefix hwalks.typeAt hleaf hbelow⟩

theorem exists_variant {name : String} {variant : Nat}
    (hvar : variant < nominals.variants (.enum name)) :
    ∃ layout entry, nominals.layouts.enumLayout name = some layout ∧
      layout.variants[variant]? = some entry := by
  cases hlayout : nominals.layouts.enumLayout name with
  | none => simp [Nominals.variants, hlayout] at hvar
  | some layout =>
    simp only [Nominals.variants, hlayout, Option.map_some, Option.getD_some] at hvar
    exact ⟨layout, _, rfl, getElem?_eq_getElem hvar⟩

variable {pattern : Pattern}

theorem Selects.eq_of_nil {layouts : Layouts} {part : Ty} {name : String}
    (hselects : Selects layouts pattern ty name [] part) : part = ty := by
  generalize hnone : ([] : List Cleanup.Projection) = projections at hselects
  cases hselects with
  | binding | integer | bool => rfl
  | tuple | struct | variant => exact nomatch hnone

/-- A binding that moves drops the leaves of the payload that are below its path. -/
theorem ArmBinding.drops {matcher : HirMatcher} {binding : HirPatternBinding} {variant : Nat}
    (hbind : ArmBinding nominals pattern binding scrutinee matcher)
    (hcovers : matcher.Covers variant) (hvar : variant < nominals.variants scrutinee)
    (hmoves : binding.moves = true) :
    DropsExactly ((binding.slot.drops nominals fun _ => true).flatMap
        (payloadOf nominals scrutinee variant)) fun leaf =>
      leaf ∈ payloadLeaves nominals scrutinee variant ∧ binding.path <+: leaf := by
  simp only [drops_fresh, HirPatternBinding.slot]
  cases hbind with
  | aggregate haggr hplaced =>
    obtain ⟨rest, projections, hpath, hwalks, _, _, hcross⟩ := hplaced
    rw [flatMap_congr fun leaf _ => payloadOf_aggregate haggr variant leaf,
      flatMap_singleton', payloadLeaves_aggregate haggr]
    refine ⟨dropGlue_nodup _ _, fun leaf => ?_⟩
    rw [hpath]
    exact hwalks.mem_dropGlue_iff (hcross hmoves)
  | @whole name hpath hselects =>
    obtain ⟨layout, entry, hlayout, hentry⟩ := exists_variant hvar
    rw [hpath, hselects.eq_of_nil]
    exact ⟨payloadLeaves_nodup hlayout hentry,
      fun leaf => (and_iff_left nil_prefix).symm⟩
  | @payload name layout entry position index field rest projections hlayout hentry hfield hpath
      hwalks hselects hcross hown =>
      obtain rfl : position = variant := by
        rcases hcovers with hall | hvar
        · exact nomatch hall
        · exact HirMatcher.variant.inj hvar
      rw [hpath, flatMap_payloadOf_of_isPrefix fun leaf hleaf => isPrefix_of_mem_dropGlue hleaf]
      refine ⟨dropGlue_nodup _ _, fun leaf => ?_⟩
      dsimp only
      rw [mem_payloadLeaves_enum hlayout hentry, ← singleton_append,
        hwalks.mem_dropGlue_iff (hcross hmoves)]
      refine and_congr_left fun hbelow => ⟨fun hleaf => ?_, fun hleaf => ?_⟩
      · exact ⟨(field, index), mem_zipIdx_iff_getElem?.mpr hfield, hleaf⟩
      · obtain ⟨⟨other, number⟩, hother, hleaf⟩ := hleaf
        have hsame : 1 + payloadOffset layout position + number =
            1 + payloadOffset layout position + index :=
          eq_of_singleton_isPrefix (isPrefix_of_mem_dropGlue hleaf)
            ((prefix_append _ rest).trans hbelow)
        obtain rfl : number = index := by omega
        obtain rfl : field = other := Option.some.inj
          (hfield.symm.trans (mem_zipIdx_iff_getElem?.mp hother))
        exact hleaf

/-- Some binding takes the leaf with it. -/
def TakenBy (bindings : List HirPatternBinding) (leaf : List Nat) : Prop :=
  ∃ binding ∈ bindings, binding.moves = true ∧ binding.path <+: leaf

variable {state : MatchOwnership}

section

variable {scrutinee : Ty} {pattern : Pattern} {matcher : HirMatcher}
  {bindings : List HirPatternBinding} {variant : Nat}

/-- The slots of the bindings of an arm drop the leaves that the bindings take. -/
theorem owningBindings_drops
    (hlowered : ArmLowered nominals scrutinee .consumed pattern matcher bindings)
    (hcovers : matcher.Covers variant) (hvar : variant < nominals.variants scrutinee) :
    DropsExactly ((((owningBindings nominals bindings).map (·.slot)).flatMap fun slot =>
        slot.drops nominals fun _ => true).flatMap (payloadOf nominals scrutinee variant))
      fun leaf => leaf ∈ payloadLeaves nominals scrutinee variant ∧ TakenBy bindings leaf := by
  have howning {binding : HirPatternBinding}
      (hbind : binding ∈ owningBindings nominals bindings) :
      binding ∈ bindings ∧ binding.moves = true ∧ nominals.layouts.needsDrop binding.ty := by
    simpa [owningBindings] using hbind
  have hdrops {binding : HirPatternBinding} (hbind : binding ∈ bindings)
      (hmoves : binding.moves = true) : DropsExactly _ _ :=
    (hlowered.stands binding hbind).drops hcovers hvar hmoves
  rw [flatMap_map, flatMap_assoc]
  refine (DropsExactly.flatMap (fun binding hbind =>
    hdrops (howning hbind).1 (howning hbind).2.1) ?_).congr ?_
  · refine (hlowered.apart.sublist filter_sublist).imp fun hapart leaf hleft hright => ?_
    rcases prefix_or_prefix_of_prefix hleft.2 hright.2 with hbelow | hbelow
    · exact hapart.1 hbelow
    · exact hapart.2 hbelow
  · intro leaf
    constructor
    · rintro ⟨binding, hbind, hleaf, hbelow⟩
      exact ⟨hleaf, binding, (howning hbind).1, (howning hbind).2.1, hbelow⟩
    · rintro ⟨hleaf, binding, hbind, hmoves, hbelow⟩
      have hdropped := ((hdrops hbind hmoves).2 leaf).mpr ⟨hleaf, hbelow⟩
      rw [drops_fresh] at hdropped
      obtain ⟨part, hpart, _⟩ := mem_flatMap.mp hdropped
      have hneeds : nominals.layouts.needsDrop binding.ty := needsDrop_of_mem_dropGlue hpart
      exact ⟨binding, mem_filter.mpr ⟨hbind, by simp [hmoves, hneeds]⟩, hleaf, hbelow⟩

/-- What is left of the scrutinee is what no binding takes. -/
def LeavesRest (nominals : Nominals) (scrutinee : Ty) (variant : Nat)
    (bindings : List HirPatternBinding) (state : MatchOwnership) : Prop :=
  DropsExactly (state.remainderDrops nominals scrutinee variant) fun leaf =>
    leaf ∈ payloadLeaves nominals scrutinee variant ∧ ¬ TakenBy bindings leaf

/-! ## Preparing an arm -/

theorem drops_enum (name : String) (flags : DropFlags) :
    MatchSlot.drops nominals ⟨.enum name, []⟩ flags =
      if flags [] then dropGlue nominals.layouts (.enum name) [] else [] := by
  rw [MatchSlot.drops, conditionalDrop_eq]
  split
  · simp
  · simp [dropChildren, LocalAction.sequence]

section

variable {name : String} {layout : EnumLayout} {entry : VariantLayout}

theorem mem_movedPaths : path ∈ movedPaths bindings ↔
    ∃ binding ∈ bindings, binding.moves = true ∧ binding.path = path := by
  simp [movedPaths, and_assoc]

section
variable (hlowered : ArmLowered nominals (.enum name) .consumed pattern matcher bindings)
include hlowered

/-- The bindings go on from a field of the variant to parts that may be moved. -/
theorem movable_of_mem_childPaths (hcovers : matcher.Covers variant)
    (hlayout : nominals.layouts.enumLayout name = some layout)
    (hentry : layout.variants[variant]? = some entry) {field : FieldLayout × Nat}
    (hfield : field ∈ entry.fields.zipIdx) :
    ∀ rest ∈ childPaths (1 + payloadOffset layout variant + field.2) (movedPaths bindings),
      Movable nominals.layouts field.1.ty rest := by
  intro rest hrest
  obtain ⟨binding, hbind, hmoves, hpath⟩ := mem_movedPaths.mp (mem_childPaths.mp hrest)
  cases hlowered.stands binding hbind with
  | aggregate haggr => exact absurd rfl (haggr name)
  | whole hwhole => exact nomatch hwhole.symm.trans hpath
  | @payload _ other found position index part tail projections hother hfound hpart hplace hwalks _
      hcross _ =>
      obtain rfl : layout = other := Option.some.inj (hlayout.symm.trans hother)
      obtain rfl : position = variant := by
        rcases hcovers with hall | hvar
        · exact nomatch hall
        · exact HirMatcher.variant.inj hvar
      obtain rfl : entry = found := Option.some.inj (hentry.symm.trans hfound)
      obtain ⟨hidx, rfl⟩ := cons.inj (hplace.symm.trans hpath)
      obtain rfl : index = field.2 := by omega
      obtain rfl : part = field.1 := Option.some.inj
        (hpart.symm.trans (mem_zipIdx_iff_getElem?.mp hfield))
      exact ⟨⟨projections, binding.ty, hwalks⟩, hcross hmoves⟩

/-- The slots that the fields of a variant get drop what no binding takes. -/
theorem registerFields_drops (hcovers : matcher.Covers variant)
    (hlayout : nominals.layouts.enumLayout name = some layout)
    (hentry : layout.variants[variant]? = some entry)
    (hparts : ∀ binding ∈ bindings, binding.moves = true → binding.path ≠ []) :
    ∃ slots, ((entry.fields.zipIdx.filter fun (field, _) =>
          nominals.layouts.needsDrop field.ty).mapM fun (field, index) =>
        registerMatchRemainder nominals field.ty [1 + payloadOffset layout variant + index]
          (childPaths (1 + payloadOffset layout variant + index) (movedPaths bindings))) =
        .ok slots ∧
      DropsExactly (slots.flatten.flatMap fun slot => dropGlue nominals.layouts slot.ty slot.path)
        fun leaf => leaf ∈ payloadLeaves nominals (.enum name) variant ∧
          ¬ TakenBy bindings leaf := by
  have hfields (field : FieldLayout × Nat) (hfield : field ∈ entry.fields.zipIdx.filter
      fun (field, _) => nominals.layouts.needsDrop field.ty) :
      ∃ slots, registerMatchRemainder nominals field.1.ty
          [1 + payloadOffset layout variant + field.2]
          (childPaths (1 + payloadOffset layout variant + field.2) (movedPaths bindings)) =
          .ok slots ∧
        DropsExactly (slots.flatMap fun slot => dropGlue nominals.layouts slot.ty slot.path)
          fun leaf => leaf ∈ dropGlue nominals.layouts field.1.ty
              [1 + payloadOffset layout variant + field.2] ∧ ¬ TakenBy bindings leaf := by
    obtain ⟨hmem, hneeds⟩ := mem_filter.mp hfield
    obtain ⟨slots, hslots, _, hdrops⟩ := registerMatchRemainder_drops hneeds
      (movable_of_mem_childPaths hlowered hcovers hlayout hentry hmem)
    refine ⟨slots, hslots, hdrops.congr fun leaf => and_congr_right fun hleaf => ?_⟩
    constructor
    · rintro hkept ⟨binding, hbind, hmoves, hbelow⟩
      cases hpath : binding.path with
      | nil => exact hparts binding hbind hmoves hpath
      | cons index rest =>
        rw [hpath] at hbelow
        obtain rfl : index = 1 + payloadOffset layout variant + field.2 :=
          eq_of_singleton_isPrefix ((prefix_append _ rest).trans hbelow)
            (isPrefix_of_mem_dropGlue hleaf)
        refine hkept rest (mem_childPaths.mpr ?_) hbelow
        exact hpath ▸ mem_movedPaths.mpr ⟨binding, hbind, hmoves, rfl⟩
    · intro hkept rest hrest hbelow
      obtain ⟨binding, hbind, hmoves, hpath⟩ := mem_movedPaths.mp (mem_childPaths.mp hrest)
      exact hkept ⟨binding, hbind, hmoves, hpath ▸ hbelow⟩
  choose! slots hslots using hfields
  refine ⟨_, mapM_eq_ok.mpr (forall₂_map_right_iff.mpr (forall₂_same.mpr
    fun field hfield => (hslots field hfield).1)), ?_⟩
  rw [← flatMap_def, flatMap_assoc]
  refine (DropsExactly.flatMap (fun field hfield => (hslots field hfield).2) ?_).congr ?_
  · refine ((variantFields_apart entry.fields (1 + payloadOffset layout variant)).sublist
      filter_sublist).imp fun hapart leaf hleft hright => ?_
    exact hapart leaf (isPrefix_of_mem_dropGlue hleft.1) (isPrefix_of_mem_dropGlue hright.1)
  · intro leaf
    rw [mem_payloadLeaves_enum hlayout hentry]
    constructor
    · rintro ⟨field, hfield, hleaf, hkept⟩
      exact ⟨⟨field, mem_of_mem_filter hfield, hleaf⟩, hkept⟩
    · rintro ⟨⟨field, hfield, hleaf⟩, hkept⟩
      exact ⟨field, mem_filter.mpr ⟨hfield, needsDrop_of_mem_dropGlue hleaf⟩, hleaf, hkept⟩

theorem prepareMatch_leavesRest (hcovers : matcher.Covers variant)
    (hlayout : nominals.layouts.enumLayout name = some layout)
    (hentry : layout.variants[variant]? = some entry) (hroot : state.root = some fun _ => true)
    (hrem : state.remainder = []) :
    ∃ next, prepareMatchPatternOwnership nominals layout variant bindings state = .ok next ∧
      LeavesRest nominals (.enum name) variant bindings next ∧ next.locals = state.locals ∧
      next.bindings = state.bindings := by
  have hnodup : (payloadLeaves nominals (.enum name) variant).Nodup :=
    payloadLeaves_nodup hlayout hentry
  unfold prepareMatchPatternOwnership
  by_cases hmoving : bindings.any (·.moves) = false
  · rw [if_pos hmoving]
    have hnone (leaf : List Nat) : ¬ TakenBy bindings leaf := by
      rintro ⟨binding, hbind, hmoves, _⟩
      exact nomatch hmoving.symm.trans (List.any_eq_true.mpr ⟨binding, hbind, hmoves⟩)
    refine ⟨state, rfl, ?_, rfl, rfl⟩
    have hdrops : state.remainderDrops nominals (.enum name) variant =
        payloadLeaves nominals (.enum name) variant := by
      simp [MatchOwnership.remainderDrops, hroot, hrem, drops_enum, payloadLeaves]
    rw [LeavesRest, hdrops]
    exact ⟨hnodup, fun leaf => (and_iff_left (hnone leaf)).symm⟩
  rw [if_neg hmoving]
  dsimp only
  by_cases hwhole : bindings.any fun binding => binding.moves && binding.path.isEmpty
  · rw [if_pos hwhole]
    have hall (leaf : List Nat) : TakenBy bindings leaf := by
      obtain ⟨binding, hbind, htakes⟩ := List.any_eq_true.mp hwhole
      simp only [Bool.and_eq_true, List.isEmpty_iff] at htakes
      exact ⟨binding, hbind, htakes.1, by simp [htakes.2]⟩
    refine ⟨_, rfl, ?_, rfl, rfl⟩
    rw [LeavesRest]
    have hdrops : MatchOwnership.remainderDrops nominals (.enum name) variant
        { state with root := state.root.map fun flags => Function.update flags [] false } = [] := by
      simp [MatchOwnership.remainderDrops, hroot, hrem, drops_enum]
    rw [hdrops]
    exact ⟨nodup_nil, fun leaf => by simp [hall leaf]⟩
  rw [if_neg hwhole]
  obtain ⟨slots, hslots, hdrops⟩ := registerFields_drops hlowered hcovers hlayout hentry (by
    intro binding hbind hmoves hpath
    exact hwhole (List.any_eq_true.mpr ⟨binding, hbind, by simp [hmoves, hpath]⟩))
  simp only [hentry]
  refine ⟨_, bind_eq_ok.mpr ⟨slots, hslots, rfl⟩, ?_, rfl, rfl⟩
  rw [LeavesRest]
  have hrest : MatchOwnership.remainderDrops nominals (.enum name) variant
      { state with
        root := state.root.map fun flags => Function.update flags [] false
        remainder := state.remainder ++ slots.flatten } =
      slots.flatten.flatMap fun slot => dropGlue nominals.layouts slot.ty slot.path := by
    simp only [MatchOwnership.remainderDrops, hroot, hrem, Option.map_some,
      Option.toList_some, flatMap_cons, flatMap_nil, drops_enum, Function.update_self,
      Bool.false_eq_true, if_false, nil_append, append_nil, drops_fresh]
    rw [flatMap_congr, flatMap_singleton']
    intro leaf hleaf
    obtain ⟨field, _, hfield⟩ := (mem_payloadLeaves_enum hlayout hentry).mp
      ((hdrops.2 leaf).mp hleaf).1
    obtain ⟨rest, rfl⟩ := isPrefix_of_mem_dropGlue hfield
    exact payloadOf_cons _ _ _ _
  rw [hrest]
  exact hdrops

end

end

theorem storeFlags_append (flags : DropFlags) (first second : List (List Nat × Bool)) :
    storeFlags flags (first ++ second) = storeFlags (storeFlags flags first) second :=
  foldl_append

/-- Storing `false` in some flags does not depend on the order, or on how often. -/
theorem storeFlags_congr {first second : List (List Nat × Bool)}
    (hfalse : ∀ update ∈ second, update.2 = false)
    (hsame : ∀ update, update ∈ first ↔ update ∈ second) (flags : DropFlags) :
    storeFlags flags first = storeFlags flags second := by
  funext slot
  by_cases hmem : (slot, false) ∈ second
  · rw [storeFlags_eq_of_mem (fun value hval => hfalse _ hval) hmem,
      storeFlags_eq_of_mem (fun value hval => hfalse _ ((hsame _).mp hval))
        ((hsame _).mpr hmem)]
  · have hnone (value : Bool) : (slot, value) ∉ second := by
      intro hval
      obtain rfl : value = false := hfalse _ hval
      exact hmem hval
    rw [storeFlags_eq_of_forall_ne hnone,
      storeFlags_eq_of_forall_ne fun value hval => hnone value ((hsame _).mp hval)]

theorem collectPlaceFlagUpdates_false (nominals : Nominals) (ty : Ty) (paths : List (List Nat)) :
    ∀ update ∈ paths.flatMap fun path => collectPlaceFlagUpdates path false false
      (buildDropSlot nominals.layouts ty []), update.2 = false := by
  intro update hupdate
  obtain ⟨path, _, hmem⟩ := mem_flatMap.mp hupdate
  have hmem : (update.1, update.2) ∈ _ := hmem
  obtain ⟨_, hval⟩ := mem_collectPlaceFlagUpdates.mp hmem
  by_contra htrue
  simp [flagUpdate, Bool.eq_true_of_not_eq_false htrue] at hval

theorem flagsExact_moved (hneeds : nominals.layouts.needsDrop scrutinee) {paths : List (List Nat)}
    (hpaths : ∀ path ∈ paths, Movable nominals.layouts scrutinee path) {live : Finset (List Nat)}
    {flags : DropFlags} (hexact : FlagsExact nominals.layouts live flags scrutinee []) :
    FlagsExact nominals.layouts (live.filter fun leaf => ∀ path ∈ paths, ¬ path <+: leaf)
      (storeFlags flags (paths.flatMap fun path =>
        collectPlaceFlagUpdates path false false
          (buildDropSlot nominals.layouts scrutinee []))) scrutinee [] := by
  induction paths generalizing live flags with
  | nil => simpa [storeFlags] using hexact
  | cons path rest ih =>
    obtain ⟨⟨⟨projections, part, hwalks⟩, hcross⟩, hrest⟩ := forall_mem_cons.mp hpaths
    obtain ⟨place, hroot, rfl⟩ : ∃ place : HirPlace nominals.layouts,
        place.rootTy = scrutinee ∧ place.projections = path :=
      ⟨⟨0, scrutinee, path, part, hwalks.typeAt⟩, rfl, rfl⟩
    have hmoved := hexact.moved hroot hcross
    rw [LocalState.updatePlaceDropFlags, if_pos hneeds] at hmoved
    have hboth := ih hrest hmoved
    rw [Finset.filter_filter] at hboth
    rw [flatMap_cons, storeFlags_append]
    simpa only [forall_mem_cons] using hboth

theorem prepareIrrefutable_leavesRest
    (haggr : (∃ fields, scrutinee = .tuple fields) ∨ ∃ name, scrutinee = .struct name)
    (hlowered : ArmLowered nominals scrutinee .consumed pattern matcher bindings)
    (hneeds : nominals.layouts.needsDrop scrutinee) (hroot : state.root = some fun _ => true)
    (hrem : state.remainder = []) :
    ∃ next, prepareIrrefutablePatternOwnership nominals scrutinee bindings state = .ok next ∧
      LeavesRest nominals scrutinee variant bindings next ∧ next.locals = state.locals ∧
      next.bindings = state.bindings := by
  have hnoEnum : ∀ name, scrutinee ≠ .enum name := by
    rcases haggr with ⟨fields, rfl⟩ | ⟨name, rfl⟩ <;> exact nofun
  have hmovable : ∀ path ∈ movedPaths bindings, Movable nominals.layouts scrutinee path := by
    intro path hpath
    obtain ⟨binding, hbind, hmoves, rfl⟩ := mem_movedPaths.mp hpath
    cases hlowered.stands binding hbind with
    | aggregate _ hplaced =>
      obtain ⟨rest, projections, hpath, hwalks, _, _, hcross⟩ := hplaced
      rw [hpath]
      exact ⟨⟨projections, _, hwalks⟩, hcross hmoves⟩
    | whole => exact absurd rfl (hnoEnum _)
    | payload => exact absurd rfl (hnoEnum _)
  have hexact := flagsExact_moved hneeds hmovable
    (⟨fun rest part hslot _ leaf hleaf => mem_toFinset.mpr (FlagsExact.mem_whole hslot hleaf),
      fun _ _ _ _ _ => rfl⟩ : FlagsExact nominals.layouts
        (dropGlue nominals.layouts scrutinee []).toFinset (fun _ => true) scrutinee [])
  rw [← storeFlags_congr (collectPlaceFlagUpdates_false nominals scrutinee (movedPaths bindings))
    fun _ => mem_dedup] at hexact
  generalize hflags : storeFlags (fun _ => true) _ = flags at hexact
  refine ⟨{ state with root := some flags }, ?_, ?_, rfl, rfl⟩
  · rcases haggr with ⟨fields, rfl⟩ | ⟨name, rfl⟩ <;>
      simp only [prepareIrrefutablePatternOwnership, hroot, Option.map_some, hflags]
  have hdrops : MatchOwnership.remainderDrops nominals scrutinee variant
      { state with root := some flags } = (conditionalDrop nominals.layouts
          (buildDropSlot nominals.layouts scrutinee []) flags).1 := by
    simp only [MatchOwnership.remainderDrops, hrem, Option.toList_some, flatMap_cons,
      flatMap_nil, append_nil, MatchSlot.drops, nil_append, map_id']
    rw [flatMap_congr fun leaf _ => payloadOf_aggregate hnoEnum variant leaf, flatMap_singleton']
  rw [LeavesRest, hdrops]
  refine (conditionalDrop_exact hexact).congr fun leaf => ?_
  rw [payloadLeaves_aggregate hnoEnum, Finset.mem_filter, mem_toFinset]
  constructor
  · rintro ⟨hleaf, _, hkept⟩
    refine ⟨hleaf, ?_⟩
    rintro ⟨binding, hbind, hmoves, hbelow⟩
    exact hkept _ (mem_movedPaths.mpr ⟨binding, hbind, hmoves, rfl⟩) hbelow
  · rintro ⟨hleaf, hkept⟩
    refine ⟨hleaf, hleaf, fun path hpath hbelow => hkept ?_⟩
    obtain ⟨binding, hbind, hmoves, rfl⟩ := mem_movedPaths.mp hpath
    exact ⟨binding, hbind, hmoves, hbelow⟩

end

/-! ## Runs of a match -/

section

variable {scrutinee : Ty} {arms : List (MatchArm × Nat)} {access : ScrutineeAccess}

theorem lowerArm_diagnostics (state : MatchLowering) (arm : MatchArm × Nat) :
    (lowerArm nominals scrutinee access state arm).diagnostics = state.diagnostics ++
        (lowerArmPattern nominals scrutinee access arm.1.pattern arm.2).2.diagnostics :=
  rfl

theorem lowerArms_diagnostics (start : MatchLowering) :
    start.diagnostics <+: (arms.foldl (lowerArm nominals scrutinee access) start).diagnostics := by
  induction arms generalizing start with
  | nil => exact prefix_rfl
  | cons arm rest ih =>
    refine List.IsPrefix.trans ?_ (ih (lowerArm nominals scrutinee access start arm))
    rw [lowerArm_diagnostics]
    exact prefix_append _ _

/-- The arms of an accepted match are lowered without a diagnostic. -/
theorem foldl_lowerArm_lowered {start : MatchLowering}
    (hclean : (arms.foldl (lowerArm nominals scrutinee access) start).diagnostics = [])
    (hstart : ∀ arm ∈ start.arms,
      ∃ pattern, ArmLowered nominals scrutinee access pattern arm.matcher arm.bindings) :
    ∀ arm ∈ (arms.foldl (lowerArm nominals scrutinee access) start).arms,
      ∃ pattern, ArmLowered nominals scrutinee access pattern arm.matcher arm.bindings := by
  induction arms generalizing start with
  | nil => exact hstart
  | cons first rest ih =>
    have hfst : (lowerArm nominals scrutinee access start first).diagnostics <+: [] :=
      hclean ▸ lowerArms_diagnostics _
    rw [lowerArm_diagnostics, prefix_nil, append_eq_nil_iff] at hfst
    refine ih hclean fun arm harm => ?_
    rcases mem_append.mp harm with harm | harm
    · exact hstart arm harm
    · rw [mem_singleton.mp harm]
      exact ⟨_, lowerArmPattern_lowered hfst.2⟩

theorem lowerMatch_lowered (hclean : (lowerMatch nominals scrutinee access arms).diagnostics = []) :
    ∀ arm ∈ (lowerMatch nominals scrutinee access arms).arms,
      ∃ pattern, ArmLowered nominals scrutinee access pattern arm.matcher arm.bindings := by
  have hfold {variants : Nat} {more : List String} (hclean : (lowerArms nominals scrutinee access
      variants arms).diagnostics ++ more = []) :
      ∀ arm ∈ (lowerArms nominals scrutinee access variants arms).arms,
        ∃ pattern, ArmLowered nominals scrutinee access pattern arm.matcher arm.bindings :=
    foldl_lowerArm_lowered (append_eq_nil_iff.mp hclean).1 nofun
  unfold lowerMatch at hclean ⊢
  cases scrutinee with
  | enum name =>
    dsimp only at hclean ⊢
    cases hlayout : nominals.layouts.enumLayout name with
    | none => exact nofun
    | some layout =>
      simp only [hlayout, append_assoc] at hclean ⊢
      exact hfold hclean
  | tuple fields => exact hfold hclean
  | struct name => exact hfold hclean
  | _ => exact nofun

/-! ### The steps of an arm -/

variable {emission : Emission} {variant : Nat} {arm : HirMatchArm} {index : Nat}
  {hir : List HirMatchArm}

/-- The way to a guard stores the bindings of its arm, and registers nothing. -/
theorem own_guardSteps (harm : hir[index]? = some arm) (state : MatchOwnership) :
    (guardSteps index).foldlM (ownStep nominals scrutinee variant hir) state =
      .ok { state with locals := state.locals ++
        (arm.bindings.filter fun binding => !isUnit binding.ty).map (·.id) } := by
  simp [guardSteps, ownStep, harm, emitPatternBindings, bind, Except.bind, pure, Except.pure]

/-- A step that only stores bindings, of an arm that there is. -/
def Quiet (hir : List HirMatchArm) (step : MatchStep) : Prop :=
  match step with
  | .bind index false | .guard index => ∃ arm, hir[index]? = some arm
  | _ => False

/-- The way to a guard, and past the guards that are false, leaves the slots as they are. -/
theorem own_quiet {steps : List MatchStep} (hquiet : ∀ step ∈ steps, Quiet hir step)
    (state : MatchOwnership) :
    ∃ locals, steps.foldlM (ownStep nominals scrutinee variant hir) state =
      .ok { state with locals := locals } := by
  induction steps generalizing state with
  | nil => exact ⟨state.locals, rfl⟩
  | cons step rest ih =>
    obtain ⟨hstep, hrest⟩ := forall_mem_cons.mp hquiet
    rw [foldlM_cons]
    unfold Quiet at hstep
    split at hstep
    · obtain ⟨arm, harm⟩ := hstep
      simp only [ownStep, harm, emitPatternBindings, Bool.false_eq_true, if_false, append_nil]
      exact ih hrest _
    · exact ih hrest state
    · exact hstep.elim

theorem quiet_guardSteps (harm : hir[index]? = some arm) :
    ∀ step ∈ guardSteps index, Quiet hir step := by
  intro step hstep
  simp only [guardSteps, mem_cons, not_mem_nil, or_false] at hstep
  rcases hstep with rfl | rfl <;> exact ⟨arm, harm⟩

theorem quiet_passedSteps {front : List (HirMatchArm × Nat)}
    (hfront : ∀ entry ∈ front, hir[entry.2]? = some entry.1) :
    ∀ step ∈ passedSteps variant front, Quiet hir step := by
  intro step hstep
  obtain ⟨entry, hentry, hstep⟩ := mem_flatMap.mp hstep
  exact quiet_guardSteps (hfront entry (mem_of_mem_filter hentry)) step hstep

theorem owningBindings_stored (bindings : List HirPatternBinding) :
    owningBindings nominals (bindings.filter fun binding => !isUnit binding.ty) =
      owningBindings nominals bindings := by
  rw [owningBindings, owningBindings, filter_filter]
  refine filter_congr fun binding _ => ?_
  cases hty : binding.ty <;> simp [isUnit, needsDrop]

/-- The slots at the start of the body of an arm. -/
structure Owned (nominals : Nominals) (scrutinee : Ty) (variant : Nat)
    (bindings : List HirPatternBinding) (state : MatchOwnership) : Prop where
  /-- What no binding takes is left in the slots of the scrutinee. -/
  rest : LeavesRest nominals scrutinee variant bindings state
  slots : state.bindings = (owningBindings nominals bindings).map (·.slot)
  /-- The slots of the bindings hold what they take. -/
  taken : DropsExactly (state.bindingDrops nominals scrutinee variant) fun leaf =>
    leaf ∈ payloadLeaves nominals scrutinee variant ∧ TakenBy bindings leaf

theorem leavesRest_of_not_needsDrop {bindings : List HirPatternBinding}
    (hneeds : nominals.layouts.needsDrop scrutinee = false) (hroot : state.root = none)
    (hrem : state.remainder = []) :
    LeavesRest nominals scrutinee variant bindings state := by
  have hleaves : payloadLeaves nominals scrutinee variant = [] := by
    rw [payloadLeaves, dropGlue_eq]
    simp [hneeds]
  simp [LeavesRest, MatchOwnership.remainderDrops, hroot, hrem, hleaves, DropsExactly]

theorem own_prepareSteps
    (hlowered : ArmLowered nominals scrutinee .consumed pattern arm.matcher arm.bindings)
    (hcovers : arm.matcher.Covers variant) (hvar : variant < nominals.variants scrutinee)
    (harm : emission.arms[index]? = some arm)
    (hrooted : emission.rooted = nominals.layouts.needsDrop scrutinee)
    (hroot : state.root = (MatchOwnership.start nominals scrutinee).root)
    (hrem : state.remainder = []) :
    ∃ next, (emission.prepareSteps index).foldlM
        (ownStep nominals scrutinee variant emission.arms) state = .ok next ∧
      LeavesRest nominals scrutinee variant arm.bindings next ∧ next.locals = state.locals ∧
      next.bindings = state.bindings := by
  cases hneeds : nominals.layouts.needsDrop scrutinee with
  | false =>
    rw [MatchOwnership.start, hneeds] at hroot
    refine ⟨state, ?_, leavesRest_of_not_needsDrop hneeds hroot hrem, rfl, rfl⟩
    simp [Emission.prepareSteps, hrooted, hneeds, pure, Except.pure]
  | true =>
    rw [MatchOwnership.start, hneeds] at hroot
    have hsingle (next : MatchOwnership) (hstep : ownStep nominals scrutinee variant emission.arms
        state (.prepare index) = .ok next) : (emission.prepareSteps index).foldlM
          (ownStep nominals scrutinee variant emission.arms) state = .ok next := by
      simp [Emission.prepareSteps, hrooted, hneeds, hstep, bind, Except.bind, pure, Except.pure]
    have haggr (htype : (∃ fields, scrutinee = .tuple fields) ∨ ∃ name, scrutinee = .struct name) :
        ∃ next, (emission.prepareSteps index).foldlM
            (ownStep nominals scrutinee variant emission.arms) state = .ok next ∧
          LeavesRest nominals scrutinee variant arm.bindings next ∧ next.locals = state.locals ∧
          next.bindings = state.bindings := by
      obtain ⟨next, hnext, hrest⟩ := prepareIrrefutable_leavesRest htype hlowered hneeds hroot hrem
      refine ⟨next, hsingle next ?_, hrest⟩
      rcases htype with ⟨fields, rfl⟩ | ⟨name, rfl⟩ <;> simpa only [ownStep, harm] using hnext
    cases scrutinee with
    | tuple fields => exact haggr (.inl ⟨fields, rfl⟩)
    | struct name => exact haggr (.inr ⟨name, rfl⟩)
    | enum name =>
      obtain ⟨layout, entry, hlayout, hentry⟩ := exists_variant hvar
      obtain ⟨next, hnext, hrest⟩ :=
        prepareMatch_leavesRest hlowered hcovers hlayout hentry hroot hrem
      refine ⟨next, hsingle next ?_, hrest⟩
      simpa only [ownStep, harm, hlayout] using hnext
    | _ => exact absurd hvar (by simp [Nominals.variants])

/-- Where an arm enters its body, its bindings and the rest of the scrutinee have their slots. -/
theorem own_enterSteps
    (hlowered : ArmLowered nominals scrutinee .consumed pattern arm.matcher arm.bindings)
    (hcovers : arm.matcher.Covers variant) (hvar : variant < nominals.variants scrutinee)
    (harm : emission.arms[index]? = some arm)
    (hrooted : emission.rooted = nominals.layouts.needsDrop scrutinee) (locals : List Nat) :
    ∃ next, (enterSteps emission arm index).foldlM
        (ownStep nominals scrutinee variant emission.arms)
        { MatchOwnership.start nominals scrutinee with locals := locals } = .ok next ∧
      Owned nominals scrutinee variant arm.bindings next := by
  have howned {prepared next : MatchOwnership}
      (hrest : LeavesRest nominals scrutinee variant arm.bindings prepared)
      (hroot : next.root = prepared.root) (hrem : next.remainder = prepared.remainder)
      (hslots : next.bindings = (owningBindings nominals arm.bindings).map (·.slot)) :
      Owned nominals scrutinee variant arm.bindings next := by
    refine ⟨?_, hslots, ?_⟩
    · rwa [LeavesRest, MatchOwnership.remainderDrops, hroot, hrem]
    · rw [MatchOwnership.bindingDrops, hslots]
      exact owningBindings_drops hlowered hcovers hvar
  have hprepare (locals : List Nat) : ∃ next, (emission.prepareSteps index).foldlM
        (ownStep nominals scrutinee variant emission.arms)
        { MatchOwnership.start nominals scrutinee with locals := locals } = .ok next ∧
      LeavesRest nominals scrutinee variant arm.bindings next ∧ next.locals = locals ∧
      next.bindings = [] :=
    own_prepareSteps hlowered hcovers hvar harm hrooted rfl rfl
  unfold enterSteps
  split
  next hguard =>
    obtain ⟨prepared, hprep, hrest, hlocals, hbinds⟩ := hprepare (locals ++
      (arm.bindings.filter fun binding => !isUnit binding.ty).map (·.id))
    have hstored : (owningBindings nominals arm.bindings).find? (fun binding =>
        binding.id ∉ prepared.locals) = none := by
      rw [List.find?_eq_none]
      intro binding hbind
      rw [← owningBindings_stored] at hbind
      have hid : binding.id ∈ (arm.bindings.filter fun binding =>
          !isUnit binding.ty).map (·.id) := mem_map_of_mem (mem_of_mem_filter hbind)
      simp only [hlocals, decide_not, Bool.not_eq_true, Bool.not_eq_false', decide_eq_true_eq]
      exact mem_append_right _ hid
    refine ⟨{ prepared with bindings := (owningBindings nominals arm.bindings).map (·.slot) }, ?_,
      howned hrest rfl rfl rfl⟩
    rw [foldlM_append, foldlM_append, own_guardSteps harm]
    have hactivate : activatePatternBindingOwnership nominals arm.bindings prepared = .ok
        { prepared with bindings := (owningBindings nominals arm.bindings).map (·.slot) } := by
      simp only [activatePatternBindingOwnership, hstored, hbinds, nil_append]
    simp [bind, Except.bind, pure, Except.pure, hprep, ownStep, harm, hactivate]
  next hguard =>
    obtain ⟨prepared, hprep, hrest, hlocals, hbinds⟩ := hprepare locals
    refine ⟨emitPatternBindings nominals arm.bindings true prepared, ?_, howned hrest rfl rfl ?_⟩
    · rw [foldlM_append, hprep]
      simp [ownStep, harm, bind, Except.bind, pure, Except.pure]
    · simp [emitPatternBindings, owningBindings_stored, hbinds]

theorem owned_start (hvar : variant < nominals.variants scrutinee) (locals : List Nat) :
    Owned nominals scrutinee variant []
      { MatchOwnership.start nominals scrutinee with locals := locals } := by
  have hnone (leaf : List Nat) : ¬ TakenBy [] leaf := by
    rintro ⟨binding, hbind, _⟩
    exact nomatch hbind
  have hnodup : (payloadLeaves nominals scrutinee variant).Nodup := by
    by_cases henum : ∃ name, scrutinee = .enum name
    · obtain ⟨name, rfl⟩ := henum
      obtain ⟨layout, entry, hlayout, hentry⟩ := exists_variant hvar
      exact payloadLeaves_nodup hlayout hentry
    · rw [payloadLeaves_aggregate fun name hname => henum ⟨name, hname⟩]
      exact dropGlue_nodup _ _
  refine ⟨?_, rfl, ?_⟩
  · cases hneeds : nominals.layouts.needsDrop scrutinee with
    | false => exact leavesRest_of_not_needsDrop hneeds (by simp [MatchOwnership.start, hneeds]) rfl
    | true =>
      have hdrops : MatchOwnership.remainderDrops nominals scrutinee variant
          { MatchOwnership.start nominals scrutinee with locals := locals } =
            payloadLeaves nominals scrutinee variant := by
        simp [MatchOwnership.remainderDrops, MatchOwnership.start, hneeds, drops_fresh,
          payloadLeaves]
      rw [LeavesRest, hdrops]
      exact ⟨hnodup, fun leaf => (and_iff_left (hnone leaf)).symm⟩
  · refine ⟨nodup_nil, fun leaf => ?_⟩
    simp [MatchOwnership.bindingDrops, MatchOwnership.start, hnone]

/-! ### Whole runs -/

variable {before after : List MatchStep}

/-- What stands in front of a step that is not in the back stands in the front. -/
theorem exists_front {front back : List MatchStep} {step : MatchStep}
    (hsplit : front ++ back = before ++ step :: after) (hstep : step ∉ back) :
    ∃ middle, front = before ++ step :: middle := by
  rcases append_eq_append_iff.mp hsplit with ⟨rest, hbefore, hback⟩ | ⟨rest, hfront, hrest⟩
  · exact absurd (hback ▸ mem_append_right _ mem_cons_self) hstep
  · cases rest with
    | nil =>
      rw [nil_append] at hrest
      exact absurd (hrest ▸ mem_cons_self) hstep
    | cons first rest =>
      obtain ⟨rfl, _⟩ := cons.inj hrest
      exact ⟨rest, hfront⟩

theorem before_body {front : List MatchStep} {first index : Nat} (hfront : ∀ num, .body num ∉ front)
    {back : List MatchStep} (hback : ∀ num, .body num ∉ back)
    (hsplit : front ++ .body first :: back = before ++ .body index :: after) :
    before = front ∧ index = first := by
  have hsplit : (front ++ [.body first]) ++ back = before ++ .body index :: after := by
    simpa using hsplit
  obtain ⟨middle, hmid⟩ := exists_front hsplit (hback index)
  rcases append_eq_append_iff.mp hmid with ⟨rest, hbefore, hrest⟩ | ⟨rest, hfst, hrest⟩
  · cases rest with
    | nil => simpa [hbefore] using (cons.inj hrest).1.symm
    | cons step rest => simp at hrest
  · cases rest with
    | nil => simpa [hfst] using (cons.inj hrest).1
    | cons step rest =>
      obtain ⟨rfl, _⟩ := cons.inj hrest
      exact absurd (hfst ▸ mem_append_right _ mem_cons_self) (hfront index)

theorem runBody_fst (outcomes : Outcomes emission) (index : Nat) (steps : List MatchStep) :
    (runBody outcomes index steps).1 =
      steps ++ .body index :: (if outcomes.body index then [.cleanup] else []) := by
  unfold runBody
  split <;> rfl

theorem arms_of_split {front back : List (HirMatchArm × Nat)}
    (hsplit : hir.zipIdx = front ++ (arm, index) :: back) :
    hir[index]? = some arm ∧ ∀ entry ∈ front, hir[entry.2]? = some entry.1 := by
  have hmem {entry : HirMatchArm × Nat} (hentry : entry ∈ front ++ (arm, index) :: back) :
      hir[entry.2]? = some entry.1 := mem_zipIdx_iff_getElem?.mp (hsplit ▸ hentry)
  exact ⟨hmem (mem_append_right _ mem_cons_self),
    fun entry hentry => hmem (mem_append_left _ hentry)⟩

theorem enterSteps_eq (emission : Emission) (arm : HirMatchArm) (index : Nat) :
    ∃ steps, enterSteps emission arm index = (if arm.guard.isSome then guardSteps index else []) ++
        (emission.prepareSteps index ++ steps) ∧
      (steps = [.activate index] ∨ steps = [.bind index true]) := by
  unfold enterSteps
  split
  · exact ⟨_, append_assoc _ _ _, .inl rfl⟩
  · exact ⟨_, rfl, .inr rfl⟩

theorem mem_prepareSteps {step : MatchStep} (hstep : step ∈ emission.prepareSteps index) :
    step = .prepare index := by
  unfold Emission.prepareSteps at hstep
  split at hstep
  · exact mem_singleton.mp hstep
  · exact nomatch hstep

theorem Dispatched.quiet_before_guard {outcomes : Outcomes emission} {res : List MatchStep × Ending}
    (hrun : Dispatched outcomes emission.arms.zipIdx variant res)
    (hsplit : res.1 = before ++ .guard index :: after) :
    ∀ step ∈ before, Quiet emission.arms step := by
  cases hrun with
  | ran front back arm number harms hpassed hcovers hguard =>
    obtain ⟨harm, hfront⟩ := arms_of_split harms
    obtain ⟨steps, henter, hsteps⟩ := enterSteps_eq emission arm number
    rw [runBody_fst, henter, ← append_assoc, append_assoc _ _ (_ :: _)] at hsplit
    obtain ⟨middle, hmid⟩ := exists_front hsplit (by
      intro hguard
      rcases mem_append.mp hguard with hguard | hguard
      · rcases mem_append.mp hguard with hprepare | hguard
        · exact nomatch mem_prepareSteps hprepare
        · rcases hsteps with rfl | rfl <;> simp at hguard
      · cases outcomes.body number <;> simp at hguard)
    have hquiet : ∀ step ∈ passedSteps variant front ++
        (if arm.guard.isSome then guardSteps number else []), Quiet emission.arms step := by
      intro step hstep
      rcases mem_append.mp hstep with hstep | hstep
      · exact quiet_passedSteps hfront step hstep
      · split at hstep
        · exact quiet_guardSteps harm step hstep
        · exact nomatch hstep
    exact fun step hstep => hquiet step (hmid ▸ mem_append_left _ hstep)
  | left front back arm number harms hpassed hcovers hguard hleft =>
    obtain ⟨harm, hfront⟩ := arms_of_split harms
    intro step hstep
    dsimp only at hsplit
    have hmem : step ∈ passedSteps variant front ++ guardSteps number :=
      hsplit ▸ mem_append_left _ hstep
    rcases mem_append.mp hmem with hmem | hmem
    · exact quiet_passedSteps hfront step hmem
    · exact quiet_guardSteps harm step hmem

/-- In front of a body there are the guards that are false, and the steps that enter the arm. -/
theorem Dispatched.enters_before_body {outcomes : Outcomes emission} {res : List MatchStep × Ending}
    (hrun : Dispatched outcomes emission.arms.zipIdx variant res)
    (hsplit : res.1 = before ++ .body index :: after) :
    ∃ front arm, before = passedSteps variant front ++ enterSteps emission arm index ∧
      emission.arms[index]? = some arm ∧ arm.matcher.Covers variant ∧
      ∀ entry ∈ front, emission.arms[entry.2]? = some entry.1 := by
  have hpassed {hir : List HirMatchArm} {front : List (HirMatchArm × Nat)}
      (hfront : ∀ entry ∈ front, hir[entry.2]? = some entry.1) (num : Nat) :
      .body num ∉ passedSteps variant front := fun hbody =>
    quiet_passedSteps hfront _ hbody
  cases hrun with
  | ran front back arm first harms _ hcovers hguard =>
    obtain ⟨harm, hfront⟩ := arms_of_split harms
    rw [runBody_fst] at hsplit
    obtain ⟨rfl, rfl⟩ := before_body (by
      intro num hbody
      rcases mem_append.mp hbody with hbody | hbody
      · exact hpassed hfront num hbody
      · obtain ⟨steps, henter, hsteps⟩ := enterSteps_eq emission arm first
        rw [henter] at hbody
        rcases mem_append.mp hbody with hbody | hbody
        · split at hbody <;> simp [guardSteps] at hbody
        · rcases mem_append.mp hbody with hprepare | hbody
          · exact absurd (mem_prepareSteps hprepare) (by simp)
          · rcases hsteps with rfl | rfl <;> simp at hbody)
      (by intro num; cases outcomes.body first <;> simp) hsplit
    exact ⟨front, arm, rfl, harm, hcovers, hfront⟩
  | left front back arm first harms _ hcovers hguard hleft =>
    obtain ⟨harm, hfront⟩ := arms_of_split harms
    dsimp only at hsplit
    have hmem : MatchStep.body index ∈ passedSteps variant front ++ guardSteps first :=
      hsplit ▸ mem_append_right _ mem_cons_self
    rcases mem_append.mp hmem with hmem | hmem
    · exact absurd hmem (hpassed hfront index)
    · simp [guardSteps] at hmem

/-- In every run of an accepted match that consumes its scrutinee, the slots at the start of a body
drop each leaf of the payload once: what the bindings of the arm take through their own slots, and
the rest through those of the scrutinee. In front of a guard, nothing has been taken. -/
theorem emit_owned {outcomes : Outcomes emission} {fuel tag : Nat}
    (hclean : (lowerMatch nominals scrutinee .consumed arms).diagnostics = [])
    (harms : emission.arms = (lowerMatch nominals scrutinee .consumed arms).arms)
    (hrooted : emission.rooted = nominals.layouts.needsDrop scrutinee)
    (htag : tag < nominals.variants scrutinee) (hfuel : 2 * emission.arms.length + 3 ≤ fuel) :
    ∃ result, runBlocks (emission.emit nominals scrutinee) outcomes tag fuel .entry = some result ∧
      (∀ before index after, result.1 = before ++ .body index :: after →
        ∃ arm state, emission.arms[index]? = some arm ∧
          before.foldlM (ownStep nominals scrutinee tag emission.arms)
            (MatchOwnership.start nominals scrutinee) = .ok state ∧
          Owned nominals scrutinee tag arm.bindings state) ∧
      ∀ before index after, result.1 = before ++ .guard index :: after →
        ∃ state, before.foldlM (ownStep nominals scrutinee tag emission.arms)
            (MatchOwnership.start nominals scrutinee) = .ok state ∧
          Owned nominals scrutinee tag [] state := by
  have hrun := lowerMatch_dispatched outcomes hclean harms htag
  refine ⟨_, runBlocks_emit outcomes harms htag hfuel, ?_, ?_⟩
  · intro before index after hsplit
    obtain ⟨front, arm, rfl, harm, hcovers, hfront⟩ := hrun.enters_before_body hsplit
    obtain ⟨pattern, hlowered⟩ := lowerMatch_lowered hclean arm (harms ▸ mem_of_getElem? harm)
    obtain ⟨locals, hpassed⟩ := own_quiet (quiet_passedSteps hfront)
      (MatchOwnership.start nominals scrutinee)
    obtain ⟨state, hstate, howned⟩ := own_enterSteps hlowered hcovers htag harm hrooted locals
    refine ⟨arm, state, harm, ?_, howned⟩
    rw [foldlM_append, hpassed]
    exact hstate
  · intro before index after hsplit
    obtain ⟨locals, hstate⟩ := own_quiet (hrun.quiet_before_guard hsplit)
      (MatchOwnership.start nominals scrutinee)
    exact ⟨_, hstate, owned_start htag locals⟩

end

end

/-- `struct key(number: i32)`. -/
def keyLayouts : NominalLayouts where
  structs := [⟨"key", [⟨"number", .integer .i32⟩]⟩]
  enums := []
  distinct := by decide

theorem fieldTypes_key {name : String} (hty : ty ∈ keyLayouts.fieldTypes name) :
    ty = .integer .i32 := by
  simp only [NominalLayouts.fieldTypes, structLayout?, enumLayout?, keyLayouts, List.find?_cons,
    List.find?_nil] at hty
  by_cases hkey : name = "key"
  · simpa [hkey] using hty
  · simp [Ne.symm hkey] at hty

theorem fieldsWithoutCallables_key : keyLayouts.FieldsWithoutCallables := by
  intro name ty hty
  rw [fieldTypes_key hty]
  rfl

theorem not_cyclic_key : ¬ NominalLayouts.Cyclic keyLayouts.held := by
  refine not_cyclic_of_held fun name => flatMap_eq_nil_iff.mpr fun ty hty => ?_
  rw [fieldTypes_key hty]
  rfl

/-- A key has a destructor. -/
def keyNominals : Nominals where
  layouts := keyLayouts.toLayouts
    (fun ty => match ty with
      | .struct name => name == "key"
      | _ => false)
    fieldsWithoutCallables_key not_cyclic_key
  tuples _ := rfl
  copyNominals ty :=
    match ty with
    | .integer _ | .bool => true
    | _ => false
  neverName := "never"
  template _ := none
  named _ _ := false
  accessErrors _ _ := []
  layoutError _ := "missing layout"
  display _ := "key"

/-- `match keys { (first, _) => 1 }`, for two keys. -/
def keysTy : Ty := .tuple [.struct "key", .struct "key"]

def keysArms : List (MatchArm × Nat) :=
  [(⟨.tuple [.binding "first", .wildcard], none, .integer 1⟩, 0)]

def keysEmission : Emission where
  arms := (lowerMatch keyNominals keysTy .consumed keysArms).arms
  rooted := keyNominals.layouts.needsDrop keysTy
  guardTerminates _ := false
  bodyTerminates _ := false

def keysOutcomes : Outcomes keysEmission where
  guard _ := some true
  body _ := true
  guardTerminated := nofun
  bodyTerminated := nofun

theorem lowerArmPattern_keys :
    lowerArmPattern keyNominals keysTy .consumed (.tuple [.binding "first", .wildcard]) 0 =
      (.all, ⟨[], 1, [⟨0, "first", .struct "key", [0], true⟩], []⟩) := by
  have hcopy : keyNominals.isCopyType (.struct "key") = false := by
    simp [Nominals.isCopyType, keyNominals]
  simp only [lowerArmPattern, lowerAggregatePattern, keysTy]
  rw [lowerIrrefutablePattern]
  simp [lowerIrrefutablePattern, PatternLowering.start, PatternLowering.require, bindPattern, hcopy]

theorem keysArms_accepted :
    (lowerMatch keyNominals keysTy .consumed keysArms).diagnostics = [] := by
  have harms : (lowerArms keyNominals keysTy .consumed 1 keysArms).diagnostics = [] :=
    congrArg (fun lowered => lowered.2.diagnostics) lowerArmPattern_keys
  have hcovered : (lowerArms keyNominals keysTy .consumed 1 keysArms).covered = [true] := by
    simp [lowerArms, keysArms, lowerArm, lowerArmPattern_keys, combinedGuard, cover]
  simp only [lowerMatch, keysTy] at harms hcovered ⊢
  simp [harms, hcovered]

theorem emit_owned_keys : ∃ result,
    runBlocks (keysEmission.emit keyNominals keysTy) keysOutcomes 0 5 .entry = some result ∧
      (∀ before index after, result.1 = before ++ .body index :: after →
        ∃ arm state, keysEmission.arms[index]? = some arm ∧
          before.foldlM (ownStep keyNominals keysTy 0 keysEmission.arms)
            (MatchOwnership.start keyNominals keysTy) = .ok state ∧
          Owned keyNominals keysTy 0 arm.bindings state) ∧
      ∀ before index after, result.1 = before ++ .guard index :: after →
        ∃ state, before.foldlM (ownStep keyNominals keysTy 0 keysEmission.arms)
            (MatchOwnership.start keyNominals keysTy) = .ok state ∧
          Owned keyNominals keysTy 0 [] state :=
  emit_owned keysArms_accepted rfl rfl (by decide) (by decide)

end Salicin.Matching
