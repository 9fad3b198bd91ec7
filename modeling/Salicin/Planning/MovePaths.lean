import Salicin.Cleanup.VerifyStructure
import Salicin.Codegen.DropSlots
import Salicin.Foundation.StatefulResults

/-!
# Registering move paths

The planner of cleanup builds the plan of a function step by step. Owned storage gets its move paths
when it is declared: a path for each part of the storage that can be moved on its own. Here is that
registration, and what it comes to: every part of a value of the type has its path.
-/

namespace Salicin.Planning

open List Codegen Cleanup StatefulResults

def maxCleanupMovePaths : Nat := 65536

inductive NominalKind
  | struct
  | enum
  deriving DecidableEq

/-- The state of the planner is the plan that its builder holds. An error ends the planning. -/
abbrev Planner := EStateM String CleanupPlan

/-- The part of a place that lies behind some projections. -/
def project (place : Place) (projections : List Projection) : Place :=
  { place with projections := place.projections ++ projections }

@[simp]
theorem project_nil (place : Place) : project place [] = place := by
  rw [project, append_nil]

@[simp]
theorem project_project (place : Place) (first second : List Projection) :
    project (project place first) second = project place (first ++ second) := by
  simp only [project, append_assoc]

def localPlace (localId : Cleanup.LocalId) : Place := ⟨localId, []⟩

/-- `u32::try_from`. -/
def asU32 (i : Nat) (msg : String) : Except String Nat := if i < 2 ^ 32 then .ok i else .error msg

/-- Run a computation that does not touch the plan. -/
def lift {α : Type} (res : Except String α) : Planner α :=
  match res with
  | .ok val => pure val
  | .error msg => throw msg

/-! ## The builder -/

def newMovePathWithDrop (place : Place) (parent : Option MovePathId) (needsDrop : Bool) :
    Planner MovePathId := fun plan =>
  if plan.locals.length ≤ place.localId then
    .error (s!"cannot create move path for invalid local {Debug.localId place.localId}") plan
  else
    match parent.filter fun parent => plan.movePaths.length ≤ parent with
    | some parent =>
      .error (s!"cannot create move path with invalid parent {Debug.path parent}") plan
    | none => .ok plan.movePaths.length
        { plan with movePaths := plan.movePaths ++
            [⟨plan.movePaths.length, place, parent, needsDrop⟩] }

def pushOperation (block : BasicBlockId) (operation : CleanupOp) : Planner Unit := fun plan =>
  if block < plan.blocks.length then
    .ok () { plan with blocks := plan.blocks.modify block fun data =>
        { data with operations := data.operations ++ [operation] } }
  else .error s!"cannot append operation to invalid basic block {Debug.block block}" plan

/-! ## The planner -/

/-- The `move_paths` of the planner: the path of a place is its position among the paths of the
plan. -/
def movePathOf (plan : CleanupPlan) (place : Place) : Option MovePathId :=
  plan.movePaths.findIdx? fun path => path.place = place

def lookupMovePath (place : Place) : Planner MovePathId := fun plan =>
  match movePathOf plan place with
  | some path => .ok path plan
  | none => .error (s!"cleanup place {Debug.place place} is absent from its pre-registered " ++
      "move-path forest") plan

def registerMovePath (place : Place) (parent : Option MovePathId) (needsDrop : Bool) :
    Planner MovePathId := fun plan =>
  match movePathOf plan place with
  | some path => .ok path plan
  | none =>
    if maxCleanupMovePaths ≤ plan.movePaths.length then
      .error s!"cleanup move-path limit of {maxCleanupMovePaths} exceeded" plan
    else newMovePathWithDrop place parent needsDrop plan

section

variable (layouts : Layouts)

/-- A nominal type may not be met again inside of itself. -/
def enterNominal (visiting : Finset (NominalKind × String)) (kind : NominalKind) (name : String) :
    Except String (Finset (NominalKind × String)) :=
  if (kind, name) ∈ visiting then
    .error (match kind with
      | .struct => s!"recursive cleanup move-path layout for struct `{name}`"
      | .enum => s!"recursive cleanup move-path layout for enum `{name}`")
  else .ok (insert (kind, name) visiting)

def registerTypedMovePath (place : Place) (parent : Option MovePathId) (ty : Ty)
    (visiting : Finset (NominalKind × String)) : Planner MovePathId := do
  let path ← registerMovePath place parent (layouts.needsDrop ty)
  match ty with
  | .tuple fields =>
    fields.zipIdx.attach.forM fun field => do
      let i ← lift (asU32 field.1.2 s!"tuple index {field.1.2} does not fit in u32")
      let _ ← registerTypedMovePath (project place [.tupleIndex i]) (some path) field.1.1
        visiting
  | .array element length =>
    (List.range length).forM fun i => do
      let _ ← registerTypedMovePath (project place [.constantIndex i]) (some path) element
        visiting
  | .struct name =>
    let visiting ← lift (enterNominal visiting .struct name)
    match _hlayout : layouts.structLayout name with
    | none => throw s!"missing struct layout `{name}` while building cleanup move paths"
    | some layout =>
      layout.fields.zipIdx.attach.forM fun field => do
        let i ← lift (asU32 field.1.2
          s!"field index {field.1.2} in struct `{name}` does not fit in u32")
        let _ ← registerTypedMovePath (project place [.field i]) (some path) field.1.1.ty
          visiting
  | .enum name =>
    let visiting ← lift (enterNominal visiting .enum name)
    match _hlayout : layouts.enumLayout name with
    | none => throw s!"missing enum layout `{name}` while building cleanup move paths"
    | some layout =>
      layout.variants.zipIdx.attach.forM fun variant => do
        let downcast ← lift (asU32 variant.1.2
          s!"variant index {variant.1.2} in enum `{name}` does not fit in u32")
        let variantPlace := project place [.downcast downcast]
        let variantPath ← registerMovePath variantPlace (some path)
          (variant.1.1.fields.any fun field => layouts.needsDrop field.ty)
        variant.1.1.fields.zipIdx.attach.forM fun field => do
          let i ← lift (asU32 field.1.2 (s!"field index {field.1.2} in enum `{name}` " ++
            s!"variant {variant.1.2} does not fit in u32"))
          let _ ← registerTypedMovePath (project variantPlace [.field i])
            (some variantPath) field.1.1.ty visiting
  | .callable captures =>
    captures.zipIdx.attach.forM fun capture => do
      let i ← lift (asU32 capture.1.2
        s!"callable capture index {capture.1.2} does not fit in u32")
      let capturePlace := project place [.capture i]
      if _hborrowed : capture.1.1.1 = .borrow ∨ capture.1.1.1 = .mutBorrow then
        let _ ← registerMovePath capturePlace (some path) false
      else
        let _ ← registerTypedMovePath capturePlace (some path) capture.1.1.2 visiting
  | _ => pure ()
  return path
termination_by layouts.finite.wrap ty
decreasing_by
  · exact layouts.contains_tuple
      (mem_of_getElem? (mem_zipIdx_iff_getElem?.mp field.2))
  · exact layouts.contains_array _ _
  · exact layouts.contains_struct _hlayout
      (mem_of_getElem? (mem_zipIdx_iff_getElem?.mp field.2))
  · exact layouts.contains_enum _hlayout
      (mem_of_getElem? (mem_zipIdx_iff_getElem?.mp variant.2))
      (mem_of_getElem? (mem_zipIdx_iff_getElem?.mp field.2))
  · refine layouts.contains_callable (mem_map_of_mem (mem_filter.mpr ⟨?_, ?_⟩))
    · exact mem_of_getElem? (mem_zipIdx_iff_getElem?.mp capture.2)
    · simpa using _hborrowed

def registerMovePathForest (localId : Cleanup.LocalId) (ty : Ty) : Planner MovePathId :=
  registerTypedMovePath layouts (localPlace localId) none ty ∅

end

/-! ## What is registered -/

/-- A part of a value, the projections that lead to it, and its type. -/
inductive Reaches (layouts : Layouts) : Ty → List Projection → Ty → Prop
  | self (ty : Ty) : Reaches layouts ty [] ty
  | tuple {fields : List Ty} {i : Nat} {field part : Ty} {rest : List Projection}
      (hfield : fields[i]? = some field) (hrest : Reaches layouts field rest part) :
      Reaches layouts (.tuple fields) (.tupleIndex i :: rest) part
  | array {element part : Ty} {i length : Nat} {rest : List Projection}
      (hidx : i < length) (hrest : Reaches layouts element rest part) :
      Reaches layouts (.array element length) (.constantIndex i :: rest) part
  | struct {name : String} {layout : StructLayout} {i : Nat} {field : FieldLayout} {part : Ty}
      {rest : List Projection} (hlayout : layouts.structLayout name = some layout)
      (hfield : layout.fields[i]? = some field) (hrest : Reaches layouts field.ty rest part) :
      Reaches layouts (.struct name) (.field i :: rest) part
  | variant {name : String} {layout : EnumLayout} {variant : VariantLayout} {i position : Nat}
      {field : FieldLayout} {part : Ty} {rest : List Projection}
      (hlayout : layouts.enumLayout name = some layout)
      (hvar : layout.variants[position]? = some variant)
      (hfield : variant.fields[i]? = some field) (hrest : Reaches layouts field.ty rest part) :
      Reaches layouts (.enum name) (.downcast position :: .field i :: rest) part

/-- The numbers that a place holds are of 32 bits. -/
def Fits : Projection → Prop
  | .tupleIndex i | .field i | .downcast i => i < 2 ^ 32
  | _ => True

/-- The place has its move path. -/
def Registered (plan : CleanupPlan) (place : Place) : Prop :=
  ∃ path ∈ plan.movePaths, path.place = place

/-- Paths are added, and none is taken back. -/
def Grows (before after : CleanupPlan) : Prop := before.movePaths <+: after.movePaths

variable {place : Place}

namespace Grows

variable {first second third : CleanupPlan}

theorem refl (plan : CleanupPlan) : Grows plan plan := prefix_rfl

theorem trans (hfst : Grows first second) (hsnd : Grows second third) : Grows first third :=
  List.IsPrefix.trans hfst hsnd

theorem registered (hgrows : Grows first second) (hplace : Registered first place) :
    Registered second place := by
  obtain ⟨path, hpath, hat⟩ := hplace
  exact ⟨path, hgrows.subset hpath, hat⟩

end Grows

theorem asU32_ok {i res : Nat} {msg : String}
    (h : asU32 i msg = .ok res) : res = i ∧ i < 2 ^ 32 := by
  unfold asU32 at h
  split at h
  next hlt => exact ⟨(Except.ok.inj h).symm, hlt⟩
  next => cases h

variable {before after : CleanupPlan}

theorem lift_ok {α : Type} {res : Except String α} {val : α}
    (h : lift res before = .ok val after) : res = .ok val ∧ after = before := by
  unfold lift at h
  cases res with
  | ok other => cases h; exact ⟨rfl, rfl⟩
  | error msg => cases h

variable {plan : CleanupPlan}

theorem movePathOf_registered {path : MovePathId} (h : movePathOf plan place = some path) :
    Registered plan place := by
  obtain ⟨hlt, hplace, _⟩ := findIdx?_eq_some_iff_getElem.mp h
  exact ⟨_, getElem_mem hlt, by simpa using hplace⟩

theorem movePathOf_eq_some {id : MovePathId} (h : movePathOf plan place = some id) :
    ∃ path, plan.movePaths[id]? = some path ∧ path.place = place := by
  obtain ⟨hlt, hplace, _⟩ := findIdx?_eq_some_iff_getElem.mp h
  exact ⟨_, getElem?_eq_getElem hlt, by simpa using hplace⟩

theorem Registered.exists_movePathOf (hplace : Registered plan place) :
    ∃ id, movePathOf plan place = some id := by
  obtain ⟨path, hpath, hat⟩ := hplace
  apply Option.isSome_iff_exists.mp
  rw [movePathOf, findIdx?_isSome]
  exact any_eq_true.mpr ⟨path, hpath, by simpa using hat⟩

theorem movePathOf_of_grows {id : MovePathId} (hgrows : Grows before after)
    (h : movePathOf before place = some id) :
    movePathOf after place = some id := by
  obtain ⟨more, hmore⟩ := hgrows
  unfold movePathOf at h ⊢
  rw [← hmore, findIdx?_append, h, Option.some_or]

variable {parent : Option MovePathId}

theorem registerMovePath_ok {needsDrop : Bool} {path : MovePathId}
    (h : registerMovePath place parent needsDrop before = .ok path after) :
    Grows before after ∧ Registered after place := by
  unfold registerMovePath at h
  split at h
  next found hfound =>
    cases h
    exact ⟨.refl _, movePathOf_registered hfound⟩
  next =>
    split at h
    · cases h
    · unfold newMovePathWithDrop at h
      split at h
      · cases h
      · split at h
        · cases h
        · cases h
          exact ⟨prefix_append _ _, _, mem_append_right _ mem_cons_self, rfl⟩

theorem mem_of_registerMovePath {needsDrop : Bool} {id : MovePathId} {path : MovePath}
    (h : registerMovePath place parent needsDrop before = .ok id after)
    (hpath : path ∈ after.movePaths) : path ∈ before.movePaths ∨ path.place = place := by
  unfold registerMovePath at h
  split at h
  · cases h
    exact .inl hpath
  split at h
  · cases h
  unfold newMovePathWithDrop at h
  split at h
  · cases h
  split at h
  · cases h
  · cases h
    refine (mem_append.mp hpath).imp_right ?_
    intro hnew
    rw [mem_singleton.mp hnew]

/-- Every part of a value of the type has its path below the place. -/
def Covered (layouts : Layouts) (plan : CleanupPlan) (place : Place) (ty : Ty) : Prop :=
  ∀ ⦃projections part⦄, Reaches layouts ty projections part →
    Registered plan (project place projections) ∧ ∀ proj ∈ projections, Fits proj

variable {layouts : Layouts}

theorem Covered.of_grows {ty : Ty} (hgrows : Grows before after)
    (hcovered : Covered layouts before place ty) :
    Covered layouts after place ty := by
  intro projections part hreaches
  obtain ⟨hregistered, hfits⟩ := hcovered hreaches
  exact ⟨hgrows.registered hregistered, hfits⟩

/-- A part that lies behind a projection is covered with the part that the projection leads to. -/
theorem Covered.behind {projections rest : List Projection} {field part : Ty}
    (hcovered : Covered layouts plan (project place projections) field)
    (hfits : ∀ proj ∈ projections, Fits proj) (hrest : Reaches layouts field rest part) :
    Registered plan (project place (projections ++ rest)) ∧
      ∀ proj ∈ projections ++ rest, Fits proj := by
  obtain ⟨hregistered, hothers⟩ := hcovered hrest
  refine ⟨by rwa [project_project] at hregistered, ?_⟩
  intro proj hproj
  rcases mem_append.mp hproj with hfst | hrest
  · exact hfits proj hfst
  · exact hothers proj hrest

/-- The part at a number is covered, and the number is of 32 bits. -/
def PartCovered (layouts : Layouts) (plan : CleanupPlan) (place : Place)
    (proj : Nat → Projection) (i : Nat) (ty : Ty) : Prop :=
  i < 2 ^ 32 ∧ Covered layouts plan (project place [proj i]) ty

variable {proj : Nat → Projection}

theorem PartCovered.of_grows {i : Nat} {ty : Ty} (hgrows : Grows before after)
    (hpart : PartCovered layouts before place proj i ty) :
    PartCovered layouts after place proj i ty :=
  ⟨hpart.1, hpart.2.of_grows hgrows⟩

/-- The fields of a variant are covered. -/
def VariantCovered (layouts : Layouts) (plan : CleanupPlan) (place : Place)
    (variant : VariantLayout) (position : Nat) : Prop :=
  position < 2 ^ 32 ∧ ∀ ⦃i field⦄, variant.fields[i]? = some field →
    PartCovered layouts plan (project place [.downcast position]) .field i field.ty

theorem VariantCovered.of_grows {variant : VariantLayout} {position : Nat}
    (hgrows : Grows before after) (hvar : VariantCovered layouts before place variant position) :
    VariantCovered layouts after place variant position := by
  refine ⟨hvar.1, ?_⟩
  intro i field hfield
  exact (hvar.2 hfield).of_grows hgrows

/-- Registering a type covers it. -/
def Registers (layouts : Layouts) (ty : Ty) : Prop :=
  ∀ ⦃place : Place⦄ ⦃parent : Option MovePathId⦄ ⦃visiting : Finset (NominalKind × String)⦄
    ⦃path : MovePathId⦄ ⦃before after : CleanupPlan⦄,
    registerTypedMovePath layouts place parent ty visiting before = .ok path after →
      Grows before after ∧ Covered layouts after place ty

/-- The loop over the numbered parts of a value covers them all: each turn covers one part, and the
later ones keep what is registered. -/
theorem loop_covers {α : Type} {items : List (α × Nat)} (ty : {item // item ∈ items} → Ty)
    {msg : {item // item ∈ items} → String} {visiting : Finset (NominalKind × String)}
    (hregisters : ∀ item, Registers layouts (ty item)) (hloop : (items.attach.forM fun item => do
      let num ← lift (asU32 item.1.2 (msg item))
      let _ ← registerTypedMovePath layouts (project place [proj num]) parent (ty item)
        visiting
      pure ()) before = .ok () after) :
    Grows before after ∧
      ∀ item, PartCovered layouts after place proj item.1.2 (ty item) := by
  obtain ⟨hgrows, hparts⟩ := forM_ok Grows.refl Grows.trans
    (fun item plan => PartCovered layouts plan place proj item.1.2 (ty item))
    PartCovered.of_grows (by
      intro item _ before after hturn
      obtain ⟨num, middle, hnum, hrest⟩ := bind_ok hturn
      obtain ⟨hsmall, rfl⟩ := lift_ok hnum
      obtain ⟨rfl, hlt⟩ := asU32_ok hsmall
      obtain ⟨_, last, hrun, hlast⟩ := bind_ok hrest
      cases hlast
      obtain ⟨hgrows, hcovered⟩ := hregisters item hrun
      exact ⟨hgrows, hlt, hcovered⟩) hloop
  exact ⟨hgrows, fun item => hparts item (mem_attach _ _)⟩

/-- The part of a value at a number leads to the parts behind it. -/
theorem PartCovered.behind {i : Nat} {field part : Ty} {rest : List Projection}
    (hpart : PartCovered layouts plan place proj i field)
    (hfits : i < 2 ^ 32 → Fits (proj i)) (hrest : Reaches layouts field rest part) :
    Registered plan (project place (proj i :: rest)) ∧ ∀ step ∈ proj i :: rest, Fits step :=
  hpart.2.behind (by simpa using hfits hpart.1) hrest

theorem mem_zipIdx {α : Type} {items : List α} {i : Nat} {item : α}
    (hitem : items[i]? = some item) : (item, i) ∈ items.zipIdx :=
  mem_zipIdx_iff_getElem?.mpr hitem

theorem mem_of_zipIdx {α : Type} {items : List α} (item : {item // item ∈ items.zipIdx}) :
    item.1.1 ∈ items :=
  mem_of_getElem? (mem_zipIdx_iff_getElem?.mp item.2)

theorem registers (ty : Ty) : Registers layouts ty := by
  induction ty using layouts.finite.induction with
  | _ ty ih =>
    intro place parent visiting path before after hrun
    rw [registerTypedMovePath] at hrun
    obtain ⟨id, middle, hpath, hrest⟩ := bind_ok hrun
    clear hrun
    obtain ⟨hgrows, hself⟩ := registerMovePath_ok hpath
    have hroot {plan : CleanupPlan} (hlater : Grows middle plan) :
        Registered plan (project place []) ∧ ∀ proj ∈ [], Fits proj :=
      ⟨by simpa using hlater.registered hself, by simp⟩
    cases ty with
    | tuple fields =>
      dsimp only at hrest
      obtain ⟨_, last, hloop, hlast⟩ := bind_ok hrest
      cases hlast
      obtain ⟨hlater, hparts⟩ := loop_covers
        (fun (field : {field // field ∈ fields.zipIdx}) => field.1.1)
        (fun field => ih field.1.1 (layouts.contains_tuple (mem_of_zipIdx field))) hloop
      refine ⟨hgrows.trans hlater, ?_⟩
      intro projections part hreaches
      cases hreaches with
      | self => exact hroot hlater
      | @tuple _ i field _ rest hfield hrest =>
        exact (hparts ⟨(field, i), mem_zipIdx hfield⟩).behind (fun hlt => hlt) hrest
    | array elem len =>
      dsimp only at hrest
      obtain ⟨_, last, hloop, hlast⟩ := bind_ok hrest
      cases hlast
      obtain ⟨hlater, hparts⟩ := forM_ok Grows.refl Grows.trans
        (fun i plan => Covered layouts plan (project place [.constantIndex i]) elem)
        Covered.of_grows (by
          intro i _ before after hturn
          obtain ⟨_, last, hrun, hlast⟩ := bind_ok hturn
          cases hlast
          exact ih elem (layouts.contains_array elem len) hrun) hloop
      refine ⟨hgrows.trans hlater, ?_⟩
      intro projections part hreaches
      cases hreaches with
      | self => exact hroot hlater
      | @array _ _ i _ rest hidx hrest =>
        exact (hparts i (mem_range.mpr hidx)).behind (by simp [Fits]) hrest
    | struct name =>
      dsimp only at hrest
      obtain ⟨entered, second, hentered, hmatch⟩ := bind_ok hrest
      clear hrest
      obtain ⟨_, rfl⟩ := lift_ok hentered
      obtain ⟨prog, hprog, hmatch⟩ := exists_program hmatch
      split at hprog
      · subst hprog
        cases hmatch
      next layout hlayout =>
        subst hprog
        obtain ⟨_, last, hloop, hlast⟩ := bind_ok hmatch
        cases hlast
        obtain ⟨hlater, hparts⟩ := loop_covers
          (fun (field : {field // field ∈ layout.fields.zipIdx}) => field.1.1.ty)
          (fun field => ih field.1.1.ty (layouts.contains_struct hlayout
            (mem_of_zipIdx field))) hloop
        refine ⟨hgrows.trans hlater, ?_⟩
        intro projections part hreaches
        cases hreaches with
        | self => exact hroot hlater
        | @struct _ other i field _ rest hother hfield hrest =>
          cases hlayout.symm.trans hother
          exact (hparts ⟨(field, i), mem_zipIdx hfield⟩).behind (fun hlt => hlt) hrest
    | enum name =>
      dsimp only at hrest
      obtain ⟨entered, second, hentered, hmatch⟩ := bind_ok hrest
      clear hrest
      obtain ⟨_, rfl⟩ := lift_ok hentered
      obtain ⟨prog, hprog, hmatch⟩ := exists_program hmatch
      split at hprog
      · subst hprog
        cases hmatch
      next layout hlayout =>
        subst hprog
        obtain ⟨_, last, hloop, hlast⟩ := bind_ok hmatch
        cases hlast
        obtain ⟨hlater, hparts⟩ := forM_ok Grows.refl Grows.trans
          (fun (variant : {variant // variant ∈ layout.variants.zipIdx}) plan =>
            VariantCovered layouts plan place variant.1.1 variant.1.2) VariantCovered.of_grows
          (by
            intro variant _ before after hturn
            obtain ⟨num, first, hnum, hturn⟩ := bind_ok hturn
            obtain ⟨hsmall, rfl⟩ := lift_ok hnum
            obtain ⟨rfl, hlt⟩ := asU32_ok hsmall
            obtain ⟨variantPath, entered, hvar, hfields⟩ := bind_ok hturn
            obtain ⟨hfst, _⟩ := registerMovePath_ok hvar
            obtain ⟨hlater, hparts⟩ := loop_covers
              (fun (field : {field // field ∈ variant.1.1.fields.zipIdx}) => field.1.1.ty)
              (fun field => ih field.1.1.ty (layouts.contains_enum hlayout
                (mem_of_zipIdx variant) (mem_of_zipIdx field))) hfields
            refine ⟨hfst.trans hlater, hlt, ?_⟩
            intro i field hfield
            exact hparts ⟨(field, i), mem_zipIdx hfield⟩) hloop
        refine ⟨hgrows.trans hlater, ?_⟩
        intro projections part hreaches
        cases hreaches with
        | self => exact hroot hlater
        | @variant _ other variant i pos field _ rest hother hvar hfield hrest =>
          cases hlayout.symm.trans hother
          obtain ⟨hlt, hfields⟩ := hparts ⟨(variant, pos), mem_zipIdx hvar⟩
            (mem_attach _ _)
          obtain ⟨hregistered, hfits⟩ := (hfields hfield).behind (fun hlt => hlt) hrest
          refine ⟨by simpa using hregistered, ?_⟩
          intro proj hproj
          rcases mem_cons.mp hproj with rfl | hproj
          · exact hlt
          · exact hfits proj hproj
    | callable captures =>
      dsimp only at hrest
      obtain ⟨_, last, hloop, hlast⟩ := bind_ok hrest
      cases hlast
      obtain ⟨hlater, -⟩ := forM_ok Grows.refl Grows.trans (fun _ _ => True)
        (fun _ _ => trivial) (by
          intro capture _ before after hturn
          obtain ⟨num, first, hnum, hcapture⟩ := bind_ok hturn
          clear hturn
          obtain ⟨_, rfl⟩ := lift_ok hnum
          split at hcapture
          next =>
            obtain ⟨_, last, hborrowed, hlast⟩ := bind_ok hcapture
            cases hlast
            exact ⟨(registerMovePath_ok hborrowed).1, trivial⟩
          next howned =>
            obtain ⟨_, last, hrun, hlast⟩ := bind_ok hcapture
            cases hlast
            refine ⟨(ih capture.1.1.2 (layouts.contains_callable (mem_map_of_mem
              (mem_filter.mpr ⟨mem_of_zipIdx capture, ?_⟩))) hrun).1, trivial⟩
            simpa using howned) hloop
      refine ⟨hgrows.trans hlater, ?_⟩
      intro projections part hreaches
      cases hreaches
      exact hroot hlater
    | _ =>
      dsimp only at hrest
      cases hrest
      refine ⟨hgrows, ?_⟩
      intro projections part hreaches
      cases hreaches
      exact hroot (.refl _)

end Salicin.Planning
