import Salicin.Codegen.LayoutValidation
import Salicin.Matching.Bindings

/-!
# Planning the bindings of a pattern

`commit_pattern_binding` plans what a binding of a match arm does to the scrutinee: a binding that
moves transfers the storage of its part. The lowering names the part by a path of the emitted value,
the planner by the projections of a move path.
-/

namespace Salicin.Matching

open List Codegen Source Planning StatefulResults PatternLowering
open Cleanup (CleanupPlan CleanupOp Place Projection MovePathId BasicBlockId)

section

variable (nominals : Nominals)

/-- The place behind a path through aggregates. The two walks of the source differ in the words of
their errors. -/
def projectPattern (tupleWords pathWords : String) : Ty → List Nat → Place → Except String Place
  | _, [], place => .ok place
  | .tuple fields, projection :: rest, place => do
    let index ← asU32 projection s!"{tupleWords} index does not fit in u32"
    match fields[projection]? with
    | none => .error s!"{tupleWords} index is out of bounds"
    | some field =>
      projectPattern tupleWords pathWords field rest (project place [.tupleIndex index])
  | .struct name, projection :: rest, place => do
    let index ← asU32 projection "nested pattern field does not fit in u32"
    match (nominals.layouts.structLayout name).bind (·.fields[projection]?) with
    | none => .error s!"nested pattern field {projection} is invalid for `{name}`"
    | some field =>
      projectPattern tupleWords pathWords field.ty rest (project place [.field index])
  | .array element length, projection :: rest, place =>
    if projection < length then
      projectPattern tupleWords pathWords element rest (project place [.constantIndex projection])
    else .error (s!"{pathWords} path continues through non-aggregate " ++
      s!"`{nominals.display (.array element length)}`")
  | ty, _ :: _, _ =>
    .error s!"{pathWords} path continues through non-aggregate `{nominals.display ty}`"

/-- The place of a field of a variant, and its type. -/
def variantField (enumName : String) (variant physicalField : Nat) (place : Place) :
    Except String (Place × Ty) :=
  match nominals.layouts.enumLayout enumName with
  | none => .error s!"missing enum layout `{enumName}` for pattern transfer"
  | some layout =>
    match layout.variants[variant]? with
    | none => .error s!"invalid enum variant {variant} for pattern transfer"
    | some variantLayout =>
      let payloadStart := 1 + payloadOffset layout variant
      if physicalField < payloadStart then
        .error "pattern binding path precedes its variant payload"
      else
        match variantLayout.fields[physicalField - payloadStart]? with
        | none => .error "pattern binding path exceeds its variant payload"
        | some field => do
          let variant ← asU32 variant "pattern variant index does not fit in u32"
          let index ← asU32 (physicalField - payloadStart)
            "pattern field index does not fit in u32"
          return (project place [.downcast variant, .field index], field.ty)

/-- The place that a binding moves. -/
def patternSource (scrutineeLocal : Cleanup.LocalId) (scrutinee : Ty) (matcher : HirMatcher)
    (path : List Nat) : Except String Place :=
  let root := localPlace scrutineeLocal
  match path with
  | [] => .ok root
  | physicalField :: rest =>
    match matcher, scrutinee with
    | .all, .tuple _ =>
      projectPattern nominals "tuple pattern" "tuple pattern" scrutinee path root
    | .variant variant, .enum enumName => do
      let (place, ty) ← variantField nominals enumName variant physicalField root
      projectPattern nominals "nested tuple pattern" "nested pattern" ty rest place
    | .variant _, _ => .error "pattern transfer scrutinee is not an enum"
    | .all, _ => .error "moving a projected pattern binding requires a concrete enum variant"

def commitPatternBinding (block : BasicBlockId) (scrutineeLocal : Cleanup.LocalId) (scrutinee : Ty)
    (matcher : HirMatcher) (binding : HirPatternBinding) (destination : MovePathId) :
    Planner Unit :=
  if binding.moves then do
    let place ← lift (patternSource nominals scrutineeLocal scrutinee matcher binding.path)
    let source ← lookupMovePath place
    pushOperation block (.transfer source destination .initializing)
  else pushOperation block (.init destination)

/-- What `walk_match` registers for the scrutinee. The parts of one that stays where it is have no
move paths, but for the variants of an enum. -/
def registerScrutinee (access : ScrutineeAccess) (localId : Cleanup.LocalId) (ty : Ty) :
    Planner MovePathId :=
  match access with
  | .consumed => registerMovePathForest nominals.layouts localId ty
  | .inspected _ => do
    let path ← registerMovePath (localPlace localId) none false
    match ty with
    | .enum name =>
      match nominals.layouts.enumLayout name with
      | none => throw s!"missing enum layout `{name}`"
      | some layout =>
        (List.range layout.variants.length).forM fun variant => do
          let variant ← lift (asU32 variant "inspection variant does not fit in u32")
          let _ ← registerMovePath (project (localPlace localId) [.downcast variant])
            (some path) false
    | _ => pure ()
    return path

end

/-! ## Places of bindings -/

variable {nominals : Nominals}

theorem asU32_of_lt {index : Nat} {msg : String} (hlt : index < 2 ^ 32) :
    asU32 index msg = .ok index := by
  rw [asU32, if_pos hlt]

variable {projs : List Projection}

theorem projectPattern_ok {ty part : Ty} {path : List Nat}
    (hwalks : Walks nominals.layouts ty path projs part)
    (hfits : ∀ projection ∈ projs, Fits projection) (tupleWords pathWords : String)
    (place : Place) :
    projectPattern nominals tupleWords pathWords ty path place =
      .ok (project place projs) := by
  induction hwalks generalizing place with
  | self ty => rw [projectPattern, project_nil]
  | tuple hfield _ ih =>
    obtain ⟨hidx, hrest⟩ := forall_mem_cons.mp hfits
    rw [projectPattern, asU32_of_lt hidx]
    simp only [bind, Except.bind, hfield]
    rw [ih hrest, project_project, singleton_append]
  | struct hlayout hfield _ ih =>
    obtain ⟨hidx, hrest⟩ := forall_mem_cons.mp hfits
    rw [projectPattern, asU32_of_lt hidx]
    simp only [bind, Except.bind, hlayout, Option.bind_some, hfield]
    rw [ih hrest, project_project, singleton_append]

theorem eq_of_projectPattern {ty part : Ty} {path : List Nat} {tupleWords pathWords : String}
    {place res : Place} (hwalks : Walks nominals.layouts ty path projs part)
    (hres : projectPattern nominals tupleWords pathWords ty path place = .ok res) :
    res = project place projs := by
  induction hwalks generalizing place with
  | self ty =>
    rw [projectPattern] at hres
    rw [project_nil, Except.ok.inj hres]
  | @tuple fields index field part path rest hfield _ ih =>
    rw [projectPattern] at hres
    cases hidx : asU32 index s!"{tupleWords} index does not fit in u32" with
    | error msg => rw [hidx] at hres; cases hres
    | ok number =>
      obtain ⟨rfl, _⟩ := asU32_ok hidx
      simp only [hidx, bind, Except.bind, hfield] at hres
      rw [ih hres, project_project, singleton_append]
  | @struct name layout index field part path rest hlayout hfield _ ih =>
    rw [projectPattern] at hres
    cases hidx : asU32 index "nested pattern field does not fit in u32" with
    | error msg => rw [hidx] at hres; cases hres
    | ok number =>
      obtain ⟨rfl, _⟩ := asU32_ok hidx
      simp only [hidx, bind, Except.bind, hlayout, Option.bind_some, hfield] at hres
      rw [ih hres, project_project, singleton_append]

variable {name : String}

theorem variantField_ok {layout : EnumLayout} {variant : VariantLayout} {pos index : Nat}
    {field : FieldLayout} {place : Place} (hlayout : nominals.layouts.enumLayout name = some layout)
    (hvar : layout.variants[pos]? = some variant) (hfield : variant.fields[index]? = some field)
    (hpos : pos < 2 ^ 32) (hidx : index < 2 ^ 32) :
    variantField nominals name pos (1 + payloadOffset layout pos + index) place =
      .ok (project place [.downcast pos, .field index], field.ty) := by
  have hstart :
      ¬ 1 + payloadOffset layout pos + index < 1 + payloadOffset layout pos := by omega
  have hrest : 1 + payloadOffset layout pos + index - (1 + payloadOffset layout pos) =
      index := by omega
  simp only [variantField, hlayout, hvar, if_neg hstart, hrest, hfield, asU32_of_lt hpos,
    asU32_of_lt hidx]
  rfl

/-! ## Registered scrutinees -/

/-- The scrutinee is registered in a local of its own, and the move paths that come later are for
other locals. -/
structure ScrutineeRegistered (nominals : Nominals) (access : ScrutineeAccess)
    (localId : Cleanup.LocalId) (scrutinee : Ty) (registered plan : CleanupPlan) : Prop where
  registers : ∃ before root,
    registerScrutinee nominals access localId scrutinee before = .ok root registered ∧
      ∀ path ∈ before.movePaths, path.place.localId ≠ localId
  later : ∃ more, plan.movePaths = registered.movePaths ++ more ∧
    ∀ path ∈ more, path.place.localId ≠ localId

/-- The plan with an operation more in a block. -/
def append (plan : CleanupPlan) (block : BasicBlockId) (operation : CleanupOp) : CleanupPlan :=
  { plan with blocks := plan.blocks.modify block fun data =>
      { data with operations := data.operations ++ [operation] } }

theorem pushOperation_ok {plan : CleanupPlan} {block : BasicBlockId} {op : CleanupOp}
    (hblock : block < plan.blocks.length) :
    pushOperation block op plan = .ok () (append plan block op) := by
  rw [pushOperation, if_pos hblock]
  rfl

/-- The binding is planned as the pattern says: a copy is a value of its own, and a binding that
moves takes the storage of the part that its name stands for, whose move path is one of those that
are registered for the scrutinee. -/
inductive CommitsExactly (nominals : Nominals) (registered plan : CleanupPlan)
    (block : BasicBlockId) (localId : Cleanup.LocalId) (scrutinee : Ty) (pattern : Pattern)
    (matcher : HirMatcher) (binding : HirPatternBinding) (destination : MovePathId) : Prop
  | copied (hmoves : binding.moves = false)
      (hrun : commitPatternBinding nominals block localId scrutinee matcher binding destination
        plan = .ok () (append plan block (.init destination)))
  | moved (projs : List Projection) (source : MovePathId) (hmoves : binding.moves = true)
      (hselects : Selects nominals.layouts pattern scrutinee binding.name projs binding.ty)
      (hregistered : ∃ path, registered.movePaths[source]? = some path ∧
        path.place = project (localPlace localId) projs)
      (hrun : commitPatternBinding nominals block localId scrutinee matcher binding destination
        plan = .ok () (append plan block (.transfer source destination .initializing)))

/-- A binding moves a part out of a struct, or a component out of a tuple that stays where it is. -/
def MovesUnplanned (access : ScrutineeAccess) (scrutinee : Ty) (binding : HirPatternBinding) :
    Prop :=
  binding.moves = true ∧ binding.path ≠ [] ∧
    match scrutinee with
    | .struct _ => True
    | .tuple _ => access ≠ .consumed
    | _ => False

section

variable {access : ScrutineeAccess} {localId : Cleanup.LocalId} {scrutinee : Ty}
  {registered plan : CleanupPlan} {block : BasicBlockId} {pattern : Pattern} {matcher : HirMatcher}
  {binding : HirPatternBinding} {destination : MovePathId}

theorem ScrutineeRegistered.grows
    (hscrutinee : ScrutineeRegistered nominals access localId scrutinee registered plan) :
    Grows registered plan := by
  obtain ⟨more, hmore, _⟩ := hscrutinee.later
  exact ⟨more, hmore.symm⟩

/-- The parts of a scrutinee that is consumed have their move paths. -/
theorem ScrutineeRegistered.covered
    (hscrutinee : ScrutineeRegistered nominals .consumed localId scrutinee registered plan) :
    Covered nominals.layouts registered (localPlace localId) scrutinee := by
  obtain ⟨before, root, hroot, _⟩ := hscrutinee.registers
  exact (Planning.registers scrutinee hroot).2

theorem ScrutineeRegistered.root
    (hscrutinee : ScrutineeRegistered nominals access localId scrutinee registered plan) :
    Registered registered (localPlace localId) := by
  cases access with
  | consumed => simpa using (hscrutinee.covered (.self scrutinee)).1
  | inspected aliasesAll =>
    obtain ⟨before, root, hroot, _⟩ := hscrutinee.registers
    obtain ⟨path, middle, hpath, hrest⟩ := bind_ok hroot
    obtain ⟨_, hregistered⟩ := registerMovePath_ok hpath
    refine Grows.registered ?_ hregistered
    cases scrutinee with
    | enum name =>
      obtain ⟨prog, hprog, hrest⟩ := exists_program hrest
      dsimp only at hprog
      split at hprog
      · subst hprog
        cases hrest
      · subst hprog
        obtain ⟨_, last, hloop, hlast⟩ := bind_ok hrest
        cases hlast
        refine (forM_ok Grows.refl Grows.trans (fun _ _ => True) (fun _ _ => trivial) ?_
          hloop).1
        intro variant _ before after hturn
        obtain ⟨number, first, hnum, hvar⟩ := bind_ok hturn
        clear hturn
        obtain ⟨_, rfl⟩ := lift_ok hnum
        obtain ⟨_, last, hrun, hlast⟩ := bind_ok hvar
        cases hlast
        exact ⟨(registerMovePath_ok hrun).1, trivial⟩
    | _ =>
      cases hrest
      exact .refl _

/-- A binding whose place has its move path is planned as the pattern says. -/
theorem CommitsExactly.of_source (hgrows : Grows registered plan)
    (hblock : block < plan.blocks.length) (hmoves : binding.moves = true)
    (hselects : Selects nominals.layouts pattern scrutinee binding.name projs binding.ty)
    (hregistered : Registered registered (project (localPlace localId) projs))
    (hsrc : patternSource nominals localId scrutinee matcher binding.path =
      .ok (project (localPlace localId) projs)) :
    CommitsExactly nominals registered plan block localId scrutinee pattern matcher binding
      destination := by
  obtain ⟨id, hid⟩ := hregistered.exists_movePathOf
  refine .moved projs id hmoves hselects (movePathOf_eq_some hid) ?_
  rw [commitPatternBinding, if_pos hmoves, hsrc, lift]
  have hlookup : lookupMovePath (project (localPlace localId) projs) plan = .ok id plan := by
    rw [lookupMovePath, movePathOf_of_grows hgrows hid]
  exact (run_bind hlookup).trans (pushOperation_ok hblock)

/-- The binding moves a component out of a tuple, or the value as a whole. -/
theorem commits_aggregate
    (hscrutinee : ScrutineeRegistered nominals access localId scrutinee registered plan)
    (hblock : block < plan.blocks.length) (hmoves : binding.moves = true)
    (hplaced : Placed nominals pattern scrutinee [] binding)
    (hplanned : ¬ MovesUnplanned access scrutinee binding) :
    CommitsExactly nominals registered plan block localId scrutinee pattern .all binding
      destination := by
  obtain ⟨rest, projs, hpath, hwalks, hselects, _⟩ := hplaced
  rw [nil_append] at hpath
  cases hwalks with
  | self =>
    refine .of_source hscrutinee.grows hblock hmoves hselects ?_ ?_
    · simpa using hscrutinee.root
    · rw [hpath, patternSource, project_nil]
  | @tuple fields index field _ path projs hfield hrest =>
    have haccess : access = .consumed := by
      by_contra haccess
      exact hplanned ⟨hmoves, by simp [hpath], haccess⟩
    subst haccess
    have hwalks : Walks nominals.layouts (.tuple fields) (index :: path)
        (.tupleIndex index :: projs) binding.ty := .tuple hfield hrest
    obtain ⟨hregistered, hfits⟩ := hscrutinee.covered hwalks.reaches
    refine .of_source hscrutinee.grows hblock hmoves hselects hregistered ?_
    rw [hpath, patternSource]
    exact projectPattern_ok hwalks hfits _ _ _
  | struct hlayout hfield hrest =>
    exact absurd ⟨hmoves, by simp [hpath], trivial⟩ hplanned

theorem commits_payload {pos index : Nat} {layout : EnumLayout} {variant : VariantLayout}
    {field : FieldLayout} {rest : List Nat}
    (hscrutinee : ScrutineeRegistered nominals .consumed localId (.enum name) registered plan)
    (hblock : block < plan.blocks.length) (hmoves : binding.moves = true)
    (hlayout : nominals.layouts.enumLayout name = some layout)
    (hvar : layout.variants[pos]? = some variant)
    (hfield : variant.fields[index]? = some field)
    (hpath : binding.path = (1 + payloadOffset layout pos + index) :: rest)
    (hwalks : Walks nominals.layouts field.ty rest projs binding.ty)
    (hselects : Selects nominals.layouts pattern (.enum name) binding.name
      (.downcast pos :: .field index :: projs) binding.ty) :
    CommitsExactly nominals registered plan block localId (.enum name) pattern (.variant pos)
      binding destination := by
  obtain ⟨hregistered, hfits⟩ := hscrutinee.covered (.variant hlayout hvar hfield hwalks.reaches)
  refine .of_source hscrutinee.grows hblock hmoves hselects hregistered ?_
  obtain ⟨hpos, hfits⟩ := forall_mem_cons.mp hfits
  obtain ⟨hidx, hfits⟩ := forall_mem_cons.mp hfits
  rw [hpath, patternSource, variantField_ok hlayout hvar hfield hpos hidx]
  change projectPattern nominals _ _ _ _ _ = _
  rw [projectPattern_ok hwalks hfits, project_project]
  rfl

/-- The paths of the scrutinee that stays where it is lead to no part of it but the variants of an
enum. -/
theorem ScrutineeRegistered.not_registered_tuple {aliasesAll : Bool} {fields : List Ty}
    (hne : projs ≠ [])
    (hscrutinee : ScrutineeRegistered nominals (.inspected aliasesAll) localId (.tuple fields)
      registered plan) :
    movePathOf plan (project (localPlace localId) projs) = none := by
  obtain ⟨before, root, hroot, hfresh⟩ := hscrutinee.registers
  obtain ⟨path, middle, hpath, hrest⟩ := bind_ok hroot
  cases hrest
  obtain ⟨more, hmore, hothers⟩ := hscrutinee.later
  refine findIdx?_eq_none_iff.mpr ?_
  intro other hother
  rw [decide_eq_false_iff_not]
  intro hplace
  have hlocal : other.place.localId = localId := by rw [hplace]; rfl
  rw [hmore] at hother
  rcases mem_append.mp hother with hregistered | hmoved
  · rcases mem_of_registerMovePath hpath hregistered with hold | hnew
    · exact hfresh other hold hlocal
    · rw [hnew] at hplace
      exact hne (congrArg Place.projections hplace).symm
  · exact hothers other hmoved hlocal

theorem not_commits (hplanned : MovesUnplanned access scrutinee binding)
    (hscrutinee : ScrutineeRegistered nominals access localId scrutinee registered plan)
    (hbinding : ArmBinding nominals pattern binding scrutinee matcher) :
    ¬ CommitsExactly nominals registered plan block localId scrutinee pattern matcher binding
      destination := by
  obtain ⟨hmoves, hpath, hstays⟩ := hplanned
  -- The planning of the binding comes to an error.
  have herror : ∃ msg, commitPatternBinding nominals block localId scrutinee matcher binding
      destination plan = .error msg plan := by
    rw [commitPatternBinding, if_pos hmoves]
    cases hbinding with
    | whole hwhole => exact absurd hwhole hpath
    | payload => exact hstays.elim
    | aggregate haggr hplaced =>
      obtain ⟨rest, projs, hrest, hwalks, _⟩ := hplaced
      rw [nil_append] at hrest
      cases hwalks with
      | self => exact absurd hrest hpath
      | struct =>
        rw [hrest]
        exact ⟨_, rfl⟩
      | @tuple fields index field _ path projs hfield hrest' =>
        have hwalks : Walks nominals.layouts (.tuple fields) (index :: path)
            (.tupleIndex index :: projs) binding.ty := .tuple hfield hrest'
        obtain ⟨aliasesAll, rfl⟩ : ∃ aliasesAll, access = .inspected aliasesAll := by
          cases access with
          | consumed => exact absurd rfl hstays
          | inspected aliasesAll => exact ⟨aliasesAll, rfl⟩
        rw [hrest, patternSource]
        cases hsrc : projectPattern nominals "tuple pattern" "tuple pattern" (.tuple fields)
            (index :: path) (localPlace localId) with
        | error msg => exact ⟨msg, rfl⟩
        | ok place =>
          obtain rfl := eq_of_projectPattern hwalks hsrc
          have hnone := hscrutinee.not_registered_tuple (cons_ne_nil
            (.tupleIndex index) projs)
          obtain ⟨msg, hlookup⟩ : ∃ msg, lookupMovePath
              (project (localPlace localId) (.tupleIndex index :: projs)) plan =
                .error msg plan := by
            rw [lookupMovePath, hnone]
            exact ⟨_, rfl⟩
          exact ⟨msg, (run_bind_error hlookup).trans rfl⟩
  obtain ⟨msg, herror⟩ := herror
  intro hcommits
  cases hcommits with
  | copied hcopied => rw [hmoves] at hcopied; cases hcopied
  | moved _ _ _ _ _ hrun => rw [herror] at hrun; cases hrun

/-- A binding of an arm that is lowered without a diagnostic is planned as the pattern says, unless
it moves a part out of a struct, or out of a tuple that stays where it is. -/
theorem commitsExactly_iff {nextLocal : Nat}
    (hclean : (lowerArmPattern nominals scrutinee access pattern nextLocal).2.diagnostics = [])
    (hbinding : binding ∈ (lowerArmPattern nominals scrutinee access pattern nextLocal).2.bindings)
    (hscrutinee : ScrutineeRegistered nominals access localId scrutinee registered plan)
    (hblock : block < plan.blocks.length) (destination : MovePathId) :
    CommitsExactly nominals registered plan block localId scrutinee pattern
        (lowerArmPattern nominals scrutinee access pattern nextLocal).1 binding destination ↔
      ¬ MovesUnplanned access scrutinee binding := by
  have hlowered := lowerArmPattern_lowered hclean
  have hstands := hlowered.stands binding hbinding
  constructor
  · intro hcommits hplanned
    exact not_commits hplanned hscrutinee hstands hcommits
  intro hplanned
  cases hmoves : binding.moves with
  | false =>
    refine .copied hmoves ?_
    rw [commitPatternBinding, if_neg (by simp [hmoves])]
    exact pushOperation_ok hblock
  | true =>
    generalize (lowerArmPattern nominals scrutinee access pattern nextLocal).1 = matcher
      at hlowered hstands ⊢
    cases hstands with
    | aggregate _ hplaced => exact commits_aggregate hscrutinee hblock hmoves hplaced hplanned
    | whole hpath hselects =>
      refine .of_source hscrutinee.grows hblock hmoves hselects ?_ ?_
      · simpa using hscrutinee.root
      · rw [hpath, patternSource, project_nil]
    | @payload name _ _ _ _ _ _ _ hlayout hvar hfield hpath hwalks hselects =>
      have haccess : access = .consumed := by
        by_contra haccess
        rw [hlowered.stays name rfl haccess binding hbinding] at hmoves
        cases hmoves
      subst haccess
      exact commits_payload hscrutinee hblock hmoves hlayout hvar hfield hpath hwalks
        hselects

end

/-! ## A struct pattern that moves a field -/

/-- `struct token(value: i32)` and `struct point(x: token)`. -/
def pointLayouts : NominalLayouts where
  structs := [⟨"token", [⟨"value", .integer .i32⟩]⟩, ⟨"point", [⟨"x", .struct "token"⟩]⟩]
  enums := []
  distinct := by decide

theorem fieldTypes_point {ty : Ty} (hty : ty ∈ pointLayouts.fieldTypes name) :
    ty = .integer .i32 ∨ ty = .struct "token" ∧ name = "point" := by
  simp only [NominalLayouts.fieldTypes, structLayout?, enumLayout?, pointLayouts, List.find?_cons,
    List.find?_nil] at hty
  by_cases htoken : name = "token"
  · subst htoken
    simp at hty
    exact .inl hty
  by_cases hpoint : name = "point"
  · subst hpoint
    simp at hty
    exact .inr ⟨hty, rfl⟩
  · simp [Ne.symm htoken, Ne.symm hpoint] at hty

theorem not_cyclic_point : ¬ NominalLayouts.Cyclic pointLayouts.held := by
  -- Only a point holds a nominal type, and it is no token.
  have hstep {name next : String} (h : CycleReports.Step pointLayouts.held name next) :
      name = "point" ∧ next = "token" := by
    obtain ⟨ty, hty, hnext⟩ := mem_flatMap.mp
      (CycleReports.step_iff.mp h : next ∈ pointLayouts.held name)
    rcases fieldTypes_point hty with rfl | ⟨rfl, rfl⟩
    · simp [heldNominals] at hnext
    · exact ⟨rfl, by simpa [heldNominals] using hnext⟩
  rintro ⟨name, hcycle⟩
  obtain ⟨next, hfst, _⟩ := Relation.TransGen.head'_iff.mp hcycle
  obtain ⟨last, _, hlast⟩ := Relation.TransGen.tail'_iff.mp hcycle
  obtain ⟨rfl, _⟩ := hstep hfst
  exact absurd (hstep hlast).2 (by decide)

/-- The numbers are copied, and nothing has a destructor. -/
def pointNominals : Nominals where
  layouts := pointLayouts.toLayouts (fun _ => false) (by
    intro name ty hty
    rcases fieldTypes_point hty with rfl | ⟨rfl, _⟩ <;> rfl) not_cyclic_point
  tuples _ := rfl
  copyNominals ty :=
    match ty with
    | .integer _ | .bool => true
    | _ => false
  neverName := "never"
  template _ := none
  named _ _ := false
  accessErrors _ _ := []
  layoutError _ := "missing layout"
  display _ := "point"

/-- `point { x }`. -/
def pointPattern : Pattern := .constructor ["point"] (.named [⟨"x", .binding "x"⟩])

theorem structLayout_point : pointNominals.layouts.structLayout "point" =
    some ⟨"point", [⟨"x", .struct "token"⟩]⟩ := rfl

theorem structLayout_token : pointNominals.layouts.structLayout "token" =
    some ⟨"token", [⟨"value", .integer .i32⟩]⟩ := rfl

theorem lowerArmPattern_point :
    lowerArmPattern pointNominals (.struct "point") .consumed pointPattern 0 =
      (.all, ⟨[], 1, [⟨0, "x", .struct "token", [0], true⟩], []⟩) := by
  have hcopy : pointNominals.isCopyType (.struct "token") = false := by
    simp [Nominals.isCopyType, pointNominals]
  have hnormal (ctx : String) : normalizePatternFields (.named [⟨"x", .binding "x"⟩])
      [⟨"x", .struct "token"⟩] true ctx = ([(0, .binding "x")], []) := rfl
  simp only [lowerArmPattern, lowerAggregatePattern, pointPattern]
  rw [lowerIrrefutablePattern]
  simp only [structLayout_point]
  rw [hnormal]
  simp [lowerIrrefutablePattern, start, reportAll, bindPattern, hcopy]
  rfl

/-- A plan with one local. -/
def pointPlan : CleanupPlan where
  rootScope := 0
  entry := 0
  scopes := [⟨0, none, .root, [0]⟩]
  locals := [⟨0, none, none, 0, .temporary, .owned, false, 0⟩]
  movePaths := []
  blocks := [⟨0, 0, [.storageLive 0], none⟩]

/-- The same plan with the move paths of the local. -/
def registeredPoint : CleanupPlan :=
  { pointPlan with
    movePaths := [⟨0, ⟨0, []⟩, none, false⟩, ⟨1, ⟨0, [.field 0]⟩, some 0, false⟩,
      ⟨2, ⟨0, [.field 0, .field 0]⟩, some 1, false⟩] }

theorem registerTypedMovePath_struct {layouts : Layouts} {layout : StructLayout}
    (hlayout : layouts.structLayout name = some layout) (place : Place) (parent : Option MovePathId)
    (visiting : Finset (NominalKind × String)) :
    registerTypedMovePath layouts place parent (.struct name) visiting = (do
      let path ← registerMovePath place parent (layouts.needsDrop (.struct name))
      let visiting ← lift (enterNominal visiting .struct name)
      layout.fields.zipIdx.attach.forM fun field => do
        let index ← lift (asU32 field.1.2
          s!"field index {field.1.2} in struct `{name}` does not fit in u32")
        let _ ← registerTypedMovePath layouts (project place [.field index]) (some path)
          field.1.1.ty visiting
      return path) := by
  rw [registerTypedMovePath]
  congr 1
  funext path
  dsimp only
  congr 1
  funext visiting
  split
  next hnone => rw [hlayout] at hnone; cases hnone
  next other hother =>
    cases hlayout.symm.trans hother
    rfl

theorem registerTypedMovePath_field {layouts : Layouts} {field : FieldLayout} {place : Place}
    {parent : Option MovePathId} {visiting : Finset (NominalKind × String)} {path : MovePathId}
    {before middle after : CleanupPlan} (hlayout : layouts.structLayout name = some ⟨name, [field]⟩)
    (hvisiting : (NominalKind.struct, name) ∉ visiting)
    (hplace : registerMovePath place parent (layouts.needsDrop (.struct name)) before =
      .ok path middle)
    (hfield : ∃ inner, registerTypedMovePath layouts (project place [.field 0]) (some path) field.ty
      (insert (.struct, name) visiting) middle = .ok inner after) :
    registerTypedMovePath layouts place parent (.struct name) visiting before = .ok path after := by
  have henter : lift (enterNominal visiting .struct name) middle =
      .ok (insert (NominalKind.struct, name) visiting) middle := by
    rw [enterNominal, if_neg hvisiting]
    rfl
  rw [registerTypedMovePath_struct hlayout]
  refine (run_bind hplace).trans ((run_bind henter).trans ?_)
  refine (run_bind (?_ : _ = EStateM.Result.ok () after)).trans rfl
  refine (run_bind (?_ : _ = EStateM.Result.ok () after)).trans rfl
  obtain ⟨inner, hfield⟩ := hfield
  exact (run_bind hfield).trans rfl

theorem registerScrutinee_point :
    registerScrutinee pointNominals .consumed 0 (.struct "point") pointPlan =
      .ok 0 registeredPoint := by
  have hi32 : pointNominals.layouts.needsDrop (.integer .i32) = false := by
    simp [Layouts.needsDrop]
  have htoken : pointNominals.layouts.needsDrop (.struct "token") = false := by
    rw [Layouts.needsDrop]
    simp [structLayout_token, hi32]
    rfl
  have hpoint : pointNominals.layouts.needsDrop (.struct "point") = false := by
    rw [Layouts.needsDrop]
    simp [structLayout_point, htoken]
    rfl
  have hroot : registerMovePath (localPlace 0) none false pointPlan =
      .ok 0 { pointPlan with movePaths := [⟨0, ⟨0, []⟩, none, false⟩] } := rfl
  have hfield : registerMovePath (project (localPlace 0) [.field 0]) (some 0) false
      { pointPlan with movePaths := [⟨0, ⟨0, []⟩, none, false⟩] } =
      .ok 1 { pointPlan with movePaths := [⟨0, ⟨0, []⟩, none, false⟩,
        ⟨1, ⟨0, [.field 0]⟩, some 0, false⟩] } := rfl
  refine registerTypedMovePath_field structLayout_point (by simp) (by rw [hpoint]; exact hroot)
    ⟨1, ?_⟩
  refine registerTypedMovePath_field structLayout_token (by simp) (by rw [htoken]; exact hfield)
    ⟨2, ?_⟩
  rw [registerTypedMovePath, hi32]
  rfl

theorem scrutineeRegistered_point : ScrutineeRegistered pointNominals .consumed 0
    (.struct "point") registeredPoint registeredPoint where
  registers := ⟨pointPlan, 0, registerScrutinee_point, nofun⟩
  later := ⟨[], (append_nil _).symm, nofun⟩

theorem lowerArmPattern_whole :
    lowerArmPattern pointNominals (.struct "point") .consumed (.binding "whole") 0 =
      (.all, ⟨[], 1, [⟨0, "whole", .struct "point", [], true⟩], []⟩) := by
  have hcopy : pointNominals.isCopyType (.struct "point") = false := by
    simp [Nominals.isCopyType, pointNominals]
  simp [lowerArmPattern, lowerAggregatePattern, start, bindPattern, hcopy]

/-- A name for the whole struct takes its storage. -/
theorem commitsExactly_whole : CommitsExactly pointNominals registeredPoint registeredPoint 0 0
    (.struct "point") (.binding "whole") .all ⟨0, "whole", .struct "point", [], true⟩ 2 := by
  have hwhole : CommitsExactly pointNominals registeredPoint registeredPoint 0 0 (.struct "point")
      (.binding "whole")
      (lowerArmPattern pointNominals (.struct "point") .consumed (.binding "whole") 0).1
      ⟨0, "whole", .struct "point", [], true⟩ 2 ↔
        ¬ MovesUnplanned .consumed (.struct "point") ⟨0, "whole", .struct "point", [], true⟩ :=
    commitsExactly_iff (by rw [lowerArmPattern_whole])
      (by rw [lowerArmPattern_whole]; exact mem_cons_self) scrutineeRegistered_point
      (by decide) 2
  rw [lowerArmPattern_whole] at hwhole
  exact hwhole.mpr fun hplanned => hplanned.2.1 rfl

/-- The arm is lowered without a diagnostic, and the planner ends with an error of its own where it
comes to the field. -/
theorem not_commitsExactly_point :
    (lowerArmPattern pointNominals (.struct "point") .consumed pointPattern 0).2.diagnostics = [] ∧
      ∃ binding ∈
          (lowerArmPattern pointNominals (.struct "point") .consumed pointPattern 0).2.bindings,
        ScrutineeRegistered pointNominals .consumed 0 (.struct "point") registeredPoint
            registeredPoint ∧
          commitPatternBinding pointNominals 0 0 (.struct "point") .all binding 2 registeredPoint =
            .error "moving a projected pattern binding requires a concrete enum variant"
              registeredPoint ∧
          ¬ CommitsExactly pointNominals registeredPoint registeredPoint 0 0 (.struct "point")
            pointPattern .all binding 2 := by
  rw [lowerArmPattern_point]
  have herror : commitPatternBinding pointNominals 0 0 (.struct "point") .all
      ⟨0, "x", .struct "token", [0], true⟩ 2 registeredPoint =
        .error "moving a projected pattern binding requires a concrete enum variant"
          registeredPoint := rfl
  refine ⟨rfl, _, mem_cons_self, scrutineeRegistered_point, herror, ?_⟩
  intro hcommits
  cases hcommits with
  | copied hmoves => cases hmoves
  | moved _ _ _ _ _ hrun => rw [herror] at hrun; cases hrun

end Salicin.Matching
