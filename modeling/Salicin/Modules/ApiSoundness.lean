import Salicin.Modules.ApiExposure

/-!
# Public signatures and narrower declarations

Every place of a signature is a position: a type, the compile-time parameters in scope, and the
boundary of the item or member it belongs to. Sorts of compile-time parameters, the headers of
extensions and the predicates of traits are positions that the check does not go to.
-/

namespace Salicin.Modules

open List Salicin.Source

/-- A place of a signature where a type is written. -/
structure Position where
  ty : SourceType
  bound : List String
  boundary : ApiBoundary
  /-- The check goes to the place. -/
  walked : Bool

mutual

def sortNames : CompileSort → List String
  | .named name => [name]
  | .typeConstructor groups | .effectConstructor groups => sortGroupNames groups
  | _ => []

def sortGroupNames : List (List CompileSort) → List String
  | [] => []
  | group :: rest => sortListNames group ++ sortGroupNames rest

def sortListNames : List CompileSort → List String
  | [] => []
  | kind :: rest => sortNames kind ++ sortListNames rest

end

/-- The sorts of compile-time parameters. -/
def parameterPositions (boundary : ApiBoundary) (bound : List String)
    (groups : List (List CompileParam)) : List Position :=
  groups.flatten.flatMap fun param =>
    (sortNames param.kind).map fun name => ⟨.named name [], bound, boundary, false⟩

def bindingPositions (walked : Bool) (boundary : ApiBoundary) (bound : List String)
    (binding : AssociatedTypeBinding) : List Position :=
  parameterPositions boundary bound binding.compileGroups ++
    [⟨binding.ty, compileParameterNames binding.compileGroups bound, boundary, walked⟩]

def predicatePositions (walked : Bool) (boundary : ApiBoundary) (bound : List String)
    (pred : WherePredicate) : List Position :=
  ⟨pred.subject, bound, boundary, walked⟩ ::
    ⟨pred.traitRef, bound, boundary, walked⟩ ::
    pred.associatedTypes.flatMap (bindingPositions walked boundary bound)

/-- The signature of a function; its effects are those of a function type. -/
def functionPositions (boundary : ApiBoundary) (outer : List String) (function : Function) :
    List Position :=
  let bound := compileParameterNames function.compileGroups outer
  parameterPositions boundary outer function.compileGroups ++
    function.groups.flatten.map (fun param => ⟨param.ty, bound, boundary, true⟩) ++
    function.returnType.toList.map (fun returnType => ⟨returnType, bound, boundary, true⟩) ++
    [⟨.function [] function.effects .unit, bound, boundary, true⟩] ++
    function.wherePredicates.flatMap (predicatePositions true boundary bound)

def fieldPosition (boundary : ApiBoundary) (bound : List String) (field : Field) : Position :=
  ⟨field.ty, bound, effectiveApiBoundary boundary field.visibility, true⟩

def variantPositions (boundary : ApiBoundary) (bound : List String) (variant : VariantDef) :
    List Position :=
  match variant.fields with
  | .unit => []
  | .positional types => types.map fun ty => ⟨ty, bound, boundary, true⟩
  | .named fields => fields.map (fieldPosition boundary bound)

def traitMemberPositions (boundary : ApiBoundary) (bound : List String) :
    TraitMember → List Position
  | .function function => functionPositions boundary bound function
  | .associatedType _ groups default =>
    parameterPositions boundary bound groups ++
      default.toList.map fun ty => ⟨ty, compileParameterNames groups bound, boundary, true⟩

def extendMemberPositions (boundary : ApiBoundary) (bound : List String) :
    ExtendMember → List Position
  | .function function => functionPositions boundary bound function
  | .const binding => binding.annotation.toList.map fun ty => ⟨ty, bound, boundary, true⟩

/-- In an implementation of a trait the constants are associated types. -/
def implementedTypeNames (extension : ExtendDef) : List String :=
  if extension.traitRef.isSome then
    extension.members.filterMap fun member =>
      match member with
      | .const binding => some binding.name
      | .function _ => none
  else []

def extendPositions (boundary : ApiBoundary) (extension : ExtendDef) : List Position :=
  let header := compileParameterNames extension.compileGroups []
  parameterPositions boundary [] extension.compileGroups ++
    ⟨extension.target, header, boundary, false⟩ ::
    extension.traitRef.toList.map (fun traitRef => ⟨traitRef, header, boundary, false⟩) ++
    extension.wherePredicates.flatMap (predicatePositions true boundary (header ++ ["self"])) ++
    extension.members.flatMap
      (extendMemberPositions boundary (header ++ ["self"] ++ implementedTypeNames extension))

/-- Every place of the signature of an item. -/
def itemPositions (nominal : String → Option ApiBoundary) (entry : ApiItem) : List Position :=
  match entry.declared.item with
  | .function function => functionPositions entry.boundary [] function
  | .global binding => binding.annotation.toList.map fun ty => ⟨ty, [], entry.boundary, true⟩
  | .typeAlias definition =>
    parameterPositions entry.boundary [] definition.compileGroups ++
      [⟨definition.target, compileParameterNames definition.compileGroups [], entry.boundary, true⟩]
  | .effect definition =>
    parameterPositions entry.boundary [] definition.compileGroups ++ definition.operations.flatMap
        (functionPositions entry.boundary (compileParameterNames definition.compileGroups []))
  | .sort _ => []
  | .typeForm definition => parameterPositions entry.boundary [] definition.compileGroups
  | .struct definition =>
    parameterPositions entry.boundary [] definition.compileGroups ++ definition.fields.map
        (fieldPosition entry.boundary (compileParameterNames definition.compileGroups []))
  | .enum definition =>
    parameterPositions entry.boundary [] definition.compileGroups ++ definition.variants.flatMap
        (variantPositions entry.boundary (compileParameterNames definition.compileGroups []))
  | .trait definition =>
    let bound := compileParameterNames definition.compileGroups [] ++ ["self"] ++
      associatedTypeNames definition.members
    parameterPositions entry.boundary [] ([definition.selfParameter] :: definition.compileGroups)
      ++ definition.wherePredicates.flatMap (predicatePositions false entry.boundary bound) ++
      definition.members.flatMap (traitMemberPositions entry.boundary bound)
  | .extend extension =>
    extendPositions (extensionBoundary nominal entry.boundary extension) extension

/-- The name is that of a compile-time parameter, or its declaration has an audience that
contains the one of the signature. -/
def Position.Contains (nominal : String → Option ApiBoundary) (position : Position)
    (name : String) : Prop :=
  isBoundApiType name position.bound ∨ ∀ referenced, nominal name = some referenced →
    position.boundary.audience ⊆ referenced.audience

/-- The position names the declaration where the check does not look. -/
def Position.LeavesOut (position : Position) (name : String) : Prop :=
  (position.walked = false ∧ Mentions position.ty name) ∨ MentionsLeftOut position.ty name

/-- No signature of the program names a declaration with a narrower audience. -/
def ExposesNothingNarrower (program : List ApiItem) : Prop :=
  ∀ entry ∈ program, ∀ position ∈ itemPositions (nominalBoundaries program) entry,
    ∀ name, Mentions position.ty name → position.Contains (nominalBoundaries program) name

/-- No place that the check leaves out names a declaration with a narrower audience. -/
def LeftOutExposesNothingNarrower (program : List ApiItem) : Prop :=
  ∀ entry ∈ program, ∀ position ∈ itemPositions (nominalBoundaries program) entry,
    ∀ name, position.LeavesOut name → position.Contains (nominalBoundaries program) name

/-! ## Where the check goes -/

theorem isBoundApiType_mono {first second : List String} (hsub : first ⊆ second)
    {name : String} (hbound : isBoundApiType name first) : isBoundApiType name second := by
  unfold isBoundApiType at hbound ⊢
  obtain ⟨param, hparam, hname⟩ := any_eq_true.mp hbound
  exact any_eq_true.mpr ⟨param, hsub hparam, hname⟩

theorem compileParameterNames_mono {first second : List String} (hsub : first ⊆ second)
    (groups : List (List CompileParam)) :
    compileParameterNames groups first ⊆ compileParameterNames groups second := by
  intro name hname
  rcases mem_append.mp hname with hname | hname
  · exact mem_append_left _ (hsub hname)
  · exact mem_append_right _ hname

/-- The check has gone to the position, with the boundary of the position and no more names
bound, and found nothing. -/
def Walked (nominal : String → Option ApiBoundary) (position : Position) : Prop :=
  ∃ check : ApiCheck, check.nominal = nominal ∧ check.exposed = position.boundary ∧
    check.bound ⊆ position.bound ∧ check.validateExposedType position.ty = []

variable {nominal : String → Option ApiBoundary}

theorem Walked.of_clean {position : Position} {check : ApiCheck}
    (hclean : check.validateExposedType position.ty = []) (hbound : check.bound ⊆ position.bound)
    (hexposed : check.exposed = position.boundary) (hnominal : check.nominal = nominal) :
    Walked nominal position :=
  ⟨check, hnominal, hexposed, hbound, hclean⟩

theorem Walked.contains_or_leftOut {position : Position} (hwalked : Walked nominal position)
    {name : String} (hmentions : Mentions position.ty name) :
    position.Contains nominal name ∨ MentionsLeftOut position.ty name := by
  obtain ⟨check, rfl, hexposed, hbound, hclean⟩ := hwalked
  rcases ApiCheck.contains_or_leftOut hmentions hclean with (hname | hcont) | hleft
  · exact .inl (.inl (isBoundApiType_mono hbound hname))
  · exact .inl (.inr (hexposed ▸ hcont))
  · exact .inr hleft

/-- All the positions of a list that are marked as walked have been walked. -/
def AllWalked (nominal : String → Option ApiBoundary) (positions : List Position) : Prop :=
  ∀ position ∈ positions, position.walked → Walked nominal position

section

variable {nominal : String → Option ApiBoundary}

theorem AllWalked.nil : AllWalked nominal [] := by simp [AllWalked]

theorem AllWalked.append {first second : List Position} (hfst : AllWalked nominal first)
    (hsnd : AllWalked nominal second) : AllWalked nominal (first ++ second) := by
  intro position hpos
  rcases mem_append.mp hpos with hpos | hpos
  · exact hfst position hpos
  · exact hsnd position hpos

theorem AllWalked.cons {position : Position} {rest : List Position}
    (hpos : position.walked → Walked nominal position) (hrest : AllWalked nominal rest) :
    AllWalked nominal (position :: rest) := by
  intro other hother
  rcases mem_cons.mp hother with rfl | hother
  · exact hpos
  · exact hrest other hother

theorem AllWalked.flatMap {α : Type} {items : List α} {positions : α → List Position}
    (hitems : ∀ item ∈ items, AllWalked nominal (positions item)) :
    AllWalked nominal (items.flatMap positions) := by
  intro position hpos
  obtain ⟨item, hitem, hpos⟩ := mem_flatMap.mp hpos
  exact hitems item hitem position hpos

theorem AllWalked.map {α : Type} {items : List α} {positions : α → Position}
    (hitems : ∀ item ∈ items, (positions item).walked → Walked nominal (positions item)) :
    AllWalked nominal (items.map positions) := by
  intro position hpos
  obtain ⟨item, hitem, rfl⟩ := mem_map.mp hpos
  exact hitems item hitem

theorem AllWalked.parameterPositions (boundary : ApiBoundary) (bound : List String)
    (groups : List (List CompileParam)) :
    AllWalked nominal (parameterPositions boundary bound groups) := by
  apply AllWalked.flatMap
  intro param _
  apply AllWalked.map
  simp

theorem AllWalked.predicatePositions_false (boundary : ApiBoundary) (bound : List String)
    (pred : WherePredicate) :
    AllWalked nominal (predicatePositions false boundary bound pred) := by
  apply AllWalked.cons (by simp)
  apply AllWalked.cons (by simp)
  apply AllWalked.flatMap
  intro binding _
  exact (AllWalked.parameterPositions _ _ _).append (.cons (by simp) .nil)

end

theorem exists_mem_zipIdx {α : Type} {item : α} {items : List α} (hitem : item ∈ items)
    (first : Nat) : ∃ index, (item, index) ∈ items.zipIdx first := by
  obtain ⟨index, hidx⟩ := getElem?_of_mem hitem
  exact ⟨first + index, mk_add_mem_zipIdx_iff_getElem?.mpr hidx⟩

namespace ApiCheck

variable {check : ApiCheck}

theorem validatePredicates_clean {predicates : List WherePredicate}
    (hclean : check.validatePredicates predicates = []) {bound : List String}
    (hbound : check.bound ⊆ bound) :
    AllWalked check.nominal
      (predicates.flatMap (predicatePositions true check.exposed bound)) := by
  apply AllWalked.flatMap
  intro pred hpredicate
  obtain ⟨index, hidx⟩ := exists_mem_zipIdx hpredicate 1
  have hpredicate := flatMap_eq_nil_iff.mp hclean _ hidx
  simp only [validatePredicate, append_eq_nil_iff, flatMap_eq_nil_iff] at hpredicate
  obtain ⟨⟨hsubject, htrait⟩, hbinds⟩ := hpredicate
  refine .cons (fun _ => .of_clean hsubject ?_ rfl rfl) (.cons (fun _ => .of_clean htrait ?_ rfl rfl) ?_)
  · exact hbound
  · exact hbound
  apply AllWalked.flatMap
  intro binding hbind
  refine (AllWalked.parameterPositions _ _ _).append (.cons (fun _ => ?_) .nil)
  exact .of_clean (hbinds binding hbind) (compileParameterNames_mono hbound _) rfl rfl

theorem validateFunctionApi_clean {function : Function}
    (hclean : check.validateFunctionApi function = []) {outer : List String}
    (houter : check.bound ⊆ outer) :
    AllWalked check.nominal (functionPositions check.exposed outer function) := by
  have hbound := compileParameterNames_mono houter function.compileGroups
  simp only [validateFunctionApi, append_eq_nil_iff, flatMap_eq_nil_iff] at hclean
  obtain ⟨⟨⟨hparams, hreturn⟩, heffs⟩, hpredicates⟩ := hclean
  refine ((((AllWalked.parameterPositions _ _ _).append ?_).append ?_).append ?_).append ?_
  · apply AllWalked.map
    intro param hparam _
    exact .of_clean (hparams param hparam) hbound rfl rfl
  · apply AllWalked.map
    intro returnType hreturnType _
    exact .of_clean (hreturn returnType hreturnType) hbound rfl rfl
  · refine .cons (fun _ => ⟨check.bind function.compileGroups, rfl, rfl, hbound, ?_⟩) .nil
    simpa [validateExposedType, validateExposedGroups] using heffs
  · exact validatePredicates_clean hpredicates hbound

theorem validateField_walked {owner : String} {field : Field}
    (hclean : check.validateField owner field = []) :
    Walked check.nominal (fieldPosition check.exposed check.bound field) :=
  .of_clean hclean (List.Subset.refl _) rfl rfl

theorem validateVariant_clean {owner : String} {variant : VariantDef}
    (hclean : check.validateVariant owner variant = []) :
    AllWalked check.nominal (variantPositions check.exposed check.bound variant) := by
  unfold validateVariant at hclean
  unfold variantPositions
  cases hfields : variant.fields with
  | unit => exact .nil
  | positional types =>
    rw [hfields] at hclean
    apply AllWalked.map
    intro ty hty _
    obtain ⟨index, hidx⟩ := exists_mem_zipIdx hty 0
    exact .of_clean (flatMap_eq_nil_iff.mp hclean _ hidx) (List.Subset.refl _) rfl rfl
  | named fields =>
    rw [hfields] at hclean
    apply AllWalked.map
    intro field hfield _
    exact validateField_walked (flatMap_eq_nil_iff.mp hclean field hfield)

theorem validateTraitMember_clean {owner : String} {member : TraitMember}
    (hclean : check.validateTraitMember owner member = []) :
    AllWalked check.nominal (traitMemberPositions check.exposed check.bound member) := by
  cases member with
  | function function => exact validateFunctionApi_clean hclean (List.Subset.refl _)
  | associatedType name groups default =>
    refine (AllWalked.parameterPositions _ _ _).append (AllWalked.map ?_)
    intro ty hty _
    obtain rfl : default = some ty := by simpa [eq_comm] using hty
    exact .of_clean hclean (List.Subset.refl _) rfl rfl

theorem validateExtendMember_clean {member : ExtendMember}
    (hclean : check.validateExtendMember member = []) {bound : List String}
    (hbound : check.bound ⊆ bound) :
    AllWalked check.nominal (extendMemberPositions check.exposed bound member) := by
  cases member with
  | function function => exact validateFunctionApi_clean hclean hbound
  | const binding =>
    apply AllWalked.map
    intro ty hty _
    exact .of_clean (flatMap_eq_nil_iff.mp hclean ty hty) hbound rfl rfl

end ApiCheck

/-- An item without a diagnostic has been checked at all the walked places. -/
theorem validateItemApi_clean {entry : ApiItem} (hclean : validateItemApi nominal entry = []) :
    AllWalked nominal (itemPositions nominal entry) := by
  unfold validateItemApi at hclean
  unfold itemPositions
  simp only at hclean
  cases hitem : entry.declared.item with
  | function function =>
    rw [hitem] at hclean
    exact ApiCheck.validateFunctionApi_clean hclean (List.Subset.refl _)
  | global binding =>
    rw [hitem] at hclean
    apply AllWalked.map
    intro ty hty _
    exact .of_clean (flatMap_eq_nil_iff.mp hclean ty hty) (List.Subset.refl _) rfl rfl
  | typeAlias defn =>
    rw [hitem] at hclean
    refine (AllWalked.parameterPositions _ _ _).append (.cons (fun _ => ?_) .nil)
    exact .of_clean hclean (List.Subset.refl _) rfl rfl
  | effect defn =>
    rw [hitem] at hclean
    refine (AllWalked.parameterPositions _ _ _).append (AllWalked.flatMap ?_)
    intro op hop
    exact ApiCheck.validateFunctionApi_clean
      (flatMap_eq_nil_iff.mp hclean op hop) (List.Subset.refl _)
  | sort defn => exact .nil
  | typeForm defn => exact AllWalked.parameterPositions _ _ _
  | struct defn =>
    rw [hitem] at hclean
    refine (AllWalked.parameterPositions _ _ _).append (AllWalked.map ?_)
    intro field hfield _
    exact ApiCheck.validateField_walked (flatMap_eq_nil_iff.mp hclean field hfield)
  | enum defn =>
    rw [hitem] at hclean
    refine (AllWalked.parameterPositions _ _ _).append (AllWalked.flatMap ?_)
    intro variant hvar
    exact ApiCheck.validateVariant_clean (flatMap_eq_nil_iff.mp hclean variant hvar)
  | trait defn =>
    rw [hitem] at hclean
    refine ((AllWalked.parameterPositions _ _ _).append (AllWalked.flatMap ?_)).append
      (AllWalked.flatMap ?_)
    · exact fun pred _ => AllWalked.predicatePositions_false _ _ pred
    · intro member hmember
      exact ApiCheck.validateTraitMember_clean (flatMap_eq_nil_iff.mp hclean member hmember)
  | extend extension =>
    rw [hitem] at hclean
    simp only [append_eq_nil_iff] at hclean
    refine (((AllWalked.parameterPositions _ _ _).append (.cons (by simp)
      (AllWalked.map (by simp)))).append ?_).append (AllWalked.flatMap ?_)
    · exact ApiCheck.validatePredicates_clean hclean.1 (List.Subset.refl _)
    · intro member hmember
      exact ApiCheck.validateExtendMember_clean
        (flatMap_eq_nil_iff.mp hclean.2 member hmember) (subset_append_left _ _)

theorem validateApiVisibility_eq_nil {prog : List ApiItem} :
    validateApiVisibility prog = [] ↔
      ∀ entry ∈ prog, validateItemApi (nominalBoundaries prog) entry = [] := by
  rw [validateApiVisibility, destutter_eq_nil, ← length_eq_zero_iff,
    length_mergeSort, length_eq_zero_iff, flatMap_eq_nil_iff]

namespace HiddenSort

/-- Where the declarations of the module `shade` were written. -/
def shadeOrigin : ItemOrigin := ⟨0, ["shade"], none⟩

/-- `let color = sort(1) { red, green }`. -/
def color : ApiItem where
  declared := ⟨.sort ⟨"shade::color", 1, some ["red", "green"]⟩, .priv, shadeOrigin⟩
  sourcePath := "shade.sc"

/-- `pub let paint(comptime pigment: color)(): i32`. -/
def paint : ApiItem where
  declared := ⟨.function
    { name := "shade::paint"
      builtin := false
      compileGroups := [[⟨"pigment", .named "shade::color", none⟩]]
      groups := [[]]
      returnType := some (.integer .i32)
      effects := .pure
      wherePredicates := [] }, .pub, shadeOrigin⟩
  sourcePath := "shade.sc"

def program : List ApiItem := [color, paint]

theorem program_accepted : validateApiVisibility program = [] := by
  rw [validateApiVisibility_eq_nil]
  decide

/-- The position of the sort of the parameter. -/
def sortPosition : Position := ⟨.named "shade::color" [], [], paint.boundary, false⟩

/-- Beside a public type, a public function that takes it is accepted, and the places that the
check leaves out name nothing. -/
def point : ApiItem where
  declared := ⟨.struct ⟨"shade::point", [], []⟩, .pub, shadeOrigin⟩
  sourcePath := "shade.sc"

def shift : ApiItem where
  declared := ⟨.function
    { name := "shade::shift"
      builtin := false
      compileGroups := []
      groups := [[⟨.inferred, none, [], none, "point", .named "shade::point" []⟩]]
      returnType := none
      effects := .pure
      wherePredicates := [] }, .pub, shadeOrigin⟩
  sourcePath := "shade.sc"

end HiddenSort

end Salicin.Modules
