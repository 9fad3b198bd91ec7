import Salicin.Codegen.DropSlots

/-!
# What needs drop

The analyzer, the program and the emitter each ask which types need drop. The program asks for the
destructors of structs and enums only, the analyzer for those of any type. The emitter collects the
types that need drop glue, with every type whose glue that glue calls.
-/

namespace Salicin.Codegen

open List

/-! ## Equality of types -/

mutual

/-- Equality of types, constructor by constructor. -/
def Ty.same : Ty → Ty → Bool
  | .integer kind, .integer kind' => kind = kind'
  | .bool, .bool | .unit, .unit | .str, .str | .never, .never | .function, .function => true
  | .continuation, .continuation | .effectCallable, .effectCallable => true
  | .effectRow, .effectRow | .error, .error => true
  | .tuple fields, .tuple fields' => sameAll fields fields'
  | .pointer pointee mutable, .pointer pointee' mutable' =>
    pointee.same pointee' && mutable = mutable'
  | .reference pointee mutable, .reference pointee' mutable' =>
    pointee.same pointee' && mutable = mutable'
  | .slice element, .slice element' => element.same element'
  | .array element length, .array element' length' => element.same element' && length = length'
  | .struct name, .struct name' => name = name'
  | .enum name, .enum name' => name = name'
  | .callable captures, .callable captures' => sameCaptures captures captures'
  | _, _ => false

def sameAll : List Ty → List Ty → Bool
  | [], [] => true
  | ty :: rest, ty' :: rest' => ty.same ty' && sameAll rest rest'
  | _, _ => false

def sameCaptures : List (PassMode × Ty) → List (PassMode × Ty) → Bool
  | [], [] => true
  | (mode, ty) :: rest, (mode', ty') :: rest' =>
    mode = mode' && ty.same ty' && sameCaptures rest rest'
  | _, _ => false

end

mutual

theorem Ty.same_iff (ty other : Ty) : ty.same other = true ↔ ty = other := by
  cases ty with
  | tuple fields => cases other <;> simp [Ty.same, sameAll_iff fields]
  | pointer pointee mutable => cases other <;> simp [Ty.same, Ty.same_iff pointee]
  | reference pointee mutable => cases other <;> simp [Ty.same, Ty.same_iff pointee]
  | slice element => cases other <;> simp [Ty.same, Ty.same_iff element]
  | array element length => cases other <;> simp [Ty.same, Ty.same_iff element]
  | callable captures => cases other <;> simp [Ty.same, sameCaptures_iff captures]
  | _ => cases other <;> simp [Ty.same]

theorem sameAll_iff (types others : List Ty) : sameAll types others = true ↔ types = others := by
  cases types with
  | nil => cases others <;> simp [sameAll]
  | cons ty rest => cases others <;> simp [sameAll, Ty.same_iff ty, sameAll_iff rest]

theorem sameCaptures_iff (captures others : List (PassMode × Ty)) :
    sameCaptures captures others = true ↔ captures = others := by
  cases captures with
  | nil => cases others <;> simp [sameCaptures]
  | cons capture rest =>
    obtain ⟨mode, ty⟩ := capture
    cases others <;> simp [sameCaptures, Ty.same_iff ty, sameCaptures_iff rest, Prod.ext_iff]

end

instance : DecidableEq Ty := fun ty other => decidable_of_iff _ (Ty.same_iff ty other)

/-! ## Layouts without cycles -/

/-- The types of the parts of a value, with what a callable borrows. -/
def parts (structs : List StructLayout) (enums : List EnumLayout) : Ty → List Ty
  | .callable captures => captures.map Prod.snd
  | ty => components structs enums ty

structure AcyclicLayouts extends Layouts where
  /-- No type is a part of itself. -/
  acyclic : WellFounded fun part ty => part ∈ parts structs enums ty

theorem parts_of_components {structs : List StructLayout} {enums : List EnumLayout} {part ty : Ty}
    (hpart : part ∈ components structs enums ty) : part ∈ parts structs enums ty := by
  cases ty with
  | callable captures =>
    obtain ⟨capture, hcapture, rfl⟩ := mem_map.mp hpart
    exact mem_map_of_mem (mem_of_mem_filter hcapture)
  | _ => exact hpart

/-- No type is a part of itself where the fields of structs and enums have no parts. -/
theorem acyclic_of_flat {structs : List StructLayout} {enums : List EnumLayout}
    (hstruct : ∀ name, ∀ part ∈ parts structs enums (.struct name), parts structs enums part = [])
    (henum : ∀ name, ∀ part ∈ parts structs enums (.enum name), parts structs enums part = []) :
    WellFounded fun part ty => part ∈ parts structs enums ty := by
  have hleaf {ty : Ty} (hnone : parts structs enums ty = []) :
      Acc (fun part ty => part ∈ parts structs enums ty) ty :=
    ⟨_, fun part hpart => by simp [hnone] at hpart⟩
  refine ⟨fun ty => ?_⟩
  induction hsize : sizeOf ty using Nat.strong_induction_on generalizing ty with
  | _ size ih =>
    subst hsize
    refine ⟨_, fun part hpart => ?_⟩
    cases ty with
    | struct name => exact hleaf (hstruct name part hpart)
    | enum name => exact hleaf (henum name part hpart)
    | tuple fields =>
      refine ih (sizeOf part) ?_ part rfl
      have hsmaller := sizeOf_lt_of_mem (show part ∈ fields from hpart)
      simp only [Ty.tuple.sizeOf_spec]
      omega
    | array element length =>
      refine ih (sizeOf part) ?_ part rfl
      obtain rfl := mem_singleton.mp hpart
      simp only [Ty.array.sizeOf_spec]
      omega
    | callable captures =>
      refine ih (sizeOf part) ?_ part rfl
      obtain ⟨capture, hcapture, rfl⟩ := mem_map.mp hpart
      have hsmaller := sizeOf_lt_of_mem hcapture
      have hsnd : sizeOf capture.2 < sizeOf capture := by
        cases capture
        simp only [Prod.mk.sizeOf_spec]
        omega
      simp only [Ty.callable.sizeOf_spec]
      omega
    | _ => simp [parts, components] at hpart

variable {name : String}

namespace Layouts

variable (layouts : Layouts)

/-- `type_needs_drop_inner`, with the types that it is asked inside of. A type has a custom drop
when there is an implementation without trait arguments. -/
def typeNeedsDropInner (ty : Ty) (visiting : List Ty) : Bool :=
  if ty ∈ visiting then true
  else
    layouts.hasDropMethod ty ||
      match ty with
      | .array element _ => typeNeedsDropInner element (ty :: visiting)
      | .tuple fields => fields.attach.any fun field => typeNeedsDropInner field.1 (ty :: visiting)
      | .struct name =>
        match _hlayout : layouts.structLayout name with
        | some layout =>
          layout.fields.attach.any fun field => typeNeedsDropInner field.1.ty (ty :: visiting)
        | none => false
      | .enum name =>
        match _hlayout : layouts.enumLayout name with
        | some layout =>
          layout.variants.attach.any fun variant =>
            variant.1.fields.attach.any fun field =>
              typeNeedsDropInner field.1.ty (ty :: visiting)
        | none => false
      | .callable captures =>
        (ownedCaptures captures).attach.any fun capture =>
          typeNeedsDropInner capture.1 (ty :: visiting)
      | .continuation | .effectCallable => true
      | _ => false
termination_by layouts.finite.wrap ty
decreasing_by
  · exact layouts.contains_array _ _
  · exact layouts.contains_tuple field.2
  · exact layouts.contains_struct _hlayout field.2
  · exact layouts.contains_enum _hlayout variant.2 field.2
  · exact layouts.contains_callable capture.2

/-- `Analyzer::type_needs_drop`. -/
def typeNeedsDrop (ty : Ty) : Bool := layouts.typeNeedsDropInner ty []

/-! ## Held types -/

/-- A value of the second type holds a value of the first, or is one. -/
def Holds (part ty : Ty) : Prop := Relation.ReflTransGen layouts.Contains part ty

/-- The types that are dropped for what they are: code that is kept on the heap. -/
def isDeferred : Ty → Bool
  | .continuation | .effectCallable => true
  | _ => false

def isNominal : Ty → Bool
  | .struct _ | .enum _ => true
  | _ => false

/-- A value of the type holds, or is, a struct or an enum with a destructor or code on the heap. -/
def HoldsDrop (ty : Ty) : Prop :=
  ∃ part, layouts.Holds part ty ∧
    (isNominal part = true ∧ layouts.hasDropMethod part = true ∨ isDeferred part = true)

variable {layouts}

theorem exists_holds_iff {P : Ty → Prop} {ty : Ty} : (∃ part, layouts.Holds part ty ∧ P part) ↔
      P ty ∨ ∃ child, layouts.Contains child ty ∧ ∃ part, layouts.Holds part child ∧ P part := by
  constructor
  · rintro ⟨part, hholds, hpart⟩
    rcases hholds.cases_tail with rfl | ⟨child, hholds, hchild⟩
    · exact .inl hpart
    · exact .inr ⟨child, hchild, part, hholds, hpart⟩
  · rintro (hty | ⟨child, hchild, part, hholds, hpart⟩)
    · exact ⟨ty, .refl, hty⟩
    · exact ⟨part, hholds.tail hchild, hpart⟩

theorem contains_struct_iff {part : Ty} : layouts.Contains part (.struct name) ↔
    ∃ layout, layouts.structLayout name = some layout ∧
      ∃ field ∈ layout.fields, field.ty = part := by
  simp only [Contains, components, structLayout]
  cases structLayout? layouts.structs name <;> simp

theorem contains_enum_iff {part : Ty} : layouts.Contains part (.enum name) ↔
    ∃ layout, layouts.enumLayout name = some layout ∧ ∃ variant ∈ layout.variants,
      ∃ field ∈ variant.fields, field.ty = part := by
  simp only [Contains, components, enumLayout]
  cases enumLayout? layouts.enums name <;> simp

theorem needsDrop_step (ty : Ty) : layouts.needsDrop ty = true ↔
    (isNominal ty = true ∧ layouts.hasDropMethod ty = true ∨ isDeferred ty = true) ∨
      ∃ part, layouts.Contains part ty ∧ layouts.needsDrop part = true := by
  rw [needsDrop.eq_def]
  cases ty with
  | struct name =>
    simp only [contains_struct_iff]
    split
    next layout hlayout => simp [isNominal, isDeferred, hlayout]
    next hlayout => simp [isNominal, isDeferred, hlayout]
  | enum name =>
    simp only [contains_enum_iff]
    split
    next layout hlayout => simp [isNominal, isDeferred, hlayout, and_assoc]
    next hlayout => simp [isNominal, isDeferred, hlayout]
  | _ => simp [isNominal, isDeferred, Contains, components]

theorem typeNeedsDropInner_step {ty : Ty} {visiting : List Ty} (hnew : ty ∉ visiting) :
    layouts.typeNeedsDropInner ty visiting = true ↔
      (layouts.hasDropMethod ty = true ∨ isDeferred ty = true) ∨ ∃ part, layouts.Contains part ty ∧
          layouts.typeNeedsDropInner part (ty :: visiting) = true := by
  rw [typeNeedsDropInner.eq_def, if_neg hnew, Bool.or_eq_true, or_assoc]
  refine or_congr_right ?_
  cases ty with
  | struct name =>
    simp only [contains_struct_iff]
    split
    next layout hlayout => simp [isDeferred, hlayout]
    next hlayout => simp [isDeferred, hlayout]
  | enum name =>
    simp only [contains_enum_iff]
    split
    next layout hlayout => simp [isDeferred, hlayout, and_assoc]
    next hlayout => simp [isDeferred, hlayout]
  | _ => simp [isDeferred, Contains, components]

theorem needsDrop_iff (ty : Ty) : layouts.needsDrop ty = true ↔ layouts.HoldsDrop ty := by
  induction ty using layouts.finite.induction with
  | _ ty ih =>
    rw [needsDrop_step, HoldsDrop, exists_holds_iff]
    refine or_congr_right (exists_congr fun part => and_congr_right fun hpart => ih part hpart)

theorem typeNeedsDropInner_iff (ty : Ty) {visiting : List Ty}
    (hvisiting : ∀ outer ∈ visiting, Relation.TransGen layouts.Contains ty outer) :
    layouts.typeNeedsDropInner ty visiting = true ↔ ∃ part, layouts.Holds part ty ∧
        (layouts.hasDropMethod part = true ∨ isDeferred part = true) := by
  induction ty using layouts.finite.induction generalizing visiting with
  | _ ty ih =>
    have hnew : ty ∉ visiting := fun hmem =>
      layouts.not_containsTrans_self ty (hvisiting ty hmem)
    rw [typeNeedsDropInner_step hnew, exists_holds_iff]
    refine or_congr_right (exists_congr fun part => and_congr_right fun hpart => ih part hpart ?_)
    intro outer houter
    rcases mem_cons.mp houter with rfl | houter
    · exact .single hpart
    · exact (hvisiting outer houter).head hpart

theorem typeNeedsDrop_iff (ty : Ty) : layouts.typeNeedsDrop ty = true ↔
    ∃ part, layouts.Holds part ty ∧ (layouts.hasDropMethod part = true ∨ isDeferred part = true) :=
  typeNeedsDropInner_iff ty (by simp)

/-- Only a destructor of a held type that is no struct or enum tells the two apart. -/
theorem typeNeedsDrop_eq_iff (ty : Ty) : layouts.typeNeedsDrop ty = layouts.needsDrop ty ↔
    (∀ part, layouts.Holds part ty → layouts.hasDropMethod part = true → isNominal part = true) ∨
      layouts.HoldsDrop ty := by
  rw [Bool.eq_iff_iff, typeNeedsDrop_iff, needsDrop_iff]
  constructor
  · intro hagree
    by_cases hneeds : layouts.HoldsDrop ty
    · exact .inr hneeds
    · left
      intro part hholds hdrop
      exact absurd (hagree.mp ⟨part, hholds, .inl hdrop⟩) hneeds
  · intro hcond
    constructor
    · rintro ⟨part, hholds, hpart⟩
      rcases hcond with hnominal | hneeds
      · exact ⟨part, hholds, hpart.imp_left fun hdrop => ⟨hnominal part hholds hdrop, hdrop⟩⟩
      · exact hneeds
    · rintro ⟨part, hholds, hpart⟩
      exact ⟨part, hholds, hpart.imp_left And.right⟩

end Layouts

/-! ## Drop glue -/

namespace AcyclicLayouts

variable (layouts : AcyclicLayouts)

theorem part_struct {layout : StructLayout} {field : FieldLayout}
    (hlayout : layouts.structLayout name = some layout) (hfield : field ∈ layout.fields) :
    field.ty ∈ parts layouts.structs layouts.enums (.struct name) :=
  layouts.contains_struct hlayout hfield

theorem part_enum {layout : EnumLayout} {variant : VariantLayout} {field : FieldLayout}
    (hlayout : layouts.enumLayout name = some layout) (hvar : variant ∈ layout.variants)
    (hfield : field ∈ variant.fields) :
    field.ty ∈ parts layouts.structs layouts.enums (.enum name) :=
  layouts.contains_enum hlayout hvar hfield

/-- `collect_drop_glue_type`. -/
def collectDropGlueType (ty : Ty) (types : List Ty) : List Ty :=
  if !layouts.needsDrop ty || ty ∈ types then types
  else
    match ty with
    | .tuple fields =>
      fields.attach.foldl (fun types field => collectDropGlueType field.1 types) (ty :: types)
    | .array element _ => collectDropGlueType element (ty :: types)
    | .struct name =>
      match _hlayout : layouts.structLayout name with
      | some layout =>
        layout.fields.attach.foldl (fun types field => collectDropGlueType field.1.ty types)
          (ty :: types)
      | none => ty :: types
    | .enum name =>
      match _hlayout : layouts.enumLayout name with
      | some layout =>
        layout.variants.attach.foldl (fun types variant =>
          variant.1.fields.attach.foldl (fun types field =>
            collectDropGlueType field.1.ty types) types) (ty :: types)
      | none => ty :: types
    | .callable captures =>
      captures.attach.foldl (fun types capture => collectDropGlueType capture.1.2 types)
        (ty :: types)
    | _ => ty :: types
termination_by layouts.acyclic.wrap ty
decreasing_by
  · exact field.2
  · exact mem_singleton.mpr rfl
  · exact layouts.part_struct _hlayout field.2
  · exact layouts.part_enum _hlayout variant.2 field.2
  · exact mem_map_of_mem capture.2

theorem foldl_collect {Item : Type} (itemType : Item → Ty) (items : List Item) (types : List Ty) :
    items.attach.foldl (fun types item => layouts.collectDropGlueType (itemType item.1) types)
        types =
      (items.map itemType).foldl (fun types part => layouts.collectDropGlueType part types)
        types := by
  rw [foldl_map]
  exact foldl_attach (f := fun types item => layouts.collectDropGlueType (itemType item) types)

theorem collectDropGlueType_eq {ty : Ty} {types : List Ty} (hneeds : layouts.needsDrop ty = true)
    (hnew : ty ∉ types) : layouts.collectDropGlueType ty types =
      (parts layouts.structs layouts.enums ty).foldl
        (fun types part => layouts.collectDropGlueType part types) (ty :: types) := by
  have hgo : ¬ (!layouts.needsDrop ty || decide (ty ∈ types)) = true := by simp [hneeds, hnew]
  rw [collectDropGlueType.eq_def, if_neg hgo]
  cases ty with
  | tuple fields =>
    exact foldl_attach (f := fun types field => layouts.collectDropGlueType field types)
  | array element length => rfl
  | struct name =>
    dsimp only
    split
    next layout hlayout =>
      have hparts : parts layouts.structs layouts.enums (.struct name) =
          layout.fields.map (·.ty) := by
        rw [Layouts.structLayout] at hlayout
        simp only [parts, components, hlayout]
      rw [hparts]
      exact layouts.foldl_collect FieldLayout.ty layout.fields _
    next hlayout =>
      rw [Layouts.structLayout] at hlayout
      simp [parts, components, hlayout]
  | enum name =>
    dsimp only
    split
    next layout hlayout =>
      have hparts : parts layouts.structs layouts.enums (.enum name) =
          layout.variants.flatMap fun variant => variant.fields.map (·.ty) := by
        rw [Layouts.enumLayout] at hlayout
        simp only [parts, components, hlayout]
      rw [hparts, foldl_flatMap]
      have hfields (types : List Ty) (variant : VariantLayout) :=
        layouts.foldl_collect FieldLayout.ty variant.fields types
      simp only [hfields]
      exact foldl_attach (f := fun (types : List Ty) (variant : VariantLayout) =>
        (variant.fields.map FieldLayout.ty).foldl
          (fun types part => layouts.collectDropGlueType part types) types)
    next hlayout =>
      rw [Layouts.enumLayout] at hlayout
      simp [parts, components, hlayout]
  | callable captures => exact layouts.foldl_collect Prod.snd captures _
  | _ => rfl

theorem collectDropGlueType_of_stop {ty : Ty} {types : List Ty}
    (hstop : layouts.needsDrop ty = false ∨ ty ∈ types) :
    layouts.collectDropGlueType ty types = types := by
  rw [collectDropGlueType.eq_def, if_pos]
  simpa using hstop

/-! ### What is collected -/

/-- One type is collected for another: it is a part of it that needs drop. -/
def CollectedFor (part ty : Ty) : Prop :=
  part ∈ parts layouts.structs layouts.enums ty ∧ layouts.HoldsDrop part

/-- The glue that a type needs for its parts is there. -/
def Settled (types : List Ty) (ty : Ty) : Prop :=
  ∀ part, layouts.CollectedFor part ty → part ∈ types

/-- A list grows by types that are collected for one type. Those that are no structs or enums are
settled in it. -/
structure Grows (root : Ty) (before after : List Ty) : Prop where
  keeps : before ⊆ after
  collected : ∀ ty ∈ after, ty ∈ before ∨
    layouts.HoldsDrop root ∧ Relation.ReflTransGen layouts.CollectedFor ty root
  settled : ∀ ty ∈ after, ty ∈ before ∨ Layouts.isNominal ty = true ∨ layouts.Settled after ty

variable {layouts}

theorem Settled.mono {before after : List Ty} {ty : Ty} (hsettled : layouts.Settled before ty)
    (hkeeps : before ⊆ after) : layouts.Settled after ty :=
  fun part hpart => hkeeps (hsettled part hpart)

theorem Grows.refl (root : Ty) (types : List Ty) : layouts.Grows root types types :=
  ⟨fun _ => id, fun _ => .inl, fun _ => .inl⟩

theorem Grows.trans {root : Ty} {first second third : List Ty}
    (hfst : layouts.Grows root first second) (hsecond : layouts.Grows root second third) :
    layouts.Grows root first third where
  keeps := List.Subset.trans hfst.keeps hsecond.keeps
  collected := by
    intro ty hty
    rcases hsecond.collected ty hty with hty | hcoll
    · exact hfst.collected ty hty
    · exact .inr hcoll
  settled := by
    intro ty hty
    rcases hsecond.settled ty hty with hty | hsettled
    · refine (hfst.settled ty hty).imp_right (Or.imp_right fun hsettled => ?_)
      exact hsettled.mono hsecond.keeps
    · exact .inr hsettled

theorem Grows.of_part {part root : Ty} {before after : List Ty}
    (hpart : part ∈ parts layouts.structs layouts.enums root)
    (hneeds : layouts.HoldsDrop root) (hgrows : layouts.Grows part before after) :
    layouts.Grows root before after where
  keeps := hgrows.keeps
  collected := by
    intro ty hty
    rcases hgrows.collected ty hty with hold | ⟨hpartNeeds, hcoll⟩
    · exact .inl hold
    · exact .inr ⟨hneeds, hcoll.tail ⟨hpart, hpartNeeds⟩⟩
  settled := hgrows.settled

/-- Collecting the parts of a type, each of which keeps what is there. -/
theorem grows_foldl (root : Ty) {items : List Ty}
    (hstep : ∀ item ∈ items, ∀ types,
      layouts.Grows root types (layouts.collectDropGlueType item types) ∧
        (layouts.HoldsDrop item → item ∈ layouts.collectDropGlueType item types))
    (types : List Ty) :
    layouts.Grows root types
        (items.foldl (fun types item => layouts.collectDropGlueType item types) types) ∧
      ∀ item ∈ items, layouts.HoldsDrop item →
        item ∈ items.foldl (fun types item => layouts.collectDropGlueType item types) types := by
  induction items generalizing types with
  | nil => exact ⟨.refl root types, by simp⟩
  | cons item rest ih =>
    obtain ⟨hgrows, hrest⟩ := ih (fun other hother => hstep other (mem_cons_of_mem _ hother))
      (layouts.collectDropGlueType item types)
    obtain ⟨hitem, hmem⟩ := hstep item mem_cons_self types
    refine ⟨hitem.trans hgrows, ?_⟩
    intro other hother hneeds
    rcases mem_cons.mp hother with rfl | hother
    · exact hgrows.keeps (hmem hneeds)
    · exact hrest other hother hneeds

/-- By induction on the type. A new type is settled once its parts have been collected. -/
theorem collectDropGlueType_grows (ty : Ty) (types : List Ty) :
    layouts.Grows ty types (layouts.collectDropGlueType ty types) ∧
      (layouts.HoldsDrop ty → ty ∈ layouts.collectDropGlueType ty types) := by
  induction ty using layouts.acyclic.induction generalizing types with
  | _ ty ih =>
    by_cases hstop : layouts.needsDrop ty = false ∨ ty ∈ types
    · rw [layouts.collectDropGlueType_of_stop hstop]
      refine ⟨.refl ty types, fun hneeds => hstop.resolve_left ?_⟩
      simp [(Layouts.needsDrop_iff ty).mpr hneeds]
    rw [not_or, Bool.not_eq_false] at hstop
    obtain ⟨hneeds, hnew⟩ := hstop
    rw [layouts.collectDropGlueType_eq hneeds hnew]
    rw [Layouts.needsDrop_iff] at hneeds
    obtain ⟨hgrows, hparts⟩ := grows_foldl ty
      (fun part hpart types => ⟨(ih part hpart types).1.of_part hpart hneeds,
        (ih part hpart types).2⟩) (ty :: types)
    refine ⟨⟨?_, ?_, ?_⟩, fun _ => hgrows.keeps mem_cons_self⟩
    · exact fun other hother => hgrows.keeps (mem_cons_of_mem _ hother)
    · intro other hother
      rcases hgrows.collected other hother with hold | hcoll
      · rcases mem_cons.mp hold with rfl | hold
        · exact .inr ⟨hneeds, .refl⟩
        · exact .inl hold
      · exact .inr hcoll
    · intro other hother
      rcases hgrows.settled other hother with hold | hsettled
      · rcases mem_cons.mp hold with rfl | hold
        · exact .inr (.inr fun part hpart => hparts part hpart.1 hpart.2)
        · exact .inl hold
      · exact .inr hsettled

end AcyclicLayouts

/-! ## The glue of a program -/

/-- The fields that the glue of an async state drops in each of its states. -/
structure AsyncStateLayout where
  ownedCaptureFields : List Nat
  startingFields : List Nat
  suspendedFields : List Nat
  chainedFields : List Nat

/-- What a function says about drop glue. -/
structure GlueFunction where
  result : Ty
  params : List Ty
  /-- The types of the slots, the discarded values and the overwritten places of its body. -/
  dropped : List Ty

/-- An adapter between a callable and a continuation or an effect callable. -/
structure GlueAdapter where
  callableTy : Ty
  adaptedTy : Ty

/-- What a program says about drop glue. -/
structure GlueProgram where
  layouts : AcyclicLayouts
  asyncStates : String → Option AsyncStateLayout
  globals : List Ty
  functions : List GlueFunction
  arrayTypes : List Ty
  tupleTypes : List Ty
  /-- The callables inside the types of the globals, the functions and the layouts. -/
  signatureCallables : List Ty
  adapters : List GlueAdapter

namespace GlueProgram

variable (program : GlueProgram)

def needsDrop (ty : Ty) : Bool := program.layouts.needsDrop ty

def callableTypes : List Ty := program.signatureCallables ++ program.adapters.map (·.callableTy)

/-- The types whose glue the glue of a type calls: the calls that `emit_drop_glue` writes. -/
def glueCallees : Ty → List Ty
  | .tuple fields => fields.filter program.needsDrop
  | .struct name =>
    match program.layouts.structLayout name with
    | some layout =>
      match program.asyncStates name with
      | some state =>
        ((state.ownedCaptureFields ++ state.startingFields ++ state.suspendedFields ++
          state.chainedFields).filterMap fun index =>
            layout.fields[index]?.map (·.ty)).filter program.needsDrop
      | none => (layout.fields.map (·.ty)).filter program.needsDrop
    | none => []
  | .enum name =>
    match program.layouts.enumLayout name with
    | some layout =>
      layout.variants.flatMap fun variant =>
        (variant.fields.map (·.ty)).filter program.needsDrop
    | none => []
  | .array element length => List.replicate length element
  | .callable captures => (ownedCaptures captures).filter program.needsDrop
  | _ => []

/-- What `drop_glue_types` does with a type: it collects it with its parts, or it adds a struct or
an enum by itself. -/
inductive GlueVisit
  | collect (ty : Ty)
  | structType (name : String)
  | enumType (name : String)

/-- The loops of `drop_glue_types`. -/
def visits : List GlueVisit :=
  program.globals.map .collect ++
  program.functions.flatMap (fun function =>
    .collect function.result :: function.params.map .collect) ++
  program.arrayTypes.map .collect ++
  program.tupleTypes.map .collect ++
  program.layouts.structs.flatMap (fun layout =>
    .structType layout.name :: layout.fields.map fun field => .collect field.ty) ++
  program.callableTypes.map .collect ++
  program.adapters.map (fun adapter => .collect adapter.adaptedTy) ++
  program.layouts.enums.flatMap (fun layout =>
    .enumType layout.name ::
      (layout.variants.flatMap (·.fields)).map fun field => .collect field.ty)

def visit (types : List Ty) : GlueVisit → List Ty
  | .collect ty => program.layouts.collectDropGlueType ty types
  | .structType name => if program.needsDrop (.struct name) then .struct name :: types else types
  | .enumType name => if program.needsDrop (.enum name) then .enum name :: types else types

/-- `drop_glue_types`, before they are sorted by name. -/
def dropGlueTypes : List Ty := program.visits.foldl program.visit []

/-- The type that a visit is about. -/
def GlueVisit.ty : GlueVisit → Ty
  | .collect ty => ty
  | .structType name => .struct name
  | .enumType name => .enum name

/-- The code of a function or an adapter asks whether the type needs drop, and calls its glue. -/
def DropsInCode (ty : Ty) : Prop :=
  (∃ function ∈ program.functions, ty ∈ function.dropped) ∨
    ∃ adapter ∈ program.adapters, adapter.callableTy = ty

/-- The type is collected for one that `drop_glue_types` visits. -/
def Reached (ty : Ty) : Prop :=
  ∃ visit ∈ program.visits, program.layouts.HoldsDrop visit.ty ∧
    Relation.ReflTransGen program.layouts.CollectedFor ty visit.ty

theorem visit_grows (visit : GlueVisit) (types : List Ty) :
    program.layouts.Grows visit.ty types (program.visit types visit) ∧
      (program.layouts.HoldsDrop visit.ty → visit.ty ∈ program.visit types visit) := by
  have hinsert {ty : Ty} (hnominal : Layouts.isNominal ty = true) : program.layouts.Grows ty types
      (if program.needsDrop ty then ty :: types else types) := by
    split
    next hneeds =>
      refine ⟨fun _ => mem_cons_of_mem _, ?_, ?_⟩
      · intro other hother
        rcases mem_cons.mp hother with rfl | hother
        · exact .inr ⟨(Layouts.needsDrop_iff _).mp hneeds, .refl⟩
        · exact .inl hother
      · intro other hother
        rcases mem_cons.mp hother with rfl | hother
        · exact .inr (.inl hnominal)
        · exact .inl hother
    next => exact .refl ty types
  have hmem {ty : Ty} (hneeds : program.layouts.HoldsDrop ty) :
      ty ∈ if program.needsDrop ty then ty :: types else types := by
    rw [needsDrop, if_pos ((Layouts.needsDrop_iff ty).mpr hneeds)]
    exact mem_cons_self
  cases visit with
  | collect ty => exact AcyclicLayouts.collectDropGlueType_grows ty types
  | structType name => exact ⟨hinsert rfl, hmem⟩
  | enumType name => exact ⟨hinsert rfl, hmem⟩

theorem visits_grow (visits : List GlueVisit) (types : List Ty) :
    (types ⊆ visits.foldl program.visit types) ∧
      (∀ visit ∈ visits, program.layouts.HoldsDrop visit.ty →
        visit.ty ∈ visits.foldl program.visit types) ∧
      (∀ ty ∈ visits.foldl program.visit types, ty ∈ types ∨
        ∃ visit ∈ visits, program.layouts.HoldsDrop visit.ty ∧
          Relation.ReflTransGen program.layouts.CollectedFor ty visit.ty) ∧
      ∀ ty ∈ visits.foldl program.visit types, ty ∈ types ∨ Layouts.isNominal ty = true ∨
        program.layouts.Settled (visits.foldl program.visit types) ty := by
  induction visits generalizing types with
  | nil => exact ⟨List.Subset.refl types, by simp, fun _ => .inl, fun _ => .inl⟩
  | cons visit rest ih =>
    obtain ⟨hvisit, hmem⟩ := visit_grows program visit types
    obtain ⟨hkeeps, hvisited, hcoll, hsettled⟩ := ih (program.visit types visit)
    refine ⟨List.Subset.trans hvisit.keeps hkeeps, ?_, ?_, ?_⟩
    · intro other hother hneeds
      rcases mem_cons.mp hother with rfl | hother
      · exact hkeeps (hmem hneeds)
      · exact hvisited other hother hneeds
    · intro ty hty
      rcases hcoll ty hty with hfst | ⟨other, hother, hcoll⟩
      · refine (hvisit.collected ty hfst).imp_right fun hcoll => ?_
        exact ⟨visit, mem_cons_self, hcoll⟩
      · exact .inr ⟨other, mem_cons_of_mem _ hother, hcoll⟩
    · intro ty hty
      rcases hsettled ty hty with hfst | hsettled
      · refine (hvisit.settled ty hfst).imp_right (Or.imp_right fun hsettled => ?_)
        exact hsettled.mono hkeeps
      · exact .inr hsettled

variable {program}

theorem holdsDrop_of_mem {ty : Ty} (hty : ty ∈ program.dropGlueTypes) :
    program.layouts.HoldsDrop ty := by
  obtain ⟨-, -, hcoll, -⟩ := visits_grow program program.visits []
  rcases hcoll ty hty with hold | ⟨visit, -, hneeds, hcoll⟩
  · simp at hold
  · rcases hcoll.cases_head with hsame | ⟨_, hpart, -⟩
    · exact hsame ▸ hneeds
    · exact hpart.2

theorem settled_of_mem {ty : Ty} (hty : ty ∈ program.dropGlueTypes) :
    program.layouts.Settled program.dropGlueTypes ty := by
  obtain ⟨-, hvisited, -, hsettled⟩ := visits_grow program program.visits []
  rcases hsettled ty hty with hold | hnominal | hsettled
  · simp at hold
  · rintro part ⟨hpart, hneeds⟩
    suffices hvisit : GlueVisit.collect part ∈ program.visits from hvisited _ hvisit hneeds
    cases ty with
    | struct name =>
      obtain ⟨layout, hlayout, field, hfield, rfl⟩ := Layouts.contains_struct_iff.mp hpart
      have hmem : layout ∈ program.layouts.structs := mem_of_find?_eq_some hlayout
      simp only [visits, mem_append, mem_flatMap]
      exact .inl (.inl (.inl (.inr ⟨layout, hmem, by simp; exact ⟨field, hfield, rfl⟩⟩)))
    | enum name =>
      obtain ⟨layout, hlayout, variant, hvar, field, hfield, rfl⟩ :=
        Layouts.contains_enum_iff.mp hpart
      have hmem : layout ∈ program.layouts.enums := mem_of_find?_eq_some hlayout
      simp only [visits, mem_append, mem_flatMap]
      exact .inr ⟨layout, hmem, by simp; exact ⟨field, ⟨variant, hvar, hfield⟩, rfl⟩⟩
    | _ => simp [Layouts.isNominal] at hnominal
  · exact hsettled

theorem mem_dropGlueTypes_iff {ty : Ty} : ty ∈ program.dropGlueTypes ↔ program.Reached ty := by
  obtain ⟨-, hvisited, hcoll, -⟩ := visits_grow program program.visits []
  constructor
  · intro hty
    exact (hcoll ty hty).resolve_left (by simp)
  · rintro ⟨visit, hvisit, hneeds, hreached⟩
    induction hreached using Relation.ReflTransGen.head_induction_on with
    | refl => exact hvisited visit hvisit hneeds
    | head hpart _ ih => exact settled_of_mem ih _ hpart

theorem collectedFor_of_callee {callee ty : Ty} (hneeds : program.layouts.HoldsDrop ty)
    (hcallee : callee ∈ program.glueCallees ty) : program.layouts.CollectedFor callee ty := by
  cases ty with
  | tuple fields =>
    rw [glueCallees, mem_filter] at hcallee
    exact ⟨hcallee.1, (Layouts.needsDrop_iff callee).mp hcallee.2⟩
  | struct name =>
    rw [glueCallees] at hcallee
    split at hcallee
    next layout hlayout =>
      split at hcallee
      next state hstate =>
        obtain ⟨hcallee, hdrop⟩ := mem_filter.mp hcallee
        obtain ⟨index, -, hidx⟩ := mem_filterMap.mp hcallee
        obtain ⟨field, hfield, rfl⟩ := Option.map_eq_some_iff.mp hidx
        exact ⟨program.layouts.part_struct hlayout (mem_of_getElem? hfield),
          (Layouts.needsDrop_iff _).mp hdrop⟩
      next hstate =>
        obtain ⟨hcallee, hdrop⟩ := mem_filter.mp hcallee
        obtain ⟨field, hfield, rfl⟩ := mem_map.mp hcallee
        exact ⟨program.layouts.part_struct hlayout hfield, (Layouts.needsDrop_iff _).mp hdrop⟩
    next => simp at hcallee
  | enum name =>
    rw [glueCallees] at hcallee
    split at hcallee
    next layout hlayout =>
      obtain ⟨variant, hvar, hcallee⟩ := mem_flatMap.mp hcallee
      obtain ⟨hcallee, hdrop⟩ := mem_filter.mp hcallee
      obtain ⟨field, hfield, rfl⟩ := mem_map.mp hcallee
      exact ⟨program.layouts.part_enum hlayout hvar hfield, (Layouts.needsDrop_iff _).mp hdrop⟩
    next => simp at hcallee
  | array element length =>
    -- The glue of an array does not ask: its element needs drop because the array does.
    obtain rfl := eq_of_mem_replicate hcallee
    rw [← Layouts.needsDrop_iff, Layouts.needsDrop.eq_def] at hneeds
    exact ⟨mem_singleton_self _, (Layouts.needsDrop_iff _).mp hneeds⟩
  | callable captures =>
    rw [glueCallees, mem_filter] at hcallee
    obtain ⟨capture, hcapture, rfl⟩ := mem_map.mp hcallee.1
    exact ⟨mem_map_of_mem (mem_of_mem_filter hcapture), (Layouts.needsDrop_iff _).mp hcallee.2⟩
  | _ => simp [glueCallees] at hcallee

theorem mem_of_calls {callee ty : Ty} (hty : ty ∈ program.dropGlueTypes)
    (hcalls : Relation.ReflTransGen (fun ty callee => callee ∈ program.glueCallees ty) ty callee) :
    callee ∈ program.dropGlueTypes := by
  induction hcalls with
  | refl => exact hty
  | tail _ hcallee ih =>
    exact settled_of_mem ih _ (collectedFor_of_callee (holdsDrop_of_mem ih) hcallee)

theorem resource_acyclic : WellFounded fun part ty =>
    part ∈ parts [⟨"resource", [⟨"value", .integer .i32⟩]⟩] [] ty := by
  apply acyclic_of_flat
  · intro name part hpart
    by_cases hname : "resource" = name
    · simp [parts, components, structLayout?, hname] at hpart
      simp [hpart, parts, components]
    · simp [parts, components, structLayout?, hname] at hpart
  · intro name part hpart
    simp [parts, components, enumLayout?] at hpart

/-- A struct with one field. Its arrays of two elements have a destructor. -/
def arrayDestructor : AcyclicLayouts where
  structs := [⟨"resource", [⟨"value", .integer .i32⟩]⟩]
  enums := []
  hasDropMethod := fun ty => decide (ty = .array (.struct "resource") 2)
  finite := Subrelation.wf (fun hpart => parts_of_components hpart) resource_acyclic
  acyclic := resource_acyclic

end GlueProgram

end Salicin.Codegen
