import Mathlib.Order.WellFounded
import Mathlib.Data.List.Basic

/-!
# Types and value layouts

The semantic types of the high-level IR as far as ownership analysis and emission read
them, and the nominal layouts they refer to. A value of a type contains the values of its
*components*: array elements, tuple and struct fields, enum payload fields and callable
captures. Recursive value layouts are to be diagnosed before any later phase runs, so the layouts
that these phases work on carry the proof that containment is well founded.
-/

namespace Salicin.Codegen

open List

/-- How a parameter or a callable capture is passed. -/
inductive PassMode
  | inferred
  | copy
  | move
  | borrow
  | mutBorrow
  deriving DecidableEq

/-- The integer types; `isize` and `usize` have the pointer width of the target. -/
inductive IntegerTy
  | i8 | i16 | i32 | i64 | i128 | isize
  | u8 | u16 | u32 | u64 | u128 | usize
  deriving DecidableEq

/-- Semantic types. Signatures and effect rows are opaque here: no ownership question
looks inside them. -/
inductive Ty
  | integer (kind : IntegerTy)
  | bool
  | unit
  | tuple (fields : List Ty)
  | pointer (pointee : Ty) (mutable : Bool)
  | reference (pointee : Ty) (mutable : Bool)
  | str
  | slice (element : Ty)
  | array (element : Ty) (length : Nat)
  | struct (name : String)
  | enum (name : String)
  | never
  | function
  | callable (captures : List (PassMode × Ty))
  | continuation
  | effectCallable
  | effectRow
  | error

/-- A field of a struct or of an enum variant. -/
structure FieldLayout where
  name : String
  ty : Ty

structure StructLayout where
  name : String
  fields : List FieldLayout

structure VariantLayout where
  name : String
  fields : List FieldLayout

structure EnumLayout where
  name : String
  variants : List VariantLayout

/-- The captures of a callable that its environment owns. -/
def ownedCaptures (captures : List (PassMode × Ty)) : List Ty :=
  (captures.filter fun capture => capture.1 ≠ .borrow ∧ capture.1 ≠ .mutBorrow).map (·.2)

section Components

variable (structs : List StructLayout) (enums : List EnumLayout)

def structLayout? (name : String) : Option StructLayout :=
  structs.find? fun layout => layout.name = name

def enumLayout? (name : String) : Option EnumLayout := enums.find? fun layout => layout.name = name

/-- The types of the values that a value of the given type holds directly. -/
def components : Ty → List Ty
  | .tuple fields => fields
  | .array element _ => [element]
  | .struct name =>
    match structLayout? structs name with
    | some layout => layout.fields.map (·.ty)
    | none => []
  | .enum name =>
    match enumLayout? enums name with
    | some layout => layout.variants.flatMap fun variant => variant.fields.map (·.ty)
    | none => []
  | .callable captures => ownedCaptures captures
  | _ => []

end Components

/-- The nominal layouts of a program with the types that have a user destructor. -/
structure Layouts where
  structs : List StructLayout
  enums : List EnumLayout
  /-- `drop_methods.contains_key`. -/
  hasDropMethod : Ty → Bool
  /-- No value holds a value of its own type. -/
  finite : WellFounded fun component ty => component ∈ components structs enums ty

namespace Layouts

variable (layouts : Layouts)

def structLayout (name : String) : Option StructLayout := structLayout? layouts.structs name

def enumLayout (name : String) : Option EnumLayout := enumLayout? layouts.enums name

/-- A value of type `ty` holds a value of type `component` directly. -/
def Contains (component ty : Ty) : Prop := component ∈ components layouts.structs layouts.enums ty

theorem contains_array (element : Ty) (len : Nat) :
    layouts.Contains element (.array element len) := by
  simp [Contains, components]

theorem contains_tuple {fields : List Ty} {field : Ty} (hfield : field ∈ fields) :
    layouts.Contains field (.tuple fields) := hfield

theorem contains_struct {name : String} {layout : StructLayout} {field : FieldLayout}
    (hlayout : layouts.structLayout name = some layout) (hfield : field ∈ layout.fields) :
    layouts.Contains field.ty (.struct name) := by
  unfold structLayout at hlayout
  simp only [Contains, components, hlayout]
  exact mem_map_of_mem hfield

theorem contains_enum {name : String} {layout : EnumLayout} {variant : VariantLayout}
    {field : FieldLayout} (hlayout : layouts.enumLayout name = some layout)
    (hvar : variant ∈ layout.variants) (hfield : field ∈ variant.fields) :
    layouts.Contains field.ty (.enum name) := by
  unfold enumLayout at hlayout
  simp only [Contains, components, hlayout]
  exact mem_flatMap.mpr ⟨variant, hvar, mem_map_of_mem hfield⟩

theorem contains_callable {captures : List (PassMode × Ty)} {ty : Ty}
    (hty : ty ∈ ownedCaptures captures) : layouts.Contains ty (.callable captures) := hty

/-- The layouts of a program that declares no nominal type. -/
def structural (hasDropMethod : Ty → Bool) : Layouts where
  structs := []
  enums := []
  hasDropMethod := hasDropMethod
  finite := by
    refine Subrelation.wf ?_ (measure (sizeOf : Ty → Nat)).wf
    intro component ty hmem
    change sizeOf component < sizeOf ty
    cases ty with
    | tuple fields =>
      have := sizeOf_lt_of_mem (show component ∈ fields from hmem)
      simp only [Ty.tuple.sizeOf_spec]
      omega
    | array element length =>
      obtain rfl := mem_singleton.mp hmem
      simp only [Ty.array.sizeOf_spec]
      omega
    | callable captures =>
      obtain ⟨capture, hcapture, rfl⟩ := mem_map.mp hmem
      have hlt := sizeOf_lt_of_mem (mem_of_mem_filter hcapture)
      have hsnd : sizeOf capture.2 < sizeOf capture := by
        cases capture
        simp only [Prod.mk.sizeOf_spec]
        omega
      simp only [Ty.callable.sizeOf_spec]
      omega
    | struct name => simp [components, structLayout?] at hmem
    | enum name => simp [components, enumLayout?] at hmem
    | _ => simp [components] at hmem

theorem not_containsTrans_self (ty : Ty) : ¬ Relation.TransGen layouts.Contains ty ty :=
  fun h => layouts.finite.transGen.irrefl.irrefl ty h

/-- One projection step of a place: a tuple or struct field, or a constant array index. -/
def project (ty : Ty) (index : Nat) : Option Ty :=
  match ty with
  | .tuple fields => fields[index]?
  | .struct name => (layouts.structLayout name).bind fun layout => layout.fields[index]?.map (·.ty)
  | .array element length => if index < length then some element else none
  | _ => none

/-- The type of the part of a value that a projection path selects. -/
def typeAt (ty : Ty) : List Nat → Option Ty
  | [] => some ty
  | index :: rest => (layouts.project ty index).bind fun part => typeAt part rest

@[simp] theorem typeAt_cons (ty : Ty) (i : Nat) (rest : List Nat) :
    layouts.typeAt ty (i :: rest) =
      (layouts.project ty i).bind fun part => layouts.typeAt part rest := rfl

theorem typeAt_append (ty : Ty) (first second : List Nat) :
    layouts.typeAt ty (first ++ second) =
      (layouts.typeAt ty first).bind fun part => layouts.typeAt part second := by
  induction first generalizing ty with
  | nil => rfl
  | cons i rest ih =>
    simp only [cons_append, typeAt_cons, Option.bind_assoc]
    cases layouts.project ty i with
    | none => rfl
    | some part => exact ih part

theorem project_contains {ty part : Ty} {i : Nat}
    (hpart : layouts.project ty i = some part) : layouts.Contains part ty := by
  unfold project at hpart
  split at hpart
  · exact layouts.contains_tuple (mem_of_getElem? hpart)
  · obtain ⟨layout, hlayout, hfield⟩ := Option.bind_eq_some_iff.mp hpart
    obtain ⟨field, hmem, rfl⟩ := Option.map_eq_some_iff.mp hfield
    exact layouts.contains_struct hlayout (mem_of_getElem? hmem)
  · split at hpart
    · cases hpart
      exact layouts.contains_array _ _
    · contradiction
  · contradiction

end Layouts

end Salicin.Codegen
