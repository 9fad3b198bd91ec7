import Salicin.Codegen.Places

/-!
# Runtime drop slots

The emitter gives every owned local that needs drop a tree of drop slots, one for each part
that can be moved separately and needs drop, with one runtime flag for each slot. A slot's
flag is its own stack cell, so a flag is named here by the projections of its slot. Moves
and assignments update the flags; an overwrite and the end of the scope run the conditional
drops of a slot.
-/

namespace Salicin.Codegen

open List

namespace Layouts

variable (layouts : Layouts)

/-- `HirProgram::needs_drop`. -/
def needsDrop (ty : Ty) : Bool :=
  match ty with
  | .array element _ => needsDrop element
  | .tuple fields => fields.attach.any fun field => needsDrop field.1
  | .struct name =>
    layouts.hasDropMethod (.struct name) ||
      match _hlayout : layouts.structLayout name with
      | some layout => layout.fields.attach.any fun field => needsDrop field.1.ty
      | none => false
  | .enum name =>
    layouts.hasDropMethod (.enum name) ||
      match _hlayout : layouts.enumLayout name with
      | some layout =>
        layout.variants.attach.any fun variant =>
          variant.1.fields.attach.any fun field => needsDrop field.1.ty
      | none => false
  | .callable captures => (ownedCaptures captures).attach.any fun capture => needsDrop capture.1
  | .continuation | .effectCallable => true
  | _ => false
termination_by layouts.finite.wrap ty
decreasing_by
  · exact layouts.contains_array _ _
  · exact layouts.contains_tuple field.2
  · exact layouts.contains_struct _hlayout field.2
  · exact layouts.contains_enum _hlayout variant.2 field.2
  · exact layouts.contains_callable capture.2

/-- The parts of a value that the emitter visits one by one when it builds slots and drop
glue: elements, fields and owned captures that need drop, with their indices. -/
def dropChildren (ty : Ty) : List (Nat × Ty) :=
  match ty with
  | .tuple fields =>
    (fields.zipIdx.filter fun (field, _) => layouts.needsDrop field).map fun (field, index) =>
      (index, field)
  | .array element length => (List.range length).map fun index => (index, element)
  | .struct name =>
    match layouts.structLayout name with
    | some layout =>
      (layout.fields.zipIdx.filter fun (field, _) => layouts.needsDrop field.ty).map
        fun (field, index) => (index, field.ty)
    | none => []
  | .callable captures =>
    (captures.zipIdx.filter fun (capture, _) =>
      capture.1 ≠ .borrow ∧ capture.1 ≠ .mutBorrow ∧ layouts.needsDrop capture.2).map
        fun (capture, index) => (index, capture.2)
  | _ => []

theorem contains_of_mem_dropChildren {ty : Ty} {child : Nat × Ty}
    (hchild : child ∈ layouts.dropChildren ty) : layouts.Contains child.2 ty := by
  unfold dropChildren at hchild
  split at hchild
  · obtain ⟨⟨field, i⟩, hfield, rfl⟩ := mem_map.mp hchild
    exact layouts.contains_tuple
      (mem_of_getElem? (mem_zipIdx_iff_getElem?.mp (mem_of_mem_filter hfield)))
  · obtain ⟨i, _, rfl⟩ := mem_map.mp hchild
    exact layouts.contains_array _ _
  · split at hchild
    next layout hlayout =>
      obtain ⟨⟨field, i⟩, hfield, rfl⟩ := mem_map.mp hchild
      exact layouts.contains_struct hlayout
        (mem_of_getElem? (mem_zipIdx_iff_getElem?.mp (mem_of_mem_filter hfield)))
    · contradiction
  · obtain ⟨⟨capture, i⟩, hcapture, rfl⟩ := mem_map.mp hchild
    obtain ⟨hmem, howned⟩ := mem_filter.mp hcapture
    simp only [decide_eq_true_eq] at howned
    refine layouts.contains_callable (mem_map_of_mem (mem_filter.mpr ⟨?_, ?_⟩))
    · exact mem_of_getElem? (mem_zipIdx_iff_getElem?.mp hmem)
    · simpa using ⟨howned.1, howned.2.1⟩
  · contradiction

end Layouts

/-- `RuntimeDropSlot`, without the register names. -/
inductive DropSlot
  | node (ty : Ty) (projections : List Nat) (children : List DropSlot)

namespace DropSlot

def ty : DropSlot → Ty
  | node ty _ _ => ty

def projections : DropSlot → List Nat
  | node _ projections _ => projections

def children : DropSlot → List DropSlot
  | node _ _ children => children

end DropSlot

/-- `build_drop_slot`: a type with a user destructor is dropped as a whole. -/
def buildDropSlot (layouts : Layouts) (ty : Ty) (projections : List Nat) : DropSlot :=
  .node ty projections <| if layouts.hasDropMethod ty then []
    else (layouts.dropChildren ty).attach.map fun child =>
      buildDropSlot layouts child.1.2 (projections ++ [child.1.1])
termination_by layouts.finite.wrap ty
decreasing_by exact layouts.contains_of_mem_dropChildren child.2

/-- Glue ends the life of a value of the type in one step: it calls a user destructor,
switches on a tag or invokes an environment's own glue. -/
def dropsAsUnit (layouts : Layouts) (ty : Ty) : Bool :=
  layouts.hasDropMethod ty ||
    match ty with
    | .enum _ | .continuation | .effectCallable => true
    | _ => false

/-- The drop glue of a type, as the leaves it drops in order. There is glue only for types
that need drop; the glue of an aggregate calls the glue of its parts. -/
def dropGlue (layouts : Layouts) (ty : Ty) (projections : List Nat) : List (List Nat) :=
  if ¬ layouts.needsDrop ty then []
  else if dropsAsUnit layouts ty then [projections]
  else (layouts.dropChildren ty).attach.flatMap fun child =>
    dropGlue layouts child.1.2 (projections ++ [child.1.1])
termination_by layouts.finite.wrap ty
decreasing_by exact layouts.contains_of_mem_dropChildren child.2

/-- The runtime drop flags, named by the projections of their slots. -/
abbrev DropFlags := List Nat → Bool

namespace DropSlot

/-- The update of one slot's flag when the place at `projections` is moved out
(`initialized = false`) or assigned. -/
def flagUpdate (slot projections : List Nat) (initialized rootInitialized : Bool) : Option Bool :=
  let slotIsAncestor := slot.isPrefixOf projections
  let slotIsDescendant := projections.isPrefixOf slot
  if rootInitialized then some true
  else if initialized then (if slotIsDescendant then some true else none)
  else if slotIsAncestor || slotIsDescendant then some false else none

def collectPlaceFlagUpdates (projections : List Nat) (initialized rootInitialized : Bool) :
    DropSlot → List (List Nat × Bool)
  | node _ slot children =>
    (flagUpdate slot projections initialized rootInitialized).toList.map (slot, ·) ++
      children.attach.flatMap fun child =>
        collectPlaceFlagUpdates projections initialized rootInitialized child.1
termination_by slot => sizeOf slot
decreasing_by
  have := sizeOf_lt_of_mem child.2
  simp only [node.sizeOf_spec]
  omega

/-- Run the emitted `store i1` instructions. -/
def storeFlags (flags : DropFlags) (updates : List (List Nat × Bool)) : DropFlags :=
  updates.foldl (fun flags update => Function.update flags update.1 update.2) flags

def findDropSlot (projections : List Nat) : DropSlot → Option DropSlot
  | node ty slot children =>
    if slot = projections then some (node ty slot children)
    else children.attach.findSome? fun child => findDropSlot projections child.1
termination_by slot => sizeOf slot
decreasing_by
  have := sizeOf_lt_of_mem child.2
  simp only [node.sizeOf_spec]
  omega

/-- `emit_conditional_drop` when it runs: the leaves it drops and the flags it leaves. -/
def conditionalDrop (layouts : Layouts) : DropSlot → DropFlags → List (List Nat) × DropFlags
  | node ty slot children, flags =>
    if flags slot then (dropGlue layouts ty slot, Function.update flags slot false)
    else children.attach.foldl (fun (dropped, flags) child =>
      let (more, flags) := conditionalDrop layouts child.1 flags
      (dropped ++ more, flags)) ([], flags)
termination_by slot => sizeOf slot
decreasing_by
  have := sizeOf_lt_of_mem child.2
  simp only [node.sizeOf_spec]
  omega

end DropSlot

end Salicin.Codegen
