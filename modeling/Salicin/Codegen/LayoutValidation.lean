import Salicin.Codegen.Layout
import Salicin.Foundation.CycleReports
import Mathlib.Data.Fintype.EquivFin

/-!
# Layout validation

`validate_nominal_layouts` looks for a nominal type whose values would hold a value of the type
itself. It goes from a field to one nominal type only: of a tuple it takes the first component
that has one. A value holds all the components, so the search sees a part of the containment
graph, and it is exact on the layouts whose cycles, if they have any, can be found in that part.
-/

namespace Salicin.Codegen

open List CycleReports

mutual

/-- `nominal_name`. -/
def nominalName : Ty → Option String
  | .struct name | .enum name => some name
  | .array element _ | .slice element => nominalName element
  | .tuple fields => firstNominalName fields
  | _ => none
termination_by structural ty => ty

/-- The `find_map` of `nominal_name` over the components of a tuple. -/
def firstNominalName : List Ty → Option String
  | [] => none
  | field :: rest => (nominalName field).or (firstNominalName rest)
termination_by structural fields => fields

end

mutual

/-- The nominal types of the values that a value of the type holds without going through another
nominal type. -/
def heldNominals : Ty → List String
  | .struct name | .enum name => [name]
  | .array element _ => heldNominals element
  | .tuple fields => heldNominalsOfAll fields
  | _ => []
termination_by structural ty => ty

def heldNominalsOfAll : List Ty → List String
  | [] => []
  | field :: rest => heldNominals field ++ heldNominalsOfAll rest
termination_by structural fields => fields

end

theorem heldNominalsOfAll_eq (fields : List Ty) :
    heldNominalsOfAll fields = fields.flatMap heldNominals := by
  induction fields with
  | nil => rfl
  | cons field rest ih => rw [heldNominalsOfAll, flatMap_cons, ih]

/-- The layouts of the nominal types of a program. No two types have one name. -/
structure NominalLayouts where
  structs : List StructLayout
  enums : List EnumLayout
  distinct : (structs.map StructLayout.name ++ enums.map EnumLayout.name).Nodup

namespace NominalLayouts

variable (layouts : NominalLayouts)

/-- The names in the order of their declarations, structs first. -/
def names : List String :=
  layouts.structs.map StructLayout.name ++ layouts.enums.map EnumLayout.name

/-- The types of the fields of a nominal type. -/
def fieldTypes (name : String) : List Ty :=
  match structLayout? layouts.structs name with
  | some layout => layout.fields.map FieldLayout.ty
  | none =>
    match enumLayout? layouts.enums name with
    | some layout => layout.variants.flatMap fun variant => variant.fields.map FieldLayout.ty
    | none => []

/-- The nominal types that the validation goes on to. -/
def followed (name : String) : List String := (layouts.fieldTypes name).filterMap nominalName

/-- The nominal types of the values that a value of a nominal type holds. -/
def held (name : String) : List String := (layouts.fieldTypes name).flatMap heldNominals

def recursionError (cycle : List String) : String :=
  "recursive value layout has infinite size: " ++ " -> ".intercalate cycle

/-- `validate_nominal_layouts`, which comes to the errors it has reported. -/
def validateNominalLayouts : Option (List String) :=
  (check layouts.followed layouts.names).map fun cycles => cycles.map recursionError

/-- Some name can be reached from itself. -/
def Cyclic (successors : String → List String) : Prop :=
  ∃ name, Relation.TransGen (CycleReports.Step successors) name name

/-- The types of the values that a value of the type holds directly. Signatures are not gone
into. -/
def components : Ty → List Ty
  | .tuple fields => fields
  | .array element _ => [element]
  | .struct name =>
    match structLayout? layouts.structs name with
    | some layout => layout.fields.map FieldLayout.ty
    | none => []
  | .enum name =>
    match enumLayout? layouts.enums name with
    | some layout => layout.variants.flatMap fun variant => variant.fields.map FieldLayout.ty
    | none => []
  | _ => []

/-- The validation reports the layouts in which a value would hold a value of its own type, and
no others; over layouts that it accepts, a recursion over the components of a type ends. -/
structure RejectsExactly : Prop where
  reports : ∃ errors, layouts.validateNominalLayouts = some errors ∧
    (errors ≠ [] ↔ Cyclic layouts.held)
  terminates : layouts.validateNominalLayouts = some [] →
    WellFounded fun comp ty => comp ∈ layouts.components ty

variable {layouts}

theorem mem_names_of_fieldTypes {name : String} (hfields : layouts.fieldTypes name ≠ []) :
    name ∈ layouts.names := by
  unfold fieldTypes at hfields
  cases hstruct : structLayout? layouts.structs name with
  | some layout =>
    have hname : layout.name = name := by simpa using List.find?_some hstruct
    refine mem_append_left _ (mem_map.mpr ⟨layout, ?_, hname⟩)
    exact mem_of_find?_eq_some hstruct
  | none =>
    cases henum : enumLayout? layouts.enums name with
    | some layout =>
      have hname : layout.name = name := by simpa using List.find?_some henum
      refine mem_append_right _ (mem_map.mpr ⟨layout, ?_, hname⟩)
      exact mem_of_find?_eq_some henum
    | none => simp [hstruct, henum] at hfields

/-- The validation ends, and it reports an error exactly when the edges that it follows make up
a cycle. -/
theorem validateNominalLayouts_reports (layouts : NominalLayouts) :
    ∃ errors, layouts.validateNominalLayouts = some errors ∧
      (errors ≠ [] ↔ Cyclic layouts.followed) := by
  have hcover : ∀ name, layouts.followed name ≠ [] → name ∈ layouts.names := by
    intro name hfollowed
    apply mem_names_of_fieldTypes
    intro hfields
    exact hfollowed (by rw [followed, hfields, filterMap_nil])
  obtain ⟨cycles, hcycles, _, hnone⟩ := check_reports hcover
  refine ⟨cycles.map recursionError, by rw [validateNominalLayouts, hcycles, Option.map_some], ?_⟩
  rw [ne_eq, map_eq_nil_iff, hnone, Cyclic]
  simp only [not_forall, not_not]

/-! ## Recursions over components -/

theorem mem_fieldTypes_of_components {name : String} {ty comp : Ty}
    (hty : ty = .struct name ∨ ty = .enum name) (hcomp : comp ∈ layouts.components ty) :
    comp ∈ layouts.fieldTypes name := by
  unfold fieldTypes
  rcases hty with rfl | rfl
  · unfold components at hcomp
    cases hstruct : structLayout? layouts.structs name with
    | some layout => simpa [hstruct] using hcomp
    | none => simp [hstruct] at hcomp
  · unfold components at hcomp
    cases henum : enumLayout? layouts.enums name with
    | none => simp [henum] at hcomp
    | some layout =>
      have hnone : structLayout? layouts.structs name = none := by
        apply List.find?_eq_none.mpr
        intro other hother hname
        apply disjoint_of_nodup_append layouts.distinct
          (mem_map.mpr ⟨other, hother, by simpa using hname⟩)
        exact mem_map.mpr ⟨layout, mem_of_find?_eq_some henum,
          by simpa using List.find?_some henum⟩
      simpa [hnone, henum] using hcomp

/-- Without a cycle, going from a nominal type to the types that it holds comes to an end. -/
theorem held_wellFounded (hacyclic : ¬ Cyclic layouts.held) :
    WellFounded fun next name => next ∈ layouts.held name := by
  have hirrefl : ∀ name, ¬ Relation.TransGen (CycleReports.Step layouts.held) name name :=
    fun name hcycle => hacyclic ⟨name, hcycle⟩
  let below (first second : {name // name ∈ layouts.names}) : Prop :=
    Relation.TransGen (CycleReports.Step layouts.held) second first
  have htrans : IsTrans _ below := ⟨fun _ _ _ hfst hsecond => hsecond.trans hfst⟩
  have hirreflexive : Std.Irrefl below := ⟨fun name => hirrefl name⟩
  have hbelow : WellFounded below := Finite.wellFounded_of_trans_of_irrefl below
  have houtside : ∀ name, name ∉ layouts.names →
      Acc (fun next name => next ∈ layouts.held name) name := by
    intro name hname
    refine ⟨name, fun next hnext => ?_⟩
    have hfields : layouts.fieldTypes name = [] := by
      by_contra hfields
      exact hname (mem_names_of_fieldTypes hfields)
    simp [held, hfields] at hnext
  have hinside : ∀ name : {name // name ∈ layouts.names},
      Acc (fun next name => next ∈ layouts.held name) name.1 := by
    intro name
    induction name using hbelow.induction with
    | _ name ih =>
      refine ⟨name.1, fun next hnext => ?_⟩
      by_cases hmem : next ∈ layouts.names
      · exact ih ⟨next, hmem⟩ (.single (step_iff.mpr hnext))
      · exact houtside next hmem
  refine ⟨fun name => ?_⟩
  by_cases hname : name ∈ layouts.names
  · exact hinside ⟨name, hname⟩
  · exact houtside name hname

/-- A recursion over the components of a type ends if it does for the nominal types held in it. -/
theorem acc_of_heldNominals {ty : Ty}
    (hheld : ∀ name ∈ heldNominals ty, ∀ nominal, nominal = .struct name ∨ nominal = .enum name →
      Acc (fun comp ty => comp ∈ layouts.components ty) nominal) :
    Acc (fun comp ty => comp ∈ layouts.components ty) ty := by
  induction hsize : sizeOf ty using Nat.strong_induction_on generalizing ty with
  | _ size ih =>
    subst hsize
    cases ty with
    | struct name => exact hheld name (by simp [heldNominals]) _ (.inl rfl)
    | enum name => exact hheld name (by simp [heldNominals]) _ (.inr rfl)
    | tuple fields =>
      refine ⟨_, fun field hfield => ?_⟩
      have hsmaller := sizeOf_lt_of_mem (show field ∈ fields from hfield)
      apply ih (sizeOf field) (by simp only [Ty.tuple.sizeOf_spec]; omega) _ rfl
      intro name hname
      apply hheld name
      rw [heldNominals, heldNominalsOfAll_eq]
      exact mem_flatMap.mpr ⟨field, hfield, hname⟩
    | array element length =>
      refine ⟨_, fun other hother => ?_⟩
      obtain rfl := mem_singleton.mp hother
      apply ih (sizeOf other) (by simp only [Ty.array.sizeOf_spec]; omega) _ rfl
      intro name hname
      exact hheld name (by rwa [heldNominals])
    | _ => exact ⟨_, fun comp hcomp => by simp [components] at hcomp⟩

theorem components_wellFounded (hacyclic : ¬ Cyclic layouts.held) :
    WellFounded fun comp ty => comp ∈ layouts.components ty := by
  have hnominal : ∀ name nominal, nominal = .struct name ∨ nominal = .enum name →
      Acc (fun comp ty => comp ∈ layouts.components ty) nominal := by
    intro name
    induction name using (held_wellFounded hacyclic).induction with
    | _ name ih =>
      intro nominal hname
      refine ⟨nominal, fun comp hcomp => ?_⟩
      apply acc_of_heldNominals
      intro next hnext
      apply ih next
      have hfield := mem_fieldTypes_of_components hname hcomp
      exact mem_flatMap.mpr ⟨comp, hfield, hnext⟩
  exact ⟨fun ty => acc_of_heldNominals fun name _ => hnominal name⟩

/-! ## The layouts of later phases -/

end NominalLayouts

mutual

/-- No callable is held by the type without going through a nominal type. -/
def holdsNoCallable : Ty → Bool
  | .callable _ => false
  | .array element _ => holdsNoCallable element
  | .tuple fields => holdNoCallable fields
  | _ => true
termination_by structural ty => ty

def holdNoCallable : List Ty → Bool
  | [] => true
  | field :: rest => holdsNoCallable field && holdNoCallable rest
termination_by structural fields => fields

end

theorem holdNoCallable_iff {fields : List Ty} :
    holdNoCallable fields = true ↔ ∀ field ∈ fields, holdsNoCallable field = true := by
  induction fields with
  | nil => simp [holdNoCallable]
  | cons field rest ih => simp [holdNoCallable, ih]

namespace NominalLayouts

/-- A field is written with a type of the source, which is never the type of a closure. -/
def FieldsWithoutCallables (layouts : NominalLayouts) : Prop :=
  ∀ name, ∀ ty ∈ layouts.fieldTypes name, holdsNoCallable ty = true

variable {layouts : NominalLayouts}

theorem acc_of_holdsNoCallable (hfields : layouts.FieldsWithoutCallables)
    (hacyclic : ¬ Cyclic layouts.held) {ty : Ty} (hty : holdsNoCallable ty = true) :
    Acc (fun comp ty => comp ∈ Codegen.components layouts.structs layouts.enums ty) ty := by
  induction ty using (components_wellFounded hacyclic).induction with
  | _ ty ih =>
    refine ⟨ty, fun comp hcomp => ?_⟩
    cases ty with
    | callable captures => simp [holdsNoCallable] at hty
    | struct name =>
      exact ih comp hcomp
        (hfields name comp (mem_fieldTypes_of_components (.inl rfl) hcomp))
    | enum name =>
      exact ih comp hcomp
        (hfields name comp (mem_fieldTypes_of_components (.inr rfl) hcomp))
    | tuple fields =>
      rw [holdsNoCallable] at hty
      exact ih comp hcomp (holdNoCallable_iff.mp hty comp hcomp)
    | array element length =>
      obtain rfl := mem_singleton.mp hcomp
      exact ih comp (mem_singleton_self comp) (by rwa [holdsNoCallable] at hty)
    | _ => simp [Codegen.components] at hcomp

/-- Callables are held by no nominal type, so they end the recursion over the components too. -/
theorem finite_of_acyclic (hfields : layouts.FieldsWithoutCallables)
    (hacyclic : ¬ Cyclic layouts.held) : WellFounded fun comp ty =>
      comp ∈ Codegen.components layouts.structs layouts.enums ty := by
  refine ⟨fun ty => ?_⟩
  induction hsize : sizeOf ty using Nat.strong_induction_on generalizing ty with
  | _ size ih =>
    subst hsize
    cases ty with
    | tuple fields =>
      refine ⟨_, fun field hfield => ih (sizeOf field) ?_ field rfl⟩
      have hsmaller := sizeOf_lt_of_mem (show field ∈ fields from hfield)
      simp only [Ty.tuple.sizeOf_spec]
      omega
    | array element length =>
      refine ⟨_, fun other hother => ih (sizeOf other) ?_ other rfl⟩
      obtain rfl := mem_singleton.mp hother
      simp only [Ty.array.sizeOf_spec]
      omega
    | callable captures =>
      refine ⟨_, fun owned howned => ih (sizeOf owned) ?_ owned rfl⟩
      obtain ⟨capture, hcapture, rfl⟩ := mem_map.mp howned
      have hsmaller := sizeOf_lt_of_mem (mem_of_mem_filter hcapture)
      have hsnd : sizeOf capture.2 < sizeOf capture := by
        cases capture
        simp only [Prod.mk.sizeOf_spec]
        omega
      simp only [Ty.callable.sizeOf_spec]
      omega
    | struct name => exact acc_of_holdsNoCallable hfields hacyclic rfl
    | enum name => exact acc_of_holdsNoCallable hfields hacyclic rfl
    | _ => exact ⟨_, fun comp hcomp => by simp [Codegen.components] at hcomp⟩

/-- The layouts that later phases work on, from layouts without a cycle. -/
def toLayouts (layouts : NominalLayouts) (hasDropMethod : Ty → Bool)
    (hfields : layouts.FieldsWithoutCallables) (hacyclic : ¬ Cyclic layouts.held) : Layouts where
  structs := layouts.structs
  enums := layouts.enums
  hasDropMethod := hasDropMethod
  finite := finite_of_acyclic hfields hacyclic

/-! ## When the validation is exact -/

/-- `struct b(value: i32)` and `struct a(pair: (b, a))`. -/
def pairInTuple : NominalLayouts where
  structs := [⟨"b", [⟨"value", .integer .i32⟩]⟩,
    ⟨"a", [⟨"pair", .tuple [.struct "b", .struct "a"]⟩]⟩]
  enums := []
  distinct := by decide

end NominalLayouts

end Salicin.Codegen
