import Salicin.Source.Ast
import Mathlib.Algebra.GroupWithZero.Nat

/-!
# Lowering match patterns

`matches.rs` lowers the pattern of a match arm to a matcher, the bindings of the pattern, each with
the path of the part of the scrutinee that it names, and the comparisons that its literals stand
for. What is wrong with a pattern is reported, and the lowering goes on.
-/

namespace Salicin.Matching

open List Codegen Source

/-- Which variants of the scrutinee an arm is for. -/
inductive HirMatcher
  | all
  | variant (index : Nat)
  deriving DecidableEq

structure HirPatternBinding where
  id : Nat
  name : String
  ty : Ty
  path : List Nat
  moves : Bool

/-- What the lowering of patterns asks of the rest of the analyzer. -/
structure Nominals where
  layouts : Layouts
  /-- `resolve_trait_impl_target` accepts no tuple. -/
  tuples : ∀ fields, layouts.hasDropMethod (.tuple fields) = false
  /-- `copy_nominals`. -/
  copyNominals : Ty → Bool
  /-- The name of the language item `Never`. -/
  neverName : String
  /-- The template that a nominal type is an instance of. -/
  template : String → Option String
  /-- `VariantLayout::named`, by the enum and the position of the variant. -/
  named : String → Nat → Bool
  /-- What `require_field_access` reports of a field, by its owner. -/
  accessErrors : String → FieldLayout → List String
  /-- What is reported of a nominal type without a layout. -/
  layoutError : Ty → String
  display : Ty → String

namespace Nominals

variable (nominals : Nominals)

/-- `is_copy_type`. -/
def isCopyType : Ty → Bool
  | .unit | .pointer _ _ | .function | .effectRow | .never | .error => true
  | .reference _ mutable => !mutable
  | .str | .slice _ => false
  | .array element _ => isCopyType element
  | .tuple fields => fields.attach.all fun field => isCopyType field.1
  | .enum name => name == nominals.neverName || nominals.copyNominals (.enum name)
  | .integer kind => nominals.copyNominals (.integer kind)
  | .bool => nominals.copyNominals .bool
  | .struct name => nominals.copyNominals (.struct name)
  | .callable _ | .continuation | .effectCallable => false
termination_by ty => sizeOf ty
decreasing_by
  · simp only [Ty.array.sizeOf_spec]
    omega
  · have hlt := sizeOf_lt_of_mem field.2
    simp only [Ty.tuple.sizeOf_spec]
    omega

end Nominals

/-- What lowering the pattern of one arm has come to. The scope of the arm holds the names of the
bindings and no others. -/
structure PatternLowering where
  diagnostics : List String
  nextLocal : Nat
  bindings : List HirPatternBinding
  conditions : List Expr

namespace PatternLowering

def start (nextLocal : Nat) : PatternLowering :=
  { diagnostics := [], nextLocal := nextLocal, bindings := [], conditions := [] }

def report (state : PatternLowering) (message : String) : PatternLowering :=
  { state with diagnostics := state.diagnostics ++ [message] }

def reportAll (state : PatternLowering) (messages : List String) : PatternLowering :=
  { state with diagnostics := state.diagnostics ++ messages }

def require (state : PatternLowering) (condition : Prop) [Decidable condition] (message : String) :
    PatternLowering :=
  if condition then state else state.report message

end PatternLowering

def integerPatternExpr (pattern : IntegerPattern) : Expr :=
  let magnitude := Expr.integer pattern.magnitude
  if pattern.negative then .unary .neg magnitude else magnitude

/-- `path.join(".")`. -/
def dotted (path : List String) : String := ".".intercalate path

section

variable (nominals : Nominals)

def bindPattern (name : String) (ty : Ty) (path : List Nat) (state : PatternLowering) :
    PatternLowering :=
  if state.bindings.any (·.name = name) then
    state.report s!"duplicate pattern binding `{name}`"
  else
    { state with
      nextLocal := state.nextLocal + 1
      bindings := state.bindings ++ [⟨state.nextLocal, name, ty, path, !nominals.isCopyType ty⟩] }

/-- A literal is bound to a name of its own, and the guard of the arm compares it. -/
def lowerLiteral (literal : Expr) (ty : Ty) (path : List Nat) (state : PatternLowering) :
    PatternLowering :=
  let name := s!"$match$literal${state.bindings.length}"
  let bound := bindPattern nominals name ty path state
  { bound with conditions := bound.conditions ++ [.binary (.name name) .eq literal] }

/-- The patterns of named fields by the positions of the fields, and what is wrong with them. -/
def normalizeNamedFields (fields : List FieldLayout) (description : String) :
    List PatternField → List Nat → List (Nat × Pattern) × List String × List Nat
  | [], seen => ([], [], seen)
  | ⟨name, pattern⟩ :: rest, seen =>
    match fields.findIdx? fun field => field.name = name with
    | none =>
      let (result, errors, seen) := normalizeNamedFields fields description rest seen
      (result, s!"unknown field `{name}` in {description}" :: errors, seen)
    | some index =>
      if index ∈ seen then
        let (result, errors, seen) := normalizeNamedFields fields description rest seen
        (result, s!"duplicate field `{name}` in {description}" :: errors, seen)
      else
        let (result, errors, seen) := normalizeNamedFields fields description rest (index :: seen)
        ((index, pattern) :: result, errors, seen)

/-- `normalize_pattern_fields`, without the access to the fields: the patterns by the positions of
the fields, and what is reported. -/
def normalizePatternFields (patterns : PatternFields) (fields : List FieldLayout) (named : Bool)
    (description : String) : List (Nat × Pattern) × List String :=
  match patterns with
  | .unit =>
    ([], if fields.isEmpty then []
      else [s!"{description} requires {fields.length} field patterns"])
  | .positional patterns =>
    (patterns.zipIdx.map fun (pattern, index) => (index, pattern),
      if patterns.length = fields.length then []
      else [s!"field count mismatch in {description}: expected {fields.length}, " ++
        s!"found {patterns.length}"])
  | .named patterns =>
    if named then
      let (result, errors, seen) := normalizeNamedFields fields description patterns []
      (result, errors ++ (fields.zipIdx.filter fun (_, index) => index ∉ seen).map
        fun (field, _) => s!"missing field `{field.name}` in {description}")
    else ([], [s!"{description} has positional fields"])

/-- The patterns that stand in the fields of a constructor. -/
def fieldPatterns : PatternFields → List Pattern
  | .unit => []
  | .positional patterns => patterns
  | .named fields => fields.map (·.pattern)

theorem mem_of_normalizeNamedFields {fields : List FieldLayout} {desc : String}
    {pats : List PatternField} {seen : List Nat} {entry : Nat × Pattern}
    (hentry : entry ∈ (normalizeNamedFields fields desc pats seen).1) :
    entry.2 ∈ pats.map (·.pattern) := by
  induction pats generalizing seen with
  | nil => simp [normalizeNamedFields] at hentry
  | cons field rest ih =>
    obtain ⟨name, pattern⟩ := field
    rw [normalizeNamedFields] at hentry
    split at hentry
    · exact mem_cons_of_mem _ (ih hentry)
    · split at hentry
      · exact mem_cons_of_mem _ (ih hentry)
      · rcases mem_cons.mp hentry with rfl | hrest
        · exact mem_cons_self
        · exact mem_cons_of_mem _ (ih hrest)

theorem mem_of_normalizePatternFields {patterns : PatternFields} {fields : List FieldLayout}
    {named : Bool} {desc : String} {entry : Nat × Pattern}
    (hentry : entry ∈ (normalizePatternFields patterns fields named desc).1) :
    entry.2 ∈ fieldPatterns patterns := by
  cases patterns with
  | unit => simp [normalizePatternFields] at hentry
  | positional patterns =>
    obtain ⟨⟨pattern, i⟩, hmem, rfl⟩ := mem_map.mp hentry
    exact mem_of_getElem? (mem_zipIdx_iff_getElem?.mp hmem)
  | named patterns =>
    cases named with
    | false => simp [normalizePatternFields] at hentry
    | true => exact mem_of_normalizeNamedFields hentry

theorem sizeOf_lt_of_mem_fieldPatterns {patterns : PatternFields} {pattern : Pattern}
    (hmem : pattern ∈ fieldPatterns patterns) : sizeOf pattern < sizeOf patterns := by
  cases patterns with
  | unit => simp [fieldPatterns] at hmem
  | positional patterns =>
    have hlt := sizeOf_lt_of_mem (show pattern ∈ patterns from hmem)
    simp only [PatternFields.positional.sizeOf_spec]
    omega
  | named patterns =>
    obtain ⟨field, hfield, rfl⟩ := mem_map.mp hmem
    have hlt := sizeOf_lt_of_mem hfield
    obtain ⟨name, pattern⟩ := field
    simp only [PatternFields.named.sizeOf_spec, PatternField.mk.sizeOf_spec] at hlt ⊢
    omega

/-- `lower_irrefutable_pattern`: the bindings of a pattern that stands inside of another one. -/
def lowerIrrefutablePattern (pattern : Pattern) (ty : Ty) (path : List Nat)
    (state : PatternLowering) : PatternLowering :=
  match pattern with
  | .wildcard => state
  | .binding name => bindPattern nominals name ty path state
  | .integer value =>
    match ty with
    | .integer _ => lowerLiteral nominals (integerPatternExpr value) ty path state
    | _ => state.report
        s!"pattern type mismatch: literal pattern cannot match `{nominals.display ty}`"
  | .bool value =>
    match ty with
    | .bool => lowerLiteral nominals (.bool value) ty path state
    | _ => state.report
        s!"pattern type mismatch: literal pattern cannot match `{nominals.display ty}`"
  | .constructor constructor fields =>
    match ty with
    | .struct structName =>
      let sourceName := (nominals.template structName).getD structName
      if constructor.getLast? ≠ some structName ∧ constructor.getLast? ≠ some sourceName then
        state.report (s!"pattern type mismatch: expected struct `{structName}`, found " ++
          s!"`{dotted constructor}`")
      else
        match nominals.layouts.structLayout structName with
        | none => state.report (nominals.layoutError ty)
        | some layout =>
          let normalized := normalizePatternFields fields layout.fields true
            s!"pattern `{structName}`"
          let entered := state.reportAll
            (layout.fields.flatMap (nominals.accessErrors structName) ++ normalized.2)
          let lowered := normalized.1.attach.foldl (fun state entry =>
            -- The source indexes here; more patterns than fields have been reported.
            match layout.fields[entry.1.1]? with
            | some field =>
              lowerIrrefutablePattern entry.1.2 field.ty (path ++ [entry.1.1]) state
            | none => state) entered
          let moved := lowered.bindings.drop entered.bindings.length
          if nominals.layouts.hasDropMethod ty ∧ moved.any (·.moves) then
            lowered.report (s!"cannot move a nested pattern binding through " ++
              s!"`{nominals.display ty}` because it implements `droppable`")
          else lowered
    | _ => state.report (s!"pattern type mismatch: constructor " ++
        s!"`{dotted constructor}` cannot match `{nominals.display ty}`")
  | .tuple patterns =>
    match ty with
    | .tuple fields =>
      let entered := state.require (patterns.length = fields.length)
        (s!"tuple pattern length mismatch: expected {fields.length}, found " ++
          s!"{patterns.length}")
      patterns.zipIdx.attach.foldl (fun state entry =>
        match fields[entry.1.2]? with
        | some field => lowerIrrefutablePattern entry.1.1 field (path ++ [entry.1.2]) state
        | none => state) entered
    | _ => state.report s!"tuple pattern cannot match `{nominals.display ty}`"
termination_by sizeOf pattern
decreasing_by
  · have hlt := sizeOf_lt_of_mem_fieldPatterns (mem_of_normalizePatternFields entry.2)
    simp only [Pattern.constructor.sizeOf_spec]
    omega
  · have hmem := mem_of_getElem? (mem_zipIdx_iff_getElem?.mp entry.2)
    have hlt := sizeOf_lt_of_mem hmem
    simp only [Pattern.tuple.sizeOf_spec]
    omega

/-- The name without the modules in front of it. -/
def shortName (name : String) : String := (name.splitOn "::").getLastD name

/-- The path of a constructor pattern names a variant of the enum. -/
def belongsTo (path : List String) (enumName sourceName : String) : Bool :=
  match path with
  | [] | [_] => true
  | [owner, _] =>
    [enumName, sourceName, shortName enumName, shortName sourceName, "self"].contains owner
  | _ => false

/-- The fields of the variants in front of a variant, in one count. -/
def payloadOffset (layout : EnumLayout) (variant : Nat) : Nat :=
  ((layout.variants.take variant).map (·.fields.length)).sum

def lowerEnumPattern (pattern : Pattern) (layout : EnumLayout) (state : PatternLowering) :
    HirMatcher × PatternLowering :=
  match pattern with
  | .wildcard => (.all, state)
  | .binding name =>
    let unit := layout.variants.findIdx? fun variant =>
      variant.name = name ∧ variant.fields.isEmpty
    match unit with
    | some index => (.variant index, state)
    | none => (.all, bindPattern nominals name (.enum layout.name) [] state)
  | .constructor path fields =>
    match path.getLast? with
    | none => (.all, state.report "empty constructor path in pattern")
    | some variantName =>
      let sourceName := (nominals.template layout.name).getD layout.name
      if belongsTo path layout.name sourceName = false then
        (.all, state.report (s!"pattern constructor `{dotted path}` does not belong to enum " ++
          s!"`{layout.name}`"))
      else
        match layout.variants.zipIdx.find? fun entry => entry.1.name = variantName with
        | none => (.all, state.report (s!"unknown pattern variant `{variantName}` for enum " ++
            s!"`{layout.name}`"))
        | some (variant, index) =>
          let normalized := normalizePatternFields fields variant.fields
            (nominals.named layout.name index) s!"pattern `{layout.name}.{variant.name}`"
          let entered := state.reportAll (variant.fields.flatMap
            (nominals.accessErrors s!"{layout.name}.{variant.name}") ++ normalized.2)
          (.variant index, normalized.1.foldl (fun state entry =>
            match variant.fields[entry.1]? with
            | some field => lowerIrrefutablePattern nominals entry.2 field.ty
                [1 + payloadOffset layout index + entry.1] state
            | none => state) entered)
  | .tuple _ => (.all, state.report s!"tuple pattern cannot match enum `{layout.name}`")
  | .integer _ | .bool _ =>
    (.all, state.report (s!"pattern type mismatch: enum `{layout.name}` cannot be matched by " ++
      "a scalar literal"))

/-- The pattern of an arm over a tuple or a struct. -/
def lowerAggregatePattern (pattern : Pattern) (scrutinee : Ty) (state : PatternLowering) :
    PatternLowering :=
  match pattern with
  | .wildcard => state
  | .binding name => bindPattern nominals name scrutinee [] state
  | .tuple patterns =>
    match scrutinee with
    -- The source has the loop over the components a second time here.
    | .tuple fields => lowerIrrefutablePattern nominals (.tuple patterns) (.tuple fields) [] state
    | _ => state.report s!"tuple pattern cannot match {nominals.display scrutinee}"
  | .constructor path fields =>
    match scrutinee with
    | .tuple _ => state.report (s!"constructor pattern `{dotted path}` cannot match tuple " ++
        s!"type `{nominals.display scrutinee}`")
    | _ => lowerIrrefutablePattern nominals (.constructor path fields) scrutinee [] state
  | .integer _ | .bool _ => state.report
      s!"pattern type mismatch: literal pattern cannot match `{nominals.display scrutinee}`"

/-- How a match reads its scrutinee: an inspected one stays where it is, and the bindings that
would move out of it stand for its parts; so do all of them behind a reference. -/
inductive ScrutineeAccess
  | consumed
  | inspected (aliasesAllBindings : Bool)
  deriving DecidableEq

/-- The bindings of an enum arm that get storage of their own. -/
def keptBindings (access : ScrutineeAccess) (bindings : List HirPatternBinding) :
    List HirPatternBinding :=
  match access with
  | .consumed => bindings
  | .inspected true => []
  | .inspected false => bindings.filter fun binding => !binding.moves

/-- What `lower_match_with_scrutinee` and `lower_irrefutable_match_with_scrutinee` make of the
pattern of an arm. -/
def lowerArmPattern (scrutinee : Ty) (access : ScrutineeAccess) (pattern : Pattern)
    (nextLocal : Nat) : HirMatcher × PatternLowering :=
  let start := PatternLowering.start nextLocal
  match scrutinee with
  | .tuple _ | .struct _ => (.all, lowerAggregatePattern nominals pattern scrutinee start)
  | .enum name =>
    match nominals.layouts.enumLayout name with
    | none => (.all, start.report (nominals.layoutError scrutinee))
    | some layout =>
      let (matcher, lowered) := lowerEnumPattern nominals pattern layout start
      let kept := { lowered with bindings := keptBindings access lowered.bindings }
      let moved := kept.bindings.filter fun binding => binding.moves ∧ binding.path ≠ []
      if nominals.layouts.hasDropMethod scrutinee ∧ moved.isEmpty = false then
        (matcher, kept.report (s!"cannot move a pattern binding out of " ++
          s!"`{nominals.display scrutinee}` because it implements `droppable`"))
      else (matcher, kept)
  | _ => (.all, start.report
      s!"match currently requires an enum value, found `{nominals.display scrutinee}`")

end

end Salicin.Matching
