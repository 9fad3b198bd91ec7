import Mathlib.Data.List.AList
import Salicin.Codegen.SymbolNames
import Salicin.Source.Ast

/-!
# Instantiation

Generic functions and nominal types are instantiated on request. A request enters a name in the
tables of instances, lowers the types of the instance and completes the entry. What is lowered is
a parameter here: the requests that it makes itself, whatever they are, and what comes out.
-/

namespace Salicin.Codegen.Names.Instantiation

open List Source

instance : DecidableEq Ty := fun _ _ => decidable_of_iff _ canonicalTypeEncoding_injective.eq_iff

instance : DecidableEq FunctionInstanceKey := fun _ _ =>
  decidable_of_iff _ functionInstanceName_injective.eq_iff

instance : DecidableEq NominalInstanceKey := fun _ _ =>
  decidable_of_iff _ nominalInstanceName_injective.eq_iff

deriving instance DecidableEq for NominalKind

/-! ## Tables -/

abbrev Table (Key Value : Type) := AList fun _ : Key => Value

structure FunctionSig where
  groups : List (List (String × Ty × PassMode))
  unsafety : Bool
  failureError : Option Ty
  customEffects : List String
  result : Option Ty

/-- A variant and the names and types of its fields. -/
structure VariantLayout where
  name : String
  fields : List (String × Ty)

inductive NominalInstanceState
  | building
  | ready

/-- The part of the state of the analyzer that requests read or change. The layouts of structs and
of enums are together, and a struct has one variant. -/
structure Tables where
  functionInstanceNames : Table FunctionInstanceKey String
  functionInstances : Table String FunctionInstanceKey
  functionTypeSubstitutions : Table String (List (String × SourceType))
  signatures : Table String FunctionSig
  functions : Table String Function
  functionOrder : List String
  integerConversionIntrinsics : Table String (Ty × Ty)
  nominalInstanceNames : Table NominalInstanceKey String
  nominalInstances : Table String NominalInstanceKey
  nominalInstanceStates : Table NominalInstanceKey NominalInstanceState
  invalidRecursiveNominals : List String
  layouts : Table (NominalKind × String) (List VariantLayout)
  suppressGenericInherentInstantiation : Nat
  diagnostics : List String

namespace Tables

def report (tables : Tables) (messages : List String) : Tables :=
  { tables with diagnostics := tables.diagnostics ++ messages }

end Tables

/-- What instantiation finds in the program. The substitution of types in a function, the texts of
diagnostics and the check for growing type arguments may be any functions. -/
structure Program where
  functionTemplates : String → Function
  /-- The builtin conversions, with the type that each converts from. -/
  integerConversionTemplates : String → Option Ty
  /-- The compile-time parameters of struct and enum templates. -/
  nominalParameters : NominalKind → String → List CompileParam
  nominalAccesses : String → Bool
  substituteFunctionTypes : List (String × SourceType) → Function → Function
  growingRecursiveInstance : Tables → NominalInstanceKey → Bool
  diagnosticFunctionName : String → String
  sourceEffectIdentity : SourceType → String

/-! ## Requests -/

/-- How the check of a where predicate ends. -/
inductive Verdict
  | overBudget
  | proven
  | unproven

/-- A request for an instance of a function, with what its lowering gives. -/
structure FunctionRequest where
  key : FunctionInstanceKey
  sourceArguments : List SourceType
  verdict : Nat → Verdict
  signature : FunctionSig
  outputType : Ty

/-- A request for an instance of a nominal type, with the layout that its lowering gives. -/
structure NominalRequest where
  key : NominalInstanceKey
  sourceArguments : List SourceType
  layout : List VariantLayout

def maxFunctionInstances : Nat := 512

def maxNominalInstances : Nat := 256

/-- The first name that is there already. -/
def firstRepeated (names : List String) : Option String :=
  (names.zipIdx.find? fun (name, index) => name ∈ names.take index).map (·.1)

namespace Program

variable (program : Program)

/-! ## Functions -/

section Function

variable (request : FunctionRequest)

def compileParameters : List CompileParam :=
  (program.functionTemplates request.key.template).compileGroups.flatten

def substitutions : List (String × SourceType) :=
  ((program.compileParameters request).map (·.name)).zip request.sourceArguments

/-- The template at the requested types. -/
def function : Function :=
  program.substituteFunctionTypes (program.substitutions request)
    (program.functionTemplates request.key.template)

/-- Why a function is refused before its predicates are looked at. -/
def functionRefusals (tables : Tables) : List String :=
  let template := request.key.template
  let parameters := program.compileParameters request
  if maxFunctionInstances ≤ tables.functionInstances.entries.length then
    [s!"generic function instance limit of {maxFunctionInstances} exceeded while " ++
      s!"instantiating \x60{template}\x60"]
  else if parameters.length ≠ request.sourceArguments.length then
    [s!"internal error: invalid type argument count while instantiating \x60{template}\x60"]
  else match firstRepeated (parameters.map (·.name)) with
    | some name =>
      [s!"duplicate compile-time parameter \x60{name}\x60 in generic function \x60{template}\x60"]
    | none =>
      (program.function request).groups.flatten.flatMap fun parameter =>
        parameter.modifiers.map fun modifier =>
          s!"parameter modifier \x60{modifier}\x60 on \x60{template}.{parameter.name}\x60 does " ++
            "not normalize to a \x60parameters\x60 schema"

def predicateReport (predicate : WherePredicate) : Verdict → List String
  | .overBudget =>
    ["where predicate exceeds the compiler-owned static constraint budget while instantiating " ++
      s!"\x60{program.diagnosticFunctionName request.key.template}\x60"]
  | .proven => []
  | .unproven =>
    match predicate.traitRef with
    | .named name _ =>
      [s!"where predicate \x60{program.sourceEffectIdentity predicate.subject}: {name}\x60 is " ++
        "not satisfied while instantiating " ++
        s!"\x60{program.diagnosticFunctionName request.key.template}\x60"]
    | _ => []

/-- `validate_concrete_where_predicates`, with what it reports. -/
def validateConcreteWherePredicates : Bool × List String :=
  let predicates := (program.function request).wherePredicates.zipIdx
  (predicates.all fun (_, index) =>
      match request.verdict index with
      | .proven => true
      | _ => false,
    predicates.flatMap fun (predicate, index) =>
      program.predicateReport request predicate (request.verdict index))

/-- The request up to the entry in the tables: the tables with the entry, or those in which the
request was refused. -/
def enterFunction (validation : Tables → Tables) (tables : Tables) : Except Tables Tables :=
  let refusals := program.functionRefusals request tables
  if refusals ≠ [] then .error (tables.report refusals)
  else
    let (valid, messages) := program.validateConcreteWherePredicates request
    let tables := (validation tables).report messages
    let canonical := functionInstanceName request.key
    if ¬ valid then .error tables
    else match tables.functionInstances.lookup canonical with
      | some existing =>
        .error (tables.report ["internal error: generic function instance name collision between " ++
          s!"\x60{existing.template}\x60 and \x60{request.key.template}\x60"])
      | none => .ok { tables with
          functionInstanceNames := tables.functionInstanceNames.insert request.key canonical
          functionInstances := tables.functionInstances.insert canonical request.key
          functionTypeSubstitutions :=
            tables.functionTypeSubstitutions.insert canonical (program.substitutions request) }

def isOption (target : Ty) (layout : List VariantLayout) : Bool :=
  (layout.any fun variant =>
    variant.name = "some" && match variant.fields with
      | [(_, ty)] => ty = target
      | _ => false) &&
  layout.any fun variant => variant.name = "none" && variant.fields.isEmpty

/-- The check of an instance of a conversion, after its types have been lowered. -/
def conversionIntrinsic (tables : Tables) : Except String (Option (Ty × Ty)) :=
  match program.integerConversionTemplates request.key.template with
  | none => .ok none
  | some source =>
    match request.outputType, ((program.substitutions request).map (·.1)).contains "output" with
    | .integer target, true =>
      let layout := match request.signature.result with
        | some (.enum name) => tables.layouts.lookup (NominalKind.enum, name)
        | _ => none
      if layout.any (isOption (.integer target)) then .ok (some (source, .integer target))
      else .error "internal error: \x60checked_into\x60 must return \x60option(output)\x60"
    | _, _ =>
      .error ("\x60checked_into\x60 requires an integer \x60output\x60 type such as \x60u8\x60 or " ++
        "\x60i64\x60")

/-- The signature and the function of the instance. -/
def completeFunction (intrinsic : Option (Ty × Ty)) (tables : Tables) : Tables :=
  let canonical := functionInstanceName request.key
  let tables := { tables with
    signatures := tables.signatures.insert canonical request.signature
    functions := tables.functions.insert canonical
      { program.function request with name := canonical, compileGroups := [] } }
  match intrinsic with
  | some intrinsic => { tables with
      integerConversionIntrinsics := tables.integerConversionIntrinsics.insert canonical intrinsic }
  | none => { tables with functionOrder := tables.functionOrder ++ [canonical] }

/-- `ensure_function_instance`. The check of the predicates, the lowering of the parameters, of the
result and of the target of a conversion, and that of the failure type run further requests. -/
def ensureFunctionInstance (validation head tail : Tables → Tables) (tables : Tables) :
    Option String × Tables :=
  match tables.functionInstanceNames.lookup request.key with
  | some canonical => (some canonical, tables)
  | none =>
    match program.enterFunction request validation tables with
    | .error refused => (none, refused)
    | .ok entered =>
      match program.conversionIntrinsic request (head entered) with
      -- The entry stays in the tables here, without a signature and a function.
      | .error message => (none, (head entered).report [message])
      | .ok intrinsic =>
        (some (functionInstanceName request.key),
          program.completeFunction request intrinsic (tail (head entered)))

end Function

/-! ## Nominal types -/

section Nominal

variable (request : NominalRequest)

/-- Why a nominal type that is not known yet is refused. -/
def nominalRefusals (tables : Tables) : List String :=
  let template := request.key.template
  let parameters := program.nominalParameters request.key.kind template
  if maxNominalInstances ≤
      tables.nominalInstances.entries.countP fun entry => ¬ entry.2.arguments.isEmpty then
    [s!"generic nominal instance limit of {maxNominalInstances} exceeded while instantiating " ++
      s!"\x60{template}\x60"]
  else if parameters.length ≠ request.sourceArguments.length then
    [s!"type argument count mismatch for \x60{template}\x60: expected {parameters.length}, found " ++
      s!"{request.sourceArguments.length}"]
  else match firstRepeated (parameters.map (·.name)) with
    | some name =>
      [s!"duplicate compile-time parameter \x60{name}\x60 in generic nominal \x60{template}\x60"]
    | none =>
      match tables.nominalInstances.lookup (nominalInstanceName request.key) with
      | some existing =>
        [s!"internal error: nominal instance name collision between \x60{existing.template}\x60 " ++
          s!"and \x60{template}\x60"]
      | none => []

/-- The request up to its work: the instance if it is ready already, nothing if it has to be built,
or the diagnostics with which it is refused and whether the template is invalid from then on. -/
def nominalEntry (tables : Tables) : Except (Bool × List String) (Option String) :=
  let template := request.key.template
  if template ∈ tables.invalidRecursiveNominals then .error (false, [])
  else match tables.nominalInstanceNames.lookup request.key with
    | some canonical =>
      match tables.nominalInstanceStates.lookup request.key with
      | some .ready => .ok (some canonical)
      | some .building =>
        .error (true, ["recursive generic value layout has infinite size while instantiating " ++
          s!"\x60{template}\x60"])
      | none =>
        .error (false, ["internal error: missing construction state for nominal instance " ++
          s!"\x60{canonical}\x60"])
    | none =>
      if program.growingRecursiveInstance tables request.key then
        .error (true, ["recursive generic value layout has infinite size while instantiating " ++
          s!"\x60{template}\x60 with growing type arguments"])
      else match program.nominalRefusals request tables with
        | [] => .ok none
        | refusals => .error (false, refusals)

/-- The entry of a nominal type that is being built, with an empty layout. -/
def enterNominal (tables : Tables) : Tables :=
  let canonical := nominalInstanceName request.key
  { tables with
    nominalInstanceNames := tables.nominalInstanceNames.insert request.key canonical
    nominalInstances := tables.nominalInstances.insert canonical request.key
    nominalInstanceStates := tables.nominalInstanceStates.insert request.key .building
    layouts := tables.layouts.insert (request.key.kind, canonical) []
    diagnostics := tables.diagnostics ++
      if program.nominalAccesses request.key.template then [] else
        ["internal error: missing visibility metadata for nominal template " ++
          s!"\x60{request.key.template}\x60"] }

def setReady (key : NominalInstanceKey) (tables : Tables) : Tables :=
  { tables with nominalInstanceStates := tables.nominalInstanceStates.insert key .ready }

/-- `build_struct_layout` and `build_enum_layout`, when the types of the fields are lowered. -/
def buildLayout (tables : Tables) : Tables :=
  let canonical := nominalInstanceName request.key
  let tables := { tables with
    layouts := tables.layouts.insert (request.key.kind, canonical) request.layout }
  match tables.nominalInstances.lookup canonical with
  | some key => setReady key tables
  | none => tables

/-- `ensure_nominal_instance`. The lowering of the fields and the instantiation of the extensions
of the template run further requests. -/
def ensureNominalInstance (build extend : Tables → Tables) (tables : Tables) :
    Option String × Tables :=
  match program.nominalEntry request tables with
  | .error (infinite, messages) => (none, { tables with
      invalidRecursiveNominals :=
        (if infinite then [request.key.template] else []) ++ tables.invalidRecursiveNominals
      diagnostics := tables.diagnostics ++ messages })
  | .ok (some canonical) => (some canonical, extend tables)
  | .ok none =>
    let ready := setReady request.key <| buildLayout request <|
      build (program.enterNominal request tables)
    (some (nominalInstanceName request.key),
      if ready.suppressGenericInherentInstantiation = 0 then extend ready else ready)

end Nominal

end Program

/-! ## Runs -/

/-- Requests one after another, each with the requests that it makes itself, and diagnostics. -/
inductive Work
  | done
  | report (messages : List String) (rest : Work)
  | function (request : FunctionRequest) (validation head tail rest : Work)
  | nominal (request : NominalRequest) (build extend rest : Work)

namespace Work

variable (program : Program)

def run : Work → Tables → Tables
  | done, tables => tables
  | report messages rest, tables => rest.run (tables.report messages)
  | function request validation head tail rest, tables =>
    rest.run (program.ensureFunctionInstance request validation.run head.run tail.run tables).2
  | nominal request build extend rest, tables =>
    rest.run (program.ensureNominalInstance request build.run extend.run tables).2

/-- The answer to a request for a function, and the tables after it. -/
def answer (request : FunctionRequest) (validation head tail : Work) :
    Tables → Option String × Tables :=
  program.ensureFunctionInstance request (validation.run program) (head.run program)
    (tail.run program)

/-- No instance of a conversion fails its check once it is in the tables: the type `output` is
lowered to an integer type and the result to an option of it. This is asked of every request that
is reached, the nested ones included. -/
def Fits : Work → Tables → Prop
  | done, _ => True
  | report messages rest, tables => rest.Fits (tables.report messages)
  | function request validation head tail rest, tables =>
    (request.key ∉ tables.functionInstanceNames →
      (program.functionRefusals request tables = [] → validation.Fits tables) ∧
      ∀ entered, program.enterFunction request (validation.run program) tables = .ok entered →
        head.Fits entered ∧ tail.Fits (head.run program entered) ∧
        ∃ intrinsic,
          program.conversionIntrinsic request (head.run program entered) = .ok intrinsic) ∧
    rest.Fits (answer program request validation head tail tables).2
  | nominal request build extend rest, tables =>
    (∀ canonical, program.nominalEntry request tables = .ok (some canonical) → extend.Fits tables) ∧
    (program.nominalEntry request tables = .ok none →
      build.Fits (program.enterNominal request tables) ∧
      extend.Fits (Program.setReady request.key <| Program.buildLayout request <|
        build.run program (program.enterNominal request tables))) ∧
    rest.Fits (program.ensureNominalInstance request (build.run program) (extend.run program)
      tables).2

end Work

/-! ## What requests keep -/

/-- Every function in the tables has a signature and a body, and every nominal type is ready and
has a layout, but for the instances that are still being entered. -/
structure Consistent (opening : Set FunctionInstanceKey) (building : Set NominalInstanceKey)
    (tables : Tables) : Prop where
  functions : ∀ key canonical, tables.functionInstanceNames.lookup key = some canonical →
    canonical = functionInstanceName key ∧
      (key ∈ opening ∨ canonical ∈ tables.signatures ∧ canonical ∈ tables.functions)
  instances : ∀ canonical key, tables.functionInstances.lookup canonical = some key →
    canonical = functionInstanceName key ∧ key ∈ tables.functionInstanceNames
  nominals : ∀ key canonical, tables.nominalInstanceNames.lookup key = some canonical →
    (key.kind, canonical) ∈ tables.layouts ∧
      (key ∈ building ∨ tables.nominalInstanceStates.lookup key = some .ready)

/-- Nothing is half registered. -/
abbrev Settled : Tables → Prop := Consistent ∅ ∅

theorem lookup_insert_eq_some {Key Value : Type} [DecidableEq Key] {table : Table Key Value}
    {key other : Key} {val found : Value} (h : (table.insert key val).lookup other = some found) :
    other = key ∧ found = val ∨ other ≠ key ∧ table.lookup other = some found := by
  by_cases hsame : other = key
  · subst hsame
    rw [AList.lookup_insert] at h
    exact .inl ⟨rfl, (Option.some.inj h).symm⟩
  · rw [AList.lookup_insert_ne hsame] at h
    exact .inr ⟨hsame, h⟩

variable {program : Program} {opening : Set FunctionInstanceKey}
  {building : Set NominalInstanceKey} {tables : Tables}

theorem Consistent.report (h : Consistent opening building tables) (messages : List String) :
    Consistent opening building (tables.report messages) := ⟨h.functions, h.instances, h.nominals⟩

section Function

variable {request : FunctionRequest} {validation head tail : Tables → Tables}
  {refused entered : Tables}

/-- Where a request is refused. -/
theorem enterFunction_error (h : program.enterFunction request validation tables = .error refused) :
    program.functionRefusals request tables ≠ [] ∧
        refused = tables.report (program.functionRefusals request tables) ∨
      program.functionRefusals request tables = [] ∧
        ((program.validateConcreteWherePredicates request).1 = false ∧
          refused = (validation tables).report
            (program.validateConcreteWherePredicates request).2 ∨
        ∃ existing earlier messages, (validation tables).functionInstances.lookup
            (functionInstanceName request.key) = some existing ∧ messages ≠ [] ∧
          refused = ((validation tables).report earlier).report messages) := by
  rw [Program.enterFunction] at h
  split_ifs at h with hrefused
  · exact .inl ⟨hrefused, (Except.error.inj h).symm⟩
  · refine .inr ⟨not_not.mp hrefused, ?_⟩
    dsimp only at h
    split_ifs at h with hvalid
    · split at h
      · next existing hexisting =>
          exact .inr ⟨existing, _, _, hexisting, cons_ne_nil _ _, (Except.error.inj h).symm⟩
      · cases h
    · exact .inl ⟨Bool.eq_false_of_not_eq_true hvalid, (Except.error.inj h).symm⟩

theorem enterFunction_ok (h : program.enterFunction request validation tables = .ok entered)
    (hvalidation : program.functionRefusals request tables = [] →
      Consistent opening building (validation tables)) :
    Consistent (insert request.key opening) building entered := by
  rw [Program.enterFunction] at h
  dsimp only at h
  split_ifs at h with hrefused
  have hvalid := hvalidation (not_not.mp hrefused)
  split at h
  · cases h
  · cases h
    refine ⟨?_, ?_, hvalid.nominals⟩
    · intro key canonical hlookup
      rcases lookup_insert_eq_some hlookup with ⟨rfl, rfl⟩ | ⟨-, hlookup⟩
      · exact ⟨rfl, .inl (Set.mem_insert _ _)⟩
      · exact (hvalid.functions key canonical hlookup).imp_right
          (Or.imp_left (Set.mem_insert_of_mem _))
    · intro canonical key hlookup
      rcases lookup_insert_eq_some hlookup with ⟨rfl, rfl⟩ | ⟨-, hlookup⟩
      · exact ⟨rfl, (AList.mem_insert _).mpr (.inl rfl)⟩
      · exact (hvalid.instances canonical key hlookup).imp_right
          fun hmem => (AList.mem_insert _).mpr (.inr hmem)

theorem completeFunction_consistent {intrinsic : Option (Ty × Ty)}
    (h : Consistent (insert request.key opening) building tables) :
    Consistent opening building (program.completeFunction request intrinsic tables) := by
  refine ⟨fun key canonical hlookup => ?_, ?_, ?_⟩
  · have hold : tables.functionInstanceNames.lookup key = some canonical := by
      cases intrinsic <;> exact hlookup
    have hcomplete : canonical = functionInstanceName request.key ∨
        canonical ∈ tables.signatures ∧ canonical ∈ tables.functions →
        canonical ∈ (program.completeFunction request intrinsic tables).signatures ∧
          canonical ∈ (program.completeFunction request intrinsic tables).functions := by
      cases intrinsic <;> simp only [Program.completeFunction, AList.mem_insert] <;> tauto
    obtain ⟨rfl, hopen⟩ := h.functions key canonical hold
    refine ⟨rfl, ?_⟩
    rcases hopen with hopen | hdone
    · rcases Set.mem_insert_iff.mp hopen with rfl | hopen
      · exact .inr (hcomplete (.inl rfl))
      · exact .inl hopen
    · exact .inr (hcomplete (.inr hdone))
  · cases intrinsic <;> exact h.instances
  · cases intrinsic <;> exact h.nominals

/-- A request keeps the tables consistent if the requests that it makes do, and the check of a
conversion does not fail. -/
theorem ensureFunctionInstance_consistent (hstart : Consistent opening building tables)
    (hvalidation : request.key ∉ tables.functionInstanceNames →
      program.functionRefusals request tables = [] →
      Consistent opening building (validation tables))
    (hentered : ∀ entered, request.key ∉ tables.functionInstanceNames →
      program.enterFunction request validation tables = .ok entered →
      Consistent (insert request.key opening) building entered →
      Consistent (insert request.key opening) building (tail (head entered)) ∧
        ∃ intrinsic, program.conversionIntrinsic request (head entered) = .ok intrinsic) :
    Consistent opening building
      (program.ensureFunctionInstance request validation head tail tables).2 := by
  rw [Program.ensureFunctionInstance]
  split
  · exact hstart
  · next hlookup =>
      have hnew := AList.lookup_eq_none.mp hlookup
      split
      · next refused hrefused =>
          rcases enterFunction_error hrefused with ⟨-, rfl⟩ | ⟨hnil, ⟨-, rfl⟩ | ⟨_, _, _, -, -, rfl⟩⟩
          · exact hstart.report _
          · exact (hvalidation hnew hnil).report _
          · exact ((hvalidation hnew hnil).report _).report _
      · next entered hok =>
          obtain ⟨htail, intrinsic, hintrinsic⟩ :=
            hentered entered hnew hok (enterFunction_ok hok (hvalidation hnew))
          rw [hintrinsic]
          exact completeFunction_consistent htail

end Function

section Nominal

variable {request : NominalRequest} {build extend : Tables → Tables}

theorem enterNominal_consistent (h : Consistent opening building tables) :
    Consistent opening (insert request.key building) (program.enterNominal request tables) := by
  refine ⟨h.functions, h.instances, fun key canonical hlookup => ?_⟩
  rcases lookup_insert_eq_some hlookup with ⟨rfl, rfl⟩ | ⟨hne, hlookup⟩
  · exact ⟨(AList.mem_insert _).mpr (.inl rfl), .inl (Set.mem_insert _ _)⟩
  · obtain ⟨hlayout, hready⟩ := h.nominals key canonical hlookup
    exact ⟨(AList.mem_insert _).mpr (.inr hlayout), hready.imp (Set.mem_insert_of_mem _)
      (AList.lookup_insert_ne hne).trans⟩

theorem setReady_consistent {key : NominalInstanceKey} {others : Set NominalInstanceKey}
    (h : Consistent opening others tables)
    (hothers : ∀ other ∈ others, other = key ∨ other ∈ building) :
    Consistent opening building (Program.setReady key tables) := by
  refine ⟨h.functions, h.instances, fun other canonical hlookup => ?_⟩
  obtain ⟨hlayout, hready⟩ := h.nominals other canonical hlookup
  refine ⟨hlayout, ?_⟩
  by_cases hsame : other = key
  · subst hsame
    exact .inr (AList.lookup_insert _)
  · exact hready.imp (fun hmem => (hothers other hmem).resolve_left hsame)
      (AList.lookup_insert_ne hsame).trans

theorem buildLayout_consistent (h : Consistent opening building tables) :
    Consistent opening building (Program.buildLayout request tables) := by
  have hlaid (layout : List VariantLayout) : Consistent opening building { tables with
      layouts := tables.layouts.insert
        (request.key.kind, nominalInstanceName request.key) layout } :=
    ⟨h.functions, h.instances, fun key canonical hlookup =>
      (h.nominals key canonical hlookup).imp_left fun hlayout =>
        (AList.mem_insert _).mpr (.inr hlayout)⟩
  rw [Program.buildLayout]
  split
  · exact setReady_consistent (hlaid _) fun other hother => .inr hother
  · exact hlaid _

theorem ensureNominalInstance_consistent (hstart : Consistent opening building tables)
    (hknown : ∀ canonical, program.nominalEntry request tables = .ok (some canonical) →
      Consistent opening building (extend tables))
    (hnew : program.nominalEntry request tables = .ok none →
      Consistent opening (insert request.key building)
        (build (program.enterNominal request tables)))
    (hextend : ∀ ready, program.nominalEntry request tables = .ok none →
      ready = Program.setReady request.key (Program.buildLayout request
        (build (program.enterNominal request tables))) →
      Consistent opening building ready → Consistent opening building (extend ready)) :
    Consistent opening building
      (program.ensureNominalInstance request build extend tables).2 := by
  rw [Program.ensureNominalInstance]
  split
  · exact ⟨hstart.functions, hstart.instances, hstart.nominals⟩
  · next canonical hentry => exact hknown canonical hentry
  · next hentry =>
      have hbuilt : Consistent opening (insert request.key building)
          (Program.buildLayout request (build (program.enterNominal request tables))) :=
        buildLayout_consistent (hnew hentry)
      have hready := setReady_consistent hbuilt fun other hother => Set.mem_insert_iff.mp hother
      dsimp only
      split_ifs
      · exact hextend _ hentry rfl hready
      · exact hready

end Nominal

/-- The requests of a run leave the tables consistent, whatever is being entered meanwhile. -/
theorem Work.run_consistent (work : Work) (hfits : work.Fits program tables)
    (hstart : Consistent opening building tables) :
    Consistent opening building (work.run program tables) := by
  induction work generalizing opening building tables with
  | done => exact hstart
  | report messages rest ih => exact ih hfits (hstart.report messages)
  | function request validation head tail rest ihvalidation ihhead ihtail ihrest =>
    obtain ⟨hreached, hrest⟩ := hfits
    refine ihrest hrest (ensureFunctionInstance_consistent hstart
      (fun hnew hnil => ihvalidation ((hreached hnew).1 hnil) hstart) fun entered hnew hok h => ?_)
    obtain ⟨hhead, htail, hconverted⟩ := (hreached hnew).2 entered hok
    exact ⟨ihtail htail (ihhead hhead h), hconverted⟩
  | nominal request build extend rest ihbuild ihextend ihrest =>
    obtain ⟨hknown, hnew, hrest⟩ := hfits
    exact ihrest hrest (ensureNominalInstance_consistent hstart
      (fun canonical hentry => ihextend (hknown canonical hentry) hstart)
      (fun hentry => ihbuild (hnew hentry).1 (enterNominal_consistent hstart))
      fun ready hentry hready => ihextend (hready ▸ (hnew hentry).2))

/-! ## Refused requests -/

section Refused

variable {request : FunctionRequest} {validation : Tables → Tables} {refused : Tables}

/-- Each where predicate names a trait, as the check of the templates demands. -/
def NamesTraits (program : Program) (request : FunctionRequest) : Prop :=
  ∀ predicate ∈ (program.function request).wherePredicates,
    ∃ name arguments, predicate.traitRef = .named name arguments

theorem reports_of_invalid (hnamed : NamesTraits program request)
    (h : (program.validateConcreteWherePredicates request).1 = false) :
    (program.validateConcreteWherePredicates request).2 ≠ [] := by
  obtain ⟨⟨predicate, i⟩, hmem, hverdict⟩ := all_eq_false.mp h
  obtain ⟨name, arguments, htrait⟩ := hnamed predicate (fst_mem_of_mem_zipIdx hmem)
  intro hnil
  have hnone := flatMap_eq_nil_iff.mp hnil _ hmem
  dsimp only at hverdict hnone
  cases hverdicts : request.verdict i with
  | overBudget => rw [hverdicts] at hnone; cases hnone
  | proven => rw [hverdicts] at hverdict; exact hverdict rfl
  | unproven => rw [hverdicts, Program.predicateReport, htrait] at hnone; cases hnone

/-- A refused request is refused again with a diagnostic, if it is not in the tables. -/
theorem enterFunction_again (hsettled : Settled refused) (hnamed : NamesTraits program request)
    (h : program.enterFunction request validation tables = .error refused)
    (hunknown : request.key ∉ refused.functionInstanceNames) :
    ∃ earlier messages, messages ≠ [] ∧ program.enterFunction request validation refused =
        .error (Tables.report earlier messages) := by
  by_cases hrefused : program.functionRefusals request refused = []
  · rw [Program.enterFunction, if_neg (not_not.mpr hrefused)]
    rcases enterFunction_error h with ⟨hne, rfl⟩ | ⟨-, ⟨hvalid, -⟩ | ⟨existing, _, _, hlookup, -, rfl⟩⟩
    · exact absurd hrefused hne
    · exact ⟨_, _, reports_of_invalid hnamed hvalid, if_pos (Bool.not_eq_true _ ▸ hvalid)⟩
    · obtain ⟨hname, hknown⟩ := hsettled.instances _ existing hlookup
      exact absurd (functionInstanceName_injective hname ▸ hknown) hunknown
  · exact ⟨_, _, hrefused, if_pos hrefused⟩

end Refused

/-- The method `checked_into` of `i32`, and a function with a type parameter. -/
def numericProgram : Program where
  functionTemplates template :=
    { name := template
      builtin := template == "i32::method::checked_into"
      compileGroups := [[⟨"output", .type, none⟩]]
      groups := [[⟨.copy, none, [], none, "self", .integer .i32⟩], []]
      returnType := some (.named "core::option::option" [.named "output" []])
      effects := FunctionEffects.pure
      wherePredicates := [] }
  integerConversionTemplates template :=
    if template = "i32::method::checked_into" then some (.integer .i32) else none
  nominalParameters _ _ := [⟨"t", .type, none⟩]
  nominalAccesses _ := true
  substituteFunctionTypes substitutions function :=
    { function with
      returnType := some (.named "core::option::option" (substitutions.map (·.2))) }
  growingRecursiveInstance _ _ := false
  diagnosticFunctionName name := name
  sourceEffectIdentity _ := "output"

def noInstances : Tables where
  functionInstanceNames := ∅
  functionInstances := ∅
  functionTypeSubstitutions := ∅
  signatures := ∅
  functions := ∅
  functionOrder := []
  integerConversionIntrinsics := ∅
  nominalInstanceNames := ∅
  nominalInstances := ∅
  nominalInstanceStates := ∅
  invalidRecursiveNominals := []
  layouts := ∅
  suppressGenericInherentInstantiation := 0
  diagnostics := []

theorem noInstances_settled : Settled noInstances where
  functions _ _ hlookup := by cases hlookup
  instances _ _ hlookup := by cases hlookup
  nominals _ _ hlookup := by cases hlookup

def optionOfBool : NominalRequest where
  key := ⟨.enum, "core::option::option", [.bool]⟩
  sourceArguments := [.bool]
  layout := [⟨"some", [("0", .bool)]⟩, ⟨"none", []⟩]

def instanceAtBool (template : String) : FunctionRequest where
  key := ⟨template, [.bool]⟩
  sourceArguments := [.bool]
  verdict _ := .proven
  signature :=
    { groups := [[("self", .integer .i32, .copy)], []], unsafety := false, failureError := none
      customEffects := [], result := some (.enum (nominalInstanceName optionOfBool.key)) }
  outputType := .bool

def loweredOption : Work := .nominal optionOfBool .done .done .done

/-- `checked_into(output: bool)`. -/
def checkedIntoBool : Tables → Option String × Tables :=
  Work.answer numericProgram (instanceAtBool "i32::method::checked_into") .done loweredOption .done

/-- An option, and then a function at `bool` whose result is that option. -/
def optionThenFunction : Work :=
  .nominal optionOfBool .done .done <|
    .function (instanceAtBool "wrap") .done loweredOption .done .done

end Salicin.Codegen.Names.Instantiation
