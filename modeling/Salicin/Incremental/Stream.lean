import Salicin.Foundation.FallibleLists
import Salicin.Foundation.LengthPrefixed
import Salicin.Incremental.Fingerprint

/-!
# The bytes of a fingerprint

What is read of a graph of packages for its fingerprint, as one value, and how this value is
written. Every part of it is framed, so that the value is found again in the bytes.
-/

namespace Salicin.Incremental

open List ComparisonSort Emission SelfDelimiting LittleEndian

/-! ## What is read of the packages -/

abbrev SourceText := Bool × Vec Str × Str

def sourceText (source : SourceUnit) : SourceText :=
  (source.isRoot, source.modulePath, source.source)

abbrev PackageText := Str × Str × Str × Bool × Vec (Str × Str) × Vec SourceText

/-- The aliases of a package, with what they name. -/
def dependencyTexts (identityOf : PackageId → Str) (deps : Table PackageId) : Vec (Str × Str) :=
  ⟨(deps.1.mapValues identityOf).entries, (length_map _).trans_lt deps.2⟩

theorem length_sourceTexts (srcs : Vec SourceUnit) :
    ((sortBy compareSources srcs.1).map sourceText).length < usizeLimit := by
  rw [length_map, length_sortBy]
  exact srcs.2

def sourceTexts (sources : Vec SourceUnit) : Vec SourceText :=
  ⟨(sortBy compareSources sources.1).map sourceText, length_sourceTexts sources⟩

def packageText (identityOf : PackageId → Str) (pkg : SourcePackage) : PackageText :=
  (pkg.identity, pkg.name, pkg.version, pkg.isPrimary,
    dependencyTexts identityOf pkg.dependencies, sourceTexts pkg.sources)

theorem length_packageTexts (identityOf : PackageId → Str) (pkgs : Vec SourcePackage) :
    ((sortBy (byKey (·.identity)) pkgs.1).map (packageText identityOf)).length <
      usizeLimit := by
  rw [length_map, length_sortBy]
  exact pkgs.2

def packageTexts (identityOf : PackageId → Str) (pkgs : Vec SourcePackage) : Vec PackageText :=
  ⟨(sortBy (byKey (·.identity)) pkgs.1).map (packageText identityOf),
    length_packageTexts identityOf pkgs⟩

/-! ## How it is written -/

def writeLiteral (text : String) : List UInt8 := store 8 (literal text).length ++ literal text

def writeText (text : Str) : List UInt8 := store 8 text.bytes.length ++ text.bytes

def writeFlag (value : Bool) : List UInt8 := [if value then 1 else 0]

def writeVec {Item : Type} (write : Item → List UInt8) (items : Vec Item) : List UInt8 :=
  store 8 items.1.length ++ items.1.flatMap write

def writePair (entry : Str × Str) : List UInt8 := writeText entry.1 ++ writeText entry.2

def writeSource (source : SourceText) : List UInt8 :=
  writeFlag source.1 ++ (writeVec writeText source.2.1 ++ writeText source.2.2)

def writePackage (pkg : PackageText) : List UInt8 :=
  writeText pkg.1 ++ (writeText pkg.2.1 ++ (writeText pkg.2.2.1 ++
    (writeFlag pkg.2.2.2.1 ++ (writeVec writePair pkg.2.2.2.2.1 ++
      writeVec writeSource pkg.2.2.2.2.2))))

def writeTarget : IncrementalTarget → List UInt8
  | .binary => writeLiteral "binary"
  | .library => writeLiteral "library"
  | .test none => writeLiteral "test" ++ writeFlag false
  | .test (some filter) => writeLiteral "test" ++ (writeFlag true ++ writeText filter)

def writeBundle (name : String) (sources : Vec (Str × Str)) : List UInt8 :=
  writeLiteral name ++ writeVec writePair sources

def writeSchema (schema : UInt32) : List UInt8 := store 4 schema.toNat

abbrev EnvironmentText := UInt32 × Str × Str × Str × IncrementalTarget × Str × Vec (Str × Str) ×
  Vec (Str × Str) × Vec (Str × Str)

def environmentText (target : IncrementalTarget) (environment : FingerprintEnvironment) :
    EnvironmentText :=
  (environment.inputSchema, environment.compiler, environment.hostOs, environment.hostArch, target,
    environment.edition, environment.core, environment.alloc, environment.standard)

def writeEnvironment (text : EnvironmentText) : List UInt8 :=
  writeSchema text.1 ++ (writeText text.2.1 ++ (writeText text.2.2.1 ++ (writeText text.2.2.2.1 ++
    (writeTarget text.2.2.2.2.1 ++ (writeText text.2.2.2.2.2.1 ++
      (writeBundle "core" text.2.2.2.2.2.2.1 ++ (writeBundle "alloc" text.2.2.2.2.2.2.2.1 ++
        writeBundle "std" text.2.2.2.2.2.2.2.2)))))))

def writeInput (text : EnvironmentText × Vec PackageText) : List UInt8 :=
  writeLiteral "salicin.incremental-input" ++
    (writeEnvironment text.1 ++ writeVec writePackage text.2)

/-! ## What the encoder emits -/

theorem field_emits (bytes : List UInt8) : Emits (field bytes) (store 8 bytes.length ++ bytes) :=
  (emits_append _).seq (emits_append _)

theorem text_emits (text : Str) : Emits (field text.bytes) (writeText text) :=
  field_emits text.bytes

theorem literal_emits (text : String) : Emits (field (literal text)) (writeLiteral text) :=
  field_emits (literal text)

theorem boolean_emits (val : Bool) : Emits (boolean val) (writeFlag val) := emits_append _

theorem usize_emits (val : Nat) : Emits (usize val) (store 8 val) := emits_append _

theorem pair_emits (entry : Str × Str) :
    Emits (do
      field entry.1.bytes
      field entry.2.bytes) (writePair entry) :=
  (text_emits entry.1).seq (text_emits entry.2)

theorem vec_emits {Item : Type} {step : Item → FingerprintEncoder Unit} {write : Item → List UInt8}
    (items : Vec Item) (hstep : ∀ item ∈ items.1, Emits (step item) (write item)) :
    Emits (do
      usize items.1.length
      items.1.forM step) (writeVec write items) :=
  (usize_emits _).seq (Emits.forM hstep)

theorem encodeTarget_emits (target : IncrementalTarget) :
    Emits (encodeTarget target) (writeTarget target) := by
  cases target with
  | binary => exact literal_emits "binary"
  | library => exact literal_emits "library"
  | test filter =>
    cases filter with
    | none =>
      have hfilter : Emits (boolean false >>= fun _ => pure ()) (writeFlag false ++ []) :=
        (boolean_emits false).seq emits_pure
      have hemits : Emits (field (literal "test") >>= fun _ => boolean false >>= pure) _ :=
        (literal_emits "test").seq hfilter
      rwa [append_nil] at hemits
    | some filter =>
      exact (literal_emits "test").seq ((boolean_emits true).seq (text_emits filter))

theorem encodeSourceBundle_emits (name : String) (srcs : Vec (Str × Str)) :
    Emits (encodeSourceBundle name srcs) (writeBundle name srcs) :=
  (literal_emits name).seq (vec_emits srcs fun entry _ => pair_emits entry)

theorem encodeSource_emits (source : SourceUnit) :
    Emits (encodeSource source) (writeSource (sourceText source)) := by
  rw [writeSource, writeVec, append_assoc]
  apply Emits.seq (boolean_emits _)
  apply Emits.seq (usize_emits _)
  apply Emits.seq (Emits.forM fun seg _ => text_emits seg)
  exact text_emits source.source

theorem writeVec_sourceTexts (srcs : Vec SourceUnit) :
    writeVec writeSource (sourceTexts srcs) = store 8 (sortBy compareSources srcs.1).length ++
        (sortBy compareSources srcs.1).flatMap fun source =>
          writeSource (sourceText source) := by
  rw [writeVec, sourceTexts, length_map, flatMap_map]

variable {pkg : SourcePackage}

section
variable {identities : SortedTable PackageId Str} {identityOf : PackageId → Str}

theorem collected_eq {deps : Table PackageId}
    (hknown : ∀ dependency ∈ deps.1.entries,
      identities.lookup dependency.2 = some (identityOf dependency.2)) :
    deps.1.entries.mapM (dependencyIdentity identities) =
      .ok (dependencyTexts identityOf deps).1 := by
  rw [ExceptLists.mapM_eq_ok, dependencyTexts]
  apply forall₂_map_right_iff.mpr
  rw [forall₂_same]
  intro dependency hdep
  rw [dependencyIdentity, hknown dependency hdep]

theorem ofEntries_dependencyTexts (deps : Table PackageId) :
    (SortedTable.ofEntries (dependencyTexts identityOf deps).1).entries =
      (dependencyTexts identityOf deps).1 := by
  rw [dependencyTexts, SortedTable.ofEntries_entries]

theorem encodePackage_emits (hknown : ∀ dependency ∈ pkg.dependencies.1.entries,
      identities.lookup dependency.2 = some (identityOf dependency.2)) :
    Emits (encodePackage identities pkg) (writePackage (packageText identityOf pkg)) := by
  rw [writePackage, packageText, writeVec_sourceTexts, writeVec, append_assoc]
  apply Emits.seq (text_emits _)
  apply Emits.seq (text_emits _)
  apply Emits.seq (text_emits _)
  apply Emits.seq (boolean_emits _)
  apply Emits.lift (collected_eq hknown)
  rw [ofEntries_dependencyTexts]
  apply Emits.seq (usize_emits _)
  apply Emits.seq (Emits.forM fun entry _ => pair_emits entry)
  apply Emits.seq (usize_emits _)
  exact Emits.forM fun source _ => encodeSource_emits source

end

/-! ## Valid graphs -/

structure ValidGraph (pkgs : List SourcePackage) : Prop where
  onePrimary : primaryCount pkgs = 1
  ids : (pkgs.map (·.id)).Nodup
  identities : (pkgs.map (·.identity)).Nodup
  known : ∀ pkg ∈ pkgs, ∀ dependency ∈ pkg.dependencies.1.entries, dependency.2 ∈ pkgs.map (·.id)

theorem length_dedup_map {Key : Type} [DecidableEq Key] (key : SourcePackage → Key)
    (pkgs : List SourcePackage) :
    (pkgs.map key).dedup.length = pkgs.length ↔ (pkgs.map key).Nodup := by
  rw [← dedup_eq_self]
  constructor
  · intro hlen
    apply (dedup_sublist _).eq_of_length
    rw [hlen, length_map]
  · intro hdedup
    rw [hdedup, length_map]

theorem requireKnown_eq_ok {ids : List PackageId} :
    requireKnown ids pkg = .ok () ↔
      ∀ dependency ∈ pkg.dependencies.1.entries, dependency.2 ∈ ids := by
  rw [requireKnown, ExceptLists.forM_eq_ok]
  refine forall₂_congr fun dependency _ => ?_
  by_cases hmem : dependency.2 ∈ ids <;> simp [hmem]

variable {pkgs : List SourcePackage}

theorem validateGraph_eq_ok : validateGraph pkgs = .ok () ↔ ValidGraph pkgs := by
  rw [validateGraph]
  by_cases hprim : primaryCount pkgs = 1
  · rw [if_neg (not_not_intro hprim)]
    by_cases hids : (pkgs.map (·.id)).dedup.length = pkgs.length
    · by_cases hidents : (pkgs.map (·.identity)).dedup.length = pkgs.length
      · simp only [ne_eq, hids, hidents, not_true_eq_false, if_false]
        have hforM : (pkgs.forM (requireKnown (pkgs.map (·.id)).dedup) = .ok ()) ↔
            ∀ pkg ∈ pkgs, ∀ dependency ∈ pkg.dependencies.1.entries,
              dependency.2 ∈ pkgs.map (·.id) := by
          rw [ExceptLists.forM_eq_ok]
          refine forall₂_congr fun pkg _ => ?_
          simp only [requireKnown_eq_ok, mem_dedup]
        refine hforM.trans ⟨fun hknown => ?_, fun hvalid => hvalid.known⟩
        exact ⟨hprim, (length_dedup_map _ _).mp hids, (length_dedup_map _ _).mp hidents, hknown⟩
      · simp only [ne_eq, hids, hidents, not_true_eq_false, not_false_eq_true, if_false, if_true]
        refine ⟨fun herror => (nomatch herror), fun hvalid => ?_⟩
        exact absurd ((length_dedup_map _ _).mpr hvalid.identities) hidents
    · simp only [ne_eq, hids, not_false_eq_true, if_true]
      refine ⟨fun herror => (nomatch herror), fun hvalid => ?_⟩
      exact absurd ((length_dedup_map _ _).mpr hvalid.ids) hids
  · rw [if_pos hprim]
    refine ⟨fun herror => (nomatch herror), fun hvalid => ?_⟩
    exact absurd hvalid.onePrimary hprim

/-- The identity of the package with a number. -/
def identityOf (pkgs : List SourcePackage) (id : PackageId) : Str :=
  ((identitiesOf pkgs).lookup id).getD ⟨"", by decide⟩

theorem ValidGraph.lookup (hvalid : ValidGraph pkgs) (hpkg : pkg ∈ pkgs) :
    (identitiesOf pkgs).lookup pkg.id = some pkg.identity := by
  rw [identitiesOf, SortedTable.lookup_ofEntries]
  · exact mem_map.mpr ⟨pkg, hpkg, rfl⟩
  · rw [map_map]
    exact hvalid.ids

theorem ValidGraph.identityOf_eq (hvalid : ValidGraph pkgs) (hpkg : pkg ∈ pkgs) :
    identityOf pkgs pkg.id = pkg.identity := by
  rw [identityOf, hvalid.lookup hpkg, Option.getD_some]

theorem ValidGraph.lookup_dependency (hvalid : ValidGraph pkgs) (hpkg : pkg ∈ pkgs)
    {dependency : Str × PackageId} (hdep : dependency ∈ pkg.dependencies.1.entries) :
    (identitiesOf pkgs).lookup dependency.2 = some (identityOf pkgs dependency.2) := by
  obtain ⟨target, htgt, hid⟩ := mem_map.mp (hvalid.known pkg hpkg _ hdep)
  rw [← hid, hvalid.identityOf_eq htgt, hvalid.lookup htgt]

theorem encodeInput_emits {pkgs : Vec SourcePackage} (hvalid : ValidGraph pkgs.1)
    (target : IncrementalTarget) (env : FingerprintEnvironment) :
    Emits (encodeInput pkgs target env)
      (writeInput (environmentText target env,
        packageTexts (identityOf pkgs.1) pkgs)) := by
  simp only [writeInput, writeEnvironment, environmentText, packageTexts, writeVec,
    append_assoc, length_map, flatMap_map]
  apply Emits.lift (validateGraph_eq_ok.mpr hvalid)
  apply Emits.seq (literal_emits _)
  apply Emits.seq (emits_append _)
  apply Emits.seq (text_emits _)
  apply Emits.seq (text_emits _)
  apply Emits.seq (text_emits _)
  apply Emits.seq (encodeTarget_emits _)
  apply Emits.seq (text_emits _)
  apply Emits.seq (encodeSourceBundle_emits _ _)
  apply Emits.seq (encodeSourceBundle_emits _ _)
  apply Emits.seq (encodeSourceBundle_emits _ _)
  apply Emits.seq (usize_emits _)
  apply Emits.forM
  intro pkg hpkg
  apply encodePackage_emits
  intro dependency hdep
  exact hvalid.lookup_dependency (mem_sortBy.mp hpkg) hdep

theorem fingerprintInput_eq {pkgs : Vec SourcePackage} (hvalid : ValidGraph pkgs.1)
    (target : IncrementalTarget) (env : FingerprintEnvironment) :
    fingerprintInput pkgs target env = .ok (writeInput (environmentText target env,
        packageTexts (identityOf pkgs.1) pkgs)) := by
  rw [fingerprintInput, StateT.run, encodeInput_emits hvalid]
  rfl

end Salicin.Incremental
