import Mathlib.Data.String.Basic
import Salicin.Caching.Publication
import Salicin.Foundation.ComparisonSort
import Salicin.Foundation.StatefulResults
import Salicin.Foundation.SortedTable

/-!
# Fingerprints of package graphs

`fingerprint_package_graph` of `incremental.rs`: what is fed to the hash of a graph of packages,
and where the cache keeps what is compiled from it.
-/

namespace Salicin.Incremental

open ComparisonSort

/-! ## What is fingerprinted -/

/-- The bound of a `usize`. -/
def usizeLimit : Nat := 2 ^ 64

/-- A `String`: its length in bytes is a `usize`. Texts are in the order of their bytes, which is
that of their characters. -/
abbrev Str := {text : String // text.utf8ByteSize < usizeLimit}

/-- A `Vec`: its length is a `usize`. -/
abbrev Vec (Item : Type) := {items : List Item // items.length < usizeLimit}

abbrev PackageId := Fin usizeLimit

/-- A `BTreeMap`: the number of its entries is a `usize`. -/
abbrev Table (Value : Type) := {table : SortedTable Str Value // table.entries.length < usizeLimit}

def Str.bytes (text : Str) : List UInt8 := TextBytes.encode text.1

structure SourceUnit where
  /-- User-facing source path used in diagnostics. -/
  path : Str
  modulePath : Vec Str
  source : Str
  isRoot : Bool

structure SourcePackage where
  id : PackageId
  name : Str
  version : Str
  identity : Str
  isPrimary : Bool
  dependencies : Table PackageId
  sources : Vec SourceUnit

inductive IncrementalTarget where
  | binary
  | library
  | test (filter : Option Str)

structure FingerprintEnvironment where
  inputSchema : UInt32
  compiler : Str
  hostOs : Str
  hostArch : Str
  edition : Str
  core : Vec (Str × Str)
  alloc : Vec (Str × Str)
  standard : Vec (Str × Str)

inductive FingerprintError where
  | rejected (message : String)
  /-- The panic of an `expect`. -/
  | expected (message : String)
deriving DecidableEq

/-! ## Validation -/

def primaryCount (pkgs : List SourcePackage) : Nat := (pkgs.filter (·.isPrimary)).length

def requireKnown (ids : List PackageId) (package : SourcePackage) : Except FingerprintError Unit :=
  package.dependencies.1.entries.forM fun dependency =>
    if dependency.2 ∈ ids then .ok ()
    else .error (.rejected ("incremental input package `" ++ package.identity.1 ++
      "` refers to missing package ID " ++ toString dependency.2.val))

def validateGraph (pkgs : List SourcePackage) : Except FingerprintError Unit := do
  if primaryCount pkgs ≠ 1 then
    throw (.rejected "incremental input requires exactly one primary package")
  let ids := (pkgs.map (·.id)).dedup
  if ids.length ≠ pkgs.length then
    throw (.rejected "incremental input contains duplicate package IDs")
  let identities := (pkgs.map (·.identity)).dedup
  if identities.length ≠ pkgs.length then
    throw (.rejected "incremental input contains duplicate provider identities")
  pkgs.forM (requireKnown ids)

/-! ## The encoder -/

/-- What an encoder does to the bytes that were fed to the hash. -/
abbrev FingerprintEncoder := Emission.Writer UInt8 FingerprintError

def update (bytes : List UInt8) : FingerprintEncoder Unit := modify (· ++ bytes)

def field (bytes : List UInt8) : FingerprintEncoder Unit := do
  update (LittleEndian.store 8 bytes.length)
  update bytes

def u32 (val : UInt32) : FingerprintEncoder Unit := update (LittleEndian.store 4 val.toNat)

def usize (val : Nat) : FingerprintEncoder Unit := update (LittleEndian.store 8 val)

def boolean (val : Bool) : FingerprintEncoder Unit := update [if val then 1 else 0]

/-- The bytes of a text of the compiler. -/
def literal (text : String) : List UInt8 := TextBytes.encode text

def encodeTarget : IncrementalTarget → FingerprintEncoder Unit
  | .binary => field (literal "binary")
  | .library => field (literal "library")
  | .test filter => do
    field (literal "test")
    boolean filter.isSome
    filter.forM fun filter => field filter.bytes

def encodeSourceBundle (name : String) (sources : Vec (Str × Str)) :
    FingerprintEncoder Unit := do
  field (literal name)
  usize sources.1.length
  sources.1.forM fun entry => do
    field entry.1.bytes
    field entry.2.bytes

def compareSources (left right : SourceUnit) : Ordering :=
  (byKey (·.modulePath.1) left right).then
    ((byKey (·.isRoot) left right).then (byKey (·.source) left right))

def encodeSource (source : SourceUnit) : FingerprintEncoder Unit := do
  boolean source.isRoot
  usize source.modulePath.1.length
  source.modulePath.1.forM fun segment => field segment.bytes
  field source.source.bytes

/-- The identity of the package with a number, of the last one that is listed. -/
def identitiesOf (pkgs : List SourcePackage) : SortedTable PackageId Str :=
  SortedTable.ofEntries (pkgs.map fun package => (package.id, package.identity))

def dependencyIdentity (identities : SortedTable PackageId Str)
    (dependency : Str × PackageId) : Except FingerprintError (Str × Str) :=
  match identities.lookup dependency.2 with
  | some identity => .ok (dependency.1, identity)
  | none => .error (.expected "validated dependency target must have an identity")

def encodePackage (identities : SortedTable PackageId Str) (package : SourcePackage) :
    FingerprintEncoder Unit := do
  field package.identity.bytes
  field package.name.bytes
  field package.version.bytes
  boolean package.isPrimary
  let collected : List (Str × Str) ←
    (package.dependencies.1.entries.mapM (dependencyIdentity identities) : Except _ _)
  let dependencies := (SortedTable.ofEntries collected).entries
  usize dependencies.length
  dependencies.forM fun dependency => do
    field dependency.1.bytes
    field dependency.2.bytes
  let sources := sortBy compareSources package.sources.1
  usize sources.length
  sources.forM encodeSource

def encodeInput (pkgs : Vec SourcePackage) (target : IncrementalTarget)
    (env : FingerprintEnvironment) : FingerprintEncoder Unit := do
  validateGraph pkgs.1
  let identities := identitiesOf pkgs.1
  let ordered := sortBy (byKey (·.identity)) pkgs.1
  field (literal "salicin.incremental-input")
  u32 env.inputSchema
  field env.compiler.bytes
  field env.hostOs.bytes
  field env.hostArch.bytes
  encodeTarget target
  field env.edition.bytes
  encodeSourceBundle "core" env.core
  encodeSourceBundle "alloc" env.alloc
  encodeSourceBundle "std" env.standard
  usize ordered.length
  ordered.forM (encodePackage identities)

/-- The bytes that are fed to the hash. -/
def fingerprintInput (pkgs : Vec SourcePackage) (target : IncrementalTarget)
    (env : FingerprintEnvironment) : Except FingerprintError (List UInt8) :=
  ((encodeInput pkgs target env).run []).map Prod.snd

/-! ## Fingerprints -/

abbrev IncrementalFingerprint := {bytes : List UInt8 // bytes.length = 32}

section
variable (sha256 : List UInt8 → IncrementalFingerprint)

def fingerprintPackageGraphWithEnvironment (pkgs : Vec SourcePackage)
    (target : IncrementalTarget) (env : FingerprintEnvironment) :
    Except FingerprintError IncrementalFingerprint :=
  (fingerprintInput pkgs target env).map sha256

end

def hexDigit (val : Nat) : Char := if val < 10 then Char.ofNat (48 + val) else Char.ofNat (87 + val)

def toHex (fingerprint : IncrementalFingerprint) : List Char :=
  fingerprint.1.flatMap fun byte => [hexDigit (byte.toNat / 16), hexDigit (byte.toNat % 16)]

/-- The components of the path. -/
def cacheEntryRelativePath (fingerprint : IncrementalFingerprint) : List String :=
  let hex := toHex fingerprint
  ["llvm-ir", "v" ++ toString Caching.cacheArtifactSchemaVersion, "sha256",
    String.ofList (hex.take 2), String.ofList (hex.drop 2)]

end Salicin.Incremental
