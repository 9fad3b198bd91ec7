import Salicin.Locking.Generation
import Salicin.Locking.Tables

/-!
# Parsing a lockfile

`parse_lockfile` has the TOML read into tables and checks each value. The reader of TOML is a
parameter.
-/

namespace Salicin.Locking

open Registry

/-! ## The checks -/

variable {Version : Type}

def parseLockedEdition (edition : String) : Except String Edition :=
  if edition = "2026" then .ok .edition2026
  else .error s!"unsupported locked edition `{edition}`"

def stripStart (start src : String) : Option String :=
  (start.toList.isPrefixOf? src.toList).map String.ofList

def validateLockedSource (src path : String) : Except String Unit :=
  if path = "" ∨ '\\' ∈ path.toList ∨ ':' ∈ path.toList ∨ isAbsolute (pathComponents path) ∨
      .rootDir ∈ pathComponents path then
    .error s!"locked package path `{path}` must be a portable relative path"
  else
    match (stripStart "workspace:" src).or (stripStart "path:" src) with
    | none => .error s!"unsupported locked package source `{src}`"
    | some expected =>
      if expected ≠ path then
        .error s!"locked source `{src}` does not match package path `{path}`"
      else .ok ()

section

variable [LockedVersions Version]

def parseLockedRegistrySnapshot (raw : RawLockedRegistrySnapshot) :
    Except String LockedRegistrySnapshot := do
  validateRegistryName raw.registry
  let checksum ← Sha256Digest.parse raw.checksum
  return { registry := raw.registry, checksum }

/-- Parse a version, with the error of the one who asks. -/
def parseVersion (context : String → String) (text : String) : Except String Version :=
  match LockedVersions.parse text with
  | .error error => .error (context error)
  | .ok version => .ok version

def parseLockedRegistryDependency (raw : RawLockedRegistryDependency) :
    Except String (LockedRegistryDependency Version) := do
  validateAlias raw.aliasName
  validateRegistryName raw.registry
  validatePackageName raw.name
  let version : Version ← parseVersion (fun error => s!"registry dependency `{raw.aliasName}` " ++
    s!"has invalid locked version `{raw.version}`: {error}") raw.version
  if !LockedVersions.buildIsEmpty version then
    .error (s!"registry dependency `{raw.aliasName}` locked version `{raw.version}` " ++
      "must not contain build metadata")
  else
    let snapshot ← Sha256Digest.parse raw.snapshot
    let checksum ← Sha256Digest.parse raw.checksum
    return { aliasName := raw.aliasName, registry := raw.registry, name := raw.name, version,
             snapshot, checksum }

def parseLockedRegistryPackage (raw : RawLockedRegistryPackage) :
    Except String (LockedRegistryPackage Version) := do
  validateRegistryName raw.registry
  validatePackageName raw.name
  let version : Version ← parseVersion (fun error => s!"registry package `{raw.name}` has invalid " ++
    s!"locked version `{raw.version}`: {error}") raw.version
  if !LockedVersions.buildIsEmpty version then
    .error (s!"registry package `{raw.name}` locked version `{raw.version}` " ++
      "must not contain build metadata")
  else
    let snapshot ← Sha256Digest.parse raw.snapshot
    let checksum ← Sha256Digest.parse raw.checksum
    let dependencies ← raw.dependencies.mapM parseLockedRegistryDependency
    return { registry := raw.registry, name := raw.name, version, snapshot, checksum, dependencies }

def parseLockedDependency (raw : RawLockedDependency) :
    Except String (LockedDependency Version) := do
  let version : Version ← parseVersion (fun error => s!"dependency `{raw.aliasName}` has invalid " ++
    s!"locked version `{raw.version}`: {error}") raw.version
  validateLockedSource raw.source raw.path
  return { aliasName := raw.aliasName, name := raw.name, version, source := raw.source,
           path := raw.path }

def parseLockedPackage (raw : RawLockedPackage) : Except String (LockedPackage Version) := do
  let version : Version ← parseVersion (fun error => s!"package `{raw.name}` has invalid " ++
    s!"locked version `{raw.version}`: {error}") raw.version
  let edition ← parseLockedEdition raw.edition
  validateLockedSource raw.source raw.path
  let dependencies ← raw.dependencies.mapM parseLockedDependency
  let registryDependencies ← raw.registryDependencies.mapM parseLockedRegistryDependency
  return { name := raw.name, version, edition, source := raw.source, path := raw.path, dependencies,
           registryDependencies }

end

/-! ## The registry graph of a lockfile -/

def LockedRegistryPackage.provider (pkg : LockedRegistryPackage Version) :
    RegistryProviderIdentity Version where
  registry := pkg.registry
  snapshot := pkg.snapshot
  name := pkg.name
  version := pkg.version
  archiveSha256 := pkg.checksum

/-- `provider_from_edge`. -/
def LockedRegistryDependency.provider (edge : LockedRegistryDependency Version) :
    RegistryProviderIdentity Version where
  registry := edge.registry
  snapshot := edge.snapshot
  name := edge.name
  version := edge.version
  archiveSha256 := edge.checksum

/-- A table with these keys has fewer entries than there are keys. -/
def repeatsKey {Key : Type} [DecidableEq Key] (keys : List Key) : Bool :=
  keys.dedup.length ≠ keys.length

section

variable [LockedVersions Version] [DecidableEq Version]

def validateLockedRegistryEdge (providers : List (RegistryProviderIdentity Version))
    (dep : LockedRegistryDependency Version) : Except String Unit :=
  if dep.provider ∈ providers then .ok ()
  else .error (s!"registry dependency `{dep.aliasName}` references missing exact provider " ++
    s!"`{dep.registry}/{dep.name}@{LockedVersions.text dep.version}`")

def validateLockedRegistryPackage (snaps : List LockedRegistrySnapshot)
    (providers : List (RegistryProviderIdentity Version)) (pkg : LockedRegistryPackage Version) :
    Except String Unit :=
  if (snaps.find? (·.registry = pkg.registry)).map LockedRegistrySnapshot.checksum ≠
      some pkg.snapshot then
    .error (s!"registry package `{pkg.registry}/{pkg.name}` references an unknown " ++ "snapshot")
  else pkg.dependencies.forM (validateLockedRegistryEdge providers)

def validateRegistryLockGraph (lockfile : Lockfile Version) : Except String Unit :=
  let providers := lockfile.registryPackages.map LockedRegistryPackage.provider
  if repeatsKey (lockfile.registrySnapshots.map LockedRegistrySnapshot.registry) then
    .error "lockfile repeats a registry snapshot identity"
  else if repeatsKey providers then
    .error "lockfile repeats an exact registry provider identity"
  else if repeatsKey (lockfile.registryPackages.map fun pkg =>
      (pkg.registry, pkg.name)) then
    .error "lockfile selects more than one version of a registry package identity"
  else do
    lockfile.registryPackages.forM
      (validateLockedRegistryPackage lockfile.registrySnapshots providers)
    lockfile.packages.forM fun pkg =>
      pkg.registryDependencies.forM (validateLockedRegistryEdge providers)

/-- What `parse_lockfile` makes of the tables. -/
def checkLockfile (raw : RawLockfile) : Except String (Lockfile Version) :=
  if raw.format ≠ lockfileFormatVersion then
    .error s!"unsupported lockfile format {raw.format}; expected {lockfileFormatVersion}"
  else do
    let registrySnapshots ← raw.registrySnapshot.mapM parseLockedRegistrySnapshot
    let registryPackages ← raw.registryPackage.mapM parseLockedRegistryPackage
    let packages ← raw.package.mapM parseLockedPackage
    let lockfile := { format := raw.format, registrySnapshots, registryPackages, packages }
    validateRegistryLockGraph lockfile
    return lockfile

def parseLockfile (fromStr : String → Except String RawLockfile) (src : String) :
    Except String (Lockfile Version) :=
  match fromStr src with
  | .error error => .error s!"could not parse lockfile: {error}"
  | .ok raw => checkLockfile raw

end

end Salicin.Locking
