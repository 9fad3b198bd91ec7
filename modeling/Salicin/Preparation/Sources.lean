import Salicin.Foundation.StatefulResults
import Salicin.Preparation.Manifests

/-!
# The source cache

The packages of a resolution are taken from the cache, or are put there from verified archives:
`materialize_provider` of `registry_project.rs` and the store of `registry_cache.rs`. One process
uses the cache. A source is looked up by the digest of its archive, and is taken if its metadata
and its manifest are those of the provider.
-/

namespace Salicin.Preparation

open Registry
open Locking (CanonicalPath LockedVersions Package)

/-! ## What stands in the cache -/

structure SourceMetadata where
  format : Nat
  registry : String
  snapshot : String
  name : String
  version : String
  archiveSha256 : String
  treeSha256 : String
  files : Nat
  directories : Nat
  totalBytes : Nat
deriving DecidableEq

/-- The bounds and the digest of a tree of files. -/
structure TreeSummary where
  digest : Sha256Digest
  files : Nat
  directories : Nat
  totalBytes : Nat

/-- What the manifest file of a tree says. -/
structure ManifestText (Version Req : Type) where
  package : Package Version
  lib : Bool
  dependencies : List (Dependency Version)
  registryDependencies : List (RegistryRequirement Req)

inductive SourceEntry (Tree : Type) where
  /-- A directory with a tree, and with the text of its metadata file if that can be read. -/
  | directory (metadata : Option String) (tree : Tree)
  | other

/-- The cache below its root, by the digests that its paths are made from. -/
structure Disk (Tree : Type) where
  archives : Sha256Digest → Option (List UInt8)
  sources : Sha256Digest → Option (SourceEntry Tree)

/-- The hash, the archives, the trees of files, and the formats of their texts. -/
structure SourceTools (Tree Version Req : Type) where
  sha256 : List UInt8 → Sha256Digest
  parseArchive : RegistryProviderIdentity Version → List UInt8 → Except String (Tree × TreeSummary)
  readTree : Tree → Except String TreeSummary
  readManifest : Tree → Except String (ManifestText Version Req)
  encodeMetadata : SourceMetadata → Except String String
  decodeMetadata : String → Except String SourceMetadata

def maxRegistryArchiveBytes : Nat := 64 * 1024 * 1024

def sourceMetadataFormat : Nat := 1

def maxPublicationAttempts : Nat := 16

/-! ## Validation -/

inductive ValidationFailure where
  | missing
  | corrupt (message : String)

inductive RegistrySourceLookup (Version Req : Type) where
  | hit (source : VerifiedRegistrySource Version Req)
  | missing
  | corrupt (message : String)

inductive RegistryMaterializeOutcome where
  | published
  | alreadyPresent

inductive RegistryAccessMode where
  | update
  | locked
  | frozen

/-- A local fixture has the archives at the paths that are recorded in its index, or the error of
reading them. -/
inductive RegistryEndpoint where
  | localFixture (files : String → Except String (List UInt8))
  | https (url : String)

inductive Failure where
  | error (message : String)
  /-- The panic of an `expect`. -/
  | panic (message : String)

section
variable {Tree Version Req : Type} [DecidableEq Version] [LockedVersions Version]
  [SemanticVersions Version Req] (tools : SourceTools Tree Version Req)
  (cacheRoot : CanonicalPath)

def validateProviderRelease (provider : RegistryProviderIdentity Version)
    (release : RegistryRelease Version Req) : Except String Unit :=
  if provider.version ≠ release.version ∨ provider.archiveSha256 ≠ release.archiveSha256 then
    .error ("selected provider `" ++ providerText provider ++
      "` does not match its registry release metadata")
  else .ok ()

def requirementEntry (Version : Type) [SemanticVersions Version Req]
    (dep : RegistryRequirement Req) : String × String × String × String :=
  (dep.aliasName, dep.package, dep.registry,
    SemanticVersions.requirementText Version dep.requirement)

/-- The manifest in a directory. -/
def loadManifest (root : CanonicalPath) (tree : Tree) :
    Except String (Manifest Version Req) := do
  let text ← tools.readManifest tree
  return {
    package := text.package
    lib := text.lib
    dependencies := text.dependencies
    registryDependencies := text.registryDependencies
    manifestPath := manifestPathIn root
    packageRoot := root }

def validateManifestIdentity (root : CanonicalPath) (tree : Tree)
    (provider : RegistryProviderIdentity Version) (release : RegistryRelease Version Req) :
    Except String (Manifest Version Req) := do
  let manifest ← match loadManifest tools root tree with
    | .ok manifest => .ok manifest
    | .error error =>
      .error
        ("registry package `" ++ providerText provider ++ "` has invalid manifest: " ++ error)
  if manifest.package.name ≠ provider.name ∨ manifest.package.version ≠ provider.version then
    throw ("registry package manifest identity `" ++ manifest.package.name ++ "@" ++
      LockedVersions.text manifest.package.version ++ "` does not match selected provider `" ++
      provider.name ++ "@" ++ LockedVersions.text provider.version ++ "`")
  if !manifest.lib then
    throw ("registry package `" ++ provider.name ++ "@" ++ LockedVersions.text provider.version ++
      "` does not provide a library target")
  if !manifest.dependencies.isEmpty then
    throw ("registry package `" ++ provider.name ++ "@" ++ LockedVersions.text provider.version ++
      "` may not contain local path dependencies")
  if manifest.registryDependencies.map (requirementEntry Version) ≠
      release.dependencies.map (requirementEntry Version) then
    throw ("registry package `" ++ provider.name ++ "@" ++ LockedVersions.text provider.version ++
      "` manifest dependencies do not match the immutable index release")
  return manifest

def SourceMetadata.new (provider : RegistryProviderIdentity Version) (tree : TreeSummary) :
    SourceMetadata where
  format := sourceMetadataFormat
  registry := provider.registry
  snapshot := provider.snapshot.text
  name := provider.name
  version := LockedVersions.text provider.version
  archiveSha256 := provider.archiveSha256.text
  treeSha256 := tree.digest.text
  files := tree.files
  directories := tree.directories
  totalBytes := tree.totalBytes

def validateTreeAndMetadata (tree : Tree) (provider : RegistryProviderIdentity Version)
    (release : RegistryRelease Version Req) (metadata : SourceMetadata) :
    Except String Unit := do
  validateProviderRelease provider release
  let expected : SourceMetadata := {
    format := sourceMetadataFormat
    registry := provider.registry
    snapshot := provider.snapshot.text
    name := provider.name
    version := LockedVersions.text provider.version
    archiveSha256 := provider.archiveSha256.text
    treeSha256 := metadata.treeSha256
    files := metadata.files
    directories := metadata.directories
    totalBytes := metadata.totalBytes }
  if metadata ≠ expected then
    throw "source cache metadata does not match the selected provider"
  let found ← tools.readTree tree
  if found.digest.text ≠ metadata.treeSha256 ∨ found.files ≠ metadata.files ∨
      found.directories ≠ metadata.directories ∨ found.totalBytes ≠ metadata.totalBytes then
    throw "source cache tree digest or bounds metadata does not match"

/-- The metadata of a published source, if its file is written canonically. -/
def readMetadata (text : Option String) : Except String SourceMetadata := do
  let text ← match text with
    | some text => .ok text
    | none => .error "source cache metadata cannot be read"
  let metadata ← tools.decodeMetadata text
  match tools.encodeMetadata metadata with
  | .ok canonical => if canonical = text then return metadata
  | .error _ => pure ()
  throw "source cache metadata is not canonical"

def validateDirectory (text : Option String) (tree : Tree)
    (provider : RegistryProviderIdentity Version) (release : RegistryRelease Version Req) :
    Except String (VerifiedRegistrySource Version Req) := do
  let metadata ← readMetadata tools text
  validateTreeAndMetadata tools tree provider release metadata
  let root := sourceCachePath cacheRoot provider.archiveSha256
  let manifest ← validateManifestIdentity tools root tree provider release
  return { provider := provider, root := root, manifest := manifest }

def validatePublishedSource (disk : Disk Tree) (provider : RegistryProviderIdentity Version)
    (release : RegistryRelease Version Req) :
    Except ValidationFailure (VerifiedRegistrySource Version Req) :=
  match disk.sources provider.archiveSha256 with
  | none => .error .missing
  | some .other => .error (.corrupt "source cache entry is not a real directory")
  | some (.directory text tree) =>
    match validateDirectory tools cacheRoot text tree provider release with
    | .ok source => .ok source
    | .error message => .error (.corrupt message)

def lookup (disk : Disk Tree) (provider : RegistryProviderIdentity Version)
    (release : RegistryRelease Version Req) : RegistrySourceLookup Version Req :=
  match validatePublishedSource tools cacheRoot disk provider release with
  | .ok source => .hit source
  | .error .missing => .missing
  | .error (.corrupt message) => .corrupt message

/-! ## Materialization -/

def Disk.withSource (disk : Disk Tree) (digest : Sha256Digest)
    (entry : Option (SourceEntry Tree)) : Disk Tree :=
  { disk with sources := Function.update disk.sources digest entry }

def Disk.withArchive (disk : Disk Tree) (digest : Sha256Digest) (bytes : List UInt8) : Disk Tree :=
  { disk with archives := Function.update disk.archives digest (some bytes) }

def archiveFileIsValid (disk : Disk Tree) (digest : Sha256Digest) : Bool :=
  (disk.archives digest).any fun bytes =>
    bytes.length ≤ maxRegistryArchiveBytes && tools.sha256 bytes = digest

/-- What a program of the cache does to the disk. -/
abbrev CacheAction (Tree Result : Type) := EStateM Failure (Disk Tree) Result

def failing {Result : Type} : Except String Result → CacheAction Tree Result
  | .ok result => pure result
  | .error message => throw (.error message)

def publishVerifiedArchive (provider : RegistryProviderIdentity Version) (bytes : List UInt8) :
    CacheAction Tree Unit := do
  if archiveFileIsValid tools (← get) provider.archiveSha256 then return
  modify (·.withArchive provider.archiveSha256 bytes)

/-- What was found corrupt is removed. -/
def detachInvalidSource (digest : Sha256Digest) :
    RegistrySourceLookup Version Req → CacheAction Tree Unit
  | .corrupt _ => modify (·.withSource digest none)
  | _ => pure ()

/-- The staged source is moved to its place, after what stands there and is not valid is removed.
The move fails where something stands in the place. -/
def publishSource (provider : RegistryProviderIdentity Version)
    (release : RegistryRelease Version Req) (staged : SourceEntry Tree) :
    Nat → CacheAction Tree
      (RegistryMaterializeOutcome × VerifiedRegistrySource Version Req)
  | 0 => throw (.error "registry source publication remained contended")
  | attempts + 1 => do
    match lookup tools cacheRoot (← get) provider release with
    | .hit source => return (.alreadyPresent, source)
    | found =>
      detachInvalidSource provider.archiveSha256 found
      if ((← get).sources provider.archiveSha256).isSome then
        publishSource provider release staged attempts
      else
        modify (·.withSource provider.archiveSha256 (some staged))
        match lookup tools cacheRoot (← get) provider release with
        | .hit source => return (.published, source)
        | .missing =>
          throw (.error "registry cache I/O failed: published registry source disappeared")
        | .corrupt message =>
          throw (.error ("published registry source did not revalidate: " ++ message))

def validateArchive (provider : RegistryProviderIdentity Version) (bytes : List UInt8) :
    Except String Unit :=
  if maxRegistryArchiveBytes < bytes.length then
    .error ("registry archive is " ++ toString bytes.length ++
      " bytes; maximum compressed size is " ++ toString maxRegistryArchiveBytes)
  else if tools.sha256 bytes ≠ provider.archiveSha256 then
    .error ("registry archive checksum mismatch: expected " ++ provider.archiveSha256.text ++
      ", found " ++ (tools.sha256 bytes).text)
  else .ok ()

def materialize (provider : RegistryProviderIdentity Version)
    (release : RegistryRelease Version Req) (bytes : List UInt8) :
    CacheAction Tree
      (RegistryMaterializeOutcome × VerifiedRegistrySource Version Req) := do
  failing (validateProviderRelease provider release)
  failing (validateArchive tools provider bytes)
  let (tree, summary) ← failing (tools.parseArchive provider bytes)
  match lookup tools cacheRoot (← get) provider release with
  | .hit source =>
    publishVerifiedArchive tools provider bytes
    return (.alreadyPresent, source)
  | _ =>
    -- The staged tree is validated as the published one will be, and its manifest is dropped.
    let _ ← failing (validateManifestIdentity tools
      (sourceCachePath cacheRoot provider.archiveSha256) tree provider release)
    let metadata := SourceMetadata.new provider summary
    let text ← failing (tools.encodeMetadata metadata)
    failing (validateTreeAndMetadata tools tree provider release metadata)
    publishVerifiedArchive tools provider bytes
    publishSource tools cacheRoot provider release (.directory (some text) tree)
      maxPublicationAttempts

/-! ## The packages of a resolution -/

def archivePath (provider : RegistryProviderIdentity Version) : String :=
  let version := LockedVersions.text provider.version
  "archives/" ++ provider.name ++ "/" ++ version ++ "/" ++ provider.name ++ "-" ++ version ++
    ".tar.gz"

def archiveCachePathText (digest : Sha256Digest) : String :=
  String.ofList (Locking.pathText (cacheRoot.components ++
    [.normal (osName "archives"), .normal (osName "sha256"),
      .normal (osName (digest.text ++ ".tar.gz"))]))

/-- The bytes of an archive, from the cache or from the endpoint of the registry. -/
def archiveBytes (endpoint : RegistryEndpoint) (provider : RegistryProviderIdentity Version)
    (mode : RegistryAccessMode) (cached : Option (List UInt8)) : Except String (List UInt8) :=
  let valid := cached.filter fun bytes => tools.sha256 bytes = provider.archiveSha256
  match valid, mode, endpoint with
  | some bytes, _, _ => .ok bytes
  | none, .frozen, _ =>
    .error ("frozen registry archive cache '" ++
      archiveCachePathText cacheRoot provider.archiveSha256 ++ "' is missing or corrupt")
  | none, _, .localFixture files => files (archivePath provider)
  | none, _, .https url =>
    .error ("registry network transport for `" ++ url ++
      "` is not standardized; use a local fixture or a populated cache")

def materializeProvider (endpoint : RegistryEndpoint)
    (release : RegistryRelease Version Req) (provider : RegistryProviderIdentity Version)
    (mode : RegistryAccessMode) :
    CacheAction Tree (VerifiedRegistrySource Version Req) := do
  match lookup tools cacheRoot (← get) provider release with
  | .hit source => return source
  | _ =>
    let bytes ← failing (archiveBytes tools cacheRoot endpoint provider mode
      ((← get).archives provider.archiveSha256))
    let (_, source) ← materialize tools cacheRoot provider release bytes
    return source

def releaseFor (snapshot : RegistrySnapshot Version Req)
    (provider : RegistryProviderIdentity Version) :
    Except String (RegistryRelease Version Req) :=
  let found := (snapshot.packages.find? (·.name = provider.name)).bind fun package =>
    package.releases.find? fun release =>
      release.version = provider.version ∧ release.archiveSha256 = provider.archiveSha256
  match found with
  | some release => .ok release
  | none =>
    .error ("selected provider `" ++ providerText provider ++ "` disappeared from snapshot " ++
      provider.snapshot.text)

def endpointFor (endpoints : SortedTable String RegistryEndpoint)
    (provider : RegistryProviderIdentity Version) : Except String RegistryEndpoint :=
  match endpoints.lookup provider.registry with
  | some endpoint => .ok endpoint
  | none =>
    .error ("registry `" ++ provider.registry ++
      "` required by the selected graph is not configured")

/-- The snapshot of a provider that was resolved. -/
def suppliedSnapshot (snapshots : SnapshotTable Version Req)
    (provider : RegistryProviderIdentity Version) :
    CacheAction Tree (RegistrySnapshot Version Req) :=
  match (snapshots.lookup provider.registry).filter (·.digest = provider.snapshot) with
  | some snapshot => pure snapshot
  | none => throw (.panic "resolved providers reference supplied snapshots")

abbrev SourceTable (Version Req : Type) :=
  RegistryProviderIdentity Version → Option (VerifiedRegistrySource Version Req)

def materializePackage (snapshots : SnapshotTable Version Req)
    (endpoints : SortedTable String RegistryEndpoint) (mode : RegistryAccessMode)
    (verified : SourceTable Version Req) (package : ResolvedRegistryPackage Version) :
    CacheAction Tree (SourceTable Version Req) := do
  let snapshot ← suppliedSnapshot snapshots package.provider
  let release ← failing (releaseFor snapshot package.provider)
  let endpoint ← failing (endpointFor endpoints package.provider)
  let source ← materializeProvider tools cacheRoot endpoint release package.provider mode
  return Function.update verified package.provider (some source)

def materializePackages (snapshots : SnapshotTable Version Req)
    (endpoints : SortedTable String RegistryEndpoint) (mode : RegistryAccessMode)
    (packages : List (ResolvedRegistryPackage Version)) :
    CacheAction Tree (SourceTable Version Req) :=
  packages.foldlM (materializePackage tools cacheRoot snapshots endpoints mode) fun _ => none

end

end Salicin.Preparation
