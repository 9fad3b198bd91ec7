import Salicin.Preparation.Sources

/-!
# Resolving from a lockfile

`resolution_from_lock` of `registry_project.rs`: without update mode the selected releases are those
of the lockfile. Each of its edges is checked against the manifests and the snapshots, and the
packages that it lists have to be those that the roots need.
-/

namespace Salicin.Preparation

open ComparisonSort Registry
open Locking (CanonicalPath Lockfile LockedRegistryDependency LockedRegistryPackage LockedVersions)

variable {Path Version Req : Type} [LockedVersions Version]

/-! ## The providers of a lockfile -/

def lockedProvider (pkg : LockedRegistryPackage Version) :
    RegistryProviderIdentity Version where
  registry := pkg.registry
  snapshot := pkg.snapshot
  name := pkg.name
  version := pkg.version
  archiveSha256 := pkg.checksum

def providerFromEdge (edge : LockedRegistryDependency Version) :
    RegistryProviderIdentity Version where
  registry := edge.registry
  snapshot := edge.snapshot
  name := edge.name
  version := edge.version
  archiveSha256 := edge.checksum

/-- The derived order of the identities. -/
def compareProviders (left right : RegistryProviderIdentity Version) : Ordering :=
  (compare left.registry right.registry)
    |>.then (compare left.snapshot.text right.snapshot.text)
    |>.then (compare left.name right.name)
    |>.then (LockedVersions.cmp left.version right.version)
    |>.then (compare left.archiveSha256.text right.archiveSha256.text)

variable [DecidableEq Version]

/-- The last package of each provider, in the order of the providers. -/
def lockedProviders (lock : Lockfile Version) : List (LockedRegistryPackage Version) :=
  sortBy (fun left right => compareProviders (lockedProvider left) (lockedProvider right))
    (lock.registryPackages.pwFilter fun left right => lockedProvider left ≠ lockedProvider right)

/-! ## The dependencies -/

section
variable [SemanticVersions Version Req]

/-- The provider that is recorded for a dependency, if it still is one that may be selected. -/
def replayDependency (providers : List (RegistryProviderIdentity Version))
    (missing outdated : String) (edges : List (LockedRegistryDependency Version))
    (request : RegistryRequirement Req) :
    Except String (ResolvedRegistryDependency Version) :=
  match edges.find? (·.aliasName = request.aliasName) with
  | none => .error missing
  | some edge =>
    let provider := providerFromEdge edge
    if provider.registry ≠ request.registry ∨ provider.name ≠ request.package ∨
        SemanticVersions.matchesVersion request.requirement provider.version = false ∨
        provider ∉ providers then
      .error outdated
    else .ok { aliasName := request.aliasName, provider := provider }

def replayRoot (providers : List (RegistryProviderIdentity Version))
    (edges : List (LockedRegistryDependency Version))
    (manifest : Locking.Manifest Path Version Req)
    (request : RegistryRequirement Req) :
    Except String (ResolvedRootRegistryDependency Path Version) := do
  let dependency ← replayDependency providers
    ("lockfile is missing registry dependency `" ++ request.aliasName ++ "`")
    ("locked provider for dependency `" ++ request.aliasName ++
      "` no longer satisfies the manifest") edges request
  return { ownerManifestPath := manifest.manifestPath, dependency := dependency }

/-- What is recorded for the dependencies of a local package. -/
def replayManifest (projectRoot : CanonicalPath) (lock : Lockfile Version)
    (providers : List (RegistryProviderIdentity Version))
    (manifest : Locking.Manifest Path Version Req) :
    Except String (List (ResolvedRootRegistryDependency Path Version)) := do
  let path := Locking.portableRelativePath projectRoot.components manifest.packageRoot.components
  let locked ← match lock.packages.find? fun pkg => pkg.name = manifest.package.name ∧
      pkg.version = manifest.package.version ∧ pkg.path = path with
    | some locked => .ok locked
    | none =>
      .error ("lockfile has no local package entry for `" ++ manifest.package.name ++ "@" ++
        LockedVersions.text manifest.package.version ++ "` at `" ++ path ++ "`")
  if locked.registryDependencies.length ≠ manifest.registryDependencies.length then
    throw ("lockfile registry dependencies for local package `" ++ manifest.package.name ++
      "` are out of date")
  manifest.registryDependencies.mapM (replayRoot providers locked.registryDependencies manifest)

/-- A package of the lockfile, with what is recorded for the dependencies of its release. -/
def replayPackage (snapshots : SnapshotTable Version Req)
    (providers : List (RegistryProviderIdentity Version)) (locked : LockedRegistryPackage Version) :
    Except String (ResolvedRegistryPackage Version) := do
  let provider := lockedProvider locked
  let snapshot ← match snapshots.lookup provider.registry with
    | some snapshot => .ok snapshot
    | none => .error ("locked registry `" ++ provider.registry ++ "` has no cached snapshot")
  if snapshot.digest ≠ provider.snapshot then
    throw ("locked provider `" ++ providerText provider ++ "` references the wrong snapshot")
  let release ← releaseFor snapshot provider
  if locked.dependencies.length ≠ release.dependencies.length then
    throw ("locked dependencies of `" ++ providerText provider ++ "` are out of date")
  let dependencies ← release.dependencies.mapM fun request => replayDependency providers
    ("lockfile is missing dependency `" ++ request.aliasName ++ "` of `" ++ provider.name ++ "`")
    ("locked dependency `" ++ request.aliasName ++ "` of `" ++ provider.name ++
      "` no longer satisfies the immutable snapshot") locked.dependencies request
  return { provider := provider, dependencies := dependencies }

end

/-! ## The closure -/

/-- The visited providers, or an error; it is `none` when the fuel is used up. -/
abbrev ClosureVisit (Version : Type) :=
  Option (Except String (List (RegistryProviderIdentity Version)))

def visitProviders
    (visit : RegistryProviderIdentity Version → List (RegistryProviderIdentity Version) →
      ClosureVisit Version) :
    List (RegistryProviderIdentity Version) → List (RegistryProviderIdentity Version) →
      ClosureVisit Version
  | [], visited => some (.ok visited)
  | provider :: rest, visited =>
    match visit provider visited with
    | some (.ok visited) => visitProviders visit rest visited
    | stopped => stopped

/-- The fuel bounds how many providers are being visited. -/
def visitProvider (packages : List (ResolvedRegistryPackage Version)) :
    Nat → List (RegistryProviderIdentity Version) → RegistryProviderIdentity Version →
      List (RegistryProviderIdentity Version) → ClosureVisit Version
  | 0, _, _, _ => none
  | fuel + 1, visiting, provider, visited =>
    if provider ∈ visited then some (.ok visited)
    else if provider ∈ visiting then
      some (.error
        ("locked registry dependency cycle includes `" ++ providerText provider ++ "`"))
    else
      match packageOf packages provider with
      | none =>
        some (.error
          ("locked graph references missing provider `" ++ providerText provider ++ "`"))
      | some pkg =>
        match visitProviders (visitProvider packages fuel (provider :: visiting))
            (pkg.dependencies.map (·.provider)) visited with
        | some (.ok visited) => some (.ok (provider :: visited))
        | stopped => stopped

def validateLockedClosure (roots : List (ResolvedRootRegistryDependency Path Version))
    (packages : List (ResolvedRegistryPackage Version)) : Option (Except String Unit) :=
  match visitProviders (visitProvider packages (packages.length + 1) [])
      (roots.map (·.dependency.provider)) [] with
  | none => none
  | some (.error error) => some (.error error)
  | some (.ok visited) =>
    if visited.length ≠ packages.length then
      some (.error "lockfile contains unreachable registry packages")
    else some (.ok ())

/-! ## The resolution -/

variable [SemanticVersions Version Req] [ManifestPaths Path]

/-- The roots and the packages that are recorded, in their orders. -/
def replayedParts (localGraph : Locking.DependencyGraph Path Version Req)
    (projectRoot : CanonicalPath) (lock : Lockfile Version)
    (snapshots : SnapshotTable Version Req) :
    Except String (List (ResolvedRootRegistryDependency Path Version) ×
      List (ResolvedRegistryPackage Version)) := do
  let locked := lockedProviders lock
  let providers := locked.map lockedProvider
  let roots ← localGraph.packages.mapM (replayManifest projectRoot lock providers)
  let packages ← locked.mapM (replayPackage snapshots providers)
  return (sortBy (fun left right =>
      (ManifestPaths.cmp left.ownerManifestPath right.ownerManifestPath)
        |>.then (compare left.dependency.aliasName right.dependency.aliasName)) roots.flatten,
    sortBy (fun left right => compareProviders left.provider right.provider) packages)

/-- It is `none` only if a visit does not end. -/
def resolutionFromLock (localGraph : Locking.DependencyGraph Path Version Req)
    (projectRoot : CanonicalPath) (lock : Lockfile Version)
    (snapshots : SnapshotTable Version Req) :
    Option (Except String (RegistryResolution Path Version)) :=
  match replayedParts localGraph projectRoot lock snapshots with
  | .error error => some (.error error)
  | .ok (roots, packages) =>
    match validateLockedClosure roots packages with
    | none => none
    | some (.error error) => some (.error error)
    | some (.ok ()) => some (.ok {
        snapshots := lock.registrySnapshots.map fun entry => (entry.registry, entry.checksum)
        packages := packages
        roots := roots })

end Salicin.Preparation
