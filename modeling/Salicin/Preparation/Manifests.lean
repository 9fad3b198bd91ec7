import Salicin.Foundation.ComparisonSort
import Salicin.Foundation.StackSearch
import Salicin.Locking.Generation

/-!
# Composing the graph of a project

`compose_graph` of `registry_project.rs`: the local packages of a project and the registry packages
that they reach become one graph. A registry package stands in the cache, at a path that is made
from the digest of its archive.
-/

namespace Salicin.Preparation

open List ComparisonSort Registry Locking.NamePart
open Locking (CanonicalPath OsName LockedVersions Package)

/-! ## Manifests -/

/-- A dependency on the package of a manifest. -/
structure Dependency (Version : Type) where
  aliasName : String
  path : CanonicalPath
  manifestPath : CanonicalPath
  package : Package Version

structure Manifest (Version Req : Type) where
  package : Package Version
  /-- Whether there is a library target. -/
  lib : Bool
  dependencies : List (Dependency Version)
  registryDependencies : List (RegistryRequirement Req)
  manifestPath : CanonicalPath
  packageRoot : CanonicalPath

structure DependencyGraph (Version Req : Type) where
  rootManifestPath : CanonicalPath
  packages : List (Manifest Version Req)

/-- A registry package that was found in the cache. -/
structure VerifiedRegistrySource (Version Req : Type) where
  provider : RegistryProviderIdentity Version
  root : CanonicalPath
  manifest : Manifest Version Req

/-! ## Paths of the cache -/

def osName (text : String) : OsName := text.toList.map .char

theorem osName_valid {text : String} (hne : text.toList ≠ []) (hseparator : '/' ∉ text.toList)
    (hdot : '.' ∉ text.toList ∨ ∃ character ∈ text.toList, character ≠ '.') :
    (osName text).Valid where
  nonempty := by
    rw [osName, ne_eq, map_eq_nil_iff]
    exact hne
  no_separator := by
    rw [osName, mem_map]
    rintro ⟨character, hmem, heq⟩
    cases heq
    exact hseparator hmem
  ne_current := by
    intro hname
    have htext : text.toList.map char = ['.'].map .char := hname
    rw [map_inj_right fun _ _ h => char.inj h] at htext
    simp [htext] at hdot
  ne_parent := by
    intro hname
    have htext : text.toList.map char = ['.', '.'].map .char := hname
    rw [map_inj_right fun _ _ h => char.inj h] at htext
    simp [htext] at hdot

theorem digest_valid (digest : Sha256Digest) : (osName digest.text).Valid := by
  have hplain : ∀ char ∈ digest.text.toList, char ≠ '/' ∧ char ≠ '.' := by
    intro char hmem
    have hdigit := digest.digits char hmem
    constructor
    · rintro rfl
      revert hdigit
      decide
    · rintro rfl
      revert hdigit
      decide
  apply osName_valid
  · intro hempty
    have hsize := digest.length_eq
    rw [String.toList_eq_nil_iff.mp hempty] at hsize
    exact absurd hsize (by decide)
  · exact fun hmem => (hplain _ hmem).1 rfl
  · exact .inl fun hmem => (hplain _ hmem).2 rfl

def sourceNames (root : CanonicalPath) (digest : Sha256Digest) : List OsName :=
  root.names ++ [osName "sources", osName "sha256", osName digest.text]

theorem sourceNames_valid (root : CanonicalPath) (digest : Sha256Digest) :
    ∀ name ∈ sourceNames root digest, name.Valid := by
  intro name hname
  obtain hroot | hrest := mem_append.mp hname
  · exact root.valid name hroot
  · simp only [mem_cons, not_mem_nil, or_false] at hrest
    obtain rfl | rfl | rfl := hrest
    · exact osName_valid (by decide) (by decide) (.inl (by decide))
    · exact osName_valid (by decide) (by decide) (.inl (by decide))
    · exact digest_valid digest

/-- The root is that of the cache, without symbolic links. -/
def sourceCachePath (root : CanonicalPath) (digest : Sha256Digest) : CanonicalPath :=
  ⟨sourceNames root digest, sourceNames_valid root digest⟩

def manifestFileName : String := "salicin.toml"

theorem manifestNames_valid (root : CanonicalPath) :
    ∀ name ∈ root.names ++ [osName manifestFileName], name.Valid := by
  intro name hname
  obtain hroot | hrest := mem_append.mp hname
  · exact root.valid name hroot
  · rw [mem_singleton.mp hrest]
    exact osName_valid (by decide) (by decide) (.inr ⟨'s', by decide, by decide⟩)

/-- The manifest of the package in a directory. -/
def manifestPathIn (root : CanonicalPath) : CanonicalPath :=
  ⟨root.names ++ [osName manifestFileName], manifestNames_valid root⟩

/-! ## The composed graph -/

section
variable {Version Req : Type} [DecidableEq Version] [LockedVersions Version]

def providerText (provider : RegistryProviderIdentity Version) : String :=
  provider.registry ++ "/" ++ provider.name ++ "@" ++ LockedVersions.text provider.version

/-- Add a dependency on the package of a provider. -/
def attachDependency
    (srcs : RegistryProviderIdentity Version → Option (VerifiedRegistrySource Version Req))
    (owner : Manifest Version Req) (dependency : ResolvedRegistryDependency Version) :
    Except String (Manifest Version Req) :=
  match srcs dependency.provider with
  | none =>
    .error ("registry dependency `" ++ dependency.aliasName ++
      "` references unavailable provider `" ++ providerText dependency.provider ++ "`")
  | some target =>
    .ok { owner with
      dependencies := sortBy (byKey (·.aliasName)) (owner.dependencies ++
        [{ aliasName := dependency.aliasName
           path := target.manifest.packageRoot
           manifestPath := target.manifest.manifestPath
           package := target.manifest.package }]) }

/-- Add the dependency of a root to the first manifest with the path of its owner, if there is
one. -/
def attachRoot
    (srcs : RegistryProviderIdentity Version → Option (VerifiedRegistrySource Version Req))
    (root : ResolvedRootRegistryDependency CanonicalPath Version) :
    List (Manifest Version Req) → Except String (List (Manifest Version Req))
  | [] => .ok []
  | manifest :: rest =>
    if manifest.manifestPath = root.ownerManifestPath then do
      let manifest ← attachDependency srcs manifest root.dependency
      return manifest :: rest
    else do
      let rest ← attachRoot srcs root rest
      return manifest :: rest

/-- The manifest of a registry package, with its dependencies. -/
def registryManifest
    (srcs : RegistryProviderIdentity Version → Option (VerifiedRegistrySource Version Req))
    (package : ResolvedRegistryPackage Version) : Except String (Manifest Version Req) :=
  match srcs package.provider with
  | none =>
    .error ("selected registry package `" ++ package.provider.name ++ "` was not materialized")
  | some source => package.dependencies.foldlM (attachDependency srcs) source.manifest

/-- The package of a provider, the last one that is listed. -/
def packageOf (packages : List (ResolvedRegistryPackage Version))
    (provider : RegistryProviderIdentity Version) : Option (ResolvedRegistryPackage Version) :=
  packages.reverse.find? fun package => package.provider = provider

def providerSuccessors (packages : List (ResolvedRegistryPackage Version))
    (provider : RegistryProviderIdentity Version) :
    Except String (List (RegistryProviderIdentity Version)) :=
  match packageOf packages provider with
  | some package => .ok (package.dependencies.map (·.provider))
  | none =>
    .error ("resolved graph references unavailable provider `" ++ providerText provider ++ "`")

/-- The providers of the roots that belong to the local packages. -/
def localProviders (localGraph : DependencyGraph Version Req)
    (resolution : RegistryResolution CanonicalPath Version) :
    List (RegistryProviderIdentity Version) :=
  (resolution.roots.filter fun root =>
      root.ownerManifestPath ∈ localGraph.packages.map (·.manifestPath)).map (·.dependency.provider)

/-- As many providers as may ever be pushed. -/
def searchBound (resolution : RegistryResolution CanonicalPath Version) : Nat :=
  resolution.roots.length + (resolution.packages.map (·.dependencies.length)).sum

/-- The loop over the pending providers. -/
def reachableProviders (localGraph : DependencyGraph Version Req)
    (resolution : RegistryResolution CanonicalPath Version) :
    Option (Except String (List (RegistryProviderIdentity Version))) :=
  StackSearch.search (providerSuccessors resolution.packages) (searchBound resolution)
    (localProviders localGraph resolution).reverse []

variable [ManifestPaths CanonicalPath]

def composeManifests
    (srcs : RegistryProviderIdentity Version → Option (VerifiedRegistrySource Version Req))
    (localGraph : DependencyGraph Version Req)
    (resolution : RegistryResolution CanonicalPath Version)
    (reachable : List (RegistryProviderIdentity Version)) :
    Except String (DependencyGraph Version Req) := do
  let locals ← resolution.roots.foldlM (fun manifests root => attachRoot srcs root manifests)
    localGraph.packages
  let registry ← (resolution.packages.filter (·.provider ∈ reachable)).mapM
    (registryManifest srcs)
  return {
    rootManifestPath := localGraph.rootManifestPath
    packages := sortBy (fun left right => ManifestPaths.cmp left.manifestPath right.manifestPath)
      (locals ++ registry) }

/-- It is `none` only if the loop did not end. -/
def composeGraph (localGraph : DependencyGraph Version Req)
    (resolution : RegistryResolution CanonicalPath Version)
    (srcs : RegistryProviderIdentity Version → Option (VerifiedRegistrySource Version Req)) :
    Option (Except String (DependencyGraph Version Req)) :=
  match reachableProviders localGraph resolution with
  | none => none
  | some (.error error) => some (.error error)
  | some (.ok reachable) => some (composeManifests srcs localGraph resolution reachable)

end

end Salicin.Preparation
