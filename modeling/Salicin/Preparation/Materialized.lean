import Salicin.Foundation.FallibleLists
import Salicin.Preparation.Sources

/-!
# What is materialized

Every source that is taken from the cache has been validated against its provider, and stands at the
path of the digest of its archive.
-/

namespace Salicin.Preparation

open Registry StatefulResults ExceptLists
open Locking (CanonicalPath LockedVersions)

variable {Tree Version Req : Type} [DecidableEq Version] [LockedVersions Version]
  [SemanticVersions Version Req] {tools : SourceTools Tree Version Req}
  {cacheRoot : CanonicalPath} {provider : RegistryProviderIdentity Version}
  {release : RegistryRelease Version Req}

/-- The manifest of a registry package, as it stands in the cache. -/
structure ManifestVerified (cacheRoot : CanonicalPath) (provider : RegistryProviderIdentity Version)
    (release : RegistryRelease Version Req) (manifest : Manifest Version Req) :
    Prop where
  manifestPath : manifest.manifestPath =
    manifestPathIn (sourceCachePath cacheRoot provider.archiveSha256)
  packageRoot : manifest.packageRoot = sourceCachePath cacheRoot provider.archiveSha256
  name : manifest.package.name = provider.name
  version : manifest.package.version = provider.version
  lib : manifest.lib = true
  dependencies : manifest.dependencies = []
  requirements : manifest.registryDependencies.map (requirementEntry Version) =
    release.dependencies.map (requirementEntry Version)

structure Verified (cacheRoot : CanonicalPath) (provider : RegistryProviderIdentity Version)
    (release : RegistryRelease Version Req)
    (source : VerifiedRegistrySource Version Req) : Prop where
  identity : source.provider = provider
  root : source.root = sourceCachePath cacheRoot provider.archiveSha256
  manifest : ManifestVerified cacheRoot provider release source.manifest

omit [DecidableEq Version] [LockedVersions Version] [SemanticVersions Version Req] in
theorem loadManifest_ok {root : CanonicalPath} {tree : Tree}
    {manifest : Manifest Version Req} (h : loadManifest tools root tree = .ok manifest) :
    manifest.manifestPath = manifestPathIn root ∧ manifest.packageRoot = root := by
  rw [loadManifest] at h
  obtain ⟨text, -, h⟩ := bind_eq_ok.mp h
  cases h
  exact ⟨rfl, rfl⟩

theorem validateManifestIdentity_ok {tree : Tree} {manifest : Manifest Version Req}
    (h : validateManifestIdentity tools (sourceCachePath cacheRoot provider.archiveSha256) tree
      provider release = .ok manifest) : ManifestVerified cacheRoot provider release manifest := by
  rw [validateManifestIdentity] at h
  cases hload : loadManifest tools (sourceCachePath cacheRoot provider.archiveSha256) tree with
  | error error =>
    rw [hload] at h
    cases h
  | ok loaded =>
    rw [hload] at h
    simp only [bind, Except.bind, pure, Except.pure, throw, throwThe, MonadExceptOf.throw] at h
    split_ifs at h with hident hlib hpaths hreqs
    cases h
    obtain ⟨hmanifest, hroot⟩ := loadManifest_ok hload
    rw [not_or, not_not, not_not] at hident
    refine ⟨hmanifest, hroot, hident.1, hident.2, ?_, ?_, not_not.mp hreqs⟩
    · simpa using hlib
    · simpa using hpaths

theorem validateDirectory_ok {text : Option String} {tree : Tree}
    {source : VerifiedRegistrySource Version Req}
    (h : validateDirectory tools cacheRoot text tree provider release = .ok source) :
    Verified cacheRoot provider release source := by
  rw [validateDirectory] at h
  obtain ⟨metadata, _, h⟩ := bind_eq_ok.mp h
  obtain ⟨_, _, h⟩ := bind_eq_ok.mp h
  obtain ⟨manifest, hmanifest, h⟩ := bind_eq_ok.mp h
  cases h
  exact ⟨rfl, rfl, validateManifestIdentity_ok hmanifest⟩

theorem lookup_hit {disk : Disk Tree} {source : VerifiedRegistrySource Version Req}
    (h : lookup tools cacheRoot disk provider release = .hit source) :
    Verified cacheRoot provider release source := by
  rw [lookup, validatePublishedSource] at h
  cases hentry : disk.sources provider.archiveSha256 with
  | none =>
    rw [hentry] at h
    cases h
  | some entry =>
    rw [hentry] at h
    cases entry with
    | other => cases h
    | directory text tree =>
      dsimp only at h
      cases hvalid : validateDirectory tools cacheRoot text tree provider release with
      | error message =>
        rw [hvalid] at h
        cases h
      | ok found =>
        rw [hvalid] at h
        cases h
        exact validateDirectory_ok hvalid

theorem publishSource_returns (staged : SourceEntry Tree) (attempts : Nat) :
    Returns (publishSource tools cacheRoot provider release staged attempts)
      fun res => Verified cacheRoot provider release res.2 := by
  induction attempts with
  | zero => exact returns_throw _ _
  | succ attempts ih =>
    rw [publishSource]
    refine returns_after fun disk => ?_
    split
    · rename_i source hhit
      exact returns_pure (lookup_hit hhit)
    · refine returns_after fun _ => returns_after fun cleared => ?_
      split
      · exact ih
      · refine returns_after fun _ => returns_after fun published => ?_
        split
        · rename_i source hhit
          exact returns_pure (lookup_hit hhit)
        · exact returns_throw _ _
        · exact returns_throw _ _

theorem materialize_returns (bytes : List UInt8) :
    Returns (materialize tools cacheRoot provider release bytes)
      fun res => Verified cacheRoot provider release res.2 := by
  rw [materialize]
  refine returns_after fun _ => returns_after fun _ => returns_after fun archive => ?_
  refine returns_after fun disk => ?_
  split
  · rename_i source hhit
    exact returns_after fun _ => returns_pure (lookup_hit hhit)
  · refine returns_after fun _ => returns_after fun text => ?_
    exact returns_after fun _ => returns_after fun _ => publishSource_returns _ _

theorem materializeProvider_returns (endpoint : RegistryEndpoint) (mode : RegistryAccessMode) :
    Returns (materializeProvider tools cacheRoot endpoint release provider mode)
      (Verified cacheRoot provider release) := by
  rw [materializeProvider]
  refine returns_after fun disk => ?_
  split
  · rename_i source hhit
    exact returns_pure (lookup_hit hhit)
  · refine returns_after fun _ => returns_after fun bytes => ?_
    exact (materialize_returns bytes).bind fun res hres => returns_pure hres

/-! ## All packages -/

/-- The table has a verified source for each of the packages. -/
def SourcesFor (cacheRoot : CanonicalPath) (pkgs : List (ResolvedRegistryPackage Version))
    (sources : SourceTable Version Req) : Prop :=
  ∀ pkg ∈ pkgs, ∃ source release, sources pkg.provider = some source ∧
    Verified cacheRoot pkg.provider release source

variable {snaps : SnapshotTable Version Req}
  {endpoints : SortedTable String RegistryEndpoint} {mode : RegistryAccessMode}

theorem materializePackage_returns {passed : List (ResolvedRegistryPackage Version)}
    {verified : SourceTable Version Req} (pkg : ResolvedRegistryPackage Version)
    (hverified : SourcesFor cacheRoot passed verified) :
    Returns (materializePackage tools cacheRoot snaps endpoints mode verified pkg)
      (SourcesFor cacheRoot (passed ++ [pkg])) := by
  rw [materializePackage]
  refine returns_after fun snapshot => returns_after fun release => returns_after fun endpoint => ?_
  refine (materializeProvider_returns endpoint mode).bind fun source hsrc => returns_pure ?_
  intro other hother
  by_cases hsame : other.provider = pkg.provider
  · refine ⟨source, release, ?_, ?_⟩
    · rw [hsame, Function.update_self]
    · rw [hsame]
      exact hsrc
  · rw [Function.update_of_ne hsame]
    obtain hpassed | hlast := List.mem_append.mp hother
    · exact hverified other hpassed
    · rw [List.mem_singleton.mp hlast] at hsame
      exact absurd rfl hsame

theorem materializePackages_returns (pkgs : List (ResolvedRegistryPackage Version)) :
    Returns (materializePackages tools cacheRoot snaps endpoints mode pkgs)
      (SourcesFor cacheRoot pkgs) := by
  have hstart : SourcesFor cacheRoot ([] : List (ResolvedRegistryPackage Version))
      (fun _ => none : SourceTable Version Req) :=
    fun pkg hpkg => absurd hpkg List.not_mem_nil
  exact returns_foldlM (SourcesFor cacheRoot)
    (fun _ pkg _ hverified => materializePackage_returns pkg hverified) pkgs [] _ hstart

end Salicin.Preparation
