import Salicin.Preparation.ComposedGraph
import Salicin.Preparation.Replayed
import Salicin.Registry.SnapshotLoading

/-!
# Accepted resolutions

What the resolver gives in update mode, and what is replayed from a lockfile otherwise, is accepted
for the packages of the project. The graph that is composed for some of them is well formed exactly
when no two of the releases that they reach come to stand at one path.
-/

namespace Salicin.Preparation

open List Registry OptionLists
open Locking (CanonicalPath Lockfile LockedVersions)

variable {Version Req : Type}

/-! ## The project -/

/-- What a lockfile is made from. -/
def Manifest.forLock (manifest : Manifest Version Req) :
    Locking.Manifest CanonicalPath Version Req where
  package := manifest.package
  dependencies := manifest.dependencies.map fun dependency =>
    { aliasName := dependency.aliasName, path := dependency.path, package := dependency.package }
  registryDependencies := manifest.registryDependencies
  manifestPath := manifest.manifestPath
  packageRoot := manifest.packageRoot

def DependencyGraph.forLock (graph : DependencyGraph Version Req) :
    Locking.DependencyGraph CanonicalPath Version Req where
  packages := graph.packages.map Manifest.forLock

variable [LockedVersions Version] [DecidableEq Version] [SemanticVersions Version Req]
  [ManifestPaths CanonicalPath]

/-- The resolution is that of the resolver, or that of a lockfile. -/
inductive AcceptedResolution (resolutionGraph : DependencyGraph Version Req)
    (projectRoot : CanonicalPath) (snaps : SnapshotTable Version Req)
    (resolution : RegistryResolution CanonicalPath Version) : Prop where
  | updated (previouslyLocked : Locked Version)
      (hresolve : resolveRegistryDependencies
        (Locking.registryRequirementsFromGraph resolutionGraph.forLock) (snapshotValues snaps)
        previouslyLocked = some (.ok resolution)) :
      AcceptedResolution resolutionGraph projectRoot snaps resolution
  | replayed (lock : Lockfile Version)
      (hreplay : resolutionFromLock resolutionGraph.forLock projectRoot lock snaps =
        some (.ok resolution)) :
      AcceptedResolution resolutionGraph projectRoot snaps resolution

section
variable {resolutionGraph localGraph : DependencyGraph Version Req}
  {projectRoot : CanonicalPath} {snaps : SnapshotTable Version Req}
  {resolution : RegistryResolution CanonicalPath Version}

omit [LockedVersions Version] [DecidableEq Version] [SemanticVersions Version Req]
  [ManifestPaths CanonicalPath] in
/-- The aliases of the roots are those that the packages of the project declare. -/
theorem rootAliases_of_tags (hacc : resolutionGraph.forLock.Accepted)
    (hpart : localGraph.packages ⊆ resolutionGraph.packages)
    (htags : (resolution.roots.map rootTag).Perm (declaredTags resolutionGraph.forLock.packages)) :
    ∀ manifest ∈ localGraph.packages,
      ((rootsOf resolution manifest.manifestPath).map (·.aliasName)).Perm
        (manifest.registryDependencies.map (·.aliasName)) := by
  intro manifest hmanifest
  have hlocked : manifest.forLock ∈ resolutionGraph.forLock.packages :=
    mem_map.mpr ⟨manifest, hpart hmanifest, rfl⟩
  rw [rootsOf, map_map]
  exact aliases_of_tags hacc.manifestPaths htags hlocked

theorem acceptedFor_of_resolve (hgraph : resolutionGraph.forLock.Accepted)
    (hpart : localGraph.packages ⊆ resolutionGraph.packages)
    (hsnaps : ∀ snap ∈ snapshotValues snaps, snap.Parsed LockedVersions.buildIsEmpty)
    {locked : Locked Version}
    (hresolve : resolveRegistryDependencies
      (Locking.registryRequirementsFromGraph resolutionGraph.forLock) (snapshotValues snaps)
      locked = some (.ok resolution)) : AcceptedFor localGraph resolution := by
  have hreqs : ∀ root ∈ Locking.registryRequirementsFromGraph resolutionGraph.forLock,
      root.dependency.Parsed := by
    intro root hroot
    obtain ⟨manifest, hmanifest, _, hdep⟩ := Locking.mem_registryRequirementsFromGraph.mp hroot
    exact hgraph.dependencies manifest hmanifest _ hdep
  have hclosed := Locking.closed_of_resolve hsnaps hreqs hresolve
  obtain ⟨res, hres, hans⟩ := exists_answer
    (Locking.registryRequirementsFromGraph resolutionGraph.forLock) (snapshotValues snaps)
    locked
  cases hresolve.symm.trans hres
  cases hans with
  | resolved _ selection hsolves hdesc =>
    refine ⟨?_, ?_, ?_, ?_, rootAliases_of_tags hgraph hpart (resolved_tags hdesc)⟩
    · have hkeys : ((resolution.packages.map (·.provider)).map (·.key)).Nodup := by
        rw [map_map]
        exact hclosed.ascending.imp ne_of_lt
      exact hkeys.of_map
    · exact fun pkg hpkg dep hdep =>
        (hclosed.dependencies pkg hpkg dep hdep).provider
    · exact fun root hroot => (hclosed.roots root hroot).provider
    · intro pkg hpkg
      obtain ⟨release, hsel, _, hall⟩ := hdesc.packages pkg hpkg
      obtain ⟨snap, hsnap, _, ⟨found, hfind, hrel⟩, _⟩ := hsolves.offered _ release hsel
      have haliases := (hsnaps snap hsnap).aliases found
        (mem_of_find?_eq_some hfind) release hrel
      have hsame : pkg.dependencies.map (·.aliasName) = release.dependencies.map (·.aliasName) :=
        map_eq_of_forall₂ hall fun _ _ hresolved => hresolved.1
      rw [hsame]
      exact haliases.imp ne_of_lt

omit [SemanticVersions Version Req] [ManifestPaths CanonicalPath] in
theorem releaseFor_ok {snap : RegistrySnapshot Version Req}
    {provider : RegistryProviderIdentity Version} {release : RegistryRelease Version Req}
    (h : releaseFor snap provider = .ok release) :
    ∃ pkg ∈ snap.packages, release ∈ pkg.releases := by
  rw [releaseFor] at h
  split at h
  · rename_i found hfound
    cases h
    obtain ⟨pkg, hpkg, hrel⟩ := Option.bind_eq_some_iff.mp hfound
    exact ⟨pkg, mem_of_find?_eq_some hpkg, mem_of_find?_eq_some hrel⟩
  · cases h

theorem acceptedFor_of_replay (hgraph : resolutionGraph.forLock.Accepted)
    (hpart : localGraph.packages ⊆ resolutionGraph.packages)
    (hsnaps : ∀ snap ∈ snapshotValues snaps, snap.Parsed LockedVersions.buildIsEmpty)
    {lock : Lockfile Version}
    (hreplay : resolutionFromLock resolutionGraph.forLock projectRoot lock snaps =
      some (.ok resolution)) : AcceptedFor localGraph resolution := by
  obtain ⟨hparts, _, _⟩ := resolutionFromLock_ok hreplay
  obtain ⟨rootLists, replayed, hroots, hpkgs, hmanifests, hreplayed⟩ := replayedParts_ok hparts
  have hprovs : (resolution.packages.map (·.provider)).Perm
      ((lockedProviders lock).map lockedProvider) := by
    have hsame : replayed.map (·.provider) = (lockedProviders lock).map lockedProvider :=
      map_eq_of_forall₂ hreplayed fun _ _ hpkg => hpkg.provider
    rw [← hsame]
    exact hpkgs.map _
  have hpkg : ∀ package ∈ resolution.packages,
      ∃ locked, ReplaysPackage snaps ((lockedProviders lock).map lockedProvider) locked
        package := by
    intro package hmem
    obtain ⟨locked, _, hreplays⟩ := mem_of_forall₂ hreplayed (hpkgs.mem_iff.mp hmem)
    exact ⟨locked, hreplays⟩
  refine ⟨?_, ?_, ?_, ?_, rootAliases_of_tags hgraph hpart ?_⟩
  · rw [hprovs.nodup_iff]
    exact lockedProviders_nodup lock
  · intro package hmem dep hdep
    obtain ⟨locked, hreplays⟩ := hpkg package hmem
    obtain ⟨_, _, _, _, _, _, hall⟩ := hreplays.released
    obtain ⟨req, _, hdep⟩ := mem_of_forall₂ hall hdep
    exact hprovs.mem_iff.mpr hdep.listed
  · intro root hmem
    obtain ⟨roots, hlist, hroot⟩ := mem_flatten.mp (hroots.mem_iff.mp hmem)
    obtain ⟨manifest, _, hreplays⟩ := mem_of_forall₂ hmanifests hlist
    obtain ⟨_, _, _, _, _, _, hall⟩ := hreplays.recorded
    obtain ⟨req, _, hroot⟩ := mem_of_forall₂ hall hroot
    exact hprovs.mem_iff.mpr hroot.2.listed
  · intro package hmem
    obtain ⟨locked, hreplays⟩ := hpkg package hmem
    obtain ⟨snap, release, hsnap, _, hrel, _, hall⟩ := hreplays.released
    obtain ⟨found, hfound, hlisted⟩ := releaseFor_ok hrel
    have hsame : package.dependencies.map (·.aliasName) = release.dependencies.map (·.aliasName) :=
      map_eq_of_forall₂ hall fun _ _ hdep => hdep.aliasName
    have hval : snap ∈ snapshotValues snaps :=
      mem_map.mpr ⟨_, (SortedTable.lookup_eq_some snaps).mp hsnap, rfl⟩
    rw [hsame]
    exact ((hsnaps snap hval).aliases found hfound release hlisted).imp ne_of_lt
  · have htags := replayed_tags hmanifests
    rw [← htags]
    exact hroots.map _

theorem AcceptedResolution.acceptedFor (hgraph : resolutionGraph.forLock.Accepted)
    (hpart : localGraph.packages ⊆ resolutionGraph.packages)
    (hsnaps : ∀ snap ∈ snapshotValues snaps, snap.Parsed LockedVersions.buildIsEmpty)
    (hacc : AcceptedResolution resolutionGraph projectRoot snaps resolution) :
    AcceptedFor localGraph resolution := by
  cases hacc with
  | updated _ hresolve => exact acceptedFor_of_resolve hgraph hpart hsnaps hresolve
  | replayed _ hreplay => exact acceptedFor_of_replay hgraph hpart hsnaps hreplay

end

end Salicin.Preparation
