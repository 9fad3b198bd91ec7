import Salicin.Locking.Resolved
import Salicin.Preparation.Composition
import Salicin.Preparation.Replay

/-!
# What is accepted for a project

A resolution is accepted from the resolver, or from a lockfile. Either way it has the provider of
every dependency, and what was selected for a package has the aliases that the package declares.
-/

namespace Salicin.Preparation

open List ComparisonSort ExceptLists Registry
open Locking (CanonicalPath Lockfile LockedRegistryDependency LockedRegistryPackage LockedVersions)

variable {Path Version Req : Type} [LockedVersions Version] [DecidableEq Version]

/-! ## What a replay has checked -/

theorem lockedProviders_nodup (lock : Lockfile Version) :
    ((lockedProviders lock).map lockedProvider).Nodup := by
  have hdist : ((lock.registryPackages.pwFilter fun left right =>
      lockedProvider left ≠ lockedProvider right).map lockedProvider).Nodup :=
    pairwise_map.mpr (pairwise_pwFilter _)
  exact (((perm_sortBy _ _).map _).nodup_iff).mpr hdist

variable {roots : List (ResolvedRootRegistryDependency Path Version)}
  {manifest : Locking.Manifest Path Version Req} {projectRoot : CanonicalPath}
  {lock : Lockfile Version}

section
variable [SemanticVersions Version Req]

/-- The dependency is on a provider that is recorded for it and satisfies the request. -/
structure ReplaysDependency (providers : List (RegistryProviderIdentity Version))
    (edges : List (LockedRegistryDependency Version)) (request : RegistryRequirement Req)
    (resolved : ResolvedRegistryDependency Version) : Prop where
  aliasName : resolved.aliasName = request.aliasName
  recorded : ∃ edge ∈ edges, edge.aliasName = request.aliasName ∧
    providerFromEdge edge = resolved.provider
  registry : resolved.provider.registry = request.registry
  package : resolved.provider.name = request.package
  requirement : SemanticVersions.matchesVersion request.requirement resolved.provider.version = true
  listed : resolved.provider ∈ providers

variable {providers : List (RegistryProviderIdentity Version)}
  {edges : List (LockedRegistryDependency Version)}

omit [LockedVersions Version] in
theorem replayDependency_ok {missing outdated : String} {request : RegistryRequirement Req}
    {resolved : ResolvedRegistryDependency Version}
    (h : replayDependency providers missing outdated edges request = .ok resolved) :
    ReplaysDependency providers edges request resolved := by
  rw [replayDependency] at h
  cases hfind : edges.find? (·.aliasName = request.aliasName) with
  | none =>
    rw [hfind] at h
    cases h
  | some edge =>
    rw [hfind] at h
    dsimp only at h
    split_ifs at h with hchecks
    cases h
    simp only [not_or, not_not, Bool.not_eq_false] at hchecks
    obtain ⟨hreg, hpkg, hreq, hlisted⟩ := hchecks
    have halias : edge.aliasName = request.aliasName := by simpa using List.find?_some hfind
    exact ⟨rfl, ⟨edge, mem_of_find?_eq_some hfind, halias, rfl⟩, hreg, hpkg, hreq, hlisted⟩

/-- The roots of a local package are the replayed dependencies of its manifest. -/
structure ReplaysManifest (projectRoot : CanonicalPath) (lock : Lockfile Version)
    (providers : List (RegistryProviderIdentity Version))
    (manifest : Locking.Manifest Path Version Req)
    (roots : List (ResolvedRootRegistryDependency Path Version)) : Prop where
  recorded : ∃ locked ∈ lock.packages, locked.name = manifest.package.name ∧
    locked.version = manifest.package.version ∧
    locked.path = Locking.portableRelativePath projectRoot.components
      manifest.packageRoot.components ∧
    locked.registryDependencies.length = manifest.registryDependencies.length ∧
    List.Forall₂ (fun request root => root.ownerManifestPath = manifest.manifestPath ∧
      ReplaysDependency providers locked.registryDependencies request root.dependency)
      manifest.registryDependencies roots

theorem replayManifest_ok (h : replayManifest projectRoot lock providers manifest = .ok roots) :
    ReplaysManifest projectRoot lock providers manifest roots := by
  rw [replayManifest] at h
  dsimp only at h
  split at h
  · rename_i locked hfind
    obtain ⟨hname, hver, hpath⟩ : locked.name = manifest.package.name ∧
        locked.version = manifest.package.version ∧
        locked.path = Locking.portableRelativePath projectRoot.components
          manifest.packageRoot.components := by
      simpa using List.find?_some hfind
    simp only [bind, Except.bind] at h
    split_ifs at h with hlen
    refine ⟨locked, mem_of_find?_eq_some hfind, hname, hver, hpath,
      not_not.mp hlen, (mapM_eq_ok.mp h).imp ?_⟩
    intro request root hroot
    rw [replayRoot] at hroot
    obtain ⟨dependency, hdep, hroot⟩ := bind_eq_ok.mp hroot
    cases hroot
    exact ⟨rfl, replayDependency_ok hdep⟩
  · cases h

/-- The package is that of the lockfile, with the replayed dependencies of its release. -/
structure ReplaysPackage (snaps : SnapshotTable Version Req)
    (providers : List (RegistryProviderIdentity Version)) (locked : LockedRegistryPackage Version)
    (pkg : ResolvedRegistryPackage Version) : Prop where
  provider : pkg.provider = lockedProvider locked
  released : ∃ snapshot release, snaps.lookup pkg.provider.registry = some snapshot ∧
    snapshot.digest = pkg.provider.snapshot ∧
    releaseFor snapshot pkg.provider = .ok release ∧
    locked.dependencies.length = release.dependencies.length ∧
    List.Forall₂ (ReplaysDependency providers locked.dependencies) release.dependencies
      pkg.dependencies

variable {snaps : SnapshotTable Version Req}

theorem replayPackage_ok {locked : LockedRegistryPackage Version}
    {pkg : ResolvedRegistryPackage Version} (h : replayPackage snaps providers locked = .ok pkg) :
    ReplaysPackage snaps providers locked pkg := by
  rw [replayPackage] at h
  dsimp only at h
  split at h
  · rename_i snapshot hsnap
    simp only [bind, Except.bind] at h
    split_ifs at h with hdigest
    obtain ⟨release, hrel, h⟩ := bind_eq_ok.mp h
    split_ifs at h with hlen
    obtain ⟨dependencies, hdeps, h⟩ := bind_eq_ok.mp h
    cases h
    exact ⟨rfl, snapshot, release, hsnap, not_not.mp hdigest, hrel,
      not_not.mp hlen, (mapM_eq_ok.mp hdeps).imp fun _ _ => replayDependency_ok⟩
  · cases h

variable [ManifestPaths Path]

/-- The roots and the packages are those of the manifests and of the lockfile, in some order. -/
theorem replayedParts_ok {localGraph : Locking.DependencyGraph Path Version Req}
    {pkgs : List (ResolvedRegistryPackage Version)}
    (h : replayedParts localGraph projectRoot lock snaps = .ok (roots, pkgs)) :
    ∃ rootLists replayed, roots.Perm rootLists.flatten ∧ pkgs.Perm replayed ∧
      List.Forall₂ (ReplaysManifest projectRoot lock ((lockedProviders lock).map lockedProvider))
        localGraph.packages rootLists ∧
      List.Forall₂ (ReplaysPackage snaps ((lockedProviders lock).map lockedProvider))
        (lockedProviders lock) replayed := by
  rw [replayedParts] at h
  obtain ⟨rootLists, hroots, h⟩ := bind_eq_ok.mp h
  obtain ⟨replayed, hpkgs, h⟩ := bind_eq_ok.mp h
  cases h
  exact ⟨rootLists, replayed, perm_sortBy _ _, perm_sortBy _ _,
    (mapM_eq_ok.mp hroots).imp fun _ _ => replayManifest_ok,
    (mapM_eq_ok.mp hpkgs).imp fun _ _ => replayPackage_ok⟩

theorem resolutionFromLock_ok {localGraph : Locking.DependencyGraph Path Version Req}
    {resolution : RegistryResolution Path Version}
    (h : resolutionFromLock localGraph projectRoot lock snaps = some (.ok resolution)) :
    replayedParts localGraph projectRoot lock snaps = .ok (resolution.roots, resolution.packages) ∧
      validateLockedClosure resolution.roots resolution.packages = some (.ok ()) ∧
      resolution.snapshots =
        lock.registrySnapshots.map fun entry => (entry.registry, entry.checksum) := by
  rw [resolutionFromLock] at h
  cases hparts : replayedParts localGraph projectRoot lock snaps with
  | error error =>
    rw [hparts] at h
    cases h
  | ok parts =>
    obtain ⟨roots, pkgs⟩ := parts
    rw [hparts] at h
    dsimp only at h
    split at h
    · cases h
    · cases h
    · rename_i hclosure
      cases h
      exact ⟨rfl, hclosure, rfl⟩

end

/-! ## The aliases of the roots -/

/-- A root is for an alias of a package. -/
def rootTag (root : ResolvedRootRegistryDependency Path Version) : Path × String :=
  (root.ownerManifestPath, root.dependency.aliasName)

/-- The aliases that the packages declare. -/
def declaredTags (pkgs : List (Locking.Manifest Path Version Req)) : List (Path × String) :=
  pkgs.flatMap fun manifest => manifest.registryDependencies.map fun dependency =>
    (manifest.manifestPath, dependency.aliasName)

variable {pkgs : List (Locking.Manifest Path Version Req)}

section
variable [DecidableEq Path]

omit [LockedVersions Version] [DecidableEq Version] in
theorem declaredTags_filter (hnodup : (pkgs.map (·.manifestPath)).Nodup)
    (hmem : manifest ∈ pkgs) : (declaredTags pkgs).filter (·.1 = manifest.manifestPath) =
      manifest.registryDependencies.map fun dependency =>
        (manifest.manifestPath, dependency.aliasName) := by
  induction pkgs with
  | nil => cases hmem
  | cons first rest ih =>
    rw [map_cons, nodup_cons] at hnodup
    have hkept : ∀ other : Locking.Manifest Path Version Req,
        (other.registryDependencies.map fun dependency =>
          (other.manifestPath, dependency.aliasName)).filter (·.1 = manifest.manifestPath) =
        if other.manifestPath = manifest.manifestPath then
          other.registryDependencies.map fun dependency =>
            (other.manifestPath, dependency.aliasName)
        else [] := by
      intro other
      rw [filter_map]
      split_ifs with hsame
      · rw [filter_eq_self.mpr fun _ _ => by simpa using hsame]
      · rw [filter_eq_nil_iff.mpr fun _ _ => by simpa using hsame, map_nil]
    rw [declaredTags, flatMap_cons, filter_append, hkept]
    obtain rfl | hrest := mem_cons.mp hmem
    · have hnone : (declaredTags rest).filter (·.1 = manifest.manifestPath) = [] := by
        rw [filter_eq_nil_iff]
        intro tag htag
        obtain ⟨other, hother, htag⟩ := mem_flatMap.mp htag
        obtain ⟨dependency, _, rfl⟩ := mem_map.mp htag
        simp only [decide_eq_true_eq]
        intro hsame
        exact hnodup.1 (mem_map.mpr ⟨other, hother, hsame⟩)
      rw [if_pos rfl, ← declaredTags, hnone, append_nil]
    · have hother : first.manifestPath ≠ manifest.manifestPath := by
        intro hsame
        exact hnodup.1 (mem_map.mpr ⟨manifest, hrest, hsame.symm⟩)
      rw [if_neg hother, nil_append]
      exact ih hnodup.2 hrest

omit [LockedVersions Version] [DecidableEq Version] in
theorem aliases_of_tags (hnodup : (pkgs.map (·.manifestPath)).Nodup)
    (htags : (roots.map rootTag).Perm (declaredTags pkgs)) (hmem : manifest ∈ pkgs) :
    ((roots.filter (·.ownerManifestPath = manifest.manifestPath)).map
        (·.dependency.aliasName)).Perm (manifest.registryDependencies.map (·.aliasName)) := by
  have hfiltered := (htags.filter (·.1 = manifest.manifestPath)).map Prod.snd
  rw [declaredTags_filter hnodup hmem, filter_map, map_map, map_map] at hfiltered
  exact hfiltered

end

section
variable [SemanticVersions Version Req]

omit [LockedVersions Version] [DecidableEq Version] in
theorem replayed_tags {providers : List (RegistryProviderIdentity Version)}
    {rootLists : List (List (ResolvedRootRegistryDependency Path Version))}
    (hall : List.Forall₂ (ReplaysManifest projectRoot lock providers) pkgs rootLists) :
    rootLists.flatten.map rootTag = declaredTags pkgs := by
  induction hall with
  | nil => rfl
  | @cons manifest roots _ _ hreplays _ ih =>
    rw [flatten_cons, map_append, ih]
    obtain ⟨_, _, _, _, _, _, hroots⟩ := hreplays.recorded
    refine congrArg (· ++ _) (OptionLists.map_eq_of_forall₂ hroots ?_)
    intro request root hroot
    rw [rootTag, hroot.1, hroot.2.aliasName]

variable [ManifestPaths Path]

omit [LockedVersions Version] [DecidableEq Version] [SemanticVersions Version Req] in
theorem resolved_tags {graph : Locking.DependencyGraph Path Version Req}
    {snaps : List (RegistrySnapshot Version Req)}
    {selection : RegistryPackageKey → Option (RegistryRelease Version Req)}
    {resolution : RegistryResolution Path Version}
    (hdesc : Describes (Locking.registryRequirementsFromGraph graph) snaps selection
      resolution) : (resolution.roots.map rootTag).Perm (declaredTags graph.packages) := by
  obtain ⟨ordered, horder, hroots⟩ := hdesc.roots
  have htags : resolution.roots.map rootTag =
      ordered.map fun root => (root.ownerManifestPath, root.dependency.aliasName) := by
    refine OptionLists.map_eq_of_forall₂ hroots ?_
    intro root resolved hresolved
    rw [rootTag, hresolved.1, hresolved.2.1]
  have hdecl : declaredTags graph.packages =
      (graph.packages.flatMap fun manifest => manifest.registryDependencies.map fun dependency =>
        (⟨manifest.manifestPath, dependency⟩ : RootRegistryRequirement Path Req)).map
          fun root => (root.ownerManifestPath, root.dependency.aliasName) := by
    rw [declaredTags, map_flatMap]
    simp only [map_map]
    rfl
  rw [htags, hdecl]
  exact (horder.trans (mergeSort_perm _ _)).map _

end

end Salicin.Preparation
