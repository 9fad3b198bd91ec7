import Salicin.Locking.Generation
import Salicin.Registry.Resolution

/-!
# What a lockfile is generated from

A graph that the manifest loader has accepted, and a resolution of what its packages ask of the
registries. All that a lockfile takes from them has been checked.
-/

namespace Salicin.Locking

open List DependencyProblem OptionLists Registry

variable {Path Version Req : Type}

/-- What the manifest loader has checked of a graph. -/
structure DependencyGraph.Accepted (graph : DependencyGraph Path Version Req) : Prop where
  manifestPaths : (graph.packages.map Manifest.manifestPath).Nodup
  packageRoots : (graph.packages.map Manifest.packageRoot).Nodup
  aliases : ∀ manifest ∈ graph.packages,
    (manifest.registryDependencies.map RegistryRequirement.aliasName).Pairwise (· < ·)
  dependencies : ∀ manifest ∈ graph.packages, ∀ dependency ∈ manifest.registryDependencies,
    dependency.Parsed

theorem mem_registryRequirementsFromGraph [ManifestPaths Path]
    {graph : DependencyGraph Path Version Req} {root : RootRegistryRequirement Path Req} :
    root ∈ registryRequirementsFromGraph graph ↔ ∃ manifest ∈ graph.packages,
      root.ownerManifestPath = manifest.manifestPath ∧
        root.dependency ∈ manifest.registryDependencies := by
  rw [registryRequirementsFromGraph, mem_mergeSort, mem_flatMap]
  constructor
  · rintro ⟨manifest, hmanifest, hroot⟩
    obtain ⟨dep, hdep, rfl⟩ := mem_map.mp hroot
    exact ⟨manifest, hmanifest, rfl, hdep⟩
  · rintro ⟨manifest, hmanifest, howner, hdep⟩
    refine ⟨manifest, hmanifest, mem_map.mpr ⟨root.dependency, hdep, ?_⟩⟩
    rw [← howner]

/-! ## The resolution -/

/-- The provider has valid names, and no build metadata. -/
structure ProviderValid (buildIsEmpty : Version → Bool)
    (provider : RegistryProviderIdentity Version) : Prop where
  registry : validateRegistryName provider.registry = .ok ()
  name : validatePackageName provider.name = .ok ()
  version : buildIsEmpty provider.version = true

/-- The dependency has a valid alias, and its provider is one of these packages. -/
structure DependencyClosed (packages : List (ResolvedRegistryPackage Version))
    (dependency : ResolvedRegistryDependency Version) : Prop where
  aliasName : validateAlias dependency.aliasName = .ok ()
  provider : dependency.provider ∈ packages.map ResolvedRegistryPackage.provider

/-- A resolution that names its snapshots and packages once, and has the provider of every
dependency. -/
structure Closed (buildIsEmpty : Version → Bool) (resolution : RegistryResolution Path Version) :
    Prop where
  registries : (resolution.snapshots.map Prod.fst).Nodup
  names : ∀ entry ∈ resolution.snapshots, validateRegistryName entry.1 = .ok ()
  ascending : (resolution.packages.map fun package => package.provider.key).Pairwise (· < ·)
  listed : ∀ package ∈ resolution.packages,
    (package.provider.registry, package.provider.snapshot) ∈ resolution.snapshots
  providers : ∀ package ∈ resolution.packages, ProviderValid buildIsEmpty package.provider
  dependencies : ∀ package ∈ resolution.packages, ∀ dependency ∈ package.dependencies,
    DependencyClosed resolution.packages dependency
  roots : ∀ root ∈ resolution.roots, DependencyClosed resolution.packages root.dependency

theorem usedSnapshots_nodup (table : SnapshotTable Version Req)
    (identities : IdentityTable Version) :
    ((usedSnapshots table identities).map Prod.fst).Nodup := by
  have hascending : ((usedSnapshots table identities).map Prod.fst).Pairwise (· < ·) := by
    rw [usedSnapshots, map_map]
    exact pairwise_map.mpr (table.sorted.filter _)
  exact hascending.imp ne_of_lt

section

variable [ManifestPaths Path] [SemanticVersions Version Req] [DecidableEq Version]
  {roots : List (RootRegistryRequirement Path Req)}
  {snaps : List (RegistrySnapshot Version Req)} {locked : Locked Version}
  {resolution : RegistryResolution Path Version}

theorem exists_usedSnapshots
    (hresolve : resolveRegistryDependencies roots snaps locked = some (.ok resolution)) :
    ∃ table identities, snapshotsByRegistry snaps .empty = .ok table ∧
      resolution.snapshots = usedSnapshots table identities := by
  unfold resolveRegistryDependencies at hresolve
  cases hcatalog : snapshotsByRegistry snaps .empty with
  | error error => simp [hcatalog] at hresolve
  | ok table =>
    cases hadd : addRoots table (orderRoots roots) .empty with
    | error error => simp [hcatalog, hadd] at hresolve
    | ok constraints =>
      cases hsolve : solveRegistryConstraints table locked (packageCount snaps + 1)
          constraints .empty 0 with
      | none => simp [hcatalog, hadd, hsolve] at hresolve
      | some result =>
        obtain ⟨error | selected, attempts⟩ := result
        · simp [hcatalog, hadd, hsolve] at hresolve
        · simp only [hcatalog, hadd, hsolve, Option.map_eq_some_iff, Except.ok.injEq]
            at hresolve
          obtain ⟨_, hrender, rfl⟩ := hresolve
          simp only [renderResolution, Option.bind_eq_bind, Option.bind_eq_some_iff] at hrender
          obtain ⟨identities, _, packages, _, roots, _, hresolution⟩ := hrender
          cases hresolution
          exact ⟨table, identities, rfl, rfl⟩

theorem snapshots_nodup_of_resolve
    (hresolve : resolveRegistryDependencies roots snaps locked =
      some (.ok resolution)) : (snaps.map RegistrySnapshot.registry).Nodup := by
  obtain ⟨table, _, htable, _⟩ := exists_usedSnapshots hresolve
  have hcataloged : Cataloged ([] ++ snaps) (snapshotsByRegistry snaps .empty) :=
    snapshotsByRegistry_cataloged (by simp [Catalogs]) (by simp)
  rw [htable, nil_append] at hcataloged
  cases hcataloged with
  | table _ _ hnodup => exact hnodup

omit [ManifestPaths Path] [SemanticVersions Version Req] [DecidableEq Version] in
theorem Provides.unique (hnodup : (snaps.map RegistrySnapshot.registry).Nodup)
    {selection : RegistryPackageKey → Option (RegistryRelease Version Req)}
    {key : RegistryPackageKey} {ident other : RegistryProviderIdentity Version}
    (hident : Provides snaps selection key ident)
    (hother : Provides snaps selection key other) : ident = other := by
  obtain ⟨release, hsel, snap, hsnap, hreg, rfl⟩ := hident
  obtain ⟨release', hsel', snap', hsnap', hreg', rfl⟩ := hother
  obtain rfl : release = release' := by simpa [hsel] using hsel'
  rw [inj_on_of_nodup_map hnodup hsnap hsnap' (hreg.trans hreg'.symm)]

variable {buildIsEmpty : Version → Bool}

omit [ManifestPaths Path] [SemanticVersions Version Req] [DecidableEq Version] in
theorem Provides.valid (hsnaps : ∀ snap ∈ snaps, snap.Parsed buildIsEmpty)
    {selection : RegistryPackageKey → Option (RegistryRelease Version Req)}
    (hoffered : ∀ key release, selection key = some release → ∃ snap ∈ snaps,
      snap.registry = key.registry ∧ ∃ pkg ∈ snap.packages,
        pkg.name = key.name ∧ release ∈ pkg.releases)
    {key : RegistryPackageKey} {identity : RegistryProviderIdentity Version}
    (hprovides : Provides snaps selection key identity) :
    ProviderValid buildIsEmpty identity := by
  obtain ⟨release, hsel, _, _, _, rfl⟩ := hprovides
  obtain ⟨snap, hsnap, hreg, pkg, hpkg, hname, hrel⟩ := hoffered key release hsel
  have hparsed := hsnaps snap hsnap
  constructor
  · have hvalid := hparsed.registry
    rwa [hreg] at hvalid
  · have hvalid := hparsed.packages pkg hpkg
    rwa [hname] at hvalid
  · exact hparsed.versions pkg hpkg release hrel

/-- A resolution is closed when what it is made from has been checked. -/
theorem closed_of_resolve (hsnaps : ∀ snap ∈ snaps, snap.Parsed buildIsEmpty)
    (hroots : ∀ root ∈ roots, root.dependency.Parsed)
    (hresolve : resolveRegistryDependencies roots snaps locked =
      some (.ok resolution)) : Closed buildIsEmpty resolution := by
  obtain ⟨result, hres, hans⟩ := exists_answer roots snaps locked
  obtain rfl : .ok resolution = result := by simpa [hresolve] using hres
  cases hans with
  | resolved _ selection hsolves hdesc =>
  have hoffered : ∀ key release, selection key = some release → ∃ snap ∈ snaps,
      snap.registry = key.registry ∧ ∃ pkg ∈ snap.packages,
        pkg.name = key.name ∧ release ∈ pkg.releases := by
    intro key release hsel
    obtain ⟨snap, hsnap, hreg, ⟨pkg, hfind, hrel⟩, _⟩ := hsolves.offered key release hsel
    exact ⟨snap, hsnap, hreg, pkg, mem_of_find?_eq_some hfind,
      by simpa using List.find?_some hfind, hrel⟩
  have hnodup := snapshots_nodup_of_resolve hresolve
  -- A provider that is named is that of a pkg of the resolution.
  have hclosed : ∀ (dep : RegistryRequirement Req)
      (resolved : ResolvedRegistryDependency Version), dep.Parsed →
        DependencyResolved snaps selection dep resolved →
          DependencyClosed resolution.packages resolved := by
    rintro dep resolved hparsed ⟨halias, hprovides⟩
    obtain ⟨release, hsel, _⟩ := hprovides
    obtain ⟨pkg, hpkg, hkey⟩ := hdesc.selected _ release hsel
    obtain ⟨_, _, hpackageProvides, _⟩ := hdesc.packages pkg hpkg
    rw [hkey] at hpackageProvides
    refine ⟨halias ▸ hparsed.aliasName, mem_map.mpr ⟨pkg, hpkg, ?_⟩⟩
    exact Provides.unique hnodup hpackageProvides ⟨release, hsel, by assumption⟩
  have hused : ∀ pkg ∈ resolution.packages, ∃ snap ∈ snaps, snap.registry = pkg.provider.registry ∧
        snap.digest = pkg.provider.snapshot := by
    intro pkg hpkg
    obtain ⟨_, _, ⟨_, _, snap, hsnap, hreg, hprov⟩, _⟩ := hdesc.packages pkg hpkg
    refine ⟨snap, hsnap, hreg, ?_⟩
    rw [hprov]
    rfl
  constructor
  · obtain ⟨table, identities, _, hused⟩ := exists_usedSnapshots hresolve
    rw [hused]
    exact usedSnapshots_nodup table identities
  · rintro ⟨registry, digest⟩ hentry
    obtain ⟨snap, hsnap, rfl, _⟩ := (hdesc.snapshots registry digest).mp hentry
    exact (hsnaps snap hsnap).registry
  · exact hdesc.ascending
  · intro pkg hpkg
    obtain ⟨snap, hsnap, hreg, hdigest⟩ := hused pkg hpkg
    exact (hdesc.snapshots _ _).mpr
      ⟨snap, hsnap, hreg, hdigest, pkg, hpkg, rfl⟩
  · intro pkg hpkg
    obtain ⟨_, _, hprovides, _⟩ := hdesc.packages pkg hpkg
    exact Provides.valid hsnaps hoffered hprovides
  · intro pkg hpkg dep hdep
    obtain ⟨release, hsel, _, hdeps⟩ := hdesc.packages pkg hpkg
    obtain ⟨req, hreq, hresolved⟩ := mem_of_forall₂ hdeps hdep
    obtain ⟨snap, hsnap, _, listed, hlisted, _, hrel⟩ := hoffered _ release hsel
    exact hclosed req dep ((hsnaps snap hsnap).dependencies listed
      hlisted release hrel req hreq) hresolved
  · intro root hroot
    obtain ⟨ordered, horder, hordered⟩ := hdesc.roots
    obtain ⟨req, hreq, _, hresolved⟩ := mem_of_forall₂ hordered hroot
    exact hclosed req.dependency root.dependency
      (hroots req (horder.mem_iff.mp hreq)) hresolved

end

end Salicin.Locking
