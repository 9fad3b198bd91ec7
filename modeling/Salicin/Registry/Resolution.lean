import Salicin.Foundation.FallibleLists
import Salicin.Registry.Search

/-!
# What a resolution says

A resolution lists the selected releases by their exact providers, with the provider of each
dependency and of each root. The resolver returns one that describes a solution, or it has a
reason to refuse: two snapshots of one registry, too many attempts, or that nothing solves the
roots.
-/

namespace Salicin.Registry

open List DependencyProblem OptionLists SortedTable

variable {Path Version Req : Type}

/-- The identity is that of the release that is selected for the package. -/
def Provides (snapshots : List (RegistrySnapshot Version Req))
    (selection : RegistryPackageKey → Option (RegistryRelease Version Req))
    (key : RegistryPackageKey) (identity : RegistryProviderIdentity Version) : Prop :=
  ∃ release, selection key = some release ∧ ∃ snapshot ∈ snapshots,
    snapshot.registry = key.registry ∧ identity = providerIdentity key release snapshot.digest

/-- The dependency keeps its alias and names the provider of its package. -/
def DependencyResolved (snapshots : List (RegistrySnapshot Version Req))
    (selection : RegistryPackageKey → Option (RegistryRelease Version Req))
    (dep : RegistryRequirement Req)
    (resolved : ResolvedRegistryDependency Version) : Prop :=
  resolved.aliasName = dep.aliasName ∧ Provides snapshots selection dep.key resolved.provider

/-- The resolution lists what is selected: each package once, in the order of the keys, each
root, and the snapshots that have been used. -/
structure Describes (roots : List (RootRegistryRequirement Path Req))
    (snapshots : List (RegistrySnapshot Version Req))
    (selection : RegistryPackageKey → Option (RegistryRelease Version Req))
    (resolution : RegistryResolution Path Version) : Prop where
  ascending : (resolution.packages.map fun pkg => pkg.provider.key).Pairwise (· < ·)
  packages : ∀ pkg ∈ resolution.packages, ∃ release, selection pkg.provider.key = some release ∧
      Provides snapshots selection pkg.provider.key pkg.provider ∧
      List.Forall₂ (DependencyResolved snapshots selection) release.dependencies
        pkg.dependencies
  selected : ∀ key release, selection key = some release →
    ∃ pkg ∈ resolution.packages, pkg.provider.key = key
  roots : ∃ ordered, ordered.Perm roots ∧ List.Forall₂
    (fun (root : RootRegistryRequirement Path Req) resolved =>
      resolved.ownerManifestPath = root.ownerManifestPath ∧
        DependencyResolved snapshots selection root.dependency resolved.dependency)
    ordered resolution.roots
  snapshots : ∀ reg digest, (reg, digest) ∈ resolution.snapshots ↔
    ∃ snapshot ∈ snapshots, snapshot.registry = reg ∧ snapshot.digest = digest ∧
      ∃ pkg ∈ resolution.packages, pkg.provider.registry = reg

/-! ## Rendering a selection -/

variable {snapshots : List (RegistrySnapshot Version Req)}
  {table : SnapshotTable Version Req} {selected : SelectedTable Version Req}

theorem identityEntry_eq_some (hcats : Catalogs snapshots table)
    {entry : RegistryPackageKey × RegistryRelease Version Req}
    {image : RegistryPackageKey × RegistryProviderIdentity Version} :
    identityEntry table entry = some image ↔ image.1 = entry.1 ∧ ∃ snapshot ∈ snapshots,
      snapshot.registry = entry.1.registry ∧
        image.2 = providerIdentity entry.1 entry.2 snapshot.digest := by
  rw [identityEntry, Option.map_eq_some_iff]
  constructor
  · rintro ⟨snapshot, hsnap, rfl⟩
    obtain ⟨hmem, hreg⟩ := (hcats _ _).mp hsnap
    exact ⟨rfl, snapshot, hmem, hreg, rfl⟩
  · rintro ⟨hkey, snapshot, hmem, hreg, hident⟩
    exact ⟨snapshot, (hcats _ _).mpr ⟨hmem, hreg⟩, Prod.ext hkey.symm hident.symm⟩

/-- The table of identities has the provider of each selected package. -/
theorem exists_identitiesOf (hcats : Catalogs snapshots table)
    (hlisted : ∀ key release, selected.lookup key = some release →
      ∃ snapshot ∈ snapshots, snapshot.registry = key.registry) :
    ∃ identities, identitiesOf table selected = some identities ∧ ∀ key identity,
      identities.lookup key = some identity ↔
        Provides snapshots selected.lookup key identity := by
  have hsome : ∀ entry ∈ selected.entries, ∃ image, identityEntry table entry = some image := by
    rintro ⟨key, release⟩ hentry
    obtain ⟨snapshot, hsnap, hreg⟩ := hlisted key release ((lookup_eq_some selected).mpr hentry)
    exact ⟨(key, providerIdentity key release snapshot.digest),
      (identityEntry_eq_some hcats).mpr ⟨rfl, snapshot, hsnap, hreg, rfl⟩⟩
  obtain ⟨images, himages, hall, hmem⟩ := exists_mapM hsome
  have hkeys : images.map Prod.fst = selected.keys :=
    map_eq_of_forall₂ hall fun _ _ himage => ((identityEntry_eq_some hcats).mp himage).1
  refine ⟨ofEntries images, by simp [identitiesOf, himages], ?_⟩
  intro key identity
  rw [lookup_ofEntries (hkeys ▸ selected.keys_nodup), hmem]
  constructor
  · rintro ⟨⟨other, release⟩, hentry, himage⟩
    obtain ⟨hkey, snapshot, hsnap, hreg, hident⟩ := (identityEntry_eq_some hcats).mp himage
    obtain rfl : key = other := hkey
    exact ⟨release, (lookup_eq_some selected).mpr hentry, snapshot, hsnap, hreg, hident⟩
  · rintro ⟨release, hsel, snapshot, hsnap, hreg, rfl⟩
    exact ⟨(key, release), (lookup_eq_some selected).mp hsel,
      (identityEntry_eq_some hcats).mpr ⟨rfl, snapshot, hsnap, hreg, rfl⟩⟩

theorem Provides.key_eq {selection : RegistryPackageKey → Option (RegistryRelease Version Req)}
    {key : RegistryPackageKey} {identity : RegistryProviderIdentity Version}
    (hprovides : Provides snapshots selection key identity) : identity.key = key := by
  obtain ⟨_, _, _, _, _, rfl⟩ := hprovides
  rfl

section

variable {identities : IdentityTable Version} (hidents : ∀ key identity,
  identities.lookup key = some identity ↔ Provides snapshots selected.lookup key identity)

include hidents

theorem resolvedDependency_eq_some {dep : RegistryRequirement Req}
    {resolved : ResolvedRegistryDependency Version} :
    resolvedDependency identities dep = some resolved ↔
      DependencyResolved snapshots selected.lookup dep resolved := by
  rw [resolvedDependency, Option.map_eq_some_iff, DependencyResolved]
  constructor
  · rintro ⟨provider, hprov, rfl⟩
    exact ⟨rfl, (hidents _ _).mp hprov⟩
  · rintro ⟨halias, hprovides⟩
    refine ⟨resolved.provider, (hidents _ _).mpr hprovides, ?_⟩
    rw [← halias]

theorem exists_resolvedDependency
    (hlisted : ∀ key release, selected.lookup key = some release →
      ∃ snapshot ∈ snapshots, snapshot.registry = key.registry)
    {dep : RegistryRequirement Req} {release : RegistryRelease Version Req}
    (hsel : selected.lookup dep.key = some release) :
    ∃ resolved, resolvedDependency identities dep = some resolved := by
  obtain ⟨snapshot, hsnap, hreg⟩ := hlisted dep.key release hsel
  refine ⟨⟨dep.aliasName, providerIdentity dep.key release snapshot.digest⟩,
    (resolvedDependency_eq_some hidents).mpr ⟨rfl, release, hsel, snapshot, hsnap, hreg, rfl⟩⟩

theorem resolvedPackage_eq_some {entry : RegistryPackageKey × RegistryRelease Version Req}
    {pkg : ResolvedRegistryPackage Version} :
    resolvedPackage identities entry = some pkg ↔
      Provides snapshots selected.lookup entry.1 pkg.provider ∧
        entry.2.dependencies.mapM (resolvedDependency identities) = some pkg.dependencies := by
  simp only [resolvedPackage, ← hidents]
  cases hprov : identities.lookup entry.1 with
  | none => simp
  | some provider =>
    cases hdeps : entry.2.dependencies.mapM (resolvedDependency identities) with
    | none => simp
    | some dependencies =>
      obtain ⟨other, others⟩ := pkg
      simp

end

theorem mem_usedSnapshots (hcats : Catalogs snapshots table) {identities : IdentityTable Version}
    {reg : String} {digest : Sha256Digest} : (reg, digest) ∈ usedSnapshots table identities ↔
      ∃ snapshot ∈ snapshots, snapshot.registry = reg ∧ snapshot.digest = digest ∧
        ∃ key ∈ identities.keys, key.registry = reg := by
  simp only [usedSnapshots, mem_map, mem_filter, decide_eq_true_eq, Prod.mk.injEq]
  constructor
  · rintro ⟨⟨_, snapshot⟩, ⟨hentry, hused⟩, rfl, rfl⟩
    obtain ⟨hmem, hreg⟩ := (hcats _ _).mp ((lookup_eq_some table).mpr hentry)
    exact ⟨snapshot, hmem, hreg, rfl, hused⟩
  · rintro ⟨snapshot, hmem, rfl, rfl, hused⟩
    have hentry := (lookup_eq_some table).mp ((hcats _ snapshot).mpr ⟨hmem, rfl⟩)
    exact ⟨(snapshot.registry, snapshot), ⟨hentry, hused⟩, rfl, rfl⟩

/-- A selection that solves the problem can be rendered, and its rendering describes it. -/
theorem renderResolution_describes [SemanticVersions Version Req]
    {roots ordered : List (RootRegistryRequirement Path Req)} (horder : ordered.Perm roots)
    {locked : Locked Version} (hcats : Catalogs snapshots table)
    (hsolves : (resolutionProblem roots snapshots locked).Solves selected.lookup) :
    ∃ resolution, renderResolution table ordered selected = some resolution ∧
      Describes roots snapshots selected.lookup resolution := by
  have hlisted : ∀ key release, selected.lookup key = some release →
      ∃ snapshot ∈ snapshots, snapshot.registry = key.registry := by
    intro key release hsel
    obtain ⟨snapshot, hsnap, hreg, _⟩ := hsolves.offered key release hsel
    exact ⟨snapshot, hsnap, hreg⟩
  obtain ⟨identities, hres, hidents⟩ := exists_identitiesOf hcats hlisted
  -- Every dependency of a selected release is selected, so its provider can be named.
  have hdeps : ∀ entry ∈ selected.entries, ∃ dependencies,
      entry.2.dependencies.mapM (resolvedDependency identities) = some dependencies ∧
        List.Forall₂ (fun dep resolved =>
          resolvedDependency identities dep = some resolved)
          entry.2.dependencies dependencies := by
    rintro ⟨key, release⟩ hentry
    have hsel := (lookup_eq_some selected).mpr hentry
    have hsome : ∀ dep ∈ release.dependencies, ∃ resolved,
        resolvedDependency identities dep = some resolved := by
      intro dep hdep
      obtain ⟨other, hother, _⟩ := hsolves.dependencies key release hsel dep.key
        dep.requirement ⟨dep, hdep, rfl, rfl⟩
      exact exists_resolvedDependency hidents hlisted hother
    obtain ⟨dependencies, hmapped, hall, _⟩ := exists_mapM hsome
    exact ⟨dependencies, hmapped, hall⟩
  have hpackageSome : ∀ entry ∈ selected.entries, ∃ pkg,
      resolvedPackage identities entry = some pkg := by
    rintro ⟨key, release⟩ hentry
    obtain ⟨dependencies, hmapped, _⟩ := hdeps (key, release) hentry
    have hsel := (lookup_eq_some selected).mpr hentry
    obtain ⟨snapshot, hsnap, hreg⟩ := hlisted key release hsel
    exact ⟨⟨providerIdentity key release snapshot.digest, dependencies⟩,
      (resolvedPackage_eq_some hidents).mpr
        ⟨⟨release, hsel, snapshot, hsnap, hreg, rfl⟩, hmapped⟩⟩
  have hrootSome : ∀ root ∈ ordered, ∃ resolved, resolvedRoot identities root = some resolved := by
    intro root hroot
    obtain ⟨release, hsel, _⟩ := hsolves.roots root.dependency.key root.dependency.requirement
      ⟨root, horder.mem_iff.mp hroot, rfl, rfl⟩
    obtain ⟨resolved, hresolved⟩ := exists_resolvedDependency hidents hlisted hsel
    exact ⟨⟨root.ownerManifestPath, resolved⟩, by simp [resolvedRoot, hresolved]⟩
  obtain ⟨pkgs, hpkgs, hall, hmem⟩ := exists_mapM hpackageSome
  obtain ⟨resolvedRoots, hroots, hallRoots, _⟩ := exists_mapM hrootSome
  have hkeys : pkgs.map (fun pkg => pkg.provider.key) = selected.keys :=
    map_eq_of_forall₂ hall fun _ _ hpkg =>
      ((resolvedPackage_eq_some hidents).mp hpkg).1.key_eq
  refine ⟨⟨usedSnapshots table identities, pkgs, resolvedRoots⟩, ?_, ?_⟩
  · simp [renderResolution, hres, hpkgs, hroots]
  constructor
  · rw [hkeys]
    exact selected.keys_sorted
  · intro pkg hpkg
    obtain ⟨⟨key, release⟩, hentry, hresolved⟩ := (hmem pkg).mp hpkg
    obtain ⟨hprovides, hmapped⟩ := (resolvedPackage_eq_some hidents).mp hresolved
    obtain ⟨dependencies, hothers, hallDependencies⟩ := hdeps (key, release) hentry
    obtain rfl : dependencies = pkg.dependencies := by simpa [hothers] using hmapped
    rw [hprovides.key_eq]
    refine ⟨release, (lookup_eq_some selected).mpr hentry, hprovides, ?_⟩
    exact hallDependencies.imp fun _ _ => (resolvedDependency_eq_some hidents).mp
  · intro key release hsel
    have hkey : key ∈ pkgs.map (fun pkg => pkg.provider.key) := by
      rw [hkeys]
      exact selected.mem_keys.mpr ⟨release, hsel⟩
    exact mem_map.mp hkey
  · refine ⟨ordered, horder, hallRoots.imp ?_⟩
    intro root resolved hresolved
    obtain ⟨dep, hdep, rfl⟩ := Option.map_eq_some_iff.mp hresolved
    exact ⟨rfl, (resolvedDependency_eq_some hidents).mp hdep⟩
  · intro reg digest
    have hused : (∃ key ∈ identities.keys, key.registry = reg) ↔
        ∃ pkg ∈ pkgs, pkg.provider.registry = reg := by
      have hsame : ∀ key, key ∈ identities.keys ↔
          key ∈ pkgs.map fun pkg => pkg.provider.key := by
        intro key
        rw [hkeys, identities.mem_keys, selected.mem_keys]
        constructor
        · rintro ⟨identity, hident⟩
          obtain ⟨release, hsel, _⟩ := (hidents _ _).mp hident
          exact ⟨release, hsel⟩
        · rintro ⟨release, hsel⟩
          obtain ⟨snapshot, hsnap, hreg⟩ := hlisted key release hsel
          exact ⟨_, (hidents _ _).mpr ⟨release, hsel, snapshot, hsnap, hreg, rfl⟩⟩
      simp only [hsame, mem_map]
      constructor
      · rintro ⟨_, ⟨pkg, hpkg, rfl⟩, hreg⟩
        exact ⟨pkg, hpkg, hreg⟩
      · rintro ⟨pkg, hpkg, hreg⟩
        exact ⟨_, ⟨pkg, hpkg, rfl⟩, hreg⟩
    rw [mem_usedSnapshots hcats, hused]

/-! ## What the resolver comes to -/

variable [ManifestPaths Path] [SemanticVersions Version Req] [DecidableEq Version]

/-- The answers that the resolver may give. -/
inductive Answer (roots : List (RootRegistryRequirement Path Req))
    (snapshots : List (RegistrySnapshot Version Req)) (previouslyLocked : Locked Version) :
    Except RegistryResolutionError (RegistryResolution Path Version) → Prop
  | resolved (resolution : RegistryResolution Path Version)
      (selection : RegistryPackageKey → Option (RegistryRelease Version Req))
      (hsolves : (resolutionProblem roots snapshots previouslyLocked).Solves selection)
      (hdesc : Describes roots snapshots selection resolution) :
      Answer roots snapshots previouslyLocked (.ok resolution)
  | duplicate (snapshot : RegistrySnapshot Version Req) (hmem : snapshot ∈ snapshots)
      (hduplicate : ¬ (snapshots.map RegistrySnapshot.registry).Nodup) :
      Answer roots snapshots previouslyLocked (.error (.duplicateSnapshot snapshot.registry))
  | limit (attempts : Nat) (hlimit : registryResolutionAttemptLimit < attempts)
      (table : SnapshotTable Version Req) (constraints : ConstraintTable Req)
      (hsearch : solveRegistryConstraints table previouslyLocked (packageCount snapshots + 1)
        constraints .empty 0 =
          some (.error (.searchLimitExceeded registryResolutionAttemptLimit), attempts)) :
      Answer roots snapshots previouslyLocked
        (.error (.searchLimitExceeded registryResolutionAttemptLimit))
  | unsolvable (error : RegistryResolutionError) (hconf : error.IsConflict)
      (hunsolvable : ∀ selection,
        ¬ (resolutionProblem roots snapshots previouslyLocked).Solves selection) :
      Answer roots snapshots previouslyLocked (.error error)

omit [DecidableEq Version] in
theorem represents_roots {roots : List (RootRegistryRequirement Path Req)}
    {snapshots : List (RegistrySnapshot Version Req)} {locked : Locked Version}
    {table : SnapshotTable Version Req} {constraints : ConstraintTable Req}
    (hadd : addRoots table (orderRoots roots) .empty = .ok constraints) :
    Represents (resolutionProblem roots snapshots locked) constraints
      empty := by
  have hadded : Added table RootRegistryRequirement.dependency (orderRoots roots)
      empty (addRoots table (orderRoots roots) .empty) :=
    addConstraints_added (fun _ => rfl) (by simp [Populated])
  have horder : (orderRoots roots).Perm roots := mergeSort_perm _ _
  rw [hadd] at hadded
  cases hadded with
  | added _ hpopulated hdemands =>
    refine ⟨Justified.empty, hpopulated, ?_⟩
    intro key req
    rw [hdemands]
    simp [Demands, Required, resolutionProblem, horder.mem_iff]

theorem exists_answer (roots : List (RootRegistryRequirement Path Req))
    (snapshots : List (RegistrySnapshot Version Req)) (previouslyLocked : Locked Version) :
    ∃ result, resolveRegistryDependencies roots snapshots previouslyLocked = some result ∧
      Answer roots snapshots previouslyLocked result := by
  have hcataloged : Cataloged ([] ++ snapshots) (snapshotsByRegistry snapshots .empty) :=
    snapshotsByRegistry_cataloged (by simp [Catalogs]) (by simp)
  rw [nil_append] at hcataloged
  unfold resolveRegistryDependencies
  generalize snapshotsByRegistry snapshots .empty = cataloged at hcataloged
  cases hcataloged with
  | duplicate snapshot hmem hduplicate => exact ⟨_, rfl, .duplicate snapshot hmem hduplicate⟩
  | table table hcats _ =>
    have hadded : Added table RootRegistryRequirement.dependency (orderRoots roots)
        empty (addRoots table (orderRoots roots) .empty) :=
      addConstraints_added (fun _ => rfl) (by simp [Populated])
    have horder : (orderRoots roots).Perm roots := mergeSort_perm _ _
    simp only
    generalize hadd : addRoots table (orderRoots roots) .empty = added at hadded
    cases hadded with
    | missing root hmem hmiss =>
      refine ⟨_, rfl, .unsolvable (.missingSnapshot root.dependency.registry) trivial ?_⟩
      intro selection hsolves
      obtain ⟨release, hsel, _⟩ := hsolves.roots root.dependency.key
        root.dependency.requirement ⟨root, horder.mem_iff.mp hmem, rfl, rfl⟩
      obtain ⟨snapshot, hsnap, hreg, _⟩ := hsolves.offered _ release hsel
      have htable := (hcats root.dependency.registry snapshot).mpr ⟨hsnap, hreg⟩
      simp [hmiss] at htable
    | added constraints _ _ =>
      have hrep : Represents (resolutionProblem roots snapshots previouslyLocked)
          constraints empty := represents_roots hadd
      have hfuel : packageCount snapshots < packageCount snapshots + 1 +
          (empty : SelectedTable Version Req).keys.toFinset.card := by
        simp
      obtain ⟨result, attempts, hres, hout⟩ :=
        solveRegistryConstraints_outcome hcats hfuel constraints 0 hrep
      simp only [hres]
      cases hout with
      | solved solution hsolves =>
        obtain ⟨resolution, hresolution, hdesc⟩ := renderResolution_describes horder hcats hsolves
        exact ⟨.ok resolution, by simp [hresolution], .resolved resolution _ hsolves hdesc⟩
      | limit _ hlimit =>
        exact ⟨_, rfl, .limit attempts hlimit table constraints hres⟩
      | unsolvable error hconf hunsolvable =>
        refine ⟨_, rfl, .unsolvable error hconf ?_⟩
        intro selection hsolves
        exact hunsolvable ⟨selection, hsolves, by simp [Extends]⟩

/-- The resolver always comes to an answer: it does not panic, and the search ends. -/
theorem resolveRegistryDependencies_answer
    (roots : List (RootRegistryRequirement Path Req))
    (snapshots : List (RegistrySnapshot Version Req)) (previouslyLocked : Locked Version) :
    ∃ result, resolveRegistryDependencies roots snapshots previouslyLocked = some result ∧
      Answer roots snapshots previouslyLocked result :=
  exists_answer roots snapshots previouslyLocked

end Salicin.Registry
