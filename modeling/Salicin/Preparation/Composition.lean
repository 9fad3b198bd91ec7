import Salicin.Preparation.Materialized

/-!
# The packages of a composed graph

A composed graph has the local packages and the registry packages that can be reached from them.
Each has the dependencies that it declares by path and an edge for each provider that was selected
for it.
-/

namespace Salicin.Preparation

open List ComparisonSort Registry StackSearch
open Locking (CanonicalPath LockedVersions)

variable {Version Req : Type}

/-! ## What is selected -/

/-- The dependency on the package of the selected provider. -/
def selectedEdge (srcs : SourceTable Version Req)
    (dependency : ResolvedRegistryDependency Version) : Option (Dependency Version) :=
  (srcs dependency.provider).map fun target => {
    aliasName := dependency.aliasName
    path := target.manifest.packageRoot
    manifestPath := target.manifest.manifestPath
    package := target.manifest.package }

def selectedEdges (srcs : SourceTable Version Req)
    (deps : List (ResolvedRegistryDependency Version)) : List (Dependency Version) :=
  deps.filterMap (selectedEdge srcs)

/-- What was selected for the package of a manifest. -/
def rootsOf (resolution : RegistryResolution CanonicalPath Version) (owner : CanonicalPath) :
    List (ResolvedRegistryDependency Version) :=
  (resolution.roots.filter (·.ownerManifestPath = owner)).map (·.dependency)

/-- The providers that the local packages need, and those that these need in turn. -/
inductive ReachableProvider (localGraph : DependencyGraph Version Req)
    (resolution : RegistryResolution CanonicalPath Version) :
    RegistryProviderIdentity Version → Prop where
  | root {root : ResolvedRootRegistryDependency CanonicalPath Version}
      (hroot : root ∈ resolution.roots)
      (howner : root.ownerManifestPath ∈ localGraph.packages.map (·.manifestPath)) :
      ReachableProvider localGraph resolution root.dependency.provider
  | dependency {pkg : ResolvedRegistryPackage Version}
      {dependency : ResolvedRegistryDependency Version}
      (hreachable : ReachableProvider localGraph resolution pkg.provider)
      (hpkg : pkg ∈ resolution.packages) (hdep : dependency ∈ pkg.dependencies) :
      ReachableProvider localGraph resolution dependency.provider

/-- The manifest with some edges added. -/
structure Extends (manifest : Manifest Version Req) (edges : List (Dependency Version))
    (result : Manifest Version Req) : Prop where
  package : result.package = manifest.package
  lib : result.lib = manifest.lib
  registryDependencies : result.registryDependencies = manifest.registryDependencies
  manifestPath : result.manifestPath = manifest.manifestPath
  packageRoot : result.packageRoot = manifest.packageRoot
  dependencies : result.dependencies.Perm (manifest.dependencies ++ edges)

/-! ## Attaching -/

def attach (srcs : SourceTable Version Req) (owner : Manifest Version Req)
    (dependency : ResolvedRegistryDependency Version) : Manifest Version Req :=
  { owner with
    dependencies := sortBy (byKey (·.aliasName))
      (owner.dependencies ++ (selectedEdge srcs dependency).toList) }

def attachAll (srcs : SourceTable Version Req) (owner : Manifest Version Req)
    (deps : List (ResolvedRegistryDependency Version)) : Manifest Version Req :=
  deps.foldl (attach srcs) owner

section
variable {srcs : SourceTable Version Req}

theorem attachAll_extends (owner : Manifest Version Req)
    (deps : List (ResolvedRegistryDependency Version)) :
    Extends owner (selectedEdges srcs deps) (attachAll srcs owner deps) := by
  induction deps generalizing owner with
  | nil =>
    refine ⟨rfl, rfl, rfl, rfl, rfl, ?_⟩
    rw [selectedEdges, filterMap_nil, append_nil]
    exact .refl _
  | cons dependency rest ih =>
    have hrest := ih (attach srcs owner dependency)
    refine ⟨hrest.package, hrest.lib, hrest.registryDependencies, hrest.manifestPath,
      hrest.packageRoot, hrest.dependencies.trans ?_⟩
    have hedges : selectedEdges srcs (dependency :: rest) =
        (selectedEdge srcs dependency).toList ++ selectedEdges srcs rest := by
      rw [selectedEdges, filterMap_cons]
      cases selectedEdge srcs dependency <;> rfl
    rw [hedges, ← append_assoc]
    exact (perm_sortBy _ _).append_right _

variable [DecidableEq Version] [LockedVersions Version]

/-- The sources have the provider of every dependency. -/
def Available (srcs : SourceTable Version Req)
    (deps : List (ResolvedRegistryDependency Version)) : Prop :=
  ∀ dependency ∈ deps, ∃ source, srcs dependency.provider = some source

omit [DecidableEq Version] in
theorem attachDependency_eq {owner : Manifest Version Req}
    {dependency : ResolvedRegistryDependency Version} {src : VerifiedRegistrySource Version Req}
    (hsrc : srcs dependency.provider = some src) :
    attachDependency srcs owner dependency = .ok (attach srcs owner dependency) := by
  rw [attachDependency, hsrc, attach, selectedEdge, hsrc]
  rfl

omit [DecidableEq Version] in
theorem foldlM_attachDependency_eq {deps : List (ResolvedRegistryDependency Version)}
    (havail : Available srcs deps) (owner : Manifest Version Req) :
    deps.foldlM (attachDependency srcs) owner =
      .ok (attachAll srcs owner deps) := by
  induction deps generalizing owner with
  | nil => rfl
  | cons dependency rest ih =>
    obtain ⟨src, hsrc⟩ := havail dependency mem_cons_self
    have hrest := ih (fun other hother => havail other (mem_cons_of_mem _ hother))
      (attach srcs owner dependency)
    rw [foldlM_cons, attachDependency_eq hsrc]
    exact hrest

/-- The dependency of a root, on the manifests with the path of its owner. -/
def attachedRoot (srcs : SourceTable Version Req)
    (root : ResolvedRootRegistryDependency CanonicalPath Version)
    (manifest : Manifest Version Req) : Manifest Version Req :=
  if manifest.manifestPath = root.ownerManifestPath then attach srcs manifest root.dependency
  else manifest

omit [DecidableEq Version] [LockedVersions Version] in
theorem attachedRoot_manifestPath (root : ResolvedRootRegistryDependency CanonicalPath Version)
    (manifest : Manifest Version Req) :
    (attachedRoot srcs root manifest).manifestPath = manifest.manifestPath := by
  rw [attachedRoot]
  split <;> rfl

omit [DecidableEq Version] in
theorem attachRoot_eq {root : ResolvedRootRegistryDependency CanonicalPath Version}
    {src : VerifiedRegistrySource Version Req} (hsrc : srcs root.dependency.provider = some src)
    {manifests : List (Manifest Version Req)} (hnodup : (manifests.map (·.manifestPath)).Nodup) :
    attachRoot srcs root manifests = .ok (manifests.map (attachedRoot srcs root)) := by
  induction manifests with
  | nil => rfl
  | cons manifest rest ih =>
    rw [map_cons, nodup_cons] at hnodup
    rw [attachRoot, map_cons]
    by_cases howner : manifest.manifestPath = root.ownerManifestPath
    · have hrest : rest.map (attachedRoot srcs root) = rest := by
        refine (map_congr_left fun other hother => ?_).trans (map_id rest)
        rw [id, attachedRoot, if_neg]
        intro hsame
        apply hnodup.1
        rw [howner, ← hsame]
        exact mem_map.mpr ⟨other, hother, rfl⟩
      rw [if_pos howner, attachDependency_eq hsrc, hrest, attachedRoot, if_pos howner]
      rfl
    · rw [if_neg howner, ih hnodup.2, attachedRoot, if_neg howner]
      rfl

omit [DecidableEq Version] in
/-- Each manifest gets the dependencies of the roots with its path. -/
theorem foldlM_attachRoot_eq {roots : List (ResolvedRootRegistryDependency CanonicalPath Version)}
    (havail : Available srcs (roots.map (·.dependency)))
    {manifests : List (Manifest Version Req)} (hnodup : (manifests.map (·.manifestPath)).Nodup) :
    roots.foldlM (fun manifests root => attachRoot srcs root manifests) manifests =
      .ok (manifests.map fun manifest => attachAll srcs manifest
        ((roots.filter (·.ownerManifestPath = manifest.manifestPath)).map (·.dependency))) := by
  induction roots generalizing manifests with
  | nil => exact congrArg Except.ok (map_id manifests).symm
  | cons root rest ih =>
    obtain ⟨src, hsrc⟩ := havail root.dependency mem_cons_self
    have hpaths : (manifests.map (attachedRoot srcs root)).map (·.manifestPath) =
        manifests.map (·.manifestPath) := by
      rw [map_map]
      exact map_congr_left fun manifest _ => attachedRoot_manifestPath root manifest
    have hrest := ih (fun other hother => havail other (mem_cons_of_mem _ hother))
      (hpaths ▸ hnodup)
    rw [foldlM_cons, attachRoot_eq hsrc hnodup]
    refine hrest.trans ?_
    rw [map_map]
    refine congrArg Except.ok (map_congr_left fun manifest _ => ?_)
    rw [Function.comp_apply, attachedRoot_manifestPath, attachedRoot, filter_cons]
    by_cases howner : manifest.manifestPath = root.ownerManifestPath
    · rw [if_pos howner, if_pos (by simpa using howner.symm)]
      rfl
    · rw [if_neg howner, if_neg (by simpa using fun h => howner h.symm)]

end

/-! ## What can be reached -/

variable {provider : RegistryProviderIdentity Version}

section
variable [DecidableEq Version] {pkgs : List (ResolvedRegistryPackage Version)}

theorem packageOf_eq_some (hnodup : (pkgs.map (·.provider)).Nodup)
    {pkg : ResolvedRegistryPackage Version} :
    packageOf pkgs provider = some pkg ↔
      pkg ∈ pkgs ∧ pkg.provider = provider := by
  rw [packageOf]
  constructor
  · intro hfind
    have hmem := mem_reverse.mp (mem_of_find?_eq_some hfind)
    exact ⟨hmem, by simpa using List.find?_some hfind⟩
  · rintro ⟨hmem, hprov⟩
    cases hfind : pkgs.reverse.find? fun pkg => pkg.provider = provider with
    | none =>
      have hnone := List.find?_eq_none.mp hfind pkg (mem_reverse.mpr hmem)
      exact absurd hprov (by simpa using hnone)
    | some found =>
      have hfound := mem_reverse.mp (mem_of_find?_eq_some hfind)
      have hsame : found.provider = provider := by simpa using List.find?_some hfind
      rw [inj_on_of_nodup_map hnodup hfound hmem (hsame.trans hprov.symm)]

variable [LockedVersions Version]

theorem providerSuccessors_eq (hnodup : (pkgs.map (·.provider)).Nodup)
    {pkg : ResolvedRegistryPackage Version} (hpkg : pkg ∈ pkgs) :
    providerSuccessors pkgs pkg.provider = .ok (pkg.dependencies.map (·.provider)) := by
  rw [providerSuccessors, (packageOf_eq_some hnodup).mpr ⟨hpkg, rfl⟩]

theorem exists_of_providerSuccessors (hnodup : (pkgs.map (·.provider)).Nodup)
    {next : List (RegistryProviderIdentity Version)}
    (h : providerSuccessors pkgs provider = .ok next) :
    ∃ pkg ∈ pkgs, pkg.provider = provider ∧
      next = pkg.dependencies.map (·.provider) := by
  rw [providerSuccessors] at h
  cases hfound : packageOf pkgs provider with
  | none =>
    rw [hfound] at h
    cases h
  | some pkg =>
    rw [hfound] at h
    cases h
    obtain ⟨hpkg, hprov⟩ := (packageOf_eq_some hnodup).mp hfound
    exact ⟨pkg, hpkg, hprov, rfl⟩

end

/-- What is known of a resolution that was accepted for a project of these packages. -/
structure AcceptedFor (localGraph : DependencyGraph Version Req)
    (resolution : RegistryResolution CanonicalPath Version) : Prop where
  providers : (resolution.packages.map (·.provider)).Nodup
  dependencies : ∀ pkg ∈ resolution.packages, ∀ dependency ∈ pkg.dependencies,
    dependency.provider ∈ resolution.packages.map (·.provider)
  roots : ∀ root ∈ resolution.roots, root.dependency.provider ∈ resolution.packages.map (·.provider)
  aliases : ∀ pkg ∈ resolution.packages, (pkg.dependencies.map (·.aliasName)).Nodup
  rootAliases : ∀ manifest ∈ localGraph.packages,
    ((rootsOf resolution manifest.manifestPath).map (·.aliasName)).Perm
      (manifest.registryDependencies.map (·.aliasName))

section
variable {localGraph : DependencyGraph Version Req}
  {resolution : RegistryResolution CanonicalPath Version}

theorem mem_localProviders :
    provider ∈ (localProviders localGraph resolution).reverse ↔
      ∃ root ∈ resolution.roots, root.ownerManifestPath ∈ localGraph.packages.map (·.manifestPath) ∧
        root.dependency.provider = provider := by
  rw [mem_reverse, localProviders, mem_map]
  simp only [mem_filter, decide_eq_true_eq, and_assoc]

theorem ReachableProvider.listed (hacc : AcceptedFor localGraph resolution)
    (hreachable : ReachableProvider localGraph resolution provider) :
    provider ∈ resolution.packages.map (·.provider) := by
  cases hreachable with
  | root hroot _ => exact hacc.roots _ hroot
  | dependency _ hpkg hdep => exact hacc.dependencies _ hpkg _ hdep

variable [DecidableEq Version] [LockedVersions Version]

theorem reachable_iff (hacc : AcceptedFor localGraph resolution) :
    StackSearch.Reachable (providerSuccessors resolution.packages)
        (localProviders localGraph resolution).reverse provider ↔
      ReachableProvider localGraph resolution provider := by
  constructor
  · rintro ⟨first, hfst, hreach⟩
    induction hreach with
    | refl =>
      obtain ⟨root, hroot, howner, hprov⟩ := mem_localProviders.mp hfst
      rw [← hprov]
      exact .root hroot howner
    | tail _ hedge ih =>
      obtain ⟨next, hnext, hmem⟩ := hedge
      obtain ⟨pkg, hpkg, hprov, rfl⟩ := exists_of_providerSuccessors hacc.providers hnext
      obtain ⟨dependency, hdep, hsame⟩ := mem_map.mp hmem
      rw [← hsame]
      exact .dependency (hprov ▸ ih) hpkg hdep
  · intro hreachable
    induction hreachable with
    | root hroot howner =>
      exact ⟨_, mem_localProviders.mpr ⟨_, hroot, howner, rfl⟩, .refl⟩
    | dependency _ hpkg hdep ih =>
      obtain ⟨first, hfst, hreach⟩ := ih
      refine ⟨first, hfst, hreach.tail
        ⟨_, providerSuccessors_eq hacc.providers hpkg, ?_⟩⟩
      exact mem_map.mpr ⟨_, hdep, rfl⟩

/-- The loop over the pending providers ends with those that can be reached. -/
theorem exists_reachableProviders (hacc : AcceptedFor localGraph resolution) :
    ∃ reachable, reachableProviders localGraph resolution = some (.ok reachable) ∧
      ∀ provider, provider ∈ reachable ↔ ReachableProvider localGraph resolution provider := by
  have hcovers : StackSearch.Covers (providerSuccessors resolution.packages)
      (resolution.packages.map (·.provider)) := by
    intro provider next hnext
    obtain ⟨pkg, hpkg, rfl, _⟩ := exists_of_providerSuccessors hacc.providers hnext
    exact mem_map.mpr ⟨pkg, hpkg, rfl⟩
  have hroom : remaining (providerSuccessors resolution.packages)
      (resolution.packages.map (·.provider)) [] =
        (resolution.packages.map (·.dependencies.length)).sum := by
    rw [remaining, map_map]
    refine congrArg List.sum (map_congr_left fun pkg hpkg => ?_)
    rw [Function.comp_apply, if_neg not_mem_nil, degree, providerSuccessors_eq hacc.providers hpkg]
    exact length_map _
  have hstart :
      (localProviders localGraph resolution).reverse.length ≤ resolution.roots.length := by
    rw [length_reverse, localProviders, length_map]
    exact length_filter_le _ _
  obtain ⟨result, hres⟩ : ∃ result, reachableProviders localGraph resolution = some result := by
    apply search_isSome hcovers
    rw [hroom, searchBound]
    omega
  have hinv : StackSearch.Invariant (providerSuccessors resolution.packages)
      (localProviders localGraph resolution).reverse (localProviders localGraph resolution).reverse
      [] := invariant_start _
  cases result with
  | error error =>
    refine absurd hres (search_no_error hinv ?_)
    intro provider hreach
    obtain ⟨pkg, hpkg, rfl⟩ := mem_map.mp (((reachable_iff hacc).mp hreach).listed hacc)
    exact ⟨_, providerSuccessors_eq hacc.providers hpkg⟩
  | ok reachable =>
    refine ⟨reachable, hres, fun provider => ?_⟩
    rw [(search_ok hinv hres).2, reachable_iff hacc]

end

end Salicin.Preparation
