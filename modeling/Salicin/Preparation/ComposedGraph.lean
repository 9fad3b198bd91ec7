import Salicin.Preparation.Composition

/-!
# When a composed graph is well formed

Packages are told apart by the paths of their manifests in a graph, and by their providers in a
resolution. The paths of registry packages are made from the digests of their archives, so two
releases with one archive come to stand at one path.
-/

namespace Salicin.Preparation

open List ComparisonSort Registry OptionLists
open Locking (CanonicalPath LockedVersions)

variable {Version Req : Type}

/-- The dependency is on a package of the graph. -/
def DependencyGraph.Names (graph : DependencyGraph Version Req)
    (dep : Dependency Version) : Prop :=
  ∃ target ∈ graph.packages, dep.manifestPath = target.manifestPath ∧
    dep.path = target.packageRoot ∧ dep.package = target.package

/-- What the manifest loader has checked of the local packages. -/
structure DependencyGraph.Loaded (graph : DependencyGraph Version Req) : Prop where
  manifestPaths : (graph.packages.map (·.manifestPath)).Nodup
  dependencies : ∀ manifest ∈ graph.packages, ∀ dep ∈ manifest.dependencies, graph.Names dep
  aliases : ∀ manifest ∈ graph.packages, (manifest.dependencies.map (·.aliasName) ++
    manifest.registryDependencies.map (·.aliasName)).Nodup

/-! ## What a graph is made of -/

/-- A package of the project, or a registry package. -/
inductive Node (Version : Type) where
  | project (manifestPath : CanonicalPath)
  | registry (provider : RegistryProviderIdentity Version)

section
variable (localGraph : DependencyGraph Version Req)
  (resolution : RegistryResolution CanonicalPath Version)

/-- The local packages, and the registry packages that can be reached from them. -/
inductive InGraph : Node Version → Prop where
  | project {manifestPath : CanonicalPath}
      (hmem : manifestPath ∈ localGraph.packages.map (·.manifestPath)) :
      InGraph (.project manifestPath)
  | registry {provider : RegistryProviderIdentity Version}
      (hreach : ReachableProvider localGraph resolution provider) :
      InGraph (.registry provider)

variable (srcs : SourceTable Version Req)

/-- The manifest is that of the package, with the edges that were selected for it. -/
inductive Realizes : Node Version → Manifest Version Req → Prop where
  | project {declared manifest : Manifest Version Req}
      (hdecl : declared ∈ localGraph.packages)
      (hext : Extends declared
        (selectedEdges srcs (rootsOf resolution declared.manifestPath)) manifest) :
      Realizes (.project declared.manifestPath) manifest
  | registry {pkg : ResolvedRegistryPackage Version}
      {src : VerifiedRegistrySource Version Req}
      {manifest : Manifest Version Req}
      (hpkg : pkg ∈ resolution.packages)
      (hsrc : srcs pkg.provider = some src)
      (hext : Extends src.manifest (selectedEdges srcs pkg.dependencies) manifest) :
      Realizes (.registry pkg.provider) manifest

/-- The packages are those of the nodes, which are what the graph is made of. -/
structure Listing (nodes : List (Node Version)) (pkgs : List (Manifest Version Req)) :
    Prop where
  nodup : nodes.Nodup
  mem_iff : ∀ node, node ∈ nodes ↔ InGraph localGraph resolution node
  realizes : List.Forall₂ (Realizes localGraph resolution srcs) nodes pkgs

/-- The packages are listed, each once and with the selected edges, at different paths; the edges
name packages of the graph, and the aliases of a package are different. -/
structure WellComposed (graph : DependencyGraph Version Req) : Prop where
  root : graph.rootManifestPath = localGraph.rootManifestPath
  lists : ∃ nodes, Listing localGraph resolution srcs nodes graph.packages
  paths : (graph.packages.map (·.manifestPath)).Nodup
  edges : ∀ manifest ∈ graph.packages, ∀ dep ∈ manifest.dependencies, graph.Names dep
  aliases : ∀ manifest ∈ graph.packages, (manifest.dependencies.map (·.aliasName)).Nodup

/-- No two of the releases that can be reached have one archive, and none is put where a local
package is. -/
structure Separate (cacheRoot : CanonicalPath) : Prop where
  archives : ∀ first second, ReachableProvider localGraph resolution first →
    ReachableProvider localGraph resolution second →
    first.archiveSha256 = second.archiveSha256 → first = second
  locals : ∀ provider, ReachableProvider localGraph resolution provider →
    manifestPathIn (sourceCachePath cacheRoot provider.archiveSha256) ∉
      localGraph.packages.map (·.manifestPath)

end

/-! ## The paths of the nodes -/

def Node.path (cacheRoot : CanonicalPath) : Node Version → CanonicalPath
  | .project manifestPath => manifestPath
  | .registry provider => manifestPathIn (sourceCachePath cacheRoot provider.archiveSha256)

theorem osName_injective {first second : String} (h : osName first = osName second) :
    first = second := by
  rw [osName, osName, map_inj_right fun _ _ h => Locking.NamePart.char.inj h] at h
  exact String.toList_inj.mp h

theorem digest_eq_of_path {cacheRoot : CanonicalPath} {first second : Sha256Digest}
    (h : manifestPathIn (sourceCachePath cacheRoot first) =
      manifestPathIn (sourceCachePath cacheRoot second)) : first = second := by
  have hnames := append_cancel_right (congrArg CanonicalPath.names h)
  have hlast : [osName "sources", osName "sha256", osName first.text] =
      [osName "sources", osName "sha256", osName second.text] := append_cancel_left hnames
  simp only [cons.injEq, true_and, and_true] at hlast
  have htext := osName_injective hlast
  cases first
  cases second
  cases htext
  rfl

section
variable {localGraph : DependencyGraph Version Req}
  {resolution : RegistryResolution CanonicalPath Version} {cacheRoot : CanonicalPath}
  {srcs : SourceTable Version Req}

theorem separate_iff :
    Separate localGraph resolution cacheRoot ↔
      ∀ first second, InGraph localGraph resolution first → InGraph localGraph resolution second →
        first.path cacheRoot = second.path cacheRoot → first = second := by
  constructor
  · intro hsep first second hfst hsnd hpath
    cases hfst with
    | project hmem =>
      cases hsnd with
      | project _ => exact congrArg Node.project hpath
      | registry hreach =>
        rw [Node.path, Node.path] at hpath
        exact absurd (hpath ▸ hmem) (hsep.locals _ hreach)
    | registry hreach =>
      cases hsnd with
      | project hmem =>
        rw [Node.path, Node.path] at hpath
        exact absurd (hpath ▸ hmem) (hsep.locals _ hreach)
      | registry hother =>
        exact congrArg Node.registry
          (hsep.archives _ _ hreach hother (digest_eq_of_path hpath))
  · intro hinj
    constructor
    · intro first second hfst hsnd hdigest
      have hnodes := hinj (.registry first) (.registry second) (.registry hfst)
        (.registry hsnd) (by rw [Node.path, Node.path, hdigest])
      exact Node.registry.inj hnodes
    · intro provider hreach hmem
      have hnodes := hinj (.project _) (.registry provider) (.project hmem)
        (.registry hreach) rfl
      cases hnodes

/-! ## Composing -/

variable {pkgs : List (ResolvedRegistryPackage Version)}

theorem SourcesFor.exists_source [SemanticVersions Version Req]
    (hsrcs : SourcesFor cacheRoot pkgs srcs) {provider : RegistryProviderIdentity Version}
    (hprov : provider ∈ pkgs.map (·.provider)) :
    ∃ src release, srcs provider = some src ∧
      Verified cacheRoot provider release src := by
  obtain ⟨pkg, hpkg, rfl⟩ := mem_map.mp hprov
  exact hsrcs pkg hpkg

/-- The manifest of a package with its edges, if its source is there. -/
def attachedManifest (srcs : SourceTable Version Req)
    (pkg : ResolvedRegistryPackage Version) : Option (Manifest Version Req) :=
  (srcs pkg.provider).map fun src =>
    attachAll srcs src.manifest pkg.dependencies

/-- The nodes of a composed graph, as they are put together. -/
def composedNodes (localGraph : DependencyGraph Version Req)
    (pkgs : List (ResolvedRegistryPackage Version)) : List (Node Version) :=
  localGraph.packages.map (fun manifest => .project manifest.manifestPath) ++
    pkgs.map fun pkg => .registry pkg.provider

theorem composedNodes_nodup (hpaths : (localGraph.packages.map (·.manifestPath)).Nodup)
    (hprovs : (pkgs.map (·.provider)).Nodup) :
    (composedNodes localGraph pkgs).Nodup := by
  have hprojects : (localGraph.packages.map fun manifest =>
      (.project manifest.manifestPath : Node Version)).Nodup := by
    have hmapped := hpaths.map (f := fun path => (.project path : Node Version))
      fun _ _ h => Node.project.inj h
    rwa [map_map] at hmapped
  have hregs : (pkgs.map fun pkg =>
      (.registry pkg.provider : Node Version)).Nodup := by
    have hmapped := hprovs.map (f := fun provider => (.registry provider : Node Version))
      fun _ _ h => Node.registry.inj h
    rwa [map_map] at hmapped
  refine List.Nodup.append hprojects hregs fun node hproject hreg => ?_
  obtain ⟨manifest, _, rfl⟩ := mem_map.mp hproject
  obtain ⟨pkg, _, hnode⟩ := mem_map.mp hreg
  cases hnode

theorem mem_composedNodes (hpkgs : ∀ provider, provider ∈ pkgs.map (·.provider) ↔
      ReachableProvider localGraph resolution provider) {node : Node Version} :
    node ∈ composedNodes localGraph pkgs ↔ InGraph localGraph resolution node := by
  rw [composedNodes, mem_append, mem_map, mem_map]
  constructor
  · rintro (⟨manifest, hmanifest, rfl⟩ | ⟨pkg, hpkg, rfl⟩)
    · exact .project (mem_map.mpr ⟨manifest, hmanifest, rfl⟩)
    · exact .registry ((hpkgs _).mp (mem_map.mpr ⟨pkg, hpkg, rfl⟩))
  · rintro (hmem | hreach)
    · obtain ⟨manifest, hmanifest, rfl⟩ := mem_map.mp hmem
      exact .inl ⟨manifest, hmanifest, rfl⟩
    · obtain ⟨pkg, hpkg, rfl⟩ := mem_map.mp ((hpkgs _).mpr hreach)
      exact .inr ⟨pkg, hpkg, rfl⟩

theorem exists_sorted {α β : Type} {relation : α → β → Prop} {first : List α}
    {second sorted : List β} (hall : List.Forall₂ relation first second)
    (hsorted : second.Perm sorted) :
    ∃ third, first.Perm third ∧ List.Forall₂ relation third sorted := by
  have hcomp : Relation.Comp (List.Forall₂ relation) List.Perm first sorted :=
    ⟨second, hall, hsorted⟩
  rwa [forall₂_comp_perm_eq_perm_comp_forall₂] at hcomp

variable [SemanticVersions Version Req]

theorem AcceptedFor.available (hacc : AcceptedFor localGraph resolution)
    (hsrcs : SourcesFor cacheRoot resolution.packages srcs)
    {pkg : ResolvedRegistryPackage Version} (hpkg : pkg ∈ resolution.packages) :
    Available srcs pkg.dependencies := by
  intro dep hdep
  obtain ⟨src, _, hsrc, _⟩ := hsrcs.exists_source (hacc.dependencies pkg hpkg dep hdep)
  exact ⟨src, hsrc⟩

theorem AcceptedFor.rootsAvailable (hacc : AcceptedFor localGraph resolution)
    (hsrcs : SourcesFor cacheRoot resolution.packages srcs) :
    Available srcs (resolution.roots.map (·.dependency)) := by
  intro dep hdep
  obtain ⟨root, hroot, rfl⟩ := mem_map.mp hdep
  obtain ⟨src, _, hsrc, _⟩ := hsrcs.exists_source (hacc.roots root hroot)
  exact ⟨src, hsrc⟩

variable [LockedVersions Version]

theorem registryManifest_eq (havail : ∀ pkg ∈ pkgs, Available srcs pkg.dependencies)
    (hsrcs : SourcesFor cacheRoot pkgs srcs) :
    ∃ manifests, pkgs.mapM (registryManifest srcs) = .ok manifests ∧
      List.Forall₂ (fun pkg manifest => attachedManifest srcs pkg = some manifest)
        pkgs manifests := by
  induction pkgs with
  | nil => exact ⟨[], rfl, .nil⟩
  | cons pkg rest ih =>
    obtain ⟨manifests, hmanifests, hall⟩ :=
      ih (fun other hother => havail other (mem_cons_of_mem _ hother))
        (fun other hother => hsrcs other (mem_cons_of_mem _ hother))
    obtain ⟨src, _, hsrc, _⟩ := hsrcs pkg mem_cons_self
    have hfst : registryManifest srcs pkg =
        .ok (attachAll srcs src.manifest pkg.dependencies) := by
      rw [registryManifest, hsrc]
      exact foldlM_attachDependency_eq (havail pkg mem_cons_self) src.manifest
    refine ⟨attachAll srcs src.manifest pkg.dependencies :: manifests, ?_, ?_⟩
    · rw [mapM_cons, hfst, hmanifests]
      rfl
    · refine .cons ?_ hall
      rw [attachedManifest, hsrc]
      rfl

variable [DecidableEq Version] [ManifestPaths CanonicalPath]

/-- The graph is composed, and its packages are those of the nodes. -/
theorem exists_composeGraph (hpaths : (localGraph.packages.map (·.manifestPath)).Nodup)
    (hacc : AcceptedFor localGraph resolution)
    (hsrcs : SourcesFor cacheRoot resolution.packages srcs) :
    ∃ graph, composeGraph localGraph resolution srcs = some (.ok graph) ∧
      graph.rootManifestPath = localGraph.rootManifestPath ∧
      ∃ nodes, Listing localGraph resolution srcs nodes graph.packages := by
  obtain ⟨reachable, hreach, hmem⟩ := exists_reachableProviders hacc
  have hlocals := foldlM_attachRoot_eq (hacc.rootsAvailable hsrcs) hpaths
  have hkept : ∀ pkg ∈ resolution.packages.filter (·.provider ∈ reachable),
      pkg ∈ resolution.packages := fun pkg hpkg => (mem_filter.mp hpkg).1
  obtain ⟨manifests, hmanifests, hall⟩ := registryManifest_eq
    (fun pkg hpkg => hacc.available hsrcs (hkept pkg hpkg))
    (fun pkg hpkg => hsrcs pkg (hkept pkg hpkg))
  have hprovs : ∀ provider,
      provider ∈ (resolution.packages.filter (·.provider ∈ reachable)).map (·.provider) ↔
        ReachableProvider localGraph resolution provider := by
    intro provider
    rw [← hmem, mem_map]
    constructor
    · rintro ⟨pkg, hpkg, rfl⟩
      simpa using (mem_filter.mp hpkg).2
    · intro hprov
      obtain ⟨pkg, hpkg, rfl⟩ := mem_map.mp (((hmem provider).mp hprov).listed hacc)
      exact ⟨pkg, mem_filter.mpr ⟨hpkg, by simpa using hprov⟩, rfl⟩
  -- The nodes are put together in the order of the manifests, and are then sorted with them.
  have hrealized : List.Forall₂ (Realizes localGraph resolution srcs)
      (composedNodes localGraph (resolution.packages.filter (·.provider ∈ reachable)))
      (localGraph.packages.map (fun manifest =>
        attachAll srcs manifest (rootsOf resolution manifest.manifestPath)) ++ manifests) := by
    apply rel_append
    · rw [forall₂_map_left_iff, forall₂_map_right_iff, forall₂_same]
      exact fun manifest hmanifest => .project hmanifest (attachAll_extends _ _)
    · rw [forall₂_map_left_iff]
      refine ((forall₂_and_left _ _).mpr ⟨hkept, hall⟩).imp ?_
      rintro pkg manifest ⟨hpkg, hattached⟩
      obtain ⟨src, hsrc, rfl⟩ := Option.map_eq_some_iff.mp hattached
      exact .registry hpkg hsrc (attachAll_extends _ _)
  have hcomposed : composeGraph localGraph resolution srcs = some (.ok {
      rootManifestPath := localGraph.rootManifestPath
      packages := sortBy (fun left right => ManifestPaths.cmp left.manifestPath right.manifestPath)
        (localGraph.packages.map (fun manifest =>
            attachAll srcs manifest (rootsOf resolution manifest.manifestPath)) ++
          manifests) }) := by
    rw [composeGraph, hreach]
    dsimp only
    rw [composeManifests, hlocals, hmanifests]
    rfl
  obtain ⟨nodes, hnodes, hfinal⟩ := exists_sorted hrealized (perm_sortBy _ _).symm
  refine ⟨_, hcomposed, rfl, nodes, ?_, ?_, hfinal⟩
  · refine hnodes.nodup_iff.mp (composedNodes_nodup hpaths ?_)
    exact hacc.providers.sublist (filter_sublist.map _)
  · intro node
    rw [← hnodes.mem_iff]
    exact mem_composedNodes hprovs

end

/-! ## Edges, aliases and paths -/

section
variable {srcs : SourceTable Version Req}

theorem selectedEdges_aliases {deps : List (ResolvedRegistryDependency Version)}
    (havail : Available srcs deps) :
    (selectedEdges srcs deps).map (·.aliasName) = deps.map (·.aliasName) := by
  induction deps with
  | nil => rfl
  | cons dep rest ih =>
    obtain ⟨src, hsrc⟩ := havail dep mem_cons_self
    have hrest := ih fun other hother => havail other (mem_cons_of_mem _ hother)
    have hedge : selectedEdge srcs dep = some {
        aliasName := dep.aliasName
        path := src.manifest.packageRoot
        manifestPath := src.manifest.manifestPath
        package := src.manifest.package } := by
      rw [selectedEdge, hsrc]
      rfl
    rw [selectedEdges, filterMap_cons_some hedge, map_cons, map_cons]
    exact congrArg _ hrest

variable {localGraph : DependencyGraph Version Req}
  {resolution : RegistryResolution CanonicalPath Version} {nodes : List (Node Version)}
  {graph : DependencyGraph Version Req}

theorem Listing.names_selected (hlisting : Listing localGraph resolution srcs nodes graph.packages)
    {deps : List (ResolvedRegistryDependency Version)}
    (hreach : ∀ dep ∈ deps, ReachableProvider localGraph resolution dep.provider)
    {edge : Dependency Version} (hedge : edge ∈ selectedEdges srcs deps) :
    graph.Names edge := by
  obtain ⟨dep, hdep, hsel⟩ := mem_filterMap.mp hedge
  obtain ⟨src, hsrc, rfl⟩ := Option.map_eq_some_iff.mp hsel
  have hnode := (hlisting.mem_iff _).mpr (.registry (hreach dep hdep))
  obtain ⟨target, htgt, hrealizes⟩ := exists_image_of_forall₂ hlisting.realizes hnode
  generalize hprov : dep.provider = provider at hsrc hrealizes
  cases hrealizes with
  | registry hpkg hfound hext =>
    cases hfound.symm.trans hsrc
    exact ⟨target, htgt, hext.manifestPath.symm, hext.packageRoot.symm, hext.package.symm⟩

theorem Listing.names_declared (hloaded : localGraph.Loaded)
    (hlisting : Listing localGraph resolution srcs nodes graph.packages)
    {edge : Dependency Version} (hedge : localGraph.Names edge) : graph.Names edge := by
  obtain ⟨declared, hdecl, hpath, hroot, hpkg⟩ := hedge
  have hnode := (hlisting.mem_iff _).mpr (.project (mem_map.mpr ⟨declared, hdecl, rfl⟩))
  obtain ⟨target, htgt, hrealizes⟩ := exists_image_of_forall₂ hlisting.realizes hnode
  generalize hmanifest : declared.manifestPath = manifestPath at hrealizes
  cases hrealizes with
  | project hother hext =>
    obtain rfl := inj_on_of_nodup_map hloaded.manifestPaths hdecl hother hmanifest
    exact ⟨target, htgt, hpath.trans hext.manifestPath.symm,
      hroot.trans hext.packageRoot.symm, hpkg.trans hext.package.symm⟩

variable {cacheRoot : CanonicalPath} [SemanticVersions Version Req]

theorem SourcesFor.verified (hsrcs : SourcesFor cacheRoot resolution.packages srcs)
    {pkg : ResolvedRegistryPackage Version} (hpkg : pkg ∈ resolution.packages)
    {src : VerifiedRegistrySource Version Req} (hsrc : srcs pkg.provider = some src) :
    ∃ release, Verified cacheRoot pkg.provider release src := by
  obtain ⟨found, release, hfound, hverified⟩ := hsrcs pkg hpkg
  cases hfound.symm.trans hsrc
  exact ⟨release, hverified⟩

theorem Listing.names (hloaded : localGraph.Loaded)
    (hsrcs : SourcesFor cacheRoot resolution.packages srcs)
    (hlisting : Listing localGraph resolution srcs nodes graph.packages) :
    ∀ manifest ∈ graph.packages, ∀ dep ∈ manifest.dependencies,
      graph.Names dep := by
  intro manifest hmanifest dep hdep
  obtain ⟨node, hnode, hrealizes⟩ := mem_of_forall₂ hlisting.realizes hmanifest
  cases hrealizes with
  | @project declared _ hdecl hext =>
    obtain hown | hsel := mem_append.mp (hext.dependencies.mem_iff.mp hdep)
    · exact hlisting.names_declared hloaded (hloaded.dependencies _ hdecl _ hown)
    · refine hlisting.names_selected (fun root hroot => ?_) hsel
      obtain ⟨root, hmem, rfl⟩ := mem_map.mp hroot
      obtain ⟨hlisted, howner⟩ := mem_filter.mp hmem
      refine .root hlisted (mem_map.mpr ⟨declared, hdecl, ?_⟩)
      exact (of_decide_eq_true howner).symm
  | registry hpkg hsrc hext =>
    obtain ⟨_, hverified⟩ := hsrcs.verified hpkg hsrc
    have hdeps := hext.dependencies
    rw [hverified.manifest.dependencies, nil_append] at hdeps
    refine hlisting.names_selected (fun other hother => ?_)
      (hdeps.mem_iff.mp hdep)
    cases (hlisting.mem_iff _).mp hnode with
    | registry hreach => exact hreach.dependency hpkg hother

theorem Listing.aliases (hloaded : localGraph.Loaded) (hacc : AcceptedFor localGraph resolution)
    (hsrcs : SourcesFor cacheRoot resolution.packages srcs)
    (hlisting : Listing localGraph resolution srcs nodes graph.packages) :
    ∀ manifest ∈ graph.packages, (manifest.dependencies.map (·.aliasName)).Nodup := by
  intro manifest hmanifest
  obtain ⟨node, _, hrealizes⟩ := mem_of_forall₂ hlisting.realizes hmanifest
  cases hrealizes with
  | @project declared _ hdecl hext =>
    have havail : Available srcs (rootsOf resolution declared.manifestPath) := by
      intro dep hdep
      obtain ⟨root, hroot, rfl⟩ := mem_map.mp hdep
      exact hacc.rootsAvailable hsrcs _
        (mem_map.mpr ⟨root, (mem_filter.mp hroot).1, rfl⟩)
    rw [(hext.dependencies.map _).nodup_iff, map_append, selectedEdges_aliases havail]
    exact ((hacc.rootAliases _ hdecl).append_left _).nodup_iff.mpr
      (hloaded.aliases _ hdecl)
  | registry hpkg hsrc hext =>
    obtain ⟨_, hverified⟩ := hsrcs.verified hpkg hsrc
    rw [(hext.dependencies.map _).nodup_iff, hverified.manifest.dependencies,
      nil_append, selectedEdges_aliases (hacc.available hsrcs hpkg)]
    exact hacc.aliases _ hpkg

theorem Realizes.path_eq (hsrcs : SourcesFor cacheRoot resolution.packages srcs)
    {node : Node Version} {manifest : Manifest Version Req}
    (hrealizes : Realizes localGraph resolution srcs node manifest) :
    manifest.manifestPath = node.path cacheRoot := by
  cases hrealizes with
  | project _ hext => exact hext.manifestPath
  | registry hpkg hsrc hext =>
    obtain ⟨_, hverified⟩ := hsrcs.verified hpkg hsrc
    exact hext.manifestPath.trans hverified.manifest.manifestPath

theorem Listing.paths_iff (hsrcs : SourcesFor cacheRoot resolution.packages srcs)
    (hlisting : Listing localGraph resolution srcs nodes graph.packages) :
    (graph.packages.map (·.manifestPath)).Nodup ↔ Separate localGraph resolution cacheRoot := by
  have hpaths : graph.packages.map (·.manifestPath) = nodes.map (·.path cacheRoot) :=
    map_eq_of_forall₂ hlisting.realizes fun _ _ hrealizes => hrealizes.path_eq hsrcs
  rw [hpaths, nodup_map_iff_inj_on hlisting.nodup, separate_iff]
  simp only [hlisting.mem_iff]
  constructor
  · intro hinj first second hfst hsnd
    exact hinj first hfst second hsnd
  · intro hinj first hfst second hsnd
    exact hinj first second hfst hsnd

variable [DecidableEq Version] [LockedVersions Version] [ManifestPaths CanonicalPath]

/-- The composed graph is well formed exactly when the releases are separate. -/
theorem exists_wellComposed_iff (hloaded : localGraph.Loaded)
    (hacc : AcceptedFor localGraph resolution)
    (hsrcs : SourcesFor cacheRoot resolution.packages srcs) :
    ∃ graph, composeGraph localGraph resolution srcs = some (.ok graph) ∧
      (WellComposed localGraph resolution srcs graph ↔
        Separate localGraph resolution cacheRoot) := by
  obtain ⟨graph, hgraph, hroot, nodes, hlisting⟩ :=
    exists_composeGraph hloaded.manifestPaths hacc hsrcs
  refine ⟨graph, hgraph, ?_⟩
  rw [← hlisting.paths_iff hsrcs]
  constructor
  · exact WellComposed.paths
  · intro hpaths
    exact ⟨hroot, ⟨nodes, hlisting⟩, hpaths, hlisting.names hloaded hsrcs,
      hlisting.aliases hloaded hacc hsrcs⟩

end

end Salicin.Preparation
