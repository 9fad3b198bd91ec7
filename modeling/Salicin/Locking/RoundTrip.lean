import Salicin.Locking.Checks
import Salicin.Locking.Resolved

/-!
# The round trip of a lockfile

A lockfile that is generated from an accepted graph and its resolution is read back as it was, and
its paths lead back to the packages, exactly when the directories on the way have portable names.
-/

namespace Salicin.Locking

open List OptionLists Registry ExceptLists

variable {Path Version Req : Type}

/-! ## Attaching the root dependencies -/

/-- A package without its registry dependencies. -/
def LockedPackage.localPart (pkg : LockedPackage Version) : LockedPackage Version :=
  { pkg with registryDependencies := [] }

/-- The package has the same local part, and more dependencies of the roots. -/
structure Attached (roots : List (ResolvedRootRegistryDependency Path Version))
    (pkg attached : LockedPackage Version) : Prop where
  localPart : attached.localPart = pkg.localPart
  dependencies : ∀ dep ∈ attached.registryDependencies, dep ∈ pkg.registryDependencies ∨
      ∃ root ∈ roots, dep = fromResolved root.dependency

theorem Attached.trans {rootDependency : ResolvedRootRegistryDependency Path Version}
    {rest : List (ResolvedRootRegistryDependency Path Version)}
    {pkg middle attached : LockedPackage Version}
    (hfst : Attached [rootDependency] pkg middle) (hsnd : Attached rest middle attached) :
    Attached (rootDependency :: rest) pkg attached := by
  refine ⟨hsnd.localPart.trans hfst.localPart, ?_⟩
  intro dep hdep
  rcases hsnd.dependencies dep hdep with hmid | ⟨root, hroot, rfl⟩
  · rcases hfst.dependencies dep hmid with hpkg | ⟨root, hroot, rfl⟩
    · exact .inl hpkg
    · obtain rfl := mem_singleton.mp hroot
      exact .inr ⟨root, mem_cons_self, rfl⟩
  · exact .inr ⟨root, mem_cons_of_mem _ hroot, rfl⟩

theorem exists_modifyFirst {α : Type} {property : α → Bool} (change : α → α) {list : List α}
    (hsome : ∃ val ∈ list, property val = true) :
    ∃ changed, modifyFirst property change list = some changed ∧
      List.Forall₂ (fun val other => other = val ∨ other = change val) list changed := by
  induction list with
  | nil => simp at hsome
  | cons first rest ih =>
    unfold modifyFirst
    split_ifs with hfst
    · exact ⟨_, rfl, .cons (.inr rfl) (forall₂_same.mpr fun _ _ => .inl rfl)⟩
    · obtain ⟨val, hval, hprop⟩ := hsome
      have hrest : ∃ val ∈ rest, property val = true := by
        rcases mem_cons.mp hval with rfl | hmem
        · exact absurd hprop hfst
        · exact ⟨val, hmem, hprop⟩
      obtain ⟨changed, hchanged, hall⟩ := ih hrest
      exact ⟨first :: changed, by rw [hchanged]; rfl, .cons (.inl rfl) hall⟩

section

variable [DecidableEq Path] [ManifestPaths Path] [DecidableEq Version]
  {graph : DependencyGraph Path Version Req} {root : CanonicalPath}

omit [ManifestPaths Path] [DecidableEq Version] in
theorem exists_package {manifestPath : Path}
    (howner : ∃ manifest ∈ graph.packages, manifest.manifestPath = manifestPath) :
    ∃ manifest ∈ graph.packages, graph.package manifestPath = some manifest := by
  cases hfind : graph.package manifestPath with
  | some manifest => exact ⟨manifest, mem_of_find?_eq_some hfind, rfl⟩
  | none =>
    obtain ⟨manifest, hmanifest, howner⟩ := howner
    exact absurd howner (by simpa using List.find?_eq_none.mp hfind manifest hmanifest)

/-- The package is locked for the manifest. -/
def Locks (root : CanonicalPath) (manifest : Manifest Path Version Req)
    (pkg : LockedPackage Version) : Prop :=
  pkg.name = manifest.package.name ∧ pkg.version = manifest.package.version ∧
    pkg.path = portableRelativePath root.components manifest.packageRoot.components

omit [DecidableEq Path] [ManifestPaths Path] [DecidableEq Version] in
theorem Attached.locks {roots : List (ResolvedRootRegistryDependency Path Version)}
    {pkg attached : LockedPackage Version} (hattached : Attached roots pkg attached)
    {manifest : Manifest Path Version Req} (hlocks : Locks root manifest pkg) :
    Locks root manifest attached := by
  have hname := congrArg LockedPackage.name hattached.localPart
  have hver := congrArg LockedPackage.version hattached.localPart
  have hpath := congrArg LockedPackage.path hattached.localPart
  exact ⟨hname.trans hlocks.1, hver.trans hlocks.2.1, hpath.trans hlocks.2.2⟩

/-- The dependencies of roots that have an owner can be attached. -/
theorem exists_attachRoots {roots : List (ResolvedRootRegistryDependency Path Version)}
    {pkgs : List (LockedPackage Version)}
    (howners : ∀ rootDependency ∈ roots, ∃ manifest ∈ graph.packages,
      manifest.manifestPath = rootDependency.ownerManifestPath)
    (hlocks : ∀ manifest ∈ graph.packages, ∃ pkg ∈ pkgs, Locks root manifest pkg) :
    ∃ attached, attachRoots graph root roots pkgs = some (.ok attached) ∧
      List.Forall₂ (Attached roots) pkgs attached := by
  induction roots generalizing pkgs with
  | nil => exact ⟨pkgs, rfl, forall₂_same.mpr fun _ _ => ⟨rfl, fun _ => .inl⟩⟩
  | cons rootDependency rest ih =>
    obtain ⟨howner, hrest⟩ := forall_mem_cons.mp howners
    obtain ⟨manifest, hmanifest, hpkg⟩ := exists_package howner
    unfold attachRoots
    simp only [hpkg]
    have hsome : ∃ pkg ∈ pkgs, decide (pkg.name = manifest.package.name ∧
        pkg.version = manifest.package.version ∧ pkg.path =
          portableRelativePath root.components manifest.packageRoot.components) = true := by
      simpa [Locks] using hlocks manifest hmanifest
    obtain ⟨changed, hchanged, hall⟩ := exists_modifyFirst
      (pushRegistryDependency (fromResolved rootDependency.dependency)) hsome
    have hfst : List.Forall₂ (Attached [rootDependency]) pkgs changed := by
      refine hall.imp ?_
      rintro pkg other (rfl | rfl)
      · exact ⟨rfl, fun _ => .inl⟩
      · refine ⟨rfl, ?_⟩
        intro dep hdep
        rcases mem_append.mp hdep with hold | hnew
        · exact .inl hold
        · exact .inr ⟨rootDependency, mem_singleton_self _, mem_singleton.mp hnew⟩
    have hstill : ∀ manifest ∈ graph.packages, ∃ pkg ∈ changed,
        Locks root manifest pkg := by
      intro manifest hmanifest
      obtain ⟨pkg, hpkg, hlocked⟩ := hlocks manifest hmanifest
      obtain ⟨other, hother, hattached⟩ := exists_image_of_forall₂ hfst hpkg
      exact ⟨other, hother, hattached.locks hlocked⟩
    obtain ⟨attached, hattached, hothers⟩ := ih hrest hstill
    refine ⟨attached, by simp only [hchanged, hattached], ?_⟩
    exact forall₂_trans (fun _ _ _ => Attached.trans) hfst hothers

end

/-! ## The lockfile that is generated -/

theorem repeatsKey_eq_false {Key : Type} [DecidableEq Key] {keys : List Key} (hnodup : keys.Nodup) :
    repeatsKey keys = false := by
  simp [repeatsKey, hnodup.dedup]

theorem find?_of_nodup {α Key : Type} [DecidableEq Key] {key : α → Key} {values : List α}
    (hnodup : (values.map key).Nodup) {value : α} (hval : value ∈ values) :
    values.find? (fun other => key other = key value) = some value := by
  cases hfind : values.find? (fun other => key other = key value) with
  | none =>
    have hnone := List.find?_eq_none.mp hfind value hval
    simp at hnone
  | some other =>
    have hkey : key other = key value := by simpa using List.find?_some hfind
    rw [inj_on_of_nodup_map hnodup (mem_of_find?_eq_some hfind) hval hkey]

theorem key_injective_on {resolution : RegistryResolution Path Version}
    (hascending : (resolution.packages.map fun pkg => pkg.provider.key).Pairwise (· < ·)) :
    (resolution.packages.map fun pkg =>
      (pkg.provider.registry, pkg.provider.name)).Nodup := by
  have hnodup := hascending.imp ne_of_lt
  have hpairs : (resolution.packages.map fun pkg =>
      (pkg.provider.registry, pkg.provider.name)) =
        (resolution.packages.map fun pkg => pkg.provider.key).map fun key =>
          (key.registry, key.name) := by
    simp [RegistryProviderIdentity.key]
  rw [hpairs]
  refine List.Nodup.map ?_ hnodup
  rintro ⟨registry, name⟩ ⟨other, otherName⟩ heq
  simpa using heq

section

variable [LockedVersions Version] {pkgs : List (LockedPackage Version)}
  {resolution : RegistryResolution Path Version}

/-- The lockfile of these local packages and of a resolution. -/
def lockfileOf (resolution : RegistryResolution Path Version)
    (pkgs : List (LockedPackage Version)) : Lockfile Version where
  format := lockfileFormatVersion
  registrySnapshots := resolution.snapshots.map fun entry => ⟨entry.1, entry.2⟩
  registryPackages := (resolution.packages.map lockedRegistryPackage).mergeSort
    fun left right => (left.compare right).isLE
  packages := pkgs.map sortRegistryDependencies

theorem registryPackages_perm (resolution : RegistryResolution Path Version)
    (pkgs : List (LockedPackage Version)) : (lockfileOf resolution pkgs).registryPackages.Perm
      (resolution.packages.map lockedRegistryPackage) := mergeSort_perm _ _

theorem providers_perm (resolution : RegistryResolution Path Version)
    (pkgs : List (LockedPackage Version)) :
    ((lockfileOf resolution pkgs).registryPackages.map LockedRegistryPackage.provider).Perm
      (resolution.packages.map ResolvedRegistryPackage.provider) := by
  have hperm := (registryPackages_perm resolution pkgs).map LockedRegistryPackage.provider
  rw [map_map] at hperm
  exact hperm

theorem checked_fromResolved {dep : ResolvedRegistryDependency Version}
    (hclosed : Closed LockedVersions.buildIsEmpty resolution)
    (hdep : DependencyClosed resolution.packages dep) :
    (fromResolved dep).Checked := by
  obtain ⟨pkg, hpkg, hprov⟩ := mem_map.mp hdep.provider
  have hvalid := hclosed.providers pkg hpkg
  rw [hprov] at hvalid
  exact ⟨hdep.aliasName, hvalid.registry, hvalid.name, hvalid.version⟩

variable [DecidableEq Version]

theorem validateRegistryLockGraph_lockfileOf
    (hclosed : Closed LockedVersions.buildIsEmpty resolution)
    (hroots : ∀ pkg ∈ pkgs, ∀ dep ∈ pkg.registryDependencies,
      ∃ root ∈ resolution.roots, dep = fromResolved root.dependency) :
    validateRegistryLockGraph (lockfileOf resolution pkgs) = .ok () := by
  have hprovs := providers_perm resolution pkgs
  have hperm := registryPackages_perm resolution pkgs
  have hpairs : ((lockfileOf resolution pkgs).registryPackages.map fun pkg =>
      (pkg.registry, pkg.name)).Nodup := by
    rw [(hperm.map _).nodup_iff, map_map]
    exact key_injective_on hclosed.ascending
  have hidents : ((lockfileOf resolution pkgs).registryPackages.map
      LockedRegistryPackage.provider).Nodup := by
    refine List.Nodup.of_map (fun provider => (provider.registry, provider.name)) ?_
    rw [map_map]
    exact hpairs
  have hsnaps : ((lockfileOf resolution pkgs).registrySnapshots.map
      LockedRegistrySnapshot.registry).Nodup := by
    have hregs := hclosed.registries
    simpa [lockfileOf, Function.comp_def] using hregs
  have hedge : ∀ dep : ResolvedRegistryDependency Version,
      DependencyClosed resolution.packages dep → validateLockedRegistryEdge
        ((lockfileOf resolution pkgs).registryPackages.map LockedRegistryPackage.provider)
        (fromResolved dep) = .ok () := by
    intro dep hdep
    have hmem : (fromResolved dep).provider ∈
        (lockfileOf resolution pkgs).registryPackages.map LockedRegistryPackage.provider :=
      hprovs.mem_iff.mpr hdep.provider
    rw [validateLockedRegistryEdge, if_pos hmem]
  unfold validateRegistryLockGraph
  simp only [repeatsKey_eq_false hsnaps, repeatsKey_eq_false hidents,
    repeatsKey_eq_false hpairs, Bool.false_eq_true, if_false]
  rw [bind_eq_ok]
  refine ⟨(), forM_eq_ok.mpr ?_, forM_eq_ok.mpr ?_⟩
  · intro locked hlocked
    obtain ⟨pkg, hpkg, rfl⟩ := mem_map.mp (hperm.mem_iff.mp hlocked)
    have hlisted : (⟨pkg.provider.registry, pkg.provider.snapshot⟩ :
        LockedRegistrySnapshot) ∈ (lockfileOf resolution pkgs).registrySnapshots :=
      mem_map.mpr ⟨_, hclosed.listed pkg hpkg, rfl⟩
    have hfind := find?_of_nodup hsnaps hlisted
    have hsnap : ¬ ((lockfileOf resolution pkgs).registrySnapshots.find?
        (·.registry = (lockedRegistryPackage pkg).registry)).map
          LockedRegistrySnapshot.checksum ≠ some (lockedRegistryPackage pkg).snapshot := by
      rw [not_not]
      exact congrArg (Option.map _) hfind
    rw [validateLockedRegistryPackage, if_neg hsnap]
    apply forM_eq_ok.mpr
    intro dep hdep
    obtain ⟨resolved, hresolved, rfl⟩ := mem_map.mp hdep
    exact hedge resolved (hclosed.dependencies pkg hpkg resolved hresolved)
  · intro locked hlocked
    apply forM_eq_ok.mpr
    intro dep hdep
    obtain ⟨pkg, hpkg, rfl⟩ := mem_map.mp hlocked
    obtain ⟨root, hroot, rfl⟩ := hroots pkg hpkg dep
      (mem_mergeSort.mp hdep)
    exact hedge root.dependency (hclosed.roots root hroot)

/-- Everything but the paths of a generated lockfile passes the parser. -/
theorem checked_lockfileOf (hclosed : Closed LockedVersions.buildIsEmpty resolution)
    (hroots : ∀ pkg ∈ pkgs, ∀ dep ∈ pkg.registryDependencies,
      ∃ root ∈ resolution.roots, dep = fromResolved root.dependency) :
    (lockfileOf resolution pkgs).Checked := by
  constructor
  · rfl
  · intro snapshot hsnap
    obtain ⟨entry, hentry, rfl⟩ := mem_map.mp hsnap
    exact hclosed.names entry hentry
  · intro locked hlocked
    obtain ⟨pkg, hpkg, rfl⟩ :=
      mem_map.mp ((registryPackages_perm resolution pkgs).mem_iff.mp hlocked)
    have hvalid := hclosed.providers pkg hpkg
    refine ⟨hvalid.registry, hvalid.name, hvalid.version, ?_⟩
    intro dep hdep
    obtain ⟨resolved, hresolved, rfl⟩ := mem_map.mp hdep
    exact checked_fromResolved hclosed (hclosed.dependencies pkg hpkg resolved hresolved)
  · intro locked hlocked dep hdep
    obtain ⟨pkg, hpkg, rfl⟩ := mem_map.mp hlocked
    obtain ⟨root, hroot, rfl⟩ := hroots pkg hpkg dep
      (mem_mergeSort.mp hdep)
    exact checked_fromResolved hclosed (hclosed.roots root hroot)
  · exact validateRegistryLockGraph_lockfileOf hclosed hroots

end

section

variable [DecidableEq Path] [ManifestPaths Path] [LockedVersions Version] [DecidableEq Version]
  [SemanticVersions Version Req] {graph : DependencyGraph Path Version Req}
  {snaps : List (RegistrySnapshot Version Req)} {previouslyLocked : Locked Version}
  {resolution : RegistryResolution Path Version}

omit [DecidableEq Path] [LockedVersions Version] in
theorem owners_of_resolve (hresolve : resolveRegistryDependencies
      (registryRequirementsFromGraph graph) snaps previouslyLocked = some (.ok resolution)) :
    ∀ rootDependency ∈ resolution.roots, ∃ manifest ∈ graph.packages,
      manifest.manifestPath = rootDependency.ownerManifestPath := by
  obtain ⟨result, hres, hans⟩ := exists_answer
    (registryRequirementsFromGraph graph) snaps previouslyLocked
  obtain rfl : .ok resolution = result := by simpa [hresolve] using hres
  cases hans with
  | resolved _ _ _ hdesc =>
    intro rootDependency hroot
    obtain ⟨ordered, horder, hordered⟩ := hdesc.roots
    obtain ⟨req, hreq, howner, _⟩ := mem_of_forall₂ hordered hroot
    obtain ⟨manifest, hmanifest, hpath, _⟩ :=
      mem_registryRequirementsFromGraph.mp (horder.mem_iff.mp hreq)
    exact ⟨manifest, hmanifest, hpath.symm.trans howner.symm⟩

theorem exists_lockfileOf (root : CanonicalPath) (workspaceMembers : List CanonicalPath)
    (hresolve : resolveRegistryDependencies (registryRequirementsFromGraph graph) snaps
      previouslyLocked = some (.ok resolution)) :
    ∃ pkgs, fromGraphRootWithRegistry graph root workspaceMembers resolution =
        some (.ok (lockfileOf resolution pkgs)) ∧
      List.Forall₂ (Attached resolution.roots)
        (fromGraphRootWithWorkspaceMembers graph root workspaceMembers).packages pkgs := by
  have hlocks : ∀ manifest ∈ graph.packages, ∃ pkg ∈
      (fromGraphRootWithWorkspaceMembers graph root workspaceMembers).packages,
        Locks root manifest pkg := by
    intro manifest hmanifest
    refine ⟨lockedPackage root workspaceMembers manifest, ?_, rfl, rfl, rfl⟩
    exact mem_mergeSort.mpr (mem_map_of_mem hmanifest)
  obtain ⟨pkgs, hattach, hall⟩ := exists_attachRoots (owners_of_resolve hresolve) hlocks
  refine ⟨pkgs, ?_, hall⟩
  simp only [fromGraphRootWithRegistry, hattach]
  rfl

end

/-! ## The paths of the packages -/

theorem sourcesValid_iff_of_localPart {pkg other : LockedPackage Version}
    (hlocal : pkg.localPart = other.localPart) : pkg.SourcesValid ↔ other.SourcesValid := by
  have hsame : ∀ pkg : LockedPackage Version, pkg.SourcesValid ↔ pkg.localPart.SourcesValid :=
    fun pkg => ⟨fun hvalid => ⟨hvalid.own, hvalid.dependencies⟩,
      fun hvalid => ⟨hvalid.own, hvalid.dependencies⟩⟩
  rw [hsame pkg, hlocal, ← hsame other]

section

variable [LockedVersions Version]

/-- The path of each package of the graph, and of each dependency, is portable. -/
def PortableGraph (graph : DependencyGraph Path Version Req) (root : CanonicalPath) : Prop :=
  ∀ manifest ∈ graph.packages, PortablePath root manifest.packageRoot ∧
    ∀ dep ∈ manifest.dependencies, PortablePath root dep.path

/-- The paths that are written lead from the root to the directories. -/
def PathsLeadBack (graph : DependencyGraph Path Version Req) (root : CanonicalPath)
    (workspaceMembers : List CanonicalPath) : Prop :=
  ∀ manifest ∈ graph.packages,
    LeadsTo root manifest.packageRoot (lockedPackage root workspaceMembers manifest).path ∧
      ∀ dep ∈ manifest.dependencies,
        LeadsTo root dep.path (lockedDependency root workspaceMembers dep).path

theorem sourcesValid_lockedPackage {root : CanonicalPath} {workspaceMembers : List CanonicalPath}
    {manifest : Manifest Path Version Req} :
    (lockedPackage root workspaceMembers manifest).SourcesValid ↔
      validateLockedSource (packageSource root manifest.packageRoot workspaceMembers)
          (portableRelativePath root.components manifest.packageRoot.components) = .ok () ∧
        ∀ dep ∈ manifest.dependencies,
          validateLockedSource (packageSource root dep.path workspaceMembers)
            (portableRelativePath root.components dep.path.components) = .ok () := by
  constructor
  · intro hvalid
    refine ⟨hvalid.own, ?_⟩
    intro dep hdep
    exact hvalid.dependencies (lockedDependency root workspaceMembers dep)
      (mem_mergeSort.mpr (mem_map_of_mem hdep))
  · rintro ⟨hown, hdeps⟩
    refine ⟨hown, ?_⟩
    intro locked hlocked
    obtain ⟨dep, hdep, rfl⟩ := mem_map.mp (mem_mergeSort.mp hlocked)
    exact hdeps dep hdep

theorem portableGraph_iff (graph : DependencyGraph Path Version Req) (root : CanonicalPath)
    (workspaceMembers : List CanonicalPath) :
    PortableGraph graph root ↔ (∀ manifest ∈ graph.packages,
        (lockedPackage root workspaceMembers manifest).SourcesValid) ∧
        PathsLeadBack graph root workspaceMembers := by
  unfold PortableGraph PathsLeadBack
  rw [← forall₂_and]
  refine forall₂_congr fun manifest _ => ?_
  rw [sourcesValid_lockedPackage]
  simp only [portablePath_iff_valid _ _ workspaceMembers, lockedPackage, lockedDependency]
  constructor
  · rintro ⟨⟨hown, hleads⟩, hdeps⟩
    exact ⟨⟨hown, fun dep h => (hdeps dep h).1⟩, hleads,
      fun dep h => (hdeps dep h).2⟩
  · rintro ⟨⟨hown, hvalid⟩, hleads, hdeps⟩
    exact ⟨⟨hown, hleads⟩, fun dep h => ⟨hvalid dep h, hdeps dep h⟩⟩

end

/-! ## The round trip -/

variable [DecidableEq Path] [ManifestPaths Path] [LockedVersions Version] [DecidableEq Version]
  [SemanticVersions Version Req]

/-- The lockfile that is generated is read back from its text, and its paths lead back to the
directories of the packages. -/
def RoundTrips (fromStr : String → Except String RawLockfile)
    (graph : DependencyGraph Path Version Req) (root : CanonicalPath)
    (workspaceMembers : List CanonicalPath) (resolution : RegistryResolution Path Version) : Prop :=
  (∃ lockfile, fromGraphRootWithRegistry graph root workspaceMembers resolution =
      some (.ok lockfile) ∧ parseLockfile fromStr (toText lockfile) = .ok lockfile) ∧
    PathsLeadBack graph root workspaceMembers

section

variable {fromStr : String → Except String RawLockfile} (htoml : ReadsToml fromStr)
  (hvers : ReadsVersions Version) {graph : DependencyGraph Path Version Req}
  (hgraph : graph.Accepted) {snaps : List (RegistrySnapshot Version Req)}
  (hsnaps : ∀ snapshot ∈ snaps, snapshot.Parsed LockedVersions.buildIsEmpty)
  {previouslyLocked : Locked Version} {resolution : RegistryResolution Path Version}
  (hresolve : resolveRegistryDependencies (registryRequirementsFromGraph graph) snaps
    previouslyLocked = some (.ok resolution))
  (root : CanonicalPath) (workspaceMembers : List CanonicalPath)

include htoml hvers hgraph hsnaps hresolve

/-- The lockfile of a graph is read back exactly when the paths of its packages are valid. -/
theorem exists_lockfile_parse_iff :
    ∃ lockfile, fromGraphRootWithRegistry graph root workspaceMembers resolution =
        some (.ok lockfile) ∧
      (parseLockfile fromStr (toText lockfile) = .ok lockfile ↔ ∀ manifest ∈ graph.packages,
          (lockedPackage root workspaceMembers manifest).SourcesValid) := by
  have hparsed : ∀ req ∈ registryRequirementsFromGraph graph,
      req.dependency.Parsed := by
    intro req hreq
    obtain ⟨manifest, hmanifest, _, hdep⟩ := mem_registryRequirementsFromGraph.mp hreq
    exact hgraph.dependencies manifest hmanifest _ hdep
  have hclosed := closed_of_resolve hsnaps hparsed hresolve
  obtain ⟨pkgs, hgenerate, hall⟩ := exists_lockfileOf root workspaceMembers hresolve
  have hroots : ∀ pkg ∈ pkgs, ∀ dep ∈ pkg.registryDependencies,
      ∃ root ∈ resolution.roots, dep = fromResolved root.dependency := by
    intro pkg hpkg dep hdep
    obtain ⟨original, horiginal, hattached⟩ := mem_of_forall₂ hall hpkg
    obtain ⟨manifest, _, rfl⟩ := mem_map.mp (mem_mergeSort.mp horiginal)
    exact (hattached.dependencies dep hdep).resolve_left not_mem_nil
  refine ⟨lockfileOf resolution pkgs, hgenerate, ?_⟩
  rw [parseLockfile_toText_iff hvers htoml (checked_lockfileOf hclosed hroots)]
  -- The paths of the lockfile are those of the graph.
  have hlocal : ∀ {pkg : LockedPackage Version} {manifest : Manifest Path Version Req},
      Attached resolution.roots (lockedPackage root workspaceMembers manifest) pkg →
        ((sortRegistryDependencies pkg).SourcesValid ↔
          (lockedPackage root workspaceMembers manifest).SourcesValid) :=
    fun hattached => sourcesValid_iff_of_localPart hattached.localPart
  constructor
  · intro hvalid manifest hmanifest
    obtain ⟨pkg, hpkg, hattached⟩ := exists_image_of_forall₂ hall
      (mem_mergeSort.mpr (mem_map_of_mem hmanifest))
    exact (hlocal hattached).mp
      (hvalid (sortRegistryDependencies pkg) (mem_map_of_mem hpkg))
  · intro hvalid locked hlocked
    obtain ⟨pkg, hpkg, rfl⟩ := mem_map.mp hlocked
    obtain ⟨original, horiginal, hattached⟩ := mem_of_forall₂ hall hpkg
    obtain ⟨manifest, hmanifest, rfl⟩ := mem_map.mp (mem_mergeSort.mp horiginal)
    exact (hlocal hattached).mpr (hvalid manifest hmanifest)

/-- A lockfile makes the round trip exactly when the directories between the root and the packages
have UTF-8 names without `\\` and `:`. -/
theorem roundTrips_iff :
    RoundTrips fromStr graph root workspaceMembers resolution ↔ PortableGraph graph root := by
  obtain ⟨lockfile, hgenerate, hparse⟩ := exists_lockfile_parse_iff htoml hvers hgraph
    hsnaps hresolve root workspaceMembers
  rw [portableGraph_iff graph root workspaceMembers, ← hparse]
  constructor
  · rintro ⟨⟨other, hother, hread⟩, hleads⟩
    obtain rfl : lockfile = other := by simpa [hgenerate] using hother
    exact ⟨hread, hleads⟩
  · rintro ⟨hread, hleads⟩
    exact ⟨⟨lockfile, hgenerate, hread⟩, hleads⟩

end

/-! ## A directory with a colon in its name -/

namespace Crossing

/-- There is one version. -/
scoped instance : LockedVersions Unit where
  cmp _ _ := .eq
  text _ := "1.0.0"
  parse text := if text = "1.0.0" then .ok () else .error "unexpected character"
  buildIsEmpty _ := true

scoped instance : SemanticVersions Unit Unit where
  matchesVersion _ _ := true
  versionText _ := "1.0.0"
  requirementText _ := "*"

scoped instance : ManifestPaths Nat where
  cmp := compare
  display := toString

theorem readsVersions : ReadsVersions Unit := fun _ => rfl

def directory (name : String) : OsName := name.toList.map .char

theorem valid_of_names {names : List OsName} (hvalid : (names.all fun name =>
    name ≠ [] ∧ .char '/' ∉ name ∧ name ≠ [.char '.'] ∧ name ≠ [.char '.', .char '.']) = true) :
    ∀ name ∈ names, name.Valid := by
  intro name hname
  have hall := all_eq_true.mp hvalid name hname
  rw [decide_eq_true_eq] at hall
  exact ⟨hall.1, hall.2.1, hall.2.2.1, hall.2.2.2⟩

/-- The directory `/w/app`. -/
def app : CanonicalPath := ⟨[directory "w", directory "app"], valid_of_names (by decide)⟩

/-- The directory `/w/lib`. -/
def lib : CanonicalPath := ⟨[directory "w", directory "lib"], valid_of_names (by decide)⟩

/-- The directory `/w/a:b`. -/
def colon : CanonicalPath := ⟨[directory "w", directory "a:b"], valid_of_names (by decide)⟩

/-- The package `app` depends on the package `lib` in a directory, and on `base` in a registry. -/
def graph (path : CanonicalPath) : DependencyGraph Nat Unit Unit where
  packages :=
    [⟨⟨"app", (), .edition2026⟩, [⟨"lib", path, ⟨"lib", (), .edition2026⟩⟩],
      [⟨"base", "base", "main", ()⟩], 0, app⟩,
    ⟨⟨"lib", (), .edition2026⟩, [], [], 1, path⟩]

def checksum : Sha256Digest where
  text := "2222222222222222222222222222222222222222222222222222222222222222"
  length_eq := rfl
  digits := Sha256Digest.digits_of_replicate '2' rfl rfl

/-- The registry `main` has one release of `base`. -/
def snapshot : RegistrySnapshot Unit Unit :=
  ⟨checksum, "main", [⟨"base", [⟨(), false, checksum, []⟩]⟩]⟩

theorem accepted_graph {path : CanonicalPath} (hpath : app ≠ path) : (graph path).Accepted := by
  constructor
  · have hpaths : (graph path).packages.map Manifest.manifestPath = [0, 1] := rfl
    rw [hpaths]
    decide
  · simpa [graph] using hpath
  · simp [graph]
  · simp only [graph, forall_mem_cons, not_mem_nil, false_implies, implies_true, and_true]
    exact ⟨rfl, rfl, rfl⟩

theorem parsed_snapshot : ∀ entry ∈ [snapshot], entry.Parsed LockedVersions.buildIsEmpty := by
  intro entry hentry
  obtain rfl := mem_singleton.mp hentry
  constructor
  · rfl
  · simp only [snapshot, forall_mem_singleton]
    rfl
  · simp [snapshot]
  · simp [snapshot]
  · simp [snapshot, LockedVersions.buildIsEmpty]
  · simp [snapshot]
  · simp [snapshot]

theorem exists_resolution (path : CanonicalPath) : ∃ resolution,
    resolveRegistryDependencies (registryRequirementsFromGraph (graph path)) [snapshot] ∅ =
      some (.ok resolution) := by
  have hsame : registryRequirementsFromGraph (graph path) =
      registryRequirementsFromGraph (graph app) := rfl
  rw [hsame]
  have hok : ((resolveRegistryDependencies (registryRequirementsFromGraph (graph app))
      [snapshot] ∅).any Except.isOk) = true := by
    decide +kernel
  obtain ⟨error | resolution, hres, hresolved⟩ := (Option.any_eq_true _ _).mp hok
  · exact absurd hresolved Bool.false_ne_true
  · exact ⟨resolution, hres⟩

theorem portable_lib : PortablePath app lib := by
  have hdescent : descent app lib = [directory "lib"] := by decide
  intro name hname part hpart
  rw [hdescent, mem_singleton] at hname
  rw [hname, directory] at hpart
  obtain ⟨character, hchar, rfl⟩ := mem_map.mp hpart
  refine ⟨character, rfl, ?_, ?_⟩ <;> rintro rfl <;> exact absurd hchar (by decide)

theorem portableGraph_lib : PortableGraph (graph lib) app := by
  have hself : PortablePath app app := by
    have hdescent : descent app app = [] := by decide
    intro name hname
    simp [hdescent] at hname
  intro manifest hmanifest
  simp only [graph, mem_cons, not_mem_nil, or_false] at hmanifest
  rcases hmanifest with rfl | rfl
  · refine ⟨hself, ?_⟩
    intro dep hdep
    rw [mem_singleton.mp hdep]
    exact portable_lib
  · exact ⟨portable_lib, by simp⟩

end Crossing

open Crossing

/-- The lockfile makes the round trip when the second package is in `/w/lib`. -/
theorem roundTrips_lib : ∃ resolution,
    resolveRegistryDependencies (registryRequirementsFromGraph (graph lib)) [snapshot] ∅ =
      some (.ok resolution) ∧ RoundTrips readTables (graph lib) app [] resolution := by
  obtain ⟨resolution, hresolve⟩ := exists_resolution lib
  exact ⟨resolution, hresolve, (roundTrips_iff readsToml_readTables readsVersions
    (accepted_graph (by decide)) parsed_snapshot hresolve app []).mpr portableGraph_lib⟩

/-- It is rejected when the second package is in `/w/a:b`. -/
theorem not_roundTrips_colon : (graph colon).Accepted ∧ ∃ resolution,
    resolveRegistryDependencies (registryRequirementsFromGraph (graph colon)) [snapshot] ∅ =
      some (.ok resolution) ∧ ¬ RoundTrips readTables (graph colon) app [] resolution := by
  have hacc : (graph colon).Accepted := accepted_graph (by decide)
  obtain ⟨resolution, hresolve⟩ := exists_resolution colon
  refine ⟨hacc, resolution, hresolve, ?_⟩
  rintro ⟨⟨other, hother, hread⟩, _⟩
  obtain ⟨lockfile, hgenerate, hparse⟩ := exists_lockfile_parse_iff readsToml_readTables
    readsVersions hacc parsed_snapshot hresolve app []
  obtain rfl : lockfile = other := by simpa [hgenerate] using hother
  have hvalid := (hparse.mp hread) ⟨⟨"lib", (), .edition2026⟩, [], [], 1, colon⟩ (by simp [graph])
  have hown := hvalid.own
  revert hown
  decide +kernel

end Salicin.Locking
