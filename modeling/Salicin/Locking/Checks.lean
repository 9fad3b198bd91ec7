import Salicin.Foundation.FallibleLists
import Salicin.Locking.Text

/-!
# The checks on a lockfile

The parser gives back the lockfile whose tables it is given when its names are valid, its registry
graph is closed, and its local packages have portable paths. Only the last can fail for a lockfile
that has been generated.
-/

namespace Salicin.Locking

open ExceptLists Registry LockedVersions

variable {Version : Type} [LockedVersions Version]

variable (Version) in
/-- `Version::parse` reads what `Version::to_string` writes. -/
def ReadsVersions : Prop := ∀ version : Version, LockedVersions.parse (text version) = .ok version

/-! ## What is checked of each entry -/

structure LockedRegistryDependency.Checked (dep : LockedRegistryDependency Version) :
    Prop where
  aliasName : validateAlias dep.aliasName = .ok ()
  registry : validateRegistryName dep.registry = .ok ()
  name : validatePackageName dep.name = .ok ()
  version : buildIsEmpty dep.version = true

structure LockedRegistryPackage.Checked (pkg : LockedRegistryPackage Version) : Prop where
  registry : validateRegistryName pkg.registry = .ok ()
  name : validatePackageName pkg.name = .ok ()
  version : buildIsEmpty pkg.version = true
  dependencies : ∀ dep ∈ pkg.dependencies, dep.Checked

/-- The paths of a local package and of its dependencies pass the parser. -/
structure LockedPackage.SourcesValid (pkg : LockedPackage Version) : Prop where
  own : validateLockedSource pkg.source pkg.path = .ok ()
  dependencies : ∀ dep ∈ pkg.dependencies, validateLockedSource dep.source dep.path = .ok ()

section

variable [DecidableEq Version]

/-- Everything that is checked of a lockfile but the paths. -/
structure Lockfile.Checked (lockfile : Lockfile Version) : Prop where
  format : lockfile.format = lockfileFormatVersion
  snapshots : ∀ snapshot ∈ lockfile.registrySnapshots,
    validateRegistryName snapshot.registry = .ok ()
  registryPackages : ∀ pkg ∈ lockfile.registryPackages, pkg.Checked
  roots : ∀ pkg ∈ lockfile.packages, ∀ dep ∈ pkg.registryDependencies, dep.Checked
  graph : validateRegistryLockGraph lockfile = .ok ()

end

/-! ## Reading the entries back -/

theorem parseLockedRegistrySnapshot_raw {snapshot : LockedRegistrySnapshot}
    (hreg : validateRegistryName snapshot.registry = .ok ()) :
    parseLockedRegistrySnapshot snapshot.raw = .ok snapshot := by
  simp [parseLockedRegistrySnapshot, LockedRegistrySnapshot.raw, hreg,
    Sha256Digest.parse_text, bind, Except.bind, pure, Except.pure]

theorem sourcesValid_of_parse {pkg other : LockedPackage Version}
    (hparse : parseLockedPackage pkg.raw = .ok other) : pkg.SourcesValid := by
  unfold parseLockedPackage at hparse
  obtain ⟨_, _, hparse⟩ := bind_eq_ok.mp hparse
  obtain ⟨_, _, hparse⟩ := bind_eq_ok.mp hparse
  obtain ⟨⟨⟩, hown, hparse⟩ := bind_eq_ok.mp hparse
  obtain ⟨dependencies, hdeps, _⟩ := bind_eq_ok.mp hparse
  refine ⟨hown, ?_⟩
  intro dep hdep
  obtain ⟨read, hread⟩ := exists_of_mapM_eq_ok hdeps (List.mem_map_of_mem hdep)
  unfold parseLockedDependency at hread
  obtain ⟨_, _, hread⟩ := bind_eq_ok.mp hread
  obtain ⟨⟨⟩, hsrc, _⟩ := bind_eq_ok.mp hread
  exact hsrc

section

variable (hvers : ReadsVersions Version)

include hvers

theorem parseVersion_text (ctx : String → String) (version : Version) :
    parseVersion ctx (text version) = .ok version := by
  rw [parseVersion, hvers version]

theorem parseLockedRegistryDependency_raw {dep : LockedRegistryDependency Version}
    (hchecked : dep.Checked) :
    parseLockedRegistryDependency dep.raw = .ok dep := by
  simp [parseLockedRegistryDependency, LockedRegistryDependency.raw, hchecked.aliasName,
    hchecked.registry, hchecked.name, hchecked.version, parseVersion_text hvers,
    Sha256Digest.parse_text, bind, Except.bind, pure, Except.pure]

theorem parseLockedRegistryPackage_raw {pkg : LockedRegistryPackage Version}
    (hchecked : pkg.Checked) : parseLockedRegistryPackage pkg.raw = .ok pkg := by
  have hdeps : (pkg.dependencies.map LockedRegistryDependency.raw).mapM
      parseLockedRegistryDependency = .ok pkg.dependencies :=
    mapM_map_eq_ok fun dep hdep =>
      parseLockedRegistryDependency_raw hvers (hchecked.dependencies dep hdep)
  simp [parseLockedRegistryPackage, LockedRegistryPackage.raw, hchecked.registry, hchecked.name,
    hchecked.version, parseVersion_text hvers, Sha256Digest.parse_text, hdeps, bind,
    Except.bind, pure, Except.pure]

theorem parseLockedDependency_raw {dep : LockedDependency Version}
    (hsrc : validateLockedSource dep.source dep.path = .ok ()) :
    parseLockedDependency dep.raw = .ok dep := by
  simp [parseLockedDependency, LockedDependency.raw, parseVersion_text hvers, hsrc, bind,
    Except.bind, pure, Except.pure]

theorem parseLockedPackage_raw {pkg : LockedPackage Version}
    (hreg : ∀ dep ∈ pkg.registryDependencies, dep.Checked)
    (hsrcs : pkg.SourcesValid) : parseLockedPackage pkg.raw = .ok pkg := by
  have hdeps : (pkg.dependencies.map LockedDependency.raw).mapM
      parseLockedDependency = .ok pkg.dependencies :=
    mapM_map_eq_ok fun dep hdep =>
      parseLockedDependency_raw hvers (hsrcs.dependencies dep hdep)
  have hregistryDependencies : (pkg.registryDependencies.map LockedRegistryDependency.raw).mapM
      parseLockedRegistryDependency = .ok pkg.registryDependencies :=
    mapM_map_eq_ok fun dep hdep =>
      parseLockedRegistryDependency_raw hvers (hreg dep hdep)
  have hedition : parseLockedEdition pkg.edition.asStr = .ok pkg.edition := by
    cases pkg.edition
    rfl
  simp [parseLockedPackage, LockedPackage.raw, parseVersion_text hvers, hedition, hsrcs.own,
    hdeps, hregistryDependencies, bind, Except.bind, pure, Except.pure]

variable [DecidableEq Version]

/-- A lockfile is read back exactly when the paths of its local packages are valid. -/
theorem checkLockfile_raw_iff {lockfile : Lockfile Version} (hchecked : lockfile.Checked) :
    checkLockfile lockfile.raw = .ok lockfile ↔
      ∀ pkg ∈ lockfile.packages, pkg.SourcesValid := by
  have hsnaps : (lockfile.registrySnapshots.map LockedRegistrySnapshot.raw).mapM
      parseLockedRegistrySnapshot = .ok lockfile.registrySnapshots :=
    mapM_map_eq_ok fun snap hsnap =>
      parseLockedRegistrySnapshot_raw (hchecked.snapshots snap hsnap)
  have hregistryPackages : (lockfile.registryPackages.map LockedRegistryPackage.raw).mapM
      parseLockedRegistryPackage = .ok lockfile.registryPackages :=
    mapM_map_eq_ok fun pkg hpkg =>
      parseLockedRegistryPackage_raw hvers (hchecked.registryPackages pkg hpkg)
  have hformat : ¬ lockfile.raw.format ≠ lockfileFormatVersion := not_not.mpr hchecked.format
  unfold checkLockfile
  rw [if_neg hformat]
  constructor
  · intro hcheck pkg hpkg
    obtain ⟨_, _, hcheck⟩ := bind_eq_ok.mp hcheck
    obtain ⟨_, _, hcheck⟩ := bind_eq_ok.mp hcheck
    obtain ⟨_, hpkgs, _⟩ := bind_eq_ok.mp hcheck
    obtain ⟨read, hread⟩ := exists_of_mapM_eq_ok hpkgs (List.mem_map_of_mem hpkg)
    exact sourcesValid_of_parse hread
  · intro hsrcs
    have hpkgs : (lockfile.packages.map LockedPackage.raw).mapM parseLockedPackage =
        .ok lockfile.packages :=
      mapM_map_eq_ok fun pkg hpkg =>
        parseLockedPackage_raw hvers (hchecked.roots pkg hpkg)
          (hsrcs pkg hpkg)
    have hgraph := hchecked.graph
    obtain ⟨format, snaps, registryPackages, packages⟩ := lockfile
    simp [Lockfile.raw, hsnaps, hregistryPackages, hpkgs, hgraph, bind, Except.bind, pure,
      Except.pure]

theorem parseLockfile_toText_iff {fromStr : String → Except String RawLockfile}
    (htoml : ReadsToml fromStr) {lockfile : Lockfile Version} (hchecked : lockfile.Checked) :
    parseLockfile fromStr (toText lockfile) = .ok lockfile ↔
      ∀ pkg ∈ lockfile.packages, pkg.SourcesValid := by
  have hformat : lockfile.raw.format < 2 ^ 32 := by
    have heq : lockfile.raw.format = 3 := hchecked.format
    omega
  rw [parseLockfile, htoml lockfile.raw (toText lockfile) hformat (says_toText lockfile)]
  exact checkLockfile_raw_iff hvers hchecked

end

/-! ## The paths -/

theorem stripStart_packageSource (root target : CanonicalPath)
    (workspaceMembers : List CanonicalPath) :
    (stripStart "workspace:" (packageSource root target workspaceMembers)).or
        (stripStart "path:" (packageSource root target workspaceMembers)) =
      some (portableRelativePath root.components target.components) := by
  unfold packageSource stripStart
  split_ifs <;> simp [List.isPrefixOf?]

/-- A path that has been written is not empty and does not begin at the root. -/
theorem pathComponents_relative (root target : CanonicalPath) :
    pathComponents (portableRelativePath root.components target.components) ≠ [] ∧
      .rootDir ∉ pathComponents (portableRelativePath root.components target.components) := by
  rw [pathComponents_portableRelativePath]
  split_ifs with hnone
  · decide
  · constructor
    · simpa using hnone
    · simp

/-- The parser accepts a path exactly when it has no separator of another platform. -/
theorem validateLockedSource_packageSource (root target : CanonicalPath)
    (workspaceMembers : List CanonicalPath) :
    validateLockedSource (packageSource root target workspaceMembers)
        (portableRelativePath root.components target.components) = .ok () ↔
      ∀ char ∈ (portableRelativePath root.components target.components).toList,
        char ≠ '\\' ∧ char ≠ ':' := by
  have hrelative := pathComponents_relative root target
  have hstrip := stripStart_packageSource root target workspaceMembers
  generalize portableRelativePath root.components target.components = path at hrelative hstrip ⊢
  have hne : path ≠ "" := by
    rintro rfl
    exact hrelative.1 (by decide)
  have habsolute : ¬ isAbsolute (pathComponents path) := by
    simp only [isAbsolute, decide_eq_true_eq]
    exact fun hhead => hrelative.2 (List.mem_of_mem_head? hhead)
  unfold validateLockedSource
  rw [hstrip]
  simp only [hne, habsolute, hrelative.2, false_or, or_false, ne_eq, not_true_eq_false,
    Bool.false_eq_true, if_false]
  constructor
  · intro hvalid char hchar
    split_ifs at hvalid with hforeign
    rw [not_or] at hforeign
    exact ⟨fun heq => hforeign.1 (heq ▸ hchar), fun heq => hforeign.2 (heq ▸ hchar)⟩
  · intro hplain
    rw [if_neg]
    rintro (hbackslash | hcolon)
    · exact (hplain _ hbackslash).1 rfl
    · exact (hplain _ hcolon).2 rfl

/-- The path of a package is accepted and leads back to it exactly when it is portable. -/
theorem portablePath_iff_valid (root target : CanonicalPath)
    (workspaceMembers : List CanonicalPath) :
    PortablePath root target ↔ validateLockedSource (packageSource root target workspaceMembers)
          (portableRelativePath root.components target.components) = .ok () ∧
        LeadsTo root target (portableRelativePath root.components target.components) := by
  rw [portablePath_iff, validateLockedSource_packageSource, leadsTo_portableRelativePath_iff,
    and_comm]

end Salicin.Locking
