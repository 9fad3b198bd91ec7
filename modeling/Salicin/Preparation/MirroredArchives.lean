import Salicin.Preparation.Acceptance
import Salicin.Registry.InputOrder

/-!
# Archives in two registries

The graph of a project is composed from an accepted resolution and the sources of its packages.
Where one archive is published in two registries, and both releases are selected, the graph lists
two packages at one path.
-/

namespace Salicin.Preparation

open List Registry SortedTable
open Locking (CanonicalPath LockedVersions)

section
variable {Tree Version Req : Type} [LockedVersions Version] [DecidableEq Version]
  [SemanticVersions Version Req] [ManifestPaths CanonicalPath]
  {tools : SourceTools Tree Version Req} {cacheRoot projectRoot : CanonicalPath}
  {resolutionGraph compilationGraph : DependencyGraph Version Req}
  {snapshots : SnapshotTable Version Req}
  {resolution : RegistryResolution CanonicalPath Version}

/-- The composed graph is well formed exactly when no two of the releases that are reached have one
archive, and none stands where a local package does. -/
theorem composeGraph_wellComposed_iff (hgraph : resolutionGraph.forLock.Accepted)
    (hloaded : compilationGraph.Loaded)
    (hpart : compilationGraph.packages ⊆ resolutionGraph.packages)
    (hsnapshots : ∀ snapshot ∈ snapshotValues snapshots,
      snapshot.Parsed LockedVersions.buildIsEmpty)
    (haccepted : AcceptedResolution resolutionGraph projectRoot snapshots resolution)
    {endpoints : SortedTable String RegistryEndpoint} {mode : RegistryAccessMode}
    {before after : Disk Tree} {sources : SourceTable Version Req}
    (hmaterialize : materializePackages tools cacheRoot snapshots endpoints mode
      resolution.packages before = .ok sources after) :
    ∃ graph, composeGraph compilationGraph resolution sources = some (.ok graph) ∧
      (WellComposed compilationGraph resolution sources graph ↔
        Separate compilationGraph resolution cacheRoot) :=
  exists_wellComposed_iff hloaded (haccepted.acceptedFor hgraph hpart hsnapshots)
    (materializePackages_returns resolution.packages hmaterialize)

end

/-! ## A mirror of a registry -/

namespace Mirrored

/-- Versions are numbers, and a requirement admits them all. -/
scoped instance : SemanticVersions Nat Unit where
  matchesVersion _ _ := true
  versionText := toString
  requirementText _ := "*"

scoped instance : LockedVersions Nat where
  cmp := compare
  text := toString
  parse text := match text.toNat? with
    | some version => .ok version
    | none => .error "unexpected character"
  buildIsEmpty _ := true

def display (path : CanonicalPath) : String := String.ofList (Locking.pathText path.components)

/-- The order of the texts, which is that of the components for the paths below. -/
scoped instance : ManifestPaths CanonicalPath where
  cmp left right := compare (display left) (display right)
  display := display

def originDigest : Sha256Digest :=
  ⟨"4444444444444444444444444444444444444444444444444444444444444444", rfl,
    Sha256Digest.digits_of_replicate '4' rfl rfl⟩

def mirrorDigest : Sha256Digest :=
  ⟨"5555555555555555555555555555555555555555555555555555555555555555", rfl,
    Sha256Digest.digits_of_replicate '5' rfl rfl⟩

def archiveDigest : Sha256Digest :=
  ⟨"6666666666666666666666666666666666666666666666666666666666666666", rfl,
    Sha256Digest.digits_of_replicate '6' rfl rfl⟩

def toolPackage : RegistryPackage Nat Unit := ⟨"tool", [⟨1, false, archiveDigest, []⟩]⟩

def snapshots : SnapshotTable Nat Unit := ofEntries [
  ("mirror", ⟨mirrorDigest, "mirror", [toolPackage]⟩),
  ("origin", ⟨originDigest, "origin", [toolPackage]⟩)]

def directory (name : String) (hvalid : (osName name).Valid) : CanonicalPath where
  names := [osName name]
  valid _ hmem := mem_singleton.mp hmem ▸ hvalid

def projectRoot : CanonicalPath :=
  directory "project" (osName_valid (by decide) (by decide) (.inl (by decide)))

def cacheRoot : CanonicalPath :=
  directory "cache" (osName_valid (by decide) (by decide) (.inl (by decide)))

/-- The application asks for the tool in both registries. -/
def application : Manifest Nat Unit where
  package := ⟨"application", 1, .edition2026⟩
  lib := false
  dependencies := []
  registryDependencies := [⟨"copy", "tool", "mirror", ()⟩, ⟨"tool", "tool", "origin", ()⟩]
  manifestPath := manifestPathIn projectRoot
  packageRoot := projectRoot

def project : DependencyGraph Nat Unit := ⟨application.manifestPath, [application]⟩

/-- All archives are the one of the tool. A registry has one snapshot here, so the metadata of a
source is written as the name of its registry. -/
def tools : SourceTools Unit Nat Unit where
  sha256 _ := archiveDigest
  parseArchive _ _ := .ok ((), ⟨archiveDigest, 2, 1, 0⟩)
  readTree _ := .ok ⟨archiveDigest, 2, 1, 0⟩
  readManifest _ := .ok ⟨⟨"tool", 1, .edition2026⟩, true, [], []⟩
  encodeMetadata metadata := .ok metadata.registry
  decodeMetadata text := .ok {
    format := sourceMetadataFormat
    registry := text
    snapshot := if text = "mirror" then mirrorDigest.text else originDigest.text
    name := "tool"
    version := "1"
    archiveSha256 := archiveDigest.text
    treeSha256 := archiveDigest.text
    files := 2
    directories := 1
    totalBytes := 0 }

def endpoints : SortedTable String RegistryEndpoint := ofEntries [
  ("mirror", .localFixture fun _ => .ok []), ("origin", .localFixture fun _ => .ok [])]

def emptyCache : Disk Unit := ⟨fun _ => none, fun _ => none⟩

def provider (registry : String) (snapshot : Sha256Digest) : RegistryProviderIdentity Nat :=
  ⟨registry, snapshot, "tool", 1, archiveDigest⟩

def resolution : RegistryResolution CanonicalPath Nat where
  snapshots := [("mirror", mirrorDigest), ("origin", originDigest)]
  packages := [⟨provider "mirror" mirrorDigest, []⟩, ⟨provider "origin" originDigest, []⟩]
  roots := [
    ⟨application.manifestPath, ⟨"copy", provider "mirror" mirrorDigest⟩⟩,
    ⟨application.manifestPath, ⟨"tool", provider "origin" originDigest⟩⟩]

def requirements : List (RootRegistryRequirement CanonicalPath Unit) :=
  application.registryDependencies.map fun dependency => ⟨application.manifestPath, dependency⟩

theorem requirements_eq : Locking.registryRequirementsFromGraph project.forLock = requirements :=
  mergeSort_of_pairwise (by decide)

theorem orderRoots_requirements : orderRoots requirements = requirements :=
  mergeSort_of_pairwise (by decide)

theorem resolved : resolveRegistryDependencies
    (Locking.registryRequirementsFromGraph project.forLock) (snapshotValues snapshots) ∅ =
      some (.ok resolution) := by
  have htable : snapshotsByRegistry (snapshotValues snapshots) .empty = .ok snapshots := rfl
  have hresolve : resolveWith snapshots ∅ (packageCount (snapshotValues snapshots) + 1)
      requirements = some (.ok resolution) := rfl
  rw [requirements_eq, resolveRegistryDependencies_eq_resolveWith htable, orderRoots_requirements,
    hresolve]

theorem accepted : AcceptedResolution project projectRoot snapshots resolution :=
  .updated ∅ resolved

def outcome : EStateM.Result Failure (Disk Unit) (SourceTable Nat Unit) :=
  materializePackages tools cacheRoot snapshots endpoints .update resolution.packages emptyCache

theorem materialized : ∃ srcs after, outcome = .ok srcs after := by
  have hsuccess : (match outcome with | .ok _ _ => true | .error _ _ => false) = true := by
    decide
  generalize outcome = res at hsuccess ⊢
  cases res with
  | ok srcs after => exact ⟨srcs, after, rfl⟩
  | error _ _ => cases hsuccess

theorem loaded : project.Loaded where
  manifestPaths := nodup_singleton _
  dependencies manifest hmanifest dependency hdep := by
    rw [mem_singleton.mp hmanifest] at hdep
    exact absurd hdep not_mem_nil
  aliases manifest hmanifest := by
    rw [mem_singleton.mp hmanifest]
    decide

theorem parsed {dep : RegistryRequirement Unit}
    (hmem : dep ∈ application.registryDependencies) : dep.Parsed := by
  simp only [application, mem_cons, not_mem_nil, or_false] at hmem
  obtain rfl | rfl := hmem <;> exact ⟨by decide, by decide, by decide⟩

theorem graphAccepted : project.forLock.Accepted where
  manifestPaths := nodup_singleton _
  packageRoots := nodup_singleton _
  aliases manifest hmanifest := by
    rw [mem_singleton.mp hmanifest]
    decide
  dependencies manifest hmanifest dependency hdep := by
    rw [mem_singleton.mp hmanifest] at hdep
    exact parsed hdep

theorem snapshotParsed (registry : String) (hreg : validateRegistryName registry = .ok ())
    (digest : Sha256Digest) :
    RegistrySnapshot.Parsed (LockedVersions.buildIsEmpty : Nat → Bool)
      (⟨digest, registry, [toolPackage]⟩ : RegistrySnapshot Nat Unit) where
  registry := hreg
  packages package hpkg := by
    rw [mem_singleton.mp hpkg]
    decide
  names := pairwise_singleton _ _
  distinct package hpkg := by
    rw [mem_singleton.mp hpkg]
    exact nodup_singleton _
  versions _ _ _ _ := rfl
  dependencies package hpkg release hrel dependency hdep := by
    rw [mem_singleton.mp hpkg] at hrel
    rw [mem_singleton.mp hrel] at hdep
    exact absurd hdep not_mem_nil
  aliases package hpkg release hrel := by
    rw [mem_singleton.mp hpkg] at hrel
    rw [mem_singleton.mp hrel]
    exact .nil

theorem snapshotsParsed : ∀ snap ∈ snapshotValues snapshots,
    snap.Parsed LockedVersions.buildIsEmpty := by
  intro snap hsnap
  obtain ⟨⟨registry, _⟩, hentry, rfl⟩ := mem_map.mp hsnap
  have hlookup := (lookup_eq_some snapshots).mpr hentry
  have hlisted := (lookup_ofEntries (by decide)).mp hlookup
  simp only [mem_cons, Prod.mk.injEq, not_mem_nil, or_false] at hlisted
  obtain ⟨_, rfl⟩ | ⟨_, rfl⟩ := hlisted
  · exact snapshotParsed "mirror" (by decide) mirrorDigest
  · exact snapshotParsed "origin" (by decide) originDigest

theorem not_separate : ¬ Separate project resolution cacheRoot := by
  intro hsep
  have hreach : ∀ root ∈ resolution.roots,
      ReachableProvider project resolution root.dependency.provider := by
    intro root hroot
    refine .root hroot (mem_singleton.mpr ?_)
    simp only [resolution, mem_cons, not_mem_nil, or_false] at hroot
    obtain rfl | rfl := hroot <;> rfl
  have hsame := hsep.archives _ _ (hreach _ mem_cons_self)
    (hreach _ (mem_cons_of_mem _ mem_cons_self)) rfl
  exact absurd (congrArg RegistryProviderIdentity.registry hsame) (by decide)

end Mirrored

open Mirrored

/-- The tool is listed twice in the graph of the application, at one path. -/
theorem not_wellComposed_mirrored :
    project.forLock.Accepted ∧ project.Loaded ∧
      AcceptedResolution project projectRoot snapshots resolution ∧
      ∃ sources after graph, materializePackages tools cacheRoot snapshots endpoints .update
          resolution.packages emptyCache = .ok sources after ∧
        composeGraph project resolution sources = some (.ok graph) ∧
        ¬ WellComposed project resolution sources graph := by
  refine ⟨graphAccepted, loaded, accepted, ?_⟩
  obtain ⟨sources, after, hmaterialize⟩ := materialized
  obtain ⟨graph, hgraph, hiff⟩ := exists_wellComposed_iff loaded
    (accepted.acceptedFor graphAccepted (List.Subset.refl _) snapshotsParsed)
    (materializePackages_returns resolution.packages hmaterialize)
  refine ⟨sources, after, graph, hmaterialize, hgraph, ?_⟩
  exact fun hcomposed => not_separate (hiff.mp hcomposed)

theorem composeGraph_wellComposed_iff_mirrored : ∃ sources graph,
    composeGraph project resolution sources = some (.ok graph) ∧
      (WellComposed project resolution sources graph ↔ Separate project resolution cacheRoot) := by
  obtain ⟨sources, after, hmaterialize⟩ := materialized
  obtain ⟨graph, hgraph⟩ := composeGraph_wellComposed_iff graphAccepted loaded (List.Subset.refl _)
    snapshotsParsed accepted hmaterialize
  exact ⟨sources, graph, hgraph⟩

end Salicin.Preparation
