import Salicin.Locking.Paths
import Salicin.Registry.Solver

/-!
# Generating a lockfile

A lockfile lists the local packages of a dependency graph with their directories, and the registry
packages that the resolver has selected. It is written as TOML, with the tables in one order and
each value as a basic string. A panic is `none` here.
-/

namespace Salicin.Locking

open Registry

/-- What is used of exact versions: their order, their text, and whether they have build
metadata. -/
class LockedVersions (Version : Type) where
  cmp : Version → Version → Ordering
  text : Version → String
  parse : String → Except String Version
  buildIsEmpty : Version → Bool

inductive Edition
  | edition2026

def Edition.asStr : Edition → String
  | .edition2026 => "2026"

variable {Path Version Req : Type}

/-! ## The local packages -/

/-- The identity of a package. -/
structure Package (Version : Type) where
  name : String
  version : Version
  edition : Edition

/-- A dependency on the package in a directory. -/
structure Dependency (Version : Type) where
  aliasName : String
  path : CanonicalPath
  package : Package Version

structure Manifest (Path Version Req : Type) where
  package : Package Version
  dependencies : List (Dependency Version)
  registryDependencies : List (RegistryRequirement Req)
  manifestPath : Path
  packageRoot : CanonicalPath

structure DependencyGraph (Path Version Req : Type) where
  packages : List (Manifest Path Version Req)

def DependencyGraph.package [DecidableEq Path] (graph : DependencyGraph Path Version Req)
    (manifestPath : Path) : Option (Manifest Path Version Req) :=
  graph.packages.find? fun manifest => manifest.manifestPath = manifestPath

/-- What the local packages ask of the registries, in the order of the manifests and aliases. -/
def registryRequirementsFromGraph [ManifestPaths Path]
    (graph : DependencyGraph Path Version Req) :
    List (RootRegistryRequirement Path Req) :=
  (graph.packages.flatMap fun manifest => manifest.registryDependencies.map fun dep =>
      ⟨manifest.manifestPath, dep⟩).mergeSort fun left right =>
    ((ManifestPaths.cmp left.ownerManifestPath right.ownerManifestPath)
      |>.then (compare left.dependency.aliasName right.dependency.aliasName)).isLE

/-! ## The lockfile -/

structure LockedDependency (Version : Type) where
  aliasName : String
  name : String
  version : Version
  source : String
  path : String

structure LockedRegistryDependency (Version : Type) where
  aliasName : String
  registry : String
  name : String
  version : Version
  snapshot : Sha256Digest
  checksum : Sha256Digest

structure LockedPackage (Version : Type) where
  name : String
  version : Version
  edition : Edition
  source : String
  path : String
  dependencies : List (LockedDependency Version)
  registryDependencies : List (LockedRegistryDependency Version)

structure LockedRegistrySnapshot where
  registry : String
  checksum : Sha256Digest

structure LockedRegistryPackage (Version : Type) where
  registry : String
  name : String
  version : Version
  snapshot : Sha256Digest
  checksum : Sha256Digest
  dependencies : List (LockedRegistryDependency Version)

/-- The data of a lockfile. -/
structure Lockfile (Version : Type) where
  format : Nat
  registrySnapshots : List LockedRegistrySnapshot
  registryPackages : List (LockedRegistryPackage Version)
  packages : List (LockedPackage Version)

def lockfileFormatVersion : Nat := 3

section

variable [LockedVersions Version]

def LockedDependency.compare (left right : LockedDependency Version) : Ordering :=
  (Ord.compare left.aliasName right.aliasName)
    |>.then (Ord.compare left.name right.name)
    |>.then (LockedVersions.cmp left.version right.version)
    |>.then (Ord.compare left.path right.path)

def LockedPackage.compare (left right : LockedPackage Version) : Ordering :=
  (Ord.compare left.name right.name)
    |>.then (LockedVersions.cmp left.version right.version)
    |>.then (Ord.compare left.path right.path)

def LockedRegistryDependency.compare (left right : LockedRegistryDependency Version) : Ordering :=
  (Ord.compare left.aliasName right.aliasName)
    |>.then (Ord.compare left.registry right.registry)
    |>.then (Ord.compare left.name right.name)
    |>.then (LockedVersions.cmp left.version right.version)
    |>.then (Ord.compare left.checksum.text right.checksum.text)

def LockedRegistryPackage.compare (left right : LockedRegistryPackage Version) : Ordering :=
  (Ord.compare left.registry right.registry)
    |>.then (Ord.compare left.name right.name)
    |>.then (LockedVersions.cmp left.version right.version)
    |>.then (Ord.compare left.checksum.text right.checksum.text)

end

/-! ## From a graph -/

def lockedDependency (root : CanonicalPath) (workspaceMembers : List CanonicalPath)
    (dep : Dependency Version) : LockedDependency Version where
  aliasName := dep.aliasName
  name := dep.package.name
  version := dep.package.version
  source := packageSource root dep.path workspaceMembers
  path := portableRelativePath root.components dep.path.components

def lockedPackage [LockedVersions Version] (root : CanonicalPath)
    (workspaceMembers : List CanonicalPath) (manifest : Manifest Path Version Req) :
    LockedPackage Version where
  name := manifest.package.name
  version := manifest.package.version
  edition := manifest.package.edition
  source := packageSource root manifest.packageRoot workspaceMembers
  path := portableRelativePath root.components manifest.packageRoot.components
  dependencies := (manifest.dependencies.map (lockedDependency root workspaceMembers)).mergeSort
    fun left right => (left.compare right).isLE
  registryDependencies := []

def fromGraphRootWithWorkspaceMembers [LockedVersions Version]
    (graph : DependencyGraph Path Version Req) (root : CanonicalPath)
    (workspaceMembers : List CanonicalPath) : Lockfile Version where
  format := lockfileFormatVersion
  registrySnapshots := []
  registryPackages := []
  packages := (graph.packages.map (lockedPackage root workspaceMembers)).mergeSort
    fun left right => (left.compare right).isLE

def fromResolved (dep : ResolvedRegistryDependency Version) :
    LockedRegistryDependency Version where
  aliasName := dep.aliasName
  registry := dep.provider.registry
  name := dep.provider.name
  version := dep.provider.version
  snapshot := dep.provider.snapshot
  checksum := dep.provider.archiveSha256

/-- Change the first element with a property; there has to be one. -/
def modifyFirst {α : Type} (property : α → Bool) (change : α → α) : List α → Option (List α)
  | [] => none
  | first :: rest =>
    if property first then some (change first :: rest)
    else (modifyFirst property change rest).map (first :: ·)

def pushRegistryDependency (dep : LockedRegistryDependency Version)
    (pkg : LockedPackage Version) : LockedPackage Version :=
  { pkg with registryDependencies := pkg.registryDependencies ++ [dep] }

section

variable [DecidableEq Path] [ManifestPaths Path] [DecidableEq Version]

/-- Attach the root dependencies to the packages that declare them. -/
def attachRoots (graph : DependencyGraph Path Version Req) (root : CanonicalPath) :
    List (ResolvedRootRegistryDependency Path Version) → List (LockedPackage Version) →
      Option (Except String (List (LockedPackage Version)))
  | [], packages => some (.ok packages)
  | rootDependency :: rest, packages =>
    match graph.package rootDependency.ownerManifestPath with
    | none => some (.error ("registry resolution references unknown local manifest " ++
        s!"`{ManifestPaths.display rootDependency.ownerManifestPath}`"))
    | some manifest =>
      let path := portableRelativePath root.components manifest.packageRoot.components
      match modifyFirst (fun pkg => pkg.name = manifest.package.name ∧
          pkg.version = manifest.package.version ∧ pkg.path = path)
          (pushRegistryDependency (fromResolved rootDependency.dependency)) packages with
      | none => none
      | some packages => attachRoots graph root rest packages

def sortRegistryDependencies [LockedVersions Version] (pkg : LockedPackage Version) :
    LockedPackage Version :=
  { pkg with
    registryDependencies := pkg.registryDependencies.mergeSort fun left right =>
      (left.compare right).isLE }

def lockedRegistryPackage (pkg : ResolvedRegistryPackage Version) :
    LockedRegistryPackage Version where
  registry := pkg.provider.registry
  name := pkg.provider.name
  version := pkg.provider.version
  snapshot := pkg.provider.snapshot
  checksum := pkg.provider.archiveSha256
  dependencies := pkg.dependencies.map fromResolved

def fromGraphRootWithRegistry [LockedVersions Version]
    (graph : DependencyGraph Path Version Req) (root : CanonicalPath)
    (workspaceMembers : List CanonicalPath) (resolution : RegistryResolution Path Version) :
    Option (Except String (Lockfile Version)) :=
  let lockfile := fromGraphRootWithWorkspaceMembers graph root workspaceMembers
  match attachRoots graph root resolution.roots lockfile.packages with
  | none => none
  | some (.error error) => some (.error error)
  | some (.ok packages) => some (.ok {
      format := lockfile.format
      registrySnapshots := resolution.snapshots.map fun entry => ⟨entry.1, entry.2⟩
      registryPackages := (resolution.packages.map lockedRegistryPackage).mergeSort
        fun left right => (left.compare right).isLE
      packages := packages.map sortRegistryDependencies
    })

end

/-! ## The text -/

/-- The four hexadecimal digits of a control character. -/
def hexDigits (code : Nat) : List Char :=
  [code / 4096, code / 256 % 16, code / 16 % 16, code % 16].map Nat.digitChar |>.map Char.toUpper

/-- `char::is_control`. -/
def isControl (character : Char) : Bool :=
  character.toNat < 32 || (127 ≤ character.toNat && character.toNat < 160)

def escaped (character : Char) : List Char :=
  if character = '"' then ['\\', '"']
  else if character = '\\' then ['\\', '\\']
  else if character = '\n' then ['\\', 'n']
  else if character = '\r' then ['\\', 'r']
  else if character = '\t' then ['\\', 't']
  else if isControl character then '\\' :: 'u' :: hexDigits character.toNat
  else [character]

def tomlString (value : String) : String :=
  String.ofList ('"' :: value.toList.flatMap escaped ++ ['"'])

def writeTomlField (name value : String) : String :=
  String.join [name, " = ", tomlString value, "\n"]

section

variable [LockedVersions Version]

def writeSnapshot (snap : LockedRegistrySnapshot) : String :=
  String.join ["\n[[registry-snapshot]]\n", writeTomlField "registry" snap.registry,
    writeTomlField "checksum" snap.checksum.text]

def writeRegistryDependency (dep : LockedRegistryDependency Version) : String :=
  String.join [writeTomlField "alias" dep.aliasName,
    writeTomlField "registry" dep.registry, writeTomlField "name" dep.name,
    writeTomlField "version" (LockedVersions.text dep.version),
    writeTomlField "snapshot" dep.snapshot.text,
    writeTomlField "checksum" dep.checksum.text]

def writeRegistryPackage (pkg : LockedRegistryPackage Version) : String :=
  String.join ["\n[[registry-package]]\n", writeTomlField "registry" pkg.registry,
    writeTomlField "name" pkg.name,
    writeTomlField "version" (LockedVersions.text pkg.version),
    writeTomlField "snapshot" pkg.snapshot.text,
    writeTomlField "checksum" pkg.checksum.text,
    String.join (pkg.dependencies.map fun dep => String.join
      ["\n[[registry-package.dependencies]]\n", writeRegistryDependency dep])]

def writeDependency (dep : LockedDependency Version) : String :=
  String.join [writeTomlField "alias" dep.aliasName, writeTomlField "name" dep.name,
    writeTomlField "version" (LockedVersions.text dep.version),
    writeTomlField "source" dep.source, writeTomlField "path" dep.path]

def writePackage (pkg : LockedPackage Version) : String :=
  String.join ["\n[[package]]\n", writeTomlField "name" pkg.name,
    writeTomlField "version" (LockedVersions.text pkg.version),
    writeTomlField "edition" pkg.edition.asStr, writeTomlField "source" pkg.source,
    writeTomlField "path" pkg.path,
    String.join (pkg.dependencies.map fun dep => String.join
      ["\n[[package.dependencies]]\n", writeDependency dep]),
    String.join (pkg.registryDependencies.map fun dep => String.join
      ["\n[[package.registry-dependencies]]\n", writeRegistryDependency dep])]

def toText (lockfile : Lockfile Version) : String :=
  String.join ["# This file is automatically generated by salic.\n", "# Do not edit it by hand.\n",
    "format = ", toString lockfile.format, "\n",
    String.join (lockfile.registrySnapshots.map writeSnapshot),
    String.join (lockfile.registryPackages.map writeRegistryPackage),
    String.join (lockfile.packages.map writePackage)]

end

end Salicin.Locking
