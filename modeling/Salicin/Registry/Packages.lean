import Salicin.Lexing.Lexer
import Mathlib.Data.Prod.Lex
import Mathlib.Data.String.Basic

/-!
# Registry packages

The data that a registry hands to the resolver, and what the resolver hands back. Versions,
version requirements and paths come from other libraries; the resolver matches them, compares
them and prints them.
-/

namespace Salicin.Registry

/-- What is used of semantic versions. -/
class SemanticVersions (Version Req : Type) where
  matchesVersion : Req → Version → Bool
  versionText : Version → String
  requirementText : Req → String

/-- What is used of the paths of manifests. -/
class ManifestPaths (Path : Type) where
  cmp : Path → Path → Ordering
  display : Path → String

/-- The digest of some bytes, as lowercase hexadecimal digits. -/
structure Sha256Digest where
  text : String
  length_eq : text.utf8ByteSize = 64
  digits : ∀ digit ∈ text.toList, digit.isDigit ∨ digit ∈ ['a', 'b', 'c', 'd', 'e', 'f']
  deriving DecidableEq

theorem Sha256Digest.digits_of_replicate {text : String} (digit : Char)
    (htext : text = String.ofList (List.replicate 64 digit)) (hdigit : digit.isDigit = true) :
    ∀ other ∈ text.toList, other.isDigit ∨ other ∈ ['a', 'b', 'c', 'd', 'e', 'f'] := by
  intro other hother
  rw [htext, String.toList_ofList] at hother
  rw [List.eq_of_mem_replicate hother]
  exact .inl hdigit

structure RegistryPackageKey where
  registry : String
  name : String

namespace RegistryPackageKey

def toPair (key : RegistryPackageKey) : String ×ₗ String := toLex (key.registry, key.name)

theorem toPair_injective : Function.Injective toPair := by
  rintro ⟨registry, name⟩ ⟨other, otherName⟩ heq
  simpa [toPair] using heq

/-- Keys are in the order of their registries, and of their names in one registry. -/
instance : LinearOrder RegistryPackageKey := LinearOrder.lift' toPair toPair_injective

end RegistryPackageKey

structure RegistryRequirement (Req : Type) where
  aliasName : String
  package : String
  registry : String
  requirement : Req

def RegistryRequirement.key {Req : Type} (dependency : RegistryRequirement Req) :
    RegistryPackageKey :=
  ⟨dependency.registry, dependency.package⟩

structure RegistryRelease (Version Req : Type) where
  version : Version
  yanked : Bool
  archiveSha256 : Sha256Digest
  dependencies : List (RegistryRequirement Req)

structure RegistryPackage (Version Req : Type) where
  name : String
  releases : List (RegistryRelease Version Req)

structure RegistrySnapshot (Version Req : Type) where
  digest : Sha256Digest
  registry : String
  packages : List (RegistryPackage Version Req)

/-- A dependency on a registry that a local package declares. -/
structure RootRegistryRequirement (Path Req : Type) where
  ownerManifestPath : Path
  dependency : RegistryRequirement Req

/-- The exact provider that a lockfile records. -/
structure RegistryProviderIdentity (Version : Type) where
  registry : String
  snapshot : Sha256Digest
  name : String
  version : Version
  archiveSha256 : Sha256Digest
  deriving DecidableEq

instance {Version : Type} [DecidableEq Version] : LawfulBEq (RegistryProviderIdentity Version) :=
  inferInstance

def RegistryProviderIdentity.key {Version : Type} (identity : RegistryProviderIdentity Version) :
    RegistryPackageKey :=
  ⟨identity.registry, identity.name⟩

structure ResolvedRegistryDependency (Version : Type) where
  aliasName : String
  provider : RegistryProviderIdentity Version

structure ResolvedRegistryPackage (Version : Type) where
  provider : RegistryProviderIdentity Version
  dependencies : List (ResolvedRegistryDependency Version)

structure ResolvedRootRegistryDependency (Path Version : Type) where
  ownerManifestPath : Path
  dependency : ResolvedRegistryDependency Version

structure RegistryResolution (Path Version : Type) where
  snapshots : List (String × Sha256Digest)
  packages : List (ResolvedRegistryPackage Version)
  roots : List (ResolvedRootRegistryDependency Path Version)

inductive RegistryResolutionError
  | duplicateSnapshot (registry : String)
  | missingSnapshot (registry : String)
  | missingPackage (package : RegistryPackageKey)
  | noCompatibleVersion (package : RegistryPackageKey) (requirements : List String)
  | dependencyCycle (cycle : List RegistryPackageKey)
  | searchLimitExceeded (limit : Nat)

/-- A requirement on a package, with the text that says where it comes from. -/
structure Constraint (Req : Type) where
  requirement : Req
  origin : String

def providerIdentity {Version Req : Type} (key : RegistryPackageKey)
    (release : RegistryRelease Version Req) (snapshot : Sha256Digest) :
    RegistryProviderIdentity Version where
  registry := key.registry
  snapshot := snapshot
  name := key.name
  version := release.version
  archiveSha256 := release.archiveSha256

end Salicin.Registry

/-!
## The names in registries

The checks on the names, aliases and digests that come from outside, and what a parsed snapshot
has passed. Of the versions it is asked whether they have build metadata.
-/

namespace Salicin.Registry

def isLowercaseOrDigit (character : Char) : Bool := character.isLower || character.isDigit

def isKebabSegment (segment : List Char) : Bool :=
  !segment.isEmpty && segment.all isLowercaseOrDigit

def isKebabName (name : String) : Bool :=
  match name.toList.splitOn '-' with
  | [] => false
  | first :: segments =>
    if first.isEmpty || !first.all isLowercaseOrDigit || !first.head?.any Char.isLower then false
    else segments.all isKebabSegment

def validateRegistryName (name : String) : Except String Unit :=
  if !isKebabName name || 64 < name.utf8ByteSize then
    .error s!"registry identity `{name}` must be normalized ASCII kebab-case with at most 64 bytes"
  else .ok ()

def validatePackageName (name : String) : Except String Unit :=
  if !isKebabName name then .error s!"registry package name `{name}` must be ASCII kebab-case"
  else .ok ()

def validateAlias (aliasName : String) : Except String Unit :=
  match aliasName.toList with
  | [] => .error "registry dependency alias must not be empty"
  | first :: rest =>
    if !(first.isLower || first = '_') ||
        !rest.all (fun character => isLowercaseOrDigit character || character = '_') ||
        aliasName ∈ ["_", "self", "core", "alloc"] || (Lexing.keyword aliasName).isSome then
      .error s!"registry dependency alias `{aliasName}` must be ASCII snake_case"
    else .ok ()

def isLowercaseHexadecimal (character : Char) : Bool :=
  character.isDigit || character ∈ ['a', 'b', 'c', 'd', 'e', 'f']

theorem Sha256Digest.parse_digits {val : String} (hlen : val.utf8ByteSize = 64)
    (hdigits : val.toList.all isLowercaseHexadecimal = true) : val.utf8ByteSize = 64 ∧
      ∀ digit ∈ val.toList, digit.isDigit ∨ digit ∈ ['a', 'b', 'c', 'd', 'e', 'f'] := by
  refine ⟨hlen, ?_⟩
  intro digit hdigit
  simpa [isLowercaseHexadecimal] using List.all_eq_true.mp hdigits digit hdigit

def Sha256Digest.parse (value : String) : Except String Sha256Digest :=
  if h : value.utf8ByteSize = 64 ∧ value.toList.all isLowercaseHexadecimal = true then
    .ok ⟨value, (parse_digits h.1 h.2).1, (parse_digits h.1 h.2).2⟩
  else .error s!"SHA-256 digest `{value}` must contain exactly 64 lowercase hexadecimal digits"

theorem Sha256Digest.parse_text (digest : Sha256Digest) : parse digest.text = .ok digest := by
  have hdigits : digest.text.toList.all isLowercaseHexadecimal = true := by
    apply List.all_eq_true.mpr
    intro digit hdigit
    simpa [isLowercaseHexadecimal] using digest.digits digit hdigit
  rw [parse, dif_pos ⟨digest.length_eq, hdigits⟩]

variable {Version Req : Type}

/-- What is checked of a dependency, in a snapshot and in a manifest. -/
structure RegistryRequirement.Parsed (dependency : RegistryRequirement Req) : Prop where
  aliasName : validateAlias dependency.aliasName = .ok ()
  package : validatePackageName dependency.package = .ok ()
  registry : validateRegistryName dependency.registry = .ok ()

/-- What `parse_registry_snapshot` has checked of a snapshot. -/
structure RegistrySnapshot.Parsed (buildIsEmpty : Version → Bool)
    (snapshot : RegistrySnapshot Version Req) : Prop where
  registry : validateRegistryName snapshot.registry = .ok ()
  packages : ∀ package ∈ snapshot.packages, validatePackageName package.name = .ok ()
  names : (snapshot.packages.map RegistryPackage.name).Pairwise (· < ·)
  distinct : ∀ package ∈ snapshot.packages, (package.releases.map RegistryRelease.version).Nodup
  versions : ∀ package ∈ snapshot.packages, ∀ release ∈ package.releases,
    buildIsEmpty release.version = true
  dependencies : ∀ package ∈ snapshot.packages, ∀ release ∈ package.releases,
    ∀ dependency ∈ release.dependencies, dependency.Parsed
  aliases : ∀ package ∈ snapshot.packages, ∀ release ∈ package.releases,
    (release.dependencies.map RegistryRequirement.aliasName).Pairwise (· < ·)

end Salicin.Registry
