import Salicin.Foundation.Backtracking
import Salicin.Foundation.CycleSearch
import Salicin.Foundation.SortedTable
import Salicin.Registry.Packages

/-!
# The registry solver

`resolve_registry_dependencies` selects one release for each package that the roots reach. It
tries the releases of a package from the last to the first and goes back when a choice fails.
A lookup of a key that a table does not have is a panic, which is `none` here, as is a search
that runs out of fuel.
-/

namespace Salicin.Registry

open Backtracking

variable {Path Version Req : Type} [ManifestPaths Path]
  [SemanticVersions Version Req] [DecidableEq Version]

def registryResolutionAttemptLimit : Nat := 100000

abbrev SnapshotTable (Version Req : Type) := SortedTable String (RegistrySnapshot Version Req)

abbrev ConstraintTable (Req : Type) := SortedTable RegistryPackageKey (List (Constraint Req))

abbrev SelectedTable (Version Req : Type) :=
  SortedTable RegistryPackageKey (RegistryRelease Version Req)

abbrev Locked (Version : Type) := Finset (RegistryProviderIdentity Version)

/-- Add a constraint at the end of the list of its package. -/
def pushConstraint (constraints : ConstraintTable Req) (key : RegistryPackageKey)
    (constraint : Constraint Req) : ConstraintTable Req :=
  constraints.insert key ((constraints.lookup key).getD [] ++ [constraint])

def noCompatibleError (key : RegistryPackageKey) (constraints : List (Constraint Req)) :
    RegistryResolutionError :=
  .noCompatibleVersion key ((constraints.map Constraint.origin).mergeSort (· ≤ ·)).dedup

def dependencyKeys (release : RegistryRelease Version Req) : List RegistryPackageKey :=
  release.dependencies.map RegistryRequirement.key

def rejectRegistryCycles (selected : SelectedTable Version Req) :
    Option (Except RegistryResolutionError Unit) :=
  match CycleSearch.check (fun key => (selected.lookup key).map dependencyKeys) selected.keys with
  | none => none
  | some (.ok _) => some (.ok ())
  | some (.error cycle) => some (.error (.dependencyCycle cycle))

def satisfiesAll (requirements : List (Constraint Req))
    (release : RegistryRelease Version Req) : Bool :=
  requirements.all fun constraint =>
    SemanticVersions.matchesVersion constraint.requirement release.version

/-- Look for a selected release that a constraint excludes. -/
def recheckSelected (constraints : ConstraintTable Req) :
    List (RegistryPackageKey × RegistryRelease Version Req) →
      Option (Except RegistryResolutionError Unit)
  | [] => some (.ok ())
  | (key, release) :: rest =>
    match constraints.lookup key with
    | none => none
    | some requirements =>
      if satisfiesAll requirements release then recheckSelected constraints rest
      else some (.error (noCompatibleError key requirements))

def dependencyConstraint (key : RegistryPackageKey)
    (release : RegistryRelease Version Req) (dependency : RegistryRequirement Req) :
    Constraint Req where
  requirement := dependency.requirement
  origin := s!"{key.registry}/{key.name}@{SemanticVersions.versionText Req release.version} "
    ++ s!"dependency `{dependency.aliasName}` requires "
    ++ s!"`{SemanticVersions.requirementText Version dependency.requirement}`"

/-- Add the constraints of some dependencies, up to one whose registry has no snapshot. -/
def addConstraints {Item : Type} (snapshots : SnapshotTable Version Req)
    (dependency : Item → RegistryRequirement Req) (constraint : Item → Constraint Req) :
    List Item → ConstraintTable Req → Except RegistryResolutionError (ConstraintTable Req)
  | [], constraints => .ok constraints
  | item :: rest, constraints =>
    match snapshots.lookup (dependency item).registry with
    | none => .error (.missingSnapshot (dependency item).registry)
    | some _ =>
      addConstraints snapshots dependency constraint rest
        (pushConstraint constraints (dependency item).key (constraint item))

def addDependencies (snapshots : SnapshotTable Version Req) (key : RegistryPackageKey)
    (release : RegistryRelease Version Req) (constraints : ConstraintTable Req) :
    Except RegistryResolutionError (ConstraintTable Req) :=
  addConstraints snapshots (fun dependency => dependency) (dependencyConstraint key release)
    release.dependencies constraints

/-- What a search for the packages that are left comes to, with the attempts made so far. -/
abbrev SolveResult (Version Req : Type) :=
  Option (Except RegistryResolutionError (SelectedTable Version Req) × Nat)

/-- A release that was yanked is taken only if it was locked before. -/
def eligible (previouslyLocked : Locked Version) (key : RegistryPackageKey)
    (digest : Sha256Digest) (release : RegistryRelease Version Req) : Bool :=
  !release.yanked || providerIdentity key release digest ∈ previouslyLocked

/-- Try a release for a package. -/
def tryRelease (snapshots : SnapshotTable Version Req) (previouslyLocked : Locked Version)
    (solve : ConstraintTable Req → SelectedTable Version Req → Nat → SolveResult Version Req)
    (constraints : ConstraintTable Req) (selected : SelectedTable Version Req)
    (key : RegistryPackageKey) (requirements : List (Constraint Req))
    (digest : Sha256Digest) (release : RegistryRelease Version Req) (attempts : Nat) :
    Option (Trial (SelectedTable Version Req) RegistryResolutionError × Nat) :=
  if !satisfiesAll requirements release then some (.skipped, attempts)
  else if !eligible previouslyLocked key digest release then some (.skipped, attempts)
  else if registryResolutionAttemptLimit < attempts + 1 then
    some (.returned (.error (.searchLimitExceeded registryResolutionAttemptLimit)), attempts + 1)
  else
    match addDependencies snapshots key release constraints with
    | .error error => some (.failed error, attempts + 1)
    | .ok nextConstraints =>
      match solve nextConstraints (selected.insert key release) (attempts + 1) with
      | none => none
      | some (.ok solution, attempts) => some (.returned (.ok solution), attempts)
      | some (.error (.searchLimitExceeded limit), attempts) =>
        some (.returned (.error (.searchLimitExceeded limit)), attempts)
      | some (.error error, attempts) => some (.failed error, attempts)

def solveRegistryConstraints (snapshots : SnapshotTable Version Req)
    (previouslyLocked : Locked Version) :
    Nat → ConstraintTable Req → SelectedTable Version Req → Nat → SolveResult Version Req
  | 0, _, _, _ => none
  | fuel + 1, constraints, selected, attempts =>
    match recheckSelected constraints selected.entries with
    | none => none
    | some (.error error) => some (.error error, attempts)
    | some (.ok ()) =>
      match constraints.entries.find? fun entry => (selected.lookup entry.1).isNone with
      | none => (rejectRegistryCycles selected).map fun checked =>
        (checked.map fun _ => selected, attempts)
      | some (key, requirements) =>
        match snapshots.lookup key.registry with
        | none => some (.error (.missingSnapshot key.registry), attempts)
        | some snapshot =>
          match snapshot.packages.find? fun package => package.name = key.name with
          | none => some (.error (.missingPackage key), attempts)
          | some package =>
            tryEach
              (tryRelease snapshots previouslyLocked
                (solveRegistryConstraints snapshots previouslyLocked fuel)
                constraints selected key requirements snapshot.digest)
              (noCompatibleError key requirements) package.releases.reverse none attempts

/-- The snapshots by their registries, unless two have one registry. -/
def snapshotsByRegistry : List (RegistrySnapshot Version Req) → SnapshotTable Version Req →
      Except RegistryResolutionError (SnapshotTable Version Req)
  | [], table => .ok table
  | snapshot :: rest, table =>
    match table.lookup snapshot.registry with
    | some _ => .error (.duplicateSnapshot snapshot.registry)
    | none => snapshotsByRegistry rest (table.insert snapshot.registry snapshot)

/-- The order of the roots: by manifest, alias, registry and package. -/
def compareRoots (left right : RootRegistryRequirement Path Req) : Ordering :=
  (ManifestPaths.cmp left.ownerManifestPath right.ownerManifestPath)
    |>.then (compare left.dependency.aliasName right.dependency.aliasName)
    |>.then (compare left.dependency.registry right.dependency.registry)
    |>.then (compare left.dependency.package right.dependency.package)

def orderRoots (roots : List (RootRegistryRequirement Path Req)) :
    List (RootRegistryRequirement Path Req) :=
  roots.mergeSort fun left right => (compareRoots left right).isLE

variable (Version) in
def rootConstraint (root : RootRegistryRequirement Path Req) : Constraint Req where
  requirement := root.dependency.requirement
  origin := s!"{ManifestPaths.display root.ownerManifestPath} dependency "
    ++ s!"`{root.dependency.aliasName}` requires "
    ++ s!"`{SemanticVersions.requirementText Version root.dependency.requirement}`"

def addRoots (snapshots : SnapshotTable Version Req)
    (roots : List (RootRegistryRequirement Path Req))
    (constraints : ConstraintTable Req) :
    Except RegistryResolutionError (ConstraintTable Req) :=
  addConstraints snapshots RootRegistryRequirement.dependency (rootConstraint Version)
    roots constraints

abbrev IdentityTable (Version : Type) :=
  SortedTable RegistryPackageKey (RegistryProviderIdentity Version)

def identityEntry (snapshots : SnapshotTable Version Req)
    (entry : RegistryPackageKey × RegistryRelease Version Req) :
    Option (RegistryPackageKey × RegistryProviderIdentity Version) :=
  (snapshots.lookup entry.1.registry).map fun snapshot =>
    (entry.1, providerIdentity entry.1 entry.2 snapshot.digest)

/-- The identities of the selected releases. -/
def identitiesOf (snapshots : SnapshotTable Version Req)
    (selected : SelectedTable Version Req) : Option (IdentityTable Version) :=
  (selected.entries.mapM (identityEntry snapshots)).map SortedTable.ofEntries

def resolvedDependency (identities : IdentityTable Version)
    (dependency : RegistryRequirement Req) : Option (ResolvedRegistryDependency Version) :=
  (identities.lookup dependency.key).map fun provider => ⟨dependency.aliasName, provider⟩

def resolvedPackage (identities : IdentityTable Version)
    (entry : RegistryPackageKey × RegistryRelease Version Req) :
    Option (ResolvedRegistryPackage Version) := do
  let provider ← identities.lookup entry.1
  let dependencies ← entry.2.dependencies.mapM (resolvedDependency identities)
  return { provider, dependencies }

def resolvedRoot (identities : IdentityTable Version)
    (root : RootRegistryRequirement Path Req) :
    Option (ResolvedRootRegistryDependency Path Version) :=
  (resolvedDependency identities root.dependency).map fun dependency =>
    ⟨root.ownerManifestPath, dependency⟩

/-- The snapshots of the registries that have been used. -/
def usedSnapshots (snapshots : SnapshotTable Version Req)
    (identities : IdentityTable Version) : List (String × Sha256Digest) :=
  (snapshots.entries.filter fun entry =>
    entry.1 ∈ identities.keys.map RegistryPackageKey.registry).map fun entry =>
      (entry.1, entry.2.digest)

/-- The resolution that a selection stands for. -/
def renderResolution (snapshots : SnapshotTable Version Req)
    (orderedRoots : List (RootRegistryRequirement Path Req))
    (selected : SelectedTable Version Req) : Option (RegistryResolution Path Version) := do
  let identities ← identitiesOf snapshots selected
  let packages ← selected.entries.mapM (resolvedPackage identities)
  let roots ← orderedRoots.mapM (resolvedRoot identities)
  return { snapshots := usedSnapshots snapshots identities, packages, roots }

/-- No selection is larger than the number of packages in the snapshots. -/
def packageCount (snapshots : List (RegistrySnapshot Version Req)) : Nat :=
  (snapshots.map fun snapshot => snapshot.packages.length).sum

def resolveRegistryDependencies (roots : List (RootRegistryRequirement Path Req))
    (snapshots : List (RegistrySnapshot Version Req))
    (previouslyLocked : Locked Version) :
    Option (Except RegistryResolutionError (RegistryResolution Path Version)) :=
  match snapshotsByRegistry snapshots .empty with
  | .error error => some (.error error)
  | .ok table =>
    let orderedRoots := orderRoots roots
    match addRoots table orderedRoots .empty with
    | .error error => some (.error error)
    | .ok constraints =>
      match solveRegistryConstraints table previouslyLocked (packageCount snapshots + 1)
          constraints .empty 0 with
      | none => none
      | some (.error error, _) => some (.error error)
      | some (.ok selected, _) =>
        (renderResolution table orderedRoots selected).map .ok

end Salicin.Registry
