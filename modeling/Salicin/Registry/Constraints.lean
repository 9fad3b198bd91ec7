import Salicin.Foundation.DependencyProblem
import Salicin.Registry.Solver

/-!
# The problem that the solver works on

The roots, the snapshots and the locked providers make up a problem of choosing releases. The
solver keeps what the selected releases and the roots require in a table of constraints.
-/

namespace Salicin.Registry

open List

variable {Path Version Req : Type} [ManifestPaths Path]
  [SemanticVersions Version Req] [DecidableEq Version]

/-- The release is listed in the snapshot of its registry under the name of its package; if it
was yanked, this very release was locked before. -/
def Offered (snapshots : List (RegistrySnapshot Version Req))
    (previouslyLocked : Locked Version) (key : RegistryPackageKey)
    (release : RegistryRelease Version Req) : Prop :=
  ∃ snapshot ∈ snapshots, snapshot.registry = key.registry ∧
    (∃ package, snapshot.packages.find? (fun package => package.name = key.name) = some package ∧
      release ∈ package.releases) ∧
    (release.yanked = true → providerIdentity key release snapshot.digest ∈ previouslyLocked)

/-- The choice of releases that the roots ask for. -/
def resolutionProblem (roots : List (RootRegistryRequirement Path Req))
    (snapshots : List (RegistrySnapshot Version Req)) (previouslyLocked : Locked Version) :
    DependencyProblem RegistryPackageKey (RegistryRelease Version Req) Req where
  root key req := ∃ root ∈ roots, root.dependency.key = key ∧ root.dependency.requirement = req
  offered := Offered snapshots previouslyLocked
  needs release key req :=
    ∃ dependency ∈ release.dependencies, dependency.key = key ∧ dependency.requirement = req
  met req release := SemanticVersions.matchesVersion req release.version = true

/-! ## The snapshots -/

/-- The table has the snapshots of the list, each under its registry. -/
def Catalogs (snapshots : List (RegistrySnapshot Version Req))
    (table : SnapshotTable Version Req) : Prop :=
  ∀ registry snapshot, table.lookup registry = some snapshot ↔
    snapshot ∈ snapshots ∧ snapshot.registry = registry

/-- Two snapshots have one registry, or the table has all of them. -/
inductive Cataloged (snapshots : List (RegistrySnapshot Version Req)) :
    Except RegistryResolutionError (SnapshotTable Version Req) → Prop
  | duplicate (snapshot : RegistrySnapshot Version Req) (hmem : snapshot ∈ snapshots)
      (hduplicate : ¬ (snapshots.map RegistrySnapshot.registry).Nodup) :
      Cataloged snapshots (.error (.duplicateSnapshot snapshot.registry))
  | table (table : SnapshotTable Version Req) (hcats : Catalogs snapshots table)
      (hnodup : (snapshots.map RegistrySnapshot.registry).Nodup) : Cataloged snapshots (.ok table)

omit [SemanticVersions Version Req] [DecidableEq Version] in
theorem snapshotsByRegistry_cataloged {before rest : List (RegistrySnapshot Version Req)}
    {table : SnapshotTable Version Req} (hcats : Catalogs before table)
    (hnodup : (before.map RegistrySnapshot.registry).Nodup) :
    Cataloged (before ++ rest) (snapshotsByRegistry rest table) := by
  induction rest generalizing before table with
  | nil =>
    rw [append_nil]
    exact .table table hcats hnodup
  | cons snapshot rest ih =>
    unfold snapshotsByRegistry
    cases hlookup : table.lookup snapshot.registry with
    | some other =>
      obtain ⟨hmem, hreg⟩ := (hcats _ _).mp hlookup
      refine .duplicate snapshot (by simp) ?_
      intro hall
      rw [map_append, map_cons] at hall
      have hdisj := disjoint_of_nodup_append hall
      exact hdisj (mem_map.mpr ⟨other, hmem, hreg⟩) mem_cons_self
    | none =>
      have hfresh : ∀ other ∈ before, other.registry ≠ snapshot.registry := by
        intro other hother heq
        have hfound := (hcats snapshot.registry other).mpr ⟨hother, heq⟩
        simp [hlookup] at hfound
      have hnext : Cataloged (before ++ [snapshot] ++ rest)
          (snapshotsByRegistry rest (table.insert snapshot.registry snapshot)) := by
        apply ih
        · intro registry found
          rw [SortedTable.lookup_insert]
          split_ifs with heq
          · subst heq
            constructor
            · intro hfound
              cases hfound
              simp
            · rintro ⟨hmem, hreg⟩
              rcases mem_append.mp hmem with hmem | hmem
              · exact absurd hreg (hfresh found hmem)
              · rw [mem_singleton.mp hmem]
          · rw [hcats]
            constructor
            · rintro ⟨hmem, hreg⟩
              exact ⟨mem_append_left _ hmem, hreg⟩
            · rintro ⟨hmem, hreg⟩
              rcases mem_append.mp hmem with hmem | hmem
              · exact ⟨hmem, hreg⟩
              · rw [mem_singleton.mp hmem] at hreg
                exact absurd hreg.symm heq
        · rw [map_append, nodup_append]
          refine ⟨hnodup, by simp, ?_⟩
          intro first hfst second hsnd
          obtain ⟨other, hother, rfl⟩ := mem_map.mp hfst
          obtain rfl : second = snapshot.registry := by simpa using hsnd
          exact hfresh other hother
      rwa [append_assoc] at hnext

/-! ## The constraints -/

/-- The table has the requirement among the constraints of the package. -/
def Demands (constraints : ConstraintTable Req) (key : RegistryPackageKey)
    (req : Req) : Prop :=
  ∃ requirements, constraints.lookup key = some requirements ∧
    ∃ constraint ∈ requirements, constraint.requirement = req

/-- No package is in the table without a constraint. -/
def Populated (constraints : ConstraintTable Req) : Prop :=
  ∀ key requirements, constraints.lookup key = some requirements → requirements ≠ []

variable {constraints : ConstraintTable Req}

theorem demands_pushConstraint {key other : RegistryPackageKey}
    {constraint : Constraint Req} {req : Req} :
    Demands (pushConstraint constraints key constraint) other req ↔ Demands constraints other req ∨
        (key = other ∧ constraint.requirement = req) := by
  unfold Demands pushConstraint
  rw [SortedTable.lookup_insert]
  by_cases heq : other = key
  · subst heq
    cases hlookup : constraints.lookup other <;> simp [or_and_right, exists_or]
  · simp [heq, Ne.symm heq]

theorem populated_pushConstraint (hpopulated : Populated constraints) (key : RegistryPackageKey)
    (constraint : Constraint Req) :
    Populated (pushConstraint constraints key constraint) := by
  intro other requirements hlookup
  rw [pushConstraint, SortedTable.lookup_insert] at hlookup
  split_ifs at hlookup with heq
  · cases hlookup
    simp
  · exact hpopulated other requirements hlookup

/-- What adding the constraints of some dependencies comes to. -/
inductive Added {Item : Type} (snapshots : SnapshotTable Version Req)
    (dependency : Item → RegistryRequirement Req) (items : List Item)
    (constraints : ConstraintTable Req) :
    Except RegistryResolutionError (ConstraintTable Req) → Prop
  | added (after : ConstraintTable Req) (hpopulated : Populated after)
      (hdemands : ∀ key req, Demands after key req ↔ Demands constraints key req ∨ ∃ item ∈ items,
          (dependency item).key = key ∧ (dependency item).requirement = req) :
      Added snapshots dependency items constraints (.ok after)
  | missing (item : Item) (hmem : item ∈ items)
      (hmiss : snapshots.lookup (dependency item).registry = none) :
      Added snapshots dependency items constraints
        (.error (.missingSnapshot (dependency item).registry))

omit [SemanticVersions Version Req] [DecidableEq Version] in
theorem addConstraints_added {Item : Type} {snaps : SnapshotTable Version Req}
    {dep : Item → RegistryRequirement Req} {constraint : Item → Constraint Req}
    (hconstraint : ∀ item, (constraint item).requirement = (dep item).requirement)
    {items : List Item} (hpopulated : Populated constraints) :
    Added snaps dep items constraints
      (addConstraints snaps dep constraint items constraints) := by
  induction items generalizing constraints with
  | nil => exact .added constraints hpopulated (by simp)
  | cons item rest ih =>
    unfold addConstraints
    cases hlookup : snaps.lookup (dep item).registry with
    | none => exact .missing item mem_cons_self hlookup
    | some snapshot =>
      have hrest := ih (populated_pushConstraint hpopulated (dep item).key (constraint item))
      simp only
      generalize addConstraints snaps dep constraint rest _ = res at hrest ⊢
      cases hrest with
      | missing other hmem hmiss =>
        exact .missing other (mem_cons_of_mem _ hmem) hmiss
      | added after hafter hdemands =>
        refine .added after hafter ?_
        intro key req
        rw [hdemands, demands_pushConstraint, hconstraint]
        simp [or_assoc]

end Salicin.Registry
