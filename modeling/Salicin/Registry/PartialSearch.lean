import Salicin.Registry.SnapshotLoading

/-!
# Searching with some of the snapshots

A search over some of the snapshots gives up a release as soon as one of its dependencies is in a
registry without a snapshot, and goes on to the next release. If no release that it gives up in
this way is promising with all the snapshots, the search over all of them follows it. If one is,
the search over all of them comes to a solution that the other cannot find. In both cases the
search over all of them may run into the limit on its attempts instead.
-/

namespace Salicin.Registry

open List Backtracking DependencyProblem SortedTable

variable {Path Version Req : Type}
  {loaded configured : List (RegistrySnapshot Version Req)}
  {locked : Locked Version} {table all : SnapshotTable Version Req}
  {roots : List (RootRegistryRequirement Path Req)}

/-- Some selected package is in a registry without a snapshot. -/
def Leaves (table : SnapshotTable Version Req)
    (solution : RegistryPackageKey → Option (RegistryRelease Version Req)) : Prop :=
  ∃ key release, solution key = some release ∧ table.lookup key.registry = none

section

variable [SemanticVersions Version Req] (hpart : PartOf table all)
  (hcats : Catalogs loaded table) (hall : Catalogs configured all)

include hpart hcats hall

theorem PartOf.widens : (resolutionProblem roots loaded locked).Widens
    (resolutionProblem roots configured locked) where
  root_eq := rfl
  needs_eq := rfl
  met_eq := rfl
  offered := by
    intro key release hoffered
    obtain ⟨snap, hmem, hreg, hlisted⟩ := hoffered
    have hlookup := hpart _ _ ((hcats key.registry snap).mpr ⟨hmem, hreg⟩)
    obtain ⟨hmem, hreg⟩ := (hall _ _).mp hlookup
    exact ⟨snap, hmem, hreg, hlisted⟩

/-- A solution over all the snapshots is one over some of them, unless it selects a package of a
registry that is not among them. -/
theorem PartOf.solves_or_leaves
    {solution : RegistryPackageKey → Option (RegistryRelease Version Req)}
    (hsolves : (resolutionProblem roots configured locked).Solves solution) :
    (resolutionProblem roots loaded locked).Solves solution ∨ Leaves table solution := by
  by_cases hleaves : Leaves table solution
  · exact .inr hleaves
  refine .inl ((hpart.widens hcats hall).solves_iff.mpr ⟨hsolves, ?_⟩)
  intro key release hsel
  obtain ⟨snap, hmem, hreg, hlisted⟩ := hsolves.offered key release hsel
  have hlookup := (hall key.registry snap).mpr ⟨hmem, hreg⟩
  cases hfound : table.lookup key.registry with
  | none => exact absurd ⟨key, release, hsel, hfound⟩ hleaves
  | some found =>
    obtain rfl : snap = found := by simpa [hlookup] using hpart _ _ hfound
    obtain ⟨hmem, hreg⟩ := (hcats _ _).mp hfound
    exact ⟨snap, hmem, hreg, hlisted⟩

end

theorem not_leaves [SemanticVersions Version Req] (hcats : Catalogs loaded table)
    {solution : RegistryPackageKey → Option (RegistryRelease Version Req)}
    (hsolves : (resolutionProblem roots loaded locked).Solves solution) :
    ¬ Leaves table solution := by
  rintro ⟨key, release, hsel, hnone⟩
  obtain ⟨snap, hmem, hreg, _⟩ := hsolves.offered key release hsel
  have hlookup := (hcats key.registry snap).mpr ⟨hmem, hreg⟩
  simp [hnone] at hlookup

/-! ## The constraints of a release -/

/-- What adding constraints comes to with some of the snapshots and with all of them. -/
inductive AddedInPart {Item : Type} (table all : SnapshotTable Version Req)
    (dependency : Item → RegistryRequirement Req) (items : List Item) :
    Except RegistryResolutionError (ConstraintTable Req) →
      Except RegistryResolutionError (ConstraintTable Req) → Prop
  | added (next : ConstraintTable Req) :
      AddedInPart table all dependency items (.ok next) (.ok next)
  | unloaded (item : Item) (hmem : item ∈ items)
      (hunloaded : table.lookup (dependency item).registry = none)
      (res : Except RegistryResolutionError (ConstraintTable Req)) :
      AddedInPart table all dependency items
        (.error (.missingSnapshot (dependency item).registry)) res

theorem addConstraints_addedInPart {Item : Type} (hpart : PartOf table all)
    {dep : Item → RegistryRequirement Req} {constraint : Item → Constraint Req}
    {items : List Item} {constraints : ConstraintTable Req} :
    AddedInPart table all dep items
      (addConstraints table dep constraint items constraints)
      (addConstraints all dep constraint items constraints) := by
  induction items generalizing constraints with
  | nil => exact .added constraints
  | cons item rest ih =>
    unfold addConstraints
    cases hlookup : table.lookup (dep item).registry with
    | none => exact .unloaded item mem_cons_self hlookup _
    | some snap =>
      rw [hpart _ _ hlookup]
      have hrest := @ih (pushConstraint constraints (dep item).key (constraint item))
      simp only
      generalize addConstraints table dep constraint rest _ = res,
        addConstraints all dep constraint rest _ = other at hrest ⊢
      cases hrest with
      | added next => exact .added next
      | unloaded item hmem hunloaded =>
        exact .unloaded item (mem_cons_of_mem _ hmem) hunloaded _

/-- Every package with constraints is in a registry that has a snapshot. -/
def Supplied (table : SnapshotTable Version Req)
    (constraints : ConstraintTable Req) : Prop :=
  ∀ key reqs, constraints.lookup key = some reqs → ∃ snap, table.lookup key.registry = some snap

variable {next : ConstraintTable Req}

/-- Constraints are added only for packages of registries that have a snapshot. -/
theorem addConstraints_supplied {Item : Type} {dep : Item → RegistryRequirement Req}
    {constraint : Item → Constraint Req} {items : List Item}
    {constraints : ConstraintTable Req} (hsupplied : Supplied table constraints)
    (hnext : addConstraints table dep constraint items constraints = .ok next) :
    Supplied table next := by
  induction items generalizing constraints with
  | nil =>
    obtain rfl : constraints = next := by simpa [addConstraints] using hnext
    exact hsupplied
  | cons item rest ih =>
    unfold addConstraints at hnext
    cases hlookup : table.lookup (dep item).registry with
    | none => simp [hlookup] at hnext
    | some snap =>
      rw [hlookup] at hnext
      apply ih _ hnext
      intro key reqs hfound
      rw [pushConstraint, lookup_insert] at hfound
      split_ifs at hfound with heq
      · exact ⟨snap, heq ▸ hlookup⟩
      · exact hsupplied key reqs hfound

/-! ## The trials of a search -/

variable [SemanticVersions Version Req] [DecidableEq Version]
  {constraints : ConstraintTable Req} {selected : SelectedTable Version Req}
  {key : RegistryPackageKey} {reqs : List (Constraint Req)}
  {snap : RegistrySnapshot Version Req} {pkg : RegistryPackage Version Req}
  {digest : Sha256Digest} {release : RegistryRelease Version Req}
  {solve : ConstraintTable Req → SelectedTable Version Req → Nat → SolveResult Version Req}

/-- At a selection the search goes on to the releases of a package. -/
structure Opens (table : SnapshotTable Version Req)
    (constraints : ConstraintTable Req) (selected : SelectedTable Version Req)
    (key : RegistryPackageKey) (reqs : List (Constraint Req))
    (snap : RegistrySnapshot Version Req)
    (pkg : RegistryPackage Version Req) : Prop where
  recheck_eq : recheckSelected constraints selected.entries = some (.ok ())
  first_eq : (constraints.entries.find? fun entry => (selected.lookup entry.1).isNone) =
    some (key, reqs)
  snapshot_eq : table.lookup key.registry = some snap
  package_eq : snap.packages.find? (fun pkg => pkg.name = key.name) = some pkg

namespace Opens

variable (hopens : Opens table constraints selected key reqs snap pkg)

include hopens

theorem solve_eq (fuel attempts : Nat) :
    solveRegistryConstraints table locked (fuel + 1) constraints selected attempts =
      tryEach (tryRelease table locked
          (solveRegistryConstraints table locked fuel)
          constraints selected key reqs snap.digest)
        (noCompatibleError key reqs) pkg.releases.reverse none attempts := by
  simp only [solveRegistryConstraints, hopens.recheck_eq, hopens.first_eq, hopens.snapshot_eq,
    hopens.package_eq]

omit [DecidableEq Version] in
theorem of_partOf (hpart : PartOf table all) : Opens all constraints selected key reqs snap pkg :=
  ⟨hopens.recheck_eq, hopens.first_eq, hpart _ _ hopens.snapshot_eq, hopens.package_eq⟩

omit [DecidableEq Version] in
theorem lookup_eq : constraints.lookup key = some reqs :=
  (lookup_eq_some constraints).mpr (mem_of_find?_eq_some hopens.first_eq)

omit [DecidableEq Version] in
theorem new : selected.lookup key = none := by
  simpa using List.find?_some hopens.first_eq

end Opens

/-- What the checks of a release come to, before its dependencies are looked at. -/
inductive Checks (locked : Locked Version) (reqs : List (Constraint Req))
    (key : RegistryPackageKey) (digest : Sha256Digest)
    (release : RegistryRelease Version Req) (attempts : Nat) : Prop
  | skipped (hskipped : satisfiesAll reqs release = true →
      eligible locked key digest release = false)
  | limit (hsat : satisfiesAll reqs release = true)
      (helig : eligible locked key digest release = true)
      (hlimit : registryResolutionAttemptLimit < attempts + 1)
  | passed (hsat : satisfiesAll reqs release = true)
      (helig : eligible locked key digest release = true)
      (hwithin : attempts + 1 ≤ registryResolutionAttemptLimit)

theorem checks (locked : Locked Version) (reqs : List (Constraint Req)) (key : RegistryPackageKey)
    (digest : Sha256Digest) (release : RegistryRelease Version Req) (attempts : Nat) :
    Checks locked reqs key digest release attempts := by
  by_cases hsat : satisfiesAll reqs release = true
  · by_cases helig : eligible locked key digest release = true
    · rcases Nat.lt_or_ge registryResolutionAttemptLimit (attempts + 1) with hlimit | hwithin
      · exact .limit hsat helig hlimit
      · exact .passed hsat helig hwithin
    · exact .skipped fun _ => by simpa using helig
  · exact .skipped fun hother => absurd hother hsat

theorem tryRelease_skipped (hskipped : satisfiesAll reqs release = true →
    eligible locked key digest release = false) (attempts : Nat) :
    tryRelease table locked solve constraints selected key reqs digest release
      attempts = some (.skipped, attempts) := by
  unfold tryRelease
  cases hsat : satisfiesAll reqs release with
  | false => simp
  | true => simp [hskipped hsat]

variable {after : Nat}

section

variable (hsat : satisfiesAll reqs release = true)
  (helig : eligible locked key digest release = true) {attempts : Nat}

include hsat helig

theorem tryRelease_limit (hlimit : registryResolutionAttemptLimit < attempts + 1) :
    tryRelease table locked solve constraints selected key reqs digest release
      attempts = some (.returned (.error (.searchLimitExceeded registryResolutionAttemptLimit)),
        attempts + 1) := by
  simp [tryRelease, hsat, helig, hlimit]

theorem tryRelease_ne_skipped (after : Nat) :
    tryRelease table locked solve constraints selected key reqs digest release
      attempts ≠ some (.skipped, after) := by
  unfold tryRelease
  simp only [hsat, helig, Bool.not_true, Bool.false_eq_true, if_false]
  split
  · simp
  · split
    · simp
    · split <;> simp

theorem tryRelease_unloaded (hwithin : attempts + 1 ≤ registryResolutionAttemptLimit)
    {error : RegistryResolutionError}
    (hadd : addDependencies table key release constraints = .error error) :
    tryRelease table locked solve constraints selected key reqs digest release
      attempts = some (.failed error, attempts + 1) := by
  simp [tryRelease, hsat, helig, hwithin.not_gt, hadd]

theorem tryRelease_solve (hwithin : attempts + 1 ≤ registryResolutionAttemptLimit)
    (hadd : addDependencies table key release constraints = .ok next)
    {res : Except RegistryResolutionError (SelectedTable Version Req)}
    (hres : solve next (selected.insert key release) (attempts + 1) = some (res, after)) :
    tryRelease table locked solve constraints selected key reqs digest release
        attempts =
      match res with
      | .ok solution => some (.returned (.ok solution), after)
      | .error (.searchLimitExceeded limit) =>
        some (.returned (.error (.searchLimitExceeded limit)), after)
      | .error error => some (.failed error, after) := by
  simp only [tryRelease, hsat, helig, hwithin.not_gt, hadd, hres]
  cases res with
  | ok solution => simp
  | error error => cases error <;> simp

theorem tryRelease_conflict (hwithin : attempts + 1 ≤ registryResolutionAttemptLimit)
    (hadd : addDependencies table key release constraints = .ok next)
    {error : RegistryResolutionError} (hconf : error.IsConflict)
    (hres : solve next (selected.insert key release) (attempts + 1) = some (.error error, after)) :
    tryRelease table locked solve constraints selected key reqs digest release
      attempts = some (.failed error, after) := by
  rw [tryRelease_solve hsat helig hwithin hadd hres]
  cases error with
  | searchLimitExceeded => exact hconf.elim
  | _ => rfl

end

/-! ## The results of a search -/

/-- What a search finds where it is entered: it ends there whatever the snapshots are, it lacks the
snapshot or the package that comes next, or it goes on to the releases of that package. -/
inductive Entered (table : SnapshotTable Version Req)
    (constraints : ConstraintTable Req) (selected : SelectedTable Version Req) : Prop
  | ends (res : Option (Except RegistryResolutionError (SelectedTable Version Req)))
      (hres : ∀ table locked fuel attempts,
        solveRegistryConstraints table locked (fuel + 1) constraints selected attempts =
          res.map fun res => (res, attempts))
      (hsel : ∀ solution, res = some (.ok solution) → solution = selected) :
      Entered table constraints selected
  | unlisted (key : RegistryPackageKey) (reqs : List (Constraint Req))
      (hlookup : constraints.lookup key = some reqs)
      (hmiss : table.lookup key.registry = none)
      (hres : ∀ locked fuel attempts,
        solveRegistryConstraints table locked (fuel + 1) constraints selected attempts =
          some (.error (.missingSnapshot key.registry), attempts)) :
      Entered table constraints selected
  | unknown (key : RegistryPackageKey) (snap : RegistrySnapshot Version Req)
      (hsnap : table.lookup key.registry = some snap)
      (hres : ∀ table, table.lookup key.registry = some snap → ∀ locked fuel attempts,
          solveRegistryConstraints table locked (fuel + 1) constraints selected attempts =
            some (.error (.missingPackage key), attempts)) :
      Entered table constraints selected
  | opens (key : RegistryPackageKey) (reqs : List (Constraint Req))
      (snap : RegistrySnapshot Version Req)
      (pkg : RegistryPackage Version Req)
      (hopens : Opens table constraints selected key reqs snap pkg) :
      Entered table constraints selected

theorem entered (table : SnapshotTable Version Req)
    (constraints : ConstraintTable Req) (selected : SelectedTable Version Req) :
    Entered table constraints selected := by
  cases hrecheck : recheckSelected constraints selected.entries with
  | none => exact .ends none (by simp [solveRegistryConstraints, hrecheck]) (by simp)
  | some rechecked =>
    cases rechecked with
    | error error =>
      exact .ends (some (.error error)) (by simp [solveRegistryConstraints, hrecheck]) (by simp)
    | ok _ =>
      cases hfst : constraints.entries.find? fun entry => (selected.lookup entry.1).isNone with
      | none =>
        refine .ends ((rejectRegistryCycles selected).map fun checked =>
          checked.map fun _ => selected) ?_ ?_
        · simp [solveRegistryConstraints, hrecheck, hfst, Function.comp_def]
        · intro solution hsolution
          obtain ⟨checked, _, hchecked⟩ := Option.map_eq_some_iff.mp hsolution
          cases checked with
          | error _ => simp [Except.map] at hchecked
          | ok _ => exact (Except.ok.inj hchecked).symm
      | some entry =>
        obtain ⟨key, reqs⟩ := entry
        have hlookup : constraints.lookup key = some reqs :=
          (lookup_eq_some constraints).mpr (mem_of_find?_eq_some hfst)
        cases hsnap : table.lookup key.registry with
        | none =>
          exact .unlisted key reqs hlookup hsnap
            (by simp [solveRegistryConstraints, hrecheck, hfst, hsnap])
        | some snap =>
          cases hpkg : snap.packages.find? fun pkg =>
              pkg.name = key.name with
          | none =>
            refine .unknown key snap hsnap ?_
            intro other hother
            simp [solveRegistryConstraints, hrecheck, hfst, hother, hpkg]
          | some pkg =>
            exact .opens key reqs snap pkg
              ⟨hrecheck, hfst, hsnap, hpkg⟩

variable {attempts : Nat}

/-- A trial does not take attempts back if the search that it enters does not. -/
theorem tryRelease_le {outcome : Trial (SelectedTable Version Req) RegistryResolutionError}
    (hsolve : ∀ constraints selected attempts res after,
      solve constraints selected attempts = some (res, after) → attempts ≤ after)
    (htrial : tryRelease table locked solve constraints selected key reqs digest
      release attempts = some (outcome, after)) :
    attempts ≤ after ∧ (outcome ≠ .skipped → attempts + 1 ≤ after) := by
  cases checks locked reqs key digest release attempts with
  | skipped hskipped =>
    rw [tryRelease_skipped hskipped] at htrial
    obtain ⟨rfl, rfl⟩ : .skipped = outcome ∧ attempts = after := by simpa using htrial
    simp
  | limit hsat helig hlimit =>
    rw [tryRelease_limit hsat helig hlimit] at htrial
    obtain ⟨_, rfl⟩ : _ ∧ attempts + 1 = after := by simpa using htrial
    simp
  | passed hsat helig hwithin =>
    cases hadd : addDependencies table key release constraints with
    | error error =>
      rw [tryRelease_unloaded hsat helig hwithin hadd] at htrial
      obtain ⟨_, rfl⟩ : _ ∧ attempts + 1 = after := by simpa using htrial
      simp
    | ok next =>
      cases hres : solve next (selected.insert key release) (attempts + 1) with
      | none =>
        simp [tryRelease, hsat, helig, hwithin.not_gt, hadd, hres] at htrial
      | some found =>
        obtain ⟨res, reached⟩ := found
        have hle := hsolve _ _ _ _ _ hres
        rw [tryRelease_solve hsat helig hwithin hadd hres] at htrial
        have hreached : reached = after := by
          cases res with
          | ok solution => simpa using congrArg (Option.map Prod.snd) htrial
          | error error => cases error <;> simpa using congrArg (Option.map Prod.snd) htrial
        omega

theorem solve_le {fuel : Nat}
    {res : Except RegistryResolutionError (SelectedTable Version Req)}
    (hres : solveRegistryConstraints table locked fuel constraints selected attempts =
      some (res, after)) : attempts ≤ after := by
  induction fuel generalizing constraints selected attempts after res with
  | zero => simp [solveRegistryConstraints] at hres
  | succ fuel ih =>
    cases entered table constraints selected with
    | ends found hfound _ =>
      rw [hfound] at hres
      obtain ⟨_, _, hsame⟩ := Option.map_eq_some_iff.mp hres
      exact (congrArg Prod.snd hsame).le
    | unlisted key _ _ _ hfound =>
      rw [hfound] at hres
      exact (congrArg Prod.snd (Option.some.inj hres)).le
    | unknown key snap hsnap hfound =>
      rw [hfound table hsnap] at hres
      exact (congrArg Prod.snd (Option.some.inj hres)).le
    | opens key reqs snap pkg hopens =>
      rw [hopens.solve_eq] at hres
      refine tryEach_le ?_ hres
      intro release _ before outcome reached htrial
      exact (tryRelease_le (fun _ _ _ _ _ => ih) htrial).1

variable {solution : SelectedTable Version Req}

/-- The trial that finds a solution has entered a search that does. -/
theorem tryRelease_found
    (htrial : tryRelease table locked solve constraints selected key reqs digest
      release attempts = some (.returned (.ok solution), after)) :
    ∃ next, addDependencies table key release constraints = .ok next ∧
      solve next (selected.insert key release) (attempts + 1) = some (.ok solution, after) := by
  cases checks locked reqs key digest release attempts with
  | skipped hskipped => simp [tryRelease_skipped hskipped] at htrial
  | limit hsat helig hlimit =>
    simp [tryRelease_limit hsat helig hlimit] at htrial
  | passed hsat helig hwithin =>
    cases hadd : addDependencies table key release constraints with
    | error error =>
      simp [tryRelease_unloaded hsat helig hwithin hadd] at htrial
    | ok next =>
      refine ⟨next, rfl, ?_⟩
      cases hres : solve next (selected.insert key release) (attempts + 1) with
      | none =>
        simp [tryRelease, hsat, helig, hwithin.not_gt, hadd, hres] at htrial
      | some found =>
        obtain ⟨res, reached⟩ := found
        rw [tryRelease_solve hsat helig hwithin hadd hres] at htrial
        cases res with
        | ok other => simpa using htrial
        | error error => cases error <;> simp at htrial

/-- A solution keeps what was selected when the search was entered. -/
theorem solve_extends {fuel : Nat}
    (hres : solveRegistryConstraints table locked fuel constraints selected attempts =
      some (.ok solution, after)) : Extends selected.lookup solution.lookup := by
  induction fuel generalizing constraints selected attempts after with
  | zero => simp [solveRegistryConstraints] at hres
  | succ fuel ih =>
    cases entered table constraints selected with
    | ends found hfound hsel =>
      rw [hfound] at hres
      obtain ⟨res, hres, hsame⟩ := Option.map_eq_some_iff.mp hres
      rw [hsel solution (hres.trans (congrArg (some ∘ Prod.fst) hsame))]
      exact fun _ _ hsel => hsel
    | unlisted key _ _ _ hfound => simp [hfound] at hres
    | unknown key snap hsnap hfound => simp [hfound table hsnap] at hres
    | opens key reqs snap pkg hopens =>
      rw [hopens.solve_eq] at hres
      obtain ⟨release, _, before, htrial⟩ := tryEach_eq_ok hres
      obtain ⟨next, _, hfound⟩ := tryRelease_found htrial
      have hext := ih hfound
      rw [lookup_insert_eq_update] at hext
      intro other found hsel
      exact hext other found (extends_update hopens.new other found hsel)

/-- A search that has enough fuel and finds a solution finds one of the problem. -/
theorem solve_solves (hcats : Catalogs loaded table)
    (hrep : Represents (resolutionProblem roots loaded locked)
      constraints selected) {fuel : Nat}
    (hfuel : packageCount loaded < fuel + selected.keys.toFinset.card)
    (hres : solveRegistryConstraints table locked fuel constraints selected attempts =
      some (.ok solution, after)) :
    (resolutionProblem roots loaded locked).Solves solution.lookup := by
  obtain ⟨res, reached, hother, hout⟩ :=
    solveRegistryConstraints_outcome hcats hfuel constraints attempts hrep
  obtain ⟨rfl, _⟩ : .ok solution = res ∧ after = reached := by simpa [hres] using hother
  cases hout with
  | solved _ hsolves _ => exact hsolves

end Salicin.Registry
