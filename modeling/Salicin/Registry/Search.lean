import Salicin.Registry.Constraints

/-!
# The search of the solver

What the search comes to at a selection: it finds a solution, it runs into the limit on its
attempts, or no solution keeps what has been selected. The tables of the solver stand for the
selection and for what is required of it; a trial that gives up leaves no promising release
behind.
-/

namespace Salicin.Registry

open List Backtracking DependencyProblem SortedTable

variable {Path Version Req : Type}
  [SemanticVersions Version Req]
  {roots : List (RootRegistryRequirement Path Req)}
  {snaps : List (RegistrySnapshot Version Req)} {locked : Locked Version}
  {table : SnapshotTable Version Req} {constraints : ConstraintTable Req}
  {selected : SelectedTable Version Req}

/-- The errors that rule out a selection. -/
def RegistryResolutionError.IsConflict : RegistryResolutionError → Prop
  | .missingSnapshot _ | .missingPackage _ | .noCompatibleVersion _ _ | .dependencyCycle _ => True
  | .duplicateSnapshot _ | .searchLimitExceeded _ => False

section

variable (problem : DependencyProblem RegistryPackageKey (RegistryRelease Version Req)
  Req)

/-- What the search comes to at a selection. -/
inductive Outcome (selected : RegistryPackageKey → Option (RegistryRelease Version Req)) :
    Except RegistryResolutionError (SelectedTable Version Req) → Nat → Prop
  | solved (solution : SelectedTable Version Req) (hsolves : problem.Solves solution.lookup)
      (attempts : Nat) : Outcome selected (.ok solution) attempts
  | limit (attempts : Nat) (hlimit : registryResolutionAttemptLimit < attempts) :
      Outcome selected (.error (.searchLimitExceeded registryResolutionAttemptLimit)) attempts
  | unsolvable (error : RegistryResolutionError) (hconf : error.IsConflict)
      (hunsolvable : ¬ problem.Solvable selected) (attempts : Nat) :
      Outcome selected (.error error) attempts

/-- The tables of the solver: each selected release has been asked for, and the constraints are
what the selection requires. -/
structure Represents (constraints : ConstraintTable Req)
    (selected : SelectedTable Version Req) : Prop where
  justified : problem.Justified selected.lookup
  populated : Populated constraints
  demands : ∀ key requirement,
    Demands constraints key requirement ↔ problem.Required selected.lookup key requirement

end

/-! ## The checks at a selection -/

variable {release : RegistryRelease Version Req}
  {reqs : List (Constraint Req)}

theorem satisfiesAll_iff :
    satisfiesAll reqs release = true ↔ ∀ constraint ∈ reqs,
      SemanticVersions.matchesVersion constraint.requirement release.version = true := by
  simp [satisfiesAll]

/-- The selected releases meet the constraints, or one of them does not. -/
inductive Rechecked (constraints : ConstraintTable Req)
    (entries : List (RegistryPackageKey × RegistryRelease Version Req)) :
    Except RegistryResolutionError Unit → Prop
  | met (hmet : ∀ entry ∈ entries, ∃ reqs, constraints.lookup entry.1 = some reqs ∧
      satisfiesAll reqs entry.2 = true) : Rechecked constraints entries (.ok ())
  | excluded (error : RegistryResolutionError) (hconf : error.IsConflict)
      (entry : RegistryPackageKey × RegistryRelease Version Req) (hmem : entry ∈ entries)
      (reqs : List (Constraint Req))
      (hlookup : constraints.lookup entry.1 = some reqs)
      (hexcluded : satisfiesAll reqs entry.2 ≠ true) :
      Rechecked constraints entries (.error error)

theorem recheckSelected_rechecked
    {entries : List (RegistryPackageKey × RegistryRelease Version Req)}
    (hconstrained : ∀ entry ∈ entries, ∃ reqs, constraints.lookup entry.1 = some reqs) :
    ∃ result, recheckSelected constraints entries = some result ∧
      Rechecked constraints entries result := by
  induction entries with
  | nil => exact ⟨_, rfl, .met (by simp)⟩
  | cons entry rest ih =>
    obtain ⟨key, release⟩ := entry
    obtain ⟨reqs, hlookup⟩ := hconstrained (key, release) mem_cons_self
    unfold recheckSelected
    simp only [hlookup]
    split_ifs with hsat
    · obtain ⟨result, hres, hrest⟩ := ih fun other hother =>
        hconstrained other (mem_cons_of_mem _ hother)
      refine ⟨result, hres, ?_⟩
      cases hrest with
      | met hmet =>
        exact .met (forall_mem_cons.mpr ⟨⟨reqs, hlookup, hsat⟩, hmet⟩)
      | excluded error hconf other hmem others hother hexcluded =>
        exact .excluded error hconf other (mem_cons_of_mem _ hmem) others hother
          hexcluded
    · exact ⟨_, rfl, .excluded _ trivial (key, release) mem_cons_self reqs hlookup
        hsat⟩

variable {key : RegistryPackageKey}

section

variable (hrep : Represents (resolutionProblem roots snaps locked)
  constraints selected)

include hrep

theorem Represents.constrained (hsel : selected.lookup key = some release) :
    ∃ reqs, constraints.lookup key = some reqs := by
  obtain ⟨requirement, hreq⟩ := hrep.justified.exists_required hsel
  obtain ⟨reqs, hlookup, _⟩ := (hrep.demands key requirement).mpr hreq
  exact ⟨reqs, hlookup⟩

theorem Represents.satisfiesAll_iff (hlookup : constraints.lookup key = some reqs) :
    satisfiesAll reqs release = true ↔ ∀ requirement,
      (resolutionProblem roots snaps locked).Required selected.lookup key
        requirement →
      (resolutionProblem roots snaps locked).met requirement release := by
  rw [Registry.satisfiesAll_iff]
  constructor
  · intro hall requirement hreq
    obtain ⟨others, hothers, constraint, hmem, rfl⟩ := (hrep.demands key requirement).mpr hreq
    obtain rfl : reqs = others := by simpa [hlookup] using hothers
    exact hall constraint hmem
  · intro hall constraint hmem
    apply hall
    exact (hrep.demands key _).mp ⟨reqs, hlookup, constraint, hmem, rfl⟩

theorem Represents.exists_required (hlookup : constraints.lookup key = some reqs) :
    ∃ requirement, (resolutionProblem roots snaps locked).Required
      selected.lookup key requirement := by
  obtain ⟨constraint, hmem⟩ := exists_mem_of_ne_nil _
    (hrep.populated key reqs hlookup)
  exact ⟨constraint.requirement, (hrep.demands key _).mp
    ⟨reqs, hlookup, constraint, hmem, rfl⟩⟩

/-- Selecting an offered release and adding the constraints of its dependencies goes on to the
next selection. -/
theorem Represents.insert (hlookup : constraints.lookup key = some reqs)
    (hnew : selected.lookup key = none) (hoffered : Offered snaps locked key release)
    {next : ConstraintTable Req} (hpopulated : Populated next)
    (hdemands : ∀ other requirement, Demands next other requirement ↔
      Demands constraints other requirement ∨ ∃ dep ∈ release.dependencies,
        dep.key = other ∧ dep.requirement = requirement) :
    Represents (resolutionProblem roots snaps locked) next
      (selected.insert key release) where
  justified := by
    obtain ⟨requirement, hreq⟩ := hrep.exists_required hlookup
    rw [lookup_insert_eq_update]
    exact hrep.justified.update hreq hnew hoffered
  populated := hpopulated
  demands := by
    intro other requirement
    rw [hdemands, hrep.demands, lookup_insert_eq_update, required_update hnew]
    rfl

end

/-! ## The check for cycles -/

theorem edge_iff {next : RegistryPackageKey} :
    CycleSearch.Edge (fun key => (selected.lookup key).map dependencyKeys) key next ↔
      (resolutionProblem roots snaps locked).DependsOn selected.lookup key next := by
  simp only [CycleSearch.Edge, DependencyProblem.DependsOn, Option.map_eq_some_iff, resolutionProblem]
  constructor
  · rintro ⟨_, ⟨release, hsel, rfl⟩, hmem⟩
    obtain ⟨dep, hdep, rfl⟩ := mem_map.mp hmem
    exact ⟨release, hsel, dep.requirement, dep, hdep, rfl, rfl⟩
  · rintro ⟨release, hsel, _, dep, hdep, rfl, _⟩
    exact ⟨_, ⟨release, hsel, rfl⟩, mem_map.mpr ⟨dep, hdep, rfl⟩⟩

/-- When everything that is required is selected, the check finds a cycle or there is none. -/
theorem rejectRegistryCycles_outcome
    (hrep : Represents (resolutionProblem roots snaps locked)
      constraints selected)
    (hmet : ∀ entry ∈ selected.entries, ∃ reqs,
      constraints.lookup entry.1 = some reqs ∧ satisfiesAll reqs entry.2 = true)
    (hall : ∀ key reqs, constraints.lookup key = some reqs →
      ∃ release, selected.lookup key = some release) (attempts : Nat) :
    ∃ checked, rejectRegistryCycles selected = some checked ∧
      Outcome (resolutionProblem roots snaps locked) selected.lookup
        (checked.map fun _ => selected) attempts := by
  have hedge : CycleSearch.Edge (fun key => (selected.lookup key).map dependencyKeys) =
      (resolutionProblem roots snaps locked).DependsOn selected.lookup := by
    funext key next
    exact propext edge_iff
  have hreq : ∀ key requirement, (resolutionProblem roots snaps locked).Required selected.lookup key
        requirement → ∃ release, selected.lookup key = some release ∧
          (resolutionProblem roots snaps locked).met requirement release := by
    intro key requirement hreq
    obtain ⟨reqs, hlookup, _⟩ := (hrep.demands key requirement).mpr hreq
    obtain ⟨release, hsel⟩ := hall key reqs hlookup
    obtain ⟨others, hothers, hsat⟩ := hmet (key, release)
      ((lookup_eq_some selected).mp hsel)
    exact ⟨release, hsel, (hrep.satisfiesAll_iff hothers).mp hsat _ hreq⟩
  have hclosed : CycleSearch.Closed (fun key => (selected.lookup key).map dependencyKeys)
      selected.keys.toFinset := by
    intro key hkey
    obtain ⟨release, hsel⟩ := selected.mem_keys.mp (mem_toFinset.mp hkey)
    refine ⟨dependencyKeys release, by simp [hsel], ?_⟩
    intro next hnext
    obtain ⟨dep, hdep, rfl⟩ := mem_map.mp hnext
    obtain ⟨other, hother, _⟩ := hreq dep.key dep.requirement
      (.inr ⟨key, release, hsel, dep, hdep, rfl, rfl⟩)
    exact mem_toFinset.mpr (selected.mem_keys.mpr ⟨other, hother⟩)
  have hvisited := CycleSearch.check_visited hclosed
  unfold rejectRegistryCycles
  generalize CycleSearch.check _ selected.keys = res at hvisited ⊢
  cases hvisited with
  | done complete hsettled _ hkeys =>
    refine ⟨.ok (), rfl, .solved selected (hrep.justified.solves hreq ?_) attempts⟩
    intro key hcycle
    obtain ⟨_, ⟨release, hsel, _⟩, _⟩ := Relation.TransGen.head'_iff.mp hcycle
    apply hsettled.acyclic key (hkeys (selected.mem_keys.mpr ⟨release, hsel⟩))
    rwa [hedge]
  | cycle cycle hcycle =>
    refine ⟨.error (.dependencyCycle cycle), rfl, .unsolvable (.dependencyCycle cycle) trivial ?_ attempts⟩
    intro hsolvable
    obtain ⟨key, hreach⟩ := hcycle.transGen
    rw [hedge] at hreach
    exact hsolvable.acyclic key hreach

/-! ## Trying the releases -/

variable [DecidableEq Version]

/-- What the trial of a release comes to: a trial that gives up rules the release out. -/
inductive Tried (selected : RegistryPackageKey → Option (RegistryRelease Version Req))
    (problem : DependencyProblem RegistryPackageKey (RegistryRelease Version Req) Req)
    (key : RegistryPackageKey) (release : RegistryRelease Version Req) :
    Trial (SelectedTable Version Req) RegistryResolutionError → Nat → Prop
  | skipped (attempts : Nat) (hruled : ¬ problem.Promising selected key release) :
      Tried selected problem key release .skipped attempts
  | failed (error : RegistryResolutionError) (hconf : error.IsConflict)
      (hruled : ¬ problem.Promising selected key release) (attempts : Nat) :
      Tried selected problem key release (.failed error) attempts
  | found (solution : SelectedTable Version Req) (hsolves : problem.Solves solution.lookup)
      (attempts : Nat) : Tried selected problem key release (.returned (.ok solution)) attempts
  | limit (attempts : Nat) (hlimit : registryResolutionAttemptLimit < attempts) :
      Tried selected problem key release
        (.returned (.error (.searchLimitExceeded registryResolutionAttemptLimit))) attempts

/-- The search goes on from the selections that the tables may stand for. -/
def SolvesFrom (problem : DependencyProblem RegistryPackageKey
      (RegistryRelease Version Req) Req)
    (solve : ConstraintTable Req → SelectedTable Version Req → Nat →
      SolveResult Version Req) (selected : SelectedTable Version Req) : Prop :=
  ∀ constraints attempts, Represents problem constraints selected →
    ∃ result after, solve constraints selected attempts = some (result, after) ∧
      Outcome problem selected.lookup result after

variable {key : RegistryPackageKey} {reqs : List (Constraint Req)}
  {snap : RegistrySnapshot Version Req}
  {pkg : RegistryPackage Version Req}

omit [SemanticVersions Version Req] in
/-- The releases of the package that the solver finds are those that may be offered. -/
theorem offered_iff (hcats : Catalogs snaps table) (hsnap : table.lookup key.registry = some snap)
    (hpkg : snap.packages.find? (fun pkg => pkg.name = key.name) = some pkg) :
    Offered snaps locked key release ↔
      release ∈ pkg.releases ∧ eligible locked key snap.digest release = true := by
  have helig : eligible locked key snap.digest release = true ↔
      (release.yanked = true → providerIdentity key release snap.digest ∈ locked) := by
    cases hyanked : release.yanked <;> simp [eligible, hyanked]
  rw [helig]
  obtain ⟨hmem, hreg⟩ := (hcats _ _).mp hsnap
  constructor
  · rintro ⟨other, hother, hotherRegistry, ⟨found, hfound, hrel⟩, hlocked⟩
    have hsame := (hcats key.registry other).mpr ⟨hother, hotherRegistry⟩
    obtain rfl : snap = other := by simpa [hsnap] using hsame
    obtain rfl : pkg = found := by simpa [hpkg] using hfound
    exact ⟨hrel, hlocked⟩
  · rintro ⟨hrel, hlocked⟩
    exact ⟨snap, hmem, hreg, ⟨pkg, hpkg, hrel⟩, hlocked⟩

theorem tryRelease_tried (hcats : Catalogs snaps table)
    (hrep : Represents (resolutionProblem roots snaps locked)
      constraints selected) (hlookup : constraints.lookup key = some reqs)
    (hnew : selected.lookup key = none) (hsnap : table.lookup key.registry = some snap)
    (hpkg : snap.packages.find? (fun pkg => pkg.name = key.name) = some pkg)
    (hrel : release ∈ pkg.releases)
    {solve : ConstraintTable Req → SelectedTable Version Req → Nat →
      SolveResult Version Req} (hsolve : Offered snaps locked key release →
      SolvesFrom (resolutionProblem roots snaps locked) solve
        (selected.insert key release)) (attempts : Nat) :
    ∃ outcome after, tryRelease table locked solve constraints selected key reqs
        snap.digest release attempts = some (outcome, after) ∧
      Tried selected.lookup (resolutionProblem roots snaps locked) key release
        outcome after := by
  unfold tryRelease
  simp only [Bool.not_eq_true']
  split_ifs with hunsatisfied hineligible hlimit
  · refine ⟨_, _, rfl, .skipped attempts ?_⟩
    intro hprom
    have hsat := (hrep.satisfiesAll_iff hlookup).mpr hprom.met
    simp [hunsatisfied] at hsat
  · refine ⟨_, _, rfl, .skipped attempts ?_⟩
    intro hprom
    have hoffered := (offered_iff hcats hsnap hpkg).mp hprom.offered
    simp [hineligible] at hoffered
  · exact ⟨_, _, rfl, .limit (attempts + 1) hlimit⟩
  · have hoffered : Offered snaps locked key release :=
      (offered_iff hcats hsnap hpkg).mpr ⟨hrel, by simpa using hineligible⟩
    have hadded : Added table (fun dep => dep) release.dependencies constraints
        (addDependencies table key release constraints) :=
      addConstraints_added (fun _ => rfl) hrep.populated
    generalize addDependencies table key release constraints = added at hadded
    cases hadded with
    | missing dep hmem hmiss =>
      refine ⟨_, _, rfl, .failed (.missingSnapshot dep.registry) trivial ?_ (attempts + 1)⟩
      intro hprom
      obtain ⟨other, found, hfound, hreg, _⟩ :=
        hprom.needs dep.key dep.requirement ⟨dep, hmem, rfl, rfl⟩
      have htable := (hcats dep.registry found).mpr ⟨hfound, hreg⟩
      simp [hmiss] at htable
    | added next hpopulated hdemands =>
      have hnext := hrep.insert hlookup hnew hoffered hpopulated hdemands
      obtain ⟨res, after, hres, hout⟩ := hsolve hoffered next (attempts + 1) hnext
      simp only [hres]
      cases hout with
      | solved solution hsolves => exact ⟨_, _, rfl, .found solution hsolves after⟩
      | limit _ hlimit => exact ⟨_, _, rfl, .limit after hlimit⟩
      | unsolvable error hconf hunsolvable =>
        have hruled : ¬ (resolutionProblem roots snaps locked).Promising
            selected.lookup key release := by
          intro hprom
          rw [lookup_insert_eq_update] at hunsolvable
          exact hunsolvable hprom.solvable
        cases error <;>
          first
            | exact hconf.elim
            | exact ⟨_, _, rfl, .failed _ hconf hruled after⟩

omit [SemanticVersions Version Req] [DecidableEq Version] in
/-- If each trial rules its release out or returns, trying all the releases of a package that is
required comes to an outcome. -/
theorem tryEach_outcome
    {problem : DependencyProblem RegistryPackageKey (RegistryRelease Version Req)
      Req}
    {chosen : RegistryPackageKey → Option (RegistryRelease Version Req)}
    {requirement : Req} (hreq : problem.Required chosen key requirement)
    {trial : RegistryRelease Version Req → Nat →
      Option (Trial (SelectedTable Version Req) RegistryResolutionError × Nat)}
    {releases : List (RegistryRelease Version Req)}
    (hlisted : ∀ release, problem.offered key release → release ∈ releases)
    (htried : ∀ release ∈ releases, ∀ attempts, ∃ outcome after,
      trial release attempts = some (outcome, after) ∧ Tried chosen problem key release outcome after)
    {fallback : RegistryResolutionError} (hfallback : fallback.IsConflict) (attempts : Nat) :
    ∃ res after, tryEach trial fallback releases none attempts = some (res, after) ∧
      Outcome problem chosen res after := by
  have hres : ∀ release ∈ releases, ∀ {attempts outcome after},
      trial release attempts = some (outcome, after) →
        Tried chosen problem key release outcome after := by
    intro release hrel attempts outcome after htrial
    obtain ⟨other, later, hother, htried⟩ := htried release hrel attempts
    rw [htrial] at hother
    obtain ⟨rfl, rfl⟩ : outcome = other ∧ after = later := by simpa using hother
    exact htried
  obtain ⟨res, after, heach, hstep⟩ := tryEach_step RegistryResolutionError.IsConflict
    (fun release hrel state => by
      obtain ⟨outcome, after, htrial, _⟩ := htried release hrel state
      exact ⟨(outcome, after), htrial⟩)
    (fun release hrel state error after htrial => by
      cases hres release hrel htrial
      assumption)
    hfallback (fun error (hnone : none = some error) => by contradiction) attempts
  refine ⟨res, after, heach, ?_⟩
  cases hstep with
  | returned release hrel before _ _ htrial =>
    cases hres release hrel htrial with
    | found solution hsolves => exact .solved solution hsolves after
    | limit _ hlimit => exact .limit after hlimit
  | exhausted error hconf hall =>
    refine .unsolvable error hconf ?_ after
    intro hsolvable
    obtain ⟨release, hprom⟩ := hsolvable.exists_promising hreq
    have hrel := hlisted release hprom.offered
    obtain ⟨before, later, hskipped | ⟨error, hfailed⟩⟩ := hall release hrel
    · cases hres release hrel hskipped
      contradiction
    · cases hres release hrel hfailed
      contradiction

/-! ## The search -/

/-- The packages that the snapshots list. -/
def packageKeys (snaps : List (RegistrySnapshot Version Req)) : List RegistryPackageKey :=
  snaps.flatMap fun snap => snap.packages.map fun pkg =>
    ⟨snap.registry, pkg.name⟩

omit [SemanticVersions Version Req] [DecidableEq Version] in
theorem length_packageKeys (snaps : List (RegistrySnapshot Version Req)) :
    (packageKeys snaps).length = packageCount snaps := by
  simp [packageKeys, packageCount, length_flatMap]

omit [SemanticVersions Version Req] [DecidableEq Version] in
theorem Offered.mem_packageKeys (hoffered : Offered snaps locked key release) :
    key ∈ packageKeys snaps := by
  obtain ⟨snap, hsnap, hreg, ⟨pkg, hpkg, _⟩, _⟩ := hoffered
  have hname : pkg.name = key.name := by simpa using List.find?_some hpkg
  refine mem_flatMap.mpr ⟨snap, hsnap, mem_map.mpr ⟨pkg, ?_, ?_⟩⟩
  · exact mem_of_find?_eq_some hpkg
  · rw [hreg, hname]

omit [DecidableEq Version] in
/-- A justified selection has no more packages than the snapshots. -/
theorem card_keys_le (hjust : (resolutionProblem roots snaps locked).Justified
    selected.lookup) : selected.keys.toFinset.card ≤ packageCount snaps := by
  have hsub : selected.keys.toFinset ⊆ (packageKeys snaps).toFinset := by
    intro key hkey
    obtain ⟨release, hsel⟩ := selected.mem_keys.mp (mem_toFinset.mp hkey)
    exact mem_toFinset.mpr (hjust.offered key release hsel).mem_packageKeys
  calc selected.keys.toFinset.card
      ≤ (packageKeys snaps).toFinset.card := Finset.card_le_card hsub
    _ ≤ (packageKeys snaps).length := toFinset_card_le _
    _ = packageCount snaps := length_packageKeys snaps

omit [SemanticVersions Version Req] [DecidableEq Version] in
theorem card_keys_insert (hnew : selected.lookup key = none)
    (release : RegistryRelease Version Req) :
    (selected.insert key release).keys.toFinset.card = selected.keys.toFinset.card + 1 := by
  have hinsert : (selected.insert key release).keys.toFinset = insert key selected.keys.toFinset := by
    ext other
    simp [mem_keys_insert]
  rw [hinsert, Finset.card_insert_of_notMem]
  simpa using (lookup_eq_none selected).mp hnew

/-- With fuel for each package that is left the search comes to an outcome. -/
theorem solveRegistryConstraints_outcome (hcats : Catalogs snaps table) {fuel : Nat}
    (hfuel : packageCount snaps < fuel + selected.keys.toFinset.card) :
    SolvesFrom (resolutionProblem roots snaps locked)
      (solveRegistryConstraints table locked fuel) selected := by
  induction fuel generalizing selected with
  | zero =>
    intro constraints attempts hrep
    have hcard := card_keys_le hrep.justified
    omega
  | succ fuel ih =>
    intro constraints attempts hrep
    obtain ⟨rechecked, hrecheck, hrechecked⟩ := recheckSelected_rechecked fun entry hentry =>
      hrep.constrained ((lookup_eq_some selected).mpr hentry)
    unfold solveRegistryConstraints
    simp only [hrecheck]
    cases hrechecked with
    | excluded error hconf entry hmem reqs hlookup hexcluded =>
      refine ⟨_, _, rfl, .unsolvable error hconf ?_ attempts⟩
      intro hsolvable
      apply hexcluded
      refine (hrep.satisfiesAll_iff hlookup).mpr ?_
      intro requirement hreq
      exact hsolvable.met ((lookup_eq_some selected).mpr hmem) hreq
    | met hmet =>
      simp only
      cases hopen : constraints.entries.find? fun entry => (selected.lookup entry.1).isNone with
      | none =>
        have hall : ∀ key reqs, constraints.lookup key = some reqs →
            ∃ release, selected.lookup key = some release := by
          intro key reqs hlookup
          have hsome := List.find?_eq_none.mp hopen (key, reqs)
            ((lookup_eq_some constraints).mp hlookup)
          exact Option.ne_none_iff_exists'.mp (by simpa using hsome)
        obtain ⟨checked, hchecked, hout⟩ := rejectRegistryCycles_outcome hrep hmet hall attempts
        exact ⟨_, _, by simp [hchecked], hout⟩
      | some entry =>
        obtain ⟨key, reqs⟩ := entry
        have hlookup : constraints.lookup key = some reqs :=
          (lookup_eq_some constraints).mpr (mem_of_find?_eq_some hopen)
        have hnew : selected.lookup key = none := by simpa using List.find?_some hopen
        obtain ⟨requirement, hreq⟩ := hrep.exists_required hlookup
        have hruled : (∀ release, ¬ (resolutionProblem roots snaps
            locked).Promising selected.lookup key release) →
            ¬ (resolutionProblem roots snaps locked).Solvable selected.lookup := by
          intro hnone hsolvable
          obtain ⟨release, hprom⟩ := hsolvable.exists_promising hreq
          exact hnone release hprom
        simp only
        cases hsnap : table.lookup key.registry with
        | none =>
          refine ⟨_, _, rfl, .unsolvable (.missingSnapshot key.registry) trivial ?_ attempts⟩
          apply hruled
          intro release hprom
          obtain ⟨other, hother, hreg, _⟩ := hprom.offered
          have htable := (hcats key.registry other).mpr ⟨hother, hreg⟩
          simp [hsnap] at htable
        | some snap =>
          simp only
          cases hpkg : snap.packages.find? fun pkg => pkg.name = key.name with
          | none =>
            refine ⟨_, _, rfl, .unsolvable (.missingPackage key) trivial ?_ attempts⟩
            apply hruled
            intro release hprom
            obtain ⟨other, hother, hreg, ⟨pkg, hfound, _⟩, _⟩ := hprom.offered
            have htable := (hcats key.registry other).mpr ⟨hother, hreg⟩
            obtain rfl : snap = other := by simpa [hsnap] using htable
            simp [hpkg] at hfound
          | some pkg =>
            apply tryEach_outcome hreq
            · intro release hoffered
              exact mem_reverse.mpr
                ((offered_iff hcats hsnap hpkg).mp hoffered).1
            · intro release hrel attempts
              apply tryRelease_tried hcats hrep hlookup hnew hsnap
                hpkg (mem_reverse.mp hrel)
              intro _
              apply ih
              rw [card_keys_insert hnew]
              omega
            · trivial

end Salicin.Registry
