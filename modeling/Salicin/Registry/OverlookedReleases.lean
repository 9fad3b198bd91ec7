import Salicin.Registry.PartialSearch

/-!
# Releases that a search overlooks

A search over some of the snapshots overlooks a release when it gives the release up because a
registry has no snapshot, although with all the snapshots the release is promising: some solution
selects it beside what has been selected. The search over all the snapshots follows a search that
overlooks nothing, and otherwise it comes to a solution that the other search cannot find.
-/

namespace Salicin.Registry

open List Backtracking DependencyProblem

variable {Path Version Req : Type} [SemanticVersions Version Req]
  [DecidableEq Version] {roots : List (RootRegistryRequirement Path Req)}
  {loaded configured : List (RegistrySnapshot Version Req)}
  {locked : Locked Version} {table all : SnapshotTable Version Req}
  {constraints : ConstraintTable Req} {selected : SelectedTable Version Req}
  {key : RegistryPackageKey} {reqs : List (Constraint Req)}
  {snap : RegistrySnapshot Version Req} {pkg : RegistryPackage Version Req}
  {release : RegistryRelease Version Req}

/-- The search, entered with some fuel at a selection, comes to the turn of a release that it
gives up for want of a snapshot, and that is promising with all the snapshots. -/
inductive Overlooks (problem : DependencyProblem RegistryPackageKey
      (RegistryRelease Version Req) Req)
    (table : SnapshotTable Version Req) (locked : Locked Version) :
    Nat → ConstraintTable Req → SelectedTable Version Req → Nat → Prop
  | here {fuel attempts reached : Nat} {constraints : ConstraintTable Req}
      {selected : SelectedTable Version Req} {key : RegistryPackageKey}
      {reqs : List (Constraint Req)}
      {snap : RegistrySnapshot Version Req}
      {pkg : RegistryPackage Version Req}
      {release : RegistryRelease Version Req} {registry : String}
      (hopens : Opens table constraints selected key reqs snap pkg)
      (hturn : Turn (tryRelease table locked
          (solveRegistryConstraints table locked fuel) constraints selected key
          reqs snap.digest) pkg.releases.reverse attempts release reached)
      (hwithin : reached + 1 ≤ registryResolutionAttemptLimit)
      (hunloaded : addDependencies table key release constraints =
        .error (.missingSnapshot registry))
      (hprom : problem.Promising selected.lookup key release) :
      Overlooks problem table locked (fuel + 1) constraints selected attempts
  | deeper {fuel attempts reached : Nat} {constraints next : ConstraintTable Req}
      {selected : SelectedTable Version Req} {key : RegistryPackageKey}
      {reqs : List (Constraint Req)}
      {snap : RegistrySnapshot Version Req}
      {pkg : RegistryPackage Version Req}
      {release : RegistryRelease Version Req}
      (hopens : Opens table constraints selected key reqs snap pkg)
      (hturn : Turn (tryRelease table locked
          (solveRegistryConstraints table locked fuel) constraints selected key
          reqs snap.digest) pkg.releases.reverse attempts release reached)
      (hsat : satisfiesAll reqs release = true)
      (helig : eligible locked key snap.digest release = true)
      (hwithin : reached + 1 ≤ registryResolutionAttemptLimit)
      (hnext : addDependencies table key release constraints = .ok next)
      (hdeeper : Overlooks problem table locked fuel next (selected.insert key release)
        (reached + 1)) :
      Overlooks problem table locked (fuel + 1) constraints selected attempts

/-- The result of a search that is out of attempts. -/
def OutOfAttempts
    (result : Except RegistryResolutionError (SelectedTable Version Req)) : Prop :=
  result = .error (.searchLimitExceeded registryResolutionAttemptLimit)

omit [SemanticVersions Version Req] [DecidableEq Version] in
theorem outOfAttempts : OutOfAttempts (.error
    (.searchLimitExceeded registryResolutionAttemptLimit) :
      Except RegistryResolutionError (SelectedTable Version Req)) := rfl

omit [DecidableEq Version] in
theorem Represents.widen (hrep : Represents (resolutionProblem roots loaded locked)
      constraints selected)
    (hwidens : (resolutionProblem roots loaded locked).Widens
      (resolutionProblem roots configured locked)) :
    Represents (resolutionProblem roots configured locked) constraints selected :=
  ⟨hwidens.justified hrep.justified, hrep.populated, hrep.demands⟩

/-- Selecting a release whose dependencies all have snapshots goes on to the next selection. -/
theorem Represents.next (hcats : Catalogs loaded table)
    (hrep : Represents (resolutionProblem roots loaded locked)
      constraints selected)
    (hopens : Opens table constraints selected key reqs snap pkg)
    (hrel : release ∈ pkg.releases)
    (helig : eligible locked key snap.digest release = true)
    {next : ConstraintTable Req}
    (hnext : addDependencies table key release constraints = .ok next) :
    Represents (resolutionProblem roots loaded locked) next
      (selected.insert key release) := by
  have hoffered := (offered_iff hcats hopens.snapshot_eq hopens.package_eq).mpr
    ⟨hrel, helig⟩
  have hadded : Added table (fun dep => dep) release.dependencies constraints
      (addDependencies table key release constraints) :=
    addConstraints_added (fun _ => rfl) hrep.populated
  rw [hnext] at hadded
  cases hadded with
  | added _ hpopulated hdemands =>
    exact hrep.insert hopens.lookup_eq hopens.new hoffered hpopulated hdemands

variable {fuel : Nat}

omit [DecidableEq Version] in
theorem Represents.exists_fuel
    (hrep : Represents (resolutionProblem roots loaded locked)
      constraints selected) (hfuel : packageCount loaded < fuel + selected.keys.toFinset.card) :
    ∃ smaller, fuel = smaller + 1 := by
  have hcard := card_keys_le hrep.justified
  exact ⟨fuel - 1, by omega⟩

/-! ## The trials with all the snapshots -/

section

variable (hall : Catalogs configured all)

include hall

/-- What a trial over all the snapshots comes to: a solution that it finds keeps the release and
what was selected before. -/
inductive Found (problem : DependencyProblem RegistryPackageKey
      (RegistryRelease Version Req) Req)
    (selected : RegistryPackageKey → Option (RegistryRelease Version Req))
    (key : RegistryPackageKey) (release : RegistryRelease Version Req) :
    Trial (SelectedTable Version Req) RegistryResolutionError → Prop
  | skipped (hruled : ¬ problem.Promising selected key release) :
      Found problem selected key release .skipped
  | failed (error : RegistryResolutionError) (hconf : error.IsConflict)
      (hruled : ¬ problem.Promising selected key release) :
      Found problem selected key release (.failed error)
  | solved (solution : SelectedTable Version Req) (hsolves : problem.Solves solution.lookup)
      (hext : Extends selected solution.lookup) (hkey : solution.lookup key = some release) :
      Found problem selected key release (.returned (.ok solution))
  | limit {result : Except RegistryResolutionError (SelectedTable Version Req)}
      (hlimit : OutOfAttempts result) : Found problem selected key release (.returned result)

theorem tryRelease_foundAt
    (hopens : Opens all constraints selected key reqs snap pkg)
    (hrep : Represents (resolutionProblem roots configured locked)
      constraints selected) (hrel : release ∈ pkg.releases)
    (hfuel : packageCount configured < fuel + 1 + selected.keys.toFinset.card) (attempts : Nat) :
    ∃ outcome after, tryRelease all locked
        (solveRegistryConstraints all locked fuel) constraints selected key reqs
        snap.digest release attempts = some (outcome, after) ∧
      Found (resolutionProblem roots configured locked) selected.lookup key release
        outcome := by
  have henough : packageCount configured <
      fuel + (selected.insert key release).keys.toFinset.card := by
    rw [card_keys_insert hopens.new]
    omega
  obtain ⟨outcome, after, htrial, htried⟩ := tryRelease_tried hall hrep hopens.lookup_eq
    hopens.new hopens.snapshot_eq hopens.package_eq hrel
    (fun _ => solveRegistryConstraints_outcome hall henough) attempts
  refine ⟨outcome, after, htrial, ?_⟩
  cases htried with
  | skipped _ hruled => exact .skipped hruled
  | failed error hconf hruled _ => exact .failed error hconf hruled
  | limit _ _ => exact .limit rfl
  | found solution hsolves _ =>
    obtain ⟨next, _, hfound⟩ := tryRelease_found htrial
    have hext := solve_extends hfound
    rw [SortedTable.lookup_insert_eq_update] at hext
    refine .solved solution hsolves ?_ (hext key release (Function.update_self key _ _))
    intro other found hsel
    exact hext other found (extends_update hopens.new other found hsel)

end

/-! ## A search that overlooks a release -/

/-- A result that a search with these snapshots does not come to with its attempts: a solution
with a package from another registry, or that all attempts are used up. -/
def OutOfReach (table : SnapshotTable Version Req)
    (result : Except RegistryResolutionError (SelectedTable Version Req)) : Prop :=
  OutOfAttempts result ∨ ∃ solution, result = .ok solution ∧ Leaves table solution.lookup

section

variable (hpart : PartOf table all) (hcats : Catalogs loaded table)
  (hall : Catalogs configured all)

include hpart hcats hall

variable {fuelAll : Nat}

/-- Where a search over some snapshots gives a release up, the search over all of them gives it
up as well or finds something out of reach. -/
theorem givesUpOr_outOfReach
    (hopens : Opens table constraints selected key reqs snap pkg)
    (hrep : Represents (resolutionProblem roots loaded locked)
      constraints selected) (hrel : release ∈ pkg.releases)
    (hfuel : packageCount loaded < fuel + 1 + selected.keys.toFinset.card)
    (hfuelAll : packageCount configured < fuelAll + 1 + selected.keys.toFinset.card)
    (hgives : GivesUp (tryRelease table locked
      (solveRegistryConstraints table locked fuel) constraints selected key reqs
      snap.digest) release) (attempts : Nat) :
    ∃ outcome, tryRelease all locked
        (solveRegistryConstraints all locked fuelAll) constraints selected key reqs
        snap.digest release attempts = some outcome ∧ GivesUpOr (OutOfReach table) outcome := by
  have hwidens : (resolutionProblem roots loaded locked).Widens
      (resolutionProblem roots configured locked) := hpart.widens hcats hall
  obtain ⟨outcome, after, htrial, hfound⟩ := tryRelease_foundAt hall (hopens.of_partOf hpart)
    (hrep.widen hwidens) hrel hfuelAll attempts
  refine ⟨(outcome, after), htrial, ?_⟩
  cases hfound with
  | skipped _ => exact .skipped after
  | failed error _ _ => exact .failed error after
  | limit hlimit => exact .returned _ (.inl hlimit) after
  | solved solution hsolves hext hkey =>
    have hleaves : Leaves table solution.lookup := by
      apply (hpart.solves_or_leaves hcats hall hsolves).resolve_left
      -- A solution within reach would have kept the first search from giving up.
      intro hsmall
      have hprom := hsmall.promising hext hkey
      obtain ⟨before, reached, hbefore⟩ := hgives
      obtain ⟨first, later, hfst, hfound⟩ := tryRelease_foundAt hcats hopens hrep hrel hfuel before
      rcases hbefore with hskipped | ⟨error, hfailed⟩
      · obtain ⟨rfl, _⟩ : .skipped = first ∧ reached = later := by simpa [hskipped] using hfst
        cases hfound with
        | skipped hruled => exact hruled hprom
      · obtain ⟨rfl, _⟩ : .failed error = first ∧ reached = later := by
          simpa [hfailed] using hfst
        cases hfound with
        | failed _ _ hruled => exact hruled hprom
    exact .returned _ (.inr ⟨solution, rfl, hleaves⟩) after

/-- If a search over some snapshots overlooks a release, the result over all of them is out of its
reach. -/
theorem Overlooks.outOfReach {attempts : Nat}
    (hoverlooks : Overlooks (resolutionProblem roots configured locked) table
      locked fuel constraints selected attempts)
    (hrep : Represents (resolutionProblem roots loaded locked)
      constraints selected) (hfuel : packageCount loaded < fuel + selected.keys.toFinset.card)
    (hfuelAll : packageCount configured < fuelAll + selected.keys.toFinset.card) (start : Nat) :
    ∃ result after, solveRegistryConstraints all locked fuelAll constraints selected
      start = some (result, after) ∧ OutOfReach table result := by
  have hwidens : (resolutionProblem roots loaded locked).Widens
      (resolutionProblem roots configured locked) := hpart.widens hcats hall
  induction hoverlooks generalizing fuelAll start with
  | @here fuel attempts reached constraints selected key reqs snap pkg release
      registry hopens hturn hwithin hunloaded hprom =>
      have hopensAll := hopens.of_partOf hpart
      obtain ⟨fuelAll, rfl⟩ := (hrep.widen hwidens).exists_fuel hfuelAll
      rw [hopensAll.solve_eq]
      apply tryEach_of_turn _ hturn
      · intro other hother hgives before
        exact givesUpOr_outOfReach hpart hcats hall hopens hrep
          (mem_reverse.mp hother) hfuel hfuelAll hgives before
      · intro before
        obtain ⟨outcome, after, htrial, hfound⟩ := tryRelease_foundAt hall hopensAll
          (hrep.widen hwidens) (mem_reverse.mp hturn.mem) hfuelAll before
        cases hfound with
        | skipped hruled => exact absurd hprom hruled
        | failed error _ hruled => exact absurd hprom hruled
        | limit hlimit => exact ⟨_, after, htrial, .inl hlimit⟩
        | solved solution hsolves _ hkey =>
          refine ⟨_, after, htrial, .inr ⟨solution, rfl, ?_⟩⟩
          have hadded : AddedInPart table all (fun dep => dep) release.dependencies
              (addDependencies table key release constraints)
              (addDependencies all key release constraints) := addConstraints_addedInPart hpart
          rw [hunloaded] at hadded
          cases hadded with
          | unloaded dep hmem hmiss =>
            -- The solution selects the dep that has no snapshot.
            obtain ⟨other, hother, _⟩ := hsolves.dependencies key release hkey dep.key
              dep.requirement ⟨dep, hmem, rfl, rfl⟩
            exact ⟨dep.key, other, hother, hmiss⟩
  | @deeper fuel attempts reached constraints next selected key reqs snap pkg release
      hopens hturn hsat helig hwithin hnext hdeeper ih =>
      have hopensAll := hopens.of_partOf hpart
      have hrel := mem_reverse.mp hturn.mem
      obtain ⟨fuelAll, rfl⟩ := (hrep.widen hwidens).exists_fuel hfuelAll
      rw [hopensAll.solve_eq]
      apply tryEach_of_turn _ hturn
      · intro other hother hgives before
        exact givesUpOr_outOfReach hpart hcats hall hopens hrep
          (mem_reverse.mp hother) hfuel hfuelAll hgives before
      · intro before
        rcases Nat.lt_or_ge registryResolutionAttemptLimit (before + 1) with hlimit | hstart
        · exact ⟨_, _, tryRelease_limit hsat helig hlimit, .inl rfl⟩
        have hadded : AddedInPart table all (fun dep => dep) release.dependencies
            (addDependencies table key release constraints)
            (addDependencies all key release constraints) := addConstraints_addedInPart hpart
        rw [hnext] at hadded
        generalize hnextAll : addDependencies all key release constraints = added at hadded
        cases hadded
        have hcard := card_keys_insert hopens.new release
        have hfuelNext : packageCount configured <
            fuelAll + (selected.insert key release).keys.toFinset.card := by omega
        obtain ⟨result, after, hres, hreach⟩ :=
          ih (hrep.next hcats hopens hrel helig hnext) (by omega) hfuelNext
            (before + 1)
        have htrial := tryRelease_solve hsat helig hstart hnextAll hres
        rcases hreach with rfl | ⟨solution, rfl, hleaves⟩
        · exact ⟨_, after, htrial, .inl rfl⟩
        · exact ⟨_, after, htrial, .inr ⟨solution, rfl, hleaves⟩⟩

/-! ## A search that overlooks nothing -/

/-- The search over all the snapshots comes to the same solution, or both come to a conflict, unless
it is out of attempts; it has not made fewer of them. -/
abbrev FollowsSearch : Except RegistryResolutionError (SelectedTable Version Req) × Nat →
    Except RegistryResolutionError (SelectedTable Version Req) × Nat → Prop :=
  Follows (· ≤ ·) RegistryResolutionError.IsConflict OutOfAttempts

/-- A trial over all the snapshots follows one over some of them that overlooks nothing. -/
theorem tryRelease_follows
    (hopens : Opens table constraints selected key reqs snap pkg)
    (hrep : Represents (resolutionProblem roots loaded locked)
      constraints selected) (hrel : release ∈ pkg.releases) {attempts before start : Nat}
    (hfuel : packageCount loaded < fuel + 1 + selected.keys.toFinset.card)
    (hfuelAll : packageCount configured < fuelAll + 1 + selected.keys.toFinset.card)
    (hturn : Turn (tryRelease table locked
        (solveRegistryConstraints table locked fuel) constraints selected key reqs
        snap.digest) pkg.releases.reverse attempts release before)
    (hnot : ¬ Overlooks (resolutionProblem roots configured locked) table
      locked (fuel + 1) constraints selected attempts)
    (hsupplied : Supplied table constraints)
    (hsolve : ∀ next, Represents (resolutionProblem roots loaded locked) next
        (selected.insert key release) → Supplied table next →
      ¬ Overlooks (resolutionProblem roots configured locked) table locked fuel
        next (selected.insert key release) (before + 1) →
      ∃ res found, solveRegistryConstraints table locked fuel next
          (selected.insert key release) (before + 1) = some res ∧
        solveRegistryConstraints all locked fuelAll next
          (selected.insert key release) (start + 1) = some found ∧ FollowsSearch res found)
    (hle : before ≤ start) :
    ∃ outcome found, tryRelease table locked
        (solveRegistryConstraints table locked fuel) constraints selected key reqs
        snap.digest release before = some outcome ∧
      tryRelease all locked
        (solveRegistryConstraints all locked fuelAll) constraints selected key reqs
        snap.digest release start = some found ∧
      FollowsTrial (· ≤ ·) RegistryResolutionError.IsConflict OutOfAttempts outcome found := by
  have hwidens : (resolutionProblem roots loaded locked).Widens
      (resolutionProblem roots configured locked) := hpart.widens hcats hall
  cases checks locked reqs key snap.digest release before with
  | skipped hskipped =>
    exact ⟨_, _, tryRelease_skipped hskipped before, tryRelease_skipped hskipped start,
      .skipped hle⟩
  | limit hsat helig hlimit =>
    exact ⟨_, _, tryRelease_limit hsat helig hlimit,
      tryRelease_limit hsat helig (by omega), .escaped outOfAttempts⟩
  | passed hsat helig hwithin =>
    have hadded : AddedInPart table all (fun dep => dep) release.dependencies
        (addDependencies table key release constraints)
        (addDependencies all key release constraints) := addConstraints_addedInPart hpart
    generalize hnext : addDependencies table key release constraints = next,
      hnextAll : addDependencies all key release constraints = nextAll at hadded
    cases hadded with
    | unloaded dep hmem hmiss =>
      obtain ⟨outcome, after, htrial, hfound⟩ := tryRelease_foundAt hall
        (hopens.of_partOf hpart) (hrep.widen hwidens) hrel hfuelAll start
      refine ⟨_, (outcome, after), tryRelease_unloaded hsat helig hwithin hnext, htrial, ?_⟩
      cases hfound with
      | skipped _ => exact absurd htrial (tryRelease_ne_skipped hsat helig after)
      | failed error hconf _ =>
        have hafter := (tryRelease_le (fun _ _ _ _ _ => solve_le) htrial).2 (by simp)
        exact .failed trivial hconf (by omega)
      | limit hlimit => exact .escaped hlimit
      | solved solution hsolves hext hkey =>
        exact absurd (.here hopens hturn hwithin hnext (hsolves.promising hext hkey)) hnot
    | added next =>
      have hnextRepresents := hrep.next hcats hopens hrel helig hnext
      obtain ⟨⟨res, after⟩, ⟨found, reached⟩, hres, hfound, hfollows⟩ :=
        hsolve next hnextRepresents (addConstraints_supplied hsupplied hnext) fun hdeeper =>
          hnot (.deeper hopens hturn hsat helig hwithin hnext hdeeper)
      have htrial := tryRelease_solve hsat helig hwithin hnext hres
      rcases Nat.lt_or_ge registryResolutionAttemptLimit (start + 1) with hlimit | hstart
      · obtain ⟨outcome, after, htrial, _⟩ :=
          tryRelease_foundAt hcats hopens hrep hrel hfuel before
        exact ⟨_, _, htrial, tryRelease_limit hsat helig hlimit, .escaped outOfAttempts⟩
      have htrialAll := tryRelease_solve hsat helig hstart hnextAll hfound
      cases hfollows with
      | solved solution hrelated => exact ⟨_, _, htrial, htrialAll, .solved solution hrelated⟩
      | conflicts herror hlast hrelated =>
        exact ⟨_, _, tryRelease_conflict hsat helig hwithin hnext herror hres,
          tryRelease_conflict hsat helig hstart hnextAll hlast hfound,
          .failed herror hlast hrelated⟩
      | escaped hescapes =>
        obtain rfl := hescapes
        obtain ⟨outcome, after, htrial, _⟩ := tryRelease_foundAt hcats hopens hrep hrel hfuel before
        exact ⟨_, _, htrial, htrialAll, .escaped outOfAttempts⟩

/-- The search over all the snapshots follows one over some of them that overlooks nothing. -/
theorem solve_follows {attempts start : Nat}
    (hrep : Represents (resolutionProblem roots loaded locked)
      constraints selected) (hfuel : packageCount loaded < fuel + selected.keys.toFinset.card)
    (hfuelAll : packageCount configured < fuelAll + selected.keys.toFinset.card)
    (hnot : ¬ Overlooks (resolutionProblem roots configured locked) table
      locked fuel constraints selected attempts) (hsupplied : Supplied table constraints)
    (hle : attempts ≤ start) :
    ∃ res found, solveRegistryConstraints table locked fuel constraints selected
        attempts = some res ∧
      solveRegistryConstraints all locked fuelAll constraints selected start =
        some found ∧ FollowsSearch res found := by
  have hwidens : (resolutionProblem roots loaded locked).Widens
      (resolutionProblem roots configured locked) := hpart.widens hcats hall
  induction fuel generalizing fuelAll constraints selected attempts start with
  | zero =>
    obtain ⟨_, hzero⟩ := hrep.exists_fuel hfuel
    contradiction
  | succ fuel ih =>
    obtain ⟨fuelAll, rfl⟩ := (hrep.widen hwidens).exists_fuel hfuelAll
    cases entered table constraints selected with
    | ends found hfound _ =>
      obtain ⟨res, after, hres, hout⟩ :=
        solveRegistryConstraints_outcome hcats hfuel constraints attempts hrep
      obtain ⟨_, rfl, hsame⟩ := Option.map_eq_some_iff.mp ((hfound _ _ _ _).symm.trans hres)
      cases hsame
      refine ⟨_, _, hres, hfound _ _ _ _, ?_⟩
      cases hout with
      | solved solution _ => exact .solved solution hle
      | limit _ _ => exact .escaped outOfAttempts
      | unsolvable error hconf _ => exact .conflicts hconf hconf hle
    | unlisted key reqs hlookup hmiss _ =>
      obtain ⟨snap, hsnap⟩ := hsupplied key reqs hlookup
      simp [hmiss] at hsnap
    | unknown key snap hsnap hfound =>
      exact ⟨_, _, hfound table hsnap _ _ _, hfound all (hpart _ _ hsnap) _ _ _,
        .conflicts trivial trivial hle⟩
    | opens key reqs snap pkg hopens =>
      rw [hopens.solve_eq, (hopens.of_partOf hpart).solve_eq]
      apply tryEach_follows _ _ trivial (by simp) (by simp) hle
      · intro release before hturn start hbefore
        have hrel := mem_reverse.mp hturn.mem
        have hcard := card_keys_insert hopens.new release
        apply tryRelease_follows hpart hcats hall hopens hrep hrel hfuel hfuelAll
          hturn hnot hsupplied _ hbefore
        intro next hnext hsuppliedNext hdeeper
        exact ih hnext (by omega) (by omega) hdeeper hsuppliedNext (by omega)
      · intro release hrel before
        obtain ⟨outcome, after, htrial, _⟩ := tryRelease_foundAt hcats hopens hrep
          (mem_reverse.mp hrel) hfuel before
        exact ⟨_, htrial⟩

end

end Salicin.Registry
