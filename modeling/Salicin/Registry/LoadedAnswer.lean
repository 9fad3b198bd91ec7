import Salicin.Registry.InputOrder
import Salicin.Registry.OverlookedReleases

/-!
# Loading snapshots as they are missed

Update mode loads a snapshot only when the resolver reports that it is missing. A release that
needs another registry is given up before that report, so an older release without this need may
be selected although the registry is configured. The answer is that over all the configured
snapshots exactly when the last search overlooks no release, apart from searches that run into
the limit on their attempts.
-/

namespace Salicin.Registry

open List Backtracking DependencyProblem OptionLists SortedTable

variable {Path Version Req : Type}

/-! ## Snapshots in a table -/

/-- Each snapshot is listed under its own registry. -/
def Named (table : SnapshotTable Version Req) : Prop :=
  ∀ registry snapshot, table.lookup registry = some snapshot → snapshot.registry = registry

variable {table : SnapshotTable Version Req}

theorem catalogs_snapshotValues (hnamed : Named table) : Catalogs (snapshotValues table) table := by
  intro registry snapshot
  constructor
  · intro hlookup
    have hentry := (lookup_eq_some table).mp hlookup
    exact ⟨mem_map.mpr ⟨_, hentry, rfl⟩, hnamed registry snapshot hlookup⟩
  · rintro ⟨hmem, rfl⟩
    obtain ⟨⟨registry, _⟩, hentry, rfl⟩ := mem_map.mp hmem
    have hlookup := (lookup_eq_some table).mpr hentry
    rwa [hnamed registry _ hlookup]

/-- The resolver reads the snapshots of a table back into the table. -/
theorem snapshotsByRegistry_snapshotValues (hnamed : Named table) :
    snapshotsByRegistry (snapshotValues table) .empty = .ok table := by
  have hcats := catalogs_snapshotValues hnamed
  have hcataloged : Cataloged ([] ++ snapshotValues table)
      (snapshotsByRegistry (snapshotValues table) .empty) :=
    snapshotsByRegistry_cataloged (by simp [Catalogs]) (by simp)
  rw [nil_append] at hcataloged
  generalize snapshotsByRegistry (snapshotValues table) .empty = result at hcataloged ⊢
  cases hcataloged with
  | duplicate snapshot hmem hduplicate =>
    have hregs : (snapshotValues table).map RegistrySnapshot.registry = table.keys := by
      rw [snapshotValues, SortedTable.keys, map_map]
      apply map_congr_left
      rintro ⟨registry, snapshot⟩ hentry
      exact hnamed registry snapshot ((lookup_eq_some table).mpr hentry)
    exact absurd (hregs ▸ table.keys_nodup) hduplicate
  | table other hother _ =>
    have hsame : other = table := by
      ext registry snapshot
      rw [hother, hcats]
    rw [hsame]

theorem PartOf.named {all : SnapshotTable Version Req} (hpart : PartOf table all)
    (hnamed : Named all) : Named table :=
  fun registry snapshot hlookup => hnamed registry snapshot (hpart registry snapshot hlookup)

/-! ## The resolution of one selection -/

section

variable {table all : SnapshotTable Version Req} {selected : SelectedTable Version Req}

theorem identitiesOf_partOf (hpart : PartOf table all) (hstays : ¬ Leaves table selected.lookup) :
    identitiesOf table selected = identitiesOf all selected := by
  have hentry : ∀ entry ∈ selected.entries, identityEntry table entry = identityEntry all entry := by
    rintro ⟨key, release⟩ hentry
    have hsel := (lookup_eq_some selected).mpr hentry
    unfold identityEntry
    cases hlookup : table.lookup key.registry with
    | none => exact absurd ⟨key, release, hsel, hlookup⟩ hstays
    | some snapshot => rw [hpart _ _ hlookup]
  unfold identitiesOf
  rw [mapM_congr hentry]

theorem usedSnapshots_partOf (hpart : PartOf table all) {identities : IdentityTable Version}
    (hloaded : ∀ key ∈ identities.keys, ∃ snapshot, table.lookup key.registry = some snapshot) :
    usedSnapshots table identities = usedSnapshots all identities := by
  have hirrefl : Std.Irrefl fun first second : String × RegistrySnapshot Version Req =>
      first.1 < second.1 := ⟨fun entry => lt_irrefl entry.1⟩
  unfold usedSnapshots
  congr 1
  apply (table.sorted.filter _).eq_of_mem_iff (all.sorted.filter _)
  rintro ⟨registry, snapshot⟩
  simp only [mem_filter, decide_eq_true_eq, ← lookup_eq_some]
  constructor
  · rintro ⟨hlookup, hused⟩
    exact ⟨hpart _ _ hlookup, hused⟩
  · rintro ⟨hlookup, hused⟩
    obtain ⟨key, hkey, rfl⟩ := mem_map.mp hused
    obtain ⟨found, hfound⟩ := hloaded key hkey
    obtain rfl : snapshot = found := by simpa [hlookup] using hpart _ _ hfound
    exact ⟨hfound, hused⟩

/-- A selection has one resolution, whatever other snapshots there are. -/
theorem renderResolution_partOf {loaded : List (RegistrySnapshot Version Req)}
    (hpart : PartOf table all) (hcats : Catalogs loaded table)
    (hstays : ¬ Leaves table selected.lookup) (ordered : List (RootRegistryRequirement Path Req)) :
    renderResolution table ordered selected = renderResolution all ordered selected := by
  have hloaded : ∀ key release, selected.lookup key = some release →
      ∃ snapshot, table.lookup key.registry = some snapshot := by
    intro key release hsel
    cases hlookup : table.lookup key.registry with
    | none => exact absurd ⟨key, release, hsel, hlookup⟩ hstays
    | some snapshot => exact ⟨snapshot, rfl⟩
  have hlisted : ∀ key release, selected.lookup key = some release →
      ∃ snapshot ∈ loaded, snapshot.registry = key.registry := by
    intro key release hsel
    obtain ⟨snapshot, hsnap⟩ := hloaded key release hsel
    exact ⟨snapshot, (hcats _ _).mp hsnap⟩
  obtain ⟨identities, hres, hidents⟩ := exists_identitiesOf hcats hlisted
  have hused : usedSnapshots table identities = usedSnapshots all identities := by
    apply usedSnapshots_partOf hpart
    intro key hkey
    obtain ⟨ident, hident⟩ := identities.mem_keys.mp hkey
    obtain ⟨release, hsel, _⟩ := (hidents key ident).mp hident
    exact hloaded key release hsel
  unfold renderResolution
  rw [← identitiesOf_partOf hpart hstays, hres]
  simp only [Option.bind_eq_bind, Option.bind_some, hused]

end

/-! ## The answer with some of the snapshots -/

variable [ManifestPaths Path] [SemanticVersions Version Req] [DecidableEq Version]

/-- The search with which the resolver starts overlooks a release. -/
def OverlooksRelease (configured : ConfiguredSnapshots Version Req)
    (roots : List (RootRegistryRequirement Path Req)) (previouslyLocked : Locked Version)
    (snapshots : SnapshotTable Version Req) : Prop :=
  ∃ constraints, addRoots snapshots (orderRoots roots) .empty = .ok constraints ∧
    Overlooks (resolutionProblem roots (snapshotValues configured.table) previouslyLocked) snapshots
      previouslyLocked (packageCount (snapshotValues snapshots) + 1) constraints .empty 0

/-- The resolver runs into the limit on its attempts. -/
def ExceedsLimit (roots : List (RootRegistryRequirement Path Req))
    (previouslyLocked : Locked Version) (snapshots : SnapshotTable Version Req) : Prop :=
  resolveRegistryDependencies roots (snapshotValues snapshots) previouslyLocked =
    some (.error (.searchLimitExceeded registryResolutionAttemptLimit))

/-- The resolver fails. -/
def FindsNothing (roots : List (RootRegistryRequirement Path Req))
    (previouslyLocked : Locked Version) (snapshots : SnapshotTable Version Req) : Prop :=
  ∃ error, resolveRegistryDependencies roots (snapshotValues snapshots) previouslyLocked =
    some (.error error)

/-- What the searches over some of the snapshots and over all of them come to. -/
inductive Compared (configured : ConfiguredSnapshots Version Req)
    (roots : List (RootRegistryRequirement Path Req)) (previouslyLocked : Locked Version)
    (snapshots : SnapshotTable Version Req) : Prop
  | same (resolution : RegistryResolution Path Version)
      (hsome : resolveRegistryDependencies roots (snapshotValues snapshots) previouslyLocked =
        some (.ok resolution))
      (hall : resolveRegistryDependencies roots (snapshotValues configured.table) previouslyLocked =
        some (.ok resolution))
      (hnot : ¬ OverlooksRelease configured roots previouslyLocked snapshots) :
      Compared configured roots previouslyLocked snapshots
  | conflicts (hsome : FindsNothing roots previouslyLocked snapshots)
      (hall : FindsNothing roots previouslyLocked configured.table)
      (hwithin : ¬ ExceedsLimit roots previouslyLocked configured.table)
      (hnot : ¬ OverlooksRelease configured roots previouslyLocked snapshots) :
      Compared configured roots previouslyLocked snapshots
  | limit (hall : ExceedsLimit roots previouslyLocked configured.table) :
      Compared configured roots previouslyLocked snapshots
  | overlooked (resolution : RegistryResolution Path Version)
      (hall : resolveRegistryDependencies roots (snapshotValues configured.table) previouslyLocked =
        some (.ok resolution))
      (hother : resolveRegistryDependencies roots (snapshotValues snapshots) previouslyLocked ≠
        some (.ok resolution))
      (hoverlooks : OverlooksRelease configured roots previouslyLocked snapshots) :
      Compared configured roots previouslyLocked snapshots

section

variable {configured : ConfiguredSnapshots Version Req}
  {roots : List (RootRegistryRequirement Path Req)} {previouslyLocked : Locked Version}
  {snapshots : SnapshotTable Version Req}

/-- When the roots are all in registries with a snapshot, the answer is the result of the search. -/
theorem resolve_of_search (hnamed : Named table) {constraints : ConstraintTable Req}
    (hadd : addRoots table (orderRoots roots) .empty = .ok constraints)
    {result : Except RegistryResolutionError (SelectedTable Version Req)} {after : Nat}
    (hres : solveRegistryConstraints table previouslyLocked
      (packageCount (snapshotValues table) + 1) constraints .empty 0 = some (result, after)) :
    resolveRegistryDependencies roots (snapshotValues table) previouslyLocked =
      match result with
      | .error error => some (.error error)
      | .ok selected => (renderResolution table (orderRoots roots) selected).map .ok := by
  rw [resolveRegistryDependencies_eq_resolveWith (snapshotsByRegistry_snapshotValues hnamed)]
  unfold resolveWith
  rw [hadd]
  simp only [hres]
  cases result <;> rfl

/-- A selection that leaves the registries with a snapshot is not the one of their answer. -/
theorem ne_of_leaves {loaded all : List (RegistrySnapshot Version Req)}
    (hcats : Catalogs loaded snapshots) {resolution : RegistryResolution Path Version}
    {selection : RegistryPackageKey → Option (RegistryRelease Version Req)}
    (hdesc : Describes roots all selection resolution) (hleaves : Leaves snapshots selection) :
    resolveRegistryDependencies roots loaded previouslyLocked ≠ some (.ok resolution) := by
  intro hsame
  obtain ⟨result, hres, hans⟩ := exists_answer roots loaded previouslyLocked
  obtain rfl : .ok resolution = result := by simpa [hsame] using hres
  cases hans with
  | resolved _ other hsolves hother =>
    obtain ⟨key, release, hsel, hnone⟩ := hleaves
    obtain ⟨pkg, hpkg, hkey⟩ := hdesc.selected key release hsel
    obtain ⟨found, hfound, _⟩ := hother.packages pkg hpkg
    exact not_leaves hcats hsolves ⟨key, found, hkey ▸ hfound, hnone⟩

theorem compared (hpart : PartOf snapshots configured.table)
    (hroots : ∀ root ∈ roots, root.dependency.registry ∈ snapshots.keys) :
    Compared configured roots previouslyLocked snapshots := by
  have hnamed := hpart.named configured.registry_eq
  have hcats := catalogs_snapshotValues hnamed
  have hall := catalogs_snapshotValues configured.registry_eq
  have horder : (orderRoots roots).Perm roots := mergeSort_perm _ _
  -- The roots have the same constraints with all the snapshots.
  obtain ⟨constraints, hadd, haddAll⟩ : ∃ constraints,
      addRoots snapshots (orderRoots roots) .empty = .ok constraints ∧
        addRoots configured.table (orderRoots roots) .empty = .ok constraints := by
    have hadded : AddedInPart snapshots configured.table RootRegistryRequirement.dependency
        (orderRoots roots) (addRoots snapshots (orderRoots roots) .empty)
        (addRoots configured.table (orderRoots roots) .empty) := addConstraints_addedInPart hpart
    generalize addRoots snapshots (orderRoots roots) .empty = result,
      addRoots configured.table (orderRoots roots) .empty = other at hadded ⊢
    cases hadded with
    | added next => exact ⟨next, rfl, rfl⟩
    | unloaded root hmem hunloaded =>
      have hkey := hroots root (horder.mem_iff.mp hmem)
      exact absurd hkey ((lookup_eq_none snapshots).mp hunloaded)
  have hfuel : ∀ list : List (RegistrySnapshot Version Req), packageCount list <
      packageCount list + 1 +
        (empty : SelectedTable Version Req).keys.toFinset.card := by
    simp
  have hsome : Represents (resolutionProblem roots (snapshotValues snapshots) previouslyLocked)
      constraints .empty := represents_roots hadd
  have hrep : Represents (resolutionProblem roots (snapshotValues configured.table)
      previouslyLocked) constraints .empty := represents_roots haddAll
  by_cases hoverlooks : Overlooks (resolutionProblem roots (snapshotValues configured.table)
      previouslyLocked) snapshots previouslyLocked (packageCount (snapshotValues snapshots) + 1)
      constraints .empty 0
  · obtain ⟨result, after, hres, hreach⟩ :=
      hoverlooks.outOfReach hpart hcats hall hsome (hfuel _) (hfuel _) 0
    have hresolve := resolve_of_search configured.registry_eq haddAll hres
    rcases hreach with rfl | ⟨solution, rfl, hleaves⟩
    · exact .limit hresolve
    · have hsolves := solve_solves hall hrep (hfuel _) hres
      obtain ⟨resolution, hresolution, hdesc⟩ := renderResolution_describes horder hall hsolves
      refine .overlooked resolution (by simp [hresolve, hresolution]) ?_ ⟨constraints, hadd, hoverlooks⟩
      exact ne_of_leaves hcats hdesc hleaves
  · have hnot : ¬ OverlooksRelease configured roots previouslyLocked snapshots := by
      rintro ⟨other, hother, hoverlooksOther⟩
      obtain rfl : constraints = other := by simpa [hadd] using hother
      exact hoverlooks hoverlooksOther
    have hsupplied : Supplied snapshots constraints :=
      addConstraints_supplied (by simp [Supplied]) hadd
    obtain ⟨result, found, hres, hfound, hfollows⟩ :=
      solve_follows hpart hcats hall hsome (hfuel _) (hfuel _) hoverlooks hsupplied (le_refl 0)
    cases hfollows with
    | @solved solution after reached hle =>
      have hsolves := solve_solves hcats hsome (hfuel _) hres
      obtain ⟨resolution, hresolution, _⟩ := renderResolution_describes horder hcats hsolves
      have hrender := renderResolution_partOf hpart hcats (not_leaves hcats hsolves)
        (orderRoots roots)
      refine .same resolution ?_ ?_ hnot
      · simp [resolve_of_search hnamed hadd hres, hresolution]
      · simp [resolve_of_search configured.registry_eq haddAll hfound, ← hrender, hresolution]
    | conflicts herror hlast _ =>
      have hresolve := resolve_of_search configured.registry_eq haddAll hfound
      refine .conflicts ⟨_, resolve_of_search hnamed hadd hres⟩ ⟨_, hresolve⟩ ?_ hnot
      intro hlimit
      cases hresolve.symm.trans hlimit
      exact hlast
    | escaped hescapes =>
      obtain rfl := hescapes
      exact .limit (resolve_of_search configured.registry_eq haddAll hfound)

/-! ## The answer of update mode -/

/-- Update mode comes to the resolution of the resolver, or both fail. -/
inductive SameResolution : Option (Except PreparationError (RegistryResolution Path Version)) →
    Option (Except RegistryResolutionError (RegistryResolution Path Version)) → Prop
  | resolved (resolution : RegistryResolution Path Version) :
      SameResolution (some (.ok resolution)) (some (.ok resolution))
  | failed (failure : PreparationError) (error : RegistryResolutionError) :
      SameResolution (some (.error failure)) (some (.error error))

/-- The search with these snapshots overlooks nothing; if the search over all the configured ones
runs into the limit, this one fails too. -/
structure Conclusive (configured : ConfiguredSnapshots Version Req)
    (roots : List (RootRegistryRequirement Path Req)) (previouslyLocked : Locked Version)
    (snapshots : SnapshotTable Version Req) : Prop where
  overlooks_nothing : ¬ ExceedsLimit roots previouslyLocked configured.table →
    ¬ OverlooksRelease configured roots previouslyLocked snapshots
  finds_nothing : ExceedsLimit roots previouslyLocked configured.table →
    FindsNothing roots previouslyLocked snapshots

/-- The resolver fails when a root is in a registry without a snapshot. -/
theorem findsNothing_of_root (hnamed : Named table) {root : RootRegistryRequirement Path Req}
    (hroot : root ∈ roots) (hmiss : table.lookup root.dependency.registry = none) :
    FindsNothing roots previouslyLocked table := by
  obtain ⟨result, hres, hans⟩ := exists_answer roots (snapshotValues table) previouslyLocked
  cases result with
  | error error => exact ⟨error, hres⟩
  | ok resolution =>
    cases hans with
    | resolved _ selection hsolves _ =>
      obtain ⟨release, hsel, _⟩ :=
        hsolves.roots root.dependency.key root.dependency.requirement ⟨root, hroot, rfl, rfl⟩
      obtain ⟨snapshot, hmem, hreg, _⟩ := hsolves.offered _ release hsel
      have hlookup := (catalogs_snapshotValues hnamed _ _).mpr ⟨hmem, hreg⟩
      exact absurd (hlookup.symm.trans hmiss) (by simp)

theorem Loaded.sameResolution_iff (hloaded : Loaded configured roots previouslyLocked snapshots)
    (hsettled : Settled configured roots previouslyLocked snapshots) :
    SameResolution (resolveUpdate configured roots previouslyLocked)
        (resolveRegistryDependencies roots (snapshotValues configured.table) previouslyLocked) ↔
      Conclusive configured roots previouslyLocked snapshots := by
  have hcompared : Compared configured roots previouslyLocked snapshots :=
    compared hloaded.partOf hloaded.roots_loaded
  rcases hloaded.settled_answer hsettled with
    ⟨resolution, hans, hupdate⟩ | ⟨error, failure, hans, hupdate⟩
  · rw [hupdate]
    cases hcompared with
    | same other hsome hall hnot =>
      obtain rfl : resolution = other := by simpa [hans] using hsome
      rw [hall]
      refine iff_of_true (.resolved resolution) ⟨fun _ => hnot, ?_⟩
      intro hlimit
      simp [ExceedsLimit, hall] at hlimit
    | conflicts hsome _ _ _ =>
      obtain ⟨error, herror⟩ := hsome
      simp [hans] at herror
    | limit hall =>
      rw [hall]
      apply iff_of_false
      · rintro ⟨⟩
      · intro hconclusive
        obtain ⟨error, herror⟩ := hconclusive.finds_nothing hall
        simp [hans] at herror
    | overlooked other hall hother hoverlooks =>
      have hwithin : ¬ ExceedsLimit roots previouslyLocked configured.table := by
        simp [ExceedsLimit, hall]
      rw [hall]
      apply iff_of_false
      · rintro ⟨⟩
        exact hother hans
      · intro hconclusive
        exact hconclusive.overlooks_nothing hwithin hoverlooks
  · rw [hupdate]
    cases hcompared with
    | same other hsome _ _ => simp [hans] at hsome
    | conflicts _ hall hwithin hnot =>
      obtain ⟨last, hlast⟩ := hall
      rw [hlast]
      exact iff_of_true (.failed failure last)
        ⟨fun _ => hnot, fun hlimit => absurd hlimit hwithin⟩
    | limit hall =>
      rw [hall]
      exact iff_of_true (.failed failure _)
        ⟨fun hwithin => absurd hall hwithin, fun _ => ⟨error, hans⟩⟩
    | overlooked other hall _ hoverlooks =>
      have hwithin : ¬ ExceedsLimit roots previouslyLocked configured.table := by
        simp [ExceedsLimit, hall]
      rw [hall]
      apply iff_of_false
      · rintro ⟨⟩
      · intro hconclusive
        exact hconclusive.overlooks_nothing hwithin hoverlooks

/-- Update mode gives the answer over all the configured snapshots exactly when the search in its
last round overlooks no release, or fails like the one that runs into the limit. -/
theorem resolveUpdate_sameResolution_iff (configured : ConfiguredSnapshots Version Req)
    (roots : List (RootRegistryRequirement Path Req)) (previouslyLocked : Locked Version) :
    SameResolution (resolveUpdate configured roots previouslyLocked)
        (resolveRegistryDependencies roots (snapshotValues configured.table) previouslyLocked) ↔
      ∀ snapshots, Loaded configured roots previouslyLocked snapshots →
        Settled configured roots previouslyLocked snapshots →
          Conclusive configured roots previouslyLocked snapshots := by
  constructor
  · intro hsame snapshots hloaded hsettled
    exact (hloaded.sameResolution_iff hsettled).mp hsame
  intro hall
  cases hload : loadNamedSnapshots configured (requiredRegistries roots) .empty with
  | ok snapshots =>
    obtain ⟨final, hloaded, hsettled⟩ := Loaded.exists_settled (.roots hload)
    exact (hloaded.sameResolution_iff hsettled).mpr (hall final hloaded hsettled)
  | error failure =>
    obtain ⟨registry, hreg, hmiss⟩ := loadNamedSnapshots_error hload
    obtain ⟨root, hroot, rfl⟩ := mem_requiredRegistries.mp hreg
    obtain ⟨error, herror⟩ := findsNothing_of_root configured.registry_eq hroot hmiss
    rw [herror, resolveUpdate, hload]
    exact .failed failure error

end

/-! ## What update mode resolves -/

section

variable {Path Version Req : Type} {table all : SnapshotTable Version Req}
  {roots : List (RootRegistryRequirement Path Req)} {resolution : RegistryResolution Path Version}
  {selection : RegistryPackageKey → Option (RegistryRelease Version Req)}

theorem PartOf.mem_values (hpart : PartOf table all) (hnamed : Named all)
    {snapshot : RegistrySnapshot Version Req} (hmem : snapshot ∈ snapshotValues table) :
    snapshot ∈ snapshotValues all := by
  have hlookup := (catalogs_snapshotValues (hpart.named hnamed) _ _).mpr ⟨hmem, rfl⟩
  exact ((catalogs_snapshotValues hnamed _ _).mp (hpart _ _ hlookup)).1

theorem Provides.of_partOf (hpart : PartOf table all) (hnamed : Named all)
    {key : RegistryPackageKey} {identity : RegistryProviderIdentity Version}
    (hprovides : Provides (snapshotValues table) selection key identity) :
    Provides (snapshotValues all) selection key identity := by
  obtain ⟨release, hsel, snapshot, hmem, hident⟩ := hprovides
  exact ⟨release, hsel, snapshot, hpart.mem_values hnamed hmem, hident⟩

/-- What describes a selection with some of the snapshots describes it with all of them. -/
theorem Describes.of_partOf (hpart : PartOf table all) (hnamed : Named all)
    (hdesc : Describes roots (snapshotValues table) selection resolution) :
    Describes roots (snapshotValues all) selection resolution where
  ascending := hdesc.ascending
  selected := hdesc.selected
  packages := by
    intro pkg hpkg
    obtain ⟨release, hsel, hprovides, hdeps⟩ := hdesc.packages pkg hpkg
    exact ⟨release, hsel, hprovides.of_partOf hpart hnamed, hdeps.imp fun _ _ hdep =>
      ⟨hdep.1, hdep.2.of_partOf hpart hnamed⟩⟩
  roots := by
    obtain ⟨ordered, horder, hroots⟩ := hdesc.roots
    exact ⟨ordered, horder, hroots.imp fun _ _ hroot =>
      ⟨hroot.1, hroot.2.1, hroot.2.2.of_partOf hpart hnamed⟩⟩
  snapshots := by
    intro reg digest
    rw [hdesc.snapshots]
    constructor
    · rintro ⟨snapshot, hmem, hrest⟩
      exact ⟨snapshot, hpart.mem_values hnamed hmem, hrest⟩
    · rintro ⟨snapshot, hmem, rfl, rfl, pkg, hpkg, hreg⟩
      -- A snapshot whose registry is used is the one that provides the package.
      obtain ⟨_, _, ⟨_, _, found, hfound, hsame, _⟩, _⟩ := hdesc.packages pkg hpkg
      have hlookup := (catalogs_snapshotValues hnamed found.registry found).mpr
        ⟨hpart.mem_values hnamed hfound, rfl⟩
      have hother := (catalogs_snapshotValues hnamed snapshot.registry snapshot).mpr ⟨hmem, rfl⟩
      have hregs : found.registry = snapshot.registry := hsame.trans hreg
      rw [hregs, hother] at hlookup
      cases hlookup
      exact ⟨snapshot, hfound, rfl, rfl, pkg, hpkg, hreg⟩

end

/-- Update mode always ends, and what it resolves is a solution over all the configured snapshots,
though it has loaded only some of them. -/
theorem resolveUpdate_sound {Path Version Req : Type} [ManifestPaths Path]
    [SemanticVersions Version Req] [DecidableEq Version]
    (configured : ConfiguredSnapshots Version Req)
    (roots : List (RootRegistryRequirement Path Req)) (previouslyLocked : Locked Version) :
    ∃ result, resolveUpdate configured roots previouslyLocked = some result ∧
      ∀ resolution, result = .ok resolution → ∃ selection,
        (resolutionProblem roots (snapshotValues configured.table) previouslyLocked).Solves
          selection ∧
        Describes roots (snapshotValues configured.table) selection resolution := by
  cases hload : loadNamedSnapshots configured (requiredRegistries roots) .empty with
  | error failure => exact ⟨.error failure, by rw [resolveUpdate, hload], by simp⟩
  | ok snapshots =>
    obtain ⟨final, hloaded, hsettled⟩ := Loaded.exists_settled (.roots hload)
    rcases hloaded.settled_answer hsettled with ⟨resolution, hans, hupdate⟩ | ⟨_, failure, _, hupdate⟩
    · refine ⟨_, hupdate, ?_⟩
      rintro _ ⟨rfl⟩
      have hnamed := hloaded.partOf.named configured.registry_eq
      obtain ⟨result, hres, hanswer⟩ := exists_answer roots (snapshotValues final) previouslyLocked
      cases hans.symm.trans hres
      cases hanswer with
      | resolved _ selection hsolves hdesc =>
        have hall := (hloaded.partOf.widens (catalogs_snapshotValues hnamed)
          (catalogs_snapshotValues configured.registry_eq)).solves_iff.mp hsolves
        exact ⟨selection, hall.1, hdesc.of_partOf hloaded.partOf configured.registry_eq⟩
    · exact ⟨_, hupdate, by simp⟩

/-! ## A dependency on a second registry -/

namespace TwoRegistries

/-- Versions are numbers, and a requirement admits them all. -/
scoped instance : SemanticVersions Nat Unit where
  matchesVersion _ _ := true
  versionText := toString
  requirementText _ := "*"

scoped instance : ManifestPaths Nat where
  cmp := compare
  display := toString

def digest : Sha256Digest where
  text := "1111111111111111111111111111111111111111111111111111111111111111"
  length_eq := rfl
  digits := Sha256Digest.digits_of_replicate '1' rfl rfl

/-- The second release of `tool` needs `base`, which is in another registry. -/
def tool : RegistryPackage Nat Unit :=
  ⟨"tool", [⟨1, false, digest, []⟩, ⟨2, false, digest, [⟨"base", "base", "remote", ()⟩]⟩]⟩

def base : RegistryPackage Nat Unit := ⟨"base", [⟨1, false, digest, []⟩]⟩

def listed : List (String × RegistrySnapshot Nat Unit) :=
  [("main", ⟨digest, "main", [tool]⟩), ("remote", ⟨digest, "remote", [base]⟩)]

theorem listed_registry {registry : String} {snapshot : RegistrySnapshot Nat Unit}
    (hlookup : (ofEntries listed).lookup registry = some snapshot) :
    snapshot.registry = registry := by
  have hmem := (lookup_ofEntries (by decide)).mp hlookup
  simp only [listed, mem_cons, Prod.mk.injEq, not_mem_nil, or_false] at hmem
  rcases hmem with ⟨rfl, rfl⟩ | ⟨rfl, rfl⟩ <;> rfl

def configured : ConfiguredSnapshots Nat Unit where
  table := ofEntries listed
  registry_eq _ _ := listed_registry

def root : RootRegistryRequirement Nat Unit := ⟨0, ⟨"tool", "tool", "main", ()⟩⟩

/-- The packages that are selected, with their versions. -/
def chosen {Error : Type} (answer : Option (Except Error (RegistryResolution Nat Nat))) :
    Option (List (String × Nat)) :=
  match answer with
  | some (.ok resolution) => some (resolution.packages.map fun package =>
    (package.provider.name, package.provider.version))
  | _ => none

theorem chosen_eq {update : Option (Except PreparationError (RegistryResolution Nat Nat))}
    {answer : Option (Except RegistryResolutionError (RegistryResolution Nat Nat))}
    (hsame : SameResolution update answer) : chosen update = chosen answer := by
  cases hsame <;> rfl

end TwoRegistries

open TwoRegistries

/-- Update mode selects the older release of `tool`, as the registry of `base` is not loaded. -/
theorem not_sameResolution_twoRegistries :
    ¬ SameResolution (resolveUpdate configured [root] ∅)
      (resolveRegistryDependencies [root] (snapshotValues configured.table) ∅) := by
  intro hsame
  have hchosen := chosen_eq hsame
  have hupdate : chosen (resolveUpdate configured [root] ∅) = some [("tool", 1)] := by
    decide +kernel
  have hans : chosen (resolveRegistryDependencies [root] (snapshotValues configured.table) ∅) =
      some [("tool", 2), ("base", 1)] := by
    decide +kernel
  simp [hupdate, hans] at hchosen

end Salicin.Registry
