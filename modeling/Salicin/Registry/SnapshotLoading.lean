import Salicin.Registry.Resolution

/-!
# Loading the snapshots of registries

In update mode `prepare_registry_graph` loads the snapshots of the registries that the roots name.
Further snapshots are loaded when the resolver reports that one is missing, and the resolver then
starts again. A snapshot that has been configured is taken to be readable: what `load_snapshot`
reads is the snapshot of the digest in the configuration, and its parser checks that the snapshot
is of the registry it was asked for.
-/

namespace Salicin.Registry

open List SortedTable

variable {Path Version Req : Type}

/-- The snapshots that the configuration names, by their registries. -/
structure ConfiguredSnapshots (Version Req : Type) where
  table : SnapshotTable Version Req
  registry_eq : ∀ reg snapshot, table.lookup reg = some snapshot → snapshot.registry = reg

/-- Why the preparation of the registry packages fails. -/
inductive PreparationError
  | noConfiguredSnapshot (reg : String)
  | resolution (error : RegistryResolutionError)

def snapshotValues (snaps : SnapshotTable Version Req) : List (RegistrySnapshot Version Req) :=
  snaps.entries.map Prod.snd

def loadNamedSnapshot (configured : ConfiguredSnapshots Version Req)
    (snaps : SnapshotTable Version Req) (reg : String) :
    Except PreparationError (SnapshotTable Version Req) :=
  match configured.table.lookup reg with
  | none => .error (.noConfiguredSnapshot reg)
  | some snapshot => .ok (snaps.insert reg snapshot)

/-- Load the snapshots of some registries, up to one that is not configured. -/
def loadNamedSnapshots (configured : ConfiguredSnapshots Version Req) :
    List String → SnapshotTable Version Req → Except PreparationError (SnapshotTable Version Req)
  | [], snaps => .ok snaps
  | reg :: rest, snaps =>
    match loadNamedSnapshot configured snaps reg with
    | .error error => .error error
    | .ok snaps => loadNamedSnapshots configured rest snaps

/-- The registries that the roots name, each once and in order. -/
def requiredRegistries (roots : List (RootRegistryRequirement Path Req)) : List String :=
  ((roots.map fun root => root.dependency.registry).mergeSort (· ≤ ·)).dedup

section

variable [ManifestPaths Path] [SemanticVersions Version Req] [DecidableEq Version]

/-- The resolver is started again each time it reports a snapshot that has not been loaded. -/
def resolveLoading (configured : ConfiguredSnapshots Version Req)
    (roots : List (RootRegistryRequirement Path Req)) (locked : Locked Version) :
    Nat → SnapshotTable Version Req →
      Option (Except PreparationError (RegistryResolution Path Version))
  | 0, _ => none
  | fuel + 1, snaps =>
    match resolveRegistryDependencies roots (snapshotValues snaps) locked with
    | none => none
    | some (.ok resolution) => some (.ok resolution)
    | some (.error (.missingSnapshot reg)) =>
      if (snaps.lookup reg).isNone then
        match loadNamedSnapshot configured snaps reg with
        | .error error => some (.error error)
        | .ok snaps => resolveLoading configured roots locked fuel snaps
      else some (.error (.resolution (.missingSnapshot reg)))
    | some (.error error) => some (.error (.resolution error))

/-- Each round but the last loads one of the configured snapshots. -/
def resolveUpdate (configured : ConfiguredSnapshots Version Req)
    (roots : List (RootRegistryRequirement Path Req)) (locked : Locked Version) :
    Option (Except PreparationError (RegistryResolution Path Version)) :=
  match loadNamedSnapshots configured (requiredRegistries roots) .empty with
  | .error error => some (.error error)
  | .ok snaps =>
    resolveLoading configured roots locked (configured.table.entries.length + 1) snaps

/-- The snapshots with which the resolver may be started. -/
inductive Loaded (configured : ConfiguredSnapshots Version Req)
    (roots : List (RootRegistryRequirement Path Req)) (locked : Locked Version) :
    SnapshotTable Version Req → Prop
  | roots {snaps : SnapshotTable Version Req}
      (hload : loadNamedSnapshots configured (requiredRegistries roots) .empty = .ok snaps) :
      Loaded configured roots locked snaps
  | missing {snaps next : SnapshotTable Version Req} {reg : String}
      (hloaded : Loaded configured roots locked snaps)
      (hmiss : resolveRegistryDependencies roots (snapshotValues snaps) locked =
        some (.error (.missingSnapshot reg)))
      (hunloaded : snaps.lookup reg = none)
      (hload : loadNamedSnapshot configured snaps reg = .ok next) :
      Loaded configured roots locked next

/-- The resolver does not ask for another snapshot that is configured. -/
def Settled (configured : ConfiguredSnapshots Version Req)
    (roots : List (RootRegistryRequirement Path Req)) (locked : Locked Version)
    (snaps : SnapshotTable Version Req) : Prop :=
  ∀ reg, resolveRegistryDependencies roots (snapshotValues snaps) locked =
      some (.error (.missingSnapshot reg)) →
    snaps.lookup reg = none → configured.table.lookup reg = none

end

/-! ## What has been loaded -/

/-- The first table has some of the snapshots of the second. -/
def PartOf (table all : SnapshotTable Version Req) : Prop :=
  ∀ reg snapshot, table.lookup reg = some snapshot → all.lookup reg = some snapshot

section

variable {configured : ConfiguredSnapshots Version Req}
  {snaps next : SnapshotTable Version Req} {reg : String}

theorem loadNamedSnapshot_eq_ok :
    loadNamedSnapshot configured snaps reg = .ok next ↔ ∃ snapshot,
      configured.table.lookup reg = some snapshot ∧ next = snaps.insert reg snapshot := by
  unfold loadNamedSnapshot
  cases configured.table.lookup reg <;> simp [eq_comm]

theorem PartOf.load (hpart : PartOf snaps configured.table)
    (hload : loadNamedSnapshot configured snaps reg = .ok next) :
    PartOf next configured.table := by
  obtain ⟨snapshot, hsnap, rfl⟩ := loadNamedSnapshot_eq_ok.mp hload
  intro other found hfound
  rw [lookup_insert] at hfound
  split_ifs at hfound with heq
  · rw [heq, hsnap, hfound]
  · exact hpart other found hfound

/-- Loading keeps what has been loaded, and adds the registries that were asked for. -/
theorem loadNamedSnapshots_ok {registries : List String}
    (hload : loadNamedSnapshots configured registries snaps = .ok next) :
    (PartOf snaps configured.table → PartOf next configured.table) ∧
      (∀ reg, reg ∈ snaps.keys → reg ∈ next.keys) ∧
      ∀ reg ∈ registries, reg ∈ next.keys := by
  induction registries generalizing snaps with
  | nil =>
    obtain rfl : snaps = next := by simpa [loadNamedSnapshots] using hload
    simp
  | cons reg rest ih =>
    unfold loadNamedSnapshots at hload
    cases hone : loadNamedSnapshot configured snaps reg with
    | error error => simp [hone] at hload
    | ok middle =>
      rw [hone] at hload
      obtain ⟨hpart, hkept, hrest⟩ := ih hload
      obtain ⟨snapshot, _, rfl⟩ := loadNamedSnapshot_eq_ok.mp hone
      refine ⟨fun hsnaps => hpart (hsnaps.load hone), ?_, ?_⟩
      · intro other hother
        exact hkept other (mem_keys_insert _ |>.mpr (.inr hother))
      · apply forall_mem_cons.mpr ⟨_, hrest⟩
        exact hkept reg (mem_keys_insert _ |>.mpr (.inl rfl))

theorem loadNamedSnapshots_error {registries : List String} {error : PreparationError}
    (hload : loadNamedSnapshots configured registries snaps = .error error) :
    ∃ reg ∈ registries, configured.table.lookup reg = none := by
  induction registries generalizing snaps with
  | nil => simp [loadNamedSnapshots] at hload
  | cons reg rest ih =>
    cases hlookup : configured.table.lookup reg with
    | none => exact ⟨reg, mem_cons_self, hlookup⟩
    | some snapshot =>
      simp only [loadNamedSnapshots, loadNamedSnapshot, hlookup] at hload
      obtain ⟨other, hother, hnone⟩ := ih hload
      exact ⟨other, mem_cons_of_mem _ hother, hnone⟩

end

theorem mem_requiredRegistries {roots : List (RootRegistryRequirement Path Req)}
    {reg : String} : reg ∈ requiredRegistries roots ↔
      ∃ root ∈ roots, root.dependency.registry = reg := by
  simp [requiredRegistries]

section

variable [ManifestPaths Path] [SemanticVersions Version Req] [DecidableEq Version]
  {configured : ConfiguredSnapshots Version Req}
  {roots : List (RootRegistryRequirement Path Req)} {locked : Locked Version}
  {snaps : SnapshotTable Version Req}

theorem Loaded.partOf (hloaded : Loaded configured roots locked snaps) :
    PartOf snaps configured.table := by
  induction hloaded with
  | roots hload => exact (loadNamedSnapshots_ok hload).1 (by simp [PartOf])
  | missing _ _ _ hload ih => exact ih.load hload

theorem Loaded.roots_loaded (hloaded : Loaded configured roots locked snaps) :
    ∀ root ∈ roots, root.dependency.registry ∈ snaps.keys := by
  intro root hroot
  induction hloaded with
  | roots hload =>
    apply (loadNamedSnapshots_ok hload).2.2
    exact mem_requiredRegistries.mpr ⟨root, hroot, rfl⟩
  | missing _ _ _ hload ih =>
    obtain ⟨snapshot, _, rfl⟩ := loadNamedSnapshot_eq_ok.mp hload
    exact (mem_keys_insert _).mpr (.inr ih)

/-! ## The rounds -/

/-- The number of snapshots that have been loaded. -/
def loadedCount (snaps : SnapshotTable Version Req) : Nat := snaps.keys.toFinset.card

omit [ManifestPaths Path] [SemanticVersions Version Req] [DecidableEq Version] in
theorem loadedCount_insert {reg : String} (hunloaded : snaps.lookup reg = none)
    (snapshot : RegistrySnapshot Version Req) :
    loadedCount (snaps.insert reg snapshot) = loadedCount snaps + 1 := by
  have hinsert : (snaps.insert reg snapshot).keys.toFinset =
      insert reg snaps.keys.toFinset := by
    ext other
    simp [mem_keys_insert]
  rw [loadedCount, hinsert, Finset.card_insert_of_notMem, loadedCount]
  simpa using (lookup_eq_none snaps).mp hunloaded

omit [ManifestPaths Path] [SemanticVersions Version Req] [DecidableEq Version] in
theorem PartOf.loadedCount_le (hpart : PartOf snaps configured.table) :
    loadedCount snaps ≤ configured.table.entries.length := by
  have hsub : snaps.keys.toFinset ⊆ configured.table.keys.toFinset := by
    intro reg hreg
    obtain ⟨snapshot, hsnap⟩ := snaps.mem_keys.mp (mem_toFinset.mp hreg)
    exact mem_toFinset.mpr (configured.table.mem_keys.mpr ⟨snapshot, hpart _ _ hsnap⟩)
  calc loadedCount snaps
      ≤ configured.table.keys.toFinset.card := Finset.card_le_card hsub
    _ ≤ configured.table.keys.length := toFinset_card_le _
    _ = configured.table.entries.length := length_map ..

section
variable (hloaded : Loaded configured roots locked snaps)
include hloaded

/-- The rounds lead to each table that may be loaded, with fuel for the snapshots that are left. -/
theorem Loaded.resolveUpdate_eq :
    ∃ fuel, configured.table.entries.length < fuel + loadedCount snaps ∧
      resolveUpdate configured roots locked =
        resolveLoading configured roots locked fuel snaps := by
  induction hloaded with
  | roots hload =>
    refine ⟨configured.table.entries.length + 1, by omega, ?_⟩
    simp only [resolveUpdate, hload]
  | @missing snaps next reg hloaded hmiss hunloaded hload ih =>
    obtain ⟨fuel, hfuel, hres⟩ := ih
    have hcount := hloaded.partOf.loadedCount_le
    obtain ⟨smaller, rfl⟩ : ∃ smaller, fuel = smaller + 1 := ⟨fuel - 1, by omega⟩
    refine ⟨smaller, ?_, ?_⟩
    · obtain ⟨snapshot, _, rfl⟩ := loadNamedSnapshot_eq_ok.mp hload
      rw [loadedCount_insert hunloaded]
      omega
    · rw [hres]
      simp only [resolveLoading, hmiss, hunloaded, hload, Option.isNone_none, if_true]

theorem Loaded.exists_settled :
    ∃ final, Loaded configured roots locked final ∧
      Settled configured roots locked final := by
  induction hleft : configured.table.entries.length - loadedCount snaps using
    Nat.strong_induction_on generalizing snaps with
  | _ left ih =>
    by_cases hsettled : Settled configured roots locked snaps
    · exact ⟨snaps, hloaded, hsettled⟩
    · simp only [Settled, not_forall] at hsettled
      obtain ⟨reg, hmiss, hunloaded, hconfigured⟩ := hsettled
      obtain ⟨snapshot, hsnap⟩ := Option.ne_none_iff_exists'.mp hconfigured
      have hnext : Loaded configured roots locked
          (snaps.insert reg snapshot) :=
        .missing hloaded hmiss hunloaded
          (loadNamedSnapshot_eq_ok.mpr ⟨snapshot, hsnap, rfl⟩)
      have hcount := hnext.partOf.loadedCount_le
      have hinsert := loadedCount_insert hunloaded snapshot
      exact ih _ (by omega) hnext rfl

/-- When the resolver asks for no further snapshot, its answer is the answer of the whole. -/
theorem Loaded.settled_answer (hsettled : Settled configured roots locked snaps) :
    (∃ resolution, resolveRegistryDependencies roots (snapshotValues snaps) locked =
        some (.ok resolution) ∧
      resolveUpdate configured roots locked = some (.ok resolution)) ∨
    ∃ error failure, resolveRegistryDependencies roots (snapshotValues snaps) locked =
        some (.error error) ∧
      resolveUpdate configured roots locked = some (.error failure) := by
  obtain ⟨fuel, hfuel, hres⟩ := hloaded.resolveUpdate_eq
  have hcount := hloaded.partOf.loadedCount_le
  obtain ⟨smaller, rfl⟩ : ∃ smaller, fuel = smaller + 1 := ⟨fuel - 1, by omega⟩
  obtain ⟨answer, hans, _⟩ := exists_answer roots (snapshotValues snaps) locked
  rw [hres]
  cases answer with
  | ok resolution => exact .inl ⟨resolution, hans, by simp only [resolveLoading, hans]⟩
  | error error =>
    refine .inr ⟨error, ?_⟩
    cases error with
    | missingSnapshot reg =>
      cases hlookup : snaps.lookup reg with
      | some snapshot =>
        refine ⟨.resolution (.missingSnapshot reg), hans, ?_⟩
        simp only [resolveLoading, hans, hlookup, Option.isNone_some, Bool.false_eq_true, if_false]
      | none =>
        have hnone := hsettled reg hans hlookup
        refine ⟨.noConfiguredSnapshot reg, hans, ?_⟩
        simp only [resolveLoading, hans, hlookup, loadNamedSnapshot, hnone,
          Option.isNone_none, if_true]
    | _ => exact ⟨_, hans, by rw [resolveLoading, hans]⟩

end

end

end Salicin.Registry
