import Salicin.Registry.Resolution

/-!
# The order of the input

The resolver sorts the roots and keeps the snapshots and the constraints in sorted tables. Tables
that differ in the order of the constraints of a package, and in the order in which a snapshot
lists its packages, lead through the same search. The releases of a package are tried from the
last to the first, so their order is the one thing that has to be given: the parser accepts a
snapshot only when its releases ascend by version.
-/

namespace Salicin.Registry

open List Backtracking OptionLists Std.LawfulEqCmp SortedTable

variable {Path Version Req : Type}

/-! ## Constraints in another order -/

/-- The tables have the same constraints for each package, perhaps in another order. -/
abbrev Reordered (constraints others : ConstraintTable Req) : Prop :=
  SortedTable.Alike List.Perm constraints others

theorem Reordered.refl (constraints : ConstraintTable Req) : Reordered constraints constraints :=
  forall₂_same.mpr fun _ _ => ⟨rfl, .refl _⟩

theorem Reordered.trans {first second third : ConstraintTable Req}
    (hfst : Reordered first second) (hsnd : Reordered second third) :
    Reordered first third := by
  apply alike_of_lookup
  intro key
  have hleft := hfst.lookup key
  have hright := hsnd.lookup key
  generalize first.lookup key = left, second.lookup key = middle, third.lookup key = right
    at hleft hright ⊢
  cases hleft with
  | none => exact hright
  | some hleft =>
    cases hright with
    | some hright => exact .some (hleft.trans hright)

variable {constraints others : ConstraintTable Req}

theorem Reordered.pushConstraint (hreord : Reordered constraints others)
    (key : RegistryPackageKey) (constraint : Constraint Req) :
    Reordered (pushConstraint constraints key constraint) (pushConstraint others key constraint) := by
  apply SortedTable.Alike.insert hreord
  have hlookup := hreord.lookup key
  generalize constraints.lookup key = left, others.lookup key = right at hlookup ⊢
  cases hlookup with
  | none => exact .refl _
  | some hperm => exact hperm.append_right _

theorem pushConstraint_comm (constraints : ConstraintTable Req)
    (key otherKey : RegistryPackageKey) (constraint other : Constraint Req) :
    Reordered (pushConstraint (pushConstraint constraints key constraint) otherKey other)
      (pushConstraint (pushConstraint constraints otherKey other) key constraint) := by
  apply alike_of_lookup
  intro found
  simp only [pushConstraint, lookup_insert]
  by_cases hkey : found = key
  · by_cases hother : found = otherKey
    · subst hkey hother
      simp only [if_true, Option.getD_some, append_assoc]
      exact .some ((List.Perm.swap _ _ []).append_left _)
    · have hne : otherKey ≠ key := fun heq => hother (hkey.trans heq.symm)
      simp only [hkey, hne, hne.symm, if_true, if_false]
      exact .some (.refl _)
  · by_cases hother : found = otherKey
    · have hne : key ≠ otherKey := fun heq => hkey (hother.trans heq.symm)
      simp only [hother, hne, hne.symm, if_true, if_false]
      exact .some (.refl _)
    · simp only [hkey, hother, if_false]
      cases constraints.lookup found with
      | none => exact .none
      | some reqs => exact .some (.refl _)

/-- Both results are the same error, or tables with the same constraints. -/
inductive SameConstraints : Except RegistryResolutionError (ConstraintTable Req) →
    Except RegistryResolutionError (ConstraintTable Req) → Prop
  | error (error : RegistryResolutionError) : SameConstraints (.error error) (.error error)
  | ok {constraints others : ConstraintTable Req}
      (hreord : Reordered constraints others) : SameConstraints (.ok constraints) (.ok others)

/-- One table has a snapshot of a registry if the other has one. -/
def SameRegistries (table other : SnapshotTable Version Req) : Prop :=
  ∀ registry, (table.lookup registry).isSome = (other.lookup registry).isSome

variable {table other : SnapshotTable Version Req}

theorem addConstraints_reordered {Item : Type} (hregs : SameRegistries table other)
    {dep : Item → RegistryRequirement Req} {constraint : Item → Constraint Req}
    {items : List Item} (hreord : Reordered constraints others) :
    SameConstraints (addConstraints table dep constraint items constraints)
      (addConstraints other dep constraint items others) := by
  induction items generalizing constraints others with
  | nil => exact .ok hreord
  | cons item rest ih =>
    have hreg := hregs (dep item).registry
    unfold addConstraints
    generalize table.lookup _ = left, other.lookup _ = right at hreg ⊢
    cases left with
    | none =>
      cases right with
      | none => exact .error _
      | some _ => simp at hreg
    | some _ =>
      cases right with
      | none => simp at hreg
      | some _ => exact ih (hreord.pushConstraint _ _)

/-- Both results are errors, or tables with the same constraints. -/
inductive AddedAlike : Except RegistryResolutionError (ConstraintTable Req) →
    Except RegistryResolutionError (ConstraintTable Req) → Prop
  | error (error other : RegistryResolutionError) : AddedAlike (.error error) (.error other)
  | ok {constraints others : ConstraintTable Req}
      (hreord : Reordered constraints others) : AddedAlike (.ok constraints) (.ok others)

theorem SameConstraints.addedAlike
    {res other : Except RegistryResolutionError (ConstraintTable Req)}
    (hsame : SameConstraints res other) : AddedAlike res other := by
  cases hsame with
  | error error => exact .error error error
  | ok hreord => exact .ok hreord

theorem AddedAlike.trans {first second third : Except RegistryResolutionError (ConstraintTable Req)}
    (hfst : AddedAlike first second) (hsnd : AddedAlike second third) :
    AddedAlike first third := by
  cases hfst with
  | error error _ =>
    cases hsnd with
    | error _ other => exact .error error other
  | ok hleft =>
    cases hsnd with
    | ok hright => exact .ok (hleft.trans hright)

theorem addConstraints_perm {Item : Type} {dep : Item → RegistryRequirement Req}
    {constraint : Item → Constraint Req} {items others : List Item}
    (hperm : items.Perm others) (constraints : ConstraintTable Req) :
    AddedAlike (addConstraints table dep constraint items constraints)
      (addConstraints table dep constraint others constraints) := by
  induction hperm generalizing constraints with
  | nil => exact .ok (.refl _)
  | cons item _ ih =>
    unfold addConstraints
    cases table.lookup (dep item).registry with
    | none => exact .error _ _
    | some _ => exact ih _
  | swap item other rest =>
    unfold addConstraints
    cases hitem : table.lookup (dep item).registry with
    | none =>
      cases table.lookup (dep other).registry with
      | none => exact .error _ _
      | some _ =>
        simp only [addConstraints, hitem]
        exact .error _ _
    | some _ =>
      cases hother : table.lookup (dep other).registry with
      | none =>
        simp only [addConstraints, hother]
        exact .error _ _
      | some _ =>
        simp only [addConstraints, hitem, hother]
        exact (addConstraints_reordered (fun _ => rfl)
          (pushConstraint_comm constraints _ _ _ _)).addedAlike
  | trans _ _ ihFirst ihSecond => exact (ihFirst constraints).trans (ihSecond constraints)

/-! ## The search -/

variable {reqs : List (Constraint Req)}

theorem noCompatibleError_perm (key : RegistryPackageKey) {others : List (Constraint Req)}
    (hperm : reqs.Perm others) :
    noCompatibleError key reqs = noCompatibleError key others := by
  have horigins : (reqs.map Constraint.origin).mergeSort (· ≤ ·) =
      (others.map Constraint.origin).mergeSort (· ≤ ·) := by
    apply List.Perm.eq_of_pairwise' (pairwise_mergeSort' (· ≤ ·) _)
      (pairwise_mergeSort' (· ≤ ·) _)
    exact ((mergeSort_perm _ _).trans (hperm.map _)).trans (mergeSort_perm _ _).symm
  rw [noCompatibleError, noCompatibleError, horigins]

variable [SemanticVersions Version Req]

theorem satisfiesAll_perm {others : List (Constraint Req)}
    (hperm : reqs.Perm others) (release : RegistryRelease Version Req) :
    satisfiesAll reqs release = satisfiesAll others release :=
  hperm.all_eq

theorem recheckSelected_reordered (hreord : Reordered constraints others)
    (entries : List (RegistryPackageKey × RegistryRelease Version Req)) :
    recheckSelected constraints entries = recheckSelected others entries := by
  induction entries with
  | nil => rfl
  | cons entry rest ih =>
    have hlookup := hreord.lookup entry.1
    unfold recheckSelected
    generalize constraints.lookup entry.1 = left, others.lookup entry.1 = right at hlookup ⊢
    cases hlookup with
    | none => rfl
    | some hperm => simp only [satisfiesAll_perm hperm, noCompatibleError_perm _ hperm, ih]

/-- The snapshots have one digest and list the same packages, perhaps in another order. -/
structure SameIndex (snapshot other : RegistrySnapshot Version Req) : Prop where
  digest_eq : snapshot.digest = other.digest
  find?_eq : ∀ name, snapshot.packages.find? (fun package => package.name = name) =
    other.packages.find? fun package => package.name = name

abbrev SameIndexes (table other : SnapshotTable Version Req) : Prop :=
  SortedTable.Alike SameIndex table other

omit [SemanticVersions Version Req] in
theorem SameIndexes.registries (hidxs : SameIndexes table other) : SameRegistries table other := by
  intro registry
  have hlookup := hidxs.lookup registry
  generalize table.lookup registry = left, other.lookup registry = right at hlookup ⊢
  cases hlookup <;> rfl

variable [DecidableEq Version] {previouslyLocked : Locked Version}

theorem tryRelease_reordered (hregs : SameRegistries table other)
    (hreord : Reordered constraints others)
    {solve solveOther : ConstraintTable Req → SelectedTable Version Req → Nat →
      SolveResult Version Req}
    (hsolve : ∀ {constraints others}, Reordered constraints others → ∀ selected attempts,
      solve constraints selected attempts = solveOther others selected attempts)
    {otherRequirements : List (Constraint Req)}
    (hperm : reqs.Perm otherRequirements) (selected : SelectedTable Version Req)
    (key : RegistryPackageKey) (digest : Sha256Digest) :
    tryRelease table previouslyLocked solve constraints selected key reqs digest =
      tryRelease other previouslyLocked solveOther others selected key otherRequirements digest := by
  funext release attempts
  have hadded : SameConstraints (addDependencies table key release constraints)
      (addDependencies other key release others) := addConstraints_reordered hregs hreord
  unfold tryRelease
  generalize addDependencies table key release constraints = left,
    addDependencies other key release others = right at hadded ⊢
  cases hadded with
  | error error => simp only [satisfiesAll_perm hperm]
  | ok hnext => simp only [satisfiesAll_perm hperm, hsolve hnext]

/-- The search does not see the order of the constraints or of the packages. -/
theorem solveRegistryConstraints_reordered (hidxs : SameIndexes table other) (fuel : Nat)
    (hreord : Reordered constraints others) (selected : SelectedTable Version Req)
    (attempts : Nat) :
    solveRegistryConstraints table previouslyLocked fuel constraints selected attempts =
      solveRegistryConstraints other previouslyLocked fuel others selected attempts := by
  induction fuel generalizing constraints others selected attempts with
  | zero => rfl
  | succ fuel ih =>
    have hopen := hreord.find? fun key => (selected.lookup key).isNone
    unfold solveRegistryConstraints
    rw [recheckSelected_reordered hreord]
    generalize constraints.entries.find? _ = left, others.entries.find? _ = right at hopen ⊢
    cases hopen with
    | none => rfl
    | @some entry other hentry =>
      obtain ⟨key, reqs⟩ := entry
      obtain ⟨otherKey, otherRequirements⟩ := other
      obtain ⟨rfl, hperm⟩ := hentry
      have hlookup := hidxs.lookup key.registry
      simp only at hperm ⊢
      generalize table.lookup key.registry = left, other.lookup key.registry = right
        at hlookup ⊢
      cases hlookup with
      | none => rfl
      | @some snap otherSnapshot hidx =>
        simp only [hidx.find?_eq, hidx.digest_eq, noCompatibleError_perm key hperm,
          tryRelease_reordered hidxs.registries hreord
            (fun hreord selected attempts => ih hreord selected attempts) hperm]

/-! ## The roots -/

variable {roots : List (RootRegistryRequirement Path Req)}

section

variable [ManifestPaths Path]

/-- What a resolution keeps of a root. -/
structure RootIdentity (Path : Type) where
  ownerManifestPath : Path
  aliasName : String
  key : RegistryPackageKey

omit [SemanticVersions Version Req] [DecidableEq Version] [ManifestPaths Path] in
def RootRegistryRequirement.identity (root : RootRegistryRequirement Path Req) :
    RootIdentity Path :=
  ⟨root.ownerManifestPath, root.dependency.aliasName, root.dependency.key⟩

/-- The order of the roots looks at nothing but their identities. -/
def RootIdentity.cmp (left right : RootIdentity Path) : Ordering :=
  compareLex
    (compareLex
      (compareLex (fun left right => ManifestPaths.cmp left.ownerManifestPath right.ownerManifestPath)
        (compareOn RootIdentity.aliasName))
      (compareOn fun identity => identity.key.registry))
    (compareOn fun identity => identity.key.name) left right

variable [Std.TransCmp (@ManifestPaths.cmp Path _)]

instance : Std.TransCmp (@RootIdentity.cmp Path _) := by
  have : Std.TransCmp (fun left right : RootIdentity Path =>
      ManifestPaths.cmp left.ownerManifestPath right.ownerManifestPath) := {
    eq_swap := Std.OrientedCmp.eq_swap
    isLE_trans := Std.TransCmp.isLE_trans }
  unfold RootIdentity.cmp
  infer_instance

theorem orderRoots_pairwise (roots : List (RootRegistryRequirement Path Req)) :
    ((orderRoots roots).map RootRegistryRequirement.identity).Pairwise
      fun left right => (RootIdentity.cmp left right).isLE = true := by
  apply pairwise_map.mpr
  apply pairwise_mergeSort
  · intro first second third
    exact Std.TransCmp.isLE_trans
  · intro first second
    have hswap : RootIdentity.cmp second.identity first.identity =
        (RootIdentity.cmp first.identity second.identity).swap := Std.OrientedCmp.eq_swap
    simp only [Bool.or_eq_true]
    rw [hswap]
    cases RootIdentity.cmp first.identity second.identity <;> simp

variable [Std.LawfulEqCmp (@ManifestPaths.cmp Path _)]

omit [Std.TransCmp (@ManifestPaths.cmp Path _)] in
theorem RootIdentity.eq_of_cmp {left right : RootIdentity Path}
    (heq : RootIdentity.cmp left right = .eq) : left = right := by
  obtain ⟨path, aliasName, registry, name⟩ := left
  obtain ⟨otherPath, otherAlias, otherRegistry, otherName⟩ := right
  simp only [RootIdentity.cmp, compareLex, compareOn, Ordering.then_eq_eq] at heq
  obtain ⟨⟨⟨hpath, halias⟩, hreg⟩, hname⟩ := heq
  rw [eq_of_compare hpath, eq_of_compare halias, eq_of_compare hreg, eq_of_compare hname]

/-- The roots in order have the same identities, whatever order they were given in. -/
theorem orderRoots_identities {others : List (RootRegistryRequirement Path Req)}
    (hperm : roots.Perm others) : (orderRoots roots).map RootRegistryRequirement.identity =
      (orderRoots others).map RootRegistryRequirement.identity := by
  apply List.Perm.eq_of_pairwise _ (orderRoots_pairwise roots) (orderRoots_pairwise others)
  · exact (((mergeSort_perm _ _).trans hperm).trans (mergeSort_perm _ _).symm).map _
  · intro left right _ _ hle hge
    apply RootIdentity.eq_of_cmp
    have hswap : RootIdentity.cmp right left = (RootIdentity.cmp left right).swap :=
      Std.OrientedCmp.eq_swap
    rw [hswap] at hge
    generalize RootIdentity.cmp left right = order at hle hge ⊢
    cases order <;> simp_all

end

/-! ## The resolution -/

omit [SemanticVersions Version Req] [DecidableEq Version] in
theorem identitiesOf_reordered (hidxs : SameIndexes table other)
    (selected : SelectedTable Version Req) :
    identitiesOf table selected = identitiesOf other selected := by
  have hentry : ∀ entry, identityEntry table entry = identityEntry other entry := by
    intro entry
    have hlookup := hidxs.lookup entry.1.registry
    unfold identityEntry
    generalize table.lookup entry.1.registry = left, other.lookup entry.1.registry = right
      at hlookup ⊢
    cases hlookup with
    | none => rfl
    | some hidx => simp [hidx.digest_eq]
  rw [identitiesOf, identitiesOf, funext hentry]

omit [SemanticVersions Version Req] [DecidableEq Version] in
theorem usedSnapshots_reordered (hidxs : SameIndexes table other)
    (identities : IdentityTable Version) :
    usedSnapshots table identities = usedSnapshots other identities := by
  apply forall₂_eq_eq_eq ▸ forall₂_map_left_iff.mpr
    (forall₂_map_right_iff.mpr _)
  apply List.Forall₂.imp _ (rel_filter _ hidxs)
  · rintro ⟨registry, snap⟩ ⟨otherRegistry, otherSnapshot⟩ ⟨heq, hidx⟩
    exact Prod.ext heq hidx.digest_eq
  · rintro ⟨registry, snap⟩ ⟨otherRegistry, otherSnapshot⟩ ⟨rfl, _⟩
    rfl

omit [SemanticVersions Version Req] [DecidableEq Version] in
theorem mapM_resolvedRoot (identities : IdentityTable Version)
    (roots : List (RootRegistryRequirement Path Req)) :
    roots.mapM (resolvedRoot identities) =
      (roots.map RootRegistryRequirement.identity).mapM fun root =>
        (identities.lookup root.key).map fun provider =>
          ⟨root.ownerManifestPath, root.aliasName, provider⟩ := by
  rw [mapM_map]
  congr 1
  funext root
  simp only [resolvedRoot, resolvedDependency, Option.map_map]
  rfl

omit [SemanticVersions Version Req] [DecidableEq Version] in
theorem renderResolution_reordered (hidxs : SameIndexes table other)
    {others : List (RootRegistryRequirement Path Req)}
    (hroots : roots.map RootRegistryRequirement.identity =
      others.map RootRegistryRequirement.identity) (selected : SelectedTable Version Req) :
    renderResolution table roots selected = renderResolution other others selected := by
  unfold renderResolution
  rw [identitiesOf_reordered hidxs]
  simp only [usedSnapshots_reordered hidxs, mapM_resolvedRoot, hroots]

/-! ## The snapshots -/

variable {snapshots : List (RegistrySnapshot Version Req)}

section

omit [SemanticVersions Version Req] [DecidableEq Version]

/-- The package has the same name, and the same releases in some order. -/
def RearrangedPackage (package other : RegistryPackage Version Req) : Prop :=
  package.name = other.name ∧ package.releases.Perm other.releases

/-- The snapshot has the same packages in some order. -/
structure RearrangedSnapshot (snapshot other : RegistrySnapshot Version Req) : Prop where
  digest_eq : snapshot.digest = other.digest
  registry_eq : snapshot.registry = other.registry
  packages : ∃ packages, snapshot.packages.Perm packages ∧
    List.Forall₂ RearrangedPackage packages other.packages

def RearrangedSnapshots (snapshots others : List (RegistrySnapshot Version Req)) : Prop :=
  ∃ middle, snapshots.Perm middle ∧ List.Forall₂ RearrangedSnapshot middle others

variable [Preorder Version]

/-- The order that `parse_registry_snapshot` insists on for the releases of a package. -/
def RegistryPackage.Ascending (package : RegistryPackage Version Req) : Prop :=
  package.releases.Pairwise fun release next => release.version < next.version

/-- No package is listed twice, and the releases of each ascend. -/
structure RegistrySnapshot.Indexed (snapshot : RegistrySnapshot Version Req) : Prop where
  nodup : (snapshot.packages.map RegistryPackage.name).Nodup
  ascending : ∀ package ∈ snapshot.packages, package.Ascending

theorem RearrangedPackage.eq {package other : RegistryPackage Version Req}
    (hrearr : RearrangedPackage package other) (hascending : package.Ascending)
    (hother : other.Ascending) : package = other := by
  obtain ⟨name, releases⟩ := package
  obtain ⟨otherName, otherReleases⟩ := other
  obtain ⟨rfl, hperm⟩ := hrearr
  have hrels : releases = otherReleases :=
    hperm.eq_of_pairwise (fun _ _ _ _ hlt hgt => (lt_asymm hlt hgt).elim) hascending hother
  rw [hrels]

omit [Preorder Version] in
/-- With distinct names, the order of the packages does not matter to a search for a name. -/
theorem find?_perm {packages others : List (RegistryPackage Version Req)}
    (hperm : packages.Perm others) (hnodup : (packages.map RegistryPackage.name).Nodup)
    (name : String) :
    packages.find? (fun package => package.name = name) =
      others.find? fun package => package.name = name := by
  have hsome : ∀ {packages : List (RegistryPackage Version Req)},
      (packages.map RegistryPackage.name).Nodup → ∀ package,
      packages.find? (fun package => package.name = name) = some package ↔
        package ∈ packages ∧ package.name = name := by
    intro packages hnodup package
    constructor
    · intro hfind
      exact ⟨mem_of_find?_eq_some hfind, by simpa using List.find?_some hfind⟩
    · rintro ⟨hmem, hname⟩
      cases hfind : packages.find? fun package => package.name = name with
      | none => exact absurd hname (by simpa using List.find?_eq_none.mp hfind package hmem)
      | some found =>
        have hfound : found.name = name := by simpa using List.find?_some hfind
        rw [inj_on_of_nodup_map hnodup (mem_of_find?_eq_some hfind) hmem
          (hfound.trans hname.symm)]
  have hnodupOthers := (hperm.map RegistryPackage.name).nodup_iff.mp hnodup
  ext package
  rw [hsome hnodup, hsome hnodupOthers, hperm.mem_iff]

theorem RearrangedSnapshot.sameIndex {snap other : RegistrySnapshot Version Req}
    (hrearr : RearrangedSnapshot snap other) (hindexed : snap.Indexed)
    (hother : other.Indexed) : SameIndex snap other where
  digest_eq := hrearr.digest_eq
  find?_eq := by
    obtain ⟨packages, hperm, hall⟩ := hrearr.packages
    have heq : packages = other.packages := by
      obtain ⟨hlen, hzip⟩ := forall₂_iff_zip.mp hall
      apply forall₂_eq_eq_eq ▸ forall₂_iff_zip.mpr ⟨hlen, _⟩
      intro package found hmem
      obtain ⟨hpkg, hfound⟩ := of_mem_zip hmem
      exact (hzip hmem).eq (hindexed.ascending package (hperm.mem_iff.mpr hpkg))
        (hother.ascending found hfound)
    rw [← heq]
    exact find?_perm hperm hindexed.nodup

variable {others : List (RegistrySnapshot Version Req)}

omit [Preorder Version] in
theorem RearrangedSnapshots.map_eq {Result : Type}
    {view : RegistrySnapshot Version Req → Result}
    (hview : ∀ {snap other}, RearrangedSnapshot snap other → view snap = view other)
    (hrearr : RearrangedSnapshots snapshots others) :
    (snapshots.map view).Perm (others.map view) := by
  obtain ⟨middle, hperm, hall⟩ := hrearr
  have hmid : middle.map view = others.map view :=
    forall₂_eq_eq_eq ▸ forall₂_map_left_iff.mpr
      (forall₂_map_right_iff.mpr (hall.imp fun _ _ => hview))
  exact hmid ▸ hperm.map view

omit [Preorder Version] in
theorem RearrangedSnapshots.packageCount_eq (hrearr : RearrangedSnapshots snapshots others) :
    packageCount snapshots = packageCount others := by
  apply List.Perm.sum_nat
  apply hrearr.map_eq
  intro snap other hsnap
  obtain ⟨packages, hperm, hall⟩ := hsnap.packages
  exact hperm.length_eq.trans hall.length_eq

theorem RearrangedSnapshots.sameIndexes (hrearr : RearrangedSnapshots snapshots others)
    (hindexed : ∀ snap ∈ snapshots, snap.Indexed)
    (hothers : ∀ snap ∈ others, snap.Indexed) (hcats : Catalogs snapshots table)
    (hotherCatalogs : Catalogs others other) : SameIndexes table other := by
  obtain ⟨middle, hperm, hall⟩ := hrearr
  apply alike_of_lookup
  intro registry
  cases hleft : table.lookup registry with
  | some snap =>
    obtain ⟨hmem, hreg⟩ := (hcats registry snap).mp hleft
    obtain ⟨found, hfound, hsnap⟩ := mem_of_forall₂ hall.flip (hperm.mem_iff.mp hmem)
    have hright := (hotherCatalogs registry found).mpr
      ⟨hfound, hsnap.registry_eq.symm.trans hreg⟩
    rw [hright]
    exact .some (hsnap.sameIndex (hindexed snap hmem) (hothers found hfound))
  | none =>
    have hright : other.lookup registry = none := by
      apply Option.eq_none_iff_forall_ne_some.mpr
      intro found hlookup
      obtain ⟨hfound, hreg⟩ := (hotherCatalogs registry found).mp hlookup
      obtain ⟨snap, hmem, hsnap⟩ := mem_of_forall₂ hall hfound
      have hsome := (hcats registry snap).mpr
        ⟨hperm.mem_iff.mpr hmem, hsnap.registry_eq.trans hreg⟩
      simp [hleft] at hsome
    rw [hright]
    exact .none

end

/-! ## The answers -/

/-- The resolver gives the same resolution twice, or it fails twice. -/
inductive SameAnswer : Option (Except RegistryResolutionError (RegistryResolution Path Version)) →
    Option (Except RegistryResolutionError (RegistryResolution Path Version)) → Prop
  | resolved (resolution : RegistryResolution Path Version) :
      SameAnswer (some (.ok resolution)) (some (.ok resolution))
  | failed (error other : RegistryResolutionError) :
      SameAnswer (some (.error error)) (some (.error other))

omit [SemanticVersions Version Req] [DecidableEq Version] in
theorem SameAnswer.refl (answer : Except RegistryResolutionError (RegistryResolution Path Version)) :
    SameAnswer (some answer) (some answer) := by
  cases answer with
  | error error => exact .failed error error
  | ok resolution => exact .resolved resolution

variable [ManifestPaths Path]

/-- What follows the reading of the snapshots. -/
def resolveWith (table : SnapshotTable Version Req) (previouslyLocked : Locked Version)
    (fuel : Nat) (orderedRoots : List (RootRegistryRequirement Path Req)) :
    Option (Except RegistryResolutionError (RegistryResolution Path Version)) :=
  match addRoots table orderedRoots .empty with
  | .error error => some (.error error)
  | .ok constraints =>
    match solveRegistryConstraints table previouslyLocked fuel constraints .empty 0 with
    | none => none
    | some (.error error, _) => some (.error error)
    | some (.ok selected, _) => (renderResolution table orderedRoots selected).map .ok

theorem resolveRegistryDependencies_eq_resolveWith
    (htable : snapshotsByRegistry snapshots .empty = .ok table) :
    resolveRegistryDependencies roots snapshots previouslyLocked =
      resolveWith table previouslyLocked (packageCount snapshots + 1) (orderRoots roots) := by
  rw [resolveRegistryDependencies, htable]
  rfl

theorem resolveWith_reordered (hidxs : SameIndexes table other) {fuel : Nat}
    {orderedRoots otherRoots : List (RootRegistryRequirement Path Req)}
    (hperm : orderedRoots.Perm otherRoots)
    (hroots : orderedRoots.map RootRegistryRequirement.identity =
      otherRoots.map RootRegistryRequirement.identity) :
    (∃ error other', resolveWith table previouslyLocked fuel orderedRoots = some (.error error) ∧
      resolveWith other previouslyLocked fuel otherRoots = some (.error other')) ∨
    resolveWith table previouslyLocked fuel orderedRoots =
      resolveWith other previouslyLocked fuel otherRoots := by
  have hadded : AddedAlike (addRoots table orderedRoots .empty) (addRoots other otherRoots .empty) :=
    (addConstraints_perm hperm .empty).trans
      (addConstraints_reordered hidxs.registries (.refl .empty)).addedAlike
  unfold resolveWith
  generalize addRoots table orderedRoots .empty = left, addRoots other otherRoots .empty = right
    at hadded ⊢
  cases hadded with
  | error error other => exact .inl ⟨error, other, rfl, rfl⟩
  | ok hreord =>
    apply Or.inr
    simp only [solveRegistryConstraints_reordered hidxs fuel hreord,
      renderResolution_reordered hidxs hroots]

section

variable [Std.TransCmp (@ManifestPaths.cmp Path _)]
  [Std.LawfulEqCmp (@ManifestPaths.cmp Path _)] [Preorder Version]

/-- The answer does not depend on the order of the roots, of the snapshots, of the packages in a
snapshot or of the locked releases; the releases of a package ascend. -/
theorem resolveRegistryDependencies_rearranged
    {roots otherRoots : List (RootRegistryRequirement Path Req)}
    (hroots : roots.Perm otherRoots)
    {snapshots others : List (RegistrySnapshot Version Req)}
    (hsnapshots : RearrangedSnapshots snapshots others)
    (hindexed : ∀ snapshot ∈ snapshots, snapshot.Indexed)
    (hothers : ∀ snapshot ∈ others, snapshot.Indexed)
    {locked otherLocked : List (RegistryProviderIdentity Version)}
    (hlocked : locked.Perm otherLocked) :
    SameAnswer (resolveRegistryDependencies roots snapshots locked.toFinset)
      (resolveRegistryDependencies otherRoots others otherLocked.toFinset) := by
  obtain ⟨answer, hans, _⟩ := exists_answer roots snapshots locked.toFinset
  rw [← toFinset_eq_of_perm _ _ hlocked]
  have hleft : Cataloged ([] ++ snapshots) (snapshotsByRegistry snapshots .empty) :=
    snapshotsByRegistry_cataloged (by simp [Catalogs]) (by simp)
  have hright : Cataloged ([] ++ others) (snapshotsByRegistry others .empty) :=
    snapshotsByRegistry_cataloged (by simp [Catalogs]) (by simp)
  have hregs : (snapshots.map RegistrySnapshot.registry).Nodup ↔
      (others.map RegistrySnapshot.registry).Nodup :=
    (hsnapshots.map_eq fun hsnap => hsnap.registry_eq).nodup_iff
  rw [nil_append] at hleft hright
  generalize hres : snapshotsByRegistry snapshots .empty = left at hleft
  generalize hother : snapshotsByRegistry others .empty = right at hright
  cases hleft with
  | duplicate snapshot _ hduplicate =>
    cases hright with
    | duplicate other _ _ =>
      simp only [resolveRegistryDependencies, hres, hother]
      exact .failed _ _
    | table _ _ hnodup => exact absurd (hregs.mpr hnodup) hduplicate
  | table table hcats hnodup =>
    cases hright with
    | duplicate _ _ hduplicate => exact absurd (hregs.mp hnodup) hduplicate
    | table other hotherCatalogs _ =>
      have hidxs := hsnapshots.sameIndexes hindexed hothers hcats hotherCatalogs
      have hperm : (orderRoots roots).Perm (orderRoots otherRoots) :=
        ((mergeSort_perm _ _).trans hroots).trans (mergeSort_perm _ _).symm
      rw [resolveRegistryDependencies_eq_resolveWith hres] at hans ⊢
      rw [resolveRegistryDependencies_eq_resolveWith hother, ← hsnapshots.packageCount_eq]
      rcases resolveWith_reordered hidxs hperm (orderRoots_identities hroots) with
        ⟨error, otherError, herror, hotherError⟩ | heq
      · rw [herror, hotherError]
        exact .failed error otherError
      · rw [← heq, hans]
        exact .refl answer

end

/-! ## Releases in another order -/

namespace TwoReleases

/-- Versions are numbers here, and a requirement admits them all. -/
scoped instance : SemanticVersions Nat Unit where
  matchesVersion _ _ := true
  versionText := toString
  requirementText _ := "*"

scoped instance : ManifestPaths Nat where
  cmp := compare
  display := toString

def digest : Sha256Digest where
  text := "0000000000000000000000000000000000000000000000000000000000000000"
  length_eq := rfl
  digits := Sha256Digest.digits_of_replicate '0' rfl rfl

def release (version : Nat) : RegistryRelease Nat Unit := ⟨version, false, digest, []⟩

def package (name : String) (releases : List (RegistryRelease Nat Unit)) :
    RegistryPackage Nat Unit := ⟨name, releases⟩

def snapshot (packages : List (RegistryPackage Nat Unit)) : RegistrySnapshot Nat Unit :=
  ⟨digest, "r", packages⟩

def root (aliasName name : String) : RootRegistryRequirement Nat Unit :=
  ⟨0, ⟨aliasName, name, "r", ()⟩⟩

/-- The versions that are selected. -/
def versions (answer : Option (Except RegistryResolutionError (RegistryResolution Nat Nat))) :
    Option (List Nat) :=
  match answer with
  | some (.ok resolution) => some (resolution.packages.map fun package => package.provider.version)
  | _ => none

theorem versions_eq {first second : Option (Except RegistryResolutionError
    (RegistryResolution Nat Nat))} (hsame : SameAnswer first second) :
    versions first = versions second := by
  cases hsame <;> rfl

theorem rearranged_snapshot {packages others : List (RegistryPackage Nat Unit)}
    (hpkgs : ∃ middle, packages.Perm middle ∧ List.Forall₂ RearrangedPackage middle others) :
    RearrangedSnapshots [snapshot packages] [snapshot others] :=
  ⟨[snapshot packages], .refl _, .cons ⟨rfl, rfl, hpkgs⟩ .nil⟩

theorem indexed_snapshot : (snapshot [package "p" [release 1, release 2], package "q" [release 1]]).Indexed
    ∧ (snapshot [package "q" [release 1], package "p" [release 1, release 2]]).Indexed := by
  constructor <;> exact ⟨by decide, by simp [snapshot, package, RegistryPackage.Ascending, release]⟩

end TwoReleases

open TwoReleases

/-- The answer is the same when the roots and the packages come in another order. -/
theorem resolveRegistryDependencies_rearranged_swap :
    SameAnswer
      (resolveRegistryDependencies [root "a" "p", root "b" "q"]
        [snapshot [package "p" [release 1, release 2], package "q" [release 1]]]
        ([] : List (RegistryProviderIdentity Nat)).toFinset)
      (resolveRegistryDependencies [root "b" "q", root "a" "p"]
        [snapshot [package "q" [release 1], package "p" [release 1, release 2]]]
        ([] : List (RegistryProviderIdentity Nat)).toFinset) := by
  have : Std.TransCmp (@ManifestPaths.cmp Nat _) := inferInstanceAs (Std.TransOrd Nat)
  have : Std.LawfulEqCmp (@ManifestPaths.cmp Nat _) := inferInstanceAs (Std.LawfulEqOrd Nat)
  apply resolveRegistryDependencies_rearranged (.swap _ _ [])
  · apply rearranged_snapshot
    exact ⟨_, .swap _ _ [], .cons ⟨rfl, .refl _⟩ (.cons ⟨rfl, .refl _⟩ .nil)⟩
  · exact forall_mem_singleton.mpr indexed_snapshot.1
  · exact forall_mem_singleton.mpr indexed_snapshot.2
  · exact .refl []

/-- With the releases in another order the resolver selects another one. -/
theorem not_sameAnswer_reversed_releases :
    RearrangedSnapshots [snapshot [package "p" [release 1, release 2]]]
      [snapshot [package "p" [release 2, release 1]]] ∧
    ¬ SameAnswer
      (resolveRegistryDependencies [root "a" "p"]
        [snapshot [package "p" [release 1, release 2]]] ∅)
      (resolveRegistryDependencies [root "a" "p"]
        [snapshot [package "p" [release 2, release 1]]] ∅) := by
  constructor
  · apply rearranged_snapshot
    exact ⟨_, .refl _, .cons ⟨rfl, .swap _ _ []⟩ .nil⟩
  · intro hsame
    have hvers := versions_eq hsame
    have hfst : versions (resolveRegistryDependencies [root "a" "p"]
        [snapshot [package "p" [release 1, release 2]]] ∅) = some [2] := by decide +kernel
    have hsnd : versions (resolveRegistryDependencies [root "a" "p"]
        [snapshot [package "p" [release 2, release 1]]] ∅) = some [1] := by decide +kernel
    simp [hfst, hsnd] at hvers

end Salicin.Registry
