import Salicin.Cleanup.Topology

/-!
# Storage while a function runs

The initialization of storage at one moment of an execution: which locals are live, which
leaf paths hold a value and which variant each enum path has selected. A path is full when
the parts that complete it are, and empty when nothing of it is initialized. Each cleanup
operation relates the storage before it to the storage after it.
-/

namespace Salicin.Cleanup

open CleanupPlan.PathsValid

structure Storage (plan : CleanupPlan) where
  live : Finset LocalId
  init : Finset MovePathId
  variant : MovePathId → Option Nat
  /-- Only leaves hold values of their own. -/
  init_explicit : ∀ path ∈ init, path < plan.movePaths.length ∧ plan.completion path = .explicit
  /-- Only enum paths have discriminants. -/
  variant_enum : ∀ path, (variant path).isSome → (plan.discriminantIndex path).isSome

namespace Storage

variable {plan : CleanupPlan}

/-- The storage on entry of a function. -/
def start (plan : CleanupPlan) : Storage plan where
  live := ∅
  init := ∅
  variant := fun _ => none
  init_explicit := by simp
  variant_enum := by simp

/-- A complete value lies at the path. -/
inductive Full (storage : Storage plan) : MovePathId → Prop
  | explicit {path : MovePathId} (hrule : plan.completion path = .explicit)
      (hinit : path ∈ storage.init) : Full storage path
  | allChildren {path : MovePathId} (hrule : plan.completion path = .allChildren)
      (hchildren : ∀ child ∈ plan.children path, Full storage child) : Full storage path
  | enumRoot {path child : MovePathId} {variant : Nat}
      (hrule : plan.completion path = .enumRoot (plan.variantChildren path))
      (hvar : storage.variant path = some variant)
      (hchild : (variant, child) ∈ plan.variantChildren path)
      (hfull : Full storage child) : Full storage path

/-- Nothing of the path is initialized. -/
def Empty (storage : Storage plan) (path : MovePathId) : Prop :=
  ∀ part < plan.movePaths.length, plan.Below path part →
    part ∉ storage.init ∧ storage.variant part = none

/-- The variants that an enum path has not selected are empty. -/
def ConsistentAt (storage : Storage plan) (enumRoot : MovePathId) : Prop :=
  ∀ child ∈ plan.children enumRoot, ∀ variant, plan.downcastVariant child = some variant →
    storage.variant enumRoot ≠ some variant → storage.Empty child

/-- The path projects through selected variants only. -/
def Active (storage : Storage plan) (path : MovePathId) : Prop :=
  ∀ enumRoot child variant, child ∈ plan.children enumRoot → plan.Below child path →
    plan.downcastVariant child = some variant → storage.variant enumRoot = some variant

/-- What holds of the storage of every execution. -/
structure Proper (storage : Storage plan) : Prop where
  consistent : ∀ path, storage.ConsistentAt path
  deadEmpty : ∀ path < plan.movePaths.length, (plan.place path).localId ∉ storage.live →
    path ∉ storage.init ∧ storage.variant path = none

/-- The values in a region are gone. -/
def erase (storage : Storage plan) (region : MovePathId → Prop) [DecidablePred region] :
    Storage plan where
  live := storage.live
  init := storage.init.filter fun path => ¬ region path
  variant := fun path => if region path then none else storage.variant path
  init_explicit := fun path hpath => storage.init_explicit path (Finset.mem_of_mem_filter path hpath)
  variant_enum := fun path hsome => by
    split_ifs at hsome
    · exact absurd hsome (by simp)
    · exact storage.variant_enum path hsome

def clearPath (storage : Storage plan) (path : MovePathId) : Storage plan :=
  storage.erase (plan.Below path)

def clearLocal (storage : Storage plan) (localId : LocalId) : Storage plan :=
  storage.erase fun path => (plan.place path).localId = localId

def startStorage (storage : Storage plan) (localId : LocalId) : Storage plan :=
  { storage.clearLocal localId with live := insert localId storage.live }

def endStorage (storage : Storage plan) (localId : LocalId) : Storage plan :=
  { storage.clearLocal localId with live := storage.live.erase localId }

/-- An enum path gets a variant, or none; other paths have no variant to get. -/
def select (storage : Storage plan) (path : MovePathId) (variant : Option Nat) : Storage plan where
  live := storage.live
  init := storage.init
  variant := fun other =>
    if other = path ∧ (plan.discriminantIndex path).isSome then variant else storage.variant other
  init_explicit := storage.init_explicit
  variant_enum := fun other hsome => by
    split_ifs at hsome with hsame
    · rw [hsame.1]
      exact hsame.2
    · exact storage.variant_enum other hsome

/-- The storage holds some complete value at the path; variants that are already selected stay
selected, and everything else stays as it is. -/
structure Completed (path : MovePathId) (before after : Storage plan) : Prop where
  live : after.live = before.live
  outside : ∀ other, ¬ plan.Below path other →
    (other ∈ after.init ↔ other ∈ before.init) ∧ after.variant other = before.variant other
  full : after.Full path
  kept : ∀ other variant, plan.Below path other → before.variant other = some variant →
    after.variant other = some variant
  consistent : ∀ other, plan.Below path other → after.ConsistentAt other

/-- How an operation changes the storage. Which complete value an operation installs is left
open, save that a transferred enum keeps its variant. -/
inductive Step : CleanupOp → Storage plan → Storage plan → Prop
  | storageLive (localId : LocalId) (storage : Storage plan) :
      Step (.storageLive localId) storage (storage.startStorage localId)
  | storageDead (localId : LocalId) (storage : Storage plan) :
      Step (.storageDead localId) storage (storage.endStorage localId)
  | init {path : MovePathId} {before after : Storage plan} (hdone : Completed path before after) :
      Step (.init path) before after
  | moveOut (path : MovePathId) (storage : Storage plan) :
      Step (.moveOut path) storage (storage.clearPath path)
  | overwrite {path : MovePathId} {before after : Storage plan}
      (hdone : Completed path (before.clearPath path) after) :
      Step (.overwrite path) before after
  | transfer {source destination : MovePathId} (kind : TransferKind) {before after : Storage plan}
      (hdone : Completed destination
        (((before.clearPath source).clearPath destination).select destination
          (before.variant source)) after) :
      Step (.transfer source destination kind) before after
  | setDiscriminant (destination : MovePathId) (variant : Nat) (storage : Storage plan) :
      Step (.setDiscriminant destination variant) storage
        ((storage.clearPath destination).select destination (some variant))
  /-- The matched variant is the active one. -/
  | assumeDiscriminant {source : MovePathId} {variant : Nat} {storage : Storage plan}
      (hactive : storage.variant source = some variant) :
      Step (.assumeDiscriminant source variant) storage storage

/-! ## Full and empty paths -/

variable {path : MovePathId}

section Lemmas

variable {storage other : Storage plan}

theorem full_explicit (hrule : plan.completion path = .explicit) :
    storage.Full path ↔ path ∈ storage.init := by
  constructor
  · intro hfull
    cases hfull with
    | explicit _ hinit => exact hinit
    | allChildren hrule' => exact absurd (hrule.symm.trans hrule') (by simp)
    | enumRoot hrule' => exact absurd (hrule.symm.trans hrule') (by simp)
  · exact .explicit hrule

theorem full_allChildren (hrule : plan.completion path = .allChildren) :
    storage.Full path ↔ ∀ child ∈ plan.children path, storage.Full child := by
  constructor
  · intro hfull
    cases hfull with
    | explicit hrule' => exact absurd (hrule.symm.trans hrule') (by simp)
    | allChildren _ hchildren => exact hchildren
    | enumRoot hrule' => exact absurd (hrule.symm.trans hrule') (by simp)
  · exact .allChildren hrule

theorem full_enumRoot {variants : List (Nat × MovePathId)}
    (hrule : plan.completion path = .enumRoot variants) :
    storage.Full path ↔ ∃ variant child, storage.variant path = some variant ∧
      (variant, child) ∈ variants ∧ storage.Full child := by
  have hvars := variants_eq hrule
  subst hvars
  constructor
  · intro hfull
    cases hfull with
    | explicit hrule' => exact absurd (hrule.symm.trans hrule') (by simp)
    | allChildren hrule' => exact absurd (hrule.symm.trans hrule') (by simp)
    | enumRoot _ hvar hchild hfull => exact ⟨_, _, hvar, hchild, hfull⟩
  · rintro ⟨variant, child, hvar, hchild, hfull⟩
    exact .enumRoot hrule hvar hchild hfull

theorem Empty.of_below {part : MovePathId} (hempty : storage.Empty path)
    (hbelow : plan.Below path part) : storage.Empty part :=
  fun other hother hin => hempty other hother (below_trans hbelow hin)

theorem Empty.congr (hempty : storage.Empty path)
    (hsame : ∀ part < plan.movePaths.length, plan.Below path part →
      (part ∈ other.init ↔ part ∈ storage.init) ∧ other.variant part = storage.variant part) :
    other.Empty path := by
  intro part hpart hbelow
  obtain ⟨hinit, hvar⟩ := hsame part hpart hbelow
  rw [hinit, hvar]
  exact hempty part hpart hbelow

variable (hvalid : plan.PathsValid)

include hvalid

theorem Full.congr (hfull : storage.Full path) (hpath : plan.Has path)
    (hsame : ∀ part < plan.movePaths.length, plan.Below path part →
      (part ∈ other.init ↔ part ∈ storage.init) ∧ other.variant part = storage.variant part) :
    other.Full path := by
  have hlt {parent child : MovePathId} (hchild : child ∈ plan.children parent) :=
    lt_of_parent (hvalid.mem_children.mp hchild)
  induction hfull with
  | @explicit path hrule hinit =>
    exact .explicit hrule
      ((hsame path hpath (below_refl path)).1.mpr hinit)
  | @allChildren path hrule _ ih =>
    refine .allChildren hrule fun child hchild => ih child hchild (hlt hchild) ?_
    exact fun part hpart hbelow => hsame part hpart
      (below_trans (hvalid.below_child hchild) hbelow)
  | @enumRoot path child variant hrule hvar hchild _ ih =>
    have hmem := (mem_variantChildren.mp hchild).1
    refine .enumRoot hrule ?_ hchild (ih (hlt hmem) fun part hpart hbelow => hsame part hpart
      (below_trans (hvalid.below_child hmem) hbelow))
    rw [(hsame path hpath (below_refl path)).2, hvar]

theorem Full.not_empty (hfull : storage.Full path) (hpath : plan.Has path) :
    ¬ storage.Empty path := by
  induction hfull with
  | @explicit path _ hinit =>
    intro hempty
    exact (hempty path hpath (below_refl path)).1 hinit
  | @allChildren path hrule _ ih =>
    intro hempty
    obtain ⟨child, hchild⟩ := List.exists_mem_of_ne_nil _
      (children_ne_nil_of_allChildren hrule)
    exact ih child hchild (lt_of_parent (hvalid.mem_children.mp hchild))
      (hempty.of_below (hvalid.below_child hchild))
  | @enumRoot path _ _ _ hvar =>
    intro hempty
    have hnone := (hempty path hpath (below_refl path)).2
    exact absurd (hvar.symm.trans hnone) (by simp)

/-- A complete value is complete in all parts that lie in selected variants. -/
theorem Full.of_below {part : MovePathId} (hfull : storage.Full path)
    (hpath : plan.Has path) (hpart : plan.Has part)
    (hbelow : plan.Below path part) (hactive : storage.Active part) : storage.Full part := by
  have hreach := (hvalid.reaches_iff_below hpath hpart).mpr hbelow
  induction hreach using Relation.ReflTransGen.head_induction_on with
  | refl => exact hfull
  | @head path child hchild hreach ih =>
    have hlt := lt_of_parent (hvalid.mem_children.mp hchild)
    have hin := (hvalid.reaches_iff_below hlt hpart).mp hreach
    refine ih ?_ hlt hin
    cases hfull with
    | explicit hrule =>
      rw [children_of_explicit hrule] at hchild
      exact absurd hchild List.not_mem_nil
    | allChildren _ hchildren => exact hchildren child hchild
    | @enumRoot _ selected variant hrule hvar hsel hfull =>
      obtain ⟨variant', hlisted⟩ := hvalid.exists_variant hrule hchild
      have hdown := (mem_variantChildren.mp hlisted).2
      have hsame := hactive path child variant' hchild hin hdown
      cases hvar.symm.trans hsame
      rw [hvalid.variant_unique hlisted hsel]
      exact hfull

/-- Above an empty path nothing is complete, if its variants are selected. -/
theorem Empty.not_full_above {above : MovePathId} (hempty : storage.Empty path)
    (hpath : plan.Has path) (habove : plan.Has above)
    (hbelow : plan.Below above path) (hactive : storage.Active path) : ¬ storage.Full above :=
  fun hfull => (hfull.of_below hvalid habove hpath hbelow hactive).not_empty hvalid hpath hempty

omit hvalid in
theorem active_of_not_empty (hproper : storage.Proper) (hnonempty : ¬ storage.Empty path) :
    storage.Active path := by
  intro enumRoot child variant hchild hbelow hdown
  by_contra hne
  exact hnonempty ((hproper.consistent enumRoot child hchild variant hdown hne).of_below hbelow)

theorem Full.variant_full_or_empty {child : MovePathId} {variants : List (Nat × MovePathId)}
    {variant : Nat} (hrule : plan.completion path = .enumRoot variants) (hfull : storage.Full path)
    (hcons : storage.ConsistentAt path) (hchild : (variant, child) ∈ variants) :
    if storage.variant path = some variant then storage.Full child else storage.Empty child := by
  obtain ⟨selected, other, hvar, hother, hpart⟩ := (full_enumRoot hrule).mp hfull
  rw [← variants_eq hrule] at hchild hother
  split_ifs with hsame
  · cases hvar.symm.trans hsame
    rw [hvalid.variant_unique hchild hother]
    exact hpart
  · obtain ⟨hmem, hdown⟩ := mem_variantChildren.mp hchild
    exact hcons child hmem variant hdown hsame

end Lemmas

/-! ## What the operations leave alone -/

section Updates

variable (storage : Storage plan) {region : MovePathId → Prop}

theorem mem_init_erase [DecidablePred region] :
    path ∈ (storage.erase region).init ↔ path ∈ storage.init ∧ ¬ region path :=
  Finset.mem_filter

theorem erase_of_not [DecidablePred region] (hpath : ¬ region path) :
    (path ∈ (storage.erase region).init ↔ path ∈ storage.init) ∧
      (storage.erase region).variant path = storage.variant path :=
  ⟨by rw [mem_init_erase, and_iff_left hpath], if_neg hpath⟩

theorem erase_of [DecidablePred region] (hpath : region path) :
    path ∉ (storage.erase region).init ∧ (storage.erase region).variant path = none :=
  ⟨fun hin => ((mem_init_erase storage).mp hin).2 hpath, if_pos hpath⟩

theorem Empty.erase {storage : Storage plan} [DecidablePred region] (hempty : storage.Empty path) :
    (storage.erase region).Empty path := by
  intro part hpart hbelow
  by_cases hin : region part
  · exact storage.erase_of hin
  · obtain ⟨hinit, hvar⟩ := storage.erase_of_not hin
    rw [hinit, hvar]
    exact hempty part hpart hbelow

theorem clearPath_empty (path : MovePathId) : (storage.clearPath path).Empty path :=
  fun _ _ hbelow => storage.erase_of hbelow

theorem select_of_ne {other : MovePathId} (hne : other ≠ path) (variant : Option Nat) :
    (storage.select path variant).variant other = storage.variant other :=
  if_neg fun hsame => hne hsame.1

theorem select_none (hnone : storage.variant path = none) : storage.select path none = storage := by
  cases storage with
  | mk live init variant init_explicit variant_enum =>
    rw [select]
    congr
    funext other
    split_ifs with hsame
    · rw [hsame.1]
      exact hnone.symm
    · rfl

end Updates

end Storage

end Salicin.Cleanup
