import Salicin.Cleanup.FlagSteps

/-!
# Runs with drop flags

An execution of an accepted plan together with its drop flags, all of them clear at first. When
no step lays open flags that are out of step, the obligations at every end of storage drop the
initialized leaves with a destructor, each once.
-/

namespace Salicin.Cleanup

open List DropFlagAnalysis Storage

variable {plan : CleanupPlan} {entry : BasicBlockId → MoveState plan}

/-- What an execution does at a position. -/
inductive ControlStep
  | operation (operation : CleanupOp)
  | edge (edge : CleanupEdge)

/-- The storage and the flags with which some execution reaches a position of a block, when all
steps on its way meet a condition. -/
inductive FlagRun (plan : CleanupPlan) (entry : BasicBlockId → MoveState plan)
    (meets : BasicBlockId → Nat → Storage plan → Flags → ControlStep → Prop) :
    BasicBlockId → Nat → Storage plan → Flags → Prop
  | start : FlagRun plan entry meets plan.entry 0 (.start plan) fun _ => false
  | operation {block : BasicBlockId} {index : Nat} {before after : Storage plan} {flags : Flags}
      {operation : CleanupOp} (hrun : FlagRun plan entry meets block index before flags)
      (hop : (plan.blockOperations block)[index]? = some operation)
      (hmeets : meets block index before flags (.operation operation))
      (hstep : Storage.Step operation before after) :
      FlagRun plan entry meets block (index + 1) after
        ((compute plan entry).update block index flags)
  | edge {block : BasicBlockId} {storage : Storage plan} {flags : Flags} {terminator : Terminator}
      {edge : CleanupEdge}
      (hrun : FlagRun plan entry meets block (plan.blockOperations block).length storage flags)
      (hterm : plan.blockTerminator block = some terminator)
      (hedge : edge ∈ terminator.edges)
      (hmeets : meets block (plan.blockOperations block).length storage flags (.edge edge)) :
      FlagRun plan entry meets edge.target 0 (storage.exitScopes edge.exitedScopes) flags

/-- The flags are never left out of step: a match does not lay open flags of the payload that are
out of step, a transferred enum does not bring set flags of its other variants to light, and an
edge does not end storage whose flags are set. -/
def KeepsFlags (plan : CleanupPlan) (entry : BasicBlockId → MoveState plan) (block : BasicBlockId)
    (index : Nat) (storage : Storage plan) (flags : Flags) : ControlStep → Prop
  | .operation operation =>
    OperationKeeps (stateBefore plan entry block index) storage
      (view plan entry flags) operation
  | .edge edge =>
    ∀ scope ∈ edge.exitedScopes, ∀ localId ∈ plan.scopeLocals scope,
      ∀ path < plan.movePaths.length, path ∈ flaggedPaths plan entry →
        (plan.place path).localId = localId → flags (flagForPath plan entry path) = false

variable {meets : BasicBlockId → Nat → Storage plan → Flags → ControlStep → Prop}
  {block : BasicBlockId} {index : Nat} {storage : Storage plan} {flags : Flags}

theorem FlagRun.reached (hrun : FlagRun plan entry meets block index storage flags) :
    Reached plan block index storage := by
  induction hrun with
  | start => exact .start
  | operation _ hop _ hstep ih => exact ih.operation hop hstep
  | edge _ hterm hedge _ ih => exact ih.edge hterm hedge

/-- In every run that keeps its flags, the flags are in step with the storage. -/
theorem FlagRun.synced (haccepted : plan.Accepted entry)
    (hrun : FlagRun plan entry (KeepsFlags plan entry) block index storage flags) :
    (view plan entry flags).Synced
      (stateBefore plan entry block index) storage := by
  obtain ⟨hvalid, hblocks, -⟩ := haccepted.checks
  induction hrun with
  | start => exact FlagView.synced_start fun _ => rfl
  | @operation block index before after flags operation hrun hop hmeets hstep ih =>
    obtain ⟨⟨data, hdata⟩, hstate, hproper⟩ := haccepted.describes hrun.reached
    have hreach := hstate.reachable
    rw [MoveState.reachable_applyOperations] at hreach
    obtain ⟨hops, hchecked, -⟩ := haccepted.block hreach hdata
    have hlisted := hop
    rw [hops] at hlisted
    have hoperationValid := hblocks.operations data (mem_of_getElem? hdata) operation
      (mem_of_getElem? hlisted)
    have haccepts := CleanupPlan.verifyOperation_of_verifyOperations hchecked hlisted
    rw [← hops] at haccepts
    have hactive := MoveState.knowsActive_of_accepted hvalid hoperationValid haccepts
    have hnext := ih.step hvalid hstate hproper hoperationValid hactive hmeets hstep
    have hlater : stateBefore plan entry block (index + 1) =
        (stateBefore plan entry block index).applyOperation operation := by
      rw [stateBefore, take_add_one, hop]
      exact foldl_append
    rw [hlater]
    refine hnext.congr rfl fun path hflagged => ?_
    rw [← hlater]
    exact view_update hblocks hreach hop hflagged flags
  | @edge block storage flags terminator edge hrun hterm hedge hmeets ih =>
    obtain ⟨-, hstate, -⟩ := haccepted.describes hrun.reached
    have hreach := hstate.reachable
    rw [MoveState.reachable_applyOperations] at hreach
    have hexit := ih.exitScopes hvalid hmeets
    rw [stateBefore, take_length] at hexit
    obtain ⟨-, hedges⟩ := haccepted.stable
    refine hexit.weaken (hedges block hreach terminator hterm edge hedge ?_)
    rw [MoveState.reachable_exitScopes, MoveState.reachable_applyOperations]
    exact hreach

/-- In every run that keeps its flags, the obligations at an end of storage drop the initialized
leaves of the local that have a destructor, each once. -/
theorem dropsExactly_of_keepsFlags (haccepted : plan.Accepted entry)
    (hrun : FlagRun plan entry (KeepsFlags plan entry) block index storage flags)
    {localId : LocalId}
    (hend : (plan.blockOperations block)[index]? = some (.storageDead localId)) :
    storage.DropsExactly flags
      ((compute plan entry).obligationsAt block index) localId := by
  obtain ⟨hvalid, hblocks, -⟩ := haccepted.checks
  obtain ⟨-, hstate, hproper⟩ := haccepted.describes hrun.reached
  cases hroot : plan.rootByLocal localId with
  | none =>
    rw [obligationsAt_eq_nil hblocks hend hroot]
    refine ⟨by simp [droppedAll], fun path => ?_⟩
    rw [droppedAll]
    refine iff_of_false not_mem_nil ?_
    rintro ⟨hlocal, -, hinit⟩
    obtain ⟨root, hroot', -⟩ := hvalid.exists_root (storage.init_explicit path hinit).1
    rw [hlocal, hroot] at hroot'
    exact absurd hroot' (by simp)
  | some root =>
    obtain ⟨hlt, hparent, -⟩ := hvalid.rootByLocal_eq_some.mp hroot
    rw [obligationsAt_eq hblocks hend hroot]
    have hsettles : storage.Settles root (storage.droppedAll flags
        ((stateBefore plan entry block index).obligationsForPath
          (flagForPath plan entry) plan.height root)) :=
      MoveState.obligationsForPath_settles hvalid hstate hproper
        (FlagRun.synced haccepted hrun) (fun _ _ => rfl) (hvalid.fits hlt) hlt
        (fun path hpath => flagged_of_conditional hblocks hend hroot hpath)
        fun above habove hbelow hne _ =>
          absurd (hvalid.eq_of_below_root hparent hlt habove hbelow) hne
    refine ⟨hsettles.nodup, fun path => ?_⟩
    rw [hsettles.mem_iff path, Storage.Owes, hvalid.below_root_iff hroot]
    exact Iff.rfl

/-! ## Conditions that fail and hold -/

namespace Storage

/-- A leaf gets a value. -/
def withLeaf (storage : Storage plan) (path : MovePathId)
    (hleaf : path < plan.movePaths.length ∧ plan.completion path = .explicit) : Storage plan where
  live := storage.live
  init := insert path storage.init
  variant := storage.variant
  init_explicit := fun other hother =>
    (Finset.mem_insert.mp hother).elim (fun heq => heq ▸ hleaf) (storage.init_explicit other)
  variant_enum := storage.variant_enum

theorem completed_withLeaf (hvalid : plan.PathsValid) (storage : Storage plan) {path : MovePathId}
    (hleaf : plan.Has path ∧ plan.completion path = .explicit) :
    Completed path storage (storage.withLeaf path hleaf) where
  live := rfl
  outside other hout := by
    refine ⟨?_, rfl⟩
    rw [withLeaf, Finset.mem_insert, or_iff_right]
    rintro rfl
    exact hout (CleanupPlan.PathsValid.below_refl other)
  full := .explicit hleaf.2 (Finset.mem_insert_self path storage.init)
  kept _ _ _ hvar := hvar
  consistent other hbelow child hchild := by
    have hlt := (hvalid.parent_spec (hvalid.mem_children.mp hchild)).1
    rcases (hvalid.below_iff_child hleaf.1 hlt).mp hbelow with rfl | ⟨part, hpart, -⟩
    · exact absurd hleaf.2 (completion_ne_of_child hchild)
    · exact absurd hleaf.2 (completion_ne_of_child hpart)

end Storage

/-! Storage that only one branch initializes is dropped on that branch. -/

namespace ConditionalStorage

def conditionalPlan : CleanupPlan where
  rootScope := 0
  entry := 0
  scopes := [{ id := 0, parent := none, kind := .root, locals := [0, 1] }]
  locals := [
    { id := 0, sourceLocal := none, debugName := none, scope := 0, kind := .user
      ownership := .owned, isMutable := false, declarationOrder := 0 },
    { id := 1, sourceLocal := none, debugName := none, scope := 0, kind := .user
      ownership := .owned, isMutable := false, declarationOrder := 1 }]
  movePaths := [
    { id := 0, place := ⟨0, []⟩, parent := none, needsDrop := false },
    { id := 1, place := ⟨1, []⟩, parent := none, needsDrop := true }]
  blocks := [
    { id := 0, scope := 0, operations := [.storageLive 0, .init 0, .storageLive 1]
      terminator := some (.branch 0 ⟨1, []⟩ ⟨2, []⟩) },
    { id := 1, scope := 0, operations := [.init 1], terminator := some (.goto ⟨3, []⟩) },
    { id := 2, scope := 0, operations := [], terminator := some (.goto ⟨3, []⟩) },
    { id := 3, scope := 0, operations := [.storageDead 1], terminator := some (.return []) }]

def states : BasicBlockId → MoveState conditionalPlan :=
  (MoveStateAnalysis.compute conditionalPlan 4).getD fun _ => .new false

theorem accepted : conditionalPlan.Accepted states := CleanupPlan.accepted_entryStates (by decide)

theorem leaf (path : MovePathId) (hpath : path < 2) :
    path < conditionalPlan.movePaths.length ∧ conditionalPlan.completion path = .explicit := by
  have hrule : ∀ path < 2, conditionalPlan.completion path = .explicit := by decide
  exact ⟨hpath, hrule path hpath⟩

def live : Storage conditionalPlan :=
  (((Storage.start conditionalPlan).startStorage 0).withLeaf 0 (leaf 0 (by decide))).startStorage 1

/-- The storage on the first branch. -/
def filled : Storage conditionalPlan := live.withLeaf 1 (leaf 1 (by decide))

theorem run : ∃ flags,
    FlagRun conditionalPlan states (KeepsFlags conditionalPlan states) 3 0 filled flags := by
  have hvalid := accepted.checks.1
  have hkept (block : BasicBlockId) (index : Nat) (storage : Storage conditionalPlan)
      (flags : Flags) (target : BasicBlockId) :
      KeepsFlags conditionalPlan states block index storage flags (.edge ⟨target, []⟩) :=
    fun _ hscope => absurd hscope not_mem_nil
  have hfill (storage : Storage conditionalPlan) (path : MovePathId) (hpath : path < 2) :
      Storage.Step (.init path) storage (storage.withLeaf path (leaf path hpath)) :=
    .init (Storage.completed_withLeaf hvalid storage (leaf path hpath))
  have hstart : FlagRun conditionalPlan states (KeepsFlags conditionalPlan states) 0 0 _ _ := .start
  have hcond := (hstart.operation rfl trivial (.storageLive 0 _)).operation rfl trivial
    (hfill _ 0 (by decide))
  have hlive := hcond.operation rfl trivial (.storageLive 1 _)
  have hbranch := hlive.edge rfl mem_cons_self (hkept _ _ _ _ 1)
  have hinit := hbranch.operation rfl trivial (hfill _ 1 (by decide))
  exact ⟨_, hinit.edge rfl mem_cons_self (hkept _ _ _ _ 3)⟩

/-- The value is dropped once. -/
theorem dropsExactly_filled : ∃ flags, filled.DropsExactly flags
    ((compute conditionalPlan states).obligationsAt 3 0) 1 := by
  obtain ⟨flags, hrun⟩ := run
  exact ⟨flags, dropsExactly_of_keepsFlags accepted hrun rfl⟩

end ConditionalStorage

/-! The payload of a matched variant is moved out field by field on two branches. Nothing sets
the flags of the fields when the match tells the variant, and the field that stays is leaked. -/

namespace SplitPayload

def splitPlan : CleanupPlan where
  rootScope := 0
  entry := 0
  scopes := [{ id := 0, parent := none, kind := .root, locals := [0, 1] }]
  locals := [
    { id := 0, sourceLocal := none, debugName := none, scope := 0, kind := .user
      ownership := .owned, isMutable := false, declarationOrder := 0 },
    { id := 1, sourceLocal := none, debugName := none, scope := 0, kind := .user
      ownership := .owned, isMutable := false, declarationOrder := 1 }]
  movePaths := [
    { id := 0, place := ⟨0, []⟩, parent := none, needsDrop := true },
    { id := 1, place := ⟨0, [.downcast 0]⟩, parent := some 0, needsDrop := true },
    { id := 2, place := ⟨0, [.downcast 0, .field 0]⟩, parent := some 1, needsDrop := true },
    { id := 3, place := ⟨0, [.downcast 0, .field 1]⟩, parent := some 1, needsDrop := true },
    { id := 4, place := ⟨0, [.downcast 1]⟩, parent := some 0, needsDrop := false },
    { id := 5, place := ⟨1, []⟩, parent := none, needsDrop := false }]
  blocks := [
    { id := 0, scope := 0
      operations := [.storageLive 0, .storageLive 1, .init 0, .init 5, .assumeDiscriminant 0 0]
      terminator := some (.branch 1 ⟨1, []⟩ ⟨2, []⟩) },
    { id := 1, scope := 0, operations := [.moveOut 2], terminator := some (.goto ⟨3, []⟩) },
    { id := 2, scope := 0, operations := [.moveOut 3], terminator := some (.goto ⟨3, []⟩) },
    { id := 3, scope := 0, operations := [.storageDead 0, .storageDead 1]
      terminator := some (.return []) }]

def states : BasicBlockId → MoveState splitPlan :=
  (MoveStateAnalysis.compute splitPlan 4).getD fun _ => .new false

theorem accepted : splitPlan.Accepted states := CleanupPlan.accepted_entryStates (by decide)

theorem condition_leaf : 5 < splitPlan.movePaths.length ∧ splitPlan.completion 5 = .explicit := by
  decide

def live : Storage splitPlan := ((Storage.start splitPlan).startStorage 0).startStorage 1

/-- The first variant, with both fields. -/
def initialized : Storage splitPlan where
  live := {1, 0}
  init := {2, 3}
  variant path := if path = 0 then some 0 else none
  init_explicit := by decide
  variant_enum := by
    intro path hsome
    split_ifs at hsome with hroot
    · subst hroot
      decide
    · exact absurd hsome (by simp)

theorem second_empty : initialized.Empty 4 := by
  have hparts : ∀ part < 6, splitPlan.Below 4 part →
      part ∉ initialized.init ∧ initialized.variant part = none := by decide
  exact hparts

theorem completed : Storage.Completed 0 live initialized where
  live := by decide
  outside other hout := by
    have hbelow : ∀ other < 5, splitPlan.Below 0 other := by decide
    rcases Nat.lt_trichotomy other 5 with hlt | rfl | hgt
    · exact absurd (hbelow other hlt) hout
    · exact ⟨by decide, rfl⟩
    · obtain ⟨more, rfl⟩ := Nat.exists_eq_add_of_le' hgt
      exact absurd ⟨rfl, nil_prefix⟩ hout
  full := by
    have hchild : (0, 1) ∈ splitPlan.variantChildren 0 := by decide
    refine .enumRoot (by decide) rfl hchild (.allChildren (by decide) fun child hchild => ?_)
    have hfields : ∀ child ∈ splitPlan.children 1, child ∈ initialized.init := by decide
    have hfield := hfields child hchild
    exact .explicit (initialized.init_explicit child hfield).2 hfield
  kept other variant _ hvar := by
    simp [live, startStorage, clearLocal, erase, Storage.start] at hvar
  consistent other _ child hchild variant hdown hne := by
    have hparent := accepted.checks.1.mem_children.mp hchild
    have hlt : child < 6 := CleanupPlan.PathsValid.lt_of_parent hparent
    have hcases : ∀ child < 6, child = 1 ∨ child = 4 ∨ splitPlan.downcastVariant child = none := by
      decide
    rcases hcases child hlt with rfl | rfl | hnone
    · obtain rfl : 0 = other := Option.some.inj hparent
      obtain rfl : 0 = variant := Option.some.inj hdown
      exact absurd rfl hne
    · exact second_empty
    · exact absurd (hdown.symm.trans hnone) (by simp)

/-- The storage at the join, when the first field was moved out. -/
def joined : Storage splitPlan := (initialized.withLeaf 5 condition_leaf).clearPath 2

theorem run : ∃ flags, 3 ∉ joined.droppedAll flags ((compute splitPlan states).obligationsAt 3 0) ∧
      FlagRun splitPlan states (fun _ _ _ _ _ => True) 3 0 joined flags := by
  have hvalid := accepted.checks.1
  have hstart : FlagRun splitPlan states (fun _ _ _ _ _ => True) 0 0 _ _ := .start
  have hlive := (hstart.operation rfl trivial (.storageLive 0 _)).operation rfl trivial
    (.storageLive 1 _)
  have hinit := (hlive.operation rfl trivial (.init completed)).operation rfl trivial
    (.init (Storage.completed_withLeaf hvalid _ condition_leaf))
  have hmatch := hinit.operation rfl trivial (.assumeDiscriminant rfl)
  have hbranch := hmatch.edge rfl mem_cons_self trivial
  have hmove := hbranch.operation rfl trivial (.moveOut 2 _)
  exact ⟨_, by decide, hmove.edge rfl mem_cons_self trivial⟩

/-- The second field holds a value at the end of the storage, but is not dropped. -/
theorem not_dropsExactly_joined : splitPlan.Accepted states ∧
    (splitPlan.blockOperations 3)[0]? = some (.storageDead 0) ∧
    ∃ flags, FlagRun splitPlan states (fun _ _ _ _ _ => True) 3 0 joined flags ∧
      ¬ joined.DropsExactly flags
        ((compute splitPlan states).obligationsAt 3 0) 0 := by
  obtain ⟨flags, hleaked, hrun⟩ := run
  refine ⟨accepted, rfl, flags, hrun, fun hexact => ?_⟩
  have howed : joined.OwedDrop 0 3 := ⟨rfl, rfl, by decide⟩
  exact hleaked ((hexact.2 3).mpr howed)

end SplitPayload

end Salicin.Cleanup
