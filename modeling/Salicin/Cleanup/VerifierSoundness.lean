import Salicin.Cleanup.Analysis
import Salicin.Cleanup.OperationSoundness

/-!
# Accepted plans are safe

Every execution of an accepted plan, along any path of its graph, meets each operation and
terminator with the storage that it needs: moved, transferred and overwritten values are
complete, initialized destinations are empty, projections go through selected variants only,
and only live storage is touched.
-/

namespace Salicin.Cleanup

open List Finset Option MoveStateAnalysis MoveState Storage

open CleanupPlan.PathsValid (below_refl below_trans lt_of_parent)

variable {plan : CleanupPlan}

/-! ## Executions -/

namespace Storage

def exitScopes (storage : Storage plan) (scopes : List ScopeId) : Storage plan :=
  scopes.foldl (fun storage scope => (plan.scopeLocals scope).foldl endStorage storage) storage

end Storage

/-- The storage with which some execution reaches a position of a block: from the entry of the
plan, through the operations of each block, along the edges of the graph. -/
inductive Reached (plan : CleanupPlan) : BasicBlockId → Nat → Storage plan → Prop
  | start : Reached plan plan.entry 0 (.start plan)
  | operation {block : BasicBlockId} {index : Nat} {before after : Storage plan}
      {operation : CleanupOp} (hreached : Reached plan block index before)
      (hop : (plan.blockOperations block)[index]? = some operation)
      (hstep : Storage.Step operation before after) : Reached plan block (index + 1) after
  | edge {block : BasicBlockId} {storage : Storage plan} {terminator : Terminator}
      {edge : CleanupEdge}
      (hreached : Reached plan block (plan.blockOperations block).length storage)
      (hterm : plan.blockTerminator block = some terminator)
      (hedge : edge ∈ terminator.edges) :
      Reached plan edge.target 0 (storage.exitScopes edge.exitedScopes)

theorem Storage.proper_start : (Storage.start plan).Proper where
  consistent _ _ _ _ _ _ := fun part _ _ => ⟨notMem_empty part, rfl⟩
  deadEmpty path _ _ := ⟨notMem_empty path, rfl⟩

/-! ## Safety -/

namespace Storage

variable (storage : Storage plan)

/-- The path lies in live storage and in selected variants. -/
def Accessible (path : MovePathId) : Prop :=
  (plan.place path).localId ∈ storage.live ∧ storage.Active path

/-- What a transfer needs of its destination. -/
def TransferReady (destination : MovePathId) : TransferKind → Prop
  | .initializing => storage.Empty destination
  | .overwrite => storage.Full destination
  | .maybeOverwrite => True

/-- The storage is such that the operation does nothing wrong. -/
def SafeOperation : CleanupOp → Prop
  | .storageLive localId => localId ∉ storage.live
  -- storage that is not live is not touched
  | .storageDead localId => localId ∈ storage.live ∨ storage.endStorage localId = storage
  | .init path => storage.Accessible path
  | .moveOut path => storage.Accessible path ∧ storage.Full path
  | .overwrite path => storage.Accessible path ∧ storage.Full path
  | .transfer source destination kind =>
    storage.Accessible source ∧ storage.Accessible destination ∧ storage.Full source ∧
      storage.TransferReady destination kind
  | .setDiscriminant destination _ => storage.Accessible destination ∧ storage.Empty destination
  | .assumeDiscriminant source _ => storage.Accessible source ∧ storage.Full source

/-- The local is live and holds a complete value. -/
def Holds (localId : LocalId) : Prop :=
  localId ∈ storage.live ∧ ∃ root, plan.rootByLocal localId = some root ∧ storage.Full root

def SafeTerminator : Terminator → Prop
  | .branch condition _ _ => storage.Holds condition
  | .return _ => ∀ decl ∈ plan.locals, decl.kind = .returnPlace → storage.Holds decl.id
  | _ => True

end Storage

/-- What comes next at a position of a block does nothing wrong. -/
def SafeAt (block : BasicBlockId) (index : Nat) (storage : Storage plan) : Prop :=
  (∀ operation, (plan.blockOperations block)[index]? = some operation →
    storage.SafeOperation operation) ∧
  (index = (plan.blockOperations block).length → ∀ terminator,
    plan.blockTerminator block = some terminator → storage.SafeTerminator terminator)

/-! ## Joined states -/

variable {operation : CleanupOp}

namespace MoveState

/-- A state that knows no more than another, unless the other is not reachable. -/
structure WeakerThan (weak strong : MoveState plan) : Prop where
  reachable : weak.reachable
  mayLive : strong.mayLive ⊆ weak.mayLive
  mustLive : weak.mustLive ⊆ strong.mustLive
  mayInit : strong.mayInit ⊆ weak.mayInit
  mustInit : weak.mustInit ⊆ strong.mustInit
  mayBeUnset : ∀ slot, (strong.discriminants slot).mayBeUnset → (weak.discriminants slot).mayBeUnset
  possibleVariants : ∀ slot, (strong.discriminants slot).possibleVariants ⊆
    (weak.discriminants slot).possibleVariants

def Le (strong weak : MoveState plan) : Prop := strong.reachable → weak.WeakerThan strong

theorem WeakerThan.refl {state : MoveState plan} (hreach : state.reachable) :
    state.WeakerThan state :=
  ⟨hreach, fun _ => id, fun _ => id, fun _ => id, fun _ => id, fun _ => id, fun _ _ => id⟩

theorem WeakerThan.trans {first second third : MoveState plan} (hfst : second.WeakerThan first)
    (hsnd : third.WeakerThan second) : third.WeakerThan first where
  reachable := hsnd.reachable
  mayLive := hfst.mayLive.trans hsnd.mayLive
  mustLive := hsnd.mustLive.trans hfst.mustLive
  mayInit := hfst.mayInit.trans hsnd.mayInit
  mustInit := hsnd.mustInit.trans hfst.mustInit
  mayBeUnset slot hunset := hsnd.mayBeUnset slot (hfst.mayBeUnset slot hunset)
  possibleVariants slot := (hfst.possibleVariants slot).trans (hsnd.possibleVariants slot)

theorem joinFrom_weaker (state incoming : MoveState plan) :
    state.Le (state.joinFrom incoming).1 ∧ incoming.Le (state.joinFrom incoming).1 := by
  rw [joinFrom]
  split_ifs with hincoming hstate
  · refine ⟨fun _ => ⟨hstate, ?_, ?_, ?_, ?_, fun slot hunset => ?_, fun slot => ?_⟩,
      fun _ => ⟨hstate, ?_, ?_, ?_, ?_, fun slot hunset => ?_, fun slot => ?_⟩⟩
    · exact subset_union_left
    · exact inter_subset_left
    · exact subset_union_left
    · exact inter_subset_left
    · exact Bool.or_eq_true_iff.mpr (.inl hunset)
    · exact subset_union_left
    · exact subset_union_right
    · exact inter_subset_right
    · exact subset_union_right
    · exact inter_subset_right
    · exact Bool.or_eq_true_iff.mpr (.inr hunset)
    · exact subset_union_right
  · exact ⟨fun hreach => absurd hreach hstate, .refl⟩
  · exact ⟨.refl, fun hreach => absurd hreach hincoming⟩

theorem analysis_lawful (plan : CleanupPlan) :
    Worklist.Lawful (analysis plan) MoveState.Le where
  refl _ := .refl
  trans hfst hsnd hreach := (hfst hreach).trans (hsnd (hfst hreach).reachable)
  join_left state incoming := (joinFrom_weaker state incoming).1
  join_right state incoming := (joinFrom_weaker state incoming).2
  join_same state incoming hsame := by
    change (state.joinFrom incoming).2 = false at hsame
    change (state.joinFrom incoming).1 = state
    rw [joinFrom] at hsame ⊢
    split_ifs at hsame ⊢
    · simpa using hsame
    · rfl

theorem Describes.weaken {strong weak : MoveState plan} {storage : Storage plan}
    (hstrong : strong.Describes storage) (hweaker : weak.WeakerThan strong) :
    weak.Describes storage where
  reachable := hweaker.reachable
  mustLive localId hmem := hstrong.mustLive localId (hweaker.mustLive hmem)
  mayLive localId hmem := hweaker.mayLive (hstrong.mayLive localId hmem)
  paths path hpath := by
    have hold := hstrong.paths path hpath
    refine ⟨fun hmust => ?_, fun hfull => ?_, fun discriminant hmem => ?_⟩
    · exact hold.full (decide_eq_true (hweaker.mustInit (of_decide_eq_true hmust)))
    · exact decide_eq_true (hweaker.mayInit (of_decide_eq_true (hold.may hfull)))
    · obtain ⟨slot, hslot, rfl⟩ := map_eq_some_iff.mp hmem
      have hallows := hold.variant (strong.discriminants slot)
        (map_eq_some_iff.mpr ⟨slot, hslot, rfl⟩)
      cases hsel : storage.variant path with
      | none =>
        rw [hsel] at hallows
        exact hweaker.mayBeUnset slot hallows
      | some variant =>
        rw [hsel] at hallows
        exact hweaker.possibleVariants slot hallows

theorem describes_start (hvalid : plan.PathsValid) :
    (MoveState.new true : MoveState plan).Describes (.start plan) where
  reachable := rfl
  mustLive _ hmem := absurd hmem (notMem_empty _)
  mayLive _ hmem := absurd hmem (notMem_empty _)
  paths path hpath := by
    have hempty : (Storage.start plan).Empty path := fun part _ _ => ⟨notMem_empty part, rfl⟩
    refine ⟨fun hmust => ?_, fun hfull => absurd hempty (hfull.not_empty hvalid hpath),
      fun discriminant hmem => ?_⟩
    · have hmem : path ∈ (∅ : Finset MovePathId) := of_decide_eq_true hmust
      exact absurd hmem (notMem_empty path)
    obtain ⟨slot, -, rfl⟩ := map_eq_some_iff.mp hmem
    rfl

/-! ## Reading the checks -/

section Checks

variable {state : MoveState plan} {storage : Storage plan} {path : MovePathId}

theorem mem_mustInit_of_initialized (hstatus : state.pathInitialization path = .initialized) :
    path ∈ state.mustInit := by
  rw [pathInitialization] at hstatus
  split_ifs at hstatus with hmust
  exact hmust

theorem Describes.full (hstate : state.Describes storage) (hpath : plan.Has path)
    (hstatus : state.pathInitialization path = .initialized) : storage.Full path :=
  (hstate.paths path hpath).full (decide_eq_true (mem_mustInit_of_initialized hstatus))

theorem Describes.empty (hstate : state.Describes storage) (hvalid : plan.PathsValid)
    (hpath : plan.Has path)
    (hstatus : state.pathInitialization path = .uninitialized) : storage.Empty path := by
  rw [pathInitialization] at hstatus
  split_ifs at hstatus with _ hnone
  intro part hpart hbelow
  rw [List.any_eq_true, not_exists] at hnone
  have hpartial := hnone part
  rw [not_and, Bool.or_eq_true, not_or, decide_eq_true_iff] at hpartial
  obtain ⟨hmay, hdisc⟩ := hpartial ((hvalid.mem_subtree hpath).mpr ⟨hpart, hbelow⟩)
  have hold := hstate.paths part hpart
  constructor
  · intro hinit
    exact hmay (of_decide_eq_true (hold.may (.explicit (storage.init_explicit part hinit).2 hinit)))
  · by_contra hsome
    obtain ⟨variant, hvar⟩ := ne_none_iff_exists'.mp hsome
    obtain ⟨slot, hslot⟩ := isSome_iff_exists.mp
      (storage.variant_enum part (by rw [hvar]; rfl))
    have hknown : state.discriminant part = some (state.discriminants slot) := by
      rw [discriminant, hslot]
      rfl
    have hallows := hold.variant _ hknown
    rw [hvar] at hallows
    rw [hknown, any_some, Bool.or_eq_true, not_or, decide_eq_true_iff, decide_eq_true_iff,
      not_not] at hdisc
    have hmem : variant ∈ (state.discriminants slot).possibleVariants := hallows
    rw [not_not.mp hdisc.2] at hmem
    exact absurd hmem (notMem_empty variant)

theorem Describes.live (hstate : state.Describes storage) {localId : LocalId}
    (hlive : state.storageLiveness localId = .live) : localId ∈ storage.live := by
  rw [storageLiveness] at hlive
  split_ifs at hlive with hmust
  exact hstate.mustLive localId hmust

theorem Describes.dead (hstate : state.Describes storage) {localId : LocalId}
    (hdead : state.storageLiveness localId = .dead) : localId ∉ storage.live := by
  rw [storageLiveness] at hdead
  split_ifs at hdead with _ hmay
  exact fun hlive => hmay (hstate.mayLive localId hlive)

variable {block : BasicBlockId} {index : Nat} {role : String}

section
variable (hvalid : plan.PathsValid)
include hvalid

theorem knownActive_of_require (hpath : plan.Has path)
    (haccepted : state.requireActiveDowncasts block index path role = []) :
    state.KnownActive path := by
  rw [requireActiveDowncasts] at haccepted
  split at haccepted
  · next hnone => exact knownActive_of_inactiveDowncast hvalid hpath hnone
  · exact absurd haccepted (by simp)

/-- The checks of an operation, for a state that describes the storage before it. -/
theorem Describes.safeOperation (hstate : state.Describes storage) (hproper : storage.Proper)
    (hop : plan.OperationValid operation)
    (haccepted : state.verifyOperation block index operation = []) :
    storage.SafeOperation operation := by
  have haccess {path : MovePathId} {role : String} (hpath : plan.Has path)
      (hlive : state.requireLive block index path role = [])
      (hactive : state.requireActiveDowncasts block index path role = []) :
      storage.Accessible path :=
    ⟨hstate.live (require_eq_nil.mp hlive),
      (knownActive_of_require hvalid hpath hactive).active hstate hvalid⟩
  cases operation with
  | storageLive localId => exact hstate.dead (require_eq_nil.mp haccepted)
  | storageDead localId =>
    by_cases hlive : localId ∈ storage.live
    · exact .inl hlive
    · exact .inr (storage.endStorage_of_dead hproper hlive)
  | init path =>
    rw [verifyOperation, append_eq_nil_iff] at haccepted
    exact haccess hop haccepted.1 haccepted.2
  | moveOut path =>
    simp only [verifyOperation, append_eq_nil_iff, require_eq_nil] at haccepted
    obtain ⟨⟨hlive, hactive⟩, hstatus⟩ := haccepted
    exact ⟨haccess hop hlive hactive, hstate.full hop hstatus⟩
  | overwrite path =>
    simp only [verifyOperation, append_eq_nil_iff, require_eq_nil] at haccepted
    obtain ⟨⟨hlive, hactive⟩, hstatus⟩ := haccepted
    exact ⟨haccess hop hlive hactive, hstate.full hop hstatus⟩
  | transfer src dest kind =>
    simp only [verifyOperation, append_eq_nil_iff, require_eq_nil] at haccepted
    obtain ⟨⟨⟨⟨⟨hlive, hlive'⟩, hactive⟩, hactive'⟩, hstatus⟩, hready⟩ := haccepted
    obtain ⟨hsrc, hdest, -⟩ := hop
    refine ⟨haccess hsrc hlive hactive, haccess hdest hlive' hactive', hstate.full hsrc hstatus, ?_⟩
    cases kind with
    | initializing => exact hstate.empty hvalid hdest hready
    | overwrite => exact hstate.full hdest hready
    | maybeOverwrite => exact trivial
  | setDiscriminant dest variant =>
    simp only [verifyOperation, append_eq_nil_iff, require_eq_nil] at haccepted
    obtain ⟨⟨hlive, hactive⟩, hstatus⟩ := haccepted
    exact ⟨haccess hop hlive hactive, hstate.empty hvalid hop hstatus⟩
  | assumeDiscriminant src variant =>
    simp only [verifyOperation, append_eq_nil_iff, require_eq_nil] at haccepted
    obtain ⟨hlive, hstatus⟩ := haccepted
    have hfull := hstate.full hop hstatus
    -- a complete val is not empty, so no variant around it is unselected
    exact ⟨⟨hstate.live (require_eq_nil.mp hlive),
      active_of_not_empty hproper (hfull.not_empty hvalid hop)⟩, hfull⟩

/-- The variants around the paths that an operation changes are known. -/
def KnowsActive (state : MoveState plan) : CleanupOp → Prop
  | .init path => state.KnownActive path
  | .moveOut path => state.KnownActive path
  | .overwrite path => state.KnownActive path
  | .setDiscriminant destination _ => state.KnownActive destination
  | .transfer source destination _ => state.KnownActive source ∧ state.KnownActive destination
  | _ => True

theorem knowsActive_of_accepted (hop : plan.OperationValid operation)
    (haccepted : state.verifyOperation block index operation = []) :
    state.KnowsActive operation := by
  cases operation with
  | storageLive localId => exact trivial
  | storageDead localId => exact trivial
  | init path =>
    rw [verifyOperation, append_eq_nil_iff] at haccepted
    exact knownActive_of_require hvalid hop haccepted.2
  | moveOut path =>
    simp only [verifyOperation, append_eq_nil_iff] at haccepted
    exact knownActive_of_require hvalid hop haccepted.1.2
  | overwrite path =>
    simp only [verifyOperation, append_eq_nil_iff] at haccepted
    exact knownActive_of_require hvalid hop haccepted.1.2
  | transfer src dest kind =>
    simp only [verifyOperation, append_eq_nil_iff] at haccepted
    exact ⟨knownActive_of_require hvalid hop.1 haccepted.1.1.1.2,
      knownActive_of_require hvalid hop.2.1 haccepted.1.1.2⟩
  | setDiscriminant dest variant =>
    simp only [verifyOperation, append_eq_nil_iff] at haccepted
    exact knownActive_of_require hvalid hop haccepted.1.2
  | assumeDiscriminant src variant => exact trivial

/-- A checked operation keeps the description and the storage proper. -/
theorem Describes.step {before after : Storage plan} (hstate : state.Describes before)
    (hproper : before.Proper) (hop : plan.OperationValid operation)
    (haccepted : state.verifyOperation block index operation = [])
    (hstep : Storage.Step operation before after) :
    (state.applyOperation operation).Describes after ∧ after.Proper := by
  have hsafe := hstate.safeOperation hvalid hproper hop haccepted
  have hactive := knowsActive_of_accepted hvalid hop haccepted
  cases hstep with
  | storageLive localId =>
    exact ⟨hstate.startStorage hvalid localId, hproper.startStorage hvalid localId⟩
  | storageDead localId =>
    exact ⟨hstate.endStorage hvalid localId, hproper.endStorage hvalid localId⟩
  | @init path _ _ hdone =>
    exact ⟨hstate.initializePath hvalid hop hactive hdone,
      hproper.completed hvalid hop hsafe.2 hsafe.1 hdone⟩
  | moveOut path =>
    exact ⟨hstate.clearPath hvalid hop hactive, hproper.clearPath hvalid path⟩
  | @overwrite path _ _ hdone =>
    have hcleared := hstate.clearPath hvalid hop hactive
    have hactive' := KnownActive.clearPath hvalid hactive hop fun _ => rfl
    exact ⟨hcleared.initializePath hvalid hop hactive' hdone,
      (hproper.clearPath hvalid path).completed hvalid hop
        (hactive'.active hcleared hvalid) hsafe.1.1 hdone⟩
  | @transfer src dest kind _ _ hdone =>
    obtain ⟨hsrc, hdest, hapart, -⟩ := hop
    obtain ⟨hactive, hactive'⟩ := hactive
    refine ⟨hstate.transfer hvalid hsrc hdest hactive hactive' hapart hdone, ?_⟩
    have hmoved := hstate.clearPath hvalid hsrc hactive
    have hknown := hactive'.clearPath hvalid hsrc fun hbelow => absurd hbelow hapart
    have hcleared := hmoved.clearPath hvalid hdest hknown
    have hselectable := (hknown.clearPath hvalid hdest fun _ => rfl).active hcleared hvalid
    have hclear := (hproper.clearPath hvalid src).clearPath hvalid dest
    have hlive : (plan.place dest).localId ∈ before.live := hsafe.2.1.1
    have hsel := hclear.select hvalid (clearPath_empty _ _) hselectable hlive
      (before.variant src)
    refine hsel.completed hvalid hdest ?_ hlive hdone
    refine hselectable.congr fun enumRoot child hchild hbelow => select_of_ne _ ?_ _
    rintro rfl
    exact hvalid.not_below_child hchild hbelow
  | setDiscriminant dest variant =>
    have hcleared := hstate.clearPath hvalid hop hactive
    refine ⟨hstate.setDiscriminant hvalid hop hactive variant, ?_⟩
    have hactive' := KnownActive.clearPath hvalid hactive hop fun _ => rfl
    exact (hproper.clearPath hvalid dest).select hvalid
      (clearPath_empty _ _) (hactive'.active hcleared hvalid) hsafe.1.1 _
  | @assumeDiscriminant src variant _ hsel =>
    simp only [verifyOperation, append_eq_nil_iff, require_eq_nil] at haccepted
    exact ⟨hstate.assumeDiscriminant hvalid hproper hop
      (mem_mustInit_of_initialized haccepted.2) hsel, hproper⟩

/-- The checks of a terminator, for a state that describes the storage before it. -/
theorem Describes.safeTerminator (hstate : state.Describes storage) {terminator : Terminator}
    (haccepted : state.verifyTerminator block terminator = []) :
    storage.SafeTerminator terminator := by
  have hholds {localId : LocalId} {root : MovePathId} (hroot : plan.rootByLocal localId = some root)
      (hlive : state.storageLiveness localId = .live)
      (hstatus : state.pathInitialization root = .initialized) : storage.Holds localId :=
    ⟨hstate.live hlive, root, hroot, hstate.full (hvalid.rootByLocal_eq_some.mp hroot).1 hstatus⟩
  cases terminator with
  | goto edge => exact trivial
  | branch cond thenEdge elseEdge =>
    rw [verifyTerminator, verifyCondition, append_eq_nil_iff, require_eq_nil] at haccepted
    obtain ⟨hlive, hroot⟩ := haccepted
    split at hroot
    · next root heq => exact hholds heq hlive (require_eq_nil.mp hroot)
    · exact absurd hroot (by simp)
  | «return» exitedScopes =>
    intro decl hdecl hkind
    have hchecked := flatMap_eq_nil_iff.mp haccepted decl
      (mem_filter.mpr ⟨hdecl, decide_eq_true hkind⟩)
    rw [verifyReturnPlace, append_eq_nil_iff, require_eq_nil] at hchecked
    obtain ⟨hlive, hroot⟩ := hchecked
    split at hroot
    · next root heq => exact hholds heq hlive (require_eq_nil.mp hroot)
    · exact absurd hroot (by simp)
  | abort => exact trivial
  | unreachable => exact trivial

theorem Describes.exitScopes (hstate : state.Describes storage) (hproper : storage.Proper)
    (scopes : List ScopeId) : (state.exitScopes scopes).Describes (storage.exitScopes scopes) ∧
      (storage.exitScopes scopes).Proper := by
  have hlocals (locals : List LocalId) : ∀ {state : MoveState plan} {storage : Storage plan},
      state.Describes storage → storage.Proper →
        (locals.foldl MoveState.endStorage state).Describes (locals.foldl Storage.endStorage storage) ∧
          (locals.foldl Storage.endStorage storage).Proper := by
    induction locals with
    | nil => exact fun hstate hproper => ⟨hstate, hproper⟩
    | cons head rest ih =>
      exact fun hstate hproper =>
        ih (hstate.endStorage hvalid head) (hproper.endStorage hvalid head)
  induction scopes generalizing state storage with
  | nil => exact ⟨hstate, hproper⟩
  | cons head rest ih =>
    obtain ⟨hstate, hproper⟩ := hlocals (plan.scopeLocals head) hstate hproper
    exact ih hstate hproper

end

end Checks

end MoveState

/-! ## Accepted plans -/

namespace CleanupPlan

variable {entry : BasicBlockId → MoveState plan}

theorem Accepted.checks (haccepted : plan.Accepted entry) :
    plan.PathsValid ∧ plan.BlocksValid ∧ plan.verifyStableMoveState entry = [] ∧
      ∃ fuel, compute plan fuel = some entry := by
  obtain ⟨fuel, haccepted⟩ := haccepted
  rw [analyzeAndVerify] at haccepted
  split_ifs at haccepted with hstruct htopology
  · exact absurd haccepted (by simp)
  · exact absurd haccepted (by simp)
  · obtain ⟨computed, hcomputed, hres⟩ := map_eq_some_iff.mp haccepted
    split_ifs at hres with hstable
    · cases hres
      rw [not_not] at hstruct hstable
      rw [structuralErrors, append_eq_nil_iff, append_eq_nil_iff] at hstruct
      exact ⟨pathsValid_of_verifyMovePaths hstruct.1.2,
        blocksValid_of_verifyBlocks hstruct.2, hstable, fuel, hcomputed⟩

theorem Accepted.stable (haccepted : plan.Accepted entry) :
    (entry plan.entry).WeakerThan (.new true) ∧
      ∀ block, (entry block).reachable → ∀ terminator, plan.blockTerminator block = some terminator →
        ∀ edge ∈ terminator.edges,
          (((entry block).applyOperations (plan.blockOperations block)).exitScopes
            edge.exitedScopes).Le (entry edge.target) := by
  obtain ⟨-, -, -, fuel, hcomputed⟩ := haccepted.checks
  obtain ⟨tables, hrun, rfl⟩ := map_eq_some_iff.mp hcomputed
  have hstart : Worklist.Invariant (analysis plan) MoveState.Le
      (fun state => ¬ state.reachable) (MoveStateAnalysis.start plan) := by
    refine ⟨fun block hqueued => ?_, fun block hout => .inl ?_, fun block edge hedge => ?_⟩
    · by_contra hout
      have hne : block ≠ plan.entry := fun heq => hout (heq ▸ mem_cons_self)
      rw [MoveStateAnalysis.start] at hqueued
      dsimp only at hqueued
      rw [Function.update_of_ne hne] at hqueued
      exact Bool.false_ne_true hqueued
    · have hne : block ≠ plan.entry := fun heq => hout (heq ▸ mem_cons_self)
      rw [MoveStateAnalysis.start]
      dsimp only
      rw [Function.update_of_ne hne]
      exact Bool.false_ne_true
    · -- nothing has left a block yet
      intro hreach
      rw [analysis] at hedge
      dsimp only at hedge
      split at hedge
      · obtain ⟨data, -, rfl⟩ := mem_map.mp hedge
        rw [reachable_exitScopes] at hreach
        exact absurd hreach Bool.false_ne_true
      · exact absurd hedge not_mem_nil
  obtain ⟨hqueue, hinv, hgrown⟩ :=
    Worklist.run_invariant (MoveState.analysis_lawful plan) hstart hrun
  refine ⟨?_, fun block hreach terminator hterm edge hedge => ?_⟩
  · have hentry := hgrown plan.entry
    rw [MoveStateAnalysis.start] at hentry
    dsimp only at hentry
    rw [Function.update_self] at hentry
    exact hentry rfl
  · have harrives := hinv.arrives hqueue (not_not.mpr hreach)
    refine harrives (edge.target, _) ?_
    rw [analysis]
    dsimp only
    rw [hterm]
    exact mem_map.mpr ⟨edge, hedge, rfl⟩

theorem verifyOperation_of_verifyOperations {block : BasicBlockId} {ops : List CleanupOp}
    {start : Nat} {state : MoveState plan}
    (haccepted : verifyOperations block start state ops = []) {index : Nat}
    (hop : ops[index]? = some operation) :
    ((state.applyOperations (ops.take index)).verifyOperation block (start + index)
      operation) = [] := by
  induction ops generalizing start state index with
  | nil => exact absurd hop (by simp)
  | cons head rest ih =>
    rw [verifyOperations, append_eq_nil_iff, append_eq_nil_iff] at haccepted
    obtain ⟨⟨hhead, -⟩, hrest⟩ := haccepted
    cases index with
    | zero =>
      cases hop
      exact hhead
    | succ index =>
      have hlater := ih hrest hop
      rw [Nat.add_right_comm] at hlater
      exact hlater

/-- A checked block checks each of its operations, and its terminator. -/
theorem Accepted.block (haccepted : plan.Accepted entry) {block : BasicBlockId}
    (hreach : (entry block).reachable) {data : BasicBlock}
    (hdata : plan.blocks[block]? = some data) :
    plan.blockOperations block = data.operations ∧
      verifyOperations block 0 (entry block) data.operations = [] ∧
      ∀ terminator, plan.blockTerminator block = some terminator →
        ((entry block).applyOperations data.operations).verifyTerminator block terminator = [] := by
  obtain ⟨-, hblocks, hstable, -⟩ := haccepted.checks
  have hid := hblocks.ids block data hdata
  have hchecked := flatMap_eq_nil_iff.mp hstable data (mem_of_getElem? hdata)
  rw [verifyStableBlock] at hchecked
  rw [hid, if_neg (not_not.mpr hreach), append_eq_nil_iff] at hchecked
  refine ⟨by rw [blockOperations, hdata], hchecked.1, fun terminator hterm => ?_⟩
  rw [blockTerminator, hdata] at hterm
  have hterm : data.terminator = some terminator := hterm
  rw [hterm] at hchecked
  exact hchecked.2

/-- The move state of a position describes the storage of every execution there. -/
theorem Accepted.describes (haccepted : plan.Accepted entry) {block : BasicBlockId} {index : Nat}
    {storage : Storage plan} (hreached : Reached plan block index storage) :
    (∃ data, plan.blocks[block]? = some data) ∧
      ((entry block).applyOperations ((plan.blockOperations block).take index)).Describes storage ∧
        storage.Proper := by
  obtain ⟨hvalid, hblocks, -⟩ := haccepted.checks
  obtain ⟨hstart, hedges⟩ := haccepted.stable
  induction hreached with
  | start =>
    exact ⟨hblocks.entry, (MoveState.describes_start hvalid).weaken hstart, proper_start⟩
  | @operation block index before after operation _ hop hstep ih =>
    obtain ⟨⟨data, hdata⟩, hstate, hproper⟩ := ih
    have hreach := hstate.reachable
    rw [reachable_applyOperations] at hreach
    obtain ⟨hops, hchecked, -⟩ := haccepted.block hreach hdata
    rw [hops] at hop hstate ⊢
    have hoperationValid := hblocks.operations data (mem_of_getElem? hdata) operation
      (mem_of_getElem? hop)
    have hlater : (entry block).applyOperations (data.operations.take (index + 1)) =
        ((entry block).applyOperations (data.operations.take index)).applyOperation
          operation := by
      rw [take_add_one, hop]
      exact foldl_append
    rw [hlater]
    exact ⟨⟨data, hdata⟩, hstate.step hvalid hproper hoperationValid
      (verifyOperation_of_verifyOperations hchecked hop) hstep⟩
  | @edge block storage terminator edge _ hterm hedge ih =>
    obtain ⟨⟨data, hdata⟩, hstate, hproper⟩ := ih
    have hreach := hstate.reachable
    rw [reachable_applyOperations] at hreach
    rw [take_length] at hstate
    obtain ⟨hexit, hproper⟩ := hstate.exitScopes hvalid hproper edge.exitedScopes
    refine ⟨?_, hexit.weaken ?_, hproper⟩
    · obtain ⟨terminator', hterm', htargets⟩ :=
        hblocks.terminator data (mem_of_getElem? hdata)
      rw [blockTerminator, hdata] at hterm
      cases hterm'.symm.trans hterm
      exact htargets edge hedge
    · exact hedges block hreach terminator hterm edge hedge hexit.reachable

end CleanupPlan

/-- Whatever path an execution of an accepted plan takes, it meets every operation and every
terminator with the storage that it needs. -/
theorem safeAt_of_accepted {entry : BasicBlockId → MoveState plan}
    (haccepted : plan.Accepted entry) {block : BasicBlockId} {index : Nat} {storage : Storage plan}
    (hreached : Reached plan block index storage) : SafeAt block index storage := by
  obtain ⟨hvalid, hblocks, -⟩ := haccepted.checks
  obtain ⟨⟨data, hdata⟩, hstate, hproper⟩ := haccepted.describes hreached
  have hreach := hstate.reachable
  rw [reachable_applyOperations] at hreach
  obtain ⟨hops, hchecked, hterminators⟩ := haccepted.block hreach hdata
  rw [hops] at hstate
  constructor
  · intro operation hop
    rw [hops] at hop
    have hoperationValid := hblocks.operations data (mem_of_getElem? hdata) operation
      (mem_of_getElem? hop)
    exact hstate.safeOperation hvalid hproper hoperationValid
      (CleanupPlan.verifyOperation_of_verifyOperations hchecked hop)
  · intro hend terminator hterm
    rw [hops] at hend
    rw [hend, take_length] at hstate
    exact hstate.safeTerminator hvalid (hterminators terminator hterm)

/-! An enum with two variants is initialized, matched and moved out of. -/

namespace MatchedMove

def matchPlan : CleanupPlan where
  rootScope := 0
  entry := 0
  scopes := [{ id := 0, parent := none, kind := .root, locals := [0] }]
  locals := [
    { id := 0, sourceLocal := none, debugName := none, scope := 0, kind := .user
      ownership := .owned, isMutable := false, declarationOrder := 0 }]
  movePaths := [
    { id := 0, place := ⟨0, []⟩, parent := none, needsDrop := true },
    { id := 1, place := ⟨0, [.downcast 0]⟩, parent := some 0, needsDrop := false },
    { id := 2, place := ⟨0, [.downcast 1]⟩, parent := some 0, needsDrop := true }]
  blocks := [
    { id := 0, scope := 0
      operations := [.storageLive 0, .init 0, .assumeDiscriminant 0 1, .moveOut 2, .storageDead 0]
      terminator := some (.return []) }]

/-- The second variant, with its payload. -/
def initialized : Storage matchPlan where
  live := {0}
  init := {2}
  variant path := if path = 0 then some 1 else none
  init_explicit := by decide
  variant_enum := by
    intro path hsome
    split_ifs at hsome with hroot
    · subst hroot
      decide
    · exact absurd hsome (by simp)

theorem localId_eq (path : MovePathId) : (matchPlan.place path).localId = 0 := by
  match path with
  | 0 => rfl
  | 1 => rfl
  | 2 => rfl
  | _ + 3 => rfl

theorem below_root (path : MovePathId) : matchPlan.Below 0 path :=
  ⟨(localId_eq path).symm, nil_prefix⟩

theorem accepts : matchPlan.accepts 3 := by decide

theorem pathsValid : matchPlan.PathsValid := by
  obtain ⟨_, haccepted⟩ := CleanupPlan.exists_accepted accepts
  exact haccepted.checks.1

theorem first_empty : initialized.Empty 1 := by
  have hparts : ∀ part < 3, matchPlan.Below 1 part →
      part ∉ initialized.init ∧ initialized.variant part = none := by decide
  exact hparts

theorem completed :
    Storage.Completed 0 ((Storage.start matchPlan).startStorage 0) initialized where
  live := by decide
  outside other hout := absurd (below_root other) hout
  full := by
    have hchild : (1, 2) ∈ matchPlan.variantChildren 0 := by decide
    exact .enumRoot (by decide) rfl hchild (.explicit (by decide) (by decide))
  kept other variant _ hvar := by
    change (if (matchPlan.place other).localId = 0 then none else none) = some variant at hvar
    split_ifs at hvar
  consistent other _ child hchild variant hdown hne := by
    have hparent := pathsValid.mem_children.mp hchild
    have hlt : child < 3 := CleanupPlan.PathsValid.lt_of_parent hparent
    match child, hlt with
    | 0, _ => exact absurd hparent (by simp [CleanupPlan.parent, CleanupPlan.path, matchPlan])
    | 1, _ => exact first_empty
    | 2, _ =>
      obtain rfl : 0 = other := Option.some.inj hparent
      obtain rfl : 1 = variant := Option.some.inj hdown
      exact absurd rfl hne

theorem reached : Reached matchPlan 0 3 initialized :=
  ((Reached.start.operation rfl (.storageLive 0 _)).operation rfl (.init completed)).operation rfl
    (.assumeDiscriminant rfl)

/-- The payload is there when it is moved. -/
theorem safeAt_move : SafeAt 0 3 initialized := by
  obtain ⟨_, haccepted⟩ := CleanupPlan.exists_accepted accepts
  exact safeAt_of_accepted haccepted reached

end MatchedMove

end Salicin.Cleanup
