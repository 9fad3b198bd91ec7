import Salicin.Cleanup.Topology

/-!
# Structural verification of cleanup plans

The checks that a plan passes before its move states are analyzed: scopes form a tree, locals
belong to one scope each, move paths form a forest below the owned locals, and operations and
edges refer to what exists and is visible. Each check lists the errors it finds.
-/

namespace Salicin.Cleanup

open List

structure VerifyError where
  message : String

/-- An error unless the condition holds. -/
def require (condition : Prop) [Decidable condition] (message : String) : List VerifyError :=
  if condition then [] else [⟨message⟩]

@[simp]
theorem require_eq_nil {condition : Prop} [Decidable condition] {msg : String} :
    require condition msg = [] ↔ condition := by
  rw [require]
  split_ifs with hcond
  · exact iff_of_true rfl hcond
  · exact iff_of_false (by simp) hcond

/-! ## How errors print identities -/

namespace Debug

def scope (id : ScopeId) : String := s!"ScopeId({id})"

def localId (id : LocalId) : String := s!"LocalId({id})"

def path (id : MovePathId) : String := s!"MovePathId({id})"

def block (id : BasicBlockId) : String := s!"BasicBlockId({id})"

def list {α : Type*} (item : α → String) (items : List α) : String :=
  "[" ++ ", ".intercalate (items.map item) ++ "]"

def option {α : Type*} (item : α → String) : Option α → String
  | some value => "Some(" ++ item value ++ ")"
  | none => "None"

def projection : Projection → String
  | .deref => "Deref"
  | .field i => s!"Field({i})"
  | .tupleIndex i => s!"TupleIndex({i})"
  | .constantIndex i => s!"ConstantIndex({i})"
  | .index id => "Index(" ++ localId id ++ ")"
  | .downcast variant => s!"Downcast({variant})"
  | .capture i => s!"Capture({i})"

def place (place : Place) : String :=
  "Place \x7b local: " ++ localId place.localId ++ ", projections: " ++
    list projection place.projections ++ " \x7d"

def ownership : LocalOwnership → String
  | .owned => "Owned"
  | .sharedBorrow => "SharedBorrow"
  | .mutableBorrow => "MutableBorrow"

end Debug

namespace CleanupPlan

variable (plan : CleanupPlan)

/-! ## Scopes -/

/-- The walk up the parents of a scope, until a scope is met again. Every step but the last
meets a new scope of the plan, which bounds its length. -/
def parentCycle : Nat → List ScopeId → Option ScopeId → Option ScopeId
  | 0, _, _ => none
  | bound + 1, seen, cursor =>
    match cursor with
    | none => none
    | some id =>
      match plan.scopes[id]? with
      | none => none
      | some data => if id ∈ seen then some id else parentCycle bound (id :: seen) data.parent

def verifyScope (scope : ScopeData) : List VerifyError :=
  (if scope.id ≠ plan.rootScope then
    require (scope.kind ≠ .root) s!"non-root scope {Debug.scope scope.id} has \x60Root\x60 kind" ++
      match scope.parent with
      | some parent =>
        require (plan.scopes[parent]?.isSome)
          s!"scope {Debug.scope scope.id} has invalid parent {Debug.scope parent}"
      | none => [⟨s!"non-root scope {Debug.scope scope.id} has no parent"⟩]
  else []) ++
    match plan.parentCycle (plan.scopes.length + 1) [] (some scope.id) with
    | some id => [⟨s!"scope parent cycle reaches {Debug.scope id} from {Debug.scope scope.id}"⟩]
    | none => []

def verifyScopes : List VerifyError :=
  (plan.scopes.zipIdx.flatMap fun (scope, i) =>
    require (scope.id = i)
      s!"scope id/index mismatch: slot {i} contains {Debug.scope scope.id}") ++
    match plan.scopes[plan.rootScope]? with
    | none => [⟨s!"root scope {Debug.scope plan.rootScope} does not exist"⟩]
    | some root =>
      require (root.id = plan.rootScope) "root scope id does not match its slot" ++
      require (root.parent = none) "root scope must not have a parent" ++
      require (root.kind = .root) "root scope must have \x60Root\x60 kind" ++
      plan.scopes.flatMap plan.verifyScope

/-- The walk of `is_ancestor`; a repeated scope ends it, as does an unknown one. -/
def isAncestorFrom (ancestor : ScopeId) : Nat → List ScopeId → Option ScopeId → Bool
  | 0, _, _ => false
  | bound + 1, visited, cursor =>
    match cursor with
    | none => false
    | some scope =>
      if scope = ancestor then true
      else if scope ∈ visited then false
      else isAncestorFrom ancestor bound (scope :: visited)
        ((plan.scopes[scope]?).bind fun data => data.parent)

def isAncestor (ancestor descendant : ScopeId) : Bool :=
  plan.isAncestorFrom ancestor (plan.scopes.length + 2) [] (some descendant)

/-- The walk of `return_exit_chain`. -/
def returnExitChainFrom : Nat → List ScopeId → ScopeId → Option (List ScopeId)
  | 0, _, _ => none
  | bound + 1, visited, cursor =>
    if cursor = plan.rootScope then some []
    else if cursor ∈ visited then none
    else do
      let data ← plan.scopes[cursor]?
      let parent ← data.parent
      let rest ← returnExitChainFrom bound (cursor :: visited) parent
      return cursor :: rest

def returnExitChain (source : ScopeId) : Option (List ScopeId) :=
  plan.returnExitChainFrom (plan.scopes.length + 2) [] source

/-! ## Locals -/

def verifyLocal (i : Nat) (decl : LocalDecl) : List VerifyError :=
  require (decl.id = i)
    s!"local id/index mismatch: slot {i} contains {Debug.localId decl.id}" ++
  require (plan.scopes[decl.scope]?.isSome)
    s!"local {Debug.localId decl.id} belongs to invalid scope {Debug.scope decl.scope}" ++
  (match decl.sourceLocal with
    | some sourceLocal =>
      require (some sourceLocal ∉ (plan.locals.take i).map (·.sourceLocal))
        s!"HIR local {sourceLocal} is mapped to more than one cleanup local" ++
      require (decl.debugName ≠ none) s!"HIR local {sourceLocal} has no cleanup debug name"
    | none => []) ++
  if decl.kind = .returnPlace then
    require (decl.ownership = .owned)
      s!"return place {Debug.localId decl.id} must use owned storage" ++
    require (decl.sourceLocal = none ∧ decl.debugName = none)
      s!"return place {Debug.localId decl.id} must be planner-generated storage"
  else []

/-- The entry of a scope's local list at a position. -/
def verifyScopeLocal (scope : ScopeData) (order : Nat) (localId : LocalId) : List VerifyError :=
  if localId ∈ scope.locals.take order then
    [⟨s!"scope {Debug.scope scope.id} lists local {Debug.localId localId} more than once"⟩]
  else
    match plan.locals[localId]? with
    | none => [⟨s!"scope {Debug.scope scope.id} lists invalid local {Debug.localId localId}"⟩]
    | some decl =>
      require (decl.id = localId ∧ decl.scope = scope.id)
        s!"scope/local ownership mismatch for {Debug.localId localId}" ++
      require (decl.declarationOrder = order)
        (s!"local {Debug.localId localId} has declaration order {decl.declarationOrder}, " ++
          s!"expected {order}")

def returnPlaces : Nat := plan.locals.countP fun decl => decl.kind = .returnPlace

def memberships (localId : LocalId) : Nat := plan.scopes.countP fun scope => localId ∈ scope.locals

def verifyLocals : List VerifyError :=
  (plan.locals.zipIdx.flatMap fun (decl, i) => plan.verifyLocal i decl) ++
  require (plan.returnPlaces ≤ 1)
    s!"cleanup plan has {plan.returnPlaces} return places, expected at most one" ++
  (plan.scopes.flatMap fun scope =>
    scope.locals.zipIdx.flatMap fun (localId, order) => plan.verifyScopeLocal scope order localId) ++
  (List.range plan.locals.length).flatMap fun localId =>
    require (plan.memberships localId = 1)
      (s!"local {Debug.localId localId} appears in {plan.memberships localId} scope local lists, " ++
        "expected exactly one")

/-! ## Move paths -/

def verifyPlace (place : Place) (pathId : MovePathId) : List VerifyError :=
  require (plan.locals[place.localId]?.isSome)
    (s!"move path {Debug.path pathId} refers to invalid place local " ++
      Debug.localId place.localId) ++
  place.projections.flatMap fun projection =>
    match projection with
    | .index indexLocal =>
      [⟨s!"move path {Debug.path pathId} uses unsupported dynamic Index projection"⟩] ++
      require (plan.locals[indexLocal]?.isSome)
        s!"move path {Debug.path pathId} uses invalid index local {Debug.localId indexLocal}"
    | _ => []

def verifyParent (path : MovePath) : List VerifyError :=
  match path.parent with
  | none =>
    require (path.place.projections = [])
      s!"projected move path {Debug.path path.id} has no parent"
  | some parentId =>
    match plan.movePaths[parentId]? with
    | none => [⟨s!"move path {Debug.path path.id} has invalid parent {Debug.path parentId}"⟩]
    | some parent =>
      if path.place.projections = [] then
        [⟨s!"root move path {Debug.path path.id} must not have a parent"⟩]
      else
        require (parent.place.localId = path.place.localId ∧
            parent.place.projections = path.place.projections.dropLast)
          (s!"move path parent {Debug.path parentId} is not the immediate place prefix of " ++
            Debug.path path.id) ++
        require (path.needsDrop → parent.needsDrop)
          (s!"drop-requiring move path {Debug.path path.id} has non-dropping parent " ++
            Debug.path parentId)

def verifyMovePath (i : Nat) (path : MovePath) : List VerifyError :=
  require (path.id = i)
    s!"move path id/index mismatch: slot {i} contains {Debug.path path.id}" ++
  require (path.place ∉ (plan.movePaths.take i).map (·.place))
    s!"move path {Debug.path path.id} duplicates place {Debug.place path.place}" ++
  plan.verifyPlace path.place path.id ++
  require (∀ decl ∈ plan.locals[path.place.localId]?, decl.ownership = .owned)
    (s!"move path {Debug.path path.id} is rooted in borrow alias " ++
      Debug.localId path.place.localId) ++
  plan.verifyParent path

/-- The number of root move paths of a local. -/
def rootCount (localId : LocalId) : Nat :=
  plan.movePaths.countP fun path =>
    path.parent = none ∧ path.place.projections = [] ∧ path.place.localId = localId

def verifyRoots (i : LocalId) (decl : LocalDecl) : List VerifyError :=
  let expected := if decl.ownership = .owned then 1 else 0
  require (plan.rootCount i = expected)
    (s!"local {Debug.localId decl.id} has {plan.rootCount i} root move paths, " ++
      s!"expected {expected} for {Debug.ownership decl.ownership} storage")

/-- The paths that name the given one as their parent, in the order of the table. -/
def childIds (i : MovePathId) : List MovePathId :=
  (plan.movePaths.filter fun path => path.parent = some i).map (·.id)

def isCapture (path : MovePathId) : Bool :=
  match plan.lastProjection path with
  | some (.capture _) => true
  | _ => false

def verifyChildren (i : MovePathId) : List VerifyError :=
  let downcasts := (plan.childIds i).countP fun child => (plan.downcastVariant child).isSome
  let captures := (plan.childIds i).countP plan.isCapture
  let variants := (plan.childIds i).filterMap plan.downcastVariant
  require (downcasts = 0 ∨ downcasts = (plan.childIds i).length)
    s!"move path {Debug.path i} mixes enum downcast and aggregate children" ++
  require (captures = 0 ∨ captures = (plan.childIds i).length)
    s!"move path {Debug.path i} mixes callable-capture and aggregate children" ++
  variants.zipIdx.flatMap fun (variant, position) =>
    require (variant ∉ variants.take position)
      s!"enum move path {Debug.path i} has duplicate downcast variant {variant}"

def verifyMovePaths : List VerifyError :=
  (plan.movePaths.zipIdx.flatMap fun (path, i) => plan.verifyMovePath i path) ++
  (plan.locals.zipIdx.flatMap fun (decl, i) => plan.verifyRoots i decl) ++
  (List.range plan.movePaths.length).flatMap plan.verifyChildren

/-! ## Blocks -/

def verifyOperationLocal (block : BasicBlockId) (localId : LocalId) (operation : String)
    (requiresOwned : Bool) : List VerifyError :=
  match plan.locals[localId]? with
  | none =>
    [⟨s!"{operation} in {Debug.block block} refers to invalid local {Debug.localId localId}"⟩]
  | some decl =>
    require (requiresOwned → decl.ownership = .owned)
      (s!"{operation} in {Debug.block block} is an owned cleanup operation on borrow alias " ++
        Debug.localId localId) ++
    match plan.blocks[block]? with
    | none => []
    | some data =>
      require (if operation = "StorageLive" then decl.scope = data.scope
          else plan.isAncestor decl.scope data.scope)
        (s!"{operation} in {Debug.block block} refers to local {Debug.localId localId} " ++
          "outside its visible scope")

def verifyOperationPath (block : BasicBlockId) (pathId : MovePathId) (operation : String)
    (requiresOwned : Bool) : List VerifyError :=
  match plan.movePaths[pathId]? with
  | none =>
    [⟨s!"{operation} in {Debug.block block} refers to invalid move path {Debug.path pathId}"⟩]
  | some path =>
    match plan.locals[path.place.localId]? with
    | none =>
      [⟨s!"{operation} in {Debug.block block} has a place with invalid local " ++
        Debug.localId path.place.localId⟩]
    | some decl =>
      require (requiresOwned → decl.ownership = .owned)
        (s!"{operation} in {Debug.block block} is an owned cleanup operation on borrow " ++
          s!"alias {Debug.localId decl.id}") ++
      match plan.blocks[block]? with
      | none => []
      | some data =>
        require (plan.isAncestor decl.scope data.scope)
          (s!"{operation} in {Debug.block block} refers to move path " ++
            s!"{Debug.path pathId} outside its visible scope")

def verifyOperation (block : BasicBlockId) : CleanupOp → List VerifyError
  | .storageLive localId => plan.verifyOperationLocal block localId "StorageLive" false
  | .storageDead localId => plan.verifyOperationLocal block localId "StorageDead" true
  | .init path => plan.verifyOperationPath block path "Init" true
  | .moveOut path => plan.verifyOperationPath block path "MoveOut" true
  | .overwrite path => plan.verifyOperationPath block path "Overwrite" true
  | .transfer source destination _ =>
    plan.verifyOperationPath block source "Transfer source" true ++
    plan.verifyOperationPath block destination "Transfer destination" true ++
    if source = destination then
      [⟨s!"Transfer in {Debug.block block} must use distinct source and destination paths"⟩]
    else if (plan.movePaths[source]?).isSome ∧ (plan.movePaths[destination]?).isSome then
      require (¬ (plan.Below source destination ∨ plan.Below destination source))
        s!"Transfer in {Debug.block block} has overlapping source and destination paths"
    else []
  | .setDiscriminant destination _ =>
    plan.verifyOperationPath block destination "SetDiscriminant" true
  | .assumeDiscriminant source _ =>
    plan.verifyOperationPath block source "AssumeDiscriminant" true

/-- Where an edge's chain of exited scopes ends, if it is contiguous. -/
def exitChainEnd : ScopeId → List ScopeId → Option ScopeId
  | cursor, [] => some cursor
  | cursor, exited :: rest =>
    if exited ≠ cursor ∨ cursor = plan.rootScope then none
    else do
      let data ← plan.scopes[cursor]?
      let parent ← data.parent
      exitChainEnd parent rest

def verifyEdge (source : BasicBlock) (edgeKind : String) (edge : CleanupEdge) : List VerifyError :=
  match plan.blocks[edge.target]? with
  | none =>
    [⟨s!"{edgeKind} edge from {Debug.block source.id} has invalid target " ++
      Debug.block edge.target⟩]
  | some target =>
    if ¬ (plan.scopes[source.scope]?).isSome ∨ ¬ (plan.scopes[target.scope]?).isSome then []
    else
      require (∃ cursor ∈ plan.exitChainEnd source.scope edge.exitedScopes,
          plan.isAncestor cursor target.scope)
        (s!"{edgeKind} edge from {Debug.block source.id} to {Debug.block target.id} has a " ++
          s!"non-contiguous scope exit chain {Debug.list Debug.scope edge.exitedScopes}")

def verifyTerminator (block : BasicBlock) : Terminator → List VerifyError
  | .goto edge => plan.verifyEdge block "goto" edge
  | .branch condition thenEdge elseEdge =>
    (match plan.locals[condition]? with
      | none =>
        [⟨s!"branch in {Debug.block block.id} uses invalid condition local " ++
          Debug.localId condition⟩]
      | some decl =>
        if ¬ plan.isAncestor decl.scope block.scope then
          [⟨s!"branch in {Debug.block block.id} uses condition local " ++
            s!"{Debug.localId condition} outside its visible scope"⟩]
        else
          require (decl.ownership = .owned)
            (s!"branch in {Debug.block block.id} requires owned condition storage, found " ++
              Debug.ownership decl.ownership)) ++
    plan.verifyEdge block "branch then" thenEdge ++
    plan.verifyEdge block "branch else" elseEdge
  | .return exitedScopes =>
    require (plan.returnExitChain block.scope = some exitedScopes)
      (s!"return in {Debug.block block.id} has exit chain " ++
        s!"{Debug.list Debug.scope exitedScopes}, expected " ++
        Debug.option (Debug.list Debug.scope) (plan.returnExitChain block.scope))
  | .abort => []
  | .unreachable => []

def verifyBlock (i : Nat) (block : BasicBlock) : List VerifyError :=
  require (block.id = i)
    s!"basic block id/index mismatch: slot {i} contains {Debug.block block.id}" ++
  require (plan.scopes[block.scope]?.isSome)
    s!"basic block {Debug.block block.id} belongs to invalid scope {Debug.scope block.scope}" ++
  block.operations.flatMap (plan.verifyOperation block.id) ++
  match block.terminator with
  | none => [⟨s!"basic block {Debug.block block.id} has no terminator"⟩]
  | some terminator => plan.verifyTerminator block terminator

def verifyBlocks : List VerifyError :=
  (match plan.blocks[plan.entry]? with
    | none => [⟨s!"entry block {Debug.block plan.entry} does not exist"⟩]
    | some entry =>
      require (entry.scope = plan.rootScope)
        "entry block must belong to the cleanup plan root scope") ++
  plan.blocks.zipIdx.flatMap fun (block, i) => plan.verifyBlock i block

def structuralErrors : List VerifyError :=
  plan.verifyScopes ++ plan.verifyLocals ++ plan.verifyMovePaths ++ plan.verifyBlocks

/-! ## Operations on the topology -/

def validVariant (path : MovePathId) (variant : Nat) : Bool :=
  (plan.enumVariants path).any fun variants => variants.any fun entry => entry.1 = variant

def verifyTopologyOperation (block : BasicBlockId) (i : Nat) : CleanupOp → List VerifyError
  | .setDiscriminant destination variant =>
    require (plan.validVariant destination variant)
      (s!"SetDiscriminant in {Debug.block block} at operation {i} uses variant {variant} " ++
        s!"on non-enum or incomplete enum path {Debug.path destination}")
  | .assumeDiscriminant source variant =>
    require (plan.validVariant source variant)
      (s!"AssumeDiscriminant in {Debug.block block} at operation {i} uses variant " ++
        s!"{variant} on non-enum or incomplete enum path {Debug.path source}")
  | .transfer source destination _ =>
    require (plan.transferShapesMatch source destination)
      (s!"Transfer in {Debug.block block} at operation {i} uses incompatible move-path " ++
        s!"subtrees between {Debug.path source} and {Debug.path destination}")
  | _ => []

def verifyTopologyOperations : List VerifyError :=
  plan.blocks.flatMap fun block =>
    block.operations.zipIdx.flatMap fun (operation, i) =>
      plan.verifyTopologyOperation block.id i operation

/-! ## What an accepted structure provides -/

section Accepted

variable {plan}

theorem forall_of_zipIdx_flatMap {α : Type*} {items : List α}
    {check : α × Nat → List VerifyError} (hacc : items.zipIdx.flatMap check = []) :
    ∀ (i : Nat) item, items[i]? = some item → check (item, i) = [] :=
  fun _ _ hitem => flatMap_eq_nil_iff.mp hacc _
    (mem_zipIdx_iff_getElem?.mpr hitem)

theorem nodup_of_take {α : Type*} {items : List α}
    (hfresh : ∀ (i : Nat) item, items[i]? = some item → item ∉ items.take i) :
    items.Nodup := by
  rw [nodup_iff_injective_get]
  intro first second hsame
  by_contra hne
  have hlater {low high : Fin items.length} (hlt : low.val < high.val)
      (hsame : items.get low = items.get high) : False := by
    refine hfresh high (items.get high) (by simp) ?_
    rw [← hsame, mem_take_iff_getElem]
    exact ⟨low, by omega, rfl⟩
  rcases Nat.lt_or_gt_of_ne fun heq => hne (Fin.ext heq) with hlt | hlt
  · exact hlater hlt hsame
  · exact hlater hlt hsame.symm

theorem pathsValid_of_verifyMovePaths (hacc : plan.verifyMovePaths = []) : plan.PathsValid := by
  rw [verifyMovePaths, append_eq_nil_iff, append_eq_nil_iff] at hacc
  obtain ⟨⟨hpaths, hroots⟩, hchildren⟩ := hacc
  have hpath := forall_of_zipIdx_flatMap hpaths
  have hroot := forall_of_zipIdx_flatMap hroots
  simp only [verifyMovePath, append_eq_nil_iff, require_eq_nil] at hpath
  have hentry {path : MovePath} (hmem : path ∈ plan.movePaths) :
      ∃ i : Nat, plan.movePaths[i]? = some path := mem_iff_getElem?.mp hmem
  refine { ids := ?_, placesNodup := ?_, localOwned := ?_, parentPlace := ?_, rootPlace := ?_
           rootExists := ?_, needsDropParent := ?_, downcastsUnmixed := ?_ }
  · refine ext_getElem? fun i => ?_
    rw [List.getElem?_map]
    cases hget : plan.movePaths[i]? with
    | none =>
      rw [List.getElem?_eq_none (by simpa using List.getElem?_eq_none_iff.mp hget)]
      rfl
    | some path =>
      rw [List.getElem?_range (List.getElem?_eq_some_iff.mp hget).1, Option.map_some,
        (hpath i path hget).1.1.1.1]
  · refine nodup_of_take fun i place hget => ?_
    rw [List.getElem?_map] at hget
    obtain ⟨path, hentry, rfl⟩ := Option.map_eq_some_iff.mp hget
    rw [← map_take]
    exact (hpath i path hentry).1.1.1.2
  · intro path hmem
    obtain ⟨i, hget⟩ := hentry hmem
    obtain ⟨⟨⟨-, hplace⟩, howned⟩, -⟩ := hpath i path hget
    rw [verifyPlace, append_eq_nil_iff, require_eq_nil] at hplace
    obtain ⟨decl, hdecl⟩ := Option.isSome_iff_exists.mp hplace.1
    exact ⟨decl, hdecl, howned decl hdecl⟩
  · intro path hmem parent hparent
    obtain ⟨i, hget⟩ := hentry hmem
    have hchecked := (hpath i path hget).2
    rw [verifyParent, hparent] at hchecked
    dsimp only at hchecked
    split at hchecked
    · exact absurd hchecked (by simp)
    · next data hdata =>
        split_ifs at hchecked with hnil
        rw [append_eq_nil_iff, require_eq_nil] at hchecked
        obtain ⟨⟨hlocal, hprojs⟩, -⟩ := hchecked
        refine ⟨data, hdata, hlocal, path.place.projections.getLast hnil, ?_⟩
        rw [hprojs, dropLast_append_getLast]
  · intro path hmem hparent
    obtain ⟨i, hget⟩ := hentry hmem
    have hchecked := (hpath i path hget).2
    rw [verifyParent, hparent] at hchecked
    exact require_eq_nil.mp hchecked
  · intro localId decl hdecl howned
    have hchecked : plan.verifyRoots localId decl = [] := hroot localId decl hdecl
    rw [verifyRoots, require_eq_nil, if_pos howned] at hchecked
    have hpos : 0 < plan.rootCount localId := by omega
    rw [rootCount] at hpos
    obtain ⟨path, hmem, hpath⟩ := countP_pos_iff.mp hpos
    obtain ⟨hparent, -, hlocal⟩ := of_decide_eq_true hpath
    exact ⟨path, hmem, hparent, hlocal⟩
  · intro path hmem parent data hparent hdata
    obtain ⟨i, hget⟩ := hentry hmem
    have hchecked := (hpath i path hget).2
    rw [verifyParent, hparent] at hchecked
    dsimp only at hchecked
    rw [hdata] at hchecked
    dsimp only at hchecked
    split_ifs at hchecked with hnil
    exact require_eq_nil.mp (append_eq_nil_iff.mp hchecked).2
  · intro path hsome child hchild
    have hsorted (other : MovePathId) : other ∈ plan.children path ↔ other ∈ plan.childIds path :=
      (perm_insertionSort _ _).mem_iff
    obtain ⟨first, hfst, hdown⟩ := hsome
    have hlt : plan.Has path := by
      obtain ⟨data, hdata, -⟩ := mem_map.mp ((hsorted first).mp hfst)
      obtain ⟨hmem, hparent⟩ := mem_filter.mp hdata
      obtain ⟨i, hget⟩ := hentry hmem
      have hchecked := (hpath i data hget).2
      rw [verifyParent, of_decide_eq_true hparent] at hchecked
      dsimp only at hchecked
      split at hchecked
      · exact absurd hchecked (by simp)
      · next hparent => exact (List.getElem?_eq_some_iff.mp hparent).1
    have hchecked := flatMap_eq_nil_iff.mp hchildren path (mem_range.mpr hlt)
    rw [verifyChildren] at hchecked
    dsimp only at hchecked
    rw [append_eq_nil_iff, append_eq_nil_iff, require_eq_nil] at hchecked
    obtain hnone | hall := hchecked.1.1
    · exact absurd hdown (countP_eq_zero.mp hnone first ((hsorted first).mp hfst))
    · exact countP_eq_length.mp hall child ((hsorted child).mp hchild)

/-- What the structure of an accepted plan gives for each operation. -/
def OperationValid (plan : CleanupPlan) : CleanupOp → Prop
  | .storageLive _ => True
  | .storageDead _ => True
  | .init path => path < plan.movePaths.length
  | .moveOut path => path < plan.movePaths.length
  | .overwrite path => path < plan.movePaths.length
  | .transfer source destination _ =>
    source < plan.movePaths.length ∧ destination < plan.movePaths.length ∧
      ¬ plan.Below source destination ∧ ¬ plan.Below destination source
  | .setDiscriminant destination _ => destination < plan.movePaths.length
  | .assumeDiscriminant source _ => source < plan.movePaths.length

theorem lt_of_verifyOperationPath {block : BasicBlockId} {path : MovePathId} {operation : String}
    {requiresOwned : Bool}
    (hacc : plan.verifyOperationPath block path operation requiresOwned = []) :
    path < plan.movePaths.length := by
  rw [verifyOperationPath] at hacc
  split at hacc
  · exact absurd hacc (by simp)
  · next hget => exact (List.getElem?_eq_some_iff.mp hget).1

theorem operationValid_of_verifyOperation {block : BasicBlockId} {operation : CleanupOp}
    (hacc : plan.verifyOperation block operation = []) : plan.OperationValid operation := by
  cases operation with
  | storageLive localId => exact trivial
  | storageDead localId => exact trivial
  | init path => exact lt_of_verifyOperationPath hacc
  | moveOut path => exact lt_of_verifyOperationPath hacc
  | overwrite path => exact lt_of_verifyOperationPath hacc
  | setDiscriminant dest variant => exact lt_of_verifyOperationPath hacc
  | assumeDiscriminant src variant => exact lt_of_verifyOperationPath hacc
  | transfer src dest kind =>
    rw [verifyOperation, append_eq_nil_iff, append_eq_nil_iff] at hacc
    obtain ⟨⟨hsrc, hdest⟩, hapart⟩ := hacc
    have hsrc := lt_of_verifyOperationPath hsrc
    have hdest := lt_of_verifyOperationPath hdest
    have hsome {path : MovePathId} (hlt : plan.Has path) :
        (plan.movePaths[path]?).isSome := by simpa using hlt
    split_ifs at hapart with hsame hget
    · rw [require_eq_nil, not_or] at hapart
      exact ⟨hsrc, hdest, hapart⟩
    · exact absurd ⟨hsome hsrc, hsome hdest⟩ hget

/-- What the structure of an accepted plan gives for each block. -/
structure BlocksValid (plan : CleanupPlan) : Prop where
  entry : ∃ block, plan.blocks[plan.entry]? = some block
  ids : ∀ (i : BasicBlockId) block, plan.blocks[i]? = some block → block.id = i
  operations : ∀ block ∈ plan.blocks, ∀ operation ∈ block.operations, plan.OperationValid operation
  terminator : ∀ block ∈ plan.blocks, ∃ terminator, block.terminator = some terminator ∧
    ∀ edge ∈ terminator.edges, ∃ target, plan.blocks[edge.target]? = some target

theorem target_of_verifyEdge {src : BasicBlock} {edgeKind : String} {edge : CleanupEdge}
    (hacc : plan.verifyEdge src edgeKind edge = []) :
    ∃ target, plan.blocks[edge.target]? = some target := by
  rw [verifyEdge] at hacc
  split at hacc
  · exact absurd hacc (by simp)
  · next target htgt => exact ⟨target, htgt⟩

theorem blocksValid_of_verifyBlocks (hacc : plan.verifyBlocks = []) : plan.BlocksValid := by
  rw [verifyBlocks, append_eq_nil_iff] at hacc
  obtain ⟨hentry, hblocks⟩ := hacc
  have hblock (i : Nat) (block : BasicBlock) (hget : plan.blocks[i]? = some block) :
      plan.verifyBlock i block = [] := forall_of_zipIdx_flatMap hblocks i block hget
  simp only [verifyBlock, append_eq_nil_iff, require_eq_nil] at hblock
  refine ⟨?_, fun i block hget => (hblock i block hget).1.1.1, ?_, ?_⟩
  · split at hentry
    · exact absurd hentry (by simp)
    · next block hget => exact ⟨block, hget⟩
  · intro block hmem operation hop
    obtain ⟨i, hget⟩ := mem_iff_getElem?.mp hmem
    exact operationValid_of_verifyOperation
      (flatMap_eq_nil_iff.mp (hblock i block hget).1.2 operation hop)
  · intro block hmem
    obtain ⟨i, hget⟩ := mem_iff_getElem?.mp hmem
    have hchecked := (hblock i block hget).2
    cases hterm : block.terminator with
    | none =>
      rw [hterm] at hchecked
      exact absurd hchecked (by simp)
    | some terminator =>
      rw [hterm] at hchecked
      refine ⟨terminator, rfl, fun edge hedge => ?_⟩
      cases terminator with
      | goto target =>
        obtain rfl := mem_singleton.mp hedge
        exact target_of_verifyEdge hchecked
      | branch cond thenEdge elseEdge =>
        dsimp only at hchecked
        rw [verifyTerminator, append_eq_nil_iff, append_eq_nil_iff] at hchecked
        rcases mem_cons.mp hedge with rfl | hedge
        · exact target_of_verifyEdge hchecked.1.2
        · obtain rfl := mem_singleton.mp hedge
          exact target_of_verifyEdge hchecked.2
      | «return» exitedScopes => exact absurd hedge not_mem_nil
      | abort => exact absurd hedge not_mem_nil
      | unreachable => exact absurd hedge not_mem_nil

end Accepted

end CleanupPlan

end Salicin.Cleanup
