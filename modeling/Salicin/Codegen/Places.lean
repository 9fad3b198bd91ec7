import Salicin.Codegen.Layout
import Salicin.Foundation.LocalAction
import Mathlib.Data.Finset.Basic

/-!
# Places and their leaf keys

A place is a local with a path of struct fields, tuple fields and constant array indices.
Ownership analysis records a move of a place as the set of its leaf keys: the place is
expanded through structs and arrays, and everything else counts as one leaf.
-/

/-!
## Flow states

Ownership analysis threads a flow state through lowering. It keeps the alternatives of
uninitialized leaf move paths apart until a use, so that joins preserve correlations between
branches, and widens them to a two-element summary once there are too many.
-/

namespace Salicin.Codegen

open List

/-- The numeric identity that lowering gives a local. -/
abbrev LocalId := Nat

/-- A place of a local, as the key of a move path. -/
structure PlaceKey where
  localId : LocalId
  projections : List Nat
  deriving DecidableEq

/-- The key of a part of the place. -/
def PlaceKey.extend (key : PlaceKey) (path : List Nat) : PlaceKey :=
  { key with projections := key.projections ++ path }

@[simp] theorem PlaceKey.extend_localId (key : PlaceKey) (path : List Nat) :
    (key.extend path).localId = key.localId := rfl

@[simp] theorem PlaceKey.extend_projections (key : PlaceKey) (path : List Nat) :
    (key.extend path).projections = key.projections ++ path := rfl

@[simp] theorem PlaceKey.extend_nil (key : PlaceKey) : key.extend [] = key := by
  simp [PlaceKey.extend]

/-- Extending by one index and then by a path extends by the longer path. -/
theorem PlaceKey.extend_singleton_extend (key : PlaceKey) (i : Nat) :
    (key.extend [i]).extend = fun rest => key.extend (i :: rest) := by
  funext rest
  simp [PlaceKey.extend]

inductive InitializationStatus
  | initialized
  | uninitialized
  | maybeUninitialized
  deriving DecidableEq

/-- Preserve exact branch correlations while they remain small. -/
def maxInitializationAlternatives : Nat := 64

/-- The locals of `normalize_uninitialized_alternatives`. -/
structure Normalization where
  unique : List (Finset PlaceKey)
  union : Finset PlaceKey
  widened : Bool

/-- The loop body of `normalize_uninitialized_alternatives`. -/
def Normalization.add (state : Normalization) (alternative : Finset PlaceKey) : Normalization :=
  let union := state.union ∪ alternative
  if state.widened ∨ alternative ∈ state.unique then
    { state with union }
  else
    let unique := state.unique ++ [alternative]
    if maxInitializationAlternatives < unique.length then
      { unique := [], union, widened := true }
    else
      { unique, union, widened := false }

def normalizeUninitializedAlternatives (alternatives : List (Finset PlaceKey)) :
    List (Finset PlaceKey) :=
  let state := alternatives.foldl Normalization.add { unique := [], union := ∅, widened := false }
  if state.widened then
    if state.union = ∅ then [∅] else [∅, state.union]
  else
    state.unique

/-- The ownership part of a flow state. A reachable flow has at least one alternative. -/
structure FlowState where
  reachable : Bool
  /-- Exact alternatives of normalized, uninitialized leaf move paths. -/
  uninitialized : List (Finset PlaceKey)

namespace FlowState

/-- The flow at the entry of a function: everything declared is initialized. -/
def start : FlowState := { reachable := true, uninitialized := [∅] }

/-- The alternatives in which some of the leaves is unavailable. -/
def unavailable (flow : FlowState) (leaves : List PlaceKey) : List (Finset PlaceKey) :=
  flow.uninitialized.filter fun alternative => leaves.any (· ∈ alternative)

def initializationStatus (flow : FlowState) (leaves : List PlaceKey) : InitializationStatus :=
  if ¬ flow.reachable then
    .initialized
  else
    let unavailable := (flow.unavailable leaves).length
    if unavailable = 0 then .initialized
    else if unavailable = flow.uninitialized.length then .uninitialized
    else .maybeUninitialized

def normalizeUninitialized (flow : FlowState) : FlowState :=
  if ¬ flow.reachable then
    { flow with uninitialized := [] }
  else
    { flow with uninitialized := normalizeUninitializedAlternatives flow.uninitialized }

def join (flows : List FlowState) : FlowState :=
  match flows.filter (·.reachable) with
  | [] => { reachable := false, uninitialized := [] }
  | [only] => only
  | reachable =>
    { reachable := true
      uninitialized := normalizeUninitializedAlternatives (reachable.flatMap (·.uninitialized)) }

/-- What normalization establishes: few, distinct alternatives, and some when reachable. -/
structure Normalized (flow : FlowState) : Prop where
  distinct : flow.uninitialized.Nodup
  bounded : flow.uninitialized.length ≤ maxInitializationAlternatives
  inhabited : flow.reachable → flow.uninitialized ≠ []

theorem start_normalized : start.Normalized where
  distinct := by simp [start]
  bounded := by simp [start, maxInitializationAlternatives]
  inhabited := by simp [start]

end FlowState

theorem Normalization.foldl_add_of_nodup (alternatives : List (Finset PlaceKey))
    (state : Normalization) (hexact : state.widened = false)
    (hnodup : (state.unique ++ alternatives).Nodup)
    (hbound : (state.unique ++ alternatives).length ≤ maxInitializationAlternatives) :
    (alternatives.foldl Normalization.add state).widened = false ∧
      (alternatives.foldl Normalization.add state).unique = state.unique ++ alternatives := by
  induction alternatives generalizing state with
  | nil => simp [hexact]
  | cons head tail ih =>
    have hnew : head ∉ state.unique := by
      intro hmem
      exact disjoint_of_nodup_append hnodup hmem mem_cons_self
    have hroom : ¬ maxInitializationAlternatives < (state.unique ++ [head]).length := by
      simp only [length_append, length_cons, length_nil] at hbound ⊢
      omega
    have hstep : state.add head =
        { unique := state.unique ++ [head], union := state.union ∪ head, widened := false } := by
      simp only [Normalization.add, hexact, Bool.false_eq_true, hnew, or_self, if_false, hroom]
    rw [foldl_cons, hstep]
    have hassoc : state.unique ++ head :: tail = state.unique ++ [head] ++ tail := by simp
    rw [hassoc] at hnodup hbound ⊢
    exact ih _ rfl hnodup hbound

/-- Normalization leaves a short list of distinct alternatives alone. -/
theorem normalizeUninitializedAlternatives_of_nodup {alternatives : List (Finset PlaceKey)}
    (hnodup : alternatives.Nodup) (hbound : alternatives.length ≤ maxInitializationAlternatives) :
    normalizeUninitializedAlternatives alternatives = alternatives := by
  obtain ⟨hexact, hunique⟩ := Normalization.foldl_add_of_nodup alternatives
    { unique := [], union := ∅, widened := false } rfl hnodup hbound
  simp only [normalizeUninitializedAlternatives, hexact, hunique, nil_append,
    Bool.false_eq_true, if_false]

/-- What the normalization loop keeps: distinct alternatives, at most the bound. -/
def Normalization.Short (state : Normalization) : Prop :=
  state.unique.Nodup ∧ state.unique.length ≤ maxInitializationAlternatives

theorem Normalization.Short.add {state : Normalization} (hshort : state.Short)
    (alternative : Finset PlaceKey) : (state.add alternative).Short := by
  unfold Normalization.add
  split
  · exact hshort
  next hnew =>
    have hnodup : (state.unique ++ [alternative]).Nodup := by
      rw [← concat_eq_append]
      exact hshort.1.concat (not_or.mp hnew).2
    dsimp only
    split
    · exact ⟨nodup_nil, Nat.zero_le _⟩
    next hroom => exact ⟨hnodup, Nat.le_of_not_lt hroom⟩

theorem Normalization.Short.foldl_add {state : Normalization} (hshort : state.Short)
    (alternatives : List (Finset PlaceKey)) :
    (alternatives.foldl Normalization.add state).Short := by
  induction alternatives generalizing state with
  | nil => exact hshort
  | cons head tail ih => exact ih (hshort.add head)

theorem normalizeUninitializedAlternatives_nodup (alternatives : List (Finset PlaceKey)) :
    (normalizeUninitializedAlternatives alternatives).Nodup ∧
      (normalizeUninitializedAlternatives alternatives).length ≤
        maxInitializationAlternatives := by
  have hempty : Normalization.Short { unique := [], union := ∅, widened := false } :=
    ⟨nodup_nil, Nat.zero_le _⟩
  have hshort := hempty.foldl_add alternatives
  unfold normalizeUninitializedAlternatives
  dsimp only
  split
  · split
    · simp [maxInitializationAlternatives]
    next hunion => simp [maxInitializationAlternatives, Ne.symm hunion]
  · exact hshort

theorem FlowState.Normalized.normalizeUninitialized_eq {flow : FlowState}
    (hflow : flow.Normalized) (hreach : flow.reachable) : flow.normalizeUninitialized = flow := by
  rw [FlowState.normalizeUninitialized, if_neg (not_not.mpr hreach),
    normalizeUninitializedAlternatives_of_nodup hflow.distinct hflow.bounded]

end Salicin.Codegen

namespace Salicin.Codegen

open PrefixPath

/-- A place that lowering can build: its path is typed by the layouts. -/
structure HirPlace (layouts : Layouts) where
  localId : LocalId
  rootTy : Ty
  projections : List Nat
  ty : Ty
  typed : layouts.typeAt rootTy projections = some ty

namespace HirPlace

variable {layouts : Layouts}

/-- `PlaceKey::from`. -/
def key (place : HirPlace layouts) : PlaceKey :=
  { localId := place.localId, projections := place.projections }

@[simp] theorem key_localId (place : HirPlace layouts) : place.key.localId = place.localId := rfl

@[simp] theorem key_projections (place : HirPlace layouts) :
    place.key.projections = place.projections := rfl

/-- The whole local that the place is a part of. -/
def root (place : HirPlace layouts) : HirPlace layouts where
  localId := place.localId
  rootTy := place.rootTy
  projections := []
  ty := place.rootTy
  typed := rfl

end HirPlace

/-- Expand a place into its leaf keys. A struct that is already being expanded is a leaf;
so is everything that is neither a struct nor an array. -/
def appendLeafKeys (layouts : Layouts) (key : PlaceKey) (ty : Ty) (visiting : Finset String) :
    List PlaceKey :=
  match ty with
  | .array element length =>
    if length = 0 then [key]
    else (List.range length).flatMap fun index =>
      appendLeafKeys layouts (key.extend [index]) element visiting
  | .struct name =>
    if name ∈ visiting then [key]
    else
      match _hlayout : layouts.structLayout name with
      | none => [key]
      | some layout =>
        if layout.fields.isEmpty then [key]
        else layout.fields.attach.zipIdx.flatMap fun (field, index) =>
          appendLeafKeys layouts (key.extend [index]) field.1.ty (insert name visiting)
  | _ => [key]
termination_by layouts.finite.wrap ty
decreasing_by
  · exact layouts.contains_array _ _
  · exact layouts.contains_struct _hlayout field.2

def placeLeafKeys {layouts : Layouts} (place : HirPlace layouts) : List PlaceKey :=
  appendLeafKeys layouts place.key place.ty ∅

namespace FlowState

variable {layouts : Layouts}

def markMoved (flow : FlowState) (place : HirPlace layouts) : FlowState :=
  if ¬ flow.reachable then flow
  else
    let leaves := (placeLeafKeys place).toFinset
    { flow with uninitialized := flow.uninitialized.map (· ∪ leaves) }.normalizeUninitialized

end FlowState

/-- How an assignment treats the old value of its place. -/
inductive AssignmentKind
  | initializing
  | overwrite
  | maybeOverwrite
  deriving DecidableEq

namespace FlowState

variable {layouts : Layouts}

/-- The `(saw_overwrite, saw_initialize, saw_partial)` scan of `mark_initialized`. -/
def assignmentKind (flow : FlowState) (leaves : List PlaceKey) : AssignmentKind :=
  let unavailable := flow.uninitialized.map fun alternative =>
    (leaves.filter (· ∈ alternative)).length
  let sawOverwrite := unavailable.any (· = 0)
  let sawInitialize := unavailable.any fun count => count ≠ 0 ∧ count = leaves.length
  let sawPartial := unavailable.any fun count => count ≠ 0 ∧ count ≠ leaves.length
  match sawOverwrite, sawInitialize, sawPartial with
  | true, false, false => .overwrite
  | false, true, false => .initializing
  | _, _, _ => .maybeOverwrite

def markInitialized (flow : FlowState) (place : HirPlace layouts) : AssignmentKind × FlowState :=
  if ¬ flow.reachable then (.overwrite, flow)
  else
    let leaves := placeLeafKeys place
    (flow.assignmentKind leaves,
      { flow with
        uninitialized := flow.uninitialized.map (· \ leaves.toFinset) }.normalizeUninitialized)

/-- The status `ensure_available` decides on. -/
def placeStatus (flow : FlowState) (place : HirPlace layouts) : InitializationStatus :=
  flow.initializationStatus (placeLeafKeys place)

end FlowState

end Salicin.Codegen
