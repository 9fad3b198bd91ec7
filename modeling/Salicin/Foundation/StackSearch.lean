import Mathlib.Algebra.GroupWithZero.Nat
import Mathlib.Logic.Relation

/-!
# What a stack of pending nodes leads to

A search takes a node from a stack, and pushes its successors when it meets the node for the first
time. It ends, and it has then met exactly what can be reached from the nodes it started with.
-/

namespace StackSearch

open List

variable {Node Error : Type*} (successors : Node → Except Error (List Node))

/-- The stack has its top first. The last of the successors is pushed last. -/
def search [DecidableEq Node] : Nat → List Node → List Node → Option (Except Error (List Node))
  | _, [], reached => some (.ok reached)
  | 0, _ :: _, _ => none
  | fuel + 1, node :: pending, reached =>
    if node ∈ reached then search fuel pending reached
    else
      match successors node with
      | .error error => some (.error error)
      | .ok next => search fuel (next.reverse ++ pending) (node :: reached)

/-- The second node is a successor of the first one. -/
def Edge (node next : Node) : Prop := ∃ found, successors node = .ok found ∧ next ∈ found

def Reachable (start : List Node) (node : Node) : Prop :=
  ∃ first ∈ start, Relation.ReflTransGen (Edge successors) first node

/-! ## The search ends -/

def degree (node : Node) : Nat :=
  match successors node with
  | .ok next => next.length
  | .error _ => 0

/-- The room that the successors of the nodes that have not been met can still take. -/
def remaining [DecidableEq Node] (nodes reached : List Node) : Nat :=
  (nodes.map fun node => if node ∈ reached then 0 else degree successors node).sum

theorem remaining_le [DecidableEq Node] (nodes reached : List Node) (node : Node) :
    remaining successors nodes (node :: reached) ≤ remaining successors nodes reached := by
  induction nodes with
  | nil => exact Nat.le_refl _
  | cons first rest ih =>
    simp only [remaining, map_cons, sum_cons] at ih ⊢
    refine Nat.add_le_add ?_ ih
    by_cases hfst : first ∈ reached
    · rw [if_pos (mem_cons_of_mem _ hfst)]
      exact Nat.zero_le _
    · rw [if_neg hfst]
      split
      · exact Nat.zero_le _
      · exact Nat.le_refl _

variable {reached : List Node}

theorem remaining_cons [DecidableEq Node] {nodes : List Node} {node : Node} (hnode : node ∈ nodes)
    (hnew : node ∉ reached) :
    remaining successors nodes (node :: reached) + degree successors node ≤
      remaining successors nodes reached := by
  induction nodes with
  | nil => exact absurd hnode not_mem_nil
  | cons first rest ih =>
    have hrest := remaining_le successors rest reached node
    simp only [remaining, map_cons, sum_cons] at ih hrest ⊢
    by_cases hfst : first = node
    · subst hfst
      rw [if_pos mem_cons_self, if_neg hnew]
      omega
    · have hmem : node ∈ rest := (mem_cons.mp hnode).resolve_left fun h => hfst h.symm
      have hsame : (if first ∈ node :: reached then 0 else degree successors first) =
          if first ∈ reached then 0 else degree successors first := by
        simp [hfst]
      rw [hsame]
      have hle := ih hmem
      omega

/-- The nodes that have successors are among these. -/
def Covers (nodes : List Node) : Prop := ∀ node next, successors node = .ok next → node ∈ nodes

variable {successors} {pending : List Node}

theorem search_isSome [DecidableEq Node] {nodes : List Node} (hcovers : Covers successors nodes)
    {fuel : Nat} (hfuel : pending.length + remaining successors nodes reached ≤ fuel) :
    ∃ result, search successors fuel pending reached = some result := by
  induction fuel generalizing pending reached with
  | zero =>
    cases pending with
    | nil => exact ⟨.ok reached, by rw [search]⟩
    | cons node pending => simp at hfuel
  | succ fuel ih =>
    cases pending with
    | nil => exact ⟨.ok reached, by rw [search]⟩
    | cons node pending =>
      rw [length_cons] at hfuel
      rw [search]
      by_cases hmem : node ∈ reached
      · rw [if_pos hmem]
        exact ih (by omega)
      · rw [if_neg hmem]
        cases hnext : successors node with
        | error error => exact ⟨.error error, rfl⟩
        | ok next =>
          have hroom := remaining_cons successors (hcovers node next hnext) hmem
          rw [degree, hnext] at hroom
          dsimp only at hroom
          apply ih
          rw [length_append, length_reverse]
          omega

/-! ## What it has met -/

/-- What is met or pending can be reached, and what can be reached is met or behind something that
is pending. -/
structure Invariant (successors : Node → Except Error (List Node))
    (start pending reached : List Node) : Prop where
  reachable : ∀ node, node ∈ pending ∨ node ∈ reached → Reachable successors start node
  started : ∀ node ∈ start, node ∈ pending ∨ node ∈ reached
  closed : ∀ node ∈ reached, ∀ next, Edge successors node next → next ∈ pending ∨ next ∈ reached
  nodup : reached.Nodup

theorem invariant_start (start : List Node) : Invariant successors start start [] where
  reachable := by
    intro node hnode
    exact ⟨node, hnode.resolve_right not_mem_nil, .refl⟩
  started := fun node hnode => .inl hnode
  closed := fun node hnode => absurd hnode not_mem_nil
  nodup := nodup_nil

variable {start : List Node}

theorem Invariant.skip {node : Node}
    (hinv : Invariant successors start (node :: pending) reached) (hmem : node ∈ reached) :
    Invariant successors start pending reached where
  reachable := by
    intro other hother
    exact hinv.reachable other (hother.imp_left (mem_cons_of_mem _))
  started := by
    intro other hother
    obtain hpending | hreached := hinv.started other hother
    · obtain rfl | hpending := mem_cons.mp hpending
      · exact .inr hmem
      · exact .inl hpending
    · exact .inr hreached
  closed := by
    intro other hother next hedge
    obtain hpending | hreached := hinv.closed other hother next hedge
    · obtain rfl | hpending := mem_cons.mp hpending
      · exact .inr hmem
      · exact .inl hpending
    · exact .inr hreached
  nodup := hinv.nodup

theorem Invariant.meet {next : List Node} {node : Node}
    (hinv : Invariant successors start (node :: pending) reached) (hnew : node ∉ reached)
    (hnext : successors node = .ok next) :
    Invariant successors start (next.reverse ++ pending) (node :: reached) where
  reachable := by
    have hnode := hinv.reachable node (.inl mem_cons_self)
    intro other hother
    obtain hpending | hreached := hother
    · obtain hmem | hmem := mem_append.mp hpending
      · obtain ⟨first, hfst, hreach⟩ := hnode
        exact ⟨first, hfst, hreach.tail ⟨next, hnext, mem_reverse.mp hmem⟩⟩
      · exact hinv.reachable other (.inl (mem_cons_of_mem _ hmem))
    · obtain rfl | hmem := mem_cons.mp hreached
      · exact hnode
      · exact hinv.reachable other (.inr hmem)
  started := by
    intro other hother
    obtain hpending | hreached := hinv.started other hother
    · obtain rfl | hpending := mem_cons.mp hpending
      · exact .inr mem_cons_self
      · exact .inl (mem_append_right _ hpending)
    · exact .inr (mem_cons_of_mem _ hreached)
  closed := by
    intro other hother target hedge
    obtain rfl | hother := mem_cons.mp hother
    · obtain ⟨found, hfound, htgt⟩ := hedge
      rw [hnext] at hfound
      cases hfound
      exact .inl (mem_append_left _ (mem_reverse.mpr htgt))
    · obtain hpending | hreached := hinv.closed other hother target hedge
      · obtain rfl | hpending := mem_cons.mp hpending
        · exact .inr mem_cons_self
        · exact .inl (mem_append_right _ hpending)
      · exact .inr (mem_cons_of_mem _ hreached)
  nodup := nodup_cons.mpr ⟨hnew, hinv.nodup⟩

theorem Invariant.mem_iff (hinv : Invariant successors start [] reached) (node : Node) :
    node ∈ reached ↔ Reachable successors start node := by
  constructor
  · intro hnode
    exact hinv.reachable node (.inr hnode)
  · rintro ⟨first, hfst, hreach⟩
    induction hreach with
    | refl => exact (hinv.started first hfst).resolve_left not_mem_nil
    | tail _ hedge ih => exact (hinv.closed _ ih _ hedge).resolve_left not_mem_nil

/-- A search that ends without an error has met what can be reached. -/
theorem search_ok [DecidableEq Node] {fuel : Nat} {result : List Node}
    (hinv : Invariant successors start pending reached)
    (hsearch : search successors fuel pending reached = some (.ok result)) :
    result.Nodup ∧ ∀ node, node ∈ result ↔ Reachable successors start node := by
  induction fuel generalizing pending reached with
  | zero =>
    cases pending with
    | nil =>
      rw [search] at hsearch
      cases hsearch
      exact ⟨hinv.nodup, hinv.mem_iff⟩
    | cons node pending =>
      rw [search] at hsearch
      cases hsearch
  | succ fuel ih =>
    cases pending with
    | nil =>
      rw [search] at hsearch
      cases hsearch
      exact ⟨hinv.nodup, hinv.mem_iff⟩
    | cons node pending =>
      rw [search] at hsearch
      by_cases hmem : node ∈ reached
      · rw [if_pos hmem] at hsearch
        exact ih (hinv.skip hmem) hsearch
      · rw [if_neg hmem] at hsearch
        cases hnext : successors node with
        | error error =>
          rw [hnext] at hsearch
          cases hsearch
        | ok next =>
          rw [hnext] at hsearch
          exact ih (hinv.meet hmem hnext) hsearch

/-- It has no error where all that can be reached has successors. -/
theorem search_no_error [DecidableEq Node] {fuel : Nat} {error : Error}
    (hinv : Invariant successors start pending reached)
    (hlisted : ∀ node, Reachable successors start node → ∃ next, successors node = .ok next) :
    search successors fuel pending reached ≠ some (.error error) := by
  induction fuel generalizing pending reached with
  | zero => cases pending <;> simp [search]
  | succ fuel ih =>
    cases pending with
    | nil => simp [search]
    | cons node pending =>
      obtain ⟨next, hnext⟩ := hlisted node (hinv.reachable node (.inl mem_cons_self))
      rw [search]
      by_cases hmem : node ∈ reached
      · rw [if_pos hmem]
        exact ih (hinv.skip hmem)
      · rw [if_neg hmem, hnext]
        exact ih (hinv.meet hmem hnext)

end StackSearch
