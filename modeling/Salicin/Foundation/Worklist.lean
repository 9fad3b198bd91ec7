import Mathlib.Algebra.BigOperators.Group.Finset.Basic

/-!
# Worklist analyses

A forward analysis keeps a state for the entry and the exit of every node. It takes nodes from
a queue, and joins what leaves a node into the entries of its successors, which are queued when
they change. When the queue is empty the entries are stable: what leaves a node is below the
entry of the node it goes to. The order need not make the transfer monotone.
-/

namespace Worklist

open Function List

structure Analysis (Node State : Type*) where
  transfer : Node → State → State
  /-- Where a state goes from a node, and what arrives there. -/
  edges : Node → State → List (Node × State)
  /-- The joined state, and whether it has changed. -/
  join : State → State → State × Bool

structure Tables (Node State : Type*) where
  entry : Node → State
  exit : Node → State
  queue : List Node
  queued : Node → Bool

variable {Node State : Type*} [DecidableEq Node] (analysis : Analysis Node State)

/-- Join a state into the entry of a node. -/
def propagate (tables : Tables Node State) (edge : Node × State) : Tables Node State :=
  let joined := analysis.join (tables.entry edge.1) edge.2
  let tables := { tables with entry := Function.update tables.entry edge.1 joined.1 }
  if joined.2 && !tables.queued edge.1 then
    { tables with
      queue := tables.queue ++ [edge.1]
      queued := Function.update tables.queued edge.1 true }
  else tables

/-- One round for a node that has left the queue. -/
def visit [DecidableEq State] (node : Node) (tables : Tables Node State) : Tables Node State :=
  let tables := { tables with queued := Function.update tables.queued node false }
  let state := analysis.transfer node (tables.entry node)
  if state = tables.exit node then tables
  else (analysis.edges node state).foldl (propagate analysis)
    { tables with exit := Function.update tables.exit node state }

/-- Rounds until the queue is empty, if the fuel suffices. -/
def run [DecidableEq State] : Nat → Tables Node State → Option (Tables Node State)
  | 0, tables => if tables.queue.isEmpty then some tables else none
  | fuel + 1, tables =>
    match tables.queue with
    | [] => some tables
    | node :: rest => run fuel (visit analysis node { tables with queue := rest })

/-! ## Stability -/

/-- What the analysis needs of an order on its states. -/
structure Lawful (le : State → State → Prop) : Prop where
  refl : ∀ state, le state state
  trans : ∀ {first second third}, le first second → le second third → le first third
  join_left : ∀ state incoming, le state (analysis.join state incoming).1
  join_right : ∀ state incoming, le incoming (analysis.join state incoming).1
  join_same : ∀ state incoming, (analysis.join state incoming).2 = false →
    (analysis.join state incoming).1 = state

/-- Between two rounds, every node is queued, or its exit is what its entry makes it, or its
entry tells nothing; and what leaves a node has arrived. -/
structure Invariant (le : State → State → Prop) (bottom : State → Prop)
    (tables : Tables Node State) : Prop where
  queued : ∀ node, tables.queued node = true → node ∈ tables.queue
  stable : ∀ node, node ∉ tables.queue →
    bottom (tables.entry node) ∨ analysis.transfer node (tables.entry node) = tables.exit node
  arrived : ∀ node, ∀ edge ∈ analysis.edges node (tables.exit node), le edge.2 (tables.entry edge.1)

variable {analysis} {le : State → State → Prop} {bottom : State → Prop}
  (hlawful : Lawful analysis le) {tables : Tables Node State}

section Propagate

variable (edge : Node × State)

@[simp]
theorem exit_propagate : (propagate analysis tables edge).exit = tables.exit := by
  rw [propagate]
  dsimp only
  split_ifs <;> rfl

theorem entry_propagate : (propagate analysis tables edge).entry =
      Function.update tables.entry edge.1 (analysis.join (tables.entry edge.1) edge.2).1 := by
  rw [propagate]
  dsimp only
  split_ifs <;> rfl

include hlawful

theorem le_entry_propagate (node : Node) :
    le (tables.entry node) ((propagate analysis tables edge).entry node) := by
  rw [entry_propagate]
  by_cases hsame : node = edge.1
  · subst hsame
    rw [update_self]
    exact hlawful.join_left _ _
  · rw [update_of_ne hsame]
    exact hlawful.refl _

theorem arrived_propagate : le edge.2 ((propagate analysis tables edge).entry edge.1) := by
  rw [entry_propagate, update_self]
  exact hlawful.join_right _ _

omit hlawful in
theorem queued_propagate (hqueued : ∀ node, tables.queued node = true → node ∈ tables.queue) :
    ∀ node, (propagate analysis tables edge).queued node = true →
      node ∈ (propagate analysis tables edge).queue := by
  intro node hnode
  rw [propagate] at hnode ⊢
  dsimp only at hnode ⊢
  split_ifs at hnode ⊢ with hchanged
  · by_cases hsame : node = edge.1
    · exact hsame ▸ mem_append_right _ mem_cons_self
    · dsimp only at hnode
      rw [update_of_ne hsame] at hnode
      exact mem_append_left _ (hqueued node hnode)
  · exact hqueued node hnode

/-- A node that is not queued afterwards was not queued before, and its entry is the same. -/
theorem not_queued_propagate (hqueued : ∀ node, tables.queued node = true → node ∈ tables.queue)
    {node : Node} (hnode : node ∉ (propagate analysis tables edge).queue) :
    node ∉ tables.queue ∧ (propagate analysis tables edge).entry node = tables.entry node := by
  rw [entry_propagate]
  rw [propagate] at hnode
  dsimp only at hnode
  split_ifs at hnode with hchanged
  · rw [mem_append, not_or, mem_singleton] at hnode
    exact ⟨hnode.1, update_of_ne hnode.2 _ _⟩
  · refine ⟨hnode, ?_⟩
    by_cases hsame : node = edge.1
    · subst hsame
      have hidle : tables.queued edge.1 = false :=
        Bool.eq_false_iff.mpr fun htrue => hnode (hqueued edge.1 htrue)
      rw [Bool.and_eq_true, not_and, Bool.not_eq_true, hidle] at hchanged
      rw [update_self]
      refine hlawful.join_same _ _ (Bool.eq_false_iff.mpr fun htrue => ?_)
      exact absurd (hchanged htrue) (by simp)
    · exact update_of_ne hsame _ _

end Propagate

/-- What holds while the states that leave a node are being joined. -/
structure Propagated (le : State → State → Prop) (before after : Tables Node State) : Prop where
  exit : after.exit = before.exit
  queued : ∀ node, after.queued node = true → node ∈ after.queue
  grown : ∀ node, le (before.entry node) (after.entry node)
  untouched : ∀ node, node ∉ after.queue →
    node ∉ before.queue ∧ after.entry node = before.entry node

include hlawful

theorem foldl_propagate (edges : List (Node × State)) (tables : Tables Node State)
    (hqueued : ∀ node, tables.queued node = true → node ∈ tables.queue) :
    Propagated le tables (edges.foldl (propagate analysis) tables) ∧
      ∀ edge ∈ edges, le edge.2 ((edges.foldl (propagate analysis) tables).entry edge.1) := by
  induction edges generalizing tables with
  | nil =>
    refine ⟨⟨rfl, hqueued, fun node => hlawful.refl _, fun node hnode => ⟨hnode, rfl⟩⟩, ?_⟩
    exact fun edge hedge => absurd hedge not_mem_nil
  | cons head rest ih =>
    obtain ⟨hrest, harrived⟩ := ih _ (queued_propagate head hqueued)
    refine ⟨⟨?_, hrest.queued, fun node => ?_, fun node hnode => ?_⟩, fun edge hedge => ?_⟩
    · exact hrest.exit.trans (exit_propagate head)
    · exact hlawful.trans (le_entry_propagate hlawful head node) (hrest.grown node)
    · obtain ⟨hmid, hsame⟩ := hrest.untouched node hnode
      obtain ⟨hout, hsame'⟩ := not_queued_propagate hlawful head hqueued hmid
      exact ⟨hout, hsame.trans hsame'⟩
    · rcases mem_cons.mp hedge with rfl | hedge
      · exact hlawful.trans (arrived_propagate hlawful edge) (hrest.grown edge.1)
      · exact harrived edge hedge

theorem visit_invariant [DecidableEq State] {node : Node} {rest : List Node}
    (hinv : Invariant analysis le bottom tables) (hqueue : tables.queue = node :: rest) :
    Invariant analysis le bottom (visit analysis node { tables with queue := rest }) ∧
      ∀ other, le (tables.entry other)
        ((visit analysis node { tables with queue := rest }).entry other) := by
  have hqueued (other : Node) (htrue : Function.update tables.queued node false other = true) :
      other ∈ rest := by
    by_cases hsame : other = node
    · rw [hsame, update_self] at htrue
      exact absurd htrue Bool.false_ne_true
    · rw [update_of_ne hsame] at htrue
      have hmem := hinv.queued other htrue
      rw [hqueue] at hmem
      exact (mem_cons.mp hmem).resolve_left hsame
  have hstable (other : Node) (hne : other ≠ node) (hout : other ∉ rest) :=
    hinv.stable other (by simp [hqueue, hne, hout])
  rw [visit]
  dsimp only
  split_ifs with hsame
  · refine ⟨⟨hqueued, fun other hout => ?_, hinv.arrived⟩, fun other => hlawful.refl _⟩
    by_cases hother : other = node
    · subst hother
      exact .inr hsame
    · exact hstable other hother hout
  · obtain ⟨hfold, harrived⟩ := foldl_propagate hlawful
      (analysis.edges node (analysis.transfer node (tables.entry node)))
      { tables with
        queue := rest
        queued := Function.update tables.queued node false
        exit := Function.update tables.exit node (analysis.transfer node (tables.entry node)) }
      hqueued
    generalize List.foldl _ _ _ = after at *
    refine ⟨⟨hfold.queued, fun other hout => ?_, fun other edge hedge => ?_⟩, hfold.grown⟩
    · obtain ⟨hout, hentry⟩ := hfold.untouched other hout
      rw [hentry, hfold.exit]
      by_cases hother : other = node
      · subst hother
        exact .inr (update_self other _ tables.exit).symm
      · exact (hstable other hother hout).imp_right fun hold =>
          hold.trans (update_of_ne hother _ _).symm
    · rw [hfold.exit] at hedge
      by_cases hother : other = node
      · subst hother
        dsimp only at hedge
        rw [update_self] at hedge
        exact harrived edge hedge
      · dsimp only at hedge
        rw [update_of_ne hother] at hedge
        exact hlawful.trans (hinv.arrived other edge hedge) (hfold.grown edge.1)

theorem run_invariant [DecidableEq State] {fuel : Nat} {result : Tables Node State}
    (hinv : Invariant analysis le bottom tables) (hrun : run analysis fuel tables = some result) :
    result.queue = [] ∧ Invariant analysis le bottom result ∧
      ∀ node, le (tables.entry node) (result.entry node) := by
  induction fuel generalizing tables with
  | zero =>
    rw [run] at hrun
    split_ifs at hrun with hempty
    cases hrun
    exact ⟨isEmpty_iff.mp hempty, hinv, fun node => hlawful.refl _⟩
  | succ fuel ih =>
    rw [run] at hrun
    split at hrun
    · next hqueue =>
        cases hrun
        exact ⟨hqueue, hinv, fun node => hlawful.refl _⟩
    · next node rest hqueue =>
        obtain ⟨hvisit, hgrown⟩ := visit_invariant hlawful hinv hqueue
        obtain ⟨hempty, hres, hgrown'⟩ := ih hvisit hrun
        exact ⟨hempty, hres, fun other => hlawful.trans (hgrown other) (hgrown' other)⟩

omit hlawful [DecidableEq Node] in
theorem Invariant.arrives (hinv : Invariant analysis le bottom tables)
    (hqueue : tables.queue = []) {node : Node} (hentry : ¬ bottom (tables.entry node)) :
    ∀ edge ∈ analysis.edges node (analysis.transfer node (tables.entry node)),
      le edge.2 (tables.entry edge.1) := by
  have hstable := hinv.stable node (by simp [hqueue])
  rw [hstable.resolve_left hentry]
  exact hinv.arrived node

/-! ## Termination -/

/-- What bounds the rounds: a kind of states that everything keeps to, finitely many nodes, and a
bounded rank that grows with each change. -/
structure Ranked (analysis : Analysis Node State) (good : State → Prop) (rank : State → Nat)
    (bound : Nat) (nodes : Finset Node) : Prop where
  transfer : ∀ node state, good state → good (analysis.transfer node state)
  edges : ∀ node state, good state → ∀ edge ∈ analysis.edges node state,
    edge.1 ∈ nodes ∧ good edge.2
  join : ∀ state incoming, good state → good incoming → good (analysis.join state incoming).1
  le_bound : ∀ state, good state → rank state ≤ bound
  same : ∀ state incoming, (analysis.join state incoming).2 = false →
    (analysis.join state incoming).1 = state
  grows : ∀ state incoming, good state → good incoming →
    (analysis.join state incoming).2 = true → rank state < rank (analysis.join state incoming).1

/-- The rounds that are left: the nodes in the queue, and what their entries can still grow. -/
def remaining (rank : State → Nat) (bound : Nat) (nodes : Finset Node)
    (tables : Tables Node State) : Nat :=
  tables.queue.length + ∑ node ∈ nodes, (bound - rank (tables.entry node))

section Termination

variable {good : State → Prop} {rank : State → Nat} {bound : Nat} {nodes : Finset Node}
  (hranked : Ranked analysis good rank bound nodes)
include hranked

omit hlawful

theorem good_propagate (hgood : ∀ node, good (tables.entry node)) {edge : Node × State}
    (hedge : good edge.2) (node : Node) : good ((propagate analysis tables edge).entry node) := by
  rw [entry_propagate]
  by_cases hsame : node = edge.1
  · rw [hsame, update_self]
    exact hranked.join _ _ (hgood _) hedge
  · rw [update_of_ne hsame]
    exact hgood node

/-- A join that changes an entry uses up what it puts into the queue. -/
theorem remaining_propagate_le (hgood : ∀ node, good (tables.entry node)) {edge : Node × State}
    (hnode : edge.1 ∈ nodes) (hedge : good edge.2) :
    remaining rank bound nodes (propagate analysis tables edge) ≤
      remaining rank bound nodes tables := by
  have hlen : (propagate analysis tables edge).queue.length ≤ tables.queue.length +
      if (analysis.join (tables.entry edge.1) edge.2).2 = true then 1 else 0 := by
    rw [propagate]
    dsimp only
    split_ifs with hqueued hchanged hchanged
    · rw [length_append, length_singleton]
    · exact absurd (Bool.and_eq_true_iff.mp hqueued).1 hchanged
    · exact Nat.le_succ _
    · exact Nat.le_refl _
  have hsum : ∑ node ∈ nodes, (bound - rank ((propagate analysis tables edge).entry node)) +
      (if (analysis.join (tables.entry edge.1) edge.2).2 = true then 1 else 0) ≤
        ∑ node ∈ nodes, (bound - rank (tables.entry node)) := by
    rw [entry_propagate, ← Finset.add_sum_erase _ _ hnode, ← Finset.add_sum_erase nodes
      (fun node => bound - rank (tables.entry node)) hnode, update_self]
    have hrest : ∑ node ∈ nodes.erase edge.1, (bound - rank (Function.update tables.entry edge.1
        (analysis.join (tables.entry edge.1) edge.2).1 node)) =
          ∑ node ∈ nodes.erase edge.1, (bound - rank (tables.entry node)) :=
      Finset.sum_congr rfl fun node hmem => by
        rw [update_of_ne (Finset.ne_of_mem_erase hmem)]
    rw [hrest]
    split_ifs with hchanged
    · have hgrows := hranked.grows _ _ (hgood edge.1) hedge hchanged
      have hbound := hranked.le_bound _ (hranked.join _ _ (hgood edge.1) hedge)
      omega
    · rw [hranked.same _ _ (Bool.eq_false_iff.mpr hchanged)]
      exact Nat.le_refl _
  rw [remaining, remaining]
  omega

theorem foldl_propagate_le {edges : List (Node × State)}
    (hedges : ∀ edge ∈ edges, edge.1 ∈ nodes ∧ good edge.2) {tables : Tables Node State}
    (hgood : ∀ node, good (tables.entry node)) :
    (∀ node, good ((edges.foldl (propagate analysis) tables).entry node)) ∧
      remaining rank bound nodes (edges.foldl (propagate analysis) tables) ≤
        remaining rank bound nodes tables := by
  induction edges generalizing tables with
  | nil => exact ⟨hgood, Nat.le_refl _⟩
  | cons head rest ih =>
    obtain ⟨hnode, hhead⟩ := hedges head mem_cons_self
    obtain ⟨hkept, hle⟩ := ih (fun edge hedge => hedges edge (mem_cons_of_mem _ hedge))
      (good_propagate hranked hgood hhead)
    exact ⟨hkept, hle.trans (remaining_propagate_le hranked hgood hnode hhead)⟩

theorem visit_le [DecidableEq State] (hgood : ∀ node, good (tables.entry node)) (node : Node) :
    (∀ other, good ((visit analysis node tables).entry other)) ∧
      remaining rank bound nodes (visit analysis node tables) ≤
        remaining rank bound nodes tables := by
  rw [visit]
  dsimp only
  split_ifs
  · exact ⟨hgood, Nat.le_refl _⟩
  · exact foldl_propagate_le hranked
      (hranked.edges node _ (hranked.transfer node _ (hgood node))) hgood

theorem exists_run [DecidableEq State] {fuel : Nat} (hgood : ∀ node, good (tables.entry node))
    (hfuel : remaining rank bound nodes tables ≤ fuel) :
    ∃ result, run analysis fuel tables = some result := by
  induction fuel generalizing tables with
  | zero =>
    have hempty : tables.queue = [] := by
      rw [← length_eq_zero_iff]
      rw [remaining] at hfuel
      omega
    exact ⟨tables, by rw [run, hempty]; rfl⟩
  | succ fuel ih =>
    cases hqueue : tables.queue with
    | nil => exact ⟨tables, by rw [run, hqueue]⟩
    | cons node rest =>
      have hrest : ∀ node, good (({ tables with queue := rest } : Tables Node State).entry node) :=
        hgood
      obtain ⟨hkept, hle⟩ := visit_le hranked hrest node
      rw [run, hqueue]
      refine ih hkept (hle.trans ?_)
      rw [remaining, hqueue, length_cons] at hfuel
      rw [remaining]
      dsimp only
      omega

theorem good_run [DecidableEq State] {fuel : Nat} {result : Tables Node State}
    (hgood : ∀ node, good (tables.entry node)) (hrun : run analysis fuel tables = some result) :
    ∀ node, good (result.entry node) := by
  induction fuel generalizing tables with
  | zero =>
    rw [run] at hrun
    split_ifs at hrun
    cases hrun
    exact hgood
  | succ fuel ih =>
    rw [run] at hrun
    split at hrun
    · cases hrun
      exact hgood
    · next node rest _ =>
        have hrest : ∀ node, good (({ tables with queue := rest } : Tables Node State).entry node) :=
          hgood
        exact ih (visit_le hranked hrest node).1 hrun

end Termination

end Worklist
