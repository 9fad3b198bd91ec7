import Mathlib.Data.List.Nodup
import Mathlib.Logic.Relation

/-!
# Preorder intervals of a forest

A depth-first walk of a forest numbers the nodes in the order in which it meets them. The
nodes below a node then occupy one interval of the numbering, which starts at the node.
The walk takes a bound on the height; it does not matter which, as long as it fits.
-/

namespace PreorderIntervals

open Function List Relation

variable {Node : Type*} (children : Node → List Node)

/-- Every way down from the node is shorter than the bound. -/
def Fits : Nat → Node → Prop
  | 0, _ => False
  | bound + 1, node => ∀ child ∈ children node, Fits bound child

/-- The node lies below `top`, or is `top` itself. -/
def Reaches (top node : Node) : Prop := ReflTransGen (fun parent child => child ∈ children parent) top node

/-- Children are listed once, and by one parent. -/
structure Forest : Prop where
  nodup : ∀ node, (children node).Nodup
  parent_unique : ∀ {first second child}, child ∈ children first → child ∈ children second →
    first = second

/-- The nodes below a node in the order of a depth-first walk. -/
def preorder : Nat → Node → List Node
  | 0, _ => []
  | bound + 1, node => node :: (children node).flatMap (preorder bound)

/-- The tables that the walk fills. -/
structure Numbering (Node : Type*) where
  paths : List Node
  index : Node → Nat
  subtreeEnd : Node → Nat

def Numbering.empty : Numbering Node := { paths := [], index := fun _ => 0, subtreeEnd := fun _ => 0 }

section Visit

variable [DecidableEq Node]

/-- Enter the node, walk its children, leave the node. -/
def visit : Nat → Node → Numbering Node → Numbering Node
  | 0, _, numbering => numbering
  | bound + 1, node, numbering =>
    let entered : Numbering Node :=
      { numbering with
        index := Function.update numbering.index node numbering.paths.length
        paths := numbering.paths ++ [node] }
    let walked := (children node).foldl (fun numbering child => visit bound child numbering) entered
    { walked with subtreeEnd := Function.update walked.subtreeEnd node walked.paths.length }

/-- The same walk over a stack. An entry tells whether its node is being left; leaving a node
stands below the children of the node. -/
def drain : Nat → List (Node × Bool) → Numbering Node → Option (Numbering Node)
  | _, [], numbering => some numbering
  | 0, _ :: _, _ => none
  | fuel + 1, (node, true) :: stack, numbering =>
    drain fuel stack
      { numbering with
        subtreeEnd := Function.update numbering.subtreeEnd node numbering.paths.length }
  | fuel + 1, (node, false) :: stack, numbering =>
    drain fuel ((children node).map (·, false) ++ (node, true) :: stack)
      { numbering with
        index := Function.update numbering.index node numbering.paths.length
        paths := numbering.paths ++ [node] }

end Visit

variable {children} {node : Node} {bound : Nat}

theorem Fits.of_child {child : Node} (hfits : Fits children (bound + 1) node)
    (hchild : child ∈ children node) : Fits children bound child := hfits child hchild

theorem Fits.mono {more : Nat} (hle : bound ≤ more) (hfits : Fits children bound node) :
    Fits children more node := by
  induction bound generalizing more node with
  | zero => exact hfits.elim
  | succ bound ih =>
    obtain ⟨more, rfl⟩ := Nat.exists_eq_add_of_le' (Nat.zero_lt_of_lt hle)
    exact fun child hchild => ih (by omega) (hfits child hchild)

theorem Fits.of_reaches {top : Node} (hfits : Fits children bound top)
    (hreach : Reaches children top node) : Fits children bound node := by
  induction hreach with
  | refl => exact hfits
  | tail _ hchild ih =>
    cases bound with
    | zero => exact ih.elim
    | succ bound => exact (ih.of_child hchild).mono (Nat.le_succ _)

theorem preorder_eq_of_fits {first second : Nat} (hfst : Fits children first node)
    (hsnd : Fits children second node) :
    preorder children first node = preorder children second node := by
  induction first generalizing second node with
  | zero => exact hfst.elim
  | succ first ih =>
    cases second with
    | zero => exact hsnd.elim
    | succ second =>
      refine congrArg (node :: ·) (flatMap_congr fun child hchild => ?_)
      exact ih (hfst child hchild) (hsnd child hchild)

theorem mem_preorder {top : Node} (hfits : Fits children bound top) :
    node ∈ preorder children bound top ↔ Reaches children top node := by
  induction bound generalizing top with
  | zero => exact hfits.elim
  | succ bound ih =>
    rw [preorder, mem_cons, mem_flatMap]
    constructor
    · rintro (rfl | ⟨child, hchild, hnode⟩)
      · exact .refl
      · exact .head hchild ((ih (hfits child hchild)).mp hnode)
    · intro hreach
      rcases hreach.cases_head with rfl | ⟨child, hchild, hnode⟩
      · exact .inl rfl
      · exact .inr ⟨child, hchild, (ih (hfits child hchild)).mpr hnode⟩

theorem not_reaches_of_child {child : Node} (hfits : Fits children bound node)
    (hchild : child ∈ children node) : ¬ Reaches children child node := by
  intro hreach
  induction bound generalizing node child with
  | zero => exact hfits
  | succ bound ih =>
    obtain hcycle : Reaches children child child := hreach.tail hchild
    have hbelow : Fits children bound child := hfits child hchild
    rcases hreach.cases_head with rfl | ⟨next, hnext, hrest⟩
    · exact ih hbelow hchild .refl
    · exact ih hbelow hnext (hrest.tail hchild)

theorem Forest.reaches_or_reaches (hforest : Forest children) {first second : Node}
    (hfst : Reaches children first node) (hsnd : Reaches children second node) :
    Reaches children first second ∨ Reaches children second first := by
  induction hfst with
  | refl => exact .inr hsnd
  | @tail parent child hparent hchild ih =>
    rcases hsnd.cases_tail with rfl | ⟨other, hother, hchild'⟩
    · exact .inl (hparent.tail hchild)
    · obtain rfl := hforest.parent_unique hchild hchild'
      exact ih hother

/-- Below two different children of one node lie different nodes. -/
theorem Forest.eq_of_reaches (hforest : Forest children) {parent first second : Node}
    (hfits : Fits children bound parent) (hfst : first ∈ children parent)
    (hsnd : second ∈ children parent) (hreach : Reaches children first node)
    (hreach' : Reaches children second node) :
    first = second := by
  have hnever {a b : Node} (ha : a ∈ children parent) (hb : b ∈ children parent)
      (hab : Reaches children a b) : a = b := by
    rcases hab.cases_tail with rfl | ⟨other, hother, hb'⟩
    · rfl
    · obtain rfl := hforest.parent_unique hb hb'
      exact absurd hother (not_reaches_of_child hfits ha)
  rcases hforest.reaches_or_reaches hreach hreach' with h | h
  · exact hnever hfst hsnd h
  · exact (hnever hsnd hfst h).symm

theorem Forest.preorder_nodup (hforest : Forest children) (hfits : Fits children bound node) :
    (preorder children bound node).Nodup := by
  induction bound generalizing node with
  | zero => exact hfits.elim
  | succ bound ih =>
    rw [preorder, nodup_cons, mem_flatMap, nodup_flatMap]
    refine ⟨?_, fun child hchild => ih (hfits child hchild), ?_⟩
    · rintro ⟨child, hchild, hnode⟩
      exact not_reaches_of_child hfits hchild ((mem_preorder (hfits child hchild)).mp hnode)
    · refine (hforest.nodup node).imp_of_mem fun hfst hsnd hne other hleft hright => ?_
      exact hne (hforest.eq_of_reaches hfits hfst hsnd
        ((mem_preorder (hfits _ hfst)).mp hleft) ((mem_preorder (hfits _ hsnd)).mp hright))

/-! ## The walk over a stack -/

section Drain

variable [DecidableEq Node] {fuel : Nat} {stack : List (Node × Bool)}
  {numbering : Numbering Node}

theorem drain_foldl {nodes : List Node}
    (hwalk : ∀ node ∈ nodes, ∀ fuel stack numbering,
      drain children (2 * (preorder children bound node).length + fuel) ((node, false) :: stack)
        numbering = drain children fuel stack (visit children bound node numbering)) :
    drain children (2 * (nodes.flatMap (preorder children bound)).length + fuel)
        (nodes.map (·, false) ++ stack) numbering =
      drain children fuel stack
        (nodes.foldl (fun numbering node => visit children bound node numbering) numbering) := by
  induction nodes generalizing numbering with
  | nil => rw [flatMap_nil, length_nil, Nat.zero_add, map_nil, nil_append, foldl_nil]
  | cons head rest ih =>
    have hrest := @ih (visit children bound head numbering) fun node hnode =>
      hwalk node (mem_cons_of_mem _ hnode)
    rw [flatMap_cons, length_append, Nat.mul_add, Nat.add_assoc, map_cons, cons_append,
      hwalk head mem_cons_self, foldl_cons, hrest]

/-- Two turns for each node below the entry on top work it off. -/
theorem drain_visit (hfits : Fits children bound node) :
    drain children (2 * (preorder children bound node).length + fuel) ((node, false) :: stack)
      numbering = drain children fuel stack (visit children bound node numbering) := by
  induction bound generalizing node fuel stack numbering with
  | zero => exact hfits.elim
  | succ bound ih =>
    have hfuel (turns : Nat) : 2 * (turns + 1) + fuel = 2 * turns + (fuel + 1) + 1 := by omega
    rw [preorder, length_cons, hfuel, drain,
      drain_foldl fun child hchild _ _ _ => ih (hfits child hchild), drain, visit]

end Drain

/-! ## The tables of a walk -/

section Tables

/-- The walk from one numbering to another has met the listed nodes, and recorded for each of
them the interval of its own nodes. -/
structure Walked (children : Node → List Node) (top : Nat) (before after : Numbering Node)
    (visited : List Node) : Prop where
  paths : after.paths = before.paths ++ visited
  index_outside : ∀ node, node ∉ visited → after.index node = before.index node
  end_outside : ∀ node, node ∉ visited → after.subtreeEnd node = before.subtreeEnd node
  interval : ∀ node ∈ visited, ∃ left right, visited = left ++ preorder children top node ++ right ∧
      after.index node = before.paths.length + left.length ∧
      after.subtreeEnd node =
        before.paths.length + left.length + (preorder children top node).length

namespace Walked

variable {top : Nat} {first second third : Numbering Node} {xs ys : List Node}

theorem refl (numbering : Numbering Node) : Walked children top numbering numbering [] where
  paths := (append_nil _).symm
  index_outside _ _ := rfl
  end_outside _ _ := rfl
  interval _ hnode := absurd hnode not_mem_nil

theorem trans (hfst : Walked children top first second xs)
    (hsnd : Walked children top second third ys) (hdisj : ∀ node ∈ xs, node ∉ ys) :
    Walked children top first third (xs ++ ys) where
  paths := by rw [hsnd.paths, hfst.paths, append_assoc]
  index_outside node hnode := by
    rw [mem_append, not_or] at hnode
    rw [hsnd.index_outside node hnode.2, hfst.index_outside node hnode.1]
  end_outside node hnode := by
    rw [mem_append, not_or] at hnode
    rw [hsnd.end_outside node hnode.2, hfst.end_outside node hnode.1]
  interval node hnode := by
    rcases mem_append.mp hnode with hnode | hnode
    · obtain ⟨left, right, hxs, hidx, hend⟩ := hfst.interval node hnode
      refine ⟨left, right ++ ys, by rw [hxs]; simp, ?_, ?_⟩
      · rw [hsnd.index_outside node (hdisj node hnode), hidx]
      · rw [hsnd.end_outside node (hdisj node hnode), hend]
    · obtain ⟨left, right, hys, hidx, hend⟩ := hsnd.interval node hnode
      have hlen : second.paths.length = first.paths.length + xs.length := by
        rw [hfst.paths, length_append]
      refine ⟨xs ++ left, right, by rw [hys]; simp, ?_, ?_⟩
      · rw [hidx, hlen, length_append, Nat.add_assoc]
      · rw [hend, hlen, length_append]
        omega

end Walked

variable {top : Nat}

theorem foldl_walked (walk : Node → Numbering Node → Numbering Node) {nodes : List Node}
    (hwalk : ∀ node ∈ nodes, ∀ numbering,
      Walked children top numbering (walk node numbering) (preorder children top node))
    (hdisj : nodes.Pairwise fun first second =>
      ∀ node ∈ preorder children top first, node ∉ preorder children top second)
    (numbering : Numbering Node) :
    Walked children top numbering (nodes.foldl (fun numbering node => walk node numbering) numbering)
      (nodes.flatMap (preorder children top)) := by
  induction nodes generalizing numbering with
  | nil => exact .refl numbering
  | cons head rest ih =>
    obtain ⟨hhead, hrest⟩ := pairwise_cons.mp hdisj
    rw [foldl_cons, flatMap_cons]
    refine (hwalk head mem_cons_self numbering).trans
      (ih (fun node hnode => hwalk node (mem_cons_of_mem _ hnode)) hrest _) ?_
    intro node hnode hmem
    obtain ⟨other, hother, hmem⟩ := mem_flatMap.mp hmem
    exact hhead other hother node hnode hmem

theorem visit_walked [DecidableEq Node] (hforest : Forest children)
    (hbound : Fits children bound node) (htop : Fits children top node)
    (numbering : Numbering Node) :
    Walked children top numbering (visit children bound node numbering)
      (preorder children top node) := by
  induction bound generalizing node numbering with
  | zero => exact hbound.elim
  | succ bound ih =>
    have hchild {child : Node} (hchild : child ∈ children node) : Fits children top child :=
      htop.of_reaches (.single hchild)
    have hwalk := foldl_walked (visit children bound)
      (fun child hmem numbering => ih (hbound child hmem) (hchild hmem) numbering)
      ((hforest.nodup node).imp_of_mem fun hfst hsnd hne other hleft hright =>
        hne (hforest.eq_of_reaches hbound hfst hsnd ((mem_preorder (hchild hfst)).mp hleft)
          ((mem_preorder (hchild hsnd)).mp hright)))
      { numbering with
        index := Function.update numbering.index node numbering.paths.length
        paths := numbering.paths ++ [node] }
    have horder : preorder children top node =
        node :: (children node).flatMap (preorder children top) := by
      rw [preorder_eq_of_fits htop hbound, preorder]
      refine congrArg (node :: ·) (flatMap_congr fun child hmem => ?_)
      exact preorder_eq_of_fits (hbound child hmem) (hchild hmem)
    have hself : node ∉ (children node).flatMap (preorder children top) := by
      have hnodup := hforest.preorder_nodup htop
      rw [horder] at hnodup
      exact (nodup_cons.mp hnodup).1
    rw [visit]
    generalize (children node).foldl _ _ = walked at hwalk ⊢
    refine ⟨?_, ?_, ?_, ?_⟩
    · rw [horder, hwalk.paths, append_assoc, singleton_append]
    · intro other hother
      rw [horder, mem_cons, not_or] at hother
      exact (hwalk.index_outside other hother.2).trans (update_of_ne hother.1 _ _)
    · intro other hother
      rw [horder, mem_cons, not_or] at hother
      exact (update_of_ne hother.1 _ _).trans (hwalk.end_outside other hother.2)
    · intro other hother
      rw [horder, mem_cons] at hother
      by_cases hsame : other = node
      · subst hsame
        refine ⟨[], [], by simp, ?_, ?_⟩
        · exact (hwalk.index_outside other hself).trans (update_self _ _ _)
        · refine (update_self _ _ _).trans ?_
          rw [hwalk.paths, horder]
          simp
      · obtain ⟨left, right, hsplit, hidx, hend⟩ :=
          hwalk.interval other (hother.resolve_left hsame)
        refine ⟨node :: left, right, by rw [horder, hsplit]; simp, ?_, ?_⟩
        · rw [hidx]
          simp
          omega
        · refine (update_of_ne hsame _ _).trans (hend.trans ?_)
          simp
          omega

variable {after : Numbering Node}

/-- The nodes of the recorded interval are the nodes below the node. -/
theorem Walked.slice {visited : List Node} (hwalked : Walked children top .empty after visited)
    (hnode : node ∈ visited) :
    (after.paths.drop (after.index node)).take (after.subtreeEnd node - after.index node) =
      preorder children top node := by
  obtain ⟨left, right, hsplit, hidx, hend⟩ := hwalked.interval node hnode
  have hpaths : after.paths = left ++ preorder children top node ++ right := by
    rw [hwalked.paths, hsplit]
    rfl
  rw [hpaths, hend, hidx]
  simp [Numbering.empty]

theorem Walked.getElem?_index {visited : List Node}
    (hwalked : Walked children top .empty after visited) (hnode : node ∈ visited)
    (hfits : Fits children top node) : visited[after.index node]? = some node := by
  obtain ⟨left, right, hsplit, hidx, -⟩ := hwalked.interval node hnode
  cases top with
  | zero => exact hfits.elim
  | succ top =>
    rw [hidx, hsplit, preorder]
    simp [Numbering.empty]

/-- The index of a node lies in the interval of exactly the nodes above it. -/
theorem Walked.mem_interval_iff {visited : List Node}
    (hwalked : Walked children top .empty after visited) (hnodup : visited.Nodup) {above : Node}
    (habove : above ∈ visited) (hnode : node ∈ visited) (hfits : Fits children top node) :
    after.index above ≤ after.index node ∧ after.index node < after.subtreeEnd above ↔
      node ∈ preorder children top above := by
  have hself := hwalked.getElem?_index hnode hfits
  obtain ⟨left, right, hsplit, hidx, hend⟩ := hwalked.interval above habove
  have hbase : (Numbering.empty : Numbering Node).paths.length = 0 := rfl
  rw [hidx, hend, hbase, Nat.zero_add]
  constructor
  · rintro ⟨hlow, hhigh⟩
    rw [hsplit, append_assoc, List.getElem?_append_right hlow,
      List.getElem?_append_left (by omega)] at hself
    exact mem_of_getElem? hself
  · intro hmem
    obtain ⟨offset, hoffset⟩ := mem_iff_getElem?.mp hmem
    have hlt : offset < (preorder children top above).length :=
      (List.getElem?_eq_some_iff.mp hoffset).1
    have hplace : visited[left.length + offset]? = some node := by
      rw [hsplit, append_assoc, List.getElem?_append_right (Nat.le_add_right _ _),
        Nat.add_sub_cancel_left, List.getElem?_append_left hlt, hoffset]
    have hsame : after.index node = left.length + offset := by
      refine (List.getElem?_inj ?_ hnodup).mp (hself.trans hplace.symm)
      exact (List.getElem?_eq_some_iff.mp hself).1
    omega

end Tables

end PreorderIntervals
