import Mathlib.Data.Finset.Card
import Mathlib.Data.List.Chain

/-!
# A depth-first search for a cycle

The search keeps the keys that are done and the stack of the keys it is working on. It comes
to a cycle exactly when a key of the stack is met again; when it comes to none, no key that
is done can reach itself.
-/

namespace CycleSearch

open List

variable {Key : Type*}

/-- What a visit comes to: the keys that are done, or a cycle. Without fuel, or at a key with
no entry, it comes to nothing. -/
abbrev Visit (Key : Type*) := Option (Except (List Key) (List Key))

/-- Visit some keys one after the other, up to the first cycle. -/
def visitAll (visit : Key → List Key → Visit Key) : List Key → List Key → Visit Key
  | [], complete => some (.ok complete)
  | key :: rest, complete =>
    match visit key complete with
    | some (.ok complete) => visitAll visit rest complete
    | stopped => stopped

/-- Visit a key below a stack. The fuel bounds the height of the stack. -/
def visit [DecidableEq Key] (successors : Key → Option (List Key)) :
    Nat → List Key → Key → List Key → Visit Key
  | 0, _, _, _ => none
  | fuel + 1, stack, key, complete =>
    if key ∈ stack then some (.error (stack.dropWhile (· ≠ key) ++ [key]))
    else if key ∈ complete then some (.ok complete)
    else
      match successors key with
      | none => none
      | some needed =>
        match visitAll (visit successors fuel (stack ++ [key])) needed complete with
        | some (.ok complete) => some (.ok (key :: complete))
        | stopped => stopped

/-- The second key is a successor of the first one. -/
def Edge (successors : Key → Option (List Key)) (key next : Key) : Prop :=
  ∃ needed, successors key = some needed ∧ next ∈ needed

/-- A walk along the edges that comes back to its first key. -/
def IsCycle (successors : Key → Option (List Key)) (cycle : List Key) : Prop :=
  cycle.IsChain (Edge successors) ∧ ∃ key middle, cycle = key :: middle ++ [key]

/-- The keys that are done: what they need is done, and none of them reaches itself. -/
structure Settled (successors : Key → Option (List Key)) (complete : List Key) : Prop where
  closed : ∀ key ∈ complete, ∀ next, Edge successors key next → next ∈ complete
  acyclic : ∀ key ∈ complete, ¬ Relation.TransGen (Edge successors) key key

variable {successors : Key → Option (List Key)} {complete : List Key}

theorem settled_nil : Settled successors [] := ⟨by simp, by simp⟩

theorem IsCycle.transGen {cycle : List Key} (hcycle : IsCycle successors cycle) :
    ∃ key, Relation.TransGen (Edge successors) key key := by
  obtain ⟨hchain, key, middle, rfl⟩ := hcycle
  refine ⟨key, ?_⟩
  have hwalk : ∀ first rest, (first :: rest ++ [key]).IsChain (Edge successors) →
      Relation.TransGen (Edge successors) first key := by
    intro first rest hrest
    induction rest generalizing first with
    | nil => exact .single (by simpa using hrest)
    | cons next rest ih =>
      obtain ⟨hedge, hrest⟩ := isChain_cons_cons.mp hrest
      exact .head hedge (ih next hrest)
  exact hwalk key middle hchain

namespace Settled

theorem of_transGen (hsettled : Settled successors complete) {key next : Key}
    (hkey : key ∈ complete) (hreach : Relation.TransGen (Edge successors) key next) :
    next ∈ complete := by
  induction hreach with
  | single hedge => exact hsettled.closed key hkey _ hedge
  | tail _ hedge ih => exact hsettled.closed _ ih _ hedge

theorem cons (hsettled : Settled successors complete) {key : Key} {needed : List Key}
    (hneeded : successors key = some needed) (hdone : ∀ next ∈ needed, next ∈ complete) :
    Settled successors (key :: complete) := by
  have hnext : ∀ next, Edge successors key next → next ∈ complete := by
    rintro next ⟨other, hother, hmem⟩
    obtain rfl : needed = other := by simpa [hneeded] using hother
    exact hdone next hmem
  constructor
  · intro entry hentry next hedge
    rcases mem_cons.mp hentry with rfl | hentry
    · exact mem_cons_of_mem _ (hnext next hedge)
    · exact mem_cons_of_mem _ (hsettled.closed entry hentry next hedge)
  · intro entry hentry hcycle
    rcases mem_cons.mp hentry with rfl | hentry
    · -- The first step of the cycle leads to a key that is done, so the key was done before.
      obtain ⟨next, hedge, hback⟩ := Relation.TransGen.head'_iff.mp hcycle
      have hmem : entry ∈ complete := by
        rcases Relation.reflTransGen_iff_eq_or_transGen.mp hback with rfl | hback
        · exact hnext _ hedge
        · exact hsettled.of_transGen (hnext next hedge) hback
      exact hsettled.acyclic entry hmem hcycle
    · exact hsettled.acyclic entry hentry hcycle

end Settled

/-- What a visit of some keys leaves behind. -/
inductive Visited (successors : Key → Option (List Key)) (keys complete : List Key) :
    Visit Key → Prop
  | done (after : List Key) (hsettled : Settled successors after) (hgrows : complete ⊆ after)
      (hkeys : keys ⊆ after) : Visited successors keys complete (some (.ok after))
  | cycle (cycle : List Key) (hcycle : IsCycle successors cycle) :
      Visited successors keys complete (some (.error cycle))

theorem visitAll_visited {visitKey : Key → List Key → Visit Key} {keys : List Key}
    (hvisit : ∀ key ∈ keys, ∀ complete, Settled successors complete →
      Visited successors [key] complete (visitKey key complete))
    (hsettled : Settled successors complete) :
    Visited successors keys complete (visitAll visitKey keys complete) := by
  induction keys generalizing complete with
  | nil => exact .done complete hsettled (List.Subset.refl _) (by simp)
  | cons key rest ih =>
    have hfst := hvisit key mem_cons_self complete hsettled
    unfold visitAll
    generalize visitKey key complete = result at hfst
    cases hfst with
    | cycle cycle hcycle => exact .cycle cycle hcycle
    | done after hafter hgrows hkey =>
      have hrest := ih (fun other hother => hvisit other (mem_cons_of_mem _ hother)) hafter
      simp only
      generalize visitAll visitKey rest after = result at hrest ⊢
      cases hrest with
      | cycle cycle hcycle => exact .cycle cycle hcycle
      | done last hlast hmore hkeys =>
        refine .done last hlast (List.Subset.trans hgrows hmore) ?_
        exact cons_subset.mpr ⟨hmore (hkey mem_cons_self), hkeys⟩

/-- The keys of the stack are all different, and each is a successor of the one before it. -/
structure Stacked (successors : Key → Option (List Key)) (keys : Finset Key) (stack : List Key)
    (key : Key) : Prop where
  nodup : stack.Nodup
  known : ∀ entry ∈ stack, entry ∈ keys
  chain : (stack ++ [key]).IsChain (Edge successors)

variable {keys : Finset Key} {stack : List Key} {key : Key}

theorem stacked_nil (key : Key) : Stacked successors keys [] key :=
  ⟨nodup_nil, by simp, isChain_singleton key⟩

theorem Stacked.push (hstacked : Stacked successors keys stack key) (hfresh : key ∉ stack)
    (hkey : key ∈ keys) {next : Key} (hedge : Edge successors key next) :
    Stacked successors keys (stack ++ [key]) next where
  nodup := by
    rw [nodup_append]
    refine ⟨hstacked.nodup, nodup_singleton key, ?_⟩
    intro entry hentry other hother heq
    exact hfresh (by simpa [← mem_singleton.mp hother, ← heq] using hentry)
  known := by
    intro entry hentry
    rcases mem_append.mp hentry with hentry | hentry
    · exact hstacked.known entry hentry
    · exact mem_singleton.mp hentry ▸ hkey
  chain := by
    refine isChain_append.mpr ⟨hstacked.chain, isChain_singleton next, ?_⟩
    simpa using hedge

theorem Stacked.length_le (hstacked : Stacked successors keys stack key) [DecidableEq Key] :
    stack.length ≤ keys.card := by
  rw [← toFinset_card_of_nodup hstacked.nodup]
  exact Finset.card_le_card fun entry hentry =>
    hstacked.known entry (mem_toFinset.mp hentry)

theorem Stacked.isCycle [DecidableEq Key] (hstacked : Stacked successors keys stack key)
    (hkey : key ∈ stack) : IsCycle successors (stack.dropWhile (· ≠ key) ++ [key]) := by
  obtain ⟨rest, hrest⟩ : ∃ rest, stack.dropWhile (· ≠ key) = key :: rest := by
    clear hstacked
    induction stack with
    | nil => simp at hkey
    | cons head tail ih =>
      by_cases heq : head = key
      · exact ⟨tail, by simp [heq]⟩
      · simpa [heq] using ih ((mem_cons.mp hkey).resolve_left (Ne.symm heq))
  refine ⟨?_, key, rest, by rw [hrest]⟩
  obtain ⟨before, hbefore⟩ := dropWhile_suffix (l := stack) (· ≠ key)
  have hsuffix : (stack.dropWhile (· ≠ key) ++ [key]) <:+ stack ++ [key] :=
    ⟨before, by rw [← append_assoc, hbefore]⟩
  exact hstacked.chain.suffix hsuffix

/-- The keys have entries, and what they need is among them. -/
def Closed (successors : Key → Option (List Key)) (keys : Finset Key) : Prop :=
  ∀ key ∈ keys, ∃ needed, successors key = some needed ∧ ∀ next ∈ needed, next ∈ keys

variable [DecidableEq Key]

theorem visit_visited (hclosed : Closed successors keys) {fuel : Nat} (hkey : key ∈ keys)
    (hstacked : Stacked successors keys stack key) (hfuel : keys.card < fuel + stack.length)
    (hsettled : Settled successors complete) :
    Visited successors [key] complete (visit successors fuel stack key complete) := by
  induction fuel generalizing stack key complete with
  | zero =>
    have hheight := hstacked.length_le
    omega
  | succ fuel ih =>
    unfold visit
    split_ifs with hstack hdone
    · exact .cycle _ (hstacked.isCycle hstack)
    · exact .done complete hsettled (List.Subset.refl _) (by simpa using hdone)
    · obtain ⟨needed, hneeded, hmem⟩ := hclosed key hkey
      rw [hneeded]
      have hbelow : Visited successors needed complete
          (visitAll (visit successors fuel (stack ++ [key])) needed complete) := by
        refine visitAll_visited ?_ hsettled
        intro next hnext complete hsettled
        apply ih (hmem next hnext) (hstacked.push hstack hkey ⟨needed, hneeded, hnext⟩) _ hsettled
        simp only [length_append, length_singleton]
        omega
      simp only
      generalize visitAll (visit successors fuel (stack ++ [key])) needed complete = result
        at hbelow ⊢
      cases hbelow with
      | cycle cycle hcycle => exact .cycle cycle hcycle
      | done after hafter hgrows hkeys =>
        exact .done (key :: after) (hafter.cons hneeded hkeys)
          (subset_cons_of_subset _ hgrows) (by simp)

/-- Visit each of the keys, with nothing on the stack. -/
def check (successors : Key → Option (List Key)) (order : List Key) : Visit Key :=
  visitAll (visit successors (order.length + 1) []) order []

theorem check_visited {order : List Key} (hclosed : Closed successors order.toFinset) :
    Visited successors order [] (check successors order) := by
  refine visitAll_visited ?_ settled_nil
  intro key hkey complete hsettled
  apply visit_visited hclosed (mem_toFinset.mpr hkey) (stacked_nil key) _ hsettled
  have hcard := order.toFinset_card_le
  simp only [length_nil]
  omega

end CycleSearch
