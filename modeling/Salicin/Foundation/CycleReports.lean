import Salicin.Foundation.CycleSearch

/-!
# A depth-first search that reports cycles

The search marks the keys that it is working on and the keys that are done. A key that is met
while it is worked on is reported with the walk that leads back to it, and the search goes on.
There is a report exactly when some key can reach itself.
-/

namespace CycleReports

open List CycleSearch

variable {Key : Type*}

inductive Mark
  | visiting
  | done

/-- The marks, the keys that the search is working on, and the cycles reported so far. -/
structure Search (Key : Type*) where
  marks : Key → Option Mark
  stack : List Key
  cycles : List (List Key)

def Search.start : Search Key := ⟨fun _ => none, [], []⟩

/-- Visit some keys one after the other. -/
def visitEach (visit : Key → Search Key → Option (Search Key)) :
    List Key → Search Key → Option (Search Key)
  | [], search => some search
  | key :: rest, search => (visit key search).bind (visitEach visit rest)

variable [DecidableEq Key]

/-- The part of the stack from the key on, and the key again. -/
def Search.cycleAt (search : Search Key) (key : Key) : List Key :=
  search.stack.drop ((search.stack.findIdx? (· = key)).getD 0) ++ [key]

def Search.report (search : Search Key) (key : Key) : Search Key :=
  { search with cycles := search.cycles ++ [search.cycleAt key] }

def Search.enter (search : Search Key) (key : Key) : Search Key where
  marks := Function.update search.marks key (some .visiting)
  stack := search.stack ++ [key]
  cycles := search.cycles

def Search.leave (search : Search Key) (key : Key) : Search Key where
  marks := Function.update search.marks key (some .done)
  stack := search.stack.dropLast
  cycles := search.cycles

/-- Visit a key. The fuel bounds the height of the stack. -/
def visit (successors : Key → List Key) : Nat → Key → Search Key → Option (Search Key)
  | 0, _, _ => none
  | fuel + 1, key, search =>
    match search.marks key with
    | some .done => some search
    | some .visiting => some (search.report key)
    | none =>
      (visitEach (visit successors fuel) (successors key) (search.enter key)).map fun search =>
        search.leave key

/-- The edges of the graph, as the search for one cycle has them. -/
abbrev Step (successors : Key → List Key) : Key → Key → Prop :=
  Edge fun key => some (successors key)

omit [DecidableEq Key] in
theorem step_iff {successors : Key → List Key} {key next : Key} :
    Step successors key next ↔ next ∈ successors key := by
  simp [Step, Edge]

/-- The keys of the stack are those that the search is working on. As long as there is no report,
the keys that are done reach done keys only, and none of them reaches itself. -/
structure Valid (successors : Key → List Key) (search : Search Key) : Prop where
  visiting : ∀ key, search.marks key = some .visiting ↔ key ∈ search.stack
  reported : ∀ cycle ∈ search.cycles, IsCycle (fun key => some (successors key)) cycle
  settled : search.cycles = [] → ∃ complete, (∀ key, search.marks key = some .done ↔ key ∈ complete) ∧
    Settled (fun key => some (successors key)) complete

omit [DecidableEq Key] in
theorem valid_start (successors : Key → List Key) : Valid successors Search.start where
  visiting := by simp [Search.start]
  reported := by simp [Search.start]
  settled _ := ⟨[], by simp [Search.start], settled_nil⟩

/-- What a visit of some keys leaves behind. -/
structure Visited (successors : Key → List Key) (keys : List Key) (before after : Search Key) :
    Prop where
  valid : Valid successors after
  stack : after.stack = before.stack
  cycles : before.cycles <+: after.cycles
  done : ∀ key, before.marks key = some .done → after.marks key = some .done
  keys : after.cycles = [] → ∀ key ∈ keys, after.marks key = some .done

variable {successors : Key → List Key}

omit [DecidableEq Key] in
theorem visitEach_visited {visitKey : Key → Search Key → Option (Search Key)} {keys : List Key}
    {stack : List Key}
    (hvisit : ∀ key ∈ keys, ∀ search, Valid successors search → search.stack = stack →
      ∃ after, visitKey key search = some after ∧ Visited successors [key] search after)
    {search : Search Key} (hvalid : Valid successors search) (hstack : search.stack = stack) :
    ∃ after, visitEach visitKey keys search = some after ∧
      Visited successors keys search after := by
  induction keys generalizing search with
  | nil =>
    exact ⟨search, rfl, hvalid, rfl, prefix_refl _, fun _ hdone => hdone, by simp⟩
  | cons key rest ih =>
    obtain ⟨middle, hmid, hfst⟩ := hvisit key mem_cons_self search hvalid hstack
    obtain ⟨after, hafter, hrest⟩ := ih
      (fun other hother => hvisit other (mem_cons_of_mem _ hother)) hfst.valid
      (hfst.stack.trans hstack)
    refine ⟨after, by rw [visitEach, hmid, Option.bind_some, hafter], hrest.valid,
      hrest.stack.trans hfst.stack, hfst.cycles.trans hrest.cycles,
      fun other hdone => hrest.done other (hfst.done other hdone), ?_⟩
    intro hnone other hother
    have hmiddleNone : middle.cycles = [] := prefix_nil.mp (hnone ▸ hrest.cycles)
    rcases mem_cons.mp hother with rfl | hother
    · exact hrest.done _ (hfst.keys hmiddleNone _ mem_cons_self)
    · exact hrest.keys hnone other hother

variable {keys : Finset Key} {key : Key} {search : Search Key}

theorem cycleAt_eq (hkey : key ∈ search.stack) :
    search.cycleAt key = search.stack.dropWhile (· ≠ key) ++ [key] := by
  have hfound : search.stack.findIdx? (· = key) = some (search.stack.findIdx (· = key)) := by
    rw [findIdx?_eq_some_iff_findIdx_eq]
    exact ⟨findIdx_lt_length.mpr ⟨key, hkey, by simp⟩, rfl⟩
  rw [Search.cycleAt, hfound, Option.getD_some]
  congr 1
  rw [dropWhile_eq_drop_findIdx_not]
  congr 2
  funext other
  simp

theorem Valid.report (hvalid : Valid successors search)
    (hstacked : Stacked (fun key => some (successors key)) keys search.stack key)
    (hmark : search.marks key = some .visiting) :
    Visited successors [key] search (search.report key) := by
  have hkey := (hvalid.visiting key).mp hmark
  refine ⟨⟨hvalid.visiting, ?_, by simp [Search.report]⟩, rfl, prefix_append _ _,
    fun _ hdone => hdone, by simp [Search.report]⟩
  intro cycle hcycle
  rcases mem_append.mp hcycle with hcycle | hcycle
  · exact hvalid.reported cycle hcycle
  · rw [mem_singleton.mp hcycle, cycleAt_eq hkey]
    exact hstacked.isCycle hkey

theorem Valid.enter (hvalid : Valid successors search) (hmark : search.marks key = none) :
    Valid successors (search.enter key) where
  visiting := by
    intro other
    by_cases heq : other = key
    · simp [Search.enter, heq]
    · simp [Search.enter, heq, hvalid.visiting]
  reported := hvalid.reported
  settled := by
    intro hnone
    obtain ⟨complete, hcomplete, hsettled⟩ := hvalid.settled hnone
    refine ⟨complete, ?_, hsettled⟩
    intro other
    by_cases heq : other = key
    · have hnot : key ∉ complete := fun hmem => by simp [(hcomplete key).mpr hmem] at hmark
      simp [Search.enter, heq, hnot]
    · simp [Search.enter, heq, hcomplete]

theorem Visited.leave (hmark : search.marks key = none) (hvalid : Valid successors search)
    {after : Search Key} (hvisited : Visited successors (successors key) (search.enter key) after) :
    Visited successors [key] search (after.leave key) := by
  have hfresh : key ∉ search.stack := fun hmem => by simp [(hvalid.visiting key).mpr hmem] at hmark
  have hstack : after.stack = search.stack ++ [key] := hvisited.stack
  refine ⟨⟨?_, hvisited.valid.reported, ?_⟩, by simp [Search.leave, hstack], hvisited.cycles, ?_, ?_⟩
  · intro other
    by_cases heq : other = key
    · simp [Search.leave, heq, hstack, hfresh]
    · simp [Search.leave, heq, hvisited.valid.visiting, hstack]
  · intro hnone
    obtain ⟨complete, hcomplete, hsettled⟩ := hvisited.valid.settled hnone
    refine ⟨key :: complete, ?_, hsettled.cons rfl ?_⟩
    · intro other
      by_cases heq : other = key
      · simp [Search.leave, heq]
      · simp [Search.leave, heq, hcomplete]
    · intro next hnext
      exact (hcomplete next).mp (hvisited.keys hnone next hnext)
  · intro other hdone
    by_cases heq : other = key
    · simp [Search.leave, heq]
    · simpa [Search.leave, heq] using hvisited.done other (by simpa [Search.enter, heq] using hdone)
  · intro _ other hother
    simp [Search.leave, mem_singleton.mp hother]

theorem visit_visited (hclosed : Closed (fun key => some (successors key)) keys) {fuel : Nat}
    (hkey : key ∈ keys) (hvalid : Valid successors search)
    (hstacked : Stacked (fun key => some (successors key)) keys search.stack key)
    (hfuel : keys.card < fuel + search.stack.length) :
    ∃ after, visit successors fuel key search = some after ∧
      Visited successors [key] search after := by
  induction fuel generalizing key search with
  | zero =>
    have hheight := hstacked.length_le
    omega
  | succ fuel ih =>
    unfold visit
    cases hmark : search.marks key with
    | some mark =>
      cases mark with
      | visiting => exact ⟨_, rfl, hvalid.report hstacked hmark⟩
      | done =>
        refine ⟨search, rfl, hvalid, rfl, prefix_refl _, fun _ hdone => hdone, ?_⟩
        intro _ other hother
        rw [mem_singleton.mp hother]
        exact hmark
    | none =>
      have hfresh : key ∉ search.stack := fun hmem => by
        simp [(hvalid.visiting key).mpr hmem] at hmark
      obtain ⟨_, hneeded, hmem⟩ := hclosed key hkey
      cases hneeded
      have hvisit : ∀ next ∈ successors key, ∀ other, Valid successors other →
          other.stack = search.stack ++ [key] →
          ∃ after, visit successors fuel next other = some after ∧
            Visited successors [next] other after := by
        intro next hnext other hother hstack
        apply ih (hmem next hnext) hother
        · rw [hstack]
          exact hstacked.push hfresh hkey ⟨_, rfl, hnext⟩
        · rw [hstack, length_append, length_singleton]
          omega
      obtain ⟨after, hafter, hvisited⟩ := visitEach_visited hvisit (hvalid.enter hmark) rfl
      exact ⟨after.leave key, by simp [hafter], hvisited.leave hmark hvalid⟩

/-- Visit each of the keys. -/
def check (successors : Key → List Key) (order : List Key) : Option (List (List Key)) :=
  (visitEach (visit successors ((order ++ order.flatMap successors).length + 1)) order
    Search.start).map Search.cycles

/-- The check ends, and each of its reports is a cycle. If the keys with successors are all in the
order, it reports nothing exactly when no key reaches itself. -/
theorem check_reports {order : List Key} (hcover : ∀ key, successors key ≠ [] → key ∈ order) :
    ∃ cycles, check successors order = some cycles ∧
      (∀ cycle ∈ cycles, IsCycle (fun key => some (successors key)) cycle) ∧
      (cycles = [] ↔ ∀ key, ¬ Relation.TransGen (Step successors) key key) := by
  have hclosed : Closed (fun key => some (successors key))
      (order ++ order.flatMap successors).toFinset := by
    intro key _
    refine ⟨_, rfl, ?_⟩
    intro next hnext
    have hkey := hcover key (ne_nil_of_mem hnext)
    exact mem_toFinset.mpr (mem_append_right _ (mem_flatMap.mpr ⟨key, hkey, hnext⟩))
  have hcard := (order ++ order.flatMap successors).toFinset_card_le
  have hvisit : ∀ key ∈ order, ∀ search, Valid successors search → search.stack = [] →
      ∃ after, visit successors ((order ++ order.flatMap successors).length + 1) key search =
        some after ∧ Visited successors [key] search after := by
    intro key hkey search hsearch hstack
    apply visit_visited hclosed (mem_toFinset.mpr (mem_append_left _ hkey)) hsearch
    · rw [hstack]
      exact stacked_nil key
    · omega
  obtain ⟨after, hafter, hvisited⟩ := visitEach_visited hvisit (valid_start successors) rfl
  refine ⟨after.cycles, by rw [check, hafter, Option.map_some], hvisited.valid.reported, ?_⟩
  constructor
  · intro hnone key hcycle
    obtain ⟨complete, hcomplete, hsettled⟩ := hvisited.valid.settled hnone
    obtain ⟨next, hedge, _⟩ := Relation.TransGen.head'_iff.mp hcycle
    have hkey := hcover key (ne_nil_of_mem (step_iff.mp hedge))
    exact hsettled.acyclic key ((hcomplete key).mp (hvisited.keys hnone key hkey)) hcycle
  · intro hacyclic
    apply eq_nil_iff_forall_not_mem.mpr
    intro cycle hcycle
    obtain ⟨key, hreach⟩ := (hvisited.valid.reported cycle hcycle).transGen
    exact hacyclic key hreach

end CycleReports
