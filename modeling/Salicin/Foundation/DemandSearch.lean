import Salicin.Foundation.DemandGraph

/-!
# The depth-first search for the values

The search keeps the values it has found, the keys it has given up, and the stack of the keys
it is working on. A key that is already on the stack closes a cycle, which is reported.
-/

namespace DemandGraph

open List

variable {Key Value Error Result : Type*} [DecidableEq Key]

inductive Report (Key Error : Type*)
  | failure (key : Key) (error : Error)
  | cycle (keys : List Key)

structure Search (Key Value Error : Type*) where
  resolved : AList fun _ : Key => Value
  failed : Finset Key
  reports : List (Report Key Error)

inductive Failure
  | failed
  | exhausted

variable {key : Key}

namespace Search

def empty : Search Key Value Error := ⟨∅, ∅, []⟩

def report (state : Search Key Value Error) (msg : Report Key Error) : Search Key Value Error :=
  { state with reports := state.reports ++ [msg] }

def giveUp (state : Search Key Value Error) (keys : List Key) : Search Key Value Error :=
  { state with failed := state.failed ∪ keys.toFinset }

def find (state : Search Key Value Error) (key : Key) (val : Value) : Search Key Value Error :=
  { state with resolved := state.resolved.insert key val }

/-- Everything that has been found out is kept. -/
structure Grows (first second : Search Key Value Error) : Prop where
  resolved : ∀ key val, first.resolved.lookup key = some val → second.resolved.lookup key = some val
  failed : first.failed ⊆ second.failed
  reports : first.reports ⊆ second.reports

theorem Grows.refl (state : Search Key Value Error) : Grows state state :=
  ⟨fun _ _ hkey => hkey, Finset.Subset.refl _, List.Subset.refl _⟩

theorem Grows.trans {first second third : Search Key Value Error} (hfst : Grows first second)
    (hsnd : Grows second third) : Grows first third :=
  ⟨fun key val hkey => hsnd.resolved key val (hfst.resolved key val hkey),
    Finset.Subset.trans hfst.failed hsnd.failed, List.Subset.trans hfst.reports hsnd.reports⟩

theorem grows_report (state : Search Key Value Error) (msg : Report Key Error) :
    Grows state (state.report msg) :=
  ⟨fun _ _ hkey => hkey, Finset.Subset.refl _, subset_append_left _ _⟩

theorem grows_giveUp (state : Search Key Value Error) (keys : List Key) :
    Grows state (state.giveUp keys) :=
  ⟨fun _ _ hkey => hkey, Finset.subset_union_left, List.Subset.refl _⟩

/-- The key is on a cycle that has been reported. -/
def Cyclic (state : Search Key Value Error) (key : Key) : Prop :=
  ∃ cycle, Report.cycle cycle ∈ state.reports ∧ key ∈ cycle

theorem Cyclic.mono {first second : Search Key Value Error} (hcyclic : first.Cyclic key)
    (hgrows : Grows first second) : second.Cyclic key := by
  obtain ⟨cycle, hcycle, hkey⟩ := hcyclic
  exact ⟨cycle, hgrows.reports hcycle, hkey⟩

end Search

/-- Follow a query, with a search for each key that it asks for. -/
def follow (solve : Key → Search Key Value Error → Except Failure Value × Search Key Value Error)
    (key : Key) : Query Key Value Error Result → Search Key Value Error →
      Except Failure Result × Search Key Value Error
  | .done val, state => (.ok val, state)
  | .fail error, state => (.error .failed, state.report (.failure key error))
  | .ask needed next, state =>
    match solve needed state with
    | (.ok val, state) => follow solve key (next val) state
    | (.error failure, state) => (.error failure, state)

omit [DecidableEq Key] in
theorem follow_bind {Next : Type*}
    (solve : Key → Search Key Value Error → Except Failure Value × Search Key Value Error)
    (key : Key) (query : Query Key Value Error Result)
    (rest : Result → Query Key Value Error Next) (state : Search Key Value Error) :
    follow solve key (query.bind rest) state =
      match follow solve key query state with
      | (.ok res, state) => follow solve key (rest res) state
      | (.error failure, state) => (.error failure, state) := by
  induction query generalizing state with
  | done val => rfl
  | fail error => rfl
  | ask needed next ih =>
    simp only [Query.bind, follow]
    rcases solve needed state with ⟨_ | val, after⟩
    · rfl
    · exact ih val after

/-- Note what the query of a key has come to. -/
def settle (key : Key) : Except Failure Value × Search Key Value Error →
    Except Failure Value × Search Key Value Error
  | (.ok val, state) => (.ok val, state.find key val)
  | (.error failure, state) => (.error failure, state.giveUp [key])

variable (system : System Key Value Error)

/-- Search for the value of a key. The fuel bounds the height of the stack. -/
def solve : Nat → List Key → Key → Search Key Value Error →
    Except Failure Value × Search Key Value Error
  | 0, _, _, state => (.error .exhausted, state)
  | fuel + 1, stack, key, state =>
    match state.resolved.lookup key with
    | some val => (.ok val, state)
    | none =>
      if key ∈ state.failed then (.error .failed, state)
      else if key ∈ stack then
        let cycle := stack.dropWhile (· ≠ key)
        (.error .failed, (state.report (.cycle cycle)).giveUp cycle)
      else
        match system.definition key with
        | none => (.error .failed, state)
        | some query => settle key (follow (solve fuel (stack ++ [key])) key query state)

/-! ## What the search finds -/

/-- The state of the search says the truth about the table of values. -/
structure Search.Sound (state : Search Key Value Error) : Prop where
  resolved : ∀ key val, state.resolved.lookup key = some val → outcome system key = some val
  failed : ∀ key ∈ state.failed, outcome system key = none
  reported : ∀ key ∈ state.failed, WaitsForItself system key → state.Cyclic key
  cycle : ∀ cycle, Report.cycle cycle ∈ state.reports → ∀ key ∈ cycle, WaitsForItself system key
  closed : ∀ cycle, Report.cycle cycle ∈ state.reports → ∀ key ∈ cycle, ∀ needed,
    Waits system key needed → needed ∈ cycle

variable {system}

theorem Search.Sound.empty : Search.Sound system (Search.empty : Search Key Value Error) := by
  constructor <;> simp [Search.empty]

variable {state : Search Key Value Error}

theorem Search.Sound.cyclic_back (hsound : state.Sound system) {needed : Key}
    (hself : WaitsForItself system key) (hwaits : Waits system key needed)
    (hcyclic : state.Cyclic needed) : state.Cyclic key := by
  obtain ⟨cycle, hcycle, hneeded⟩ := hcyclic
  refine ⟨cycle, hcycle, ?_⟩
  have hback := hself.back hwaits
  clear hwaits hself
  induction hback using Relation.TransGen.head_induction_on with
  | single hlast => exact hsound.closed cycle hcycle _ hneeded _ hlast
  | head hfst _ ih => exact ih (hsound.closed cycle hcycle _ hneeded _ hfst)

/-- What a search for a key leaves behind. -/
structure Solved (system : System Key Value Error) (key : Key) (state : Search Key Value Error)
    (result : Except Failure Value × Search Key Value Error) : Prop where
  sound : result.2.Sound system
  grows : state.Grows result.2
  value : ∀ val, result.1 = .ok val →
    outcome system key = some val ∧ result.2.resolved.lookup key = some val
  failed : ∀ failure, result.1 = .error failure → failure = .failed ∧
    outcome system key = none ∧ ((system.definition key).isSome → key ∈ result.2.failed)

/-- What following a query leaves behind. -/
structure Followed (system : System Key Value Error) (query : Query Key Value Error Result) (state : Search Key Value Error)
    (result : Except Failure Result × Search Key Value Error) : Prop where
  sound : result.2.Sound system
  grows : state.Grows result.2
  value : ∀ val, result.1 = .ok val → query.answer (outcome system) = .value val
  failed : ∀ failure, result.1 = .error failure → failure = .failed ∧
    (∀ val, query.answer (outcome system) ≠ .value val) ∧
    ∀ needed, query.answer (outcome system) = .waits needed →
      (system.definition needed).isSome → needed ∈ result.2.failed

/-- The keys of the stack are all different, and each has asked for the one above it. -/
structure Stacked (system : System Key Value Error) (stack : List Key) (key : Key) : Prop where
  nodup : stack.Nodup
  known : ∀ entry ∈ stack, entry ∈ system.keys
  asks : (stack ++ [key]).IsChain (Asks system)

omit [DecidableEq Key] in
theorem Stacked.push {stack : List Key} {needed : Key} (hstacked : Stacked system stack key)
    (hfresh : key ∉ stack) (hkey : key ∈ system.keys) (hasks : Asks system key needed) :
    Stacked system (stack ++ [key]) needed where
  nodup := by
    rw [nodup_append]
    refine ⟨hstacked.nodup, nodup_singleton key, ?_⟩
    intro entry hentry other hother heq
    exact hfresh (by simpa [← mem_singleton.mp hother, ← heq] using hentry)
  known := by
    intro entry hentry
    rcases mem_append.mp hentry with hentry | hentry
    · exact hstacked.known entry hentry
    · simpa [mem_singleton.mp hentry] using hkey
  asks := by
    refine isChain_append.mpr ⟨hstacked.asks, isChain_singleton needed, ?_⟩
    simpa using hasks

omit [DecidableEq Key] in
theorem transGen_of_isChain {R : Key → Key → Prop} {first last : Key} {rest : List Key}
    (hchain : (first :: rest ++ [last]).IsChain R) {entry : Key} (hentry : entry ∈ first :: rest) :
    Relation.ReflTransGen R first entry ∧ Relation.TransGen R entry last := by
  induction rest generalizing first entry with
  | nil =>
    obtain rfl := mem_singleton.mp hentry
    exact ⟨.refl, .single (by simpa using hchain)⟩
  | cons second rest ih =>
    have hfst : R first second := (isChain_cons_cons.mp hchain).1
    have hrest := (isChain_cons_cons.mp hchain).2
    rcases mem_cons.mp hentry with rfl | hentry
    · exact ⟨.refl, .head hfst (ih hrest mem_cons_self).2⟩
    · obtain ⟨hfrom, hto⟩ := ih hrest hentry
      exact ⟨.head hfst hfrom, hto⟩

omit [DecidableEq Key] in
theorem exists_next_of_isChain {R : Key → Key → Prop} {first last : Key} {rest : List Key}
    (hchain : (first :: rest ++ [last]).IsChain R) {entry : Key} (hentry : entry ∈ first :: rest) :
    ∃ next ∈ rest ++ [last], R entry next := by
  induction rest generalizing first with
  | nil =>
    obtain rfl := mem_singleton.mp hentry
    exact ⟨last, by simp, by simpa using hchain⟩
  | cons second rest ih =>
    rcases mem_cons.mp hentry with rfl | hentry
    · exact ⟨second, by simp, (isChain_cons_cons.mp hchain).1⟩
    · obtain ⟨next, hnext, hentry⟩ := ih (isChain_cons_cons.mp hchain).2 hentry
      exact ⟨next, by simp_all, hentry⟩

/-- From a key that is on the stack already, each key waits for the one above it. -/
theorem Stacked.cycle {stack : List Key} (hstacked : Stacked system stack key)
    (hkey : key ∈ stack) :
    ∃ rest, stack.dropWhile (· ≠ key) = key :: rest ∧
      (key :: rest ++ [key]).IsChain (Waits system) := by
  obtain ⟨before, rest, rfl, hbefore⟩ := eq_append_cons_of_mem hkey
  have hchain : (key :: rest ++ [key]).IsChain (Asks system) := by
    have hasks := hstacked.asks
    rw [append_assoc] at hasks
    exact hasks.right_of_append
  refine ⟨rest, ?_, ?_⟩
  · rw [dropWhile_append_of_pos]
    · simp
    · intro entry hentry
      simpa using fun heq : entry = key => hbefore (heq ▸ hentry)
  · apply List.IsChain.imp_of_mem_imp _ hchain
    intro entry needed _ hneeded hasks
    apply hasks.waits
    have hcycle : needed ∈ key :: rest := by
      rcases mem_append.mp hneeded with hneeded | hneeded
      · exact hneeded
      · exact mem_singleton.mp hneeded ▸ mem_cons_self
    obtain ⟨hfrom, hto⟩ := transGen_of_isChain hchain hcycle
    exact outcome_eq_none_of_cycle (hto.trans_left hfrom)

theorem Search.Sound.closeCycle (hsound : state.Sound system) {rest : List Key}
    (hchain : (key :: rest ++ [key]).IsChain (Waits system)) :
    Search.Sound system ((state.report (.cycle (key :: rest))).giveUp (key :: rest)) := by
  have hself : ∀ entry ∈ key :: rest, WaitsForItself system entry := by
    intro entry hentry
    obtain ⟨hfrom, hto⟩ := transGen_of_isChain hchain hentry
    exact hto.trans_left hfrom
  have hclosed : ∀ entry ∈ key :: rest, ∀ needed, Waits system entry needed →
      needed ∈ key :: rest := by
    intro entry hentry needed hneeded
    obtain ⟨next, hnext, hwaits⟩ := exists_next_of_isChain hchain hentry
    obtain rfl := hneeded.unique hwaits
    simpa [or_comm] using hnext
  constructor
  · exact hsound.resolved
  · intro entry hentry
    rcases Finset.mem_union.mp hentry with hentry | hentry
    · exact hsound.failed entry hentry
    · obtain ⟨needed, hwaits⟩ := (hself entry (mem_toFinset.mp hentry)).exists_waits
      exact hwaits.outcome_eq_none
  · intro entry hentry hwaits
    rcases Finset.mem_union.mp hentry with hentry | hentry
    · exact (hsound.reported entry hentry hwaits).mono
        ((state.grows_report _).trans (Search.grows_giveUp _ _))
    · exact ⟨key :: rest, mem_append_right _ (mem_singleton_self _), mem_toFinset.mp hentry⟩
  · intro cycle hcycle
    rcases mem_append.mp hcycle with hcycle | hcycle
    · exact hsound.cycle cycle hcycle
    · obtain rfl : cycle = key :: rest := by simpa using hcycle
      exact hself
  · intro cycle hcycle
    rcases mem_append.mp hcycle with hcycle | hcycle
    · exact hsound.closed cycle hcycle
    · obtain rfl : cycle = key :: rest := by simpa using hcycle
      exact hclosed

theorem Search.Sound.reportFailure (hsound : state.Sound system) (key : Key) (error : Error) :
    Search.Sound system (state.report (.failure key error)) := by
  have hcycle : ∀ cycle, Report.cycle cycle ∈ (state.report (.failure key error)).reports →
      Report.cycle cycle ∈ state.reports := by
    intro cycle hcycle
    simpa [Search.report] using hcycle
  constructor
  · exact hsound.resolved
  · exact hsound.failed
  · exact fun entry hentry hself => (hsound.reported entry hentry hself).mono
      (Search.grows_report state _)
  · exact fun cycle hmem => hsound.cycle cycle (hcycle cycle hmem)
  · exact fun cycle hmem => hsound.closed cycle (hcycle cycle hmem)

theorem Search.Sound.find (hsound : state.Sound system) {val : Value}
    (hval : outcome system key = some val) :
    Search.Sound system (state.find key val) := by
  refine ⟨?_, hsound.failed, hsound.reported, hsound.cycle, hsound.closed⟩
  intro entry found hfound
  by_cases heq : entry = key
  · subst heq
    rw [Search.find, AList.lookup_insert] at hfound
    rw [hval, hfound]
  · rw [Search.find, AList.lookup_insert_ne heq] at hfound
    exact hsound.resolved entry found hfound

theorem Search.Sound.grows_find (hsound : state.Sound system) {val : Value}
    (hval : outcome system key = some val) :
    state.Grows (state.find key val) := by
  refine ⟨?_, Finset.Subset.refl _, List.Subset.refl _⟩
  intro entry found hfound
  by_cases heq : entry = key
  · subst heq
    have hsame := hsound.resolved entry found hfound
    rw [Search.find, AList.lookup_insert, ← hsame, hval]
  · rwa [Search.find, AList.lookup_insert_ne heq]

/-- Giving up a key keeps the state true: if the key waits for itself, the search for the key
it waits for has reported the cycle. -/
theorem Search.Sound.giveUpKey (hsound : state.Sound system) (hval : outcome system key = none)
    (hneeded : ∀ needed, Waits system key needed → (system.definition needed).isSome →
      needed ∈ state.failed) :
    Search.Sound system (state.giveUp [key]) := by
  have hmem : ∀ entry, entry ∈ (state.giveUp [key]).failed → entry ∈ state.failed ∨ entry = key := by
    intro entry hentry
    simpa [Search.giveUp, or_comm] using hentry
  refine ⟨hsound.resolved, ?_, ?_, hsound.cycle, hsound.closed⟩
  · intro entry hentry
    rcases hmem entry hentry with hentry | rfl
    · exact hsound.failed entry hentry
    · exact hval
  · intro entry hentry hself
    rcases hmem entry hentry with hentry | rfl
    · exact (hsound.reported entry hentry hself).mono (Search.grows_giveUp state _)
    · obtain ⟨needed, hwaits⟩ := hself.exists_waits
      have hnext := hself.next hwaits
      obtain ⟨_, query, hquery, _⟩ := hnext.exists_waits
      have hfailed := hneeded needed hwaits (by simp [hquery])
      exact hsound.cyclic_back hself hwaits (hsound.reported needed hfailed hnext)

/-- Following a query finds its answer if the searches below find theirs. -/
theorem follow_followed
    {search : Key → Search Key Value Error → Except Failure Value × Search Key Value Error}
    {whole query : Query Key Value Error Result}
    (hsearch : ∀ needed next state, state.Sound system →
      Query.Residual (outcome system) whole (.ask needed next) →
      Solved system needed state (search needed state))
    (hresidual : Query.Residual (outcome system) whole query) (hsound : state.Sound system) :
    Followed system query state (follow search key query state) := by
  induction query generalizing state with
  | done val =>
    refine ⟨hsound, .refl state, ?_, ?_⟩
    · intro found hfound
      simpa [follow, Query.answer] using hfound
    · simp [follow]
  | fail error =>
    refine ⟨hsound.reportFailure key error, state.grows_report _, ?_, ?_⟩
    · simp [follow]
    · intro failure hfail
      simp only [follow, Except.error.injEq] at hfail
      simp [hfail, Query.answer]
  | ask needed next ih =>
    have hsolved := hsearch needed next state hsound hresidual
    rcases hres : search needed state with ⟨failure | val, after⟩
    · rw [hres] at hsolved
      obtain ⟨hfail, hnone, hfailed⟩ := hsolved.failed failure rfl
      simp only [follow, hres]
      refine ⟨hsolved.sound, hsolved.grows, by simp, ?_⟩
      intro other hother
      obtain rfl : failure = other := by simpa using hother
      refine ⟨hfail, by simp [Query.answer, hnone], ?_⟩
      intro entry hentry
      obtain rfl : needed = entry := by simpa [Query.answer, hnone] using hentry
      exact hfailed
    · rw [hres] at hsolved
      obtain ⟨hval, _⟩ := hsolved.value val rfl
      have hrest := ih val (hresidual.ask hval) hsolved.sound
      simp only [follow, hres]
      have hans : (Query.ask needed next).answer (outcome system) =
          (next val).answer (outcome system) := by
        rw [Query.answer, hval]
      exact ⟨hrest.sound, hsolved.grows.trans hrest.grows, hans ▸ hrest.value, hans ▸ hrest.failed⟩

/-- What following the query of a key finds is the value of the key. -/
theorem Followed.settle {query : Query Key Value Error Value}
    {res : Except Failure Value × Search Key Value Error}
    (hfollowed : Followed system query state res) (hdef : system.definition key = some query) :
    Solved system key state (settle key res) := by
  have hunique : ∀ other, system.definition key = some other → query = other := by
    intro other hother
    simpa [hdef] using hother
  rcases res with ⟨failure | val, after⟩
  · obtain ⟨hfail, hans, hneeded⟩ := hfollowed.failed failure rfl
    have hnone : outcome system key = none := by
      rw [Option.eq_none_iff_forall_ne_some]
      intro val hval
      obtain ⟨other, hother, hval⟩ := (outcome_eq_some system).mp hval
      obtain rfl := hunique other hother
      exact hans val hval
    have hwaited : ∀ needed, Waits system key needed → (system.definition needed).isSome →
        needed ∈ after.failed := by
      rintro needed ⟨other, hother, hwaits⟩
      obtain rfl := hunique other hother
      exact hneeded needed hwaits
    refine ⟨hfollowed.sound.giveUpKey hnone hwaited,
      hfollowed.grows.trans (Search.grows_giveUp _ _), by simp [DemandGraph.settle], ?_⟩
    intro other hother
    obtain rfl : failure = other := by simpa [DemandGraph.settle] using hother
    exact ⟨hfail, hnone, fun _ => Finset.mem_union_right _ (by simp)⟩
  · have hval : outcome system key = some val :=
      (outcome_eq_some system).mpr ⟨query, hdef, hfollowed.value val rfl⟩
    refine ⟨hfollowed.sound.find hval, hfollowed.grows.trans (hfollowed.sound.grows_find hval),
      ?_, by simp [DemandGraph.settle]⟩
    intro found hfound
    obtain rfl : val = found := by simpa [DemandGraph.settle] using hfound
    exact ⟨hval, AList.lookup_insert _⟩

/-- The search tells what the table of values says about the key. -/
theorem solve_solved {fuel : Nat} {stack : List Key} (hsound : state.Sound system)
    (hstacked : Stacked system stack key) (hfuel : system.keys.card < fuel + stack.length) :
    Solved system key state (solve system fuel stack key state) := by
  induction fuel generalizing stack key state with
  | zero =>
    have hcard : stack.length ≤ system.keys.card := by
      rw [← toFinset_card_of_nodup hstacked.nodup]
      exact Finset.card_le_card fun entry hentry =>
        hstacked.known entry (mem_toFinset.mp hentry)
    omega
  | succ fuel ih =>
    unfold solve
    cases hresolved : state.resolved.lookup key with
    | some val =>
      refine ⟨hsound, .refl state, ?_, by simp⟩
      intro found hfound
      obtain rfl : val = found := by simpa using hfound
      exact ⟨hsound.resolved key val hresolved, hresolved⟩
    | none =>
      simp only
      split_ifs with hfailed hcycle
      · refine ⟨hsound, .refl state, by simp, ?_⟩
        intro failure hfail
        exact ⟨by simpa using hfail.symm, hsound.failed key hfailed, fun _ => hfailed⟩
      · obtain ⟨rest, hrest, hchain⟩ := hstacked.cycle hcycle
        rw [hrest]
        have hafter := hsound.closeCycle hchain
        have hkey : key ∈ ((state.report (.cycle (key :: rest))).giveUp (key :: rest)).failed :=
          Finset.mem_union_right _ (by simp)
        refine ⟨hafter, (state.grows_report _).trans (Search.grows_giveUp _ _), by simp, ?_⟩
        intro failure hfail
        exact ⟨by simpa using hfail.symm, hafter.failed key hkey, fun _ => hkey⟩
      · cases hdef : system.definition key with
        | none =>
          refine ⟨hsound, .refl state, by simp, ?_⟩
          intro failure hfail
          refine ⟨by simpa using hfail.symm, ?_, by simp [hdef]⟩
          rw [Option.eq_none_iff_forall_ne_some]
          intro val hval
          obtain ⟨query, hquery, _⟩ := (outcome_eq_some system).mp hval
          simp [hdef] at hquery
        | some query =>
          have hknown : key ∈ system.keys := (system.mem_keys key).mpr (by simp [hdef])
          apply Followed.settle _ hdef
          refine follow_followed ?_ .refl hsound
          intro needed next state hstate hresidual
          apply ih hstate (hstacked.push hcycle hknown ⟨query, next, hdef, hresidual⟩)
          simp only [length_append, length_singleton]
          omega

/-! ## Searching for many keys -/

/-- The searches for some keys, one after the other. -/
def solveAll (system : System Key Value Error) (fuel : Nat) (order : List Key)
    (state : Search Key Value Error) : Search Key Value Error :=
  order.foldl (fun state key => (solve system fuel [] key state).2) state

omit [DecidableEq Key] in
theorem Stacked.nil (key : Key) : Stacked system [] key :=
  ⟨nodup_nil, by simp, isChain_singleton key⟩

variable {fuel : Nat} {order : List Key} {state : Search Key Value Error}

theorem solve_nil (hsound : state.Sound system) (hfuel : system.keys.card < fuel) (key : Key) :
    Solved system key state (solve system fuel [] key state) :=
  solve_solved hsound (.nil key) (by simpa using hfuel)

theorem solve_ne_exhausted (hsound : state.Sound system) (hfuel : system.keys.card < fuel)
    (key : Key) : (solve system fuel [] key state).1 ≠ .error .exhausted := by
  intro hexhausted
  obtain ⟨hfailed, _⟩ := (solve_nil hsound hfuel key).failed _ hexhausted
  simp at hfailed

theorem solveAll_sound (order : List Key) (hsound : state.Sound system)
    (hfuel : system.keys.card < fuel) : (solveAll system fuel order state).Sound system ∧
      state.Grows (solveAll system fuel order state) := by
  induction order generalizing state with
  | nil => exact ⟨hsound, .refl state⟩
  | cons key rest ih =>
    have hsolved := solve_nil hsound hfuel key
    obtain ⟨hrest, hgrows⟩ := ih hsolved.sound
    exact ⟨hrest, hsolved.grows.trans hgrows⟩

theorem solveAll_visited (hsound : state.Sound system) (hfuel : system.keys.card < fuel)
    (hkey : key ∈ order) :
    (∀ val, outcome system key = some val →
      (solveAll system fuel order state).resolved.lookup key = some val) ∧
    (outcome system key = none → (system.definition key).isSome →
      key ∈ (solveAll system fuel order state).failed) := by
  induction order generalizing state with
  | nil => simp at hkey
  | cons head rest ih =>
    have hsolved := solve_nil hsound hfuel head
    rcases mem_cons.mp hkey with rfl | hkey
    · have hgrows := (solveAll_sound rest hsolved.sound hfuel).2
      rcases hres : (solve system fuel [] key state).1 with failure | val
      · obtain ⟨_, hnone, hfailed⟩ := hsolved.failed failure hres
        exact ⟨by simp [hnone], fun _ hdefined => hgrows.failed (hfailed hdefined)⟩
      · obtain ⟨hval, hlookup⟩ := hsolved.value val hres
        refine ⟨?_, by simp [hval]⟩
        intro found hfound
        obtain rfl : val = found := by simpa [hval] using hfound
        exact hgrows.resolved key val hlookup
    · exact ih hsolved.sound hkey

/-- What is found for a key does not depend on the order of the searches. -/
theorem lookup_solveAll (hfuel : system.keys.card < fuel) (hkey : key ∈ order) :
    (solveAll system fuel order .empty).resolved.lookup key = outcome system key := by
  cases hval : outcome system key with
  | some val => exact (solveAll_visited .empty hfuel hkey).1 val hval
  | none =>
    rw [Option.eq_none_iff_forall_ne_some]
    intro val hlookup
    have hfound := (solveAll_sound order .empty hfuel).1.resolved key val hlookup
    simp [hval] at hfound

/-- The keys on the reported cycles are those that wait for themselves. -/
theorem cyclic_solveAll (hfuel : system.keys.card < fuel) (hkey : key ∈ order) :
    (solveAll system fuel order .empty).Cyclic key ↔ WaitsForItself system key := by
  have hsound : (solveAll system fuel order .empty).Sound system :=
    (solveAll_sound order .empty hfuel).1
  constructor
  · rintro ⟨cycle, hcycle, hmem⟩
    exact hsound.cycle cycle hcycle key hmem
  · intro hself
    obtain ⟨needed, hwaits⟩ := hself.exists_waits
    have hnone := hwaits.outcome_eq_none
    obtain ⟨query, hquery, _⟩ := hwaits
    exact hsound.reported key
      ((solveAll_visited .empty hfuel hkey).2 hnone (by simp [hquery])) hself

end DemandGraph
