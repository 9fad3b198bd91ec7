import Salicin.Modules.Imports

/-!
# What imports lead to

Resolving the imports one by one, in any order, comes to the table of the aliases in which each path
of an import leads through aliases that are resolved themselves. Along a chain of imports the
audience never gets wider.
-/

namespace Salicin.Modules

open List Salicin.Source DemandGraph Query ImportDef Answer

def ImportDef.settle (definition : ImportDef) (ref : ImportReference) : Resolving ResolvedAlias :=
  match definition.admit ref with
  | .error message => .fail message
  | .ok resolved => .done resolved

def ResolvedAlias.audience (resolved : ResolvedAlias) : Set (List String × List String) :=
  Modules.audience resolved.visibility resolved.modulePath resolved.packageRoot

def ImportAccess.audience (access : ImportAccess) : Set (List String × List String) :=
  Modules.audience access.visibility access.modulePath access.packageRoot

variable {table : List String → Option ResolvedAlias} {ref : ImportReference}
  {resolved : ResolvedAlias}

theorem ImportDef.settle_answer {definition : ImportDef} :
    (definition.settle ref).answer table = .value resolved ↔
      definition.admit ref = .ok resolved := by
  unfold settle
  cases definition.admit ref <;> simp [answer]

theorem ImportReference.limitingAccess_le (ref : ImportReference) {access : ImportAccess}
    (haccess : access ∈ ref.accesses) :
    visibilityRank ref.limitingAccess.visibility ≤ visibilityRank access.visibility :=
  le_of_mem_argmin (f := fun access : ImportAccess => visibilityRank access.visibility)
    haccess (Option.get_mem _)

/-- An import that is admitted has the target that was found, and no wider audience than any
boundary on the way. -/
theorem ImportDef.admit_ok {definition : ImportDef}
    (hadmitted : definition.admit ref = .ok resolved) :
    resolved.target = ref.target ∧
      ∀ access ∈ ref.accesses, resolved.audience ⊆ access.audience := by
  unfold ImportDef.admit at hadmitted
  split at hadmitted
  next => simp at hadmitted
  next hfind =>
    simp only at hadmitted
    split_ifs at hadmitted with hrank
    cases hadmitted
    refine ⟨rfl, ?_⟩
    intro access haccess
    have hallowed := List.find?_eq_none.mp hfind access haccess
    apply audience_subset
    · simpa using hallowed
    · exact (Nat.le_of_not_lt hrank).trans (ref.limitingAccess_le haccess)

namespace ImportGraph

variable (graph : ImportGraph)

/-- The imports as definitions that ask for each other. -/
def system : System (List String) ResolvedAlias String where
  keys := graph.definitions.keys.toFinset
  definition key := (graph.definitions.lookup key).map fun definition =>
    (graph.resolveImportPath key definition).bind definition.settle
  mem_keys key := by
    rw [Option.isSome_map, AList.lookup_isSome, AList.mem_keys, mem_toFinset]

theorem system_definition (key : List String) :
    graph.system.definition key = (graph.definitions.lookup key).map fun definition =>
      (graph.resolveImportPath key definition).bind definition.settle := rfl

theorem card_keys_lt : graph.system.keys.card < graph.stackBound := by
  have hcard : graph.system.keys.card = graph.definitions.keys.length :=
    toFinset_card_of_nodup graph.definitions.keys_nodup
  rw [hcard, stackBound]
  exact Nat.lt_succ_self _

theorem resolveAlias_eq_solve (fuel : Nat) : graph.resolveAlias fuel = solve graph.system fuel := by
  induction fuel with
  | zero => rfl
  | succ fuel ih =>
    funext stack key state
    simp only [resolveAlias, solve, ih, system_definition]
    cases state.resolved.lookup key with
    | some resolved => rfl
    | none =>
      simp only
      split_ifs
      · rfl
      · rfl
      · cases graph.definitions.lookup key with
        | none => rfl
        | some definition =>
          simp only [Option.map_some, follow_bind]
          rcases follow (solve graph.system fuel (stack ++ [key])) key
            (graph.resolveImportPath key definition) state with ⟨failure | ref, after⟩
          · rfl
          · simp only [ImportDef.settle]
            cases definition.admit ref with
            | error msg => rfl
            | ok resolved => rfl

theorem resolveAliases_eq_solveAll (order : List (List String)) :
    graph.resolveAliases order = solveAll graph.system graph.stackBound order .empty := by
  simp only [resolveAliases, solveAll, resolveAlias_eq_solve]

/-- The import path leads to the reference. -/
def Leads (key : List String) (definition : ImportDef) (ref : ImportReference) : Prop :=
  graph.definitions.lookup key = some definition ∧
    (graph.resolveImportPath key definition).answer (outcome graph.system) = .value ref

variable {key : List String}

theorem round_succ_eq_some {count : Nat} :
    round graph.system (count + 1) key = some resolved ↔
      ∃ definition ref, graph.definitions.lookup key = some definition ∧
        (graph.resolveImportPath key definition).answer (round graph.system count) =
          .value ref ∧ definition.admit ref = .ok resolved := by
  rw [DemandGraph.round_succ_eq_some]
  simp only [system_definition, Option.map_eq_some_iff]
  constructor
  · rintro ⟨_, ⟨definition, hdef, rfl⟩, hans⟩
    obtain ⟨ref, href, hadmitted⟩ := answer_bind_eq_value.mp hans
    exact ⟨definition, ref, hdef, href, settle_answer.mp hadmitted⟩
  · rintro ⟨definition, ref, hdef, href, hadmitted⟩
    exact ⟨_, ⟨definition, hdef, rfl⟩,
      answer_bind_eq_value.mpr ⟨ref, href, settle_answer.mpr hadmitted⟩⟩

theorem outcome_eq_some :
    outcome graph.system key = some resolved ↔ ∃ definition ref, graph.Leads key definition ref ∧
        definition.admit ref = .ok resolved := by
  have hround := round_eq_outcome graph.system (Nat.le_succ graph.system.keys.card)
  rw [← hround, round_succ_eq_some]
  simp only [Leads, and_assoc]
  rfl

/-- The boundaries that an import has been reached through, all along the chain. -/
inductive ReachedThrough : List String → ImportAccess → Prop
  | direct {key definition ref access} : graph.Leads key definition ref →
      access ∈ ref.accesses → ReachedThrough key access
  | through {key definition ref path resolved access} :
      graph.Leads key definition ref →
      outcome graph.system path = some resolved →
      aliasAccess path resolved ∈ ref.accesses →
      ReachedThrough path access → ReachedThrough key access

variable {graph}

theorem Leads.unique {first second : ImportDef} {other : ImportReference}
    (hfst : graph.Leads key first ref) (hsnd : graph.Leads key second other) :
    first = second ∧ ref = other := by
  obtain rfl : first = second := by simpa [hsnd.1] using hfst.1.symm
  exact ⟨rfl, by simpa [hsnd.2] using hfst.2.symm⟩

/-- No import widens the audience of what it was reached through. -/
theorem audience_subset_of_reachedThrough {access : ImportAccess}
    (hresolved : outcome graph.system key = some resolved)
    (hreached : graph.ReachedThrough key access) : resolved.audience ⊆ access.audience := by
  induction hreached generalizing resolved with
  | @direct key definition ref access hleads haccess =>
    obtain ⟨other, found, hfound, hadmitted⟩ := (outcome_eq_some graph).mp hresolved
    obtain ⟨rfl, rfl⟩ := hfound.unique hleads
    exact (admit_ok hadmitted).2 access haccess
  | @through key definition ref path inner access hleads hinner haccess _ ih =>
    obtain ⟨other, found, hfound, hadmitted⟩ := (outcome_eq_some graph).mp hresolved
    obtain ⟨rfl, rfl⟩ := hfound.unique hleads
    exact ((admit_ok hadmitted).2 _ haccess).trans (ih hinner)

/-! ## The declarations at the end -/

/-- Where a reference comes from. -/
inductive Describes (graph : ImportGraph) (table : List String → Option ResolvedAlias)
    (ref : ImportReference) : Prop
  | declaration (path : List String) (symbol : Symbol) : graph.symbols path = some symbol →
      ref.target = .declaration symbol.canonical →
      symbolAccess symbol ∈ ref.accesses → Describes graph table ref
  | resolved (path : List String) (resolved : ResolvedAlias) : table path = some resolved →
      ref.target = resolved.target →
      aliasAccess path resolved ∈ ref.accesses → Describes graph table ref
  | modulePath (path : List String) : path ∈ graph.modulePaths →
      ref.target = .modulePath path → Describes graph table ref

theorem Describes.through (hdesc : Describes graph table ref) (access : ImportAccess) :
    Describes graph table (ref.through access) := by
  cases hdesc with
  | declaration path symbol hsym htgt haccess =>
    exact .declaration path symbol hsym htgt (mem_append_left _ haccess)
  | resolved path resolved hresolved htgt haccess =>
    exact .resolved path resolved hresolved htgt (mem_append_left _ haccess)
  | modulePath path hpath htgt => exact .modulePath path hpath htgt

theorem lookupThroughModules_describes {lookup : List String → Resolving (Option ImportReference)}
    (hlookup : ∀ path ref, (lookup path).answer table = .value (some ref) →
      Describes graph table ref) {cand : List String} {len : Nat}
    (hans : (graph.lookupThroughModules lookup cand len).answer table =
      .value (some ref)) : Describes graph table ref := by
  induction len with
  | zero => simp [lookupThroughModules, answer] at hans
  | succ len ih =>
    unfold lookupThroughModules at hans
    simp only at hans
    split_ifs at hans
    · obtain ⟨resolved, _, hrest⟩ := answer_bind_eq_value.mp hans
      split at hrest
      next path _ =>
        obtain ⟨found, hfound, hrest⟩ := answer_bind_eq_value.mp hrest
        split at hrest
        next inner =>
          simp only [answer, value.injEq, Option.some.injEq] at hrest
          exact hrest ▸ (hlookup _ inner hfound).through _
        next => exact ih hrest
      next => exact ih hrest
    · exact ih hans

theorem lookupImportCandidate_describes {depths : Nat} {cand : List String}
    (hans : (graph.lookupImportCandidate depths cand).answer table =
      .value (some ref)) : Describes graph table ref := by
  induction depths generalizing cand ref with
  | zero => simp [lookupImportCandidate, answer] at hans
  | succ depths ih =>
    unfold lookupImportCandidate at hans
    cases hsym : graph.symbols cand with
    | some symbol =>
      simp only [hsym, answer, value.injEq, Option.some.injEq] at hans
      subst hans
      exact .declaration cand symbol hsym rfl (mem_singleton_self _)
    | none =>
      simp only [hsym] at hans
      split_ifs at hans with hdef hmod
      · obtain ⟨resolved, hresolved, hrest⟩ := answer_bind_eq_value.mp hans
        simp only [answer, value.injEq, Option.some.injEq] at hrest
        subst hrest
        exact .resolved cand resolved (answer_demand_eq_value.mp hresolved) rfl
          (mem_singleton_self _)
      · simp only [answer, value.injEq, Option.some.injEq] at hans
        subst hans
        exact .modulePath cand hmod rfl
      · exact lookupThroughModules_describes (fun _ _ hfound => ih hfound) hans

theorem lookupCandidates_describes {packageRoot : List String} {cands : List (List String)}
    (hans : (graph.lookupCandidates key packageRoot cands).answer table =
      .value (some ref)) : Describes graph table ref := by
  induction cands with
  | nil => simp [lookupCandidates, answer] at hans
  | cons cand rest ih =>
    unfold lookupCandidates at hans
    split_ifs at hans
    · exact ih hans
    · obtain ⟨found, hfound, hrest⟩ := answer_bind_eq_value.mp hans
      split at hrest
      next inner =>
        simp only [answer, value.injEq, Option.some.injEq] at hrest
        exact hrest ▸ lookupImportCandidate_describes hfound
      next =>
        split at hrest
        next => exact ih hrest
        next expanded _ =>
          obtain ⟨found, hfound, hrest⟩ := answer_bind_eq_value.mp hrest
          split at hrest
          next inner =>
            simp only [answer, value.injEq, Option.some.injEq] at hrest
            exact hrest ▸ lookupImportCandidate_describes hfound
          next => exact ih hrest

theorem resolveImportPath_describes {definition : ImportDef}
    (hans : (graph.resolveImportPath key definition).answer table = .value ref) :
    Describes graph table ref := by
  unfold resolveImportPath at hans
  split at hans
  next => simp [answer] at hans
  next =>
    obtain ⟨found, hfound, hrest⟩ := answer_bind_eq_value.mp hans
    split at hrest
    next inner =>
      simp only [answer, value.injEq] at hrest
      exact hrest ▸ lookupCandidates_describes hfound
    next => simp [answer] at hrest

/-- An alias of a declaration has been reached through the symbol of the declaration. -/
theorem exists_symbol_of_round {count : Nat} {canonical : String}
    (hresolved : round graph.system count key = some resolved)
    (htgt : resolved.target = .declaration canonical) :
    ∃ path symbol, graph.symbols path = some symbol ∧ symbol.canonical = canonical ∧
      graph.ReachedThrough key (symbolAccess symbol) := by
  induction count generalizing key resolved with
  | zero => simp [DemandGraph.round] at hresolved
  | succ count ih =>
    obtain ⟨definition, ref, hdef, href, hadmitted⟩ := (round_succ_eq_some graph).mp hresolved
    have hleads : graph.Leads key definition ref := by
      refine ⟨hdef, answer_mono ?_ href⟩
      exact fun _ _ hround => outcome_of_round graph.system hround
    have htgt : ref.target = .declaration canonical := (admit_ok hadmitted).1.symm.trans htgt
    cases resolveImportPath_describes href with
    | declaration path symbol hsym hsame haccess =>
      have hcanon : symbol.canonical = canonical :=
        AliasTarget.declaration.inj (hsame.symm.trans htgt)
      exact ⟨path, symbol, hsym, hcanon, .direct hleads haccess⟩
    | resolved path inner hinner hsame haccess =>
      obtain ⟨symbolPath, symbol, hsym, hcanon, hreached⟩ := ih hinner (hsame.symm.trans htgt)
      exact ⟨symbolPath, symbol, hsym, hcanon,
        .through hleads (outcome_of_round graph.system hinner) haccess hreached⟩
    | modulePath path hpath hsame => simp [htgt] at hsame

theorem exists_symbol_of_outcome {canonical : String}
    (hresolved : outcome graph.system key = some resolved)
    (htgt : resolved.target = .declaration canonical) :
    ∃ path symbol, graph.symbols path = some symbol ∧ symbol.canonical = canonical ∧
      graph.ReachedThrough key (symbolAccess symbol) :=
  exists_symbol_of_round hresolved htgt

end ImportGraph

end Salicin.Modules
