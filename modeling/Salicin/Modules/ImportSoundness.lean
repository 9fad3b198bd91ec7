import Salicin.Modules.NameLookup

/-!
# Imports never widen access

A resolved import admits no more modules than what it was reached through, so a name that
resolves without a diagnostic may be used where it stands. The search ends and finds the same
in every order. An import whose path leads back to the import itself is reported as cyclic, even
when a candidate further out is there: only a candidate that equals the key is skipped.
-/

namespace Salicin.Modules

open Salicin.Source DemandGraph

namespace ImportGraph

variable (graph : ImportGraph)

/-- The graph as if the import had not been written. -/
def without (key : List String) : ImportGraph :=
  { graph with definitions := graph.definitions.erase key }

/-- The lookup of the import path succeeds without going through the import. -/
def FoundWithout (key : List String) : Prop :=
  ∃ definition reference, graph.definitions.lookup key = some definition ∧
    ((graph.without key).resolveImportPath key definition).answer
      (outcome (graph.without key).system) = .value reference

/-- The declaration with the canonical name may be used in the module. -/
def Accessible (canonical : String) (context : ResolveContext) : Prop :=
  (∃ path symbol, graph.symbols path = some symbol ∧ symbol.canonical = canonical ∧
    symbol.nameAccess.allows context) ∨
  ∃ entry ∈ corePreludeExports, entry.2 = canonical

structure ImportsSound : Prop where
  terminates : ∀ order key fuel, graph.stackBound ≤ fuel →
    (graph.resolveAlias fuel [] key (graph.resolveAliases order)).1 ≠ .error .exhausted
  contained : ∀ order key resolved access,
    (graph.resolveAliases order).resolved.lookup key = some resolved →
    graph.ReachedThrough key access → resolved.audience ⊆ access.audience
  accessible : ∀ order packageRoots path context canonical,
    (graph.resolver order packageRoots).resolveLogicalPath path context = (some canonical, []) →
    graph.Accessible canonical context
  orderIndependent : ∀ first second key, key ∈ first → key ∈ second →
    (graph.resolveAliases first).resolved.lookup key =
      (graph.resolveAliases second).resolved.lookup key
  cyclic : ∀ order key, (graph.resolveAliases order).Cyclic key → ¬ graph.FoundWithout key

variable {graph}

theorem sound_resolveAliases (order : List (List String)) :
    (graph.resolveAliases order).Sound graph.system := by
  rw [resolveAliases_eq_solveAll]
  exact (solveAll_sound _ .empty graph.card_keys_lt).1

theorem resolveAlias_ne_exhausted (order : List (List String)) (key : List String) {fuel : Nat}
    (hfuel : graph.stackBound ≤ fuel) :
    (graph.resolveAlias fuel [] key (graph.resolveAliases order)).1 ≠ .error .exhausted := by
  rw [resolveAlias_eq_solve]
  exact solve_ne_exhausted (sound_resolveAliases order) (graph.card_keys_lt.trans_le hfuel) key

theorem lookup_resolveAliases {order : List (List String)} {key : List String}
    (hkey : key ∈ order) :
    (graph.resolveAliases order).resolved.lookup key = outcome graph.system key := by
  rw [resolveAliases_eq_solveAll]
  exact lookup_solveAll graph.card_keys_lt hkey

/-- The boundary of an alias that lets a module pass says that the declaration does, too. -/
theorem accessible_of_resolved {order : List (List String)} {path : List String}
    {resolved : ResolvedAlias} {canonical : String} {context : ResolveContext}
    (hlookup : (graph.resolveAliases order).resolved.lookup path = some resolved)
    (htgt : resolved.target = .declaration canonical)
    (hallows : resolved.nameAccess.allows context) : graph.Accessible canonical context := by
  have hresolved := (sound_resolveAliases order).resolved path resolved hlookup
  obtain ⟨symbolPath, symbol, hsym, hcanon, hreached⟩ := exists_symbol_of_outcome hresolved htgt
  have hsub := audience_subset_of_reachedThrough hresolved hreached
  have hcontext : (context.modulePath, context.packageRoot) ∈ resolved.audience := hallows
  exact .inl ⟨symbolPath, symbol, hsym, hcanon, hsub hcontext⟩

theorem accessible_of_clean {order packageRoots : List (List String)} {path : List String}
    {context : ResolveContext} {canonical : String}
    (hclean : (graph.resolver order packageRoots).resolveLogicalPath path context =
      (some canonical, [])) : graph.Accessible canonical context := by
  obtain ⟨ref, hnames, rfl, hallows⟩ := Resolver.resolveLogicalPath_clean hclean
  cases hnames with
  | declaration symbolPath symbol hsym hcanon haccess =>
    exact .inl ⟨symbolPath, symbol, hsym, hcanon, hallows _ haccess⟩
  | resolved aliasPath resolved hlookup htgt haccess =>
    rcases lookup_installStandardPreludeAliases hlookup with hlookup | ⟨entry, hentry, hprelude⟩
    · exact accessible_of_resolved hlookup htgt (hallows _ haccess)
    · refine .inr ⟨entry, hentry, ?_⟩
      exact AliasTarget.declaration.inj (hprelude.symm.trans htgt)

theorem cyclic_resolveAliases {order : List (List String)} {key : List String}
    (hcyclic : (graph.resolveAliases order).Cyclic key) : WaitsForItself graph.system key := by
  obtain ⟨cycle, hcycle, hkey⟩ := hcyclic
  exact (sound_resolveAliases order).cycle cycle hcycle key hkey

/-- An import that waits for itself is reported when it is resolved first. -/
theorem cyclic_of_waitsForItself {key : List String} (hself : WaitsForItself graph.system key) :
    (graph.resolveAliases [key]).Cyclic key := by
  rw [resolveAliases_eq_solveAll]
  exact (cyclic_solveAll graph.card_keys_lt (List.mem_singleton_self key)).mpr hself

variable (graph)

/-- `use option.option` in the module `app`. -/
def selfNamedImport : ImportDef where
  path := ["option", "option"]
  aliasName := "option"
  visibility := .priv
  modulePath := ["app"]
  packageRoot := []
  sourcePath := "app.sc"
  source := none

/-- The public `option` of the module `option`. -/
def selfNamedSymbol : Symbol where
  canonical := "option::option"
  modulePath := ["option"]
  packageRoot := []
  visibility := .pub
  sourcePath := "option.sc"

def selfNamed : ImportGraph where
  definitions := AList.singleton ["app", "option"] selfNamedImport
  symbols path := if path = ["option", "option"] then some selfNamedSymbol else none
  modulePaths := {[], ["app"], ["option"]}
  dependencies := fun _ => none

/-- The first candidate is `app.option.option`, and `app.option` is the import itself. -/
theorem selfNamed_waits : Waits selfNamed.system ["app", "option"] ["app", "option"] := by
  refine ⟨_, rfl, ?_⟩
  decide

theorem selfNamed_found : selfNamed.FoundWithout ["app", "option"] := by
  exact ⟨selfNamedImport, symbolReference selfNamedSymbol, by decide, rfl⟩

end ImportGraph

end Salicin.Modules
