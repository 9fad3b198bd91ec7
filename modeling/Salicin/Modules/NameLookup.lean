import Salicin.Modules.ImportAudience

/-!
# Looking names up

The names of a program are looked up among the symbols and the resolved aliases. Every boundary
on the way is checked against the module that uses the name.
-/

namespace Salicin.Modules

open List Salicin.Source DemandGraph

abbrev AliasTable := AList fun _ : List String => ResolvedAlias

structure ResolveContext where
  sourcePath : String
  modulePath : List String
  packageRoot : List String
  location : Option SourceLocation

def ResolveContext.diagnostic (context : ResolveContext) (message : String) :
    ResolverDiagnostic where
  message := message
  document := some context.sourcePath
  location := context.location.map fun location => { location with path := some context.sourcePath }

/-- The tables of `Resolver` that names are looked up in. -/
structure Resolver where
  symbols : SymbolTable
  aliases : AliasTable
  dependencies : DependencyTable

/-- `(Visibility, module_path, package_root)`. -/
structure NameAccess where
  visibility : Visibility
  modulePath : List String
  packageRoot : List String

structure NameReference where
  canonical : String
  accesses : List NameAccess

def Symbol.nameAccess (symbol : Symbol) : NameAccess :=
  ⟨symbol.visibility, symbol.modulePath, symbol.packageRoot⟩

def ResolvedAlias.nameAccess (resolved : ResolvedAlias) : NameAccess :=
  ⟨resolved.visibility, resolved.modulePath, resolved.packageRoot⟩

def NameAccess.allows (access : NameAccess) (context : ResolveContext) : Bool :=
  visibilityAllowsAccess access.visibility access.modulePath access.packageRoot
    context.modulePath context.packageRoot

namespace Resolver

variable (resolver : Resolver)

/-- The loop over the parts in front of a path, from a length downwards. -/
def findThroughModules (find : List String → Option NameReference) (cand : List String) :
    Nat → Option NameReference
  | 0 => none
  | len + 1 =>
    match resolver.aliases.lookup (cand.take (len + 1)) with
    | some ⟨.modulePath path, visibility, modulePath, packageRoot⟩ =>
      match find (path ++ cand.drop (len + 1)) with
      | some ref =>
        some { ref with
          accesses := ref.accesses ++ [⟨visibility, modulePath, packageRoot⟩] }
      | none => findThroughModules find cand len
    | _ => findThroughModules find cand len

/-- `find_absolute_name`. The first argument is the number of depths that are left. -/
def findAbsoluteName : Nat → List String → Option NameReference
  | 0, _ => none
  | depths + 1, cand =>
    match resolver.symbols cand with
    | some symbol => some ⟨symbol.canonical, [symbol.nameAccess]⟩
    | none =>
      match resolver.aliases.lookup cand with
      | some ⟨.declaration canonical, visibility, modulePath, packageRoot⟩ =>
        some ⟨canonical, [⟨visibility, modulePath, packageRoot⟩]⟩
      | _ =>
        resolver.findThroughModules (findAbsoluteName depths) cand (cand.length - 1)

/-- The depths up to `aliases.len() + 1`. -/
def nameDepths : Nat := resolver.aliases.keys.length + 2

def findCandidates (packageRoot : List String) : List (List String) → Option NameReference
  | [] => none
  | cand :: rest =>
    match resolver.findAbsoluteName resolver.nameDepths cand with
    | some ref => some ref
    | none =>
      match expandDependencyCandidate cand packageRoot resolver.dependencies with
      | none => findCandidates packageRoot rest
      | some expanded =>
        match resolver.findAbsoluteName resolver.nameDepths expanded with
        | some ref => some ref
        | none => findCandidates packageRoot rest

def findName (logicalPath : List String) (context : ResolveContext) : Option NameReference :=
  match anchoredCandidates logicalPath context.modulePath context.packageRoot with
  | .error _ => none
  | .ok cands => resolver.findCandidates context.packageRoot cands

/-- The message for a boundary that the context may not cross. -/
def accessMessage (logicalPath : List String) (access : NameAccess) : String :=
  match access.visibility with
  | .priv => s!"`{displayPath logicalPath}` is private to module `{displayModule access.modulePath}`"
  | .package | .pub =>
    s!"`{displayPath logicalPath}` is pub(package) and cannot be used from another package"

/-- The canonical name, and the diagnostics for the boundaries on the way. -/
def resolveLogicalPath (logicalPath : List String) (context : ResolveContext) :
    Option String × List ResolverDiagnostic :=
  match resolver.findName logicalPath context with
  | none => (none, [])
  | some ref =>
    (some ref.canonical,
      (ref.accesses.filter fun access => !access.allows context).map fun access =>
        context.diagnostic (accessMessage logicalPath access))

end Resolver

/-- `CORE_PRELUDE_EXPORTS`: names that the compiler makes public everywhere. -/
def corePreludeExports : List (String × String) :=
  [("never", "core::never::never"), ("movable", "core::marker::movable"),
   ("copyable", "core::marker::copyable"),
   ("droppable", "core::marker::droppable"),
   ("array", "core::memory::array"),
   ("ptr", "core::memory::ptr"),
   ("size_of", "core::memory::size_of"),
   ("align_of", "core::memory::align_of"),
   ("string", "core::string::string"),
   ("array_literal", "core::literal::array_literal"),
   ("string_literal", "core::literal::string_literal"),
   ("copy", "core::passing::copy"),
   ("move", "core::passing::move"),
   ("comptime", "core::passing::comptime"),
   ("mut", "$access$mut"),
   ("shared", "$access$shared")]

def preludeAlias (packageRoot : List String) (canonical : String) : ResolvedAlias where
  target := .declaration canonical
  visibility := .pub
  modulePath := packageRoot
  packageRoot := packageRoot

/-- The aliases of one package root. -/
def installPreludeAt (symbols : SymbolTable) (modulePaths : Finset (List String))
    (aliases : AliasTable) (packageRoot : List String) : AliasTable :=
  corePreludeExports.foldl (fun aliases entry =>
    let key := packageRoot ++ [entry.1]
    if (symbols key).isSome ∨ key ∈ modulePaths ∨ key ∈ aliases then aliases
    else aliases.insert key (preludeAlias packageRoot entry.2)) aliases

def installStandardPreludeAliases (packageRoots : List (List String)) (symbols : SymbolTable)
    (modulePaths : Finset (List String)) (aliases : AliasTable) : AliasTable :=
  packageRoots.foldl (installPreludeAt symbols modulePaths) aliases

/-- The resolver of a package graph whose imports have been resolved in some order. -/
def ImportGraph.resolver (graph : ImportGraph) (order packageRoots : List (List String)) :
    Resolver where
  symbols := graph.symbols
  aliases := installStandardPreludeAliases packageRoots graph.symbols graph.modulePaths
    (graph.resolveAliases order).resolved
  dependencies := graph.dependencies

/-! ## Where names come from -/

/-- A name stands for a symbol or for the target of an alias, whose boundary is on the way. -/
inductive Resolver.Names (resolver : Resolver) (ref : NameReference) : Prop
  | declaration (path : List String) (symbol : Symbol) : resolver.symbols path = some symbol →
      symbol.canonical = ref.canonical → symbol.nameAccess ∈ ref.accesses →
      Names resolver ref
  | resolved (path : List String) (resolved : ResolvedAlias) :
      resolver.aliases.lookup path = some resolved →
      resolved.target = .declaration ref.canonical →
      resolved.nameAccess ∈ ref.accesses → Names resolver ref

namespace Resolver

variable {resolver : Resolver} {ref : NameReference}

theorem findThroughModules_names {find : List String → Option NameReference}
    (hfind : ∀ path ref, find path = some ref → resolver.Names ref) {cand : List String}
    {len : Nat} (hfound : resolver.findThroughModules find cand len = some ref) :
    resolver.Names ref := by
  induction len with
  | zero => simp [findThroughModules] at hfound
  | succ len ih =>
    unfold findThroughModules at hfound
    split at hfound
    next path visibility modulePath packageRoot _ =>
      split at hfound
      next inner hinner =>
        cases hfound
        cases hfind _ inner hinner with
        | declaration path symbol hsym hcanon haccess =>
          exact .declaration path symbol hsym hcanon (mem_append_left _ haccess)
        | resolved path resolved hresolved htgt haccess =>
          exact .resolved path resolved hresolved htgt (mem_append_left _ haccess)
      next => exact ih hfound
    next => exact ih hfound

theorem findAbsoluteName_names {depths : Nat} {cand : List String}
    (hfound : resolver.findAbsoluteName depths cand = some ref) :
    resolver.Names ref := by
  induction depths generalizing cand ref with
  | zero => simp [findAbsoluteName] at hfound
  | succ depths ih =>
    unfold findAbsoluteName at hfound
    split at hfound
    next symbol hsym =>
      cases hfound
      exact .declaration cand symbol hsym rfl (mem_singleton_self _)
    next =>
      split at hfound
      next canonical visibility modulePath packageRoot hlookup =>
        cases hfound
        exact .resolved cand _ hlookup rfl (mem_singleton_self _)
      next => exact findThroughModules_names (fun _ _ hinner => ih hinner) hfound

theorem findCandidates_names {packageRoot : List String} {cands : List (List String)}
    (hfound : resolver.findCandidates packageRoot cands = some ref) :
    resolver.Names ref := by
  induction cands with
  | nil => simp [findCandidates] at hfound
  | cons cand rest ih =>
    unfold findCandidates at hfound
    split at hfound
    next inner hinner => exact Option.some.inj hfound ▸ findAbsoluteName_names hinner
    next =>
      split at hfound
      next => exact ih hfound
      next expanded _ =>
        split at hfound
        next inner hinner => exact Option.some.inj hfound ▸ findAbsoluteName_names hinner
        next => exact ih hfound

/-- A path that resolves without a diagnostic crosses only boundaries that let it pass. -/
theorem resolveLogicalPath_clean {logicalPath : List String} {context : ResolveContext}
    {canonical : String}
    (hclean : resolver.resolveLogicalPath logicalPath context = (some canonical, [])) :
    ∃ ref, resolver.Names ref ∧ ref.canonical = canonical ∧
      ∀ access ∈ ref.accesses, access.allows context := by
  unfold resolveLogicalPath at hclean
  split at hclean
  next => simp at hclean
  next ref hfound =>
    unfold findName at hfound
    split at hfound
    next => simp at hfound
    next =>
      obtain ⟨hcanon, hdiags⟩ := Prod.mk.inj hclean
      refine ⟨ref, findCandidates_names hfound, Option.some.inj hcanon, ?_⟩
      intro access haccess
      have hnone := filter_eq_nil_iff.mp (map_eq_nil_iff.mp hdiags) access haccess
      simpa using hnone

end Resolver

/-! ## The prelude -/

theorem lookup_installPreludeAt {symbols : SymbolTable} {modulePaths : Finset (List String)}
    {aliases : AliasTable} {packageRoot path : List String} {resolved : ResolvedAlias}
    (hlookup : (installPreludeAt symbols modulePaths aliases packageRoot).lookup path =
      some resolved) :
    aliases.lookup path = some resolved ∨
      ∃ entry ∈ corePreludeExports, resolved.target = .declaration entry.2 := by
  unfold installPreludeAt at hlookup
  revert hlookup
  generalize corePreludeExports = entries
  intro hlookup
  induction entries generalizing aliases with
  | nil => exact .inl hlookup
  | cons entry rest ih =>
    rw [foldl_cons] at hlookup
    rcases ih hlookup with hbefore | ⟨other, hother, htgt⟩
    · simp only at hbefore
      split_ifs at hbefore
      · exact .inl hbefore
      · by_cases hsame : path = packageRoot ++ [entry.1]
        · rw [hsame, AList.lookup_insert] at hbefore
          cases hbefore
          exact .inr ⟨entry, mem_cons_self, rfl⟩
        · rw [AList.lookup_insert_ne hsame] at hbefore
          exact .inl hbefore
    · exact .inr ⟨other, mem_cons_of_mem _ hother, htgt⟩

theorem lookup_installStandardPreludeAliases {packageRoots : List (List String)}
    {symbols : SymbolTable} {modulePaths : Finset (List String)} {aliases : AliasTable}
    {path : List String} {resolved : ResolvedAlias}
    (hlookup : (installStandardPreludeAliases packageRoots symbols modulePaths aliases).lookup path
      = some resolved) :
    aliases.lookup path = some resolved ∨
      ∃ entry ∈ corePreludeExports, resolved.target = .declaration entry.2 := by
  induction packageRoots generalizing aliases with
  | nil => exact .inl hlookup
  | cons packageRoot rest ih =>
    rcases ih hlookup with hbefore | hprelude
    · exact lookup_installPreludeAt hbefore
    · exact .inr hprelude

end Salicin.Modules
