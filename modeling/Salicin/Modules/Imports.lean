import Salicin.Foundation.DemandSearch
import Salicin.Modules.Symbols
import Mathlib.Data.List.MinMax
import Mathlib.Data.String.Basic

/-!
# Import aliases

The imports of a package graph are looked up depth first. Whoever looks up the path of
an import may come to another import, which is then resolved first, so the computation is a
query that asks for the aliases it needs.
-/

namespace Salicin.Modules

open List Salicin.Source DemandGraph

structure ImportDef where
  path : List String
  aliasName : String
  visibility : Visibility
  modulePath : List String
  packageRoot : List String
  sourcePath : String
  source : Option SourceLocation
  deriving DecidableEq

def ImportDef.diagnostic (definition : ImportDef) (message : String) : ResolverDiagnostic where
  message := message
  document := some definition.sourcePath
  location := definition.source

inductive AliasTarget
  | declaration (canonical : String)
  | modulePath (path : List String)
  deriving DecidableEq

structure ResolvedAlias where
  target : AliasTarget
  visibility : Visibility
  modulePath : List String
  packageRoot : List String
  deriving DecidableEq

structure ImportAccess where
  visibility : Visibility
  modulePath : List String
  packageRoot : List String
  display : String

/-- What an import path leads to, and the boundaries on the way. -/
structure ImportReference where
  target : AliasTarget
  accesses : List ImportAccess
  accesses_ne_nil : accesses ≠ []

/-- What `ImportGraph` is given. -/
structure ImportGraph where
  definitions : AList fun _ : List String => ImportDef
  symbols : SymbolTable
  modulePaths : Finset (List String)
  dependencies : DependencyTable

/-- A computation that calls `resolve_alias`; an error is the message of a diagnostic. -/
abbrev Resolving (Result : Type) := Query (List String) ResolvedAlias String Result

def anchoredCandidates (path modulePath packageRoot : List String) :
    Except String (List (List String)) :=
  match path with
  | [] => .ok []
  | "root" :: rest => .ok [packageRoot ++ rest]
  | "self" :: rest => .ok [modulePath ++ rest]
  | "super" :: _ =>
    let count := (path.takeWhile (· = "super")).length
    if modulePath.length - packageRoot.length < count then
      .error s!"import path `{displayPath path}` escapes above the package root"
    else .ok [modulePath.take (modulePath.length - count) ++ path.drop count]
  | _ =>
    .ok ((List.range' packageRoot.length (modulePath.length + 1 - packageRoot.length)).reverse.map
      fun depth => modulePath.take depth ++ path)

def expandDependencyCandidate (candidate packageRoot : List String)
    (dependencies : DependencyTable) : Option (List String) :=
  match packageRoot.isPrefixOf candidate, candidate.drop packageRoot.length with
  | true, aliasName :: rest => do
    let aliases ← dependencies packageRoot
    let targetRoot ← aliases.lookup aliasName
    some (targetRoot ++ rest)
  | _, _ => none

def symbolAccess (symbol : Symbol) : ImportAccess where
  visibility := symbol.visibility
  modulePath := symbol.modulePath
  packageRoot := symbol.packageRoot
  display := symbol.canonical.replace "::" "."

/-- The boundary of an alias, and that of a module alias in front of a longer path. -/
def aliasAccess (path : List String) (resolved : ResolvedAlias) : ImportAccess where
  visibility := resolved.visibility
  modulePath := resolved.modulePath
  packageRoot := resolved.packageRoot
  display := displayPath path

def moduleAccess (path : List String) : ImportAccess where
  visibility := .pub
  modulePath := path.dropLast
  packageRoot := []
  display := displayPath path

def symbolReference (symbol : Symbol) : ImportReference :=
  ⟨.declaration symbol.canonical, [symbolAccess symbol], cons_ne_nil _ _⟩

def aliasReference (path : List String) (resolved : ResolvedAlias) : ImportReference :=
  ⟨resolved.target, [aliasAccess path resolved], cons_ne_nil _ _⟩

def moduleReference (path : List String) : ImportReference :=
  ⟨.modulePath path, [moduleAccess path], cons_ne_nil _ _⟩

def ImportReference.through (reference : ImportReference) (access : ImportAccess) :
    ImportReference :=
  ⟨reference.target, reference.accesses ++ [access], by simp⟩

namespace ImportGraph

variable (graph : ImportGraph)

/-- The loop over the parts in front of a path, from a length downwards. -/
def lookupThroughModules
    (lookup : List String → Resolving (Option ImportReference)) (candidate : List String) :
    Nat → Resolving (Option ImportReference)
  | 0 => .done none
  | length + 1 =>
    let front := candidate.take (length + 1)
    if front ∈ graph.definitions then
      (Query.demand front).bind fun resolved =>
        match resolved.target with
        | .modulePath path =>
          (lookup (path ++ candidate.drop (length + 1))).bind fun found =>
            match found with
            | some reference => .done (some (reference.through (aliasAccess front resolved)))
            | none => lookupThroughModules lookup candidate length
        | .declaration _ => lookupThroughModules lookup candidate length
    else lookupThroughModules lookup candidate length

/-- `lookup_import_candidate`. The first argument is the number of depths that are left. -/
def lookupImportCandidate : Nat → List String → Resolving (Option ImportReference)
  | 0, _ => .done none
  | depths + 1, candidate =>
    match graph.symbols candidate with
    | some symbol => .done (some (symbolReference symbol))
    | none =>
      if candidate ∈ graph.definitions then
        (Query.demand candidate).bind fun resolved =>
          .done (some (aliasReference candidate resolved))
      else if candidate ∈ graph.modulePaths then .done (some (moduleReference candidate))
      else
        graph.lookupThroughModules (lookupImportCandidate depths) candidate
          (candidate.length - 1)

/-- The depths up to `definitions.len() + 1`. -/
def importDepths : Nat := graph.definitions.keys.length + 2

/-- The loop of `resolve_import_path` for the import with the key, which is on the top of the
stack. -/
def lookupCandidates (key packageRoot : List String) :
    List (List String) → Resolving (Option ImportReference)
  | [] => .done none
  | candidate :: rest =>
    if key = candidate then lookupCandidates key packageRoot rest
    else
      (graph.lookupImportCandidate graph.importDepths candidate).bind fun found =>
        match found with
        | some reference => .done (some reference)
        | none =>
          match expandDependencyCandidate candidate packageRoot graph.dependencies with
          | none => lookupCandidates key packageRoot rest
          | some expanded =>
            (graph.lookupImportCandidate graph.importDepths expanded).bind fun found =>
              match found with
              | some reference => .done (some reference)
              | none => lookupCandidates key packageRoot rest

def resolveImportPath (key : List String) (definition : ImportDef) : Resolving ImportReference :=
  match anchoredCandidates definition.path definition.modulePath definition.packageRoot with
  | .error message => .fail message
  | .ok candidates =>
    (graph.lookupCandidates key definition.packageRoot candidates).bind fun found =>
      match found with
      | some reference => .done reference
      | none => .fail s!"unknown import `{displayPath definition.path}`"

end ImportGraph

/-- The first of the boundaries with the least rank. -/
def ImportReference.limitingAccess (reference : ImportReference) : ImportAccess :=
  (reference.accesses.argmin fun access => visibilityRank access.visibility).get
    (by
      rw [Option.isSome_iff_ne_none, ne_eq, argmin_eq_none]
      exact reference.accesses_ne_nil)

/-- The checks of `resolve_alias` on what the import path leads to. -/
def ImportDef.admit (definition : ImportDef) (reference : ImportReference) :
    Except String ResolvedAlias :=
  match reference.accesses.find? fun access => !visibilityAllowsAccess access.visibility
      access.modulePath access.packageRoot definition.modulePath definition.packageRoot with
  | some access =>
    .error s!"import `{displayPath definition.path}` cannot access {visibilityDescription access.visibility} target `{access.display}`"
  | none =>
    let limiting := reference.limitingAccess
    if visibilityRank limiting.visibility < visibilityRank definition.visibility then
      .error s!"{visibilitySource definition.visibility} use `{displayPath definition.path}` cannot re-export {visibilityDescription limiting.visibility} target `{limiting.display}`"
    else
      .ok ⟨reference.target, definition.visibility, definition.modulePath, definition.packageRoot⟩

/-- The tables of `ImportGraph` while it resolves. -/
abbrev ImportState := Search (List String) ResolvedAlias String

namespace ImportGraph

variable (graph : ImportGraph)

/-- `resolve_alias`. The stack is an argument, since every call leaves it as it was, and the
fuel bounds its height. -/
def resolveAlias : Nat → List (List String) → List String → ImportState →
    Except Failure ResolvedAlias × ImportState
  | 0, _, _, state => (.error .exhausted, state)
  | fuel + 1, stack, key, state =>
    match state.resolved.lookup key with
    | some resolved => (.ok resolved, state)
    | none =>
      if key ∈ state.failed then (.error .failed, state)
      else if key ∈ stack then
        let cycle := stack.dropWhile (· ≠ key)
        (.error .failed, (state.report (.cycle cycle)).giveUp cycle)
      else
        match graph.definitions.lookup key with
        | none => (.error .failed, state)
        | some definition =>
          match follow (resolveAlias fuel (stack ++ [key])) key
              (graph.resolveImportPath key definition) state with
          | (.error failure, state) => (.error failure, state.giveUp [key])
          | (.ok reference, state) =>
            match definition.admit reference with
            | .error message =>
              (.error .failed, (state.report (.failure key message)).giveUp [key])
            | .ok resolved => (.ok resolved, state.find key resolved)

/-- The diagnostic of a report. -/
def renderReport : Report (List String) String → ResolverDiagnostic
  | .failure key message =>
    match graph.definitions.lookup key with
    | some definition => definition.diagnostic message
    | none => ⟨message, some "<package>", none⟩
  | .cycle keys =>
    let path := " -> ".intercalate ((keys ++ keys.take 1).map displayPath)
    let message := s!"cyclic import aliases: {path}"
    match keys.head?.bind fun key => graph.definitions.lookup key with
    | some definition => definition.diagnostic message
    | none => ⟨message, some "<package>", none⟩

/-- The stack holds different imports. -/
def stackBound : Nat := graph.definitions.keys.length + 1

/-- Resolve aliases one after the other, as `collect_imports` does for all the keys in order. -/
def resolveAliases (order : List (List String)) : ImportState :=
  order.foldl (fun state key => (graph.resolveAlias graph.stackBound [] key state).2) .empty

def collectImports : AList (fun _ : List String => ResolvedAlias) × List ResolverDiagnostic :=
  let state := graph.resolveAliases (graph.definitions.keys.mergeSort fun first second => first ≤ second)
  (state.resolved, state.reports.map graph.renderReport)

end ImportGraph

end Salicin.Modules
