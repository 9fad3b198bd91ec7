import Mathlib.Algebra.Group.Nat.Defs
import Mathlib.Logic.Function.Basic

/-!
# Editor sessions

`WorkspaceSession` of `editor.rs`: the documents of a workspace, the overlays of the open ones,
and the snapshots that are taken of them.
-/

namespace Salicin.Editor

open Function Option

inductive DocumentTarget where
  | library
  | binary

/-- A source that a package brings along. -/
structure SourceUnit where
  path : String
  modulePath : List String
  source : String
  isRoot : Bool

structure SourcePackage where
  id : Nat
  name : String
  version : String
  identity : String
  isPrimary : Bool
  dependencies : List (String × Nat)
  sources : List SourceUnit

structure WorkspaceSnapshotId where
  session : Nat
  revision : Nat
deriving DecidableEq

structure WorkspaceSnapshotDocument where
  path : String
  modulePath : List String
  source : String
  isRoot : Bool
  version : Option Int
  editable : Bool

structure WorkspaceSnapshotPackage where
  id : Nat
  name : String
  version : String
  identity : String
  isPrimary : Bool
  dependencies : List (String × Nat)
  documents : List String

structure WorkspaceSnapshot where
  id : WorkspaceSnapshotId
  target : DocumentTarget
  documents : List WorkspaceSnapshotDocument
  packages : List WorkspaceSnapshotPackage

structure WorkspaceSnapshotAnalysis (Analysis : Type) where
  id : WorkspaceSnapshotId
  documentVersions : List (String × Option Int)
  analysis : Analysis

inductive WorkspaceSessionError where
  | duplicateDocument (document : String)
  | unknownDocument (document : String)
  | documentAlreadyOpen (document : String)
  | documentNotOpen (document : String)
  | readOnlyDocument (document : String)
  | staleDocumentVersion (document : String) (current received : Int)
  | revisionExhausted

structure SessionDocument where
  path : String
  modulePath : List String
  baseline : String
  isRoot : Bool
  editable : Bool

structure OpenDocument where
  version : Int
  source : String

/-- A hash map is only looked up and written. -/
abbrev PathMap (Value : Type) := String → Option Value

/-! ## Documents and their indexes -/

/-- A path has the index of the document with this path, and no other index. -/
def Indexed (documents : List SessionDocument) (indexes : PathMap Nat) : Prop :=
  ∀ path i, indexes path = some i ↔ documents[i]?.map SessionDocument.path = some path

variable {documents : List SessionDocument} {indexes : PathMap Nat}

theorem Indexed.lt (hidxd : Indexed documents indexes) {path : String} {i : Nat}
    (hidx : indexes path = some i) : i < documents.length := by
  have hpath := (hidxd path i).mp hidx
  rw [map_eq_some_iff] at hpath
  obtain ⟨document, hdoc, -⟩ := hpath
  exact (List.getElem?_eq_some_iff.mp hdoc).1

theorem Indexed.empty : Indexed [] (fun _ => none) := by
  intro path i
  constructor <;> intro h <;> cases h

theorem Indexed.push (hidxd : Indexed documents indexes) (document : SessionDocument)
    (hfresh : indexes document.path = none) :
    Indexed (documents ++ [document])
      (Function.update indexes document.path (some documents.length)) := by
  intro path i
  rcases Nat.lt_trichotomy i documents.length with hlt | rfl | hgt
  · rw [List.getElem?_append_left hlt, ← hidxd path i]
    by_cases hpath : path = document.path
    · rw [hpath, update_self, hfresh]
      constructor
      · intro h
        rw [← some_inj.mp h] at hlt
        exact absurd hlt (Nat.lt_irrefl _)
      · intro h
        cases h
    · rw [update_of_ne hpath]
  · rw [List.getElem?_concat_length, map_some, some_inj]
    by_cases hpath : path = document.path
    · rw [hpath, update_self]
      exact ⟨fun _ => rfl, fun _ => rfl⟩
    · rw [update_of_ne hpath]
      constructor
      · intro h
        exact absurd (hidxd.lt h) (Nat.lt_irrefl _)
      · intro h
        exact absurd h.symm hpath
  · rw [List.getElem?_eq_none (by rw [List.length_append]; exact hgt)]
    constructor
    · intro h
      by_cases hpath : path = document.path
      · rw [hpath, update_self] at h
        exact absurd (some_inj.mp h) (Nat.ne_of_lt hgt)
      · rw [update_of_ne hpath] at h
        exact absurd (hidxd.lt h) (Nat.lt_asymm hgt)
    · intro h
      cases h

theorem Indexed.modify (hidxd : Indexed documents indexes) (i : Nat)
    {change : SessionDocument → SessionDocument}
    (hchange : ∀ document, (change document).path = document.path) :
    Indexed (documents.modify i change) indexes := by
  intro path other
  rw [hidxd path other, List.getElem?_modify, map_eq_map, map_map]
  have hpath : (SessionDocument.path ∘ fun document =>
      if i = other then change document else document) = SessionDocument.path := by
    funext document
    rw [comp_apply]
    by_cases hother : i = other
    · rw [if_pos hother, hchange]
    · rw [if_neg hother]
  rw [hpath]

structure DocumentTable where
  documents : List SessionDocument
  documentIndexes : PathMap Nat
  indexed : Indexed documents documentIndexes

structure WorkspaceSession extends DocumentTable where
  id : Nat
  revision : Nat
  target : DocumentTarget
  openDocuments : PathMap OpenDocument
  packages : List WorkspaceSnapshotPackage

/-- The loop body over the sources of a package. -/
def DocumentTable.addSource (editable : Bool) (table : DocumentTable) (source : SourceUnit) :
    Except WorkspaceSessionError DocumentTable :=
  if hfresh : table.documentIndexes source.path = none then
    let document : SessionDocument :=
      ⟨source.path, source.modulePath, source.source, source.isRoot, editable⟩
    .ok ⟨table.documents ++ [document],
      Function.update table.documentIndexes source.path (some table.documents.length),
      table.indexed.push document hfresh⟩
  else .error (.duplicateDocument source.path)

def DocumentTable.addPackage (table : DocumentTable) (package : SourcePackage) :
    Except WorkspaceSessionError DocumentTable :=
  package.sources.foldlM (DocumentTable.addSource package.isPrimary) table

def snapshotPackage (package : SourcePackage) : WorkspaceSnapshotPackage where
  id := package.id
  name := package.name
  version := package.version
  identity := package.identity
  isPrimary := package.isPrimary
  dependencies := package.dependencies
  documents := package.sources.map SourceUnit.path

/-- `new_packages` with the next identity of the process. -/
def newPackages (id : Nat) (packages : List SourcePackage) (target : DocumentTarget) :
    Except WorkspaceSessionError WorkspaceSession := do
  let table ← packages.foldlM DocumentTable.addPackage ⟨[], fun _ => none, .empty⟩
  .ok { table with
    id := id
    revision := 0
    target := target
    openDocuments := fun _ => none
    packages := packages.map snapshotPackage }

/-! ## Operations -/

namespace WorkspaceSession

def snapshotId (session : WorkspaceSession) : WorkspaceSnapshotId := ⟨session.id, session.revision⟩

def requireDocument (session : WorkspaceSession) (document : String) :
    Except WorkspaceSessionError (Fin session.documents.length) :=
  match hidx : session.documentIndexes document with
  | some i => .ok ⟨i, session.indexed.lt hidx⟩
  | none => .error (.unknownDocument document)

def requireEditableDocument (session : WorkspaceSession) (document : String) :
    Except WorkspaceSessionError (Fin session.documents.length) := do
  let i ← session.requireDocument document
  if session.documents[i].editable then .ok i
  else .error (.readOnlyDocument document)

def bumpRevision : EStateM WorkspaceSessionError WorkspaceSession Unit := do
  let session ← get
  if session.revision + 1 < 2 ^ 64 then set { session with revision := session.revision + 1 }
  else throw .revisionExhausted

def withOverlay (session : WorkspaceSession) (document : String)
    (overlay : Option OpenDocument) : WorkspaceSession :=
  { session with openDocuments := Function.update session.openDocuments document overlay }

def withBaseline (session : WorkspaceSession) (i : Nat) (baseline : String) : WorkspaceSession :=
  { session with
    documents := session.documents.modify i fun document =>
      { document with baseline := baseline }
    indexed := session.indexed.modify i fun _ => rfl }

/-- The shape of every operation: its checks, the next revision, its change. -/
def revise {Checked : Type} (check : WorkspaceSession → Except WorkspaceSessionError Checked)
    (change : Checked → WorkspaceSession → WorkspaceSession) :
    EStateM WorkspaceSessionError WorkspaceSession WorkspaceSnapshotId := do
  match check (← get) with
  | .error error => throw error
  | .ok checked =>
    bumpRevision
    modify (change checked)
    return (← get).snapshotId

def openDocument (document : String) (version : Int) (source : String) :
    EStateM WorkspaceSessionError WorkspaceSession WorkspaceSnapshotId :=
  revise
    (fun session => do
      let _ ← session.requireEditableDocument document
      if (session.openDocuments document).isSome then throw (.documentAlreadyOpen document))
    (fun _ session => session.withOverlay document (some ⟨version, source⟩))

def changeDocument (document : String) (version : Int) (source : String) :
    EStateM WorkspaceSessionError WorkspaceSession WorkspaceSnapshotId :=
  revise
    (fun session => do
      let _ ← session.requireEditableDocument document
      match session.openDocuments document with
      | none => throw (.documentNotOpen document)
      | some overlay =>
        if version ≤ overlay.version then
          throw (.staleDocumentVersion document overlay.version version))
    (fun _ session => session.withOverlay document (some ⟨version, source⟩))

def closeDocument (document : String) :
    EStateM WorkspaceSessionError WorkspaceSession WorkspaceSnapshotId :=
  revise
    (fun session => do
      let _ ← session.requireEditableDocument document
      if (session.openDocuments document).isNone then throw (.documentNotOpen document))
    (fun _ session => session.withOverlay document none)

/-- Without a text the overlay becomes the baseline. -/
def saveDocument (document : String) (source : Option String) :
    EStateM WorkspaceSessionError WorkspaceSession WorkspaceSnapshotId :=
  revise
    (fun session => do
      let i ← session.requireEditableDocument document
      match session.openDocuments document with
      | none => throw (.documentNotOpen document)
      | some overlay => return (i.val, source.getD overlay.source))
    (fun (i, baseline) session => session.withBaseline i baseline)

def updateBaseline (document source : String) :
    EStateM WorkspaceSessionError WorkspaceSession WorkspaceSnapshotId :=
  revise
    (fun session => do
      let i ← session.requireEditableDocument document
      return i.val)
    (fun i session => session.withBaseline i source)

/-! ## Snapshots and their analyses -/

def snapshotDocument (session : WorkspaceSession) (document : SessionDocument) :
    WorkspaceSnapshotDocument :=
  let overlay := session.openDocuments document.path
  { path := document.path
    modulePath := document.modulePath
    source := (overlay.map OpenDocument.source).getD document.baseline
    isRoot := document.isRoot
    version := overlay.map OpenDocument.version
    editable := document.editable }

def snapshot (session : WorkspaceSession) : WorkspaceSnapshot where
  id := session.snapshotId
  target := session.target
  documents := session.documents.map session.snapshotDocument
  packages := session.packages

def acceptAnalysis {Analysis : Type} (session : WorkspaceSession)
    (result : WorkspaceSnapshotAnalysis Analysis) : Option Analysis :=
  if result.id = session.snapshotId then some result.analysis else none

end WorkspaceSession

namespace WorkspaceSnapshot

def sourceUnit (snapshot : WorkspaceSnapshot) (path : String) : Option SourceUnit := do
  let document ← snapshot.documents.find? fun document => document.path == path
  some ⟨document.path, document.modulePath, document.source, document.isRoot⟩

/-- `none` where a document of a package is missing, which the source takes for impossible. -/
def sourcePackage (snapshot : WorkspaceSnapshot) (package : WorkspaceSnapshotPackage) :
    Option SourcePackage := do
  let sources ← package.documents.mapM snapshot.sourceUnit
  some ⟨package.id, package.name, package.version, package.identity, package.isPrimary,
    package.dependencies, sources⟩

section
variable {Analysis : Type}
  (analyzeWorkspacePackages : List SourcePackage → DocumentTarget → Analysis)

/-- What the compiler makes of the packages is left open. -/
def analyze (snapshot : WorkspaceSnapshot) : Option (WorkspaceSnapshotAnalysis Analysis) := do
  let packages ← snapshot.packages.mapM snapshot.sourcePackage
  some
    { id := snapshot.id
      documentVersions := snapshot.documents.map fun document =>
        (document.path, document.version)
      analysis := analyzeWorkspacePackages packages snapshot.target }

end

end WorkspaceSnapshot

end Salicin.Editor
