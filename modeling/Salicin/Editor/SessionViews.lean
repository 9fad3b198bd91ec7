import Salicin.Editor.SessionRuns

/-!
# What a session shows of its documents

A client knows of a document its saved text and, while it is open, the text and the version of its
overlay. Every snapshot shows the documents as the accepted operations have left them.
-/

namespace Salicin.Editor

open List WorkspaceSession

/-- A document as a client knows it. -/
structure DocumentView where
  baseline : String
  overlay : Option OpenDocument

namespace DocumentView

/-- The overlay while the document is open, and else the latest baseline. -/
def source (view : DocumentView) : String :=
  match view.overlay with
  | some overlay => overlay.source
  | none => view.baseline

/-- What an accepted operation does to the document under a path. -/
def apply (path : String) (view : DocumentView) : Operation → DocumentView
  | .openDocument document version source | .changeDocument document version source =>
    if path = document then { view with overlay := some ⟨version, source⟩ } else view
  | .closeDocument document =>
    if path = document then { view with overlay := none } else view
  | .saveDocument document source =>
    if path = document then { view with baseline := source.getD view.source } else view
  | .updateBaseline document source =>
    if path = document then { view with baseline := source } else view

end DocumentView

/-- The view of a document that a session starts with. -/
def viewOf (unit : SourceUnit) (ops : List Operation) : DocumentView :=
  ops.foldl (DocumentView.apply unit.path) ⟨unit.source, none⟩

def sessionDocument (editable : Bool) (ops : List Operation) (unit : SourceUnit) :
    SessionDocument :=
  ⟨unit.path, unit.modulePath, (viewOf unit ops).baseline, unit.isRoot, editable⟩

/-- What a snapshot shows of a document after some accepted operations. -/
def shownDocument (editable : Bool) (ops : List Operation) (unit : SourceUnit) :
    WorkspaceSnapshotDocument :=
  let view := viewOf unit ops
  ⟨unit.path, unit.modulePath, view.source, unit.isRoot,
    view.overlay.map OpenDocument.version, editable⟩

section
variable {Document : Type} (pkgs : List SourcePackage)

/-- The documents of the packages, one after the other. -/
def documentsOf (form : Bool → SourceUnit → Document) : List Document :=
  pkgs.flatMap fun package => package.sources.map (form package.isPrimary)

theorem documentsOf_map {Other : Type} (form : Bool → SourceUnit → Document)
    (change : Document → Other) : (documentsOf pkgs form).map change =
      documentsOf pkgs fun editable unit => change (form editable unit) := by
  rw [documentsOf, documentsOf, map_flatMap]
  refine flatMap_congr fun package _ => ?_
  exact map_map

theorem documentsOf_congr {form other : Bool → SourceUnit → Document}
    (hform : ∀ package ∈ pkgs, ∀ unit ∈ package.sources,
      form package.isPrimary unit = other package.isPrimary unit) :
    documentsOf pkgs form = documentsOf pkgs other :=
  flatMap_congr fun package hpkg => map_congr_left (hform package hpkg)

end

/-- A session shows the documents of its packages after some accepted operations. -/
structure Shows (pkgs : List SourcePackage) (ops : List Operation)
    (session : WorkspaceSession) : Prop where
  listed : session.packages = pkgs.map snapshotPackage
  documents : session.documents = documentsOf pkgs fun editable => sessionDocument editable ops
  overlays : ∀ package ∈ pkgs, ∀ unit ∈ package.sources,
    session.openDocuments unit.path = (viewOf unit ops).overlay

theorem viewOf_concat (unit : SourceUnit) (ops : List Operation) (operation : Operation) :
    viewOf unit (ops ++ [operation]) =
      (viewOf unit ops).apply unit.path operation := by
  rw [viewOf, foldl_append]
  rfl

/-- The document at the index of a path is the only one with this path. -/
theorem modify_eq_map {documents : List SessionDocument} {indexes : PathMap Nat}
    (hidxd : Indexed documents indexes) {path : String} {index : Nat}
    (hidx : indexes path = some index) (change : SessionDocument → SessionDocument) :
    documents.modify index change = documents.map fun document =>
      if document.path = path then change document else document := by
  apply ext_getElem?
  intro other
  rw [getElem?_modify, getElem?_map]
  cases hdoc : documents[other]? with
  | none => rfl
  | some document =>
    have hpath : index = other ↔ document.path = path := by
      have hother := hidxd path other
      rw [hidx, hdoc, Option.map_some, Option.some_inj, Option.some_inj] at hother
      exact hother
    by_cases hhere : index = other
    · rw [Option.map_eq_map, Option.map_some, Option.map_some, if_pos hhere,
        if_pos (hpath.mp hhere)]
    · rw [Option.map_eq_map, Option.map_some, Option.map_some, if_neg hhere,
        if_neg (fun h => hhere (hpath.mpr h))]

section
variable {pkgs : List SourcePackage} {ops : List Operation}
  {session : WorkspaceSession}

section
variable (hshows : Shows pkgs ops session)
include hshows

theorem Shows.overlay {operation : Operation} {document : String} {overlay : Option OpenDocument}
    (hview : ∀ path view, DocumentView.apply path view operation =
      if path = document then { view with overlay := overlay } else view) :
    Shows pkgs (ops ++ [operation])
      ((nextRevision session).withOverlay document overlay) where
  listed := hshows.listed
  documents := by
    refine Eq.trans hshows.documents (documentsOf_congr pkgs fun package _ unit _ => ?_)
    rw [sessionDocument, sessionDocument, viewOf_concat, hview]
    by_cases hpath : unit.path = document
    · rw [if_pos hpath]
    · rw [if_neg hpath]
  overlays := by
    intro package hpkg unit hunit
    rw [viewOf_concat, hview]
    by_cases hpath : unit.path = document
    · rw [if_pos hpath, hpath]
      exact Function.update_self _ _ _
    · rw [if_neg hpath, ← hshows.overlays package hpkg unit hunit]
      exact Function.update_of_ne hpath _ _

theorem Shows.baseline {operation : Operation} {document baseline : String} {index : Nat}
    (hidx : session.documentIndexes document = some index)
    (hview : ∀ package ∈ pkgs, ∀ unit ∈ package.sources,
      (viewOf unit ops).apply unit.path operation =
        if unit.path = document then { viewOf unit ops with baseline := baseline }
        else viewOf unit ops) :
    Shows pkgs (ops ++ [operation])
      ((nextRevision session).withBaseline index baseline) where
  listed := hshows.listed
  documents := by
    have hmodify := modify_eq_map session.indexed hidx fun document =>
      { document with baseline := baseline }
    refine Eq.trans hmodify ?_
    rw [hshows.documents, documentsOf_map]
    refine documentsOf_congr pkgs fun package hpkg unit hunit => ?_
    rw [sessionDocument, sessionDocument, viewOf_concat, hview package hpkg unit hunit]
    by_cases hpath : unit.path = document
    · rw [if_pos hpath, if_pos hpath]
    · rw [if_neg hpath, if_neg hpath]
  overlays := by
    intro package hpkg unit hunit
    rw [viewOf_concat, hview package hpkg unit hunit]
    refine Eq.trans (hshows.overlays package hpkg unit hunit) ?_
    by_cases hpath : unit.path = document
    · rw [if_pos hpath]
    · rw [if_neg hpath]

theorem Shows.effect {operation : Operation} {next : WorkspaceSession}
    (heff : Effect session next operation) :
    Shows pkgs (ops ++ [operation]) next := by
  cases operation with
  | openDocument document version source =>
    rw [heff.2]
    exact hshows.overlay fun _ _ => rfl
  | changeDocument document version source =>
    rw [heff.2]
    exact hshows.overlay fun _ _ => rfl
  | closeDocument document =>
    rw [heff.2]
    exact hshows.overlay fun _ _ => rfl
  | saveDocument document source =>
    obtain ⟨index, overlay, hidx, hopen, rfl⟩ := heff
    refine hshows.baseline hidx fun package hpkg unit hunit => ?_
    by_cases hpath : unit.path = document
    · -- The text that is saved without one is that of the overlay.
      have hoverlay := hshows.overlays package hpkg unit hunit
      rw [hpath, hopen] at hoverlay
      have hsrc : (viewOf unit ops).source = overlay.source := by
        rw [DocumentView.source, ← hoverlay]
      rw [DocumentView.apply, if_pos hpath, if_pos hpath, hsrc]
    · rw [DocumentView.apply, if_neg hpath, if_neg hpath]
  | updateBaseline document source =>
    obtain ⟨index, hidx, rfl⟩ := heff
    exact hshows.baseline hidx fun _ _ _ _ => rfl

theorem Shows.run (rest : List Operation) :
    Shows pkgs (ops ++ accepted session rest) (run session rest) := by
  induction rest generalizing ops session with
  | nil =>
    rw [accepted, append_nil]
    exact hshows
  | cons operation rest ih =>
    rw [accepted, ← append_assoc]
    apply ih
    rcases after_cases session operation with ⟨hrejects, hsame⟩ | ⟨haccepts, heff⟩
    · rw [if_neg (by rw [hrejects]; exact Bool.false_ne_true), append_nil, hsame]
      exact hshows
    · rw [if_pos haccepts]
      exact hshows.effect heff

theorem Shows.snapshot :
    session.snapshot.documents =
      documentsOf pkgs fun editable => shownDocument editable ops := by
  refine Eq.trans (congrArg (List.map session.snapshotDocument) hshows.documents) ?_
  rw [documentsOf_map]
  refine documentsOf_congr pkgs fun package hpkg unit hunit => ?_
  have hoverlay := hshows.overlays package hpkg unit hunit
  rw [snapshotDocument, shownDocument, sessionDocument]
  simp only [hoverlay]
  rw [DocumentView.source]
  cases (viewOf unit ops).overlay <;> rfl

end

end

end Salicin.Editor
