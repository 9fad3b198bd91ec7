import Salicin.Editor.SessionViews

/-!
# The snapshots of a session are consistent

From its first snapshot on a session shows what the accepted operations have made of the sources
of its packages. Analyses are of what a snapshot shows, and are accepted for this snapshot only.
-/

namespace Salicin.Editor

open Option List WorkspaceSession

/-! ## The first snapshot -/

variable {table next : DocumentTable}

theorem addSource_ok {editable : Bool} {unit : SourceUnit}
    (h : table.addSource editable unit = .ok next) :
    next.documents = table.documents ++ [sessionDocument editable [] unit] := by
  rw [DocumentTable.addSource] at h
  by_cases hfresh : table.documentIndexes unit.path = none
  · rw [dif_pos hfresh] at h
    cases h
    rfl
  · rw [dif_neg hfresh] at h
    cases h

variable {pkg : SourcePackage}

theorem addPackage_ok (h : table.addPackage pkg = .ok next) :
    next.documents =
      table.documents ++ pkg.sources.map (sessionDocument pkg.isPrimary []) := by
  rw [DocumentTable.addPackage] at h
  generalize pkg.sources = units at h ⊢
  induction units generalizing table with
  | nil =>
    cases h
    exact (append_nil _).symm
  | cons unit rest ih =>
    rw [foldlM_cons] at h
    obtain ⟨middle, hadd, h⟩ := ExceptLists.bind_eq_ok.mp h
    rw [ih h, addSource_ok hadd, append_assoc]
    rfl

theorem addPackages_ok {packages : List SourcePackage}
    (h : packages.foldlM DocumentTable.addPackage table = .ok next) :
    next.documents =
      table.documents ++ documentsOf packages fun editable => sessionDocument editable [] := by
  induction packages generalizing table with
  | nil =>
    cases h
    exact (append_nil _).symm
  | cons pkg rest ih =>
    rw [foldlM_cons] at h
    obtain ⟨middle, hadd, h⟩ := ExceptLists.bind_eq_ok.mp h
    rw [ih h, addPackage_ok hadd, append_assoc]
    rfl

theorem shows_newPackages {id : Nat} {packages : List SourcePackage} {target : DocumentTarget}
    {session : WorkspaceSession} (h : newPackages id packages target = .ok session) :
    Shows packages [] session := by
  rw [newPackages] at h
  obtain ⟨table, htable, h⟩ := ExceptLists.bind_eq_ok.mp h
  cases h
  exact ⟨rfl, addPackages_ok htable, fun _ _ _ _ => rfl⟩

/-! ## What is analysed -/

/-- A package with the texts that its documents show. -/
def shownPackage (operations : List Operation) (pkg : SourcePackage) : SourcePackage :=
  { pkg with
    sources := pkg.sources.map fun unit =>
      { unit with source := (viewOf unit operations).source } }

theorem document_unique {documents : List SessionDocument} {indexes : PathMap Nat}
    (hidxd : Indexed documents indexes) {first second : SessionDocument}
    (hfst : first ∈ documents) (hsnd : second ∈ documents)
    (hpath : first.path = second.path) : first = second := by
  obtain ⟨i, hidx⟩ := mem_iff_getElem?.mp hfst
  obtain ⟨other, hother⟩ := mem_iff_getElem?.mp hsnd
  have hhere := (hidxd first.path i).mpr (by rw [hidx]; rfl)
  have hthere := (hidxd first.path other).mpr (by rw [hother, hpath]; rfl)
  rw [hhere] at hthere
  rw [← some_inj.mp hthere, hidx] at hother
  exact some_inj.mp hother

section
variable {packages : List SourcePackage} {operations : List Operation}
  {session : WorkspaceSession}

theorem Shows.sourceUnit (hshows : Shows packages operations session)
    (hpkg : pkg ∈ packages) {unit : SourceUnit} (hunit : unit ∈ pkg.sources) :
    session.snapshot.sourceUnit unit.path =
      some { unit with source := (viewOf unit operations).source } := by
  let document := sessionDocument pkg.isPrimary operations unit
  have hdoc : document ∈ session.documents := by
    rw [hshows.documents, documentsOf, mem_flatMap]
    exact ⟨pkg, hpkg, mem_map_of_mem hunit⟩
  have hfind : session.documents.find? (fun other => other.path == unit.path) =
      some document := by
    cases hfound : session.documents.find? (fun other => other.path == unit.path) with
    | none =>
      have hnone := List.find?_eq_none.mp hfound document hdoc
      exact absurd (beq_self_eq_true unit.path) hnone
    | some other =>
      have hpath := List.find?_some hfound
      have hsame := document_unique session.indexed (mem_of_find?_eq_some hfound)
        hdoc (eq_of_beq hpath)
      rw [hsame]
  have hsnap : session.snapshot.documents.find? (fun other => other.path == unit.path) =
      some (session.snapshotDocument document) := by
    rw [WorkspaceSession.snapshot, List.find?_map]
    exact congrArg (Option.map session.snapshotDocument) hfind
  have hsrc : (session.snapshotDocument document).source = (viewOf unit operations).source := by
    have hoverlay := hshows.overlays pkg hpkg unit hunit
    rw [snapshotDocument, DocumentView.source]
    simp only [document, sessionDocument, hoverlay]
    cases (viewOf unit operations).overlay <;> rfl
  rw [WorkspaceSnapshot.sourceUnit, hsnap]
  simp only [bind_eq_bind, bind_some]
  rw [hsrc]
  rfl

theorem Shows.sourcePackage (hshows : Shows packages operations session) (hpkg : pkg ∈ packages) :
    session.snapshot.sourcePackage (snapshotPackage pkg) =
      some (shownPackage operations pkg) := by
  have hsrcs : (pkg.sources.map SourceUnit.path).mapM session.snapshot.sourceUnit =
      some (pkg.sources.map fun unit =>
        { unit with source := (viewOf unit operations).source }) :=
    OptionLists.mapM_map_eq_some fun _ hunit => hshows.sourceUnit hpkg hunit
  rw [WorkspaceSnapshot.sourcePackage]
  simp only [snapshotPackage, hsrcs]
  rfl

section
variable {Analysis : Type}
  (analyzeWorkspacePackages : List SourcePackage → DocumentTarget → Analysis)

theorem Shows.analyze (hshows : Shows packages operations session) :
    session.snapshot.analyze analyzeWorkspacePackages = some ⟨session.snapshotId,
        session.snapshot.documents.map fun document => (document.path, document.version),
        analyzeWorkspacePackages (packages.map (shownPackage operations)) session.target⟩ := by
  have hpkgs : session.snapshot.packages.mapM session.snapshot.sourcePackage =
      some (packages.map (shownPackage operations)) := by
    refine Eq.trans (congrArg (mapM session.snapshot.sourcePackage) hshows.listed) ?_
    exact OptionLists.mapM_map_eq_some fun _ hpkg => hshows.sourcePackage hpkg
  rw [WorkspaceSnapshot.analyze, hpkgs]
  rfl

end

end

/-! ## Consistency -/

/-- In every run of a session: an operation that fails leaves the session as it is, equal
identities are those of equal snapshots, the version of a document that stays open rises with
every change, a snapshot shows the overlays of the open documents and the latest baselines of the
others, and an analysis is accepted only while the snapshot that it is of is the current one. -/
theorem snapshots_consistent {Analysis : Type}
    (analyzeWorkspacePackages : List SourcePackage → DocumentTarget → Analysis)
    {id : Nat} {packages : List SourcePackage} {target : DocumentTarget}
    {session : WorkspaceSession} (hnew : newPackages id packages target = .ok session)
    (before between : List Operation) :
    let first := run session before
    let last := run first between
    (∀ (operation : Operation) (error : WorkspaceSessionError) (next : WorkspaceSession),
      operation.perform last = .error error next → next = last) ∧
    (last.snapshotId = first.snapshotId → last.snapshot = first.snapshot) ∧
    (∀ (document : String) (overlay : OpenDocument),
      first.openDocuments document = some overlay → .closeDocument document ∉ between →
      ∃ next, last.openDocuments document = some next ∧
        (next = overlay ∨ overlay.version < next.version)) ∧
    (∀ (document : String) (version : Int) (source : String) (id : WorkspaceSnapshotId)
      (next : WorkspaceSession), changeDocument document version source last = .ok id next →
      ∃ overlay, last.openDocuments document = some overlay ∧ overlay.version < version ∧
        next.openDocuments document = some ⟨version, source⟩) ∧
    last.snapshot.documents = (documentsOf packages fun editable =>
      shownDocument editable (accepted session (before ++ between))) ∧
    (∃ result, first.snapshot.analyze analyzeWorkspacePackages = some result ∧
      ∀ analysis, last.acceptAnalysis result = some analysis → last.snapshot = first.snapshot ∧
        analysis = analyzeWorkspacePackages
          (packages.map (shownPackage (accepted session (before ++ between)))) last.target) ∧
    (∀ (snapshot : WorkspaceSnapshot) (result : WorkspaceSnapshotAnalysis Analysis),
      snapshot.analyze analyzeWorkspacePackages = some result →
      snapshot.id.session ≠ last.id → last.acceptAnalysis result = none) := by
  intro first last
  have hstart := shows_newPackages hnew
  have hfst : Shows packages (accepted session before) first := hstart.run before
  have hlast : Shows packages (accepted session (before ++ between)) last := by
    have hwhole := hstart.run (before ++ between)
    rwa [run, foldl_append] at hwhole
  refine ⟨fun _ _ _ => perform_error, ?_, fun _ _ => overlay_run, ?_, hlast.snapshot, ?_, ?_⟩
  · intro hid
    rw [show last = first from run_eq_of_snapshotId_eq hid]
  · intro document version source id next h
    have hperform : (Operation.changeDocument document version source).perform last =
        .ok id next := h
    obtain ⟨⟨⟨overlay, hopen, hver⟩, hnext⟩, -⟩ := perform_ok hperform
    refine ⟨overlay, hopen, hver, ?_⟩
    rw [hnext]
    exact Function.update_self _ _ _
  · refine ⟨_, hfst.analyze analyzeWorkspacePackages, fun analysis haccept => ?_⟩
    rw [acceptAnalysis] at haccept
    split_ifs at haccept with hid
    have hsame : last = first := run_eq_of_snapshotId_eq hid.symm
    refine ⟨congrArg WorkspaceSession.snapshot hsame, ?_⟩
    -- The accepted operations are those of the current snapshot.
    have hagain := hlast.analyze analyzeWorkspacePackages
    rw [hsame, hfst.analyze analyzeWorkspacePackages] at hagain
    rw [← some_inj.mp haccept, hsame]
    exact congrArg WorkspaceSnapshotAnalysis.analysis (some_inj.mp hagain)
  · intro snapshot result hres hother
    have hid : result.id = snapshot.id := by
      rw [WorkspaceSnapshot.analyze] at hres
      obtain ⟨found, -, hres⟩ := bind_eq_some_iff.mp hres
      cases hres
      rfl
    rw [acceptAnalysis, if_neg]
    intro hsame
    rw [hid] at hsame
    exact hother (congrArg WorkspaceSnapshotId.session hsame)

theorem snapshots_consistent_single : ∃ session,
    newPackages 1 [⟨0, "app", "0.1.0", "app@0.1.0", true, [],
      [⟨"src/main.sc", [], "saved", true⟩]⟩] .binary = .ok session ∧
    (run session [.openDocument "src/main.sc" 1 "typed"]).snapshot.documents =
      documentsOf [⟨0, "app", "0.1.0", "app@0.1.0", true, [],
        [⟨"src/main.sc", [], "saved", true⟩]⟩] fun editable =>
          shownDocument editable (accepted session [.openDocument "src/main.sc" 1 "typed"]) :=
  ⟨_, rfl, (snapshots_consistent (fun packages _ => packages) rfl []
    [.openDocument "src/main.sc" 1 "typed"]).2.2.2.2.1⟩

end Salicin.Editor
