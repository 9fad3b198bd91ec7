import Salicin.Editor.Session
import Salicin.Foundation.FallibleLists
import Salicin.Foundation.Stamps

/-!
# Runs of editor sessions

An operation that is rejected leaves the session as it is, and one that is accepted raises the
revision. What a snapshot shows of a document follows from the accepted operations alone.
-/

namespace Salicin.Editor

open Function WorkspaceSession ExceptLists

inductive Operation where
  | openDocument (document : String) (version : Int) (source : String)
  | changeDocument (document : String) (version : Int) (source : String)
  | closeDocument (document : String)
  | saveDocument (document : String) (source : Option String)
  | updateBaseline (document source : String)

namespace Operation

def perform : Operation → EStateM WorkspaceSessionError WorkspaceSession WorkspaceSnapshotId
  | openDocument document version source =>
    WorkspaceSession.openDocument document version source
  | changeDocument document version source =>
    WorkspaceSession.changeDocument document version source
  | closeDocument document => WorkspaceSession.closeDocument document
  | saveDocument document source => WorkspaceSession.saveDocument document source
  | updateBaseline document source => WorkspaceSession.updateBaseline document source

end Operation

/-- The session behind an operation, whatever it returns. -/
def after (session : WorkspaceSession) (op : Operation) : WorkspaceSession :=
  match op.perform session with
  | .ok _ next => next
  | .error _ next => next

def run (session : WorkspaceSession) (operations : List Operation) : WorkspaceSession :=
  operations.foldl after session

def accepts (session : WorkspaceSession) (op : Operation) : Bool :=
  match op.perform session with
  | .ok _ _ => true
  | .error _ _ => false

/-- The operations of a run that are accepted. -/
def accepted : WorkspaceSession → List Operation → List Operation
  | _, [] => []
  | session, op :: rest =>
    (if accepts session op then [op] else []) ++ accepted (after session op) rest

/-! ## What an operation does -/

section
variable {Checked : Type} {check : WorkspaceSession → Except WorkspaceSessionError Checked}
  {change : Checked → WorkspaceSession → WorkspaceSession} {session next : WorkspaceSession}

theorem get_bind_run {Result : Type}
    (rest : WorkspaceSession → EStateM WorkspaceSessionError WorkspaceSession Result)
    (session : WorkspaceSession) : (get >>= rest) session = rest session session :=
  rfl

def nextRevision (session : WorkspaceSession) : WorkspaceSession :=
  { session with revision := session.revision + 1 }

theorem bumpRevision_run (session : WorkspaceSession) :
    bumpRevision session = if session.revision + 1 < 2 ^ 64 then .ok () (nextRevision session)
      else .error .revisionExhausted session := by
  by_cases hroom : session.revision + 1 < 2 ^ 64
  · rw [if_pos hroom]
    rw [bumpRevision, get_bind_run]
    rw [if_pos hroom]
    rfl
  · rw [if_neg hroom]
    rw [bumpRevision, get_bind_run]
    rw [if_neg hroom]
    rfl

theorem revise_run (session : WorkspaceSession) :
    revise check change session =
      match check session with
      | .error error => .error error session
      | .ok checked =>
        if session.revision + 1 < 2 ^ 64 then
          .ok (change checked (nextRevision session)).snapshotId
            (change checked (nextRevision session))
        else .error .revisionExhausted session := by
  rw [revise, get_bind_run]
  simp only [bind]
  cases check session with
  | error error => rfl
  | ok checked =>
    have hbump := bumpRevision_run session
    by_cases hroom : session.revision + 1 < 2 ^ 64
    · rw [if_pos hroom] at hbump
      simp only [EStateM.bind, hbump, if_pos hroom]
      rfl
    · rw [if_neg hroom] at hbump
      simp only [EStateM.bind, hbump, if_neg hroom]

theorem revise_error {error : WorkspaceSessionError}
    (h : revise check change session = .error error next) : next = session := by
  rw [revise_run] at h
  cases hcheck : check session with
  | error reason =>
    rw [hcheck] at h
    cases h
    rfl
  | ok checked =>
    rw [hcheck] at h
    simp only at h
    by_cases hroom : session.revision + 1 < 2 ^ 64
    · rw [if_pos hroom] at h
      cases h
    · rw [if_neg hroom] at h
      cases h
      rfl

theorem revise_ok {id : WorkspaceSnapshotId} (h : revise check change session = .ok id next) :
    ∃ checked, check session = .ok checked ∧ next = change checked (nextRevision session) ∧
      id = next.snapshotId := by
  rw [revise_run] at h
  cases hcheck : check session with
  | error reason =>
    rw [hcheck] at h
    cases h
  | ok checked =>
    rw [hcheck] at h
    simp only at h
    by_cases hroom : session.revision + 1 < 2 ^ 64
    · rw [if_pos hroom] at h
      cases h
      exact ⟨checked, rfl, rfl, rfl⟩
    · rw [if_neg hroom] at h
      cases h

end

variable {session next : WorkspaceSession} {op : Operation}

theorem perform_error {error : WorkspaceSessionError} (h : op.perform session = .error error next) :
    next = session := by
  cases op <;> exact revise_error h

/-- The guards of an operation that is accepted, and the session behind it. -/
def Effect (session next : WorkspaceSession) : Operation → Prop
  | .openDocument document version source =>
    session.openDocuments document = none ∧
    next = (nextRevision session).withOverlay document (some ⟨version, source⟩)
  | .changeDocument document version source =>
    (∃ overlay, session.openDocuments document = some overlay ∧ overlay.version < version) ∧
    next = (nextRevision session).withOverlay document (some ⟨version, source⟩)
  | .closeDocument document =>
    (∃ overlay, session.openDocuments document = some overlay) ∧
    next = (nextRevision session).withOverlay document none
  | .saveDocument document source => ∃ index overlay,
      session.documentIndexes document = some index ∧
      session.openDocuments document = some overlay ∧
      next = (nextRevision session).withBaseline index (source.getD overlay.source)
  | .updateBaseline document source => ∃ index, session.documentIndexes document = some index ∧
      next = (nextRevision session).withBaseline index source

theorem requireEditableDocument_ok {doc : String} {i : Fin session.documents.length}
    (h : session.requireEditableDocument doc = .ok i) :
    session.documentIndexes doc = some i.val := by
  rw [requireEditableDocument, requireDocument] at h
  split at h
  · next found hfound =>
      simp only [bind, Except.bind] at h
      split_ifs at h
      cases h
      exact hfound
  · cases h

theorem perform_ok {id : WorkspaceSnapshotId} (h : op.perform session = .ok id next) :
    Effect session next op ∧ id = next.snapshotId := by
  cases op with
  | openDocument doc version src =>
    obtain ⟨checked, hcheck, hnext, hid⟩ := revise_ok h
    refine ⟨⟨?_, hnext⟩, hid⟩
    obtain ⟨i, hidx, hcheck⟩ := bind_eq_ok.mp hcheck
    split_ifs at hcheck with hopen
    exact Option.not_isSome_iff_eq_none.mp hopen
  | changeDocument doc version src =>
    obtain ⟨checked, hcheck, hnext, hid⟩ := revise_ok h
    refine ⟨⟨?_, hnext⟩, hid⟩
    obtain ⟨i, hidx, hcheck⟩ := bind_eq_ok.mp hcheck
    cases hopen : session.openDocuments doc with
    | none =>
      rw [hopen] at hcheck
      cases hcheck
    | some overlay =>
      rw [hopen] at hcheck
      simp only at hcheck
      split_ifs at hcheck with hstale
      exact ⟨overlay, rfl, Int.lt_of_not_ge hstale⟩
  | closeDocument doc =>
    obtain ⟨checked, hcheck, hnext, hid⟩ := revise_ok h
    refine ⟨⟨?_, hnext⟩, hid⟩
    obtain ⟨i, hidx, hcheck⟩ := bind_eq_ok.mp hcheck
    split_ifs at hcheck with hclosed
    exact Option.ne_none_iff_exists'.mp fun hnone =>
      hclosed (Option.isNone_iff_eq_none.mpr hnone)
  | saveDocument doc src =>
    obtain ⟨⟨found, baseline⟩, hcheck, hnext, hid⟩ := revise_ok h
    obtain ⟨i, hidx, hcheck⟩ := bind_eq_ok.mp hcheck
    cases hopen : session.openDocuments doc with
    | none =>
      rw [hopen] at hcheck
      cases hcheck
    | some overlay =>
      rw [hopen] at hcheck
      cases hcheck
      exact ⟨⟨i, overlay, requireEditableDocument_ok hidx, hopen, hnext⟩, hid⟩
  | updateBaseline doc src =>
    obtain ⟨found, hcheck, hnext, hid⟩ := revise_ok h
    obtain ⟨i, hidx, hcheck⟩ := bind_eq_ok.mp hcheck
    cases hcheck
    exact ⟨⟨i, requireEditableDocument_ok hidx, hnext⟩, hid⟩

/-- The session stays as it is, or the effect of the operation takes place. -/
theorem after_cases (session : WorkspaceSession) (op : Operation) :
    (accepts session op = false ∧ after session op = session) ∨
      (accepts session op = true ∧ Effect session (after session op) op) := by
  rw [accepts, after]
  cases hperform : op.perform session with
  | ok id next => exact .inr ⟨rfl, (perform_ok hperform).1⟩
  | error error next => exact .inl ⟨rfl, perform_error hperform⟩

theorem Effect.revision (heff : Effect session next op) :
    next.id = session.id ∧ next.revision = session.revision + 1 := by
  cases op with
  | openDocument doc version src => rw [heff.2]; exact ⟨rfl, rfl⟩
  | changeDocument doc version src => rw [heff.2]; exact ⟨rfl, rfl⟩
  | closeDocument doc => rw [heff.2]; exact ⟨rfl, rfl⟩
  | saveDocument doc src =>
    obtain ⟨i, overlay, -, -, rfl⟩ := heff
    exact ⟨rfl, rfl⟩
  | updateBaseline doc src =>
    obtain ⟨i, -, rfl⟩ := heff
    exact ⟨rfl, rfl⟩

/-! ## Snapshots with equal identities -/

theorem stamped_revision : Stamps.Stamped after WorkspaceSession.revision := by
  intro session op
  rcases after_cases session op with ⟨-, hsame⟩ | ⟨-, heff⟩
  · exact .inl hsame
  · refine .inr ?_
    rw [heff.revision.2]
    exact Nat.lt_succ_self _

theorem run_eq_of_snapshotId_eq {ops : List Operation}
    (hid : (run session ops).snapshotId = session.snapshotId) :
    run session ops = session :=
  stamped_revision.foldl_eq (congrArg WorkspaceSnapshotId.revision hid)

/-! ## Versions -/

/-- An overlay stays as it is or gives way to one with a higher version. -/
theorem overlay_after {doc : String} {overlay : OpenDocument}
    (hopen : session.openDocuments doc = some overlay) (hclose : op ≠ .closeDocument doc) :
    ∃ next, (after session op).openDocuments doc = some next ∧
      (next = overlay ∨ overlay.version < next.version) := by
  rcases after_cases session op with ⟨-, hsame⟩ | ⟨-, heff⟩
  · rw [hsame]
    exact ⟨overlay, hopen, .inl rfl⟩
  · cases op with
    | openDocument other version src =>
      obtain ⟨hclosed, hnext⟩ := heff
      rw [hnext]
      by_cases hother : doc = other
      · rw [← hother, hopen] at hclosed
        cases hclosed
      · exact ⟨overlay, (update_of_ne hother _ _).trans hopen, .inl rfl⟩
    | changeDocument other version src =>
      obtain ⟨⟨current, hcur, hver⟩, hnext⟩ := heff
      rw [hnext]
      by_cases hother : doc = other
      · rw [← hother, hopen] at hcur
        rw [← Option.some_inj.mp hcur] at hver
        rw [hother]
        exact ⟨_, update_self _ _ _, .inr hver⟩
      · exact ⟨overlay, (update_of_ne hother _ _).trans hopen, .inl rfl⟩
    | closeDocument other =>
      have hother : doc ≠ other := fun h => hclose (h ▸ rfl)
      rw [heff.2]
      exact ⟨overlay, (update_of_ne hother _ _).trans hopen, .inl rfl⟩
    | saveDocument other src =>
      obtain ⟨i, current, -, -, hnext⟩ := heff
      rw [hnext]
      exact ⟨overlay, hopen, .inl rfl⟩
    | updateBaseline other src =>
      obtain ⟨i, -, hnext⟩ := heff
      rw [hnext]
      exact ⟨overlay, hopen, .inl rfl⟩

theorem overlay_run {ops : List Operation} {doc : String} {overlay : OpenDocument}
    (hopen : session.openDocuments doc = some overlay) (hclose : .closeDocument doc ∉ ops) :
    ∃ next, (run session ops).openDocuments doc = some next ∧
      (next = overlay ∨ overlay.version < next.version) := by
  induction ops generalizing session overlay with
  | nil => exact ⟨overlay, hopen, .inl rfl⟩
  | cons op rest ih =>
    rw [List.mem_cons, not_or] at hclose
    obtain ⟨middle, hmid, hfst⟩ := overlay_after hopen (Ne.symm hclose.1)
    obtain ⟨next, hnext, hrest⟩ := ih hmid hclose.2
    refine ⟨next, hnext, ?_⟩
    rcases hfst with rfl | hfst
    · exact hrest
    · rcases hrest with rfl | hrest
      · exact .inr hfst
      · exact .inr (Int.lt_trans hfst hrest)

end Salicin.Editor
