import Salicin.Editor.Server
import Salicin.Editor.SnapshotConsistency

/-!
# The turns of the server

What every handler keeps: queries wait for the current snapshot only, and its analysis is on the
way. What every handler writes: one response for each request it takes from the queries, and
nothing that comes from another analysis than that of the current snapshot.
-/

namespace Salicin.Editor

open List World

variable {Index : Type} (compiler : Compiler Index)

/-! ## Freshness -/

/-- The analysis of a session's current snapshot. -/
def analysisOf (session : WorkspaceSession) :
    Option (WorkspaceSnapshotAnalysis (WorkspaceAnalysis Index)) :=
  session.snapshot.analyze (analyzeWorkspacePackages compiler)

/-- A server that has just taken an analysis. -/
def serverWith (session : WorkspaceSession)
    (result : WorkspaceSnapshotAnalysis (WorkspaceAnalysis Index)) : Server Index where
  session := session
  lifecycle := .running
  latestAnalysis := some (result.id, result.analysis)
  requestedAnalysis := none
  pendingQueries := []

/-- Answers and diagnostics come from the analysis of the current snapshot. -/
def Fresh (session : WorkspaceSession) : Sent → Prop
  | .answer _ kind params result => ∃ current, analysisOf compiler session = some current ∧
      current.id = session.snapshotId ∧
      result = (serverWith session current).query compiler kind params
  | .diagnostics params => ∃ current, analysisOf compiler session = some current ∧
      ∃ document ∈ current.analysis.documents,
        params = publishParams current.analysis current.documentVersions document
  | .unplaced diagnostic => ∃ current, analysisOf compiler session = some current ∧
      diagnostic ∈ current.analysis.diagnostics
  | .response _ _ | .failure _ _ _ | .log _ => True

/-! ## Accounts -/

def Sent.responseId : Sent → Option Value
  | .response id _ | .failure id _ _ | .answer id _ _ _ => some id
  | .diagnostics _ | .unplaced _ | .log _ => none

/-- The requests that the server knows of: answered, or waiting. -/
def account (world : World Index) : List Value :=
  world.written.filterMap Sent.responseId ++ world.pendingQueries.map PendingQuery.id

/-- What happens in a turn in which responses become due. -/
structure Turn (before after : World Index) (due : List Value) : Prop where
  written : ∃ new, after.written = before.written ++ new ∧
    ∀ message ∈ new, Fresh compiler after.session message
  account : (account after).Perm (account before ++ due)

variable (world : World Index)

theorem Turn.refl : Turn compiler world world [] where
  written := ⟨[], (append_nil _).symm, fun _ h => absurd h not_mem_nil⟩
  account := by rw [append_nil]

variable {compiler}

theorem Turn.trans {before middle last : World Index} {first second : List Value}
    (hfst : Turn compiler before middle first) (hsnd : Turn compiler middle last second)
    (hsession : last.session = middle.session) :
    Turn compiler before last (first ++ second) where
  written := by
    obtain ⟨early, hearly, hfreshEarly⟩ := hfst.written
    obtain ⟨late, hlate, hfreshLate⟩ := hsnd.written
    refine ⟨early ++ late, by rw [hlate, hearly, append_assoc], ?_⟩
    intro message hmsg
    rcases mem_append.mp hmsg with hmsg | hmsg
    · rw [hsession]
      exact hfreshEarly message hmsg
    · exact hfreshLate message hmsg
  account := by
    rw [← append_assoc]
    exact hsnd.account.trans (hfst.account.append_right second)

theorem Turn.of_eq {before middle last : World Index} {due : List Value}
    (hturn : Turn compiler middle last due) (hwritten : middle.written = before.written)
    (hpending : middle.pendingQueries = before.pendingQueries) :
    Turn compiler before last due where
  written := by
    rw [← hwritten]
    exact hturn.written
  account := by
    have haccount := hturn.account
    rwa [Salicin.Editor.account, Salicin.Editor.account, hwritten, hpending] at haccount

/-- One message is written, which may be the response to a request. -/
theorem turn_write {message : Sent}
    (hfresh : Fresh compiler world.session message) :
    Turn compiler world (world.write message) message.responseId.toList where
  written := ⟨[message], rfl, fun other hother => by
    rw [mem_singleton.mp hother]
    exact hfresh⟩
  account := by
    rw [account, account, write]
    rw [filterMap_append, append_assoc, append_assoc]
    refine List.Perm.append_left _ ?_
    refine (perm_append_comm).trans (List.Perm.append_left _ ?_)
    cases message <;> exact List.Perm.refl _

theorem turn_failure (id : Value) (code : Int) (message : String) :
    Turn compiler world (world.write (.failure id code message)) [id] :=
  turn_write world trivial

theorem turn_response (id res : Value) :
    Turn compiler world (world.write (.response id res)) [id] :=
  turn_write world trivial

theorem turn_settle {settled kept : List PendingQuery}
    {responses : List Sent} (hperm : (settled ++ kept).Perm world.pendingQueries)
    (hids : responses.filterMap Sent.responseId = settled.map PendingQuery.id)
    (hfresh : ∀ response ∈ responses, Fresh compiler world.session response) :
    Turn compiler world
      { world with pendingQueries := kept, written := world.written ++ responses } [] where
  written := ⟨responses, rfl, hfresh⟩
  account := by
    rw [account, account, append_nil, filterMap_append, hids, append_assoc, ← map_append]
    exact List.Perm.append_left _ (hperm.map _)

theorem turn_dismiss {dismissed kept : List PendingQuery} (code : Int)
    (message : String) (hperm : (dismissed ++ kept).Perm world.pendingQueries) :
    Turn compiler world
      { world with
        pendingQueries := kept
        written := world.written ++
          dismissed.map fun request => .failure request.id code message } [] := by
  refine turn_settle world hperm ?_ ?_
  · rw [filterMap_map]
    exact congrFun filterMap_eq_map' dismissed
  · intro response hresponse
    obtain ⟨request, -, rfl⟩ := mem_map.mp hresponse
    trivial

theorem turn_invalidate :
    Turn compiler world world.invalidateSupersededRequests [] := by
  refine turn_dismiss world _ _ (perm_append_comm.trans ?_)
  have hsplit := filter_append_perm
    (fun request : PendingQuery => decide (request.snapshot = world.session.snapshotId))
    world.pendingQueries
  simpa only [decide_not] using hsplit

theorem turn_cancelRequest (params : Value) :
    Turn compiler world (world.cancelRequest params) [] := by
  rw [cancelRequest]
  cases params.get "id" with
  | none => exact Turn.refl compiler world
  | some id =>
    cases hidx : world.pendingQueries.findIdx? fun request => request.id == id with
    | none =>
      simp only [hidx]
      exact Turn.refl compiler world
    | some i =>
      simp only [hidx]
      have hlt := (findIdx?_eq_some_iff_findIdx_eq.mp hidx).1
      have hperm : ([world.pendingQueries[i]] ++
          world.pendingQueries.eraseIdx i).Perm world.pendingQueries :=
        getElem_cons_eraseIdx_perm hlt
      rw [getElem?_eq_getElem hlt]
      exact turn_dismiss world (-32800) "Request cancelled" hperm

theorem turn_cancelAllPending (code : Int) (message : String) :
    Turn compiler world (world.cancelAllPending code message) [] :=
  turn_dismiss world code message (by rw [append_nil])

theorem turn_schedule : Turn compiler world world.scheduleAnalysis [] := by
  rw [scheduleAnalysis]
  split_ifs
  · exact Turn.refl compiler world
  · exact (Turn.refl compiler _).of_eq rfl rfl

theorem schedule_session :
    world.scheduleAnalysis.session = world.session := by
  rw [scheduleAnalysis]
  split_ifs <;> rfl

theorem turn_enqueue (id : Value) (kind : QueryKind) (params : Value) :
    Turn compiler world (world.enqueue id kind params) [id] := by
  let request : PendingQuery := ⟨id, params, world.session.snapshotId, kind⟩
  let waiting := { world with pendingQueries := world.pendingQueries ++ [request] }
  have hfst : Turn compiler world waiting [id] := by
    refine ⟨⟨[], (append_nil _).symm, fun _ h => absurd h not_mem_nil⟩, ?_⟩
    rw [account, account, map_append, append_assoc]
    exact List.Perm.refl _
  exact hfst.trans (turn_schedule waiting) (schedule_session waiting)

/-! ## What the server keeps -/

/-- A session that has become this one. -/
def Past (pkgs : List SourcePackage) (session past : WorkspaceSession) : Prop :=
  (∃ operations, Shows pkgs operations past) ∧ ∃ rest, run past rest = session

theorem Past.eq_of_id {pkgs : List SourcePackage} {session past : WorkspaceSession}
    (hpast : Past pkgs session past) (hid : past.snapshotId = session.snapshotId) :
    past = session := by
  obtain ⟨-, rest, hrun⟩ := hpast
  have hids : (run past rest).snapshotId = past.snapshotId := by
    rw [hrun, hid]
  rw [← hrun, run_eq_of_snapshotId_eq hids]

theorem Past.after {pkgs : List SourcePackage} {session past : WorkspaceSession}
    (hpast : Past pkgs session past) (op : Operation) :
    Past pkgs (after session op) past := by
  obtain ⟨hshows, rest, hrun⟩ := hpast
  refine ⟨hshows, rest ++ [op], ?_⟩
  rw [← hrun, run, foldl_append]
  rfl

section
variable (compiler)

/-- What holds of the server between its turns but for the analysis that its queries wait for.
In front of the snapshots on their way are the analyses that are completed. -/
structure Ready (pkgs : List SourcePackage)
    (front : List (WorkspaceSnapshotAnalysis (WorkspaceAnalysis Index)))
    (world : World Index) : Prop where
  shows : ∃ operations, Shows pkgs operations world.session
  pending : ∀ request ∈ world.pendingQueries, request.snapshot = world.session.snapshotId
  flying : ∀ id, world.requestedAnalysis = some id → (front.map WorkspaceSnapshotAnalysis.id ++
      world.sent.map WorkspaceSnapshot.id).getLast? = some id
  completed : ∀ result ∈ front, ∃ past, Past pkgs world.session past ∧
    analysisOf compiler past = some result
  sent : ∀ snapshot ∈ world.sent, ∃ past, Past pkgs world.session past ∧ snapshot = past.snapshot
  latest : ∀ id analysis, world.latestAnalysis = some (id, analysis) →
    ∃ past result, Past pkgs world.session past ∧ id = past.snapshotId ∧
      analysisOf compiler past = some result ∧ analysis = result.analysis

/-- Queries wait only while the analysis of the current snapshot is requested. -/
structure Kept (pkgs : List SourcePackage)
    (front : List (WorkspaceSnapshotAnalysis (WorkspaceAnalysis Index)))
    (world : World Index) : Prop extends Ready compiler pkgs front world where
  requested : world.pendingQueries ≠ [] → world.requestedAnalysis = some world.session.snapshotId

end

section
variable {pkgs : List SourcePackage}
  {front : List (WorkspaceSnapshotAnalysis (WorkspaceAnalysis Index))} {world next : World Index}

/-- A turn that leaves the session and the analyses alone keeps what its queries keep. -/
theorem Kept.of_eq (hkept : Kept compiler pkgs front world)
    (hsession : next.session = world.session) (hlatest : next.latestAnalysis = world.latestAnalysis)
    (hrequested : next.requestedAnalysis = world.requestedAnalysis) (hsent : next.sent = world.sent)
    (hpending : ∀ request ∈ next.pendingQueries, request ∈ world.pendingQueries) :
    Kept compiler pkgs front next where
  shows := by
    rw [hsession]
    exact hkept.shows
  pending := by
    intro request hreq
    rw [hsession]
    exact hkept.pending request (hpending request hreq)
  flying := by
    rw [hrequested, hsent]
    exact hkept.flying
  completed := by
    rw [hsession]
    exact hkept.completed
  sent := by
    rw [hsession, hsent]
    exact hkept.sent
  latest := by
    rw [hsession, hlatest]
    exact hkept.latest
  requested := by
    intro hne
    rw [hsession, hrequested]
    obtain ⟨request, hreq⟩ := exists_mem_of_ne_nil _ hne
    exact hkept.requested (ne_nil_of_mem (hpending request hreq))

theorem Kept.write (hkept : Kept compiler pkgs front world) (message : Sent) :
    Kept compiler pkgs front (world.write message) :=
  hkept.of_eq rfl rfl rfl rfl fun _ hreq => hreq

/-- The analysis of the current snapshot is requested, and on its way. -/
theorem Ready.schedule (hready : Ready compiler pkgs front world) :
    Kept compiler pkgs front world.scheduleAnalysis := by
  rw [scheduleAnalysis]
  split_ifs with hrequested
  · exact ⟨hready, fun _ => hrequested⟩
  · refine ⟨⟨hready.shows, hready.pending, ?_, hready.completed, ?_, hready.latest⟩,
      fun _ => rfl⟩
    · intro id hid
      rw [map_append, ← append_assoc]
      exact getLast?_concat.trans hid
    · intro snapshot hsnap
      rcases mem_append.mp hsnap with hsnap | hsnap
      · exact hready.sent snapshot hsnap
      · exact ⟨world.session, ⟨hready.shows, [], rfl⟩, mem_singleton.mp hsnap⟩

theorem Kept.enqueue (hkept : Kept compiler pkgs front world) (id : Value)
    (kind : QueryKind) (params : Value) :
    Kept compiler pkgs front (world.enqueue id kind params) := by
  apply Ready.schedule
  refine ⟨hkept.shows, ?_, hkept.flying, hkept.completed, hkept.sent, hkept.latest⟩
  intro request hreq
  rcases mem_append.mp hreq with hreq | hreq
  · exact hkept.pending request hreq
  · rw [mem_singleton.mp hreq]

theorem Kept.change (hkept : Kept compiler pkgs front world) (op : Operation) :
    Kept compiler pkgs front ({ world with
      session := after world.session op }.invalidateSupersededRequests.scheduleAnalysis) := by
  apply Ready.schedule
  refine ⟨?_, ?_, hkept.flying, ?_, ?_, ?_⟩
  · obtain ⟨ops, hshows⟩ := hkept.shows
    exact ⟨_, hshows.run [op]⟩
  · intro request hreq
    exact of_decide_eq_true (mem_filter.mp hreq).2
  · intro res hres
    obtain ⟨past, hpast, hanalysis⟩ := hkept.completed res hres
    exact ⟨past, hpast.after op, hanalysis⟩
  · intro snapshot hsnap
    obtain ⟨past, hpast, hsame⟩ := hkept.sent snapshot hsnap
    exact ⟨past, hpast.after op, hsame⟩
  · intro id analysis hlatest
    obtain ⟨past, res, hpast, hrest⟩ := hkept.latest id analysis hlatest
    exact ⟨past, res, hpast.after op, hrest⟩

/-! ## Answers -/

theorem query_eq (server : Server Index) {res : WorkspaceSnapshotAnalysis (WorkspaceAnalysis Index)}
    (hlatest : server.latestAnalysis = some (res.id, res.analysis)) (kind : QueryKind)
    (params : Value) :
    server.query compiler kind params =
      (serverWith server.session res).query compiler kind params := by
  cases server
  cases hlatest
  cases kind <;> rfl

/-- The latest analysis is that of the current snapshot where it has its identity. -/
theorem Ready.current (hready : Ready compiler pkgs front world)
    (hupToDate : world.upToDate = true) :
    ∃ res, analysisOf compiler world.session = some res ∧ res.id = world.session.snapshotId ∧
      world.latestAnalysis = some (res.id, res.analysis) := by
  rw [Server.upToDate] at hupToDate
  cases hlatest : world.latestAnalysis with
  | none =>
    rw [hlatest] at hupToDate
    cases hupToDate
  | some latest =>
    obtain ⟨id, analysis⟩ := latest
    rw [hlatest] at hupToDate
    have hid : id = world.session.snapshotId := of_decide_eq_true hupToDate
    obtain ⟨past, res, hpast, hpastId, hres, hanalysis⟩ := hready.latest id analysis hlatest
    have hsame := hpast.eq_of_id (hpastId.symm.trans hid)
    obtain ⟨ops, hshows⟩ := hready.shows
    have hexact := hshows.analyze (analyzeWorkspacePackages compiler)
    rw [hsame] at hres
    have hresultId : res.id = world.session.snapshotId := by
      rw [analysisOf, hexact] at hres
      rw [← Option.some_inj.mp hres]
    refine ⟨res, hres, hresultId, ?_⟩
    rw [hid, hanalysis, hresultId]

theorem Ready.fresh_answer (hready : Ready compiler pkgs front world)
    (hupToDate : world.upToDate = true) (id : Value) (kind : QueryKind) (params : Value) :
    Fresh compiler world.session (.answer id kind params (world.query compiler kind params)) := by
  obtain ⟨res, hres, hid, hlatest⟩ := hready.current hupToDate
  exact ⟨res, hres, hid, query_eq world.toServer hlatest kind params⟩

end

end Salicin.Editor
