import Salicin.Editor.ServerTurns

/-!
# The server answers every request once, with fresh data

Turn by turn, over every order of messages, analyses and completions.
-/

namespace Salicin.Editor

open List World System Turn

variable {Index : Type} {compiler : Compiler Index} {packages : List SourcePackage}
  {front : List (WorkspaceSnapshotAnalysis (WorkspaceAnalysis Index))} {world : World Index}

/-! ## Requests -/

variable {res : WorkspaceSnapshotAnalysis (WorkspaceAnalysis Index)} {session : WorkspaceSession}

theorem analysisOf_id {ops : List Operation} (hshows : Shows packages ops session)
    (hres : analysisOf compiler session = some res) : res.id = session.snapshotId := by
  rw [analysisOf, hshows.analyze] at hres
  rw [← Option.some_inj.mp hres]

/-- The analysis of a session has a document for each that its snapshot has. -/
theorem exists_analysed {ops : List Operation} (hshows : Shows packages ops session)
    (hres : analysisOf compiler session = some res) {document : WorkspaceSnapshotDocument}
    (hdoc : document ∈ session.snapshot.documents) :
    ∃ analysed ∈ res.analysis.documents, analysed.path = document.path := by
  rw [analysisOf, hshows.analyze] at hres
  rw [← Option.some_inj.mp hres]
  rw [hshows.snapshot, documentsOf, mem_flatMap] at hdoc
  obtain ⟨pkg, hpkg, hdoc⟩ := hdoc
  obtain ⟨unit, hunit, rfl⟩ := mem_map.mp hdoc
  let shown : SourceUnit := { unit with source := (viewOf unit ops).source }
  refine ⟨⟨unit.path, compiler.editorTokens shown.source⟩, ?_, rfl⟩
  apply mem_map.mpr
  refine ⟨shown, ?_, rfl⟩
  rw [mem_flatMap]
  exact ⟨shownPackage ops pkg, mem_map_of_mem hpkg, mem_map_of_mem hunit⟩

section
variable (hkept : Kept compiler packages front world)
include hkept

theorem semanticTokens_ok {params : Value}
    (hvalid : validateSemanticDocument world.session params = .ok ())
    (hupToDate : world.upToDate = true) :
    ∃ value, world.semanticTokens params = .ok value := by
  obtain ⟨ops, hshows⟩ := hkept.shows
  obtain ⟨res, hres, -, hlatest⟩ := hkept.current hupToDate
  rw [validateSemanticDocument] at hvalid
  rw [Server.semanticTokens]
  obtain ⟨object, hobject, hvalid⟩ := ExceptLists.bind_eq_ok.mp hvalid
  obtain ⟨uri, huri, hvalid⟩ := ExceptLists.bind_eq_ok.mp hvalid
  obtain ⟨path, hpath, hvalid⟩ := ExceptLists.bind_eq_ok.mp hvalid
  split_ifs at hvalid with hany
  obtain ⟨document, hdoc, hsame⟩ := any_eq_true.mp hany
  obtain ⟨analysed, hanalysed, hanalysedPath⟩ := exists_analysed hshows hres hdoc
  have hfind : (res.analysis.documents.find? fun document => document.path == path).isSome := by
    rw [List.find?_isSome]
    refine ⟨analysed, hanalysed, ?_⟩
    rw [hanalysedPath]
    exact hsame
  obtain ⟨found, hfound⟩ := Option.isSome_iff_exists.mp hfind
  simp only [hobject, huri, hpath, hlatest, hfound, bind, Except.bind]
  exact ⟨_, rfl⟩

theorem handleSemanticTokens_turn (id params : Value) :
    ∃ next, world.handleSemanticTokens id params = some next ∧
      Kept compiler packages front next ∧ Turn compiler world next [id] := by
  rw [handleSemanticTokens]
  cases hvalid : validateSemanticDocument world.session params with
  | error message => exact ⟨_, rfl, hkept.write _, turn_failure world id _ _⟩
  | ok valid =>
    simp only
    split_ifs with hupToDate
    · obtain ⟨value, hval⟩ := semanticTokens_ok hkept hvalid hupToDate
      rw [hval]
      refine ⟨_, rfl, hkept.write _, turn_write world ?_⟩
      have hfresh := hkept.fresh_answer hupToDate id .semanticTokens params
      rw [Server.query] at hfresh
      rw [← hval]
      exact hfresh
    · exact ⟨_, rfl, hkept.enqueue id _ params, turn_enqueue world id _ params⟩

theorem handleNavigation_turn (id : Value) (kind : QueryKind) (params : Value) :
    Kept compiler packages front (world.handleNavigation compiler id kind params) ∧
      Turn compiler world (world.handleNavigation compiler id kind params) [id] := by
  rw [handleNavigation]
  cases hvalid : validateNavigationPosition world.session params with
  | error message => exact ⟨hkept.write _, turn_failure world id _ _⟩
  | ok valid =>
    simp only
    split_ifs with hname hupToDate
    · exact ⟨hkept.write _, turn_failure world id _ _⟩
    · exact ⟨hkept.write _, turn_write world (hkept.fresh_answer hupToDate id kind params)⟩
    · exact ⟨hkept.enqueue id kind params, turn_enqueue world id kind params⟩

theorem handleRequest_turn (id : Value) (method : String) (params : Value) :
    ∃ next, world.handleRequest compiler id method params = some next ∧
      Kept compiler packages front next ∧ Turn compiler world next [id] := by
  have hlifecycle : ∀ lifecycle : Lifecycle,
      Kept compiler packages front { world with lifecycle := lifecycle } := by
    intro lifecycle
    exact hkept.of_eq rfl rfl rfl rfl fun _ hreq => hreq
  rw [handleRequest]
  split_ifs with hinitialize hwaiting hshutdown hrunning hlate htoks
  · refine ⟨_, rfl, (hlifecycle .running).write _, ?_⟩
    exact (turn_response { world with lifecycle := .running } id initializeResult).of_eq rfl rfl
  · exact ⟨_, rfl, hkept.write _, turn_failure world id _ _⟩
  · let stopped := { world with lifecycle := .shutdown }
    refine ⟨_, rfl, Kept.write ?_ _, ?_⟩
    · refine (hlifecycle .shutdown).of_eq rfl rfl rfl rfl fun request hreq => ?_
      cases hreq
    · have hcancel : Turn compiler stopped (stopped.cancelAllPending (-32800) "Request cancelled")
          [] := turn_cancelAllPending stopped _ _
      exact (hcancel.trans (turn_response _ id .null) rfl).of_eq rfl rfl
  · exact ⟨_, rfl, hkept.write _, turn_failure world id _ _⟩
  · exact ⟨_, rfl, hkept.write _, turn_failure world id _ _⟩
  · exact handleSemanticTokens_turn hkept id params
  · cases hkind : navigationKind method with
    | none => exact ⟨_, rfl, hkept.write _, turn_failure world id _ _⟩
    | some kind => exact ⟨_, rfl, handleNavigation_turn hkept id kind params⟩

/-! ## Notifications -/

theorem Kept.cancelRequest (params : Value) :
    Kept compiler packages front (world.cancelRequest params) := by
  rw [World.cancelRequest]
  cases params.get "id" with
  | none => exact hkept
  | some id =>
    cases hidx : world.pendingQueries.findIdx? fun request => request.id == id with
    | none =>
      simp only [hidx]
      exact hkept
    | some index =>
      simp only [hidx]
      exact hkept.of_eq rfl rfl rfl rfl fun _ hreq => mem_of_mem_eraseIdx hreq

/-- A change of a document is taken over with its consequences, or its error is logged. -/
theorem change_turn (change : Except String Operation) (next : World Index)
    (hnext : next = match world.synchronize change with
      | (world, .ok ()) => world.invalidateSupersededRequests.scheduleAnalysis
      | (world, .error message) => world.write (.log message)) :
    Kept compiler packages front next ∧ Turn compiler world next [] := by
  have hlog : ∀ message : String, Kept compiler packages front (world.write (.log message)) ∧
      Turn compiler world (world.write (.log message)) [] :=
    fun message => ⟨hkept.write _, turn_write world trivial⟩
  cases change with
  | error message =>
    rw [hnext]
    exact hlog message
  | ok op =>
    cases hperform : op.perform world.session with
    | error error session =>
      simp only [synchronize, hperform, perform_error hperform] at hnext
      rw [hnext]
      exact hlog _
    | ok id session =>
      have hafter : after world.session op = session := by
        rw [after, hperform]
      simp only [synchronize, hperform] at hnext
      let changed := { world with session := session }
      have hinvalidate : Turn compiler changed changed.invalidateSupersededRequests [] :=
        turn_invalidate changed
      have hkeeps := hkept.change op
      rw [hafter] at hkeeps
      rw [hnext]
      exact ⟨hkeeps, (hinvalidate.trans (turn_schedule _) (schedule_session _)).of_eq rfl rfl⟩

theorem handleNotification_turn (method : String) (params : Value) :
    Kept compiler packages front (world.handleNotification method params) ∧
      Turn compiler world (world.handleNotification method params) [] := by
  rw [handleNotification]
  split_ifs with hlifecycle hinitialized hcancel
  · exact ⟨hkept, refl compiler world⟩
  · exact ⟨hkept.schedule, turn_schedule world⟩
  · exact ⟨hkept.cancelRequest params, turn_cancelRequest world params⟩
  · cases hchange : documentChange method params with
    | none => exact ⟨hkept, refl compiler world⟩
    | some change => exact change_turn hkept change _ rfl

/-- The id under which the response to a message is due. -/
def dueOf (message : Value) : Option Value :=
  match message.asObject with
  | none => some .null
  | some object =>
    if (object.lookup "jsonrpc").bind Value.asStr = some "2.0" ∧
      ((object.lookup "method").bind Value.asStr).isSome then object.lookup "id"
    else some ((object.lookup "id").getD .null)

theorem handleMessage_turn (message : Value) :
    ∃ next exitCode, world.handleMessage compiler message = some (next, exitCode) ∧
      Kept compiler packages front next ∧ Turn compiler world next (dueOf message).toList := by
  rw [handleMessage, dueOf]
  cases message.asObject with
  | none => exact ⟨_, _, rfl, hkept.write _, turn_failure world _ _ _⟩
  | some object =>
    simp only
    cases hmethod : (object.lookup "method").bind Value.asStr with
    | none =>
      simp only
      rw [if_neg (fun hreq => Bool.false_ne_true hreq.2)]
      exact ⟨_, _, rfl, hkept.write _, turn_failure world _ _ _⟩
    | some method =>
      simp only
      by_cases hver : (object.lookup "jsonrpc").bind Value.asStr = some "2.0"
      · have hreq : (object.lookup "jsonrpc").bind Value.asStr = some "2.0" ∧
            (some method).isSome = true := ⟨hver, rfl⟩
        rw [if_neg (not_not.mpr hver), if_pos hreq]
        cases object.lookup "id" with
        | none =>
          simp only
          by_cases hexit : method = "exit"
          · rw [if_pos hexit]
            exact ⟨world, _, rfl, hkept, refl compiler world⟩
          · rw [if_neg hexit]
            exact ⟨_, _, rfl, handleNotification_turn hkept method _⟩
        | some id =>
          obtain ⟨next, hnext, hturn⟩ := handleRequest_turn hkept id method
            ((object.lookup "params").getD .null)
          simp only
          rw [hnext]
          exact ⟨next, none, rfl, hturn⟩
      · rw [if_pos hver, if_neg (fun hreq => hver hreq.1)]
        exact ⟨_, _, rfl, hkept.write _, turn_failure world _ _ _⟩

end

/-! ## Completed analyses -/

theorem foldl_answerPending {snapshot : WorkspaceSnapshotId} (requests : List PendingQuery)
    (world : World Index) (hcur : ∀ request ∈ requests, request.snapshot = snapshot) :
    requests.foldl (answerPending compiler snapshot) world =
      world.writeAll (requests.map fun request =>
        .answer request.id request.kind request.params
          (world.query compiler request.kind request.params)) := by
  induction requests generalizing world with
  | nil =>
    rw [foldl_nil, map_nil, writeAll, append_nil]
  | cons request rest ih =>
    have hhere : request.snapshot = snapshot := hcur request mem_cons_self
    rw [foldl_cons, answerPending, if_neg (not_not.mpr hhere),
      ih _ fun other hother => hcur other (mem_cons_of_mem _ hother)]
    rw [writeAll, writeAll, writeQueryResponse, write, map_cons]
    simp only [append_assoc, singleton_append]

theorem turn_publish (world : World Index) (hres : analysisOf compiler world.session = some res) :
    Turn compiler world (world.publish res) [] where
  written := by
    refine ⟨_, append_assoc .., fun message hmsg => ?_⟩
    rcases mem_append.mp hmsg with hmsg | hmsg
    · obtain ⟨document, hdoc, rfl⟩ := mem_map.mp hmsg
      exact ⟨res, hres, document, hdoc, rfl⟩
    · obtain ⟨diagnostic, hdiagnostic, rfl⟩ := mem_map.mp hmsg
      exact ⟨res, hres, (mem_filter.mp hdiagnostic).1⟩
  account := by
    have hnone : ∀ msgs : List Sent, (∀ message ∈ msgs, message.responseId = none) →
        msgs.filterMap Sent.responseId = [] := fun _ => filterMap_eq_nil_iff.mpr
    have hdiags := hnone (res.analysis.documents.map fun document =>
      .diagnostics (publishParams res.analysis res.documentVersions document)) (by
        intro message hmsg
        obtain ⟨document, -, rfl⟩ := mem_map.mp hmsg
        rfl)
    have hunplaced := hnone ((unplacedDiagnostics res.analysis).map .unplaced) (by
        intro message hmsg
        obtain ⟨diagnostic, -, rfl⟩ := mem_map.mp hmsg
        rfl)
    rw [account, account, publish]
    simp only [writeAll, filterMap_append, hdiags, hunplaced, append_nil]
    exact List.Perm.refl _

theorem turn_answerAllPending (world : World Index)
    (hres : analysisOf compiler world.session = some res) (hid : res.id = world.session.snapshotId)
    (hlatest : world.latestAnalysis = some (res.id, res.analysis))
    (hcur : ∀ request ∈ world.pendingQueries, request.snapshot = res.id) :
    Turn compiler world (world.answerAllPending compiler res.id) [] := by
  rw [answerAllPending, foldl_answerPending _ _ hcur]
  refine turn_settle world (List.Perm.of_eq (append_nil _)) ?_ ?_
  · rw [filterMap_map]
    exact congrFun filterMap_eq_map' world.pendingQueries
  · intro resp hresponse
    obtain ⟨request, -, rfl⟩ := mem_map.mp hresponse
    exact ⟨res, hres, hid, query_eq _ hlatest request.kind request.params⟩

/-- The snapshot that was asked for last is still on its way behind another one. -/
theorem Ready.flying_behind (hready : Ready compiler packages (res :: front) world)
    {other : WorkspaceSnapshotId}
    (hrequested : (if world.requestedAnalysis = some res.id then none
      else world.requestedAnalysis) = some other) :
    (front.map WorkspaceSnapshotAnalysis.id ++
      world.sent.map WorkspaceSnapshot.id).getLast? = some other := by
  split_ifs at hrequested with hsame
  have hlast := hready.flying other hrequested
  rw [map_cons, cons_append] at hlast
  cases hrest : front.map WorkspaceSnapshotAnalysis.id ++
      world.sent.map WorkspaceSnapshot.id with
  | nil =>
    rw [hrest] at hlast
    exact absurd (hrequested.trans hlast.symm) hsame
  | cons first others =>
    rw [hrest, getLast?_cons_cons] at hlast
    exact hlast

theorem accept_turn (hkept : Kept compiler packages (res :: front) world) :
    Kept compiler packages front (world.acceptAndPublish compiler res) ∧
      Turn compiler world (world.acceptAndPublish compiler res) [] := by
  obtain ⟨past, hpast, hanalysis⟩ := hkept.completed res mem_cons_self
  obtain ⟨ops, hshows⟩ := hpast.1
  have hid := analysisOf_id hshows hanalysis
  have hcompleted : ∀ other ∈ front, ∃ past, Past packages world.session past ∧
      analysisOf compiler past = some other :=
    fun other hother => hkept.completed other (mem_cons_of_mem _ hother)
  let requested := if world.requestedAnalysis = some res.id then none else world.requestedAnalysis
  let settled := { world with requestedAnalysis := requested }
  by_cases hcur : res.id = world.session.snapshotId
  · have hpastCurrent : past = world.session := hpast.eq_of_id (hid.symm.trans hcur)
    rw [hpastCurrent] at hanalysis
    have hnext : world.acceptAndPublish compiler res =
        (settled.publish res).answerAllPending compiler res.id := by
      rw [acceptAndPublish]
      simp only [WorkspaceSession.acceptAnalysis, if_pos hcur]
      rfl
    have hpending : ∀ request ∈ (settled.publish res).pendingQueries, request.snapshot = res.id :=
      fun request hreq => (hkept.pending request hreq).trans hcur.symm
    have hpublish : Turn compiler settled (settled.publish res) [] := turn_publish settled hanalysis
    have hans : Turn compiler (settled.publish res)
        ((settled.publish res).answerAllPending compiler res.id) [] :=
      turn_answerAllPending _ hanalysis hcur rfl hpending
    have hexact : (settled.publish res).answerAllPending compiler res.id =
        writeAll { settled.publish res with pendingQueries := [] } _ :=
      foldl_answerPending _ _ hpending
    rw [hnext]
    refine ⟨?_, (hpublish.trans hans (by rw [hexact]; rfl)).of_eq rfl rfl⟩
    rw [hexact]
    refine ⟨⟨hkept.shows, fun _ h => absurd h not_mem_nil, ?_, hcompleted, hkept.sent, ?_⟩,
      fun h => absurd rfl h⟩
    · intro id hrequested
      exact hkept.flying_behind hrequested
    · intro id analysis hlatest
      cases hlatest
      exact ⟨world.session, res, ⟨hkept.shows, [], rfl⟩, hcur, hanalysis, rfl⟩
  · have hnext : world.acceptAndPublish compiler res = settled := by
      rw [acceptAndPublish]
      simp only [WorkspaceSession.acceptAnalysis, if_neg hcur]
      rfl
    rw [hnext]
    refine ⟨⟨⟨hkept.shows, hkept.pending, ?_, hcompleted, hkept.sent, hkept.latest⟩, ?_⟩,
      (refl compiler settled).of_eq rfl rfl⟩
    · intro id hrequested
      exact hkept.flying_behind hrequested
    · intro hne
      -- The queries wait for another analysis than this one.
      have hwaiting := hkept.requested hne
      have hother : world.requestedAnalysis ≠ some res.id := by
        rw [hwaiting]
        exact fun h => hcur (Option.some_inj.mp h).symm
      exact (if_neg hother).trans hwaiting

/-! ## The system -/

/-- The id under which an event makes a response due. -/
def due : Event → Option Value
  | .input none => some .null
  | .input (some message) => dueOf message
  | .endOfInput | .analyze _ | .completion => none

/-- The snapshots whose analyses the server has not taken yet. -/
def inFlight (system : System Index) : List WorkspaceSnapshotId :=
  system.completed.map WorkspaceSnapshotAnalysis.id ++ system.sent.map WorkspaceSnapshot.id

theorem Kept.start (hshows : Shows packages [] session) :
    Kept compiler packages [] (start session : System Index).toWorld where
  shows := ⟨[], hshows⟩
  pending := fun _ h => absurd h not_mem_nil
  flying := fun _ h => by cases h
  completed := fun _ h => absurd h not_mem_nil
  sent := fun _ h => absurd h not_mem_nil
  latest := fun _ _ h => by cases h
  requested := fun h => absurd rfl h

variable {system : System Index}

/-- An analysis that passes over some snapshots takes a later one. -/
theorem Kept.analyze (hkept : Kept compiler packages system.completed system.toWorld)
    {skipped : Nat} {snapshot : WorkspaceSnapshot} {rest : List WorkspaceSnapshot}
    (hdrop : system.sent.drop skipped = snapshot :: rest) :
    ∃ res, snapshot.analyze (analyzeWorkspacePackages compiler) = some res ∧
      Kept compiler packages (system.completed ++ [res])
        { system.toWorld with sent := rest } := by
  have hmem : ∀ other ∈ snapshot :: rest, other ∈ system.sent := by
    intro other hother
    rw [← hdrop] at hother
    exact mem_of_mem_drop hother
  obtain ⟨past, hpast, hsnap⟩ := hkept.sent snapshot (hmem _ mem_cons_self)
  obtain ⟨ops, hshows⟩ := hpast.1
  have hanalyze := hshows.analyze (analyzeWorkspacePackages compiler)
  rw [← hsnap] at hanalyze
  refine ⟨_, hanalyze, ⟨hkept.shows, hkept.pending, ?_, ?_, ?_, hkept.latest⟩, hkept.requested⟩
  · intro id hid
    have hlast := hkept.flying id hid
    have hsplit := take_append_drop skipped system.sent
    rw [hdrop] at hsplit
    rw [← hsplit, map_append, map_cons, ← append_assoc] at hlast
    rw [map_append, append_assoc, map_cons, map_nil, singleton_append]
    have hid : snapshot.id = past.snapshotId := by
      rw [hsnap]
      rfl
    rw [hid] at hlast
    rw [getLast?_append_cons] at hlast ⊢
    exact hlast
  · intro res hres
    rcases mem_append.mp hres with hres | hres
    · exact hkept.completed res hres
    · rw [mem_singleton.mp hres]
      refine ⟨past, hpast, ?_⟩
      rw [analysisOf, ← hsnap]
      exact hanalyze
  · exact fun other hother => hkept.sent other (hmem _ (mem_cons_of_mem _ hother))

/-- What a step does: what is due is answered or waits, and what is sent is fresh. -/
theorem step_turn (hkept : Kept compiler packages system.completed system.toWorld) (event : Event) :
    ∃ next, system.step compiler event = some next ∧
      Kept compiler packages next.completed next.toWorld ∧
      Turn compiler system.toWorld next.toWorld
        (if system.exitCode.isSome then [] else (due event).toList) := by
  rw [System.step.eq_def]
  by_cases hexit : system.exitCode.isSome = true
  · rw [if_pos hexit, if_pos hexit]
    exact ⟨system, rfl, hkept, refl compiler _⟩
  rw [if_neg hexit, if_neg hexit]
  cases event with
  | input message =>
    cases message with
    | none => exact ⟨_, rfl, hkept.write _, turn_failure _ _ _ _⟩
    | some message =>
      obtain ⟨next, exitCode, hnext, hkeeps, hturn⟩ := handleMessage_turn hkept message
      simp only
      rw [hnext]
      exact ⟨_, rfl, hkeeps, hturn⟩
  | endOfInput => exact ⟨_, rfl, hkept, refl compiler _⟩
  | analyze skipped =>
    cases hdrop : system.sent.drop skipped with
    | nil =>
      simp only [hdrop]
      exact ⟨system, rfl, hkept, refl compiler _⟩
    | cons snapshot rest =>
      obtain ⟨res, hres, hkeeps⟩ := hkept.analyze hdrop
      simp only [hdrop]
      rw [hres]
      let analysed := { system.toWorld with sent := rest }
      exact ⟨_, rfl, hkeeps, (refl compiler analysed).of_eq rfl rfl⟩
  | completion =>
    cases hcompleted : system.completed with
    | nil =>
      simp only
      exact ⟨system, rfl, hkept, refl compiler _⟩
    | cons res rest =>
      rw [hcompleted] at hkept
      simp only
      exact ⟨_, rfl, accept_turn hkept⟩

/-- The ids of the responses that become due in a run. -/
def dueFrom (compiler : Compiler Index) (system : System Index) : List Event → List Value
  | [] => []
  | event :: rest =>
    (if system.exitCode.isSome then [] else (due event).toList) ++
      match system.step compiler event with
      | some next => dueFrom compiler next rest
      | none => []

theorem run_turn (events : List Event)
    (hkept : Kept compiler packages system.completed system.toWorld) :
    ∃ next, system.run compiler events = some next ∧
      Kept compiler packages next.completed next.toWorld ∧
      (account next.toWorld).Perm
        (account system.toWorld ++ dueFrom compiler system events) := by
  induction events generalizing system with
  | nil =>
    refine ⟨system, rfl, hkept, ?_⟩
    rw [dueFrom, append_nil]
  | cons event rest ih =>
    obtain ⟨middle, hstep, hmid, hturn⟩ := step_turn hkept event
    obtain ⟨next, hrun, hnext, haccount⟩ := ih hmid
    refine ⟨next, ?_, hnext, ?_⟩
    · rw [System.run, foldlM_cons, hstep]
      exact hrun
    · rw [dueFrom, hstep, ← append_assoc]
      exact haccount.trans (hturn.account.append_right _)

theorem Kept.pending_eq_nil (hkept : Kept compiler packages system.completed system.toWorld)
    (hnone : inFlight system = []) : system.pendingQueries = [] := by
  by_contra hne
  have hlast : (inFlight system).getLast? = some system.session.snapshotId :=
    hkept.flying _ (hkept.requested hne)
  rw [hnone] at hlast
  cases hlast

theorem sent_acceptAndPublish (world : World Index)
    (res : WorkspaceSnapshotAnalysis (WorkspaceAnalysis Index)) :
    (world.acceptAndPublish compiler res).sent = world.sent := by
  have hfold : ∀ (requests : List PendingQuery) (world : World Index),
      (requests.foldl (answerPending compiler res.id) world).sent = world.sent := by
    intro requests
    induction requests with
    | nil => exact fun _ => rfl
    | cons request rest ih =>
      intro world
      rw [foldl_cons, ih, answerPending]
      split_ifs <;> rfl
  rw [acceptAndPublish]
  simp only
  cases world.session.acceptAnalysis res with
  | none => rfl
  | some analysis => exact hfold _ _

/-- Analyses and completions alone lead to where nothing is on its way. -/
theorem exists_drained (hkept : Kept compiler packages system.completed system.toWorld)
    (hrunning : system.exitCode = none) :
    ∃ events final, (∀ event ∈ events, event = .analyze 0 ∨ event = .completion) ∧
      system.run compiler events = some final ∧ inFlight final = [] := by
  -- Each of them takes a snapshot or an analysis a step further.
  induction hsize : 2 * system.sent.length + system.completed.length using Nat.strong_induction_on
    generalizing system with
  | _ size ih =>
    have hgo : ∀ event : Event, event = .analyze 0 ∨ event = .completion →
        ∀ next, system.step compiler event = some next → next.exitCode = none →
        2 * next.sent.length + next.completed.length < size →
        ∃ events final, (∀ event ∈ events, event = .analyze 0 ∨ event = .completion) ∧
          system.run compiler events = some final ∧ inFlight final = [] := by
      intro event hevent next hstep hnext hless
      obtain ⟨middle, hmid, hkeeps, -⟩ := step_turn hkept event
      obtain rfl := Option.some_inj.mp (hmid.symm.trans hstep)
      obtain ⟨events, final, hevents, hrun, hdrained⟩ := ih _ hless hkeeps hnext rfl
      refine ⟨event :: events, final, forall_mem_cons.mpr ⟨hevent, hevents⟩, ?_, hdrained⟩
      rw [System.run, foldlM_cons, hstep]
      exact hrun
    have hopen : ¬ system.exitCode.isSome = true := by
      rw [hrunning]
      exact Bool.false_ne_true
    cases hsent : system.sent with
    | cons snapshot rest =>
      have hdrop : system.sent.drop 0 = snapshot :: rest := hsent
      obtain ⟨res, hres, -⟩ := hkept.analyze hdrop
      refine hgo (.analyze 0) (.inl rfl)
        { system with sent := rest, completed := system.completed ++ [res] } ?_ hrunning ?_
      · rw [System.step.eq_def, if_neg hopen]
        simp only [hdrop]
        rw [hres]
        rfl
      · rw [hsent, length_cons] at hsize
        simp only [length_append, length_cons, length_nil]
        omega
    | nil =>
      cases hcompleted : system.completed with
      | cons res rest =>
        refine hgo .completion (.inr rfl)
          { system with toWorld := system.acceptAndPublish compiler res, completed := rest }
          ?_ hrunning ?_
        · rw [System.step.eq_def, if_neg hopen]
          simp only [hcompleted]
        · rw [hcompleted, length_cons] at hsize
          simp only [sent_acceptAndPublish]
          omega
      | nil =>
        refine ⟨[], system, fun _ h => absurd h not_mem_nil, rfl, ?_⟩
        rw [inFlight, hsent, hcompleted]
        rfl

/-- After every order of messages, analyses and completions: the requests that have come are those
that are responded to, once each, and those that wait; a query waits only for the current snapshot,
whose analysis is requested and on its way, so that none waits once nothing is on its way, which
analyses and completions lead to; and what a step sends of answers and diagnostics comes from the
analysis of the snapshot that is then the current one. -/
theorem server_answers (compiler : Compiler Index) {id : Nat} {target : DocumentTarget}
    {session : WorkspaceSession} (hnew : newPackages id packages target = .ok session)
    (events : List Event) :
    ∃ system, (start session).run compiler events = some system ∧
      (system.written.filterMap Sent.responseId ++ system.pendingQueries.map PendingQuery.id).Perm
          (dueFrom compiler (start session) events) ∧
      (∀ request ∈ system.pendingQueries, request.snapshot = system.session.snapshotId ∧
        system.requestedAnalysis = some system.session.snapshotId ∧
        (inFlight system).getLast? = some system.session.snapshotId) ∧
      (inFlight system = [] → system.pendingQueries = []) ∧
      (system.exitCode = none → ∃ more final,
        (∀ event ∈ more, event = .analyze 0 ∨ event = .completion) ∧
        system.run compiler more = some final ∧ inFlight final = [] ∧
        final.pendingQueries = []) ∧
      (∀ event, ∃ next new, system.step compiler event = some next ∧
        next.written = system.written ++ new ∧
        ∀ message ∈ new, Fresh compiler next.session message) := by
  have hstart : Kept compiler packages (start session : System Index).completed
      (start session : System Index).toWorld := Kept.start (shows_newPackages hnew)
  obtain ⟨system, hrun, hkept, haccount⟩ := run_turn events hstart
  refine ⟨system, hrun, haccount, ?_, hkept.pending_eq_nil, ?_, ?_⟩
  · intro request hreq
    have hrequested := hkept.requested (ne_nil_of_mem hreq)
    exact ⟨hkept.pending request hreq, hrequested, hkept.flying _ hrequested⟩
  · intro hrunning
    obtain ⟨more, final, hmore, hfinal, hdrained⟩ := exists_drained hkept hrunning
    obtain ⟨last, hlast, hkeeps, -⟩ := run_turn more hkept
    obtain rfl := Option.some_inj.mp (hlast.symm.trans hfinal)
    exact ⟨more, last, hmore, hfinal, hdrained, hkeeps.pending_eq_nil hdrained⟩
  · intro event
    obtain ⟨next, hstep, -, hturn⟩ := step_turn hkept event
    obtain ⟨new, hwritten, hfresh⟩ := hturn.written
    exact ⟨next, new, hstep, hwritten, hfresh⟩

theorem server_answers_parse_error : ∃ session, newPackages 1 [] .binary = .ok session ∧
    ∃ system : System Unit, (start session).run
        ⟨fun _ => [], fun _ _ => ([], ()), fun _ _ _ => .ok .null, fun _ _ _ _ => .ok .null,
          fun _ _ _ => .ok .null, fun _ _ _ => .ok .null, fun _ _ _ _ _ => .ok .null⟩
        [.input none] = some system ∧
      (system.written.filterMap Sent.responseId ++
        system.pendingQueries.map PendingQuery.id).Perm [.null] := by
  obtain ⟨system, hrun, haccount, -⟩ := server_answers
    (⟨fun _ => [], fun _ _ => ([], ()), fun _ _ _ => .ok .null, fun _ _ _ _ => .ok .null,
      fun _ _ _ => .ok .null, fun _ _ _ => .ok .null, fun _ _ _ _ _ => .ok .null⟩ : Compiler Unit)
    (rfl : newPackages 1 [] .binary = .ok _) [.input none]
  exact ⟨_, rfl, system, hrun, haccount⟩

/-! ## The lifecycle -/

/-- Neither the response to a request nor the answer to a query. -/
def Sent.IsNotice : Sent → Prop
  | .response _ _ | .answer _ _ _ _ => False
  | .failure _ _ _ | .diagnostics _ | .unplaced _ | .log _ => True

/-- What a message comes to: unless the server is running or starts to, it only sends notices. -/
inductive Moves (before : World Index) : World Index → Option Int → Prop
  | idle (new : List Sent) (hnew : ∀ message ∈ new, message.IsNotice)
      (hidle : before.lifecycle ≠ .running) (code : Option Int)
      (hcode : code = some 0 → before.lifecycle = .shutdown) :
      Moves before (before.writeAll new) code
  | served (after : World Index) (hopen : before.lifecycle ≠ .shutdown)
      (hlater : after.lifecycle ≠ .waitingForInitialize)
      (hclosed : after.lifecycle = .shutdown → after.pendingQueries = []) (code : Option Int)
      (hcode : code ≠ some 0) : Moves before after code

variable {next : World Index} {code : Option Int}

theorem Moves.of_running (hrunning : world.lifecycle = .running)
    (hkept : next.lifecycle = world.lifecycle) (hcode : code ≠ some 0) : Moves world next code := by
  refine .served _ ?_ ?_ ?_ code hcode <;> simp [hkept, hrunning]

theorem moves_self (hcode : code = some 0 → world.lifecycle = .shutdown) :
    Moves world world code := by
  by_cases hrunning : world.lifecycle = .running
  · exact .of_running hrunning rfl fun hexit => by simp [hcode hexit] at hrunning
  · simpa [writeAll] using Moves.idle [] (by simp) hrunning code hcode

theorem moves_failure (id : Value) (number : Int) (text : String) :
    Moves world (world.write (.failure id number text)) none := by
  by_cases hrunning : world.lifecycle = .running
  · exact .of_running hrunning rfl (by simp)
  · exact .idle [.failure id number text] (by simp [Sent.IsNotice]) hrunning none (by simp)

theorem schedule_lifecycle (world : World Index) :
    world.scheduleAnalysis.lifecycle = world.lifecycle := by
  rw [scheduleAnalysis]
  split <;> rfl

theorem handleRequest_moves {id : Value} {method : String} {params : Value}
    (h : world.handleRequest compiler id method params = some next) : Moves world next none := by
  rw [handleRequest] at h
  split_ifs at h with hinitialize hwaiting hshutdown hrunning hlate htoks
  · cases h
    exact .served _ (by simp [hwaiting]) (by simp [write]) (by simp [write]) none (by simp)
  · cases h
    exact moves_failure ..
  · cases h
    refine .served _ (by simp [hrunning]) ?_ (fun _ => rfl) none (by simp)
    simp [write, cancelAllPending]
  · cases h
    exact moves_failure ..
  · cases h
    exact moves_failure ..
  · refine .of_running (not_not.mp hlate) ?_ (by simp)
    rw [handleSemanticTokens] at h
    repeat' split at h
    all_goals cases h
    all_goals first | rfl | exact schedule_lifecycle _
  · refine .of_running (not_not.mp hlate) ?_ (by simp)
    split at h <;> cases h
    · rw [handleNavigation]
      repeat' split
      all_goals first | rfl | exact schedule_lifecycle _
    · rfl

theorem synchronize_lifecycle (world : World Index) (change : Except String Operation) :
    (world.synchronize change).1.lifecycle = world.lifecycle := by
  unfold synchronize
  repeat' split
  all_goals rfl

theorem handleNotification_moves (world : World Index) (method : String) (params : Value) :
    Moves world (world.handleNotification method params) none := by
  rw [handleNotification]
  split_ifs with hidle
  · exact moves_self (by simp)
  all_goals refine .of_running (not_not.mp hidle) ?_ (by simp)
  · exact schedule_lifecycle _
  · rw [cancelRequest]
    repeat' split
    all_goals rfl
  · split
    · rfl
    · next change _ =>
      have hkept := synchronize_lifecycle world change
      split
      all_goals
        next hchange =>
        rw [hchange] at hkept
        first | exact (schedule_lifecycle _).trans hkept | exact hkept

theorem handleMessage_moves {message : Value}
    (h : world.handleMessage compiler message = some (next, code)) : Moves world next code := by
  simp only [handleMessage] at h
  repeat' split at h
  iterate 3
    · cases h
      exact moves_failure ..
  · next hshut =>
    cases h
    exact moves_self fun _ => hshut
  · cases h
    exact moves_self (by simp)
  · cases h
    exact handleNotification_moves ..
  · obtain ⟨_, hnext, hsame⟩ := Option.map_eq_some_iff.mp h
    cases hsame
    exact handleRequest_moves hnext

theorem lifecycle_acceptAndPublish (compiler : Compiler Index) (world : World Index)
    (res : WorkspaceSnapshotAnalysis (WorkspaceAnalysis Index)) :
    (world.acceptAndPublish compiler res).lifecycle = world.lifecycle := by
  simp only [acceptAndPublish]
  split
  · rfl
  · refine List.foldlRecOn (motive := fun next : World Index => next.lifecycle = world.lifecycle)
      _ _ rfl ?_
    intro next hnext request _
    rw [answerPending]
    split_ifs <;> exact hnext

/-- When no query waits, only the diagnostics of a completed analysis are sent. -/
theorem quiet_acceptAndPublish (compiler : Compiler Index) (world : World Index)
    (res : WorkspaceSnapshotAnalysis (WorkspaceAnalysis Index))
    (hpending : world.pendingQueries = []) :
    (world.acceptAndPublish compiler res).pendingQueries = [] ∧
      (world.acceptAndPublish compiler res).session = world.session ∧
      ∃ new, (world.acceptAndPublish compiler res).written = world.written ++ new ∧
        ∀ message ∈ new, message.IsNotice := by
  simp only [acceptAndPublish]
  split
  · exact ⟨hpending, rfl, [], by simp⟩
  · simp only [answerAllPending, publish, writeAll, hpending, foldl_nil, append_assoc]
    refine ⟨trivial, trivial, _, rfl, fun message hmsg => ?_⟩
    rcases mem_append.mp hmsg with hmsg | hmsg <;> obtain ⟨_, _, rfl⟩ := mem_map.mp hmsg <;> trivial

variable {final : System Index}

/-- What holds before the server runs and after it has been shut down. -/
structure Orderly (session : WorkspaceSession) (system : System Index) : Prop where
  waiting : system.lifecycle = .waitingForInitialize → system.session = session ∧
    system.sent = [] ∧ system.completed = [] ∧ ∀ message ∈ system.written, message.IsNotice
  shutdown : system.lifecycle = .shutdown → system.pendingQueries = []
  exited : system.exitCode = some 0 → system.lifecycle = .shutdown

/-- A server that has been shut down stays so with its session, and sends notices only. -/
def Quiet (system final : System Index) : Prop :=
  system.lifecycle = .shutdown → final.lifecycle = .shutdown ∧ final.session = system.session ∧
    ∃ new, final.written = system.written ++ new ∧ ∀ message ∈ new, message.IsNotice

theorem Quiet.of_eq (hlifecycle : final.lifecycle = system.lifecycle)
    (hsession : final.session = system.session) (hwritten : final.written = system.written) :
    Quiet system final :=
  fun hshut => ⟨hlifecycle.trans hshut, hsession, [], by simp [hwritten]⟩

theorem Orderly.moves (horderly : Orderly session system)
    (hmoves : Moves system.toWorld world code) :
    Orderly session { system with toWorld := world, exitCode := code } ∧
      Quiet system { system with toWorld := world, exitCode := code } := by
  cases hmoves with
  | idle new hnew hidle _ hcode =>
    refine ⟨⟨fun hwaiting => ?_, horderly.shutdown, hcode⟩,
      fun hshut => ⟨hshut, rfl, new, rfl, hnew⟩⟩
    obtain ⟨hsession, hsent, hcompleted, hwritten⟩ := horderly.waiting hwaiting
    exact ⟨hsession, hsent, hcompleted, forall_mem_append.mpr ⟨hwritten, hnew⟩⟩
  | served _ hopen hlater hclosed _ hcode =>
    exact ⟨⟨fun hwaiting => absurd hwaiting hlater, hclosed, fun hexit => absurd hexit hcode⟩,
      fun hshut => absurd hshut hopen⟩

theorem step_orderly (horderly : Orderly session system) {event : Event}
    (h : system.step compiler event = some final) : Orderly session final ∧ Quiet system final := by
  unfold step at h
  split_ifs at h with hended
  · cases h
    exact ⟨horderly, .of_eq rfl rfl rfl⟩
  have hnone : system.exitCode = none := Option.not_isSome_iff_eq_none.mp hended
  cases event with
  | input message =>
    cases message with
    | none =>
      cases h
      have hmoves : Moves system.toWorld (system.write (.failure .null (-32700) "Parse error"))
        system.exitCode := hnone ▸ moves_failure ..
      exact horderly.moves hmoves
    | some message =>
      obtain ⟨_, hworld, hfinal⟩ := Option.map_eq_some_iff.mp h
      cases hfinal
      exact horderly.moves (handleMessage_moves hworld)
  | endOfInput =>
    cases h
    exact ⟨⟨horderly.waiting, horderly.shutdown, by simp⟩, .of_eq rfl rfl rfl⟩
  | analyze skipped =>
    simp only at h
    split at h
    · cases h
      exact ⟨horderly, .of_eq rfl rfl rfl⟩
    · next hsent =>
      obtain ⟨_, _, hfinal⟩ := Option.map_eq_some_iff.mp h
      cases hfinal
      refine ⟨⟨fun hwaiting => ?_, horderly.shutdown, horderly.exited⟩, .of_eq rfl rfl rfl⟩
      simp [(horderly.waiting hwaiting).2.1] at hsent
  | completion =>
    simp only at h
    split at h
    · cases h
      exact ⟨horderly, .of_eq rfl rfl rfl⟩
    · next result rest hcompleted =>
      cases h
      have hkept := lifecycle_acceptAndPublish compiler system.toWorld result
      have hquiet := fun hshut => quiet_acceptAndPublish compiler system.toWorld result
        (horderly.shutdown hshut)
      refine ⟨⟨fun hwaiting => ?_, fun hshut => (hquiet (hkept.symm.trans hshut)).1,
        fun hexit => hkept.trans (horderly.exited hexit)⟩,
        fun hshut => ⟨hkept.trans hshut, (hquiet hshut).2⟩⟩
      simp [(horderly.waiting (hkept.symm.trans hwaiting)).2.2.1] at hcompleted

theorem run_orderly {events : List Event} (horderly : Orderly session system)
    (h : system.run compiler events = some final) : Orderly session final ∧ Quiet system final := by
  induction events generalizing system with
  | nil =>
    cases h
    exact ⟨horderly, .of_eq rfl rfl rfl⟩
  | cons event rest ih =>
    rw [System.run, foldlM_cons] at h
    obtain ⟨middle, hstep, hrest⟩ := Option.bind_eq_some_iff.mp h
    obtain ⟨hmiddle, hquiet⟩ := step_orderly horderly hstep
    obtain ⟨hfinal, hlater⟩ := ih hmiddle hrest
    refine ⟨hfinal, fun hshut => ?_⟩
    obtain ⟨hstays, hsession, new, hwritten, hnew⟩ := hquiet hshut
    obtain ⟨hlast, hsame, more, hmore, hnotices⟩ := hlater hstays
    exact ⟨hlast, hsame.trans hsession, new ++ more, by rw [hmore, hwritten, append_assoc],
      forall_mem_append.mpr ⟨hnew, hnotices⟩⟩

/-- Whatever the client sends: before it has initialized the server and after it has shut it down
no document changes and no request gets a result, a shutdown is final and leaves no query waiting,
and only an exit after it ends the server with the code 0. -/
theorem server_lifecycle {before later : List Event}
    (hbefore : (start session).run compiler before = some system)
    (hlater : system.run compiler later = some final) :
    (final.lifecycle = .waitingForInitialize → final.session = session ∧ final.sent = [] ∧
      final.completed = [] ∧ ∀ message ∈ final.written, message.IsNotice) ∧
    Quiet system final ∧ (final.lifecycle = .shutdown → final.pendingQueries = []) ∧
    (final.exitCode = some 0 → final.lifecycle = .shutdown) := by
  have hstart : Orderly session (start session : System Index) :=
    ⟨fun _ => ⟨rfl, rfl, rfl, by simp [start]⟩, fun _ => rfl, by simp [start]⟩
  obtain ⟨hfinal, hquiet⟩ := run_orderly (run_orderly hstart hbefore).1 hlater
  exact ⟨hfinal.waiting, hquiet, hfinal.shutdown, hfinal.exited⟩

theorem server_lifecycle_exit : ∃ system final : System Unit, system.lifecycle = .shutdown ∧
    final.exitCode = some 0 ∧ Quiet system final ∧ final.pendingQueries = [] := by
  let host : Compiler Unit := ⟨fun _ => [], fun _ _ => ([], ()), fun _ _ _ => .ok .null,
    fun _ _ _ _ => .ok .null, fun _ _ _ => .ok .null, fun _ _ _ => .ok .null,
    fun _ _ _ _ _ => .ok .null⟩
  let send (method : String) (id : List (String × Value)) : Event :=
    .input (some (.object (("jsonrpc", .string "2.0") :: ("method", .string method) :: id)))
  obtain ⟨-, hquiet, hclosed, -⟩ := server_lifecycle
    (rfl : (start ⟨⟨[], fun _ => none, .empty⟩, 1, 0, .binary, fun _ => none, []⟩).run host
      [send "initialize" [("id", .null)], send "shutdown" [("id", .null)]] = some _)
    (rfl : System.run host _ [send "exit" []] = some _)
  exact ⟨_, _, rfl, rfl, hquiet, hclosed rfl⟩

end Salicin.Editor
